import Mathlib.Logic.Function.Basic
import Seiran.Framework.Run

/-!
# Giving old accounts a rotation key of their own

`rotation_key_backfill.rs` and its repository: the accounts whose DID has the key of the server
as its only rotation key get one of their own before it. An administrator starts a run, and may
start another while the first one goes on.

The directory takes an operation that names the last one of its DID in `prev` and is signed by
one of the rotation keys of that. A request may reach it after its sender has given up, or never;
the answer may get lost; a run may end anywhere. The hash of an operation is a number here, and
so is a key, which is new when it is generated.
-/

namespace Seiran.KeyBackfill

structure PlcService where
  type : String
  endpoint : String
deriving DecidableEq

/-- What a DID document has besides its rotation keys -/
structure Doc where
  alsoKnownAs : List String
  verificationMethods : List (String × String)
  services : List (String × PlcService)
deriving DecidableEq

/-- A signed operation -/
structure Op where
  cid : Nat
  prev : Option Nat
  rotationKeys : List Nat
  doc : Doc
  signer : Nat
deriving DecidableEq

def sharedKey : Nat := 0

/-- `prepare_plc_rotation_update` -/
def preparePlcRotationUpdate (cid : Nat) (currentData : Doc) (prev : Nat)
    (newRotationKeys : List Nat) (alsoKnownAs : Option (List String))
    (verificationMethods : Option (List (String × String)))
    (services : Option (List (String × PlcService))) (signingKey : Nat) : Op :=
  { cid
    prev := some prev
    rotationKeys := newRotationKeys
    doc :=
      { alsoKnownAs := alsoKnownAs.getD currentData.alsoKnownAs
        verificationMethods := verificationMethods.getD currentData.verificationMethods
        services := services.getD currentData.services }
    signer := signingKey }

/-- A row of `actors`; `eligible` are the conditions of `CANDIDATE_WHERE` but that on the key. -/
structure Row where
  id : Nat
  eligible : Bool
  atRotationKeyPem : Option Nat
deriving DecidableEq

/-- `CANDIDATE_WHERE` -/
def Row.isCandidate (row : Row) : Bool := row.eligible && row.atRotationKeyPem.isNone

/-- `next_candidate` -/
def nextCandidate (rows : List Row) (afterId : Option Nat) : Option Nat :=
  ((rows.filter fun row => row.isCandidate && decide (afterId.getD 0 < row.id)).map (·.id)).min?

/-- `mark_backfilled` -/
def markBackfilled (rows : List Row) (id key : Nat) : List Row :=
  rows.map fun row => if row.id = id then { row with atRotationKeyPem := some key } else row

/-- Where a run is. -/
inductive Phase where
  | scanning
  /-- before `GET /data` -/
  | candidate (id : Nat)
  /-- before `GET /log/audit` -/
  | data (id : Nat) (currentData : Doc)
  | prepared (id : Nat) (op : Op)
  /-- inside `submit_plc_operation_raw` -/
  | submitting (id : Nat) (op : Op)
  /-- before `mark_backfilled` -/
  | submitted (id : Nat) (op : Op)
deriving DecidableEq

structure Run where
  dryRun : Bool
  afterId : Option Nat
  processed : Nat
  succeeded : Nat
  failed : Nat
  phase : Phase
deriving DecidableEq

structure State where
  rows : List Row
  /-- the operations of the DID of an account, the last one first -/
  log : Nat → List Op
  runs : Nat → Option Run
  /-- the runs that have not ended -/
  live : List Nat
  /-- the requests on their way to the directory -/
  inFlight : List (Nat × Op)
  nextKey : Nat
  nextCid : Nat
  reports : List Run

def genesis (cid : Nat) (keys : List Nat) (doc : Doc) : Op :=
  { cid, prev := none, rotationKeys := keys, doc, signer := keys.headD sharedKey }

/-- The accounts from before there were keys of their own -/
def init (accounts : List (Nat × Bool)) (doc : Nat → Doc) : State :=
  { rows := accounts.map fun a => { id := a.1, eligible := a.2, atRotationKeyPem := none }
    log := fun id => if id ∈ accounts.map (·.1) then [genesis 0 [sharedKey] (doc id)] else []
    runs := fun _ => none, live := [], inFlight := [], nextKey := 1, nextCid := 1, reports := [] }

inductive Action where
  | start (r : Nat) (dryRun : Bool)
  /-- `next_candidate`: an account, or the end -/
  | candidate (r : Nat)
  /-- `next_candidate` is an error -/
  | scanFails (r : Nat)
  | getData (r : Nat)
  /-- `/log/audit` is there, and the operation is made -/
  | getAudit (r : Nat)
  | fetchFails (r : Nat)
  | logOnly (r : Nat)
  | submit (r : Nat)
  /-- a request reaches the directory -/
  | arrive (id : Nat) (op : Op)
  | reply (r : Nat) (ok : Bool)
  | mark (r : Nat) (ok : Bool)
  | crash (r : Nat)
  /-- a new account, whose DID has a key of its own from the start -/
  | register (id : Nat) (doc : Doc)
  | withdraw (id : Nat)
deriving DecidableEq

def setRun (s : State) (r : Nat) (run : Run) : State :=
  { s with runs := Function.update s.runs r (some run) }

def setPhase (s : State) (r : Nat) (run : Run) (phase : Phase) : State :=
  setRun s r { run with phase }

def dropRun (s : State) (r : Nat) : State :=
  { s with runs := Function.update s.runs r none, live := s.live.filter (· ≠ r) }

/-- `BackfillReport` -/
def endRun (s : State) (r : Nat) (run : Run) : State :=
  { dropRun s r with reports := run :: s.reports }

def succeed (s : State) (r : Nat) (run : Run) : State :=
  setRun s r { run with succeeded := run.succeeded + 1, phase := .scanning }

def failOne (s : State) (r : Nat) (run : Run) : State :=
  setRun s r { run with failed := run.failed + 1, phase := .scanning }

def onRun (s : State) (r : Nat) (f : Run → Option State) : Option State := (s.runs r).bind f

/-- The directory takes the operation. -/
def valid (log : List Op) (op : Op) : Bool :=
  match log.head? with
  | some last => decide (op.prev = some last.cid ∧ op.signer ∈ last.rotationKeys)
  | none => false

def step (s : State) : Action → Option State
  | .start r dryRun =>
    match s.runs r with
    | none =>
      some (setRun { s with live := r :: s.live } r {
        dryRun, afterId := none, processed := 0, succeeded := 0, failed := 0, phase := .scanning })
    | some _ => none
  | .candidate r => onRun s r fun run =>
    if run.phase = .scanning then
      match nextCandidate s.rows run.afterId with
      | some id =>
        some (setRun s r { run with
          afterId := some id, processed := run.processed + 1, phase := .candidate id })
      | none => some (endRun s r run)
    else none
  | .scanFails r => onRun s r fun run =>
    if run.phase = .scanning then some (endRun s r run) else none
  | .getData r => onRun s r fun run =>
    match run.phase with
    | .candidate id => (s.log id).head?.map fun last => setPhase s r run (.data id last.doc)
    | _ => none
  | .getAudit r => onRun s r fun run =>
    match run.phase with
    | .data id currentData => (s.log id).head?.map fun last =>
      let op := preparePlcRotationUpdate s.nextCid currentData last.cid [s.nextKey, sharedKey]
        none none none sharedKey
      setPhase { s with nextKey := s.nextKey + 1, nextCid := s.nextCid + 1 } r run (.prepared id op)
    | _ => none
  | .fetchFails r => onRun s r fun run =>
    match run.phase with
    | .candidate _ | .data _ _ => some (failOne s r run)
    | _ => none
  | .logOnly r => onRun s r fun run =>
    match run.phase with
    | .prepared _ _ => if run.dryRun = true then some (succeed s r run) else none
    | _ => none
  | .submit r => onRun s r fun run =>
    match run.phase with
    | .prepared id op =>
      if run.dryRun = true then none
      else some (setPhase { s with inFlight := (id, op) :: s.inFlight } r run (.submitting id op))
    | _ => none
  | .arrive id op =>
    if (id, op) ∈ s.inFlight then
      some { s with
        inFlight := s.inFlight.erase (id, op)
        log := if valid (s.log id) op = true then Function.update s.log id (op :: s.log id)
          else s.log }
    else none
  | .reply r ok => onRun s r fun run =>
    match run.phase with
    | .submitting id op =>
      if ok = true then
        if op ∈ s.log id then some (setPhase s r run (.submitted id op)) else none
      else some (failOne s r run)
    | _ => none
  | .mark r ok => onRun s r fun run =>
    match run.phase with
    | .submitted id op =>
      if ok = true then
        some (succeed { s with rows := markBackfilled s.rows id (op.rotationKeys.headD sharedKey) }
          r run)
      else some (failOne s r run)
    | _ => none
  | .crash r => onRun s r fun _ => some (dropRun s r)
  | .register id doc =>
    if s.log id = [] ∧ ∀ row ∈ s.rows, row.id ≠ id then
      some { s with
        rows := s.rows ++ [{ id, eligible := true, atRotationKeyPem := some s.nextKey }]
        log := Function.update s.log id [genesis s.nextCid [s.nextKey, sharedKey] doc]
        nextKey := s.nextKey + 1
        nextCid := s.nextCid + 1 }
    else none
  | .withdraw id =>
    some { s with
      rows := s.rows.map fun row => if row.id = id then { row with eligible := false } else row }

def machine : Machine State Action := ⟨step⟩

/-! ## What a run is to leave -/

/-- No run is started while another goes on. -/
def Exclusive (s : State) : Action → Prop
  | .start _ _ => s.live = []
  | _ => True

instance (s : State) (a : Action) : Decidable (Exclusive s a) := by
  cases a <;> simp only [Exclusive] <;> infer_instance

/-- The key has the first say on the DID, and the key of the server the second. -/
def Controls (s : State) (id key : Nat) : Prop :=
  ∃ last, (s.log id).head? = some last ∧ last.rotationKeys = [key, sharedKey]

/-- An answer is lost, and another run does it. -/
def retried (doc : Doc) : List Action :=
  let last := genesis 0 [sharedKey] doc
  let first := preparePlcRotationUpdate 1 doc last.cid [1, sharedKey] none none none sharedKey
  let second := preparePlcRotationUpdate 2 doc first.cid [2, sharedKey] none none none sharedKey
  [.start 0 false, .candidate 0, .getData 0, .getAudit 0, .submit 0, .arrive 7 first,
    .reply 0 false, .candidate 0, .start 1 false, .candidate 1, .getData 1, .getAudit 1, .submit 1,
    .arrive 7 second, .reply 1 true, .mark 1 true, .candidate 1]

end Seiran.KeyBackfill
