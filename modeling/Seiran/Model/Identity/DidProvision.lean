import Mathlib.Logic.Function.Basic
import Seiran.Framework.Run

/-!
# Giving a new account its DID

`did_provision/mod.rs` and `repository/did_provision.rs`, for one account: the
row of `pending_did_provisions`, the columns of `actors`, the zone's TXT
records, plc.directory, and any number of processors that call `advance`.

A processor claims the row for `LEASE_SECS` and works on the copy it got. Its
calls to Cloudflare and PLC take any time, so the lease may run out under it;
the process may also stop between any two steps. A did:plc is the hash of its
genesis operation, so here a DID is the operation it names.
-/

namespace Seiran.DidProvision

/-- A signed genesis operation, by the keys it names. -/
structure GenesisOp where
  signingKey : Nat
  rotationKey : Nat
deriving DecidableEq

structure Did where
  genesis : GenesisOp
deriving DecidableEq

/-- A row of `pending_did_provisions`. -/
structure PendingDidRow where
  atDid : Did
  atSigningKey : Nat
  atRotationKey : Nat
  genesisOp : GenesisOp
  cfTxtRecordId : Option Nat
  txtVisible : Bool
deriving DecidableEq

/-- `prepare`: the DID and the keys of a new genesis operation. -/
def prepare (op : GenesisOp) : PendingDidRow :=
  { atDid := ⟨op⟩, atSigningKey := op.signingKey, atRotationKey := op.rotationKey, genesisOp := op,
    cfTxtRecordId := none, txtVisible := false }

/-- Where a processor is. -/
inductive Phase where
  /-- the row is claimed, nothing is decided -/
  | claimed
  /-- the TXT record is created, its id is not saved -/
  | created (recordId : Nat)
  /-- the TXT record is seen on all name servers -/
  | visible
  /-- `complete`, before `plc_did_exists` -/
  | ready (cf : Bool)
  /-- the DID is not registered, before `submit_plc_genesis_op` -/
  | unregistered (cf : Bool)
  /-- inside `submit_plc_genesis_op` -/
  | submitting (cf : Bool)
  /-- `regenerate`, before the TXT record is deleted -/
  | regenerating (cf : Bool)
  /-- `regenerate`, before `replace_genesis` -/
  | replacing
  /-- before `finalize` -/
  | finalizing
  /-- before `release` -/
  | releasing
deriving DecidableEq

structure Proc where
  row : PendingDidRow
  phase : Phase
deriving DecidableEq

structure State where
  /-- `actors.at_did`, `at_signing_key_pem`, `at_rotation_key_pem` -/
  atDid : Option Did
  atSigningKey : Option Nat
  atRotationKey : Option Nat
  pending : Option PendingDidRow
  /-- `locked_until` is in the future -/
  locked : Bool
  /-- the TXT records of the zone, by id and DID -/
  txts : List (Nat × Did)
  /-- the TXT records that were deleted -/
  deleted : List (Nat × Did)
  nextRecordId : Nat
  /-- the operations that were sent to plc.directory, and those it accepted -/
  sent : List GenesisOp
  accepted : List GenesisOp
  procs : Nat → Option Proc

/-- An account as it is registered. -/
def init (op : GenesisOp) : State :=
  { atDid := none, atSigningKey := none, atRotationKey := none, pending := some (prepare op),
    locked := false, txts := [], deleted := [], nextRecordId := 0, sent := [], accepted := [],
    procs := fun _ => none }

inductive Action where
  | leaseExpires
  | claim (p : Nat)
  /-- `set_atproto_txt` -/
  | createTxt (p : Nat)
  | setTxtRecordId (p : Nat)
  /-- `is_atproto_txt_published` -/
  | seeTxt (p : Nat)
  | markTxtVisible (p : Nat)
  /-- `TxtProgress::Waiting` -/
  | wait (p : Nat)
  /-- `TxtProgress::Ready`, or no Cloudflare (`cf` is false) -/
  | ready (p : Nat) (cf : Bool)
  | plcDidExists (p : Nat)
  | submit (p : Nat)
  | plcAccepts (op : GenesisOp)
  /-- the answer to `submit_plc_genesis_op`: success, or any error -/
  | reply (p : Nat) (ok : Bool)
  /-- `delete_txt_record`, which may fail (`done` is false) -/
  | deleteTxt (p : Nat) (done : Bool)
  | replaceGenesis (p : Nat) (op : GenesisOp)
  | finalize (p : Nat)
  /-- an error, other than one of `submit_plc_genesis_op` -/
  | fail (p : Nat)
  | release (p : Nat)
  | crash (p : Nat)
deriving DecidableEq

def setProc (s : State) (p : Nat) (pr : Option Proc) : State :=
  { s with procs := Function.update s.procs p pr }

def setPhase (s : State) (p : Nat) (pr : Proc) (phase : Phase) : State :=
  setProc s p (some { pr with phase })

/-- A step of processor `p`, from its copy of the row. -/
def onProc (s : State) (p : Nat) (f : Proc → Option State) : Option State := (s.procs p).bind f

def step (s : State) : Action → Option State
  | .leaseExpires => some { s with locked := false }
  | .claim p =>
    match s.procs p, s.pending with
    | none, some row =>
      if s.locked then none
      else some (setProc { s with locked := true } p (some { row, phase := .claimed }))
    | _, _ => none
  | .createTxt p => onProc s p fun pr =>
    if pr.phase = .claimed ∧ pr.row.cfTxtRecordId = none then
      some (setPhase { s with
        txts := (s.nextRecordId, pr.row.atDid) :: s.txts
        nextRecordId := s.nextRecordId + 1 } p pr (.created s.nextRecordId))
    else none
  | .setTxtRecordId p => onProc s p fun pr =>
    match pr.phase with
    | .created recordId =>
      some (setPhase { s with
        pending := s.pending.map fun row => { row with cfTxtRecordId := some recordId } }
        p pr .releasing)
    | _ => none
  | .seeTxt p => onProc s p fun pr =>
    if pr.phase = .claimed ∧ pr.row.cfTxtRecordId.isSome ∧ pr.row.txtVisible = false ∧
        (∃ t ∈ s.txts, t.2 = pr.row.atDid) then
      some (setPhase s p pr .visible)
    else none
  | .markTxtVisible p => onProc s p fun pr =>
    if pr.phase = .visible then
      some (setPhase { s with pending := s.pending.map fun row => { row with txtVisible := true } }
        p pr .releasing)
    else none
  | .wait p => onProc s p fun pr =>
    if pr.phase = .claimed ∧ pr.row.cfTxtRecordId.isSome then some (setPhase s p pr .releasing)
    else none
  | .ready p cf => onProc s p fun pr =>
    if pr.phase = .claimed ∧ (cf → pr.row.cfTxtRecordId.isSome ∧ pr.row.txtVisible) then
      some (setPhase s p pr (.ready cf))
    else none
  | .plcDidExists p => onProc s p fun pr =>
    match pr.phase with
    | .ready cf =>
      some (setPhase s p pr (if pr.row.atDid.genesis ∈ s.accepted then .finalizing
        else .unregistered cf))
    | _ => none
  | .submit p => onProc s p fun pr =>
    match pr.phase with
    | .unregistered cf =>
      some (setPhase { s with sent := pr.row.genesisOp :: s.sent } p pr (.submitting cf))
    | _ => none
  | .plcAccepts op => if op ∈ s.sent then some { s with accepted := op :: s.accepted } else none
  | .reply p ok => onProc s p fun pr =>
    match pr.phase with
    | .submitting cf =>
      if ok then
        if pr.row.genesisOp ∈ s.accepted then some (setPhase s p pr .finalizing) else none
      else some (setPhase s p pr (.regenerating cf))
    | _ => none
  | .deleteTxt p done => onProc s p fun pr =>
    match pr.phase with
    | .regenerating cf =>
      match cf, pr.row.cfTxtRecordId with
      | true, some recordId =>
        if done then
          some (setPhase { s with
            txts := s.txts.filter (·.1 ≠ recordId)
            deleted := (recordId, pr.row.atDid) :: s.deleted } p pr .replacing)
        else some (setPhase s p pr .replacing)
      | _, _ => some (setPhase s p pr .replacing)
    | _ => none
  | .replaceGenesis p op => onProc s p fun pr =>
    if pr.phase = .replacing then
      some (setPhase { s with pending := s.pending.map fun _ => prepare op } p pr .releasing)
    else none
  | .finalize p => onProc s p fun pr =>
    if pr.phase = .finalizing then
      if s.atDid = none then
        some (setPhase { s with
          atDid := some pr.row.atDid
          atSigningKey := some pr.row.atSigningKey
          atRotationKey := some pr.row.atRotationKey
          pending := none } p pr .releasing)
      else some (setPhase { s with pending := none } p pr .releasing)
    else none
  | .fail p => onProc s p fun pr =>
    match pr.phase with
    | .submitting _ => none
    | _ => some (setPhase s p pr .releasing)
  | .release p => onProc s p fun pr =>
    if pr.phase = .releasing then some (setProc { s with locked := false } p none) else none
  | .crash p => onProc s p fun _ => some (setProc s p none)

def machine : Machine State Action := ⟨step⟩

/-! ## What the protocol is to guarantee -/

/-- A DID of an account was accepted by PLC, its keys are those of its genesis
operation, and none of its TXT records was deleted. -/
def Sound (s : State) : Prop :=
  ∀ did, s.atDid = some did →
    did.genesis ∈ s.accepted ∧ s.atSigningKey = some did.genesis.signingKey ∧
      s.atRotationKey = some did.genesis.rotationKey ∧ ∀ r, (r, did) ∉ s.deleted

/-- The processor can still come to `finalize`. -/
def Phase.mayFinalize : Phase → Bool
  | .claimed | .ready _ | .unregistered _ | .submitting _ | .finalizing => true
  | _ => false

/-- A TXT record is deleted only while no other processor can make its DID the
account's and it is not the account's already, and no row is claimed whose DID
has lost a TXT record. -/
def Careful (s : State) : Action → Prop
  | .claim _ => ∀ row, s.pending = some row → ∀ r, (r, row.atDid) ∉ s.deleted
  | .deleteTxt p true => ∀ pr, s.procs p = some pr → pr.phase = .regenerating true →
      pr.row.cfTxtRecordId.isSome → s.atDid ≠ some pr.row.atDid ∧
        ∀ q pr', q ≠ p → s.procs q = some pr' → pr'.phase.mayFinalize = true →
          pr'.row.atDid ≠ pr.row.atDid
  | _ => True

end Seiran.DidProvision
