import Mathlib.Logic.Function.Basic
import Seiran.Framework.Run

/-!
# A migration request

The state machine of one row of `at_migration_requests`
(`jobs/at_migration.rs`, `did_provision/migration.rs`,
`handlers/migration.rs`, `repository/at_migration.rs`): the jobs, the requests
of the user, and the processors that submit the PLC operation. Each reads the
row, does its network work, and writes the row later; anything may happen in
between, and any of them may stop after any step, by an error or because the
process ends.

A PLC operation is given by the new keys it names. An operation that was
accepted is not accepted again: its `prev` is no longer the last one. The steps
of the TXT record and the contents of the import are modelled elsewhere.
-/

namespace Seiran.Migration

/-- `at_migration_status`, as far as the code sets it. -/
inductive Status where
  | fetchingRepo
  | requestingPlcSignature
  | awaitingPlcToken
  | awaitingDnsTxt
  | submittingPlc
  | importingData
  | deactivatingSource
  | completed
  | failed
  | abandoned
deriving DecidableEq

/-- A PLC operation, by the keys it names. -/
structure PlcOperation where
  signingKey : Nat
  rotationKey : Nat
deriving DecidableEq

structure Row where
  status : Status
  newSigningKey : Option Nat
  newRotationKey : Option Nat
  /-- `plc_submitted_at` is set -/
  plcSubmittedAt : Bool
  /-- `staged_plc_operation`, `staged_signing_key_pem`, `staged_rotation_key_pem` -/
  staged : Option PlcOperation
deriving DecidableEq

/-- Where a job, a request of the user or a processor is. -/
inductive Proc where
  /-- `process_fetch_repo`, in its network work -/
  | fetching
  /-- `process_request_plc_signature`, in its network work -/
  | requesting
  /-- `submit_plc_token`, inside `signPlcOperation` -/
  | signing
  /-- `submit_plc_token` entered again, before `materialize_account` -/
  | recreating (keys : PlcOperation)
  /-- `advance_migration`, while it looks at the TXT record -/
  | waiting (op : PlcOperation)
  /-- inside `submit_plc_operation`; `answer` is what PLC has decided -/
  | submitting (op : PlcOperation) (answer : Option Bool)
  /-- PLC has answered that it accepts, before `mark_plc_submitted` -/
  | submitted (op : PlcOperation)
  /-- before `materialize_local_account` -/
  | marked (op : PlcOperation)
  /-- before `confirm_account_created` -/
  | materialized
  /-- `process_import`, after it has read the status -/
  | importing
  /-- `handle_deactivate_source`, in its network work -/
  | deactivating
  /-- `abandon`, after it has read the row -/
  | abandoning (status : Status)
deriving DecidableEq

structure State where
  row : Row
  /-- the account's row in `actors`, by its keys -/
  account : Option PlcOperation
  /-- somebody else has an account of the name `new_username` -/
  usernameTaken : Bool
  /-- the number of imports of a record -/
  imported : Nat
  /-- the holder of the advisory lock of the request -/
  lock : Option Nat
  /-- `dns_locked_until` is in the future -/
  dnsLocked : Bool
  /-- operations that PLC may still get, though nobody waits for the answer -/
  inFlight : List PlcOperation
  accepted : List PlcOperation
  procs : Nat → Option Proc

/-- `create_request` -/
def init : State :=
  { row := { status := .fetchingRepo, newSigningKey := none, newRotationKey := none,
             plcSubmittedAt := false, staged := none }
    account := none, usernameTaken := false, imported := 0, lock := none, dnsLocked := false,
    inFlight := [], accepted := [], procs := fun _ => none }

inductive Action where
  /-- `Job::MigrationFetchRepo` starts, first or by `retry` -/
  | fetchRepo (p : Nat)
  | fetched (p : Nat)
  /-- the CAR does not decode -/
  | fetchFailed (p : Nat)
  /-- `Job::MigrationRequestPlcSignature` starts -/
  | requestSignature (p : Nat)
  | signatureRequested (p : Nat)
  /-- `submit_plc_token` reads the row -/
  | submitToken (p : Nat)
  | stagePlcOperation (p : Nat) (op : PlcOperation)
  | claimDnsWait (p : Nat)
  | leaseExpires
  /-- the TXT record is not there yet, or an error -/
  | releaseDnsWait (p : Nat)
  /-- the TXT record is published: `transition_status` to `submitting_plc` -/
  | beginSubmit (p : Nat)
  | plcAccepts (p : Nat)
  /-- PLC answers with a 4xx -/
  | plcRejects (p : Nat)
  | plcAcceptsLate (op : PlcOperation)
  | reply (p : Nat)
  /-- `submit_plc_operation` fails in another way than by a 4xx -/
  | replyLost (p : Nat)
  | markPlcSubmitted (p : Nat)
  /-- somebody else registers, or migrates, under `new_username` -/
  | takeUsername
  | materializeAccount (p : Nat)
  | confirmAccountCreated (p : Nat)
  /-- `Job::MigrationImportProcess` starts -/
  | importProcess (p : Nat)
  | importRecord (p : Nat)
  | finishImport (p : Nat)
  /-- `Job::MigrationDeactivateSource` starts -/
  | deactivateSource (p : Nat)
  | deactivated (p : Nat)
  /-- `abandon` reads the row -/
  | readForAbandon (p : Nat)
  /-- `abandon` makes its `transition_status` -/
  | abandon (p : Nat)
  | stop (p : Nat)
deriving DecidableEq

def setProc (s : State) (p : Nat) (pr : Option Proc) : State :=
  { s with procs := Function.update s.procs p pr }

/-- `p` ends; the advisory lock is released with it. -/
def endProc (s : State) (p : Nat) : State :=
  setProc { s with lock := if s.lock = some p then none else s.lock } p none

/-- `set_status`, whatever the status is. -/
def setStatus (s : State) (status : Status) : State := { s with row := { s.row with status } }

/-- A job takes the advisory lock and reads the status; it ends at once if it
does not get the lock or finds another status. -/
def startJob (s : State) (p : Nat) (pr : Proc) (status : Status) : Option State :=
  if s.procs p = none ∧ s.lock = none ∧ s.row.status = status then
    some (setProc { s with lock := some p } p (some pr))
  else none

/-- The checks of `abandon`: PLC is not submitted, and not being submitted. -/
def canAbandon (row : Row) : Bool := !row.plcSubmittedAt && row.status != .submittingPlc

def step (s : State) : Action → Option State
  | .fetchRepo p => startJob s p .fetching .fetchingRepo
  | .fetched p =>
    match s.procs p with
    | some .fetching => some (endProc (setStatus s .requestingPlcSignature) p)
    | _ => none
  | .fetchFailed p =>
    match s.procs p with
    | some .fetching => some (endProc (setStatus s .failed) p)
    | _ => none
  | .requestSignature p => startJob s p .requesting .requestingPlcSignature
  | .signatureRequested p =>
    match s.procs p with
    | some .requesting => some (endProc (setStatus s .awaitingPlcToken) p)
    | _ => none
  | .submitToken p =>
    if s.procs p = none then
      match s.row.newSigningKey, s.row.newRotationKey with
      | some signingKey, some rotationKey =>
        if s.row.status = .submittingPlc then
          some (setProc s p (some (.recreating ⟨signingKey, rotationKey⟩)))
        else none
      | _, _ =>
        if s.row.status = .awaitingPlcToken then some (setProc s p (some .signing)) else none
    else none
  | .stagePlcOperation p op =>
    match s.procs p with
    | some .signing =>
      if s.row.status = .awaitingPlcToken then
        some (endProc { s with
          row := { s.row with status := .awaitingDnsTxt, staged := some op } } p)
      else some (endProc s p)
    | _ => none
  | .claimDnsWait p =>
    if s.procs p = none ∧ s.row.status = .awaitingDnsTxt ∧ s.dnsLocked = false then
      s.row.staged.map fun op => setProc { s with dnsLocked := true } p (some (.waiting op))
    else none
  | .leaseExpires => some { s with dnsLocked := false }
  | .releaseDnsWait p =>
    match s.procs p with
    | some (.waiting _) => some (endProc { s with dnsLocked := false } p)
    | _ => none
  | .beginSubmit p =>
    match s.procs p with
    | some (.waiting op) =>
      if s.row.status = .awaitingDnsTxt then
        some (setProc (setStatus s .submittingPlc) p (some (.submitting op none)))
      else some (endProc { s with dnsLocked := false } p)
    | _ => none
  | .plcAccepts p =>
    match s.procs p with
    | some (.submitting op none) =>
      if op ∉ s.accepted then
        some (setProc { s with accepted := op :: s.accepted } p (some (.submitting op (some true))))
      else none
    | _ => none
  | .plcRejects p =>
    match s.procs p with
    | some (.submitting op none) => some (setProc s p (some (.submitting op (some false))))
    | _ => none
  | .plcAcceptsLate op =>
    if op ∈ s.inFlight ∧ op ∉ s.accepted then some { s with accepted := op :: s.accepted } else none
  | .reply p =>
    match s.procs p with
    | some (.submitting op (some true)) => some (setProc s p (some (.submitted op)))
    | some (.submitting _ (some false)) =>
      some (endProc { setStatus s .failed with dnsLocked := false } p)
    | _ => none
  | .replyLost p =>
    match s.procs p with
    | some (.submitting op answer) =>
      let s := if s.row.status = .submittingPlc then setStatus s .awaitingDnsTxt else s
      some (endProc { s with
        dnsLocked := false
        inFlight := if answer = none then op :: s.inFlight else s.inFlight } p)
    | _ => none
  | .markPlcSubmitted p =>
    match s.procs p with
    | some (.submitted op) =>
      some (setProc { s with
        row := { s.row with
          status := .submittingPlc
          newSigningKey := some op.signingKey
          newRotationKey := some op.rotationKey
          plcSubmittedAt := true } } p (some (.marked op)))
    | _ => none
  | .takeUsername => if s.account = none then some { s with usernameTaken := true } else none
  | .materializeAccount p =>
    match s.procs p with
    | some (.marked keys) | some (.recreating keys) =>
      -- the `ap_uri` of two accounts cannot be the same
      if s.usernameTaken then some (endProc s p)
      else some (setProc { s with account := some keys } p (some .materialized))
    | _ => none
  | .confirmAccountCreated p =>
    match s.procs p with
    | some .materialized => some (endProc (setStatus s .importingData) p)
    | _ => none
  | .importProcess p => startJob s p .importing .importingData
  | .importRecord p =>
    match s.procs p with
    | some .importing => some (endProc { s with imported := s.imported + 1 } p)
    | _ => none
  | .finishImport p =>
    match s.procs p with
    | some .importing => some (endProc (setStatus s .deactivatingSource) p)
    | _ => none
  | .deactivateSource p =>
    if s.procs p = none ∧ s.row.status = .deactivatingSource then
      some (setProc s p (some .deactivating))
    else none
  | .deactivated p =>
    match s.procs p with
    | some .deactivating => some (endProc (setStatus s .completed) p)
    | _ => none
  | .readForAbandon p =>
    if s.procs p = none ∧ canAbandon s.row then
      some (setProc s p (some (.abandoning s.row.status)))
    else none
  | .abandon p =>
    match s.procs p with
    | some (.abandoning status) =>
      if s.row.status = status then some (endProc (setStatus s .abandoned) p)
      else some (endProc s p)
    | _ => none
  | .stop p =>
    (s.procs p).map fun pr =>
      match pr with
      | .submitting op none => endProc { s with inFlight := op :: s.inFlight } p
      | _ => endProc s p

def requests : Machine State Action := ⟨step⟩

/-! ## Abandonment -/

/-- Nothing that abandonment is to stop has happened from `s` to `t`. -/
structure Ended (s t : State) : Prop where
  status : t.row.status = .abandoned
  account : t.account = s.account
  imported : t.imported = s.imported

/-- The fetch job and the job that requests the signature write their status
only to a request that is not abandoned. -/
def Undisturbed (s : State) : Action → Prop
  | .fetched _ | .fetchFailed _ | .signatureRequested _ => s.row.status ≠ .abandoned
  | _ => True

instance (s : State) (a : Action) : Decidable (Undisturbed s a) := by
  unfold Undisturbed
  split <;> infer_instance

/-! ## After PLC has accepted -/

/-- What the server does by itself or when the user submits or retries. -/
def Action.own : Action → Bool
  | .plcAccepts _ | .plcRejects _ | .plcAcceptsLate _ | .replyLost _ | .leaseExpires
  | .takeUsername | .readForAbandon _ | .abandon _ | .stop _ => false
  | _ => true

/-- The keys are in the row, with the staged operation or as the new keys. -/
def keysRecorded (row : Row) (op : PlcOperation) : Prop :=
  row.staged = some op ∨
    row.newSigningKey = some op.signingKey ∧ row.newRotationKey = some op.rotationKey

/-- A request whose operation was accepted has not failed and cannot be
abandoned, its keys are recorded, and something leads to its account. -/
structure Safe (s : State) : Prop where
  notFailed : ∀ op ∈ s.accepted, s.row.status ≠ .failed
  notAbandonable : ∀ op ∈ s.accepted, canAbandon s.row = false
  keys : ∀ op ∈ s.accepted, keysRecorded s.row op
  live : ∀ op ∈ s.accepted, ∃ bs t, (∀ a ∈ bs, a.own = true) ∧ requests.run s bs = some t ∧
    t.account = some op

/-- The answer of PLC arrives where it is waited for, and the processor that
gets it comes to `mark_plc_submitted`. -/
def Answered (s : State) : Action → Prop
  | .plcAcceptsLate _ => False
  | .replyLost p =>
    match s.procs p with
    | some (.submitting _ (some true)) => False
    | _ => True
  | .stop p =>
    match s.procs p with
    | some (.submitting _ (some true)) | some (.submitted _) => False
    | _ => True
  | _ => True

instance (s : State) (a : Action) : Decidable (Answered s a) := by
  unfold Answered
  split <;> try split
  all_goals infer_instance

/-- The name is not taken when PLC accepts, nor later. -/
def NameKept (s : State) : Action → Prop
  | .takeUsername => s.accepted = []
  | .plcAccepts _ => s.usernameTaken = false
  | _ => True

instance (s : State) (a : Action) : Decidable (NameKept s a) := by
  unfold NameKept
  split <;> infer_instance

end Seiran.Migration
