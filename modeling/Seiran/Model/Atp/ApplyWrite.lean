import Seiran.Model.Atp.Car
import Seiran.Model.Atp.Service

/-!
# Concurrent commits to one repository

`apply_write` and `try_apply_write` (`atp/service.rs`) with the columns of
`actors` that hold the head of the repository, for any number of calls on one
actor. Transactions read the rows as they were at their first query. A
transaction updates the row of the actor, so it can commit only as long as
that row is the one it has read; of the other tables it may have read an older
version. Any transaction may abort.

The rest of the program writes to `posts`, `atp_records` and the other columns
of the actor at any time (`updateTables`, `updateActor`), and the events of
other actors take ids (`takeIds`).
-/

namespace Seiran.ApplyWrite

open Atp

def MAX_SERIALIZATION_RETRIES : Nat := 10

/-- Third-party code: CIDs as text, P-256 keys (as what they sign), zstd. -/
structure Env where
  codec : Codec
  cidCodec : CidCodec
  cidToString : Cid → String
  cidFromStr : String → Option Cid
  signingKeyFromPem : String → Option (Bytes → Bytes)
  encodeAll : Bytes → Option Bytes

inductive AtpCommitError where
  | db
  | repo (e : RepoError)
  | plc
  | actorConfig (message : String)
deriving DecidableEq

/-- A record and its block. -/
structure CommitRecord extends Atp.CommitRecord where
  cbor : Bytes
  blobCids : List Cid

inductive RepoWrite where
  | put (record : CommitRecord)
  | delete (collection rkey : String)

/-- The write, without the content of its record. -/
def RepoWrite.plain : RepoWrite → Atp.RepoWrite
  | .put record => .put record.toCommitRecord
  | .delete collection rkey => .delete collection rkey

def RepoWrite.blocks : RepoWrite → Blocks
  | .put record => [(record.cid, record.cbor)]
  | .delete _ _ => []

def RepoWrite.blobCids : RepoWrite → List Cid
  | .put record => record.blobCids
  | .delete _ _ => []

/-! ## Rows -/

/-- `at_repo_cid`, `at_repo_rev` and `at_repo_data_cid` -/
structure Head where
  cid : Option String
  rev : Option String
  dataCid : Option String

structure ActorRow where
  atDid : Option String
  atSigningKeyPem : Option String
  head : Head

/-- What `try_apply_write` reads. -/
structure Rows where
  actor : ActorRow
  posts : List PostRow
  records : List AtpRecord

/-- A row of `atp_repo_events`; `frameBytes` is compressed. -/
structure RepoEvent where
  id : Nat
  did : String
  commitCid : String
  prevCid : Option String
  rev : String
  sinceRev : Option String
  carBytes : Bytes
  ops : List CommitEvtOp
  frameBytes : Option Bytes

/-! ## The frame of a commit -/

structure CommitFrame where
  seq : Nat
  did : String
  commitCid : Cid
  prevCid : Option Cid
  rev : String
  since : Option String
  carBytes : Bytes
  ops : List CommitEvtOp
  blobCids : List Cid
  time : String
  prevData : Option Cid

def opIpld (op : CommitEvtOp) : Ipld :=
  .map [("action", .string op.action), ("cid", op.cid.elim .null .link), ("path", .string op.path)]

def frameHeader : Ipld := .map [("op", .integer 1), ("t", .string "#commit")]

def CommitFrame.body (f : CommitFrame) : Ipld :=
  .map <|
    [("blobs", .list (f.blobCids.map .link)), ("blocks", .bytes f.carBytes),
      ("commit", .link f.commitCid), ("did", .string f.did), ("ops", .list (f.ops.map opIpld))] ++
    f.prevCid.toList.map (fun c => ("prev", .link c)) ++
    f.prevData.toList.map (fun c => ("prevData", .link c)) ++
    [("rebase", .bool false), ("repo", .string f.did), ("rev", .string f.rev),
      ("seq", .integer f.seq)] ++
    f.since.toList.map (fun s => ("since", .string s)) ++
    [("time", .string f.time), ("tooBig", .bool false)]

def buildCommitFrame (C : Codec) (f : CommitFrame) : Except RepoError Bytes := do
  let headerCbor ← toCbor C frameHeader
  let bodyCbor ← toCbor C f.body
  return headerCbor ++ bodyCbor

/-! ## One attempt -/

/-- What an attempt has read and made, up to the id of its event. -/
structure Attempt where
  atDid : String
  prevCommitCidStr : Option String
  prevRev : Option String
  prevCid : Option Cid
  prevDataCid : Option Cid
  newRev : String
  mstRoot : Cid
  commitCid : Cid
  newBlocks : Blocks
  diffCar : Bytes

def repoOk {α : Type} (x : Except RepoError α) : Except AtpCommitError α :=
  match x with
  | .ok v => .ok v
  | .error e => .error (.repo e)

/-- Steps ① to ⑥ of `try_apply_write` on the rows it reads; `newRev` is what
`generate_tid` gives. -/
def attempt (E : Env) (rows : Rows) (write : RepoWrite) (newRev : String) :
    Except AtpCommitError Attempt := do
  let atDid ← rows.actor.atDid.elim (.error (.actorConfig "at_did が未設定")) Except.ok
  let pem ← rows.actor.atSigningKeyPem.elim
    (.error (.actorConfig "at_signing_key_pem が未設定")) Except.ok
  let head := rows.actor.head
  let sign ← (E.signingKeyFromPem pem).elim (.error .plc) Except.ok
  let repo : Repo := { atDid, posts := rows.posts, records := rows.records, events := [] }
  let (mstRoot, mstBlocks) ← repoOk (buildMst E.codec (newEntries repo write.plain))
  -- a CID that does not parse counts as none
  let prevCid := head.cid.bind E.cidFromStr
  let prevDataCid := head.dataCid.bind E.cidFromStr
  let (commitCid, commitCbor) ← repoOk (createCommit E.codec sign atDid newRev mstRoot prevCid)
  let newBlocks := mstBlocks ++ write.blocks ++ [(commitCid, commitCbor)]
  let diffCar ← repoOk (encodeCar E.codec E.cidCodec commitCid newBlocks)
  return { atDid, prevCommitCidStr := head.cid, prevRev := head.rev, prevCid, prevDataCid, newRev,
           mstRoot, commitCid, newBlocks, diffCar }

structure CommitResult where
  commitCid : Cid
  rev : String
  seq : Nat
  atDid : String

/-- An attempt whose event has an id. -/
structure Commit where
  attempt : Attempt
  write : RepoWrite
  time : String
  seq : Nat

namespace Commit

variable (E : Env) (c : Commit)

def frame : CommitFrame :=
  { seq := c.seq, did := c.attempt.atDid, commitCid := c.attempt.commitCid,
    prevCid := c.attempt.prevCid, rev := c.attempt.newRev, since := c.attempt.prevRev,
    carBytes := c.attempt.diffCar, ops := [c.write.plain.op], blobCids := c.write.blobCids,
    time := c.time, prevData := c.attempt.prevDataCid }

def frameOpt : Option Bytes := (buildCommitFrame E.codec c.frame).toOption

/-- Step ⑧ -/
def head : Head :=
  { cid := some (E.cidToString c.attempt.commitCid), rev := some c.attempt.newRev,
    dataCid := some (E.cidToString c.attempt.mstRoot) }

/-- Step ⑩ -/
def event : RepoEvent :=
  { id := c.seq, did := c.attempt.atDid, commitCid := E.cidToString c.attempt.commitCid,
    prevCid := c.attempt.prevCommitCidStr, rev := c.attempt.newRev, sinceRev := c.attempt.prevRev,
    carBytes := c.attempt.diffCar, ops := [c.write.plain.op],
    frameBytes := (c.frameOpt E).bind E.encodeAll }

def result : CommitResult :=
  { commitCid := c.attempt.commitCid, rev := c.attempt.newRev, seq := c.seq,
    atDid := c.attempt.atDid }

end Commit

/-- `ON CONFLICT (cid, actor_id) DO NOTHING` -/
def insertBlocks (new old : Blocks) : Blocks :=
  new.foldl (fun blocks x => if blocks.any fun y => y.1 = x.1 then blocks else blocks ++ [x]) old

/-! ## Calls of `apply_write` -/

/-- Where a call is: before an attempt, in its transaction before or after the
event has its id (`version` is that of the actor's row it has read), after the
commit, or back at its caller (`lost` if the reply to its `COMMIT` got lost). -/
inductive Phase where
  | waiting
  | reading (rows : Rows) (version : Nat)
  | written (c : Commit) (version : Nat)
  | committed (c : Commit)
  | done (r : CommitResult)
  | failed
  | lost (c : Commit)

structure Call where
  write : RepoWrite
  time : String
  postId : Option Nat
  attempt : Nat
  phase : Phase
  /-- the ids of the events of its attempts that did not commit -/
  aborted : List Nat

structure AtpCommitEvent where
  frameBytes : Bytes
  seq : Nat

structure State where
  actor : ActorRow
  /-- the version of the row of the actor -/
  version : Nat
  posts : List PostRow
  records : List AtpRecord
  blocks : Blocks
  /-- the commit events of the actor, the last one first -/
  events : List RepoEvent
  nextId : Nat
  calls : List Call
  published : List AtpCommitEvent

/-- A step of one call. -/
inductive CallAction where
  | begin
  | write (newRev : String)
  | commit (reply : Bool)
  | conflict
  | fail
  | publish

inductive Action where
  | call (write : RepoWrite) (time : String) (postId : Option Nat)
  | on (i : Nat) (a : CallAction)
  | updateActor (atDid pem : Option String)
  | updateTables (posts : List PostRow) (records : List AtpRecord)
  | takeIds (k : Nat)

/-- An actor that has not committed yet. -/
def start (atDid pem : Option String) (posts : List PostRow) (records : List AtpRecord) : State :=
  { actor := { atDid, atSigningKeyPem := pem, head := ⟨none, none, none⟩ }, version := 0, posts,
    records, blocks := [], events := [], nextId := 1, calls := [], published := [] }

def State.rows (s : State) : Rows :=
  { actor := s.actor, posts := s.posts, records := s.records }

def State.setCall (s : State) (i : Nat) (call : Call) : State :=
  { s with calls := s.calls.set i call }

/-- The transaction is over without effect. -/
def Call.rollback (call : Call) (phase : Phase) : Call :=
  match call.phase with
  | .written c _ => { call with phase, aborted := c.seq :: call.aborted }
  | _ => { call with phase }

/-- The effect of a transaction that commits. -/
def State.apply (E : Env) (s : State) (c : Commit) (posts : List PostRow) : State :=
  { s with
    actor := { s.actor with head := c.head E }
    version := s.version + 1
    posts
    records := applyToRecords c.write.plain s.records
    blocks := insertBlocks c.attempt.newBlocks s.blocks
    events := c.event E :: s.events }

def stepCall (E : Env) (s : State) (call : Call) (i : Nat) : CallAction → Option State
  | .begin =>
    match call.phase with
    | .waiting => some (s.setCall i { call with phase := .reading s.rows s.version })
    | _ => none
  | .write newRev =>
    match call.phase with
    | .reading rows version =>
      match attempt E rows call.write newRev with
      | .ok a =>
        let c : Commit := { attempt := a, write := call.write, time := call.time, seq := s.nextId }
        some ({ s with nextId := s.nextId + 1 }.setCall i
          { call with phase := .written c version })
      | .error _ => some (s.setCall i { call with phase := .failed })
    | _ => none
  | .commit reply =>
    match call.phase with
    | .written c version =>
      if version = s.version then
        (applyToPosts c.attempt.atDid c.write.plain call.postId s.posts).map fun posts =>
          (s.apply E c posts).setCall i
            { call with phase := if reply then .committed c else .lost c }
      else none
    | _ => none
  | .conflict =>
    match call.phase with
    | .reading _ _ | .written _ _ =>
      if call.attempt < MAX_SERIALIZATION_RETRIES then
        some (s.setCall i { call.rollback .waiting with attempt := call.attempt + 1 })
      else some (s.setCall i (call.rollback .failed))
    | _ => none
  | .fail =>
    match call.phase with
    | .waiting | .reading _ _ | .written _ _ => some (s.setCall i (call.rollback .failed))
    | _ => none
  | .publish =>
    match call.phase with
    | .committed c =>
      let events := (c.frameOpt E).toList.map fun frame => ⟨frame, c.seq⟩
      some ({ s with published := s.published ++ events }.setCall i
        { call with phase := .done c.result })
    | _ => none

def step (E : Env) (s : State) : Action → Option State
  | .call write time postId =>
    some { s with
      calls := s.calls ++
        [{ write, time, postId, attempt := 1, phase := .waiting, aborted := [] }] }
  | .updateActor atDid pem =>
    some { s with
      actor := { s.actor with atDid, atSigningKeyPem := pem }, version := s.version + 1 }
  | .updateTables posts records => some { s with posts, records }
  | .takeIds k => some { s with nextId := s.nextId + k }
  | .on i a => s.calls[i]?.bind fun call => stepCall E s call i a

def machine (E : Env) : Machine State Action := ⟨step E⟩

end Seiran.ApplyWrite
