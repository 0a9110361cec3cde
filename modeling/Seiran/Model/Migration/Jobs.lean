import Seiran.Framework.Program
import Seiran.Framework.Run
import Seiran.Model.Migration.Import
import Seiran.Model.Migration.Request

/-!
# The jobs of a migration

The five jobs of `jobs/at_migration.rs` for one request, and the worker that
runs them (`execute_with_retry`, `queue/worker.rs`). A job is a program: each
of its steps may fail, and a write that fails may have been executed. What the
network answers and which steps fail is given with the execution
(`Outcomes`). A process that ends in a job is a step that fails, and a retry
that is not enqueued.

What the import writes to `posts` and to the repository is left out here (it is
`Seiran.Import`).
-/

namespace Seiran.Jobs

open Atp Migration

/-! ## Rows, jobs and errors -/

structure Request where
  status : Status
  actorId : Option Nat
  plcSubmittedAt : Bool
  lastError : Option String
deriving DecidableEq

/-- A row of `at_migration_records`. -/
structure StagedRecord extends Import.StagedRecord where
  /-- `follow_materialized_at` is set -/
  followMaterialized : Bool
deriving DecidableEq

/-- A row of `at_migration_blobs`. -/
structure StagedBlob where
  id : Nat
  cid : String
  imported : Bool
deriving DecidableEq

inductive Job where
  | migrationFetchRepo
  | migrationRequestPlcSignature
  | migrationImportProcess
  | migrationDeactivateSource
  | migrationImportFollows
deriving DecidableEq

structure QueuedJob where
  job : Job
  priority : Int
  attempt : Nat
deriving DecidableEq

structure World where
  request : Option Request
  /-- in the order of their ids -/
  records : List StagedRecord
  blobs : List StagedBlob
  nextId : Nat
  queue : List QueuedJob
deriving DecidableEq

/-- `JobError`; a panic ends the task without a result. -/
inductive JobError where
  | transient (message : String)
  | permanent (message : String)
  | panic
deriving DecidableEq

/-- The steps that can fail. -/
inductive Step where
  | acquireLock
  | getRequest
  | resolveEndpoint
  | getRepo
  | setFailed
  | stageRecords
  | listBlobs
  | stageBlobs
  | setStatus
  | requestSignature
  | claimRecord
  | findPost
  | insertPost
  | commitRecord
  | markRecord
  | claimBlob
  | getBlob
  | saveBlob
  | markBlob
  | claimFollow
  | markFollow
  | enqueueNext
  | enqueueFollows
deriving DecidableEq

/-- A record of the source repository. -/
structure RepoRecord where
  collection : String
  rkey : String
  bytes : Bytes
deriving DecidableEq

/-- What an execution meets. -/
structure Outcomes where
  dbPool : Bool
  followExec : Bool
  encryptionKey : Bool
  /-- the advisory lock is free -/
  lockFree : Bool
  /-- the error of a step -/
  fails : Step → Option String
  /-- a write that fails was executed -/
  executed : Step → Bool
  /-- `decode_repo_records` of the CAR -/
  car : Except String (List RepoRecord)
  blobCids : List String

/-- What is made of the bytes of a record: its JSON (`none` if that panics),
and whether that can be encoded again. -/
structure RecordCodec (J : Type) where
  decodeDagcborToJson : Bytes → Option (Except String J)
  encodeGenericRecord : J → Except String Unit

/-- Priorities of the queue. -/
def NORMAL : Int := 10
def LOW : Int := 1

abbrev Prog (α : Type) := Program World JobError α

section Steps

variable (o : Outcomes)

/-- A step that does not write, with its error. -/
def ask (step : Step) (message : String) : Prog Unit := fun w =>
  match o.fails step with
  | some e => (.error (.transient (message ++ e)), w)
  | none => (.ok (), w)

/-- A step that writes, with its error. -/
def write (step : Step) (message : String) (f : World → World) : Prog Unit := fun w =>
  match o.fails step with
  | some e => (.error (.transient (message ++ e)), if o.executed step then f w else w)
  | none => (.ok (), f w)

def World.enqueue (job : Job) (priority : Int) (w : World) : World :=
  { w with queue := w.queue ++ [{ job, priority, attempt := 0 }] }

/-- An enqueueing whose error is only logged. -/
def enqueueOrLog (step : Step) (job : Job) (priority : Int) : Prog Unit :=
  Program.modify fun w => if (o.fails step).isSome then w else w.enqueue job priority

def World.setRequest (f : Request → Request) (w : World) : World :=
  { w with request := w.request.map f }

def setStatus (message : String) (status : Status) : Prog Unit :=
  write o .setStatus message (World.setRequest fun r => { r with status })

/-- The wrapper of a job around its body: the pool and the advisory lock. -/
def withLock {α : Type} (tag : String) (skipped : α) (body : Prog α) : Prog α := do
  if o.dbPool then
    ask o .acquireLock ""
    if o.lockFree then body else pure skipped
  else Program.throw (.permanent (tag ++ " DB pool 未設定"))

end Steps

/-! ## `Job::MigrationFetchRepo` -/

/-- `ON CONFLICT (request_id, collection, rkey) DO NOTHING` -/
def stageRecord (w : World) (r : RepoRecord) : World :=
  if w.records.any fun x => x.collection = r.collection ∧ x.rkey = r.rkey then w
  else { w with
    nextId := w.nextId + 1
    records := w.records ++ [{ id := w.nextId, collection := r.collection, rkey := r.rkey,
                               bytes := r.bytes, imported := false, followMaterialized := false }] }

def stageBlob (w : World) (cid : String) : World :=
  if w.blobs.any fun x => x.cid = cid then w
  else { w with
    nextId := w.nextId + 1
    blobs := w.blobs ++ [{ id := w.nextId, cid, imported := false }] }

/-- A request in the status of the job; any other ends it. -/
def withRequest {α : Type} (o : Outcomes) (message : String) (status : Status) (skipped : α)
    (body : Request → Prog α) : Prog α := do
  ask o .getRequest message
  match (← Program.get).request with
  | none => pure skipped
  | some req => if req.status = status then body req else pure skipped

def processFetchRepo (o : Outcomes) : Prog Unit :=
  withRequest o "[MigrationFetchRepo] リクエスト取得失敗: " .fetchingRepo () fun _ => do
    ask o .resolveEndpoint "[MigrationFetchRepo] PDSエンドポイント検証失敗: "
    ask o .getRepo "[MigrationFetchRepo] getRepo失敗: "
    match o.car with
    | .error e => do
      let msg := "[MigrationFetchRepo] CARデコード失敗（不正なリポジトリデータ）: " ++ e
      write o .setFailed "[MigrationFetchRepo] 失敗記録失敗: "
        (World.setRequest fun r => { r with status := .failed, lastError := some msg })
      Program.throw (.permanent msg)
    | .ok records => do
      write o .stageRecords "[MigrationFetchRepo] レコードステージング失敗: "
        fun w => records.foldl stageRecord w
      ask o .listBlobs "[MigrationFetchRepo] listBlobs失敗: "
      write o .stageBlobs "[MigrationFetchRepo] blobステージング失敗: "
        fun w => o.blobCids.foldl stageBlob w
      setStatus o "[MigrationFetchRepo] ステータス更新失敗: " .requestingPlcSignature
      enqueueOrLog o .enqueueNext .migrationRequestPlcSignature NORMAL

def handleFetchRepo (o : Outcomes) : Prog Unit :=
  withLock o "[MigrationFetchRepo]" () (processFetchRepo o)

/-! ## `Job::MigrationRequestPlcSignature` -/

def processRequestPlcSignature (o : Outcomes) : Prog Unit :=
  withRequest o "[MigrationRequestPlcSignature] リクエスト取得失敗: " .requestingPlcSignature ()
    fun _ => do
      ask o .resolveEndpoint "[MigrationRequestPlcSignature] PDSエンドポイント検証失敗: "
      ask o .requestSignature
        "[MigrationRequestPlcSignature] requestPlcOperationSignature失敗: "
      setStatus o "[MigrationRequestPlcSignature] ステータス更新失敗: " .awaitingPlcToken

def handleRequestPlcSignature (o : Outcomes) : Prog Unit :=
  withLock o "[MigrationRequestPlcSignature]" () (processRequestPlcSignature o)

/-! ## `Job::MigrationImportProcess` -/

inductive ImportNextAction where
  | continue
  | stop
deriving DecidableEq

section Import

variable {J : Type} (C : RecordCodec J) (o : Outcomes)

def claimNextRecord (w : World) : Option StagedRecord := w.records.find? fun r => !r.imported

def claimNextBlob (w : World) : Option StagedBlob := w.blobs.find? fun b => !b.imported

def markRecordImported (id : Nat) (w : World) : World :=
  { w with records := w.records.map fun r =>
      if r.id = id then { r with toStagedRecord := { r.toStagedRecord with imported := true } }
      else r }

def markBlobImported (id : Nat) (w : World) : World :=
  { w with blobs := w.blobs.map fun b => if b.id = id then { b with imported := true } else b }

/-- Decoding a record, with the error of the job. -/
def decodeRecord (message : String) (bytes : Bytes) : Prog J :=
  match C.decodeDagcborToJson bytes with
  | none => Program.throw .panic
  | some (.error e) => Program.throw (.permanent (message ++ e))
  | some (.ok value) => pure value

/-- `commit_post_record` or `commit_generic_record`, which encode the record first. -/
def commitRecord (message : String) (value : J) : Prog Unit :=
  match C.encodeGenericRecord value with
  | .error e => Program.throw (.transient (message ++ e))
  | .ok () => ask o .commitRecord message

def importStagedRecord (r : StagedRecord) : Prog Unit := do
  let value ← decodeRecord C
    ("[MigrationImportProcess] レコードのCBORデコード失敗 (id=" ++ toString r.id ++ "): ") r.bytes
  if r.collection = feedPost then
    ask o .findPost ("[MigrationImportProcess] 既存post確認失敗 (rkey=" ++ r.rkey ++ "): ")
    ask o .insertPost ("[MigrationImportProcess] posts INSERT失敗 (rkey=" ++ r.rkey ++ "): ")
    commitRecord C o
      ("[MigrationImportProcess] commit_post_record失敗 (rkey=" ++ r.rkey ++ "): ") value
  else
    commitRecord C o ("[MigrationImportProcess] commit_generic_record失敗 (collection=" ++
      r.collection ++ ", rkey=" ++ r.rkey ++ "): ") value

def importBlob (b : StagedBlob) : Prog Unit := do
  ask o .resolveEndpoint "[MigrationImportProcess] PDSエンドポイント検証失敗: "
  ask o .getBlob ("[MigrationImportProcess] getBlob失敗 (cid=" ++ b.cid ++ "): ")
  if o.encryptionKey then
    ask o .saveBlob "[MigrationImportProcess] blob保存失敗: "
  else Program.throw (.transient "[MigrationImportProcess] encryption_key 未設定")

def finishImport : Prog ImportNextAction := do
  setStatus o "[MigrationImportProcess] ステータス更新失敗: " .deactivatingSource
  enqueueOrLog o .enqueueNext .migrationDeactivateSource LOW
  enqueueOrLog o .enqueueFollows .migrationImportFollows LOW
  pure .stop

/-- One record, else one blob, else the end of the import. -/
def importNext : Prog ImportNextAction := do
  ask o .claimRecord "[MigrationImportProcess] レコード取得失敗: "
  match claimNextRecord (← Program.get) with
  | some r => do
    importStagedRecord C o r
    write o .markRecord "[MigrationImportProcess] レコード取込済みマーク失敗: "
      (markRecordImported r.id)
    pure .continue
  | none => do
    ask o .claimBlob "[MigrationImportProcess] blob取得失敗: "
    match claimNextBlob (← Program.get) with
    | some b => do
      importBlob o b
      write o .markBlob "[MigrationImportProcess] blob取込済みマーク失敗: "
        (markBlobImported b.id)
      pure .continue
    | none => finishImport o

def processImport : Prog ImportNextAction :=
  withRequest o "[MigrationImportProcess] リクエスト取得失敗: " .importingData .stop fun req =>
    match req.actorId with
    | none => Program.throw (.permanent "[MigrationImportProcess] actor_id が未確定です")
    | some _ =>
      if o.followExec then importNext C o
      else Program.throw (.transient "[MigrationImportProcess] FollowExecConfig 未設定")

/-- `Continue` enqueues the job again, after the lock is released. -/
def enqueueAgain (job : Job) (message : String) : ImportNextAction → Prog Unit
  | .stop => pure ()
  | .continue => write o .enqueueNext message (World.enqueue job LOW)

def handleImportProcess : Prog Unit := do
  let next ← withLock o "[MigrationImportProcess]" .stop (processImport C o)
  enqueueAgain o .migrationImportProcess "[MigrationImportProcess] 次回enqueue失敗: " next

end Import

/-! ## `Job::MigrationDeactivateSource` and `Job::MigrationImportFollows` -/

/-- The errors of the source server are only logged. -/
def handleDeactivateSource (o : Outcomes) : Prog Unit :=
  if o.dbPool then
    withRequest o "[MigrationDeactivateSource] リクエスト取得失敗: " .deactivatingSource () fun _ =>
      setStatus o "[MigrationDeactivateSource] ステータス更新失敗: " .completed
  else Program.throw (.permanent "[MigrationDeactivateSource] DB pool 未設定")

section Follows

variable {J : Type} (C : RecordCodec J) (o : Outcomes)

def graphFollow : String := "app.bsky.graph.follow"

def pendingFollow (r : StagedRecord) : Bool :=
  r.collection = graphFollow && r.imported && !r.followMaterialized

def claimNextFollowRecord (w : World) : Option StagedRecord := w.records.find? pendingFollow

def markFollowMaterialized (id : Nat) (w : World) : World :=
  { w with records := w.records.map fun r =>
      if r.id = id then { r with followMaterialized := true } else r }

/-- A record without a subject is passed over, and the error of
`link_bsky_follow_with_existing_rkey` is only logged. -/
def importFollow (r : StagedRecord) : Prog ImportNextAction := do
  let _ ← decodeRecord C
    ("[MigrationImportFollows] レコードのCBORデコード失敗 (id=" ++ toString r.id ++ "): ") r.bytes
  write o .markFollow "[MigrationImportFollows] 復元済みマーク失敗: " (markFollowMaterialized r.id)
  pure .continue

def processImportFollows : Prog ImportNextAction := do
  ask o .getRequest "[MigrationImportFollows] リクエスト取得失敗: "
  match (← Program.get).request.bind Request.actorId with
  | none => pure .stop
  | some _ =>
    if o.followExec then do
      ask o .claimFollow "[MigrationImportFollows] レコード取得失敗: "
      match claimNextFollowRecord (← Program.get) with
      | none => pure .stop
      | some r => importFollow C o r
    else Program.throw (.transient "[MigrationImportFollows] FollowExecConfig 未設定")

def handleImportFollows : Prog Unit := do
  let next ← withLock o "[MigrationImportFollows]" .stop (processImportFollows C o)
  enqueueAgain o .migrationImportFollows "[MigrationImportFollows] 次回enqueue失敗: " next

end Follows

/-! ## The worker -/

def dispatchJob {J : Type} (C : RecordCodec J) (o : Outcomes) : Job → Prog Unit
  | .migrationFetchRepo => handleFetchRepo o
  | .migrationRequestPlcSignature => handleRequestPlcSignature o
  | .migrationImportProcess => handleImportProcess C o
  | .migrationDeactivateSource => handleDeactivateSource o
  | .migrationImportFollows => handleImportFollows C o

/-- `max_attempts` of `retry_config_for` -/
def maxAttempts : Job → Nat
  | .migrationFetchRepo => 5
  | .migrationRequestPlcSignature => 3
  | .migrationImportProcess => 5
  | .migrationDeactivateSource => 3
  | .migrationImportFollows => 5

/-- `execute_with_retry`; `retried` tells whether `enqueue_retry` succeeds. -/
def executeWithRetry {J : Type} (C : RecordCodec J) (o : Outcomes) (retried : Bool)
    (queued : QueuedJob) (w : World) : World :=
  match dispatchJob C o queued.job w with
  | (.error (.transient _), w') =>
    if queued.attempt + 1 < maxAttempts queued.job ∧ retried then
      { w' with queue := w'.queue ++ [{ queued with attempt := queued.attempt + 1 }] }
    else w'
  | (_, w') => w'

/-- The job that takes a request on from its status. -/
def jobOf : Status → Option (Job × Int)
  | .fetchingRepo => some (.migrationFetchRepo, NORMAL)
  | .requestingPlcSignature => some (.migrationRequestPlcSignature, NORMAL)
  | .importingData => some (.migrationImportProcess, LOW)
  | .deactivatingSource => some (.migrationDeactivateSource, LOW)
  | _ => none

inductive Action where
  /-- the worker runs the `i`-th job of the queue -/
  | execute (i : Nat) (o : Outcomes) (retried : Bool)
  /-- the process ends with the `i`-th job, or with the whole queue, in its memory -/
  | lose (i : Nat)
  /-- `retry`, by the user; `enqueued` tells whether the enqueueing succeeds -/
  | retry (enqueued : Bool)
  /-- `resume_running_migrations`, when the server starts -/
  | resume (enqueued : Bool)
  | stagePlcOperation
  | beginSubmit
  | submitFails
  | plcRejects
  | markPlcSubmitted
  /-- `confirm_account_created`, whose error is only logged -/
  | confirmAccountCreated (actorId : Nat) (confirmed enqueued : Bool)
  | abandon

def World.status (w : World) : Option Status := w.request.map Request.status

def enqueueIf (enqueued : Bool) (job : Job × Int) (w : World) : World :=
  if enqueued then w.enqueue job.1 job.2 else w

/-- `transition_status` -/
def transition (src dst : Status) (w : World) : Option World :=
  if w.status = some src then some (w.setRequest fun r => { r with status := dst }) else none

def step {J : Type} (C : RecordCodec J) (w : World) : Action → Option World
  | .execute i o retried =>
    w.queue[i]?.map fun queued =>
      executeWithRetry C o retried queued { w with queue := w.queue.eraseIdx i }
  | .lose i => if i < w.queue.length then some { w with queue := w.queue.eraseIdx i } else none
  | .retry enqueued => (w.status.bind jobOf).map fun job => enqueueIf enqueued job w
  | .resume enqueued =>
    let w' := match w.status.bind jobOf with
      | some job => enqueueIf enqueued job w
      | none => w
    some <| if w.records.any pendingFollow then
      enqueueIf enqueued (.migrationImportFollows, LOW) w' else w'
  | .stagePlcOperation => transition .awaitingPlcToken .awaitingDnsTxt w
  | .beginSubmit => transition .awaitingDnsTxt .submittingPlc w
  | .submitFails => transition .submittingPlc .awaitingDnsTxt w
  | .plcRejects => transition .submittingPlc .failed w
  | .markPlcSubmitted =>
    if w.status = some .submittingPlc then
      some (w.setRequest fun r => { r with plcSubmittedAt := true })
    else none
  | .confirmAccountCreated actorId confirmed enqueued =>
    if w.request.any Request.plcSubmittedAt then
      let w' := if confirmed then
        w.setRequest fun r => { r with status := .importingData, actorId := some actorId } else w
      some (enqueueIf enqueued (.migrationImportProcess, LOW) w')
    else none
  | .abandon =>
    if w.request.any fun r => !r.plcSubmittedAt && r.status != .submittingPlc then
      some (w.setRequest fun r => { r with status := .abandoned })
    else none

def machine {J : Type} (C : RecordCodec J) : Machine World Action := ⟨step C⟩

/-- `create_request`, whose job may be enqueued. -/
def start (enqueued : Bool) : World :=
  enqueueIf enqueued (.migrationFetchRepo, NORMAL)
    { request := some { status := .fetchingRepo, actorId := none, plcSubmittedAt := false,
                        lastError := none }
      records := [], blobs := [], nextId := 1, queue := [] }

end Seiran.Jobs
