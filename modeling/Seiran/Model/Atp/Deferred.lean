import Seiran.Model.Atp.Service

/-!
# Posts that are committed later

The job `bsky_post_commit_deferred` of one post, from `enqueue_bsky_post_commit_deferred` on,
with `resume_bsky_post_commit_deferred`, and `delete_note` (`handlers/notes/deletion.rs`). A
run of the job that has got the advisory lock is in `running`; what a request, a start-up or
a worker has to do otherwise waits in `tasks`. A statement, a transaction and a change of the
queue are one step each.

* Of the queue the attempts of its jobs are kept, whether they are ready or delayed, and any
  of them may be next.
* A run may lose the session with its lock and go on, or end with its process, which leaves
  the session until the database notices (`sessionEnds`); a job of another kind whose key is
  the same number holds the lock likewise.
* Other posts and records of the actor are written as well (`other`), at other paths.
* What the record says, the delivery to the Fediverse and the other errors that are only
  logged are left out.
-/

namespace Seiran.Deferred

open Atp

/-- What `process_locked` does next, and whether what it returns is `Ok` -/
inductive Stage where
  | deferredCommitMaterial
  | resolveReplyUris
  /-- An error as long as the media is not settled -/
  | bskyVideoEmbedMaterial
  | commitPost
  | clearPendingBskyMediaFile
  | release (ok : Bool)
deriving DecidableEq

structure Job where
  attempt : Nat
  stage : Stage
  /-- The session with the lock is there. -/
  locked : Bool
deriving DecidableEq

inductive Lock where
  | free
  | job
  | other
deriving DecidableEq

inductive Task where
  /-- `enqueue_bsky_post_commit_deferred` -/
  | setPendingBskyMediaFile
  | enqueue
  /-- Of a start-up -/
  | pendingBskyPostCommits
  | tryAcquire (attempt : Nat)
  /-- The worker repeats the job. -/
  | enqueueRetry (attempt : Nat)
  /-- `delete_note`, with the `at_rkey` it has read, and the task it spawns -/
  | findDeleteInfo
  | softDeleteById (atRkey : Option String)
  | deleteAtpPost (rkey : String)
deriving DecidableEq

structure State where
  repo : Repo
  /-- `pending_bsky_media_file_id` is set. -/
  pending : Bool := false
  lock : Lock := .free
  running : List Job := []
  queue : List Nat := []
  tasks : List Task := [.setPendingBskyMediaFile]
  /-- The keys of the records that were committed for the post, the last one first -/
  created : List String := []

/-- `max_attempts` of the job -/
def maxAttempts : Nat := 20

variable (postId : Nat) (s : State)

/-! ## Statements -/

def begin (t : Task) : State := { s with tasks := s.tasks ++ [t] }

def finish (t : Task) : State := { s with tasks := s.tasks.erase t }

/-- The next stage of a run -/
def go (job : Job) (stage : Stage) : State :=
  { s with running := { job with stage } :: s.running.erase job }

/-- A job returned an error. -/
def retry (attempt : Nat) : State :=
  if attempt + 1 < maxAttempts then begin s (.enqueueRetry attempt) else s

def leave (job : Job) : State := { s with running := s.running.erase job }

/-- The lock goes with the session, which is the one that has got it. -/
def unlock (job : Job) : State := if job.locked then { s with lock := .free } else s

/-- A row of the post that the statement looks for -/
def hasRow (p : PostRow → Bool) : Bool := s.repo.posts.any fun row => row.id = postId && p row

/-- `commit_post`: a transaction, and what is left to do if its answer arrives -/
def commitPost (rkey : String) (cid : Cid) : Option State :=
  (commitPostRecord s.repo postId rkey cid "create").map fun repo =>
    { s with repo, created := rkey :: s.created }

/-- A step of a run, but for the commit -/
def work (job : Job) : Option State :=
  match job.stage with
  | .deferredCommitMaterial =>
    -- neither `at_uri` nor `deleted_at` is looked at
    if hasRow postId s fun _ => true then some (go s job .resolveReplyUris)
    else some (go s job (.release true))
  | .resolveReplyUris => some (go s job .bskyVideoEmbedMaterial)
  | .bskyVideoEmbedMaterial => some (go s job .commitPost)
  | .commitPost => none
  | .clearPendingBskyMediaFile => some (go { s with pending := false } job (.release true))
  | .release ok =>
    let s' := unlock (leave s job) job
    some (if ok then s' else retry s' job.attempt)

/-- A step of it fails, or has to wait. -/
def workFails (job : Job) : Option State :=
  match job.stage with
  | .clearPendingBskyMediaFile => some (go s job (.release true))
  | .release _ => none
  | _ => some (go s job (.release false))

/-- A step of a task. The state is the one without the task. -/
def runTask : Task → Option State
  | .setPendingBskyMediaFile => some (begin { s with pending := true } .enqueue)
  | .enqueue => some { s with queue := s.queue ++ [0] }
  | .pendingBskyPostCommits =>
    if s.pending ∧ hasRow postId s fun row => row.atUri.isNone then
      some (begin s .setPendingBskyMediaFile)
    else some s
  | .tryAcquire attempt =>
    if s.lock = .free then
      some { s with lock := .job, running := ⟨attempt, .deferredCommitMaterial, true⟩ :: s.running }
    else some s
  | .enqueueRetry attempt => some { s with queue := s.queue ++ [attempt + 1] }
  | .findDeleteInfo =>
    match s.repo.posts.find? fun row => row.id = postId ∧ row.deleted = false with
    | some row => some (begin s (.softDeleteById row.atRkey))
    | none => some s
  | .softDeleteById atRkey =>
    let s' := { s with repo := softDeleteById s.repo postId }
    match atRkey with
    | some rkey => some (begin s' (.deleteAtpPost rkey))
    | none => some s'
  | .deleteAtpPost rkey =>
    (deleteAtpRecordGeneric s.repo feedPost rkey).map fun repo => { s with repo }

/-- It fails and has done nothing. -/
def failTask : Task → State
  | .setPendingBskyMediaFile => begin s .enqueue
  | .tryAcquire attempt => retry s attempt
  | _ => s

/-! ## Other writes -/

inductive Other where
  | generic (collection rkey : String) (cid : Cid) (action : String)
  | post (id : Nat) (rkey : String) (cid : Cid) (action : String)
  | delete (collection rkey : String)
  | insert (id : Nat)
  | softDelete (id : Nat)
deriving DecidableEq

namespace Other

/-- The path it writes to, and the post it is about -/
def path : Other → Option String
  | generic collection rkey _ _ | delete collection rkey => some (entryKey collection rkey)
  | post _ rkey _ _ => some (entryKey feedPost rkey)
  | insert _ | softDelete _ => none

def id : Other → Option Nat
  | post id .. | insert id | softDelete id => some id
  | generic .. | delete .. => none

def write (repo : Repo) : Other → Option Repo
  | generic collection rkey cid action => commitGenericRecord repo collection rkey cid action
  | post id rkey cid action => commitPostRecord repo id rkey cid action
  | delete collection rkey => deleteAtpRecordGeneric repo collection rkey
  | insert id => insertFull repo id
  | softDelete id => some (softDeleteById repo id)

end Other

/-- The path of a record of the post -/
def pathOf (rkey : String) : String := entryKey feedPost rkey

/-- `generate_tid` gives a key that no other post and no record has. -/
def freshKey (rkey : String) : Bool :=
  (s.repo.posts.all fun row => row.path ≠ some (pathOf rkey)) &&
    s.repo.records.all fun record => record.key ≠ pathOf rkey

/-! ## The machine -/

inductive Action where
  | run (t : Task)
  | fails (t : Task)
  /-- A process ends. -/
  | endTask (t : Task)
  | endJob (job : Job)
  /-- The soft delete is done, and nothing after it: the answer is lost, or the process ends. -/
  | softDeleteOnly (atRkey : Option String)
  | dequeue (attempt : Nat)
  | lose (attempt : Nat)
  | work (job : Job)
  | workFails (job : Job)
  | commit (job : Job) (rkey : String) (cid : Cid)
  /-- The answer to the `COMMIT` is lost. -/
  | commitUnseen (job : Job) (rkey : String) (cid : Cid)
  | sessionLost (job : Job)
  | hold
  | sessionEnds
  | startUp
  | deleteNote
  | other (o : Other)
deriving DecidableEq

def step : Action → Option State
  | .run t => if t ∈ s.tasks then runTask postId (finish s t) t else none
  | .fails t => if t ∈ s.tasks then some (failTask (finish s t) t) else none
  | .endTask t => if t ∈ s.tasks then some (finish s t) else none
  | .endJob job =>
    if job ∈ s.running then
      some { leave s job with lock := if job.locked then .other else s.lock }
    else none
  | .softDeleteOnly atRkey =>
    if .softDeleteById atRkey ∈ s.tasks then
      some { finish s (.softDeleteById atRkey) with repo := softDeleteById s.repo postId }
    else none
  | .dequeue attempt =>
    if attempt ∈ s.queue then
      some (begin { s with queue := s.queue.erase attempt } (.tryAcquire attempt))
    else none
  | .lose attempt =>
    if attempt ∈ s.queue then some { s with queue := s.queue.erase attempt } else none
  | .work job => if job ∈ s.running then work postId s job else none
  | .workFails job => if job ∈ s.running then workFails s job else none
  | .commit job rkey cid =>
    if job ∈ s.running ∧ job.stage = .commitPost ∧ freshKey s rkey then
      commitPost postId (go s job .clearPendingBskyMediaFile) rkey cid
    else none
  | .commitUnseen job rkey cid =>
    if job ∈ s.running ∧ job.stage = .commitPost ∧ freshKey s rkey then
      commitPost postId (go s job (.release false)) rkey cid
    else none
  | .sessionLost job =>
    if job ∈ s.running ∧ job.locked then
      some { leave s job with
        lock := .free, running := { job with locked := false } :: s.running.erase job }
    else none
  | .hold => if s.lock = .free then some { s with lock := .other } else none
  | .sessionEnds => if s.lock = .other then some { s with lock := .free } else none
  | .startUp => some (begin s .pendingBskyPostCommits)
  | .deleteNote => some (begin s .findDeleteInfo)
  | .other o =>
    if (o.path.all fun path => path ∉ s.created.map pathOf) ∧ o.id ≠ some postId then
      (o.write s.repo).map fun repo => { s with repo }
    else none

def machine : Machine State Action := ⟨step postId⟩

/-- The post is in `posts`, and the job is going to be enqueued. -/
def start (repo : Repo) : State := { repo }

/-! ## What is promised -/

/-- Nothing of the job and of a deletion is queued, delayed, waiting or at work. -/
def ended : Bool := s.running.isEmpty && s.queue.isEmpty && s.tasks.isEmpty

/-- The repository has a record at this path. -/
def hasPath (path : String) : Bool := (lastEntries s.repo.events).any fun x => x.1 = path

/-- The repository gets one record at most, the row has its URI, and none is left of a post
that is deleted. -/
structure Once : Prop where
  once : s.created.length ≤ 1
  atUri : ∀ row ∈ s.repo.posts, row.id = postId →
    row.atUri = s.created.head?.map (postUri s.repo.atDid)
  deleted : (hasRow postId s fun row => row.deleted) = true → ended s = true →
    ∀ rkey ∈ s.created, hasPath s (pathOf rkey) = false

/-- The post is in the repository, or was. -/
def committed : Bool := hasRow postId s fun row => row.atUri.isSome

def isDeleted : Bool := hasRow postId s fun row => row.deleted

/-- No commit is made for a post that has one already or that is deleted; a deletion is made
with the `at_rkey` that the row has, unless the post is deleted already; and the removal of a
record that is there does not fail and is not cut off. -/
def orderly : Action → Bool
  | .commit _ _ _ | .commitUnseen _ _ _ => !committed postId s && !isDeleted postId s
  | .run (.softDeleteById atRkey) =>
    isDeleted postId s || !hasRow postId s fun row => row.atRkey ≠ atRkey
  | .softDeleteOnly _ => isDeleted postId s || !hasRow postId s fun row => row.atRkey.isSome
  | .fails (.deleteAtpPost rkey) | .endTask (.deleteAtpPost rkey) =>
    .deleteAtpPost rkey ∈ (finish s (.deleteAtpPost rkey)).tasks || !hasPath s (pathOf rkey)
  | _ => true

/-- The same, as a condition on the steps of a run -/
def Orderly (s : State) (act : Action) : Prop := orderly postId s act = true

instance (s : State) (act : Action) : Decidable (Orderly postId s act) :=
  inferInstanceAs (Decidable (_ = true))

end Seiran.Deferred
