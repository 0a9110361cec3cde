import Mathlib.Logic.Function.Basic
import Seiran.Framework.Run
import Seiran.Model.Follows.Write

/-!
# Accepting every waiting request

`update_lock` (`handlers/account.rs`), the follow requests to a local account
(`follow_local`, `handle_follow`), their approval and rejection one by one, and the job
`follow_requests_bulk_accept`, which works under `advisory_lock`. A statement, a commit and
a change of the queue are one step each, and what a request or a job has still to do waits
in `tasks`.

* Of the queue the jobs are kept with their attempts, and any of them may be next. A worker
  repeats a job that failed until `max_attempts`.
* The key of the advisory lock is the id of the account; the withdrawal of an account, and
  any other job whose key is the same number, holds it too (`hold`). When a process ends, so
  do its sessions, and their locks.
* A request ends at once where the target is missing or blocked. The records in the
  repositories and their rkeys, the deliveries and the notifications are left out.
-/

namespace Seiran.BulkAccept

open Follows (Follow FollowTable Statement)

/-- What a request or a job has still to do, beginning with its next statement -/
inductive Task where
  | updateLock (actorId : Int64) (isLocked : Bool)
  | enqueueFollowRequestsBulkAccept (actorId : Int64)
  /-- `follow_local`, or `handle_follow` with its activity -/
  | loadTarget (follower target : Int64) (activity : Option String)
  | checkBlocked (follower target : Int64) (activity : Option String) (isLocked : Bool)
  | savePending (follower target : Int64) (activity : Option String)
  | saveAccepted (follower target : Int64) (activity : Option String)
  /-- `establish_atp_follow` after its `INSERT` -/
  | commitFollow (follower target : Int64)
  /-- `reject_pending_follow`, an undo, an unfollow or a block -/
  | deleteByActors (follower target : Int64)
  | loadPendingPair (follower target : Int64) (approve : Bool)
  | approvePendingFollow (follower target : Int64)
  /-- The job, from its `try_acquire` -/
  | tryAcquire (actorId : Int64) (attempt : Nat)
  | findTarget (actorId : Int64) (attempt : Nat)
  | findPendingFollowersRaw (actorId : Int64) (attempt : Nat)
  | approve (actorId : Int64) (attempt : Nat) (pending : List Int64)
  | release (actorId : Int64) (attempt : Nat) (failed : Bool)
  | enqueueRetry (actorId : Int64) (attempt : Nat)
  /-- Another job that holds the key -/
  | releaseOther (key : Int64)
deriving DecidableEq

structure State where
  isLocked : Int64 → Bool := fun _ => false
  follows : FollowTable := ∅
  /-- The keys whose advisory locks are held -/
  advisoryLocks : List Int64 := []
  queue : List (Int64 × Nat) := []
  tasks : List Task := []
  /-- The accounts of which an unlock or a job has failed for good -/
  failed : List Int64 := []

/-- `max_attempts` of the job -/
def maxAttempts : Nat := 10

variable (s : State)

def pending (follower target : Int64) : Bool :=
  (s.follows.lookup (follower, target)).any fun row => row.status = .pending

def findPendingFollowersRaw (target : Int64) : List Int64 :=
  s.follows.entries.filterMap fun e =>
    if e.1.2 = target ∧ e.2.status = .pending then some e.1.1 else none

/-! ## Statements -/

def begin (t : Task) : State := { s with tasks := s.tasks ++ [t] }

def finish (t : Task) : State := { s with tasks := s.tasks.erase t }

def write (stmt : Statement) : State := { s with follows := s.follows.write stmt }

def enqueue (actorId : Int64) (attempt : Nat) : State :=
  { s with queue := s.queue ++ [(actorId, attempt)] }

def unlock (key : Int64) : State := { s with advisoryLocks := s.advisoryLocks.erase key }

def fail (actorId : Int64) : State := { s with failed := actorId :: s.failed }

/-- A job returned an error. -/
def retry (actorId : Int64) (attempt : Nat) : State :=
  if attempt + 1 < maxAttempts then begin s (.enqueueRetry actorId attempt) else fail s actorId

/-- The statement that makes a follow wait -/
def upsert (follower target : Int64) : Option String → Statement
  | none => .upsertPending follower target
  | some activity => .upsertPendingWithActivity follower target activity

/-- A statement is carried out, and the request or job goes on. The state is the one without
its task. -/
def runTask : Task → State
  | .updateLock actorId isLocked =>
    let s' := { s with isLocked := Function.update s.isLocked actorId isLocked }
    if isLocked then s' else begin s' (.enqueueFollowRequestsBulkAccept actorId)
  | .enqueueFollowRequestsBulkAccept actorId => enqueue s actorId 0
  | .loadTarget f t activity => begin s (.checkBlocked f t activity (s.isLocked t))
  | .checkBlocked f t activity isLocked =>
    begin s (if isLocked then .savePending f t activity else .saveAccepted f t activity)
  | .savePending f t activity => write s (upsert f t activity)
  | .saveAccepted f t (some _) => write s (.insertAccepted f t)
  | .saveAccepted f t none =>
    if (s.follows.lookup (f, t)).isSome then s
    else begin (write s (.insertAcceptedWithRkey f t none)) (.commitFollow f t)
  | .commitFollow _ _ => s
  | .deleteByActors f t => write s (.deleteByActors f t)
  | .loadPendingPair f t approve =>
    if pending s f t then
      begin s (if approve then .approvePendingFollow f t else .deleteByActors f t)
    else s
  | .approvePendingFollow f t => write s (.acceptAndSetRkey f t none)
  | .tryAcquire actorId attempt =>
    if actorId ∈ s.advisoryLocks then s
    else begin { s with advisoryLocks := actorId :: s.advisoryLocks } (.findTarget actorId attempt)
  | .findTarget actorId attempt => begin s (.findPendingFollowersRaw actorId attempt)
  | .findPendingFollowersRaw actorId attempt =>
    begin s (.approve actorId attempt (findPendingFollowersRaw s actorId))
  | .approve actorId attempt [] => begin s (.release actorId attempt false)
  | .approve actorId attempt (f :: left) =>
    begin (write s (.acceptAndSetRkey f actorId none)) (.approve actorId attempt left)
  | .release actorId attempt failed =>
    if failed then retry (unlock s actorId) actorId attempt else unlock s actorId
  | .enqueueRetry actorId attempt => enqueue s actorId (attempt + 1)
  | .releaseOther key => unlock s key

/-- A statement fails, or finds nothing, and a request ends with it. -/
def failTask : Task → State
  | .commitFollow f t => begin s (.deleteByActors f t)
  | .tryAcquire actorId attempt => retry s actorId attempt
  | .findTarget actorId attempt => begin s (.release actorId attempt true)
  | .findPendingFollowersRaw actorId attempt => begin s (.release actorId attempt true)
  | .approve actorId attempt [] => begin s (.release actorId attempt false)
  | .approve actorId attempt (_ :: left) => begin s (.approve actorId attempt left)
  | .release actorId attempt failed =>
    if failed then retry (unlock s actorId) actorId attempt else unlock s actorId
  | .enqueueRetry actorId _ => fail s actorId
  | .releaseOther key => unlock s key
  | _ => s

namespace Task

/-- What a request begins with -/
def isRequest : Task → Bool
  | updateLock .. | loadTarget .. | deleteByActors .. | loadPendingPair .. => true
  | _ => false

/-- The account whose waiting requests an unlock or a job is to accept -/
def serves : Task → Option Int64
  | enqueueFollowRequestsBulkAccept actorId | tryAcquire actorId _ | findTarget actorId _
  | findPendingFollowersRaw actorId _ | approve actorId _ _ | release actorId _ _
  | enqueueRetry actorId _ => some actorId
  | _ => none

/-- The key whose advisory lock a task holds -/
def holds : Task → Option Int64
  | findTarget actorId _ | findPendingFollowersRaw actorId _ | approve actorId _ _
  | release actorId _ _ => some actorId
  | releaseOther key => some key
  | _ => none

end Task

/-- Its process ends, or the client is gone. -/
def stopTask (t : Task) : State :=
  let s' := t.holds.elim s (unlock s)
  t.serves.elim s' (fail s')

/-! ## The machine -/

inductive Action where
  | request (t : Task)
  | dequeue (job : Int64 × Nat)
  | run (t : Task)
  | fails (t : Task)
  | stop (t : Task)
  /-- A job is lost with its queue or with a reply. -/
  | lose (job : Int64 × Nat)
  | hold (key : Int64)
deriving DecidableEq

def step : State → Action → Option State
  | s, .request t => if t.isRequest then some (begin s t) else none
  | s, .dequeue (actorId, attempt) =>
    if (actorId, attempt) ∈ s.queue then
      some (begin { s with queue := s.queue.erase (actorId, attempt) }
        (.tryAcquire actorId attempt))
    else none
  | s, .run t => if t ∈ s.tasks then some (runTask (finish s t) t) else none
  | s, .fails t => if t ∈ s.tasks then some (failTask (finish s t) t) else none
  | s, .stop t => if t ∈ s.tasks then some (stopTask (finish s t) t) else none
  | s, .lose job =>
    if job ∈ s.queue then some (fail { s with queue := s.queue.erase job } job.1) else none
  | s, .hold key =>
    if key ∈ s.advisoryLocks then none
    else some (begin { s with advisoryLocks := key :: s.advisoryLocks } (.releaseOther key))

def machine : Machine State Action := ⟨step⟩

def start : State := {}

/-! ## What must not wait for ever -/

/-- All unlocks and jobs of the account have ended. -/
def ended (actorId : Int64) : Prop :=
  (∀ job ∈ s.queue, job.1 ≠ actorId) ∧ ∀ t ∈ s.tasks, t.serves ≠ some actorId

/-- No request waits at an account that stays unlocked. -/
def Settled : Prop :=
  ∀ actorId, actorId ∉ s.failed → ended s actorId → s.isLocked actorId = false →
    ∀ follower, pending s follower actorId = false

/-- A task that has still to read the list, or that has the follower on it -/
def Task.covers (follower actorId : Int64) : Task → Bool
  | .enqueueFollowRequestsBulkAccept a | .tryAcquire a _ | .findTarget a _
  | .findPendingFollowersRaw a _ | .release a _ true | .enqueueRetry a _ => a = actorId
  | .approve a _ left => a = actorId && left.contains follower
  | _ => false

/-- A waiting request may wait: the account is locked, or it is going to be accepted. -/
def covered (follower actorId : Int64) : Bool :=
  s.isLocked actorId || s.queue.any (fun job => job.1 = actorId) ||
    s.tasks.any (Task.covers follower actorId)

/-- Where the statement of `savePending` makes the follow wait -/
def waits (follower target : Int64) (activity : Option String) : Bool :=
  match s.follows.lookup (follower, target) with
  | none => true
  | some row => row.status = .accepted && activity.isSome

/-- A request begins to wait only where it is going to be accepted, and an unlock that
enqueues no job, a job that finds the lock taken and an approval that fails leave no
request to which nobody else will come. -/
def orderly : Action → Bool
  | .run (.savePending f t activity) =>
    decide (t ∉ s.failed → waits s f t activity →
      covered (finish s (.savePending f t activity)) f t)
  | .fails (.enqueueFollowRequestsBulkAccept a) =>
    decide (a ∉ s.failed → (findPendingFollowersRaw s a).all fun f =>
      covered (finish s (.enqueueFollowRequestsBulkAccept a)) f a)
  | .run (.tryAcquire a attempt) =>
    decide (a ∉ s.failed → a ∈ s.advisoryLocks → (findPendingFollowersRaw s a).all fun f =>
      covered (finish s (.tryAcquire a attempt)) f a)
  | .fails (.approve a attempt (f :: left)) =>
    decide (a ∉ s.failed → pending s f a →
      covered (begin (finish s (.approve a attempt (f :: left))) (.approve a attempt left)) f a)
  | _ => true

/-- The same, as a condition on the steps of a run -/
def Orderly (act : Action) : Prop := orderly s act = true

instance (act : Action) : Decidable (Orderly s act) := inferInstanceAs (Decidable (_ = true))

end Seiran.BulkAccept
