import Seiran.Framework.Run
import Seiran.Model.Follows.Write

/-!
# Importing follows

The job `follow_import` of one request, with the paths of `execute_follow`
(`follow_exec.rs`) and the statements of `repository/follow_import.rs`. What the job does
while it has the advisory lock is its stage, and is kept with the lock; what a request, a
start-up or a job has to do without it waits in `tasks`. A statement, a commit, a delivery
and a change of the queue are one step each.

* Of the queue the attempts of its jobs are kept, whether they are ready or delayed, and
  any of them may be next.
* A process that ends leaves its session, and so the lock, until the database notices
  (`sessionEnds`); a job of another kind whose key is the same number holds it likewise. A
  process with the role `worker` does nothing at its start, any other does
  `resume_running_follow_imports`.
* Other requests, and other imports, write to the follows (`other`).
* The request and its account stay. The records in the repositories and their rkeys, the
  notifications and the other jobs are left out.
-/

namespace Seiran.FollowImport

open Follows (Follow FollowTable Statement)

inductive RequestStatus where
  | running
  | completed
  | cancelled
deriving DecidableEq

/-- `FollowImportItemOutcome` -/
inductive Outcome where
  | succeeded
  | alreadyFollowing
  | failed
deriving DecidableEq

/-- The status is `pending` as long as there is none here. -/
structure Item where
  id : Nat
  target : String
  status : Option Outcome := none
deriving DecidableEq

inductive FollowOutcome where
  | accepted (alreadyFollowing : Bool)
  | pending (alreadyFollowing : Bool)
deriving DecidableEq

/-- What `process_locked` makes of the result of `execute_follow` -/
def outcome : Option FollowOutcome → Outcome
  | some (.accepted true) | some (.pending true) => .alreadyFollowing
  | some (.accepted false) | some (.pending false) => .succeeded
  | none => .failed

/-- The paths of `execute_follow`: `follow_local`, `follow_bsky` and `follow_fedi`, and if the
target is locked -/
inductive Route where
  | localLocked
  | local
  | bsky
  | fediLocked
  | fedi
deriving DecidableEq

inductive NextAction where
  | continue_
  | retryAfter
  | stop
deriving DecidableEq

/-- What `process_locked` does next. An item is given by its id. -/
inductive Stage where
  | getRequest
  | claimNextItem
  | markCompleted
  | checkFollowRateLimit (item : Nat)
  | findRequester (item : Nat)
  /-- `execute_follow` before it writes -/
  | resolve (item : Nat)
  | upsert (item : Nat) (route : Route) (target : Int64)
  | commitFollow (item : Nat) (target : Int64)
  /-- After a commit that failed -/
  | deleteByActors (item : Nat) (target : Int64)
  | setAtpRkey (item : Nat)
  /-- `sign_and_post` -/
  | deliver (item : Nat) (result : FollowOutcome)
  | markItemResult (item : Nat) (outcome : Outcome)
  /-- With what is returned, which is nothing where that is an error -/
  | release (next : Option NextAction)
deriving DecidableEq

inductive Lock where
  | free
  | job (attempt : Nat) (stage : Stage)
  | other
deriving DecidableEq

inductive Task where
  /-- Of `start_import` and of a start-up -/
  | enqueueFollowImportProcess
  | runningFollowImportIds
  | tryAcquire (attempt : Nat)
  | enqueueNext (attempt : Nat)
  /-- The worker repeats the job. -/
  | enqueueRetry (attempt : Nat)
deriving DecidableEq

structure State where
  status : RequestStatus := .running
  items : List Item
  follows : FollowTable := ∅
  lock : Lock := .free
  queue : List Nat := []
  tasks : List Task := [.enqueueFollowImportProcess]
  /-- A job has used up its attempts. -/
  exhausted : Bool := false
  /-- A job has seen that the request is cancelled, and one has followed an account since. -/
  seen : Bool := false
  late : Bool := false
  /-- The outcomes that were recorded -/
  recorded : List (Nat × Outcome) := []
  /-- The items whose follow was inserted, and those whose follow was already there -/
  created : List Nat := []
  found : List Nat := []

/-- `create_request`, with the ids in the order of the targets -/
def start (targets : List String) : State where
  items := targets.mapIdx fun i target => { id := i, target }

/-- `max_attempts` of the job -/
def maxAttempts : Nat := 5

variable (s : State)

/-! ## Statements -/

def begin (t : Task) : State := { s with tasks := s.tasks ++ [t] }

def finish (t : Task) : State := { s with tasks := s.tasks.erase t }

def enqueue (attempt : Nat) : State := { s with queue := s.queue ++ [attempt] }

def go (attempt : Nat) (stage : Stage) : State := { s with lock := .job attempt stage }

/-- A job returned an error. -/
def retry (attempt : Nat) : State :=
  if attempt + 1 < maxAttempts then begin s (.enqueueRetry attempt) else { s with exhausted := true }

def nextItem : Option Item := s.items.find? fun item => item.status = none

/-- `UPDATE … WHERE id = … AND status = 'pending'` -/
def markItemResult (id : Nat) (o : Outcome) : State :=
  { s with
    items := s.items.map fun item =>
      if item.id = id ∧ item.status = none then { item with status := some o } else item
    recorded :=
      if s.items.any fun item => item.id = id ∧ item.status = none then s.recorded ++ [(id, o)]
      else s.recorded }

/-- A statement that inserts a follow, for an item, and whether there was one -/
def write (id : Nat) (stmt : Statement) : State :=
  if (s.follows.lookup stmt.key).isSome then
    { s with follows := s.follows.write stmt, found := id :: s.found }
  else { s with follows := s.follows.write stmt, created := id :: s.created }

def isAccepted (row : Option Follow) : Bool := row.any fun row => row.status = .accepted

/-- The statement of each path, and what follows from it -/
def upsert (actorId : Int64) (attempt id : Nat) (route : Route) (target : Int64) : State :=
  let row := s.follows.lookup (actorId, target)
  match route with
  | .localLocked =>
    go (write s id (.upsertPending actorId target)) attempt (.markItemResult id (outcome (some
      (if isAccepted row then .accepted true else .pending row.isSome))))
  | .local | .bsky =>
    go (write s id (.insertAcceptedWithRkey actorId target none)) attempt
      (if row.isSome then .markItemResult id (outcome (some (.accepted true)))
      else .commitFollow id target)
  | .fediLocked =>
    go (write s id (.upsertPending actorId target)) attempt
      (.deliver id (if isAccepted row then .accepted row.isSome else .pending row.isSome))
  | .fedi =>
    -- what the statement returns is not looked at
    go (write s id (.insertAcceptedWithRkey actorId target none)) attempt (.deliver id (.accepted false))

/-- A step of the job that has the lock -/
def work (actorId : Int64) (attempt : Nat) : Stage → State
  | .getRequest =>
    if s.status = .running then go s attempt .claimNextItem
    else go { s with seen := s.seen || s.status = .cancelled } attempt (.release (some .stop))
  | .claimNextItem =>
    match nextItem s with
    | some item => go s attempt (.checkFollowRateLimit item.id)
    | none => go s attempt .markCompleted
  | .markCompleted =>
    go { s with status := if s.status = .running then .completed else s.status } attempt
      (.release (some .stop))
  | .checkFollowRateLimit id => go s attempt (.findRequester id)
  | .findRequester id => go s attempt (.resolve id)
  -- it goes on when the target is resolved
  | .resolve id => go s attempt (.resolve id)
  | .upsert id route target => upsert s actorId attempt id route target
  | .commitFollow id _ => go s attempt (.setAtpRkey id)
  | .setAtpRkey id => go s attempt (.markItemResult id (outcome (some (.accepted false))))
  | .deleteByActors id target =>
    go { s with
      follows := s.follows.write (.deleteByActors actorId target)
      created := s.created.filter (· ≠ id) } attempt (.markItemResult id (outcome none))
  | .deliver id result => go s attempt (.markItemResult id (outcome (some result)))
  | .markItemResult id o => go (markItemResult s id o) attempt (.release (some .continue_))
  | .release next =>
    let s' := { s with lock := .free }
    match next with
    | some .continue_ | some .retryAfter => begin s' (.enqueueNext attempt)
    | some .stop => s'
    | none => retry s' attempt

/-- A step of it fails. -/
def workFails (actorId : Int64) (attempt : Nat) : Stage → State
  | .resolve id | .upsert id _ _ | .setAtpRkey id | .deliver id _ =>
    go s attempt (.markItemResult id (outcome none))
  | .commitFollow id target => go s attempt (.deleteByActors id target)
  | .deleteByActors id _ => go s attempt (.markItemResult id (outcome none))
  | .release next => work s actorId attempt (.release next)
  | _ => go s attempt (.release none)

/-- A step without the lock. The state is the one without the task. -/
def runTask : Task → State
  | .enqueueFollowImportProcess => enqueue s 0
  | .runningFollowImportIds =>
    if s.status = .running then begin s .enqueueFollowImportProcess else s
  | .tryAcquire attempt => if s.lock = .free then go s attempt .getRequest else s
  | .enqueueNext _ => enqueue s 0
  | .enqueueRetry attempt => enqueue s (attempt + 1)

def failTask : Task → State
  | .enqueueFollowImportProcess | .runningFollowImportIds => s
  | .tryAcquire attempt | .enqueueNext attempt => retry s attempt
  | .enqueueRetry _ => { s with exhausted := true }

/-- The start of the process that ended -/
def restart (resumes : Bool) : State := if resumes then begin s .runningFollowImportIds else s

namespace Stage

/-- The item that a stage is about -/
def item : Stage → Option Nat
  | checkFollowRateLimit id | findRequester id | resolve id | upsert id _ _ | commitFollow id _
  | deleteByActors id _ | setAtpRkey id | deliver id _ | markItemResult id _ => some id
  | getRequest | claimNextItem | markCompleted | release _ => none

/-- It makes the account follow another. -/
def follows : Stage → Bool
  | upsert .. | commitFollow .. | deliver .. => true
  | _ => false

end Stage

/-! ## The machine -/

inductive Action where
  | run (t : Task)
  | fails (t : Task)
  | dequeue (attempt : Nat)
  | work
  | workFails
  /-- `check_follow_rate_limit` finds too many follows. -/
  | exceeded
  | resolved (route : Route) (target : Int64)
  | endTask (t : Task) (resumes : Bool)
  | endJob (resumes : Bool)
  | lose (attempt : Nat) (resumes : Bool)
  | startUp
  | hold
  | sessionEnds
  | cancel
  | other (stmt : Statement)
deriving DecidableEq

variable (actorId : Int64)

def step : Action → Option State
  | .run t => if t ∈ s.tasks then some (runTask (finish s t) t) else none
  | .fails t => if t ∈ s.tasks then some (failTask (finish s t) t) else none
  | .dequeue attempt =>
    if attempt ∈ s.queue then
      some (begin { s with queue := s.queue.erase attempt } (.tryAcquire attempt))
    else none
  | .work =>
    match s.lock with
    | .job attempt stage =>
      some (work { s with late := s.late || (s.seen && stage.follows) } actorId attempt stage)
    | _ => none
  | .workFails =>
    match s.lock with
    | .job attempt stage => some (workFails s actorId attempt stage)
    | _ => none
  | .exceeded =>
    match s.lock with
    | .job attempt (.checkFollowRateLimit _) => some (go s attempt (.release (some .retryAfter)))
    | _ => none
  | .resolved route target =>
    match s.lock with
    | .job attempt (.resolve id) => some (go s attempt (.upsert id route target))
    | _ => none
  | .endTask t resumes => if t ∈ s.tasks then some (restart (finish s t) resumes) else none
  | .endJob resumes =>
    match s.lock with
    | .job _ _ => some (restart { s with lock := .other } resumes)
    | _ => none
  | .lose attempt resumes =>
    if attempt ∈ s.queue then
      some (restart { s with queue := s.queue.erase attempt } resumes)
    else none
  | .startUp => some (begin s .runningFollowImportIds)
  | .hold => if s.lock = .free then some { s with lock := .other } else none
  | .sessionEnds => if s.lock = .other then some { s with lock := .free } else none
  | .cancel => if s.status = .running then some { s with status := .cancelled } else none
  | .other stmt => some { s with follows := s.follows.write stmt }

def machine : Machine State Action := ⟨fun s => step s actorId⟩

/-! ## What an import promises -/

/-- A job is queued, delayed or at work, or is going to be enqueued. -/
def kept : Bool :=
  !s.queue.isEmpty || !s.tasks.isEmpty || match s.lock with
    | .job _ _ => true
    | _ => false

def attended : Bool := s.status ≠ .running || s.exhausted || kept s

def outcomes (id : Nat) : List Outcome := (s.recorded.filter fun p => p.1 = id).map Prod.snd

/-- An outcome says what the import did about the follow of an item. -/
def Truthful (id : Nat) (o : Outcome) : Prop :=
  (o = .succeeded ↔ id ∈ s.created) ∧ (o = .alreadyFollowing ↔ id ∈ s.found ∧ id ∉ s.created)

structure Faithful (targets : List String) : Prop where
  attended : attended s = true
  targets : s.items.map Item.target = targets
  once : ∀ item ∈ s.items, outcomes s item.id = item.status.toList
  completed : s.status = .completed → ∀ item ∈ s.items, item.status ≠ none
  /-- Where nothing is to be done any more, the request is completed or cancelled. -/
  ended : kept s = false → s.exhausted = false → s.status = .completed ∨ s.status = .cancelled
  stopped : s.late = false
  truthful : ∀ item ∈ s.items, ∀ o ∈ item.status, Truthful s item.id o

def untouched (stage : Stage) : Bool :=
  stage.item.all fun id => id ∉ s.created && id ∉ s.found

/-- A job that finds the lock taken, an enqueue that fails and a process that ends for good
leave somebody who goes on with the request; a Fediverse account that is not locked is not
followed yet when it is followed; and once the follow of an item was inserted or found,
nothing fails and nothing ends before its outcome is recorded, a commit apart. -/
def orderly : Action → Bool
  | .run (.tryAcquire attempt) => s.lock = .free || attended (finish s (.tryAcquire attempt))
  | .fails .enqueueFollowImportProcess => attended (finish s .enqueueFollowImportProcess)
  | .fails .runningFollowImportIds => attended (finish s .runningFollowImportIds)
  | .endTask t resumes => resumes || attended (finish s t)
  | .lose attempt resumes => resumes || attended { s with queue := s.queue.erase attempt }
  | .endJob resumes =>
    (resumes || attended { s with lock := .other }) && match s.lock with
      | .job _ stage => untouched s stage
      | _ => true
  | .work =>
    match s.lock with
    | .job _ (.upsert _ .fedi target) => (s.follows.lookup (actorId, target)).isNone
    | _ => true
  | .workFails =>
    match s.lock with
    | .job _ (.commitFollow _ _) => true
    | .job _ stage => untouched s stage
    | _ => true
  | _ => true

/-- The same, as a condition on the steps of a run -/
def Orderly (actorId : Int64) (s : State) (act : Action) : Prop := orderly s actorId act = true

instance (actorId : Int64) (s : State) (act : Action) : Decidable (Orderly actorId s act) :=
  inferInstanceAs (Decidable (_ = true))

end Seiran.FollowImport
