import Seiran.Framework.Run
import Seiran.Framework.SessionLocks

/-!
# One process for each resident task

`leader.rs`: any number of processes call `run_as_leader` for the same tasks, and the
advisory locks of the database decide which of them runs a task. The locks belong to
database sessions, so the state says who has the connection of each session.

A task may go on or return at any time, whether it was told to stop or not, and after
`abort` as well, which only ends it where it next waits. A session ends when its connection
is closed, and may end at any time before; the closing process does not wait for the server.
-/

namespace Seiran.Leader

inductive LeaderTask where
  | jetstream
  | bskyBlockWatch
  | bskyDmPoll
  | bskyFollowerPoll
  | didProvision
deriving DecidableEq

/-- `LOCK_CLASS` -/
def lockClass : Int := 0x53454952

/-- The two keys of `pg_try_advisory_lock` -/
def LeaderTask.key : LeaderTask → Int × Int
  | .jetstream => (lockClass, 1)
  | .bskyBlockWatch => (lockClass, 2)
  | .bskyDmPoll => (lockClass, 3)
  | .bskyFollowerPoll => (lockClass, 4)
  | .didProvision => (lockClass, 5)

/-- A call of `run_as_leader`. The calls of a process share its pool. -/
structure Worker where
  pool : Nat
  which : LeaderTask
  id : Nat
deriving DecidableEq

/-- Who has a connection; `none` is a connection that was closed or given up. -/
inductive Owner where
  | pool (p : Nat)
  | worker (w : Worker)
  | none
deriving DecidableEq

/-- Where a call of `run_as_leader` is. -/
inductive Phase where
  /-- before `try_acquire`, asleep or not -/
  | waiting
  /-- in `try_acquire`, with a connection from the pool -/
  | trying (conn : Nat)
  /-- in the loop of `lead` -/
  | leading (conn handle : Nat)
  /-- after `stop.cancel()`, until `STOP_TIMEOUT` -/
  | stopping (conn handle : Nat)
  /-- before `conn.detach().close()` -/
  | closing (conn : Nat)
  | ended
deriving DecidableEq

/-- The task a worker waits for -/
def Phase.handle : Phase → Option Nat
  | .leading _ handle | .stopping _ handle => some handle
  | _ => none

/-- A spawned task that has not ended. -/
structure Task where
  handle : Nat
  worker : Worker
  conn : Nat
  aborted : Bool
deriving DecidableEq

structure State where
  locks : SessionLocks (Int × Int) Nat
  owner : Nat → Owner
  nextConn : Nat
  phase : Worker → Phase
  /-- the token `shutdown` of the call has fired -/
  shutdown : Worker → Bool
  tasks : List Task
  nextHandle : Nat

def init : State :=
  { locks := .empty, owner := fun _ => .none, nextConn := 0, phase := fun _ => .waiting,
    shutdown := fun _ => false, tasks := [], nextHandle := 0 }

inductive Action where
  /-- `pool.acquire` opens a connection -/
  | connect (w : Worker)
  /-- `pool.acquire` takes one that is there -/
  | reuse (w : Worker) (c : Nat)
  /-- the answer to `pg_try_advisory_lock` -/
  | tryLock (w : Worker)
  /-- no answer; the server may have had the question. The pool drops the connection. -/
  | tryLockFails (w : Worker) (asked : Bool)
  /-- a task returns or panics -/
  | taskEnds (handle : Nat)
  /-- `lead` sees that its task has ended -/
  | join (w : Worker)
  /-- `conn.ping()` is an error -/
  | pingFails (w : Worker)
  | cancel (w : Worker)
  /-- `lead` sees that `shutdown` has fired -/
  | seeShutdown (w : Worker)
  /-- `STOP_TIMEOUT` is over: `handle.abort()` -/
  | abort (w : Worker)
  | close (w : Worker)
  /-- the loop of `run_as_leader` ends -/
  | leave (w : Worker)
  /-- the server ends a session, for whatever reason -/
  | sessionEnds (c : Nat)
  /-- a process dies -/
  | crash (p : Nat)
deriving DecidableEq

def setPhase (s : State) (w : Worker) (phase : Phase) : State :=
  { s with phase := Function.update s.phase w phase }

def setOwner (s : State) (c : Nat) (owner : Owner) : State :=
  { s with owner := Function.update s.owner c owner }

/-- What is left of a process that died: the sessions of its connections. -/
def dead (s : State) (p : Nat) : State :=
  { s with
    owner := fun c =>
      match s.owner c with
      | .pool q => if q = p then .none else .pool q
      | .worker w => if w.pool = p then .none else .worker w
      | .none => .none
    phase := fun w => if w.pool = p then .ended else s.phase w
    tasks := s.tasks.filter fun t => t.worker.pool ≠ p }

def abortTask (s : State) (handle : Nat) : State :=
  { s with tasks := s.tasks.map fun t => if t.handle = handle then { t with aborted := true } else t }

def step (s : State) : Action → Option State
  | .connect w =>
    if s.phase w = .waiting ∧ s.shutdown w = false then
      some (setPhase (setOwner { s with
        locks := s.locks.connect s.nextConn
        nextConn := s.nextConn + 1 } s.nextConn (.worker w)) w (.trying s.nextConn))
    else none
  | .reuse w c =>
    if s.phase w = .waiting ∧ s.shutdown w = false ∧ s.owner c = .pool w.pool then
      some (setPhase (setOwner s c (.worker w)) w (.trying c))
    else none
  | .tryLock w =>
    match s.phase w with
    | .trying c =>
      if s.locks.isOpen c = true then
        match s.locks.tryLock w.which.key c with
        | some locks =>
          some (setPhase { s with
            locks
            tasks := { handle := s.nextHandle, worker := w, conn := c, aborted := false } :: s.tasks
            nextHandle := s.nextHandle + 1 } w (.leading c s.nextHandle))
        | none => some (setPhase (setOwner s c (.pool w.pool)) w .waiting)
      else none
    | _ => none
  | .tryLockFails w asked =>
    match s.phase w with
    | .trying c =>
      let locks := if asked = true ∧ s.locks.isOpen c = true then
        (s.locks.tryLock w.which.key c).getD s.locks else s.locks
      some (setPhase (setOwner { s with locks } c .none) w .waiting)
    | _ => none
  | .taskEnds handle =>
    if ∃ t ∈ s.tasks, t.handle = handle then
      some { s with tasks := s.tasks.filter fun t => t.handle ≠ handle }
    else none
  | .join w =>
    match s.phase w with
    | .leading c handle | .stopping c handle =>
      if ∀ t ∈ s.tasks, t.handle ≠ handle then some (setPhase s w (.closing c)) else none
    | _ => none
  | .pingFails w =>
    match s.phase w with
    | .leading c handle => some (setPhase s w (.stopping c handle))
    | _ => none
  | .cancel w => some { s with shutdown := Function.update s.shutdown w true }
  | .seeShutdown w =>
    match s.phase w with
    | .leading c handle =>
      if s.shutdown w = true then some (setPhase s w (.stopping c handle)) else none
    | _ => none
  | .abort w =>
    match s.phase w with
    | .stopping c handle => some (setPhase (abortTask s handle) w (.closing c))
    | _ => none
  | .close w =>
    match s.phase w with
    | .closing c => some (setPhase (setOwner s c .none) w .waiting)
    | _ => none
  | .leave w =>
    if s.phase w = .waiting ∧ s.shutdown w = true then some (setPhase s w .ended) else none
  | .sessionEnds c => if s.locks.isOpen c = true then some { s with locks := s.locks.finish c } else none
  | .crash p => some (dead s p)

def machine : Machine State Action := ⟨step⟩

/-! ## What the locks are to guarantee -/

/-- The tasks of a kind that run -/
def running (s : State) (which : LeaderTask) : List Task :=
  s.tasks.filter fun t => t.worker.which = which

/-- The session of the task is still there, and its worker waits for it. -/
def attended (s : State) (t : Task) : Bool := s.locks.isOpen t.conn && !t.aborted

/-- No session ends under a running task, and no task outlives `STOP_TIMEOUT`. -/
def Orderly (s : State) : Action → Prop
  | .sessionEnds c => ∀ t ∈ s.tasks, t.conn ≠ c
  | .abort w => ∀ t ∈ s.tasks, (s.phase w).handle ≠ some t.handle
  | _ => True

instance (s : State) (a : Action) : Decidable (Orderly s a) := by
  cases a <;> simp only [Orderly] <;> infer_instance

/-- A worker has the connection between `try_acquire` and `close`. -/
def Phase.hasLock : Phase → Nat → Prop
  | .leading c _, d | .stopping c _, d | .closing c, d => c = d
  | _, _ => False

/-- A process is shut down and another takes over. -/
def handover : List Action :=
  let old : Worker := { pool := 0, which := .jetstream, id := 0 }
  let new : Worker := { pool := 1, which := .jetstream, id := 1 }
  [.connect old, .tryLock old, .connect new, .tryLock new, .cancel old, .seeShutdown old,
    .taskEnds 0, .join old, .close old, .reuse new 1, .tryLock new, .sessionEnds 0, .leave old,
    .reuse new 1, .tryLock new]

end Seiran.Leader
