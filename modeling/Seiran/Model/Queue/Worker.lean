import Seiran.Framework.Run
import Seiran.Model.Queue.Redis

/-!
# Workers on the Redis queue

`WorkerEngine::run` and `execute_with_retry` (`queue/worker.rs`) of any number
of workers, and callers of `enqueue` and `enqueue_retry`, on one `RedisJobQueue`.
A step is one command or script, or what a worker does between two of them.
Redis carries out every command it is sent; a reply may still be an error,
where the code goes on from one.

What the proofs follow is not in the code: with each sequence number the first
one of its job (`origin`), the calls that have returned, and the executions
begun.
-/

namespace Seiran.Queue

structure QueuedJob (J : Type) where
  job : J
  priority : Int
  attempt : Nat
deriving DecidableEq

/-- `RetryConfig`, as far as it decides whether a job is retried. -/
structure RetryConfig where
  maxAttempts : Nat
  pos : 0 < maxAttempts

/-- What a job returns. -/
inductive Result where
  | ok
  | permanent
  | transient
deriving DecidableEq

inductive Phase where
  | running
  /-- it is retried: before the `INCR`, and before the `ZADD` -/
  | retrying
  | adding (seq : Nat)
  | done (result : Result)
deriving DecidableEq

/-- A job handed to a worker. -/
structure Execution (J : Type) where
  worker : Nat
  queued : QueuedJob J
  phase : Phase
  origin : Nat
deriving DecidableEq

/-- A call of `enqueue` or `enqueue_retry` between its two commands. -/
structure Push (J : Type) where
  envelope : Envelope J
  delayed : Bool
deriving DecidableEq

/-- Where `run` and `dequeue` are. -/
inductive Loop where
  | acquiring
  | dequeuing
  | promoting
  | popping
  | draining
  | ended
deriving DecidableEq

structure Worker where
  loop : Loop
  shutdown : Bool
deriving DecidableEq

/-- An execution that has begun. -/
structure Begun (J : Type) where
  origin : Nat
  job : J
  attempt : Nat
deriving DecidableEq

structure World (J : Type) where
  redis : State
  workers : Nat → Worker
  executions : List (Execution J)
  pushes : List (Push J)
  origin : Nat → Nat
  enqueued : List Nat
  begun : List (Begun J)

inductive Action (J : Type) where
  /-- the `INCR` of `enqueue` -/
  | enqueue (job : J) (priority : Int)
  /-- the `INCR` of `enqueue_retry` -/
  | enqueueRetry (job : J) (priority : Int) (attempt : Nat)
  /-- the `ZADD` of the `i`-th call -/
  | add (i : Nat) (readyAtMs : Int)
  /-- the process of the `i`-th call ends before the `ZADD` -/
  | giveUp (i : Nat)
  | shutdown (worker : Nat)
  | acquire (worker : Nat)
  /-- the cancellation wins the `select!` -/
  | stop (worker : Nat)
  | check (worker : Nat)
  | promote (worker : Nat) (nowMs : Int)
  | promoteFails (worker : Nat)
  | pop (worker : Nat)
  | popFails (worker : Nat)
  | finish (i : Nat) (result : Result)
  | retryIncr (i : Nat)
  | retryAdd (i : Nat) (readyAtMs : Int)
  /-- all jobs have ended, or the time for that is over -/
  | drained (worker : Nat)

section

variable {J : Type}

def World.setLoop (worker : Nat) (loop : Loop) (w : World J) : World J :=
  { w with workers := Function.update w.workers worker { w.workers worker with loop } }

def World.setRedis (redis : State) (w : World J) : World J := { w with redis }

/-- A call of `push_ready` or `push_delayed` takes its sequence number. -/
def beginPush (job : J) (priority : Int) (attempt : Nat) (delayed : Bool) (w : World J) :
    Option (World J) :=
  (nextSeq w.redis).map fun (seq, redis) =>
    { w with
      redis
      pushes := w.pushes ++ [⟨{ seq, priority, attempt, job }, delayed⟩]
      origin := Function.update w.origin seq seq }

/-- A job of a running worker that holds a permit. -/
def Execution.active (x : Execution J) : Bool :=
  match x.phase with
  | .done _ => false
  | _ => true

/-- What becomes of an execution whose job has returned. -/
def phaseAfter (config : J → RetryConfig) (queued : QueuedJob J) : Result → Phase
  | .ok => .done .ok
  | .permanent => .done .permanent
  | .transient =>
    if queued.attempt + 1 < (config queued.job).maxAttempts then .retrying else .done .transient

/-- The `i`-th execution, if its worker has not ended. -/
def World.execution (i : Nat) (w : World J) : Option (Execution J) :=
  w.executions[i]?.filter fun x => (w.workers x.worker).loop ≠ .ended

def World.setPhase (i : Nat) (x : Execution J) (phase : Phase) (w : World J) : World J :=
  { w with executions := w.executions.set i { x with phase } }

/-- A popped member: the job is handed to the worker, or the member discarded. -/
def handOver (C : Codec J) (worker : Nat) (member : String) (w : World J) : World J :=
  match C.fromStr member with
  | none => w.setLoop worker .dequeuing
  | some e =>
    { w.setLoop worker .acquiring with
      executions := w.executions ++
        [⟨worker, ⟨e.job, e.priority, e.attempt⟩, .running, w.origin e.seq⟩]
      begun := w.begun ++ [⟨w.origin e.seq, e.job, e.attempt⟩] }

/-- The envelope of a retry. -/
def retryEnvelope (x : Execution J) (seq : Nat) : Envelope J :=
  { seq, priority := x.queued.priority, attempt := x.queued.attempt + 1, job := x.queued.job }

variable (C : Codec J) (config : J → RetryConfig) (maxConcurrent : Nat)

def step (w : World J) : Action J → Option (World J)
  | .enqueue job priority => beginPush job priority 0 false w
  | .enqueueRetry job priority attempt => beginPush job priority attempt true w
  | .add i readyAtMs =>
    w.pushes[i]?.map fun p =>
      { w with
        redis := if p.delayed then addDelayed C p.envelope readyAtMs w.redis
          else addReady C p.envelope w.redis
        pushes := w.pushes.eraseIdx i
        enqueued := w.enqueued ++ [p.envelope.seq] }
  | .giveUp i => if i < w.pushes.length then some { w with pushes := w.pushes.eraseIdx i } else none
  | .shutdown worker =>
    some { w with
      workers := Function.update w.workers worker { w.workers worker with shutdown := true } }
  | .acquire worker =>
    if (w.workers worker).loop = .acquiring ∧
        w.executions.countP (fun x => x.worker = worker && x.active) < maxConcurrent then
      some (w.setLoop worker .dequeuing)
    else none
  | .stop worker =>
    if (w.workers worker).loop = .acquiring ∧ (w.workers worker).shutdown then
      some (w.setLoop worker .draining)
    else none
  | .check worker =>
    if (w.workers worker).loop = .dequeuing then
      some (w.setLoop worker (if (w.workers worker).shutdown then .draining else .promoting))
    else none
  | .promote worker nowMs =>
    if (w.workers worker).loop = .promoting then
      some ((w.setLoop worker .popping).setRedis (promoteDue C nowMs w.redis))
    else none
  | .promoteFails worker =>
    if (w.workers worker).loop = .promoting then some (w.setLoop worker .popping) else none
  | .pop worker =>
    if (w.workers worker).loop = .popping then
      match popReady w.redis with
      | none => some (w.setLoop worker .dequeuing)
      | some (x, redis) => some (handOver C worker x.member (w.setRedis redis))
    else none
  | .popFails worker =>
    if (w.workers worker).loop = .popping then some (w.setLoop worker .dequeuing) else none
  | .finish i result =>
    (w.execution i).bind fun x =>
      if x.phase = .running then some (w.setPhase i x (phaseAfter config x.queued result)) else none
  | .retryIncr i =>
    (w.execution i).bind fun x =>
      if x.phase = .retrying then
        (nextSeq w.redis).map fun (seq, redis) =>
          { (w.setPhase i x (.adding seq)).setRedis redis with
            origin := Function.update w.origin seq x.origin }
      else none
  | .retryAdd i readyAtMs =>
    (w.execution i).bind fun x =>
      match x.phase with
      | .adding seq =>
        some { w with
          redis := addDelayed C (retryEnvelope x seq) readyAtMs w.redis
          executions := w.executions.eraseIdx i }
      | _ => none
  | .drained worker =>
    if (w.workers worker).loop = .draining then some (w.setLoop worker .ended) else none

def machine : Machine (World J) (Action J) := ⟨step C config maxConcurrent⟩

/-- Workers that have just started, on a queue without jobs. -/
def World.start (seq : Nat) : World J where
  redis := .start seq
  workers _ := ⟨.acquiring, false⟩
  executions := []
  pushes := []
  origin := id
  enqueued := []
  begun := []

end

end Seiran.Queue
