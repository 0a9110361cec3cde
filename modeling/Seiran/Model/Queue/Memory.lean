import Mathlib.Algebra.Group.Nat.Defs
import Mathlib.Data.List.Sort

/-!
# The in-memory job queue

`InMemoryJobQueue` (`queue/memory.rs`): a heap from which a greatest job is
popped, given by its jobs in the order in which they are.
-/

namespace Seiran.Queue.Memory

structure PrioritizedJob (J : Type) where
  priority : Int
  /-- a `u64` -/
  sequence : Nat
  attempt : Nat
  job : J
deriving DecidableEq

section

variable {J : Type}

/-- `Ord::cmp` -/
def PrioritizedJob.cmp (a b : PrioritizedJob J) : Ordering :=
  (compare a.priority b.priority).then (compare b.sequence a.sequence)

/-- `a` may be popped before `b`. -/
def PrioritizedJob.ge (a b : PrioritizedJob J) : Prop := a.cmp b ≠ .lt

instance : DecidableRel (PrioritizedJob.ge (J := J)) := fun a b =>
  inferInstanceAs (Decidable (a.cmp b ≠ .lt))

structure InnerQueue (J : Type) where
  heap : List (PrioritizedJob J)
  sequence : Nat

def InnerQueue.new : InnerQueue J := ⟨[], 0⟩

def push (job : J) (priority : Int) (attempt : Nat) (q : InnerQueue J) : InnerQueue J :=
  let sequence := (q.sequence + 1) % 2 ^ 64
  { heap := q.heap.orderedInsert PrioritizedJob.ge { priority, sequence, attempt, job }, sequence }

def pop (q : InnerQueue J) : Option (PrioritizedJob J × InnerQueue J) :=
  match q.heap with
  | [] => none
  | x :: heap => some (x, { q with heap })

/-- What is popped, call after call, when nothing is pushed. -/
def dequeued : Nat → InnerQueue J → List (PrioritizedJob J)
  | 0, _ => []
  | n + 1, q =>
    match pop q with
    | none => []
    | some (x, q') => x :: dequeued n q'

def enqueueAll (jobs : List (J × Int)) (q : InnerQueue J) : InnerQueue J :=
  jobs.foldl (fun q j => push j.1 j.2 0 q) q

end

end Seiran.Queue.Memory
