import Seiran.Framework.Sql.RecountRuns
import Seiran.Model.Follows.Write

/-!
# The counters of followers under concurrency

* `CountsRight`: `following_count` and `followers_count` of every actor are the
  numbers of accepted follows;
* `NotOvertaken`: the condition on a step;
* `counts_right_iff`: the counters are right throughout a run whose transactions
  all commit if and only if its steps meet the condition.
-/

namespace Seiran.Follows

open Sql

/-- The counters of every actor equal the accepted rows. -/
structure CountsRight (db : Database) : Prop where
  following : ∀ a, db.count (.following a) =
    db.rows.countP fun f => f.followerActorId = a && f.status = .accepted
  followers : ∀ a, db.count (.followers a) =
    db.rows.countP fun f => f.targetActorId = a && f.status = .accepted

theorem countsRight_iff {db : Database} : CountsRight db ↔ follows.Right db := by
  constructor
  · intro h c
    cases c with
    | following a => exact h.following a
    | followers a => exact h.followers a
  · intro h
    exact ⟨fun a => h (.following a), fun a => h (.followers a)⟩

/-- When an `UPDATE actors` of the trigger gets the lock of its actor, as many accepted rows of the
actor are committed as when the statement started. -/
def NotOvertaken (db : Database) : Recount.Action Statement → Prop
  | .write id => ∀ tx ∈ db.transactions.lookup id, ∀ snapshot ∈ tx.snapshot,
      ∀ c ∈ tx.queue.head?, snapshot.countP c.counts = db.rows.countP c.counts
  | _ => True

/-- The counters are right throughout a run in which all transactions commit if and only if no
statement of the trigger is overtaken in it. -/
theorem counts_right_iff {db t : Database} {acts : List (Recount.Action Statement)}
    (hidle : db.transactions = ∅) (hkeys : (db.rows.map Follow.key).Nodup) (hright : CountsRight db)
    (hr : machine.run db acts = some t) (hend : t.transactions = ∅)
    (hcommit : ∀ id, Recount.Action.rollback id ∉ acts) :
    (∀ bs cs u, acts = bs ++ cs → machine.run db bs = some u → CountsRight u) ↔
      machine.Along NotOvertaken db acts := by
  simp only [countsRight_iff]
  have hcondition : NotOvertaken = follows.NotOvertaken := by
    funext u a
    cases a <;> rfl
  rw [hcondition]
  exact Recount.right_iff hidle hkeys (countsRight_iff.mp hright) hr hend hcommit

/-- A transaction that runs alone -/
def alone (id : Nat) (stmt : Statement) : List (Recount.Action Statement) :=
  [.execute id stmt, .snapshot id, .write id, .snapshot id, .write id, .commit id]

/-- Actor 1 asks to follow actor 3 and is accepted, and actor 2 follows actor 3. -/
def oneByOne : List (Recount.Action Statement) :=
  alone 0 (.upsertPending 1 3) ++ alone 1 (.accept 1 3) ++ alone 2 (.insertAccepted 2 3)

theorem counts_right_iff_oneByOne :
    (∀ bs cs u, oneByOne = bs ++ cs → machine.run {} bs = some u → CountsRight u) ↔
      machine.Along NotOvertaken {} oneByOne := by
  obtain ⟨t, ht, hend⟩ : ∃ t, machine.run {} oneByOne = some t ∧ t.transactions = ∅ :=
    ⟨_, rfl, rfl⟩
  refine counts_right_iff rfl List.nodup_nil ⟨fun _ => rfl, fun _ => rfl⟩ ht hend fun id h => ?_
  simp [oneByOne, alone] at h

/-- Actors 1 and 2 follow actor 3 at a time. -/
def atATime : List (Recount.Action Statement) :=
  [.execute 1 (.insertAccepted 1 3), .execute 2 (.insertAccepted 2 3),
    .snapshot 1, .write 1, .snapshot 2, .write 2,
    -- both count the followers of 3, and the second waits for the first
    .snapshot 1, .snapshot 2, .write 1, .commit 1, .write 2, .commit 2]

/-- Two rows are accepted, and `followers_count` is 1. -/
theorem counts_right_counterexample :
    ∃ t, machine.run {} atATime = some t ∧ t.transactions = ∅ ∧ ¬ CountsRight t := by
  refine ⟨_, rfl, rfl, fun h => ?_⟩
  have hcount := h.followers 3
  revert hcount
  decide

end Seiran.Follows
