import Seiran.Model.Follows.Acceptance
import Seiran.Model.Follows.Write

/-!
# An accepted follow stays accepted

* `Keeps`: a step takes an accepted follow away only as an undo, a rejection, a block or a
  withdrawal;
* `Unrepeated`: a `Follow` of a locked account is not saved over an accepted one;
* `keeps_iff`, `accepted_kept_iff`: the first is the second, for a step and along a run.
-/

namespace Seiran.Acceptance

open Follows (Follow FollowTable Statement lookup_write)

variable {s u : State} {act : Action} {i : Nat} {f t : Int64}

section Writes

def Accepted (s : State) (f t : Int64) : Prop := ∃ row ∈ s.row f t, row.status = .accepted

instance (s : State) (f t : Int64) : Decidable (Accepted s f t) :=
  decidable_of_iff ((s.row f t).any (·.status = .accepted) = true) (by
    rw [Option.any_eq_true]
    simp only [decide_eq_true_iff]
    rfl)

/-- The pair whose row a task deletes: as an undo or an unfollow, a rejection, a block or a
withdrawal -/
def Task.ends : Task → Option (Int64 × Int64)
  | .undo f t | .rejectPending f t | .blockOwn f t => some (f, t)
  | .blockOther b t | .endBlocked b t => some (t, b)
  | .withdraw f (t :: _) => some (f, t)
  | _ => none

/-- What a statement does to an accepted row -/
def Statement.accepts : Statement → Bool
  | .upsertPendingWithActivity .. | .deleteByActors .. => false
  | _ => true

theorem change_accepted {stmt : Statement} (hstmt : Statement.accepts stmt = true) {row : Follow}
    (hrow : row.status = .accepted) :
    ∃ row', (stmt.change (some row)).getD (some row) = some row' ∧ row'.status = .accepted := by
  cases stmt with
  | upsertPendingWithActivity | deleteByActors => cases hstmt
  | upsertPending | insertAccepted | insertAcceptedWithRkey | insertAcceptedBsky => exact ⟨row, rfl, hrow⟩
  | setAtpRkey follower target rkey => exact ⟨_, rfl, hrow⟩
  | accept follower target | acceptAndSetRkey follower target rkey =>
    refine ⟨row, ?_, hrow⟩
    simp [Statement.change, Statement.update, hrow]

theorem accepted_write (stmt : Statement) (hstmt : Statement.accepts stmt = true) (h : Accepted s f t) :
    Accepted (s.write stmt) f t := by
  obtain ⟨row, hrow, haccepted⟩ := h
  have hlookup : (s.write stmt).row f t = _ := lookup_write s.follows stmt (f, t)
  by_cases hk : (f, t) = stmt.key
  · obtain ⟨row', hrow', haccepted'⟩ := change_accepted hstmt haccepted
    refine ⟨row', ?_, haccepted'⟩
    have hrow : s.follows.lookup (f, t) = some row := hrow
    rw [hlookup, if_pos hk, ← hk, hrow]
    exact hrow'
  · refine ⟨row, ?_, haccepted⟩
    rw [hlookup, if_neg hk]
    exact hrow

/-- A statement on another row -/
theorem accepted_write_other (stmt : Statement) (hk : (f, t) ≠ stmt.key) (h : Accepted s f t) :
    Accepted (s.write stmt) f t := by
  obtain ⟨row, hrow, haccepted⟩ := h
  refine ⟨row, ?_, haccepted⟩
  show (s.follows.write stmt).lookup (f, t) = some row
  rw [lookup_write, if_neg hk]
  exact hrow

theorem not_accepted_savePending {activity : String} :
    ¬ Accepted (s.write (.upsertPendingWithActivity f t activity)) f t := by
  rintro ⟨row, hrow, haccepted⟩
  have hrow : (s.follows.write (.upsertPendingWithActivity f t activity)).lookup (f, t) = some row := hrow
  have hkey : (Statement.upsertPendingWithActivity f t activity).key = (f, t) := rfl
  rw [lookup_write, hkey, if_pos rfl] at hrow
  cases hold : s.follows.lookup (f, t) <;> rw [hold] at hrow <;> cases hrow <;> cases haccepted

end Writes

section Steps

/-- An accepted follow that is not accepted any more was undone, rejected, blocked or withdrawn. -/
def Keeps (s : State) (act : Action) : Prop :=
  ∀ u, step s act = some u → ∀ f t, Accepted s f t → ¬ Accepted u f t →
    ∃ i task, act = .run i ∧ s.tasks i = some task ∧ task.ends = some (f, t)

/-- The condition on a step -/
def Unrepeated (s : State) : Action → Prop
  | .run i => ∀ task ∈ s.tasks i, match task with
    | .savePending f t _ => ¬ Accepted s f t
    | _ => True
  | _ => True

theorem accepted_setTask {o : Option Task} : Accepted (s.setTask i o) f t ↔ Accepted s f t := Iff.rfl

/-- A deletion takes away the row that the task is about, and no other. -/
theorem accepted_delete (h : Accepted s f t) {a b : Int64} {o : Option Task}
    (hu : ¬ Accepted ((s.write (.deleteByActors a b)).setTask i o) f t) : (a, b) = (f, t) := by
  by_contra hne
  exact hu (accepted_write_other (.deleteByActors a b) (fun heq => hne heq.symm) h)

/-- A task that takes an accepted follow away -/
theorem runTask_keeps {task : Task} (h : Accepted s f t) (hu : ¬ Accepted (runTask s i task) f t) :
    task.ends = some (f, t) ∨ ∃ activity, task = .savePending f t activity := by
  cases task with
  | savePending f' t' activity =>
    refine .inr ⟨activity, ?_⟩
    by_contra hne
    refine hu (accepted_write_other (.upsertPendingWithActivity f' t' activity) ?_ h)
    intro heq
    cases heq
    exact hne rfl
  | saveAccepted f' t' => exact absurd (accepted_write (.insertAccepted f' t') rfl h) hu
  | accept f' t' => exact absurd (accepted_write (.acceptAndSetRkey f' t' none) rfl h) hu
  | request f' t' => exact absurd (accepted_write (.upsertPending f' t') rfl h) hu
  | rejectPending f' t' => exact .inl (congrArg some (accepted_delete h hu))
  | undo f' t' => exact .inl (congrArg some (accepted_delete h hu))
  | blockOwn b t' => exact .inl (congrArg some (accepted_delete h hu))
  | blockOther b t' => exact .inl (congrArg some (accepted_delete h hu))
  | endBlocked b t' => exact .inl (congrArg some (accepted_delete h hu))
  | withdraw f' left =>
    cases left with
    | nil => exact absurd h hu
    | cons t' left => exact .inl (congrArg some (accepted_delete h hu))
  | loadTarget | checkBlocked | loadPending | insertBlock | receiveBlock => exact absurd h hu

/-- What is begun writes nothing. -/
theorem accepted_of_step (hrun : ∀ i, act ≠ .run i) (hs : step s act = some u) :
    Accepted u f t ↔ Accepted s f t := by
  have hbegin : ((begin s act).bind fun x =>
      if s.tasks x.1 = none then some (s.setTask x.1 (some x.2)) else none) = some u →
      (Accepted u f t ↔ Accepted s f t) := by
    intro ho
    obtain ⟨⟨i, task⟩, -, ho⟩ := Option.bind_eq_some_iff.mp ho
    simp only [Option.ite_none_right_eq_some, Option.some.injEq] at ho
    rw [← ho.2, accepted_setTask]
  cases act with
  | run i => exact absurd rfl (hrun i)
  | receiveReject | setLocked | stop =>
    cases hs
    exact Iff.rfl
  | _ => exact hbegin hs

theorem keeps_iff : Keeps s act ↔ Unrepeated s act := by
  by_cases hrun : ∃ i, act = .run i
  · obtain ⟨i, rfl⟩ := hrun
    constructor
    · intro h task hi
      split
      · rename_i f t activity
        intro haccepted
        have hs : step s (.run i) = some (runTask s i (.savePending f t activity)) := by
          rw [step, show s.tasks i = _ from hi]
          rfl
        obtain ⟨j, task, hj, htask, hends⟩ := h _ hs f t haccepted not_accepted_savePending
        cases hj
        have hi : s.tasks i = some (.savePending f t activity) := hi
        rw [hi] at htask
        cases htask
        cases hends
      · trivial
    · intro h u hs f t haccepted hnot
      obtain ⟨task, hi, rfl⟩ := Option.map_eq_some_iff.mp hs
      rcases runTask_keeps haccepted hnot with hends | ⟨activity, rfl⟩
      · exact ⟨i, task, rfl, hi, hends⟩
      · exact absurd haccepted (h _ hi)
  · have hother : ∀ i, act ≠ .run i := fun i heq => hrun ⟨i, heq⟩
    constructor
    · intro _
      cases act with
      | run i => exact absurd rfl (hother i)
      | _ => trivial
    · intro _ u hs f t haccepted hnot
      exact absurd ((accepted_of_step hother hs).mpr haccepted) hnot

/-- Along every run, follows are kept accepted exactly where no `Follow` of a locked account is
saved over an accepted one. -/
theorem accepted_kept_iff (s : State) (acts : List Action) :
    machine.Along Keeps s acts ↔ machine.Along Unrepeated s acts :=
  ⟨machine.along_mono fun _ _ => keeps_iff.mp, machine.along_mono fun _ _ => keeps_iff.mpr⟩

/-- The account 1 is locked. -/
def locked : State := ⟨∅, fun _ => true, [], fun _ => none⟩

/-- The request of 5 is approved, and its `Follow` comes again. -/
def repeated : List Action :=
  [.receiveFollow 0 5 1 "a", .run 0, .run 0, .run 0, .approve 0 5 1, .run 0, .run 0,
    .receiveFollow 0 5 1 "a", .run 0, .run 0]

theorem accepted_kept_counterexample : ∃ u v, machine.run locked repeated = some u ∧
    machine.step u (.run 0) = some v ∧ Accepted u 5 1 ∧ ¬ Accepted v 5 1 ∧
    ¬ machine.Along Keeps locked (repeated ++ [.run 0]) := by
  have hr : machine.run locked repeated = some _ := rfl
  refine ⟨_, _, hr, rfl, by decide, by decide, fun h => ?_⟩
  have hkeeps := (machine.along_append_right h hr).1
  exact absurd (keeps_iff.mp hkeeps _ rfl) fun hnot => hnot (by decide)

end Steps

end Seiran.Acceptance
