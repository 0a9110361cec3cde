import Seiran.Model.Follows.Exec
import Seiran.Model.Follows.Write

/-!
# Who has the rkey of a follow record

* `Clean`: no attempt writes its result over that of another one, nothing deletes a row
  whose record is there, and no TID is drawn a second time;
* `Holds`: who has the rkey of a record: a row, or the attempt that is to store it;
* `Inv`: every record has one holder, and an accepted row or a task a record;
* `Inv.setTask`, `Inv.writeRow`, `Inv.addRecord`, `Inv.dropRecord`: what a statement or a
  commit does to the rows and the records.
-/

namespace Seiran.FollowExec

open Follows (Follow FollowTable Statement lookup_write)

variable {E : Env} {s t : State} {i j : Nat} {a b : Int64} {k : String}

section Rows

theorem row_write {stmt : Statement} (ha : stmt.key = (E.actorId, a)) :
    (s.write stmt).row E b =
      if b = a then (stmt.change (s.row E a)).getD (s.row E a) else s.row E b := by
  show (s.follows.write stmt).lookup (E.actorId, b) = _
  rw [lookup_write, ha]
  simp only [Prod.mk.injEq, true_and]
  rfl

end Rows

section Holders

/-- The rkey that a task is to store or to delete -/
def Task.rkey : Task → Option String
  | .record _ rkey | .undo rkey => some rkey
  | .insert _ rkey | .accept _ rkey => rkey
  | _ => none

def Task.target : Task → Option Int64
  | .request a | .claim a | .commit _ a | .record a _ | .rollback a | .insert a _ | .accept a _
  | .loadPending a _ | .find a _ | .deleteRecord a _ _ | .delete a _ => some a
  | .undo _ => none

/-- The target whose row `establish_atp_follow` has inserted, and is still to fill or to delete -/
def Task.claims : Task → Option Int64
  | .commit .claimed a | .record a _ | .rollback a => some a
  | _ => none

theorem Task.target_of_claims {task : Task} (h : task.claims = some a) : task.target = some a := by
  cases task with
  | commit attempt b =>
    cases attempt with
    | claimed => exact h
    | _ => cases h
  | record | rollback => exact h
  | _ => cases h

/-- The rkey that a row stores -/
def State.atpRkey (E : Env) (s : State) (a : Int64) : Option String :=
  (s.row E a).bind Follow.atpRkey

def State.rkeys (s : State) : List String := s.records.map Prod.fst

inductive Holder where
  | row (target : Int64)
  | task (i : Nat)
deriving DecidableEq

/-- A row has the rkey that it stores, as long as the record is there. -/
def Holds (E : Env) (s : State) : Holder → String → Prop
  | .row a, k => s.atpRkey E a = some k ∧ k ∈ s.rkeys
  | .task i, k => (s.tasks i).bind Task.rkey = some k

def Holder.target (s : State) : Holder → Option Int64
  | .row a => some a
  | .task i => (s.tasks i).bind Task.target

/-- The record of the row is not there. -/
def Recordless (E : Env) (s : State) (a : Int64) : Prop := ∀ k ∈ s.atpRkey E a, k ∉ s.rkeys

/-- The condition on the next statement or commit of a task -/
def Task.Clean (E : Env) (s : State) (ok : Bool) : Task → Prop
  | .commit _ _ => ∀ n < s.drawn, E.tid n ≠ E.tid s.drawn
  | .record a _ => ∀ row ∈ s.row E a, row.status = .accepted ∧ row.atpRkey = none
  | .insert a rkey => rkey.isSome = true → s.row E a = none
  | .accept a rkey => rkey.isSome = true → (s.row E a).any (·.status = .pending) = true
  | .undo _ => ok = true
  | .rollback a | .delete a _ => Recordless E s a
  | _ => True

/-- The condition on a step -/
def Clean (E : Env) (s : State) : Action → Prop
  | .run i ok => ∀ task ∈ s.tasks i, task.Clean E s ok
  | _ => True

def Drawn (E : Env) (s : State) (k : String) : Prop := ∃ n < s.drawn, k = E.tid n

structure Inv (E : Env) (s : State) : Prop where
  ledger : Ledger (Holds E s) s.rkeys
  drawn : ∀ k ∈ s.rkeys, Drawn E s k
  /-- The record is about the target of the row or the attempt. -/
  subject : ∀ holder, ∀ x ∈ s.records, Holds E s holder x.1 →
    ∀ a ∈ holder.target s, E.atDid a = some x.2
  rowDrawn : ∀ a k, s.atpRkey E a = some k → Drawn E s k
  pending : ∀ a, ∀ row ∈ s.row E a, row.status = .pending → row.atpRkey = none
  /-- A row outlives its record only until it is deleted. -/
  stale : ∀ a k, s.atpRkey E a = some k → k ∈ s.rkeys ∨ ∃ i left, s.tasks i = some (.delete a left)
  deleting : ∀ i a k left, s.tasks i = some (.deleteRecord a k left) →
    Drawn E s k ∧ (k ∈ s.rkeys → s.atpRkey E a = some k)
  served : ∀ a, ∀ row ∈ s.row E a, row.status = .accepted → row.atpRkey = none →
    s.uncommitted a = true ∨ ∃ i, (s.tasks i).bind Task.claims = some a

theorem tasks_setTask {o : Option Task} :
    (s.setTask i o).tasks j = if j = i then o else s.tasks j := by
  show Function.update s.tasks i o j = _
  by_cases hj : j = i
  · subst hj
    simp
  · simp [hj]

/-- Only the task changes. -/
theorem Inv.setTask (h : Inv E s) {o : Option Task}
    (hrkey : o.bind Task.rkey = (s.tasks i).bind Task.rkey)
    (htarget : ∀ k, o.bind Task.rkey = some k → ∀ a, o.bind Task.target = some a →
      (s.tasks i).bind Task.target = some a)
    (hdelete : ∀ a left, s.tasks i ≠ some (.delete a left))
    (hread : ∀ a k left, o = some (.deleteRecord a k left) → s.atpRkey E a = some k)
    (hclaims : ∀ a, (s.tasks i).bind Task.claims = some a →
      o.bind Task.claims = some a ∨ s.row E a = none) :
    Inv E (s.setTask i o) := by
  have hholds : ∀ holder k, Holds E (s.setTask i o) holder k ↔ Holds E s holder k := by
    intro holder k
    cases holder with
    | row a => exact Iff.rfl
    | task j =>
      show ((s.setTask i o).tasks j).bind Task.rkey = some k ↔ _
      rw [tasks_setTask]
      split
      · rename_i hj
        rw [hrkey, hj]
        rfl
      · rfl
  constructor
  case ledger => exact h.ledger.congr hholds
  case drawn => exact h.drawn
  case subject =>
    intro holder x hx hh a ha
    rw [hholds] at hh
    refine h.subject holder x hx hh a ?_
    cases holder with
    | row b => exact ha
    | task j =>
      have ha' : ((s.setTask i o).tasks j).bind Task.target = some a := ha
      show (s.tasks j).bind Task.target = some a
      rw [tasks_setTask] at ha'
      split at ha'
      · rename_i hj
        rw [hj] at hh ⊢
        exact htarget x.1 (hrkey.trans hh) a ha'
      · exact ha'
  case rowDrawn => exact h.rowDrawn
  case pending => exact h.pending
  case stale =>
    intro a k hk
    refine (h.stale a k hk).imp_right ?_
    rintro ⟨j, left, hj⟩
    refine ⟨j, left, ?_⟩
    rw [tasks_setTask, if_neg]
    · exact hj
    · rintro rfl
      exact hdelete a left hj
  case deleting =>
    intro j a k left hj
    rw [tasks_setTask] at hj
    split at hj
    · have hk := hread a k left hj
      exact ⟨h.rowDrawn a k hk, fun _ => hk⟩
    · exact h.deleting j a k left hj
  case served =>
    intro a row hrow haccepted hnone
    refine (h.served a row hrow haccepted hnone).imp_right ?_
    rintro ⟨j, hj⟩
    by_cases hji : j = i
    · subst hji
      rcases hclaims a hj with ho | hnorow
      · refine ⟨j, ?_⟩
        rw [tasks_setTask, if_pos rfl]
        exact ho
      · have hrow : s.row E a = some row := hrow
        rw [hnorow] at hrow
        cases hrow
    · refine ⟨j, ?_⟩
      rw [tasks_setTask, if_neg hji]
      exact hj

/-- A task writes the row of its target, which held no record, and passes on what it has. -/
theorem Inv.writeRow (h : Inv E s) {u : Task} {o : Option Task} (hi : s.tasks i = some u)
    (hu : u.target = some a) (hfree : Recordless E s a)
    (hother : ∀ b, b ≠ a → t.row E b = s.row E b ∧ t.uncommitted b = s.uncommitted b)
    (hsame : t.records = s.records ∧ t.drawn = s.drawn ∧ t.tasks = Function.update s.tasks i o)
    (hto : t.atpRkey E a = u.rkey)
    (hpending : ∀ row ∈ t.row E a, row.status = .pending → row.atpRkey = none)
    (hserved : ∀ row ∈ t.row E a, row.status = .accepted → row.atpRkey = none →
      t.uncommitted a = true ∨ o.bind Task.claims = some a)
    (ho : o.bind Task.rkey = none) (hread : ∀ b k left, o ≠ some (.deleteRecord b k left)) :
    Inv E t := by
  obtain ⟨hrecords, hdrawn, htasks⟩ := hsame
  have hrkeys : t.rkeys = s.rkeys := congrArg (List.map Prod.fst) hrecords
  have hself : t.tasks i = o := by rw [htasks, Function.update_self]
  have hrest : ∀ j, j ≠ i → t.tasks j = s.tasks j := by
    intro j hj
    rw [htasks, Function.update_of_ne hj]
  have hatp : ∀ b, b ≠ a → t.atpRkey E b = s.atpRkey E b := by
    intro b hb
    rw [State.atpRkey, (hother b hb).1]
    rfl
  have hheld : ∀ k, t.atpRkey E a = some k → Holds E s (.task i) k := by
    intro k hk
    show (s.tasks i).bind Task.rkey = some k
    rw [hi]
    exact hto.symm.trans hk
  have hlive : ∀ k, t.atpRkey E a = some k → k ∈ s.rkeys := fun k hk => h.ledger.backed (hheld k hk)
  have hDrawn : ∀ {k}, Drawn E s k → Drawn E t k := by
    intro k hk
    rw [Drawn, hdrawn]
    exact hk
  have hholds : ∀ holder k, holder ≠ .task i → holder ≠ .row a →
      (Holds E t holder k ↔ Holds E s holder k) := by
    intro holder k hsrc hdst
    cases holder with
    | row b =>
      have hb : b ≠ a := fun heq => hdst (heq ▸ rfl)
      show t.atpRkey E b = some k ∧ k ∈ t.rkeys ↔ _
      rw [hatp b hb, hrkeys]
      rfl
    | task j =>
      have hj : j ≠ i := fun heq => hsrc (heq ▸ rfl)
      show (t.tasks j).bind Task.rkey = some k ↔ _
      rw [hrest j hj]
      rfl
  have hfrom : ∀ k, ¬ Holds E t (.task i) k := by
    intro k hk
    have hk : (t.tasks i).bind Task.rkey = some k := hk
    rw [hself, ho] at hk
    cases hk
  constructor
  case ledger =>
    rw [hrkeys]
    refine h.ledger.move (.task i) (.row a) (fun k hk => hfree k hk.1 hk.2) (fun k => ?_) hfrom hholds
    constructor
    · exact fun hk => hheld k hk.1
    · intro hk
      refine ⟨?_, hrkeys ▸ h.ledger.backed hk⟩
      have hk : (s.tasks i).bind Task.rkey = some k := hk
      rw [hi] at hk
      exact hto.trans hk
  case drawn =>
    intro k hk
    exact hDrawn (h.drawn k (hrkeys ▸ hk))
  case subject =>
    intro holder x hx hh b hb
    rw [hrecords] at hx
    by_cases hsrc : holder = .task i
    · exact absurd (hsrc ▸ hh) (hfrom x.1)
    · by_cases hdst : holder = .row a
      · subst hdst
        have hab : a = b := Option.some.inj hb
        refine h.subject (.task i) x hx (hheld x.1 hh.1) b ?_
        show (s.tasks i).bind Task.target = some b
        rw [hi, ← hab]
        exact hu
      · refine h.subject holder x hx ((hholds holder x.1 hsrc hdst).mp hh) b ?_
        cases holder with
        | row c => exact hb
        | task j =>
          have hj : j ≠ i := fun heq => hsrc (heq ▸ rfl)
          have hb : (t.tasks j).bind Task.target = some b := hb
          rw [hrest j hj] at hb
          exact hb
  case rowDrawn =>
    intro b k hk
    by_cases hb : b = a
    · subst hb
      exact hDrawn (h.drawn k (hlive k hk))
    · exact hDrawn (h.rowDrawn b k (hatp b hb ▸ hk))
  case pending =>
    intro b row hrow
    by_cases hb : b = a
    · subst hb
      exact hpending row hrow
    · rw [(hother b hb).1] at hrow
      exact h.pending b row hrow
  case stale =>
    intro b k hk
    rw [hrkeys]
    by_cases hb : b = a
    · subst hb
      exact .inl (hlive k hk)
    · refine (h.stale b k (hatp b hb ▸ hk)).imp_right ?_
      rintro ⟨j, left, hj⟩
      refine ⟨j, left, ?_⟩
      rw [hrest]
      · exact hj
      · rintro rfl
        rw [hi] at hj
        cases hj
        cases hu
        exact hb rfl
  case deleting =>
    intro j b k left hj
    by_cases hji : j = i
    · subst hji
      exact absurd (hself.symm.trans hj) (hread b k left)
    · rw [hrest j hji] at hj
      obtain ⟨hk, hrow⟩ := h.deleting j b k left hj
      refine ⟨hDrawn hk, fun hmem => ?_⟩
      rw [hrkeys] at hmem
      by_cases hb : b = a
      · subst hb
        exact absurd hmem (hfree k (hrow hmem))
      · rw [hatp b hb]
        exact hrow hmem
  case served =>
    intro b row hrow haccepted hnone
    by_cases hb : b = a
    · subst hb
      refine (hserved row hrow haccepted hnone).imp_right fun hc => ⟨i, ?_⟩
      rw [hself]
      exact hc
    · rw [(hother b hb).1] at hrow
      rw [(hother b hb).2]
      refine (h.served b row hrow haccepted hnone).imp_right ?_
      rintro ⟨j, hj⟩
      refine ⟨j, ?_⟩
      rw [hrest]
      · exact hj
      · rintro rfl
        rw [hi] at hj
        have hj : u.claims = some b := hj
        have hub := Task.target_of_claims hj
        rw [hu] at hub
        cases hub
        exact hb rfl

@[simp] theorem committed_rkey (attempt : Attempt) :
    (attempt.committed a k).rkey = some k := by cases attempt <;> rfl

@[simp] theorem committed_target (attempt : Attempt) :
    (attempt.committed a k).target = some a := by cases attempt <;> rfl

theorem committed_claims (attempt : Attempt) :
    (attempt.committed a k).claims = (Task.commit attempt a).claims := by cases attempt <;> rfl

theorem committed_ne_deleteRecord (attempt : Attempt) {left : Option (List Int64)} {k' : String} :
    attempt.committed a k ≠ .deleteRecord b k' left := by
  cases attempt <;> exact nofun

/-- The commit, after which the task has the rkey of the record -/
def State.commitFollow (E : Env) (s : State) (i : Nat) (attempt : Attempt) (a : Int64) (did : String) :
    State :=
  { s with records := Store.put s.records (E.tid s.drawn) did, drawn := s.drawn + 1 }.setTask i
    (some (attempt.committed a (E.tid s.drawn)))

/-- A record is made, under an rkey that is new. -/
theorem Inv.addRecord (h : Inv E s) {attempt : Attempt} {did : String}
    (hi : s.tasks i = some (.commit attempt a)) (hdid : E.atDid a = some did)
    (hnew : ∀ n < s.drawn, E.tid n ≠ E.tid s.drawn) : Inv E (s.commitFollow E i attempt a did) := by
  have hfresh : ¬ Drawn E s (E.tid s.drawn) := by
    rintro ⟨n, hn, heq⟩
    exact hnew n hn heq.symm
  have hnot : E.tid s.drawn ∉ s.rkeys := fun hmem => hfresh (h.drawn _ hmem)
  have hrkeys : (s.commitFollow E i attempt a did).rkeys = s.rkeys ++ [E.tid s.drawn] := by
    show (Store.put s.records (E.tid s.drawn) did).map Prod.fst = _
    rw [Store.put_of_new hnot, List.map_append]
    rfl
  have hmem : ∀ k, Drawn E s k → (k ∈ (s.commitFollow E i attempt a did).rkeys ↔ k ∈ s.rkeys) := by
    intro k hk
    rw [hrkeys, List.mem_append, List.mem_singleton]
    refine or_iff_left ?_
    rintro rfl
    exact hfresh hk
  have hDrawn : ∀ {k}, Drawn E s k → Drawn E (s.commitFollow E i attempt a did) k := by
    rintro k ⟨n, hn, hk⟩
    exact ⟨n, Nat.lt_succ_of_lt hn, hk⟩
  have htasks : ∀ j, (s.commitFollow E i attempt a did).tasks j =
      if j = i then some (attempt.committed a (E.tid s.drawn)) else s.tasks j := fun j => tasks_setTask
  have hholds : ∀ holder k, Holds E (s.commitFollow E i attempt a did) holder k ↔
      Holds E s holder k ∨ holder = .task i ∧ k = E.tid s.drawn := by
    intro holder k
    cases holder with
    | row b =>
      show s.atpRkey E b = some k ∧ k ∈ (s.commitFollow E i attempt a did).rkeys ↔ _
      simp only [reduceCtorEq, false_and, or_false]
      exact and_congr_right fun hk => hmem k (h.rowDrawn b k hk)
    | task j =>
      show ((s.commitFollow E i attempt a did).tasks j).bind Task.rkey = some k ↔
        (s.tasks j).bind Task.rkey = some k ∨ _
      rw [htasks]
      by_cases hj : j = i
      · subst hj
        rw [if_pos rfl, hi, Option.bind_some, committed_rkey]
        constructor
        · intro hk
          exact .inr ⟨rfl, (Option.some.inj hk).symm⟩
        · rintro (hk | ⟨-, rfl⟩)
          · cases hk
          · rfl
      · simp [hj]
  constructor
  case ledger =>
    rw [hrkeys]
    exact h.ledger.add (.task i) hnot hholds
  case drawn =>
    intro k hk
    rw [hrkeys, List.mem_append, List.mem_singleton] at hk
    rcases hk with hk | rfl
    · exact hDrawn (h.drawn k hk)
    · exact ⟨s.drawn, Nat.lt_succ_self _, rfl⟩
  case subject =>
    intro holder x hx hh b hb
    have htarget : ∀ j, j ≠ i → holder = .task j → (s.tasks j).bind Task.target = some b := by
      rintro j hj rfl
      have hb' : ((s.commitFollow E i attempt a did).tasks j).bind Task.target = some b := hb
      rw [htasks, if_neg hj] at hb'
      exact hb'
    have hx : x ∈ s.records ∨ x = (E.tid s.drawn, did) := (Store.mem_put hnot).mp hx
    rcases hx with hx | rfl
    · have hxk : Drawn E s x.1 := h.drawn x.1 (List.mem_map_of_mem hx)
      rcases (hholds holder x.1).mp hh with hold | ⟨-, heq⟩
      · refine h.subject holder x hx hold b ?_
        cases holder with
        | row c => exact hb
        | task j =>
          refine htarget j ?_ rfl
          rintro rfl
          have hold : (s.tasks j).bind Task.rkey = some x.1 := hold
          rw [hi] at hold
          cases hold
      · exact absurd (heq ▸ hxk) hfresh
    · rcases (hholds holder _).mp hh with hh | ⟨rfl, -⟩
      · exact absurd (h.drawn _ (h.ledger.backed hh)) hfresh
      · have hb' : ((s.commitFollow E i attempt a did).tasks i).bind Task.target = some b := hb
        rw [htasks, if_pos rfl, Option.bind_some, committed_target] at hb'
        cases hb'
        exact hdid
  case rowDrawn => exact fun b k hk => hDrawn (h.rowDrawn b k hk)
  case pending => exact h.pending
  case stale =>
    intro b k hk
    rcases h.stale b k hk with hmem' | ⟨j, left, hj⟩
    · exact .inl ((hmem k (h.rowDrawn b k hk)).mpr hmem')
    · refine .inr ⟨j, left, ?_⟩
      rw [htasks, if_neg]
      · exact hj
      · rintro rfl
        rw [hi] at hj
        cases hj
  case deleting =>
    intro j b k left hj
    rw [htasks] at hj
    split at hj
    · exact absurd (Option.some.inj hj) (committed_ne_deleteRecord attempt)
    · obtain ⟨hk, hrow⟩ := h.deleting j b k left hj
      exact ⟨hDrawn hk, fun hmem' => hrow ((hmem k hk).mp hmem')⟩
  case served =>
    intro b row hrow haccepted hnone
    refine (h.served b row hrow haccepted hnone).imp_right ?_
    rintro ⟨j, hj⟩
    refine ⟨j, ?_⟩
    rw [htasks]
    split
    · rename_i hji
      subst hji
      rw [hi] at hj
      exact (committed_claims attempt).trans hj
    · exact hj

/-- A record is deleted by the task that has its rkey, or by one that is then to delete the
row which has it. -/
theorem Inv.dropRecord (h : Inv E s) {o : Option Task}
    (hmine : ∀ k', (s.tasks i).bind Task.rkey = some k' → k' = k)
    (hk : ∀ holder, Holds E s holder k → holder = .task i ∨
      ∃ a left, holder = .row a ∧ o = some (.delete a left))
    (hdelete : ∀ a left, s.tasks i ≠ some (.delete a left))
    (hclaims : (s.tasks i).bind Task.claims = none) (ho : o.bind Task.rkey = none)
    (hread : ∀ a k' left, o ≠ some (.deleteRecord a k' left)) :
    Inv E ({ s with records := Store.delete s.records k }.setTask i o) := by
  have htasks : ∀ j, ({ s with records := Store.delete s.records k }.setTask i o).tasks j =
      if j = i then o else s.tasks j := fun j => tasks_setTask
  have hrkeys : ({ s with records := Store.delete s.records k }.setTask i o).rkeys =
      s.rkeys.filter fun k' => k' ≠ k := Store.map_delete
  have hmem : ∀ k', k' ∈ ({ s with records := Store.delete s.records k }.setTask i o).rkeys ↔
      k' ∈ s.rkeys ∧ k' ≠ k := by
    intro k'
    rw [hrkeys, List.mem_filter, decide_eq_true_iff]
  have hholds : ∀ holder k', Holds E ({ s with records := Store.delete s.records k }.setTask i o)
      holder k' ↔ Holds E s holder k' ∧ k' ≠ k := by
    intro holder k'
    cases holder with
    | row a => exact (and_congr_right fun _ => hmem k').trans and_assoc.symm
    | task j =>
      show (({ s with records := Store.delete s.records k }.setTask i o).tasks j).bind Task.rkey =
        some k' ↔ (s.tasks j).bind Task.rkey = some k' ∧ k' ≠ k
      rw [htasks]
      split
      · rename_i hj
        subst hj
        rw [ho]
        refine iff_of_false nofun ?_
        rintro ⟨hj, hne⟩
        exact hne (hmine k' hj)
      · rename_i hj
        refine (and_iff_left_of_imp fun hrkey => ?_).symm
        rintro rfl
        rcases hk (.task j) hrkey with heq | ⟨a, left, heq, -⟩
        · cases heq
          exact hj rfl
        · cases heq
  constructor
  case ledger =>
    rw [hrkeys]
    exact h.ledger.drop hholds
  case drawn => exact fun k' hk' => h.drawn k' ((hmem k').mp hk').1
  case subject =>
    intro holder x hx hh a ha
    have hh' := ((hholds holder x.1).mp hh).1
    refine h.subject holder x (Store.mem_delete.mp hx).1 hh' a ?_
    cases holder with
    | row b => exact ha
    | task j =>
      have ha' : (({ s with records := Store.delete s.records k }.setTask i o).tasks j).bind
        Task.target = some a := ha
      have hne : j ≠ i := by
        rintro rfl
        have hh : (({ s with records := Store.delete s.records k }.setTask j o).tasks j).bind
          Task.rkey = some x.1 := hh
        rw [htasks, if_pos rfl, ho] at hh
        cases hh
      rw [htasks, if_neg hne] at ha'
      exact ha'
  case rowDrawn => exact h.rowDrawn
  case pending => exact h.pending
  case stale =>
    intro a k' hk'
    rcases h.stale a k' hk' with hk'' | ⟨j, left, hj⟩
    · by_cases hne : k' = k
      · subst hne
        rcases hk (.row a) ⟨hk', hk''⟩ with heq | ⟨b, left, heq, ho'⟩
        · cases heq
        · cases heq
          refine .inr ⟨i, left, ?_⟩
          rw [htasks, if_pos rfl]
          exact ho'
      · exact .inl ((hmem k').mpr ⟨hk'', hne⟩)
    · refine .inr ⟨j, left, ?_⟩
      rw [htasks, if_neg]
      · exact hj
      · rintro rfl
        exact hdelete a left hj
  case deleting =>
    intro j a k' left hj
    rw [htasks] at hj
    split at hj
    · exact absurd hj (hread a k' left)
    · obtain ⟨hk', hrow⟩ := h.deleting j a k' left hj
      exact ⟨hk', fun hmem' => hrow ((hmem k').mp hmem').1⟩
  case served =>
    intro a row hrow haccepted hnone
    refine (h.served a row hrow haccepted hnone).imp_right ?_
    rintro ⟨j, hj⟩
    refine ⟨j, ?_⟩
    rw [htasks, if_neg]
    · exact hj
    · rintro rfl
      rw [hclaims] at hj
      cases hj

end Holders

end Seiran.FollowExec
