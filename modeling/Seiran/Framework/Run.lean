import Mathlib.Data.Option.Basic

/-!
# Runs of a machine

A machine takes one action at a time. An action that is not enabled in a
state leads nowhere, so whatever is not deterministic in a system (who moves
next, which reply arrives, where a process stops) is put into the action.

* `Machine.run`: the state a list of actions leads to;
* `Machine.Along`: a condition on every step of a run, stated on the state
  before the step;
* `run_inv`, `run_inv_along`: what every step (every step that meets the
  condition) preserves, the run preserves;
* `along_of_prefixes`: the converse, for a condition whose failure shows.
-/

namespace Seiran

universe u v

/-- A machine: from a state, an action leads to at most one state. -/
structure Machine (σ : Type u) (α : Type v) where
  step : σ → α → Option σ

namespace Machine

variable {σ : Type u} {α : Type v} (M : Machine σ α)

/-- The state a list of actions leads to, if each of them is enabled in turn. -/
def run : σ → List α → Option σ
  | s, [] => some s
  | s, a :: as => (M.step s a).bind fun s' => run s' as

@[simp] theorem run_nil (s : σ) : M.run s [] = some s := rfl

theorem run_cons (s : σ) (a : α) (as : List α) :
    M.run s (a :: as) = (M.step s a).bind fun s' => M.run s' as := rfl

theorem run_cons_eq_some {s t : σ} {a : α} {as : List α} :
    M.run s (a :: as) = some t ↔ ∃ s', M.step s a = some s' ∧ M.run s' as = some t := by
  rw [run_cons, Option.bind_eq_some_iff]

theorem run_append (s : σ) (as bs : List α) :
    M.run s (as ++ bs) = (M.run s as).bind fun s' => M.run s' bs := by
  induction as generalizing s with
  | nil => rfl
  | cons a as ih =>
    simp only [List.cons_append, run_cons, Option.bind_assoc]
    exact Option.bind_congr fun s' _ => ih s'

theorem run_append_eq_some {s t : σ} {as bs : List α} :
    M.run s (as ++ bs) = some t ↔ ∃ s', M.run s as = some s' ∧ M.run s' bs = some t := by
  rw [run_append, Option.bind_eq_some_iff]

/-- `P` holds of every step of the run, as a condition on the state before
the step and the action. -/
def Along (P : σ → α → Prop) : σ → List α → Prop
  | _, [] => True
  | s, a :: as => P s a ∧ ∀ s', M.step s a = some s' → Along P s' as

theorem along_cons {P : σ → α → Prop} {s s' : σ} {a : α} {as : List α}
    (h : M.Along P s (a :: as)) (hs : M.step s a = some s') : P s a ∧ M.Along P s' as :=
  ⟨h.1, h.2 s' hs⟩

theorem along_mono {P Q : σ → α → Prop} (hPQ : ∀ s a, P s a → Q s a) {s : σ} {as : List α}
    (h : M.Along P s as) : M.Along Q s as := by
  induction as generalizing s with
  | nil => trivial
  | cons a as ih => exact ⟨hPQ s a h.1, fun s' hs => ih (h.2 s' hs)⟩

theorem along_append_left {P : σ → α → Prop} {s : σ} {as bs : List α}
    (h : M.Along P s (as ++ bs)) : M.Along P s as := by
  induction as generalizing s with
  | nil => trivial
  | cons a as ih => exact ⟨h.1, fun s' hs => ih (h.2 s' hs)⟩

theorem along_append_right {P : σ → α → Prop} {s t : σ} {as bs : List α}
    (h : M.Along P s (as ++ bs)) (hr : M.run s as = some t) : M.Along P t bs := by
  induction as generalizing s with
  | nil =>
    cases hr
    exact h
  | cons a as ih =>
    obtain ⟨s', hs, hr'⟩ := M.run_cons_eq_some.mp hr
    exact ih (h.2 s' hs) hr'

/-- A condition whose failure ends what held so far holds along a run in
whose states that holds throughout. -/
theorem along_of_prefixes_holding {P : σ → α → Prop} {I Q : σ → Prop}
    (hinv : ∀ {s a s'}, I s → M.step s a = some s' → I s')
    (hstep : ∀ {s a s'}, I s → Q s → ¬ P s a → M.step s a = some s' → ¬ Q s')
    {s t : σ} {as : List α} (hI : I s) (hr : M.run s as = some t)
    (h : ∀ bs cs u, as = bs ++ cs → M.run s bs = some u → Q u) : M.Along P s as := by
  induction as generalizing s with
  | nil => trivial
  | cons a as ih =>
    obtain ⟨s', hs, hr'⟩ := M.run_cons_eq_some.mp hr
    refine ⟨?_, fun s'' hs'' => ?_⟩
    · by_contra hP
      refine hstep hI (h [] (a :: as) s rfl rfl) hP hs (h [a] as s' rfl ?_)
      rw [run_cons, hs]
      rfl
    · rw [hs, Option.some.injEq] at hs''
      subst hs''
      refine ih (hinv hI hs) hr' fun bs cs u heq hu => h (a :: bs) cs u (by rw [heq]; rfl) ?_
      rw [run_cons, hs]
      exact hu

/-- A condition whose failure shows in the next state holds along a run in
which it never shows. -/
theorem along_of_prefixes {P : σ → α → Prop} {I Q : σ → Prop}
    (hinv : ∀ {s a s'}, I s → M.step s a = some s' → I s')
    (hstep : ∀ {s a s'}, I s → ¬ P s a → M.step s a = some s' → ¬ Q s')
    {s t : σ} {as : List α} (hI : I s) (hr : M.run s as = some t)
    (h : ∀ bs cs u, as = bs ++ cs → M.run s bs = some u → Q u) : M.Along P s as :=
  M.along_of_prefixes_holding hinv (fun hI _ hP hs => hstep hI hP hs) hI hr h

/-- A condition that holds of all the actions of a list holds along it. -/
theorem along_of_forall {Q : α → Prop} (s : σ) {as : List α} (h : ∀ a ∈ as, Q a) :
    M.Along (fun _ a => Q a) s as := by
  induction as generalizing s with
  | nil => trivial
  | cons a as ih => exact ⟨h a (by simp), fun s' _ => ih s' fun b hb => h b (by simp [hb])⟩

/-- A condition that holds at every action of a run holds along it. -/
theorem along_of_splits {P : σ → α → Prop} {s : σ} {as : List α}
    (h : ∀ bs a cs u, as = bs ++ a :: cs → M.run s bs = some u → P u a) : M.Along P s as := by
  induction as generalizing s with
  | nil => trivial
  | cons a as ih =>
    refine ⟨h [] a as s rfl rfl, fun s' hs => ih fun bs b cs u heq hu => ?_⟩
    refine h (a :: bs) b cs u (by rw [heq]; rfl) ?_
    rw [run_cons, hs]
    exact hu

instance decidableAlong (P : σ → α → Prop) [∀ s a, Decidable (P s a)] :
    ∀ s as, Decidable (M.Along P s as)
  | _, [] => .isTrue trivial
  | s, a :: as =>
    match h : M.step s a with
    | none => decidable_of_iff (P s a) (by simp [Along, h])
    | some s' =>
      haveI := decidableAlong P s' as
      decidable_of_iff (P s a ∧ M.Along P s' as) (by simp [Along, h])

/-- What every step that meets `P` preserves, a run whose steps all meet `P`
preserves. -/
theorem run_inv_along {P : σ → α → Prop} {I : σ → Prop}
    (hstep : ∀ {s a s'}, I s → P s a → M.step s a = some s' → I s')
    {s t : σ} {as : List α} (hI : I s) (hP : M.Along P s as) (hr : M.run s as = some t) : I t := by
  induction as generalizing s with
  | nil => cases hr; exact hI
  | cons a as ih =>
    obtain ⟨s', hs, hr'⟩ := M.run_cons_eq_some.mp hr
    obtain ⟨ha, hP'⟩ := M.along_cons hP hs
    exact ih (hstep hI ha hs) hP' hr'

theorem along_true (s : σ) (as : List α) : M.Along (fun _ _ => True) s as := by
  induction as generalizing s with
  | nil => trivial
  | cons a as ih => exact ⟨trivial, fun s' _ => ih s'⟩

/-- What every step preserves, every run preserves. -/
theorem run_inv {I : σ → Prop} (hstep : ∀ {s a s'}, I s → M.step s a = some s' → I s')
    {s t : σ} {as : List α} (hI : I s) (hr : M.run s as = some t) : I t :=
  M.run_inv_along (fun hI _ hs => hstep hI hs) hI (M.along_true s as) hr

end Machine

end Seiran
