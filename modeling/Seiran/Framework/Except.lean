import Mathlib.Data.List.Basic

/-!
# Computations that can fail

* `bind_eq_ok`: a sequence succeeds when each of its parts does;
* `foldlM_inv`: an invariant of a loop, over the elements it has passed;
* `mapM_ok_mem`, `mapM_ok_mem_right`: where the results of a `mapM` come from.
-/

namespace Seiran

universe u v w

variable {ε : Type u} {α : Type w} {β : Type v}

theorem ok_bind {ε : Type u} {α β : Type v} (a : α) (f : α → Except ε β) :
    ((Except.ok a : Except ε α) >>= f) = f a :=
  rfl

theorem bind_eq_ok {ε : Type u} {α β : Type v} {x : Except ε α} {f : α → Except ε β} {b : β} :
    x >>= f = .ok b ↔ ∃ a, x = .ok a ∧ f a = .ok b := by
  cases x <;> simp [bind, Except.bind]

/-- What each step of a loop adds to the elements passed so far, the whole
loop adds to them. -/
theorem foldlM_inv {I : β → List α → Prop} {f : β → α → Except ε β} {xs : List α}
    (hstep : ∀ {b b' done a rest}, xs = done ++ a :: rest → I b done → f b a = .ok b' →
      I b' (done ++ [a]))
    {b b' : β} (hI : I b []) (hf : xs.foldlM f b = .ok b') : I b' xs := by
  suffices ∀ rest done b, xs = done ++ rest → I b done → rest.foldlM f b = .ok b' → I b' xs from
    this xs [] b rfl hI hf
  intro rest
  induction rest with
  | nil =>
    intro done b hxs hI hf
    cases hf
    simpa [hxs] using hI
  | cons a rest ih =>
    intro done b hxs hI hf
    rw [List.foldlM_cons, bind_eq_ok] at hf
    obtain ⟨b₁, ha, hrest⟩ := hf
    exact ih (done ++ [a]) b₁ (by simpa using hxs) (hstep hxs hI ha) hrest

theorem mapM_cons_ok {α : Type w} {β : Type v} {f : α → Except ε β} {x : α} {xs : List α}
    {ys : List β} (h : (x :: xs).mapM f = .ok ys) :
    ∃ y ys', f x = .ok y ∧ xs.mapM f = .ok ys' ∧ ys = y :: ys' := by
  rw [List.mapM_cons, bind_eq_ok] at h
  obtain ⟨y, hy, h⟩ := h
  obtain ⟨ys', hys, h⟩ := bind_eq_ok.mp h
  cases h
  exact ⟨y, ys', hy, hys, rfl⟩

theorem mapM_ok_mem {α : Type w} {β : Type v} {f : α → Except ε β} {xs : List α} {ys : List β}
    (h : xs.mapM f = .ok ys) {x : α} (hx : x ∈ xs) : ∃ y ∈ ys, f x = .ok y := by
  induction xs generalizing ys with
  | nil => cases hx
  | cons x' xs ih =>
    obtain ⟨y, ys', hy, hys, rfl⟩ := mapM_cons_ok h
    rcases List.mem_cons.mp hx with rfl | hx
    · exact ⟨y, by simp, hy⟩
    · obtain ⟨y', hy', hf⟩ := ih hys hx
      exact ⟨y', by simp [hy'], hf⟩

theorem mapM_ok_mem_right {α : Type w} {β : Type v} {f : α → Except ε β} {xs : List α}
    {ys : List β} (h : xs.mapM f = .ok ys) {y : β} (hy : y ∈ ys) : ∃ x ∈ xs, f x = .ok y := by
  induction xs generalizing ys with
  | nil =>
    cases h
    cases hy
  | cons x xs ih =>
    obtain ⟨y', ys', hf, hys, rfl⟩ := mapM_cons_ok h
    rcases List.mem_cons.mp hy with rfl | hy
    · exact ⟨x, by simp, hf⟩
    · obtain ⟨x', hx', hf'⟩ := ih hys hy
      exact ⟨x', by simp [hx'], hf'⟩

end Seiran
