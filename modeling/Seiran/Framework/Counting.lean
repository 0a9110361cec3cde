import Mathlib.Data.List.Basic
import Mathlib.Data.List.Induction
import Mathlib.Data.List.Nodup

/-!
# Places in a list, and counting its elements

* `append_singleton_eq`: the places in a list that grew by one element;
* `place_unique`, `eq_of_filterMap_nodup`: a value that occurs once has one place;
* `flatMap_set_perm`: when the element at a place is replaced, `flatMap` changes as that
  element does, so that what every element holds can be counted over the list;
* `countP_lt_countP`: a condition that holds of fewer elements counts fewer;
* `countP_or`: two conditions that never hold together;
* `countP_update`: what changes when the element with a key does;
* `length_le_one`: no two different elements.
-/

namespace Seiran

universe u v

theorem append_singleton_eq {α : Type} {l before after : List α} {x y : α} :
    l ++ [x] = before ++ y :: after ↔
      (after = [] ∧ before = l ∧ y = x) ∨
        ∃ after', after = after' ++ [x] ∧ l = before ++ y :: after' := by
  constructor
  · intro h
    cases after using List.reverseRecOn with
    | nil =>
      obtain ⟨rfl, hx⟩ := List.append_inj' h rfl
      cases hx
      exact Or.inl ⟨rfl, rfl, rfl⟩
    | append_singleton after' z =>
      rw [← List.cons_append, ← List.append_assoc] at h
      obtain ⟨rfl, hz⟩ := List.append_inj' h rfl
      cases hz
      exact Or.inr ⟨after', rfl, rfl⟩
  · rintro (⟨rfl, rfl, rfl⟩ | ⟨after', rfl, rfl⟩)
    · rfl
    · rw [List.append_assoc]
      rfl

theorem place_unique {α β : Type} {f : α → Option β} {before before' after after' : List α}
    {x x' : α} {k : β} (hnodup : ((before ++ x :: after).filterMap f).Nodup)
    (heq : before ++ x :: after = before' ++ x' :: after') (hx : f x = some k)
    (hx' : f x' = some k) : before = before' ∧ x = x' ∧ after = after' := by
  have hno : ∀ {l m r : List α} {y z : α}, f y = some k → f z = some k →
      ¬ ((l ++ y :: (m ++ z :: r)).filterMap f).Nodup := by
    intro l m r y z hy hz h
    rw [List.filterMap_append, List.filterMap_cons_some hy, List.filterMap_append,
      List.filterMap_cons_some hz] at h
    have hcons := (List.nodup_append.mp h).2.1
    exact (List.nodup_cons.mp hcons).1 (List.mem_append_right _ List.mem_cons_self)
  rcases List.append_eq_append_iff.mp heq with ⟨mid, rfl, hmid⟩ | ⟨mid, rfl, hmid⟩
  · cases mid with
    | nil =>
      cases hmid
      exact ⟨(List.append_nil _).symm, rfl, rfl⟩
    | cons y mid =>
      cases hmid
      exact absurd hnodup (hno hx hx')
  · cases mid with
    | nil =>
      cases hmid
      exact ⟨List.append_nil _, rfl, rfl⟩
    | cons y mid =>
      cases hmid
      rw [heq] at hnodup
      exact absurd hnodup (hno hx' hx)

theorem eq_of_filterMap_nodup {α β : Type} {f : α → Option β} {l : List α} {a b : α} {k : β}
    (h : (l.filterMap f).Nodup) (ha : a ∈ l) (hb : b ∈ l) (hfa : f a = some k)
    (hfb : f b = some k) : a = b := by
  obtain ⟨before, after, rfl⟩ := List.append_of_mem ha
  obtain ⟨before', after', heq⟩ := List.append_of_mem hb
  exact (place_unique h heq hfa hfb).2.1

section FlatMap

variable {α : Type u} {β : Type v} {f : α → List β} {xs : List α} {i : Nat} {a a' : α}

theorem eq_append_cons_of_getElem? (h : xs[i]? = some a) :
    xs = xs.take i ++ a :: xs.drop (i + 1) := by
  obtain ⟨hi, rfl⟩ := List.getElem?_eq_some_iff.mp h
  rw [List.getElem_cons_drop, List.take_append_drop]

theorem flatMap_set (hi : i < xs.length) :
    (xs.set i a').flatMap f = (xs.take i).flatMap f ++ (f a' ++ (xs.drop (i + 1)).flatMap f) := by
  rw [List.set_eq_take_append_cons_drop, if_pos hi, List.flatMap_append, List.flatMap_cons]

/-- The new element holds `extra` more than the old one, and so does the list. -/
theorem flatMap_set_perm {extra : List β} (h : xs[i]? = some a)
    (hf : (f a').Perm (extra ++ f a)) :
    ((xs.set i a').flatMap f).Perm (extra ++ xs.flatMap f) := by
  have hi : i < xs.length := (List.getElem?_eq_some_iff.mp h).1
  have hxs : xs.flatMap f =
      (xs.take i).flatMap f ++ (f a ++ (xs.drop (i + 1)).flatMap f) := by
    conv_lhs => rw [eq_append_cons_of_getElem? h]
    rw [List.flatMap_append, List.flatMap_cons]
  rw [flatMap_set hi, hxs]
  refine ((hf.append_right _).append_left _).trans ?_
  rw [List.append_assoc]
  exact List.perm_append_comm_assoc _ _ _

theorem flatMap_set_perm_same (h : xs[i]? = some a) (hf : (f a').Perm (f a)) :
    ((xs.set i a').flatMap f).Perm (xs.flatMap f) := by
  have h' : (f a').Perm ([] ++ f a) := hf
  exact flatMap_set_perm h h'

end FlatMap

section Count

variable {α : Type u} {κ : Type v} {p q : α → Bool} {l : List α}

theorem countP_lt_countP (h : ∀ x ∈ l, q x = true → p x = true) {x : α} (hx : x ∈ l)
    (hp : p x = true) (hq : q x = false) : l.countP q < l.countP p := by
  obtain ⟨l₁, l₂, rfl⟩ := List.append_of_mem hx
  have h₁ : l₁.countP q ≤ l₁.countP p :=
    List.countP_mono_left fun y hy => h y (List.mem_append_left _ hy)
  have h₂ : l₂.countP q ≤ l₂.countP p :=
    List.countP_mono_left fun y hy => h y (List.mem_append_right _ (List.mem_cons_of_mem _ hy))
  rw [List.countP_append, List.countP_append, List.countP_cons_of_pos hp,
    List.countP_cons_of_neg (by simp [hq])]
  omega

theorem countP_or (h : ∀ x ∈ l, p x = true → q x = false) :
    l.countP (fun x => p x || q x) = l.countP p + l.countP q := by
  induction l with
  | nil => rfl
  | cons x l ih =>
    have hx := h x List.mem_cons_self
    rw [List.countP_cons, List.countP_cons, List.countP_cons,
      ih fun y hy => h y (List.mem_cons_of_mem _ hy)]
    cases hp : p x with
    | false => cases hq : q x <;> simp; omega
    | true =>
      rw [hx hp]
      simp
      omega

theorem map_update_of_ne [DecidableEq κ] {key : α → κ} {k : κ} (f : α → α)
    (h : ∀ y ∈ l, key y ≠ k) : (l.map fun y => if key y = k then f y else y) = l := by
  calc (l.map fun y => if key y = k then f y else y)
      = l.map id := List.map_congr_left fun y hy => if_neg (h y hy)
    _ = l := List.map_id l

/-- The element with the key of `x` changes, and no other. -/
theorem countP_update [DecidableEq κ] {key : α → κ} (hnodup : (l.map key).Nodup) {x : α}
    (hx : x ∈ l) (f : α → α) :
    (l.map fun y => if key y = key x then f y else y).countP p + (if p x then 1 else 0) =
      l.countP p + (if p (f x) then 1 else 0) := by
  obtain ⟨l₁, l₂, rfl⟩ := List.append_of_mem hx
  rw [List.map_append, List.map_cons, List.nodup_append', List.nodup_cons] at hnodup
  obtain ⟨-, ⟨hx₂, -⟩, hdisj⟩ := hnodup
  have hkeep₁ := @map_update_of_ne _ _ l₁ _ key (key x) f fun y hy heq =>
    hdisj (List.mem_map_of_mem hy) (heq ▸ List.mem_cons_self)
  have hkeep₂ := @map_update_of_ne _ _ l₂ _ key (key x) f fun y hy heq =>
    hx₂ (heq ▸ List.mem_map_of_mem hy)
  rw [List.map_append, List.map_cons, hkeep₁, hkeep₂, if_pos rfl, List.countP_append,
    List.countP_append, List.countP_cons, List.countP_cons]
  omega

theorem length_le_one (hnodup : l.Nodup) (h : ∀ x ∈ l, ∀ y ∈ l, x = y) : l.length ≤ 1 := by
  rcases l with _ | ⟨x, _ | ⟨y, l⟩⟩
  · exact Nat.zero_le 1
  · exact Nat.le_refl 1
  · exact absurd (h x (by simp) y (by simp)) (List.ne_of_not_mem_cons (List.nodup_cons.mp hnodup).1)

end Count

end Seiran
