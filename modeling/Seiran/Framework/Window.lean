import Mathlib.Data.List.Induction
import Mathlib.Data.List.Dedup
import Mathlib.Data.List.Perm.Subperm

/-!
# Counting in windows

A log grows at its end, and each entry of some kind was let in under a bound on what was
in the log then.

* `measure_filter_le`: these bounds, one for each entry, are one for the whole log, as the
  last entry of the kind has all the others before it;
* `Each`: what held of each entry and those before it when it was added;
* `window_le`: the bound on a window of fixed length, wherever it opens.
-/

namespace Seiran.Window

universe u v

variable {α : Type u} {β : Type v}

/-- What a longer list measures no less by -/
def Grows (μ : List α → Nat) : Prop := ∀ {l l' : List α}, l.Sublist l' → μ l ≤ μ l'

theorem grows_length : Grows (List.length (α := α)) := fun h => h.length_le

theorem grows_distinct [DecidableEq β] (f : α → β) : Grows fun l => (l.map f).dedup.length := by
  intro l l' h
  have hsub : (l.map f).dedup ⊆ (l'.map f).dedup := fun x hx =>
    List.mem_dedup.mpr ((h.map f).subset (List.mem_dedup.mp hx))
  exact (List.subperm_of_subset (List.nodup_dedup _) hsub).length_le

/-- What is determined by `f` has no more values than `f` has. -/
theorem distinct_le_of_determined {γ : Type*} [DecidableEq β] [DecidableEq γ] {f : α → β}
    {g : α → γ} {l : List α} (hfg : ∀ a ∈ l, ∀ b ∈ l, f a = f b → g a = g b) :
    (l.map g).dedup.length ≤ (l.map f).dedup.length := by
  induction l with
  | nil => exact Nat.le_refl _
  | cons a l ih =>
    have ih' := ih fun b hb c hc => hfg b (List.mem_cons_of_mem a hb) c (List.mem_cons_of_mem a hc)
    by_cases hmem : g a ∈ l.map g
    · rw [List.map_cons, List.dedup_cons_of_mem hmem]
      exact Nat.le_trans ih' (grows_distinct f (List.sublist_cons_self a l))
    · have hmem' : f a ∉ l.map f := by
        intro hf
        obtain ⟨b, hb, heq⟩ := List.mem_map.mp hf
        refine hmem (List.mem_map.mpr ⟨b, hb, ?_⟩)
        exact hfg b (List.mem_cons_of_mem a hb) a List.mem_cons_self heq
      rw [List.map_cons, List.map_cons, List.dedup_cons_of_notMem hmem,
        List.dedup_cons_of_notMem hmem']
      exact Nat.succ_le_succ ih'

/-- The entries under `p` are bounded if, for each of them, some `q` that holds of those
up to it is bounded there. -/
theorem measure_filter_le {μ : List α → Nat} (hμ : Grows μ) {n : Nat} (hnil : μ [] ≤ n)
    (p : α → Bool) {l : List α}
    (hbound : ∀ pre a post, l = pre ++ a :: post → p a = true →
      ∃ q : α → Bool, (∀ b ∈ pre ++ [a], p b = true → q b = true) ∧ μ ((pre ++ [a]).filter q) ≤ n) :
    μ (l.filter p) ≤ n := by
  induction l using List.reverseRecOn with
  | nil => exact hnil
  | append_singleton l a ih =>
    cases hp : p a with
    | true =>
      obtain ⟨q, hq, hn⟩ := hbound l a [] rfl hp
      refine Nat.le_trans (hμ ?_) hn
      have heq : (l ++ [a]).filter p = ((l ++ [a]).filter q).filter p := by
        rw [List.filter_filter]
        refine List.filter_congr fun b hb => ?_
        cases hpb : p b with
        | true => rw [hq b hb hpb, Bool.and_self]
        | false => rw [Bool.false_and]
      rw [heq]
      exact List.filter_sublist
    | false =>
      rw [List.filter_append, List.filter_singleton, hp, cond_false, List.append_nil]
      refine ih fun pre b post heq hb => ?_
      exact hbound pre b (post ++ [a]) (by rw [heq, List.append_assoc, List.cons_append]) hb

/-- What holds of each entry, with those before it -/
def Each (ok : List α → α → Prop) (l : List α) : Prop :=
  ∀ pre a post, l = pre ++ a :: post → ok pre a

variable {ok ok' : List α → α → Prop} {l new : List α} {a : α}

theorem each_nil : Each ok [] := fun _ _ _ h => by simp at h

theorem Each.mono (h : Each ok l) (hok : ∀ {pre a}, ok pre a → ok' pre a) : Each ok' l :=
  fun pre a post heq => hok (h pre a post heq)

theorem Each.append_list (h : Each ok l)
    (hnew : ∀ pre a post, new = pre ++ a :: post → ok (l ++ pre) a) : Each ok (l ++ new) := by
  intro pre a post heq
  rcases List.append_eq_append_iff.mp heq with ⟨mid, rfl, hmid⟩ | ⟨mid, hl, hmid⟩
  · exact hnew mid a post hmid
  · cases mid with
    | nil =>
      rw [List.append_nil] at hl
      subst hl
      rw [List.nil_append] at hmid
      have hok := hnew [] a post hmid.symm
      rwa [List.append_nil] at hok
    | cons b mid =>
      obtain ⟨rfl, -⟩ := List.cons.inj hmid
      exact h pre a mid hl

theorem Each.append (h : Each ok l) (ha : ok l a) : Each ok (l ++ [a]) := by
  refine h.append_list fun pre b post heq => ?_
  cases pre with
  | nil =>
    obtain ⟨rfl, -⟩ := List.cons.inj heq
    rw [List.append_nil]
    exact ha
  | cons c pre => simp at heq

/-- Each entry of a kind was let in by a count that reached back over the window that ends
with it. -/
theorem window_le {μ : List α → Nat} (hμ : Grows μ) {n : Nat} (hnil : μ [] ≤ n)
    (key : α → Prop) [DecidablePred key] (time : α → Int) (length : Int)
    (h : Each (fun pre a => key a → ∃ since, since ≤ time a - length ∧
      μ ((pre ++ [a]).filter fun b => key b ∧ since ≤ time b) ≤ n) l) (opens : Int) :
    μ (l.filter fun b => key b ∧ opens ≤ time b ∧ time b ≤ opens + length) ≤ n := by
  refine measure_filter_le hμ hnil _ fun pre a post heq ha => ?_
  obtain ⟨hkey, -, hto⟩ := of_decide_eq_true ha
  obtain ⟨since, hsince, hn⟩ := h pre a post heq hkey
  refine ⟨_, fun b _ hb => ?_, hn⟩
  obtain ⟨hkeyb, hfrom, -⟩ := of_decide_eq_true hb
  exact decide_eq_true ⟨hkeyb, by omega⟩

end Seiran.Window
