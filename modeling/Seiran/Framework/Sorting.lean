import Mathlib.Data.List.Pairwise
import Mathlib.Order.Defs.LinearOrder
import Mathlib.Order.Lattice

/-!
# Two orders of one list

* `eq_iff_of_pairwise`: two arrangements of the same elements, each by an
  order of its own, are equal exactly where the orders agree;
* `lt_separated_iff`: in the lexicographic order, what follows a separator does
  not matter;
* `mergeSort_eq`: a stable sort by a key, largest first, is the one sorted list
  that has the elements of each key in the order they had; so it goes past
  `filter` and `flatMap`.
-/

namespace Seiran.Sorting

section Orders

variable {α : Type} {r s : α → α → Prop} {l l' : List α}

theorem eq_iff_of_pairwise (hp : l.Perm l') (hnodup : l'.Nodup) (hr : l.Pairwise r)
    (hs : l'.Pairwise s) (hra : ∀ a b, r a b → r b a → a = b) (hsa : ∀ a b, s a b → ¬ s b a)
    (hst : ∀ a ∈ l', ∀ b ∈ l', a ≠ b → s a b ∨ s b a) :
    l = l' ↔ ∀ a ∈ l', ∀ b ∈ l', s a b → r a b := by
  constructor
  · intro heq a ha b hb hab
    have hboth : l'.Pairwise fun x y => (s x y → r x y) ∧ (s y x → r y x) := by
      rw [heq] at hr
      refine hr.imp₂ (fun x y hxy hsxy => ⟨fun _ => hxy, fun hsyx => absurd hsyx (hsa x y hsxy)⟩) hs
    have : Std.Symm fun x y => (s x y → r x y) ∧ (s y x → r y x) := ⟨fun _ _ h => ⟨h.2, h.1⟩⟩
    have hne : a ≠ b := fun hab' => hsa a b hab (hab' ▸ hab)
    exact (hboth.forall ha hb hne).1 hab
  · intro hagree
    -- the first arrangement is ordered by `s` too
    have hls : l.Pairwise s := by
      refine (hr.and (hp.nodup_iff.mpr hnodup)).imp_of_mem ?_
      intro a b ha hb h
      rcases hst a (hp.mem_iff.mp ha) b (hp.mem_iff.mp hb) h.2 with hab | hba
      · exact hab
      · have := hagree b (hp.mem_iff.mp hb) a (hp.mem_iff.mp ha) hba
        exact absurd (hra a b h.1 this) h.2
    exact hp.eq_of_pairwise (fun a b _ _ hab hba => absurd hba (hsa a b hab)) hls hs

end Orders

section Lexicographic

variable {α : Type} [LinearOrder α]

theorem lt_append_left_iff (p : List α) {x y : List α} : p ++ x < p ++ y ↔ x < y := by
  induction p with
  | nil => rfl
  | cons a p ih => simp [ih]

theorem lt_separated_iff {c : α} {x y : List α} (hx : c ∉ x) (hy : c ∉ y) (hne : x ≠ y)
    (t u : List α) : x ++ c :: t < y ++ c :: u ↔ x ++ [c] < y ++ [c] := by
  induction x generalizing y with
  | nil =>
    cases y with
    | nil => exact absurd rfl hne
    | cons b y =>
      have hcb : c ≠ b := fun h => hy (h ▸ List.mem_cons_self)
      simp [List.cons_lt_cons_iff, hcb]
  | cons a x ih =>
    cases y with
    | nil =>
      have hca : a ≠ c := fun h => hx (h ▸ List.mem_cons_self)
      simp [List.cons_lt_cons_iff, hca]
    | cons b y =>
      simp only [List.cons_append, List.cons_lt_cons_iff]
      refine or_congr_right (and_congr_right fun hab => ?_)
      refine ih (fun h => hx (List.mem_cons_of_mem a h)) (fun h => hy (List.mem_cons_of_mem b h)) ?_
      exact fun h => hne (by rw [hab, h])

end Lexicographic

section Stable

variable {α β : Type} {key : α → Nat}

theorem mem_of_filter {l l' : List α}
    (hf : ∀ k, l.filter (fun a => decide (key a = k)) = l'.filter fun a => decide (key a = k))
    (a : α) : a ∈ l ↔ a ∈ l' := by
  have := congrArg (a ∈ ·) (hf (key a))
  simpa using this

theorem eq_of_filter {l l' : List α} (h : l.Pairwise fun a b => key b ≤ key a)
    (h' : l'.Pairwise fun a b => key b ≤ key a)
    (hf : ∀ k, l.filter (fun a => decide (key a = k)) = l'.filter fun a => decide (key a = k)) :
    l = l' := by
  induction l generalizing l' with
  | nil =>
    cases l' with
    | nil => rfl
    | cons y l' => exact absurd ((mem_of_filter hf y).mpr List.mem_cons_self) List.not_mem_nil
  | cons x l ih =>
    cases l' with
    | nil => exact absurd ((mem_of_filter hf x).mp List.mem_cons_self) List.not_mem_nil
    | cons y l' =>
      have hyx : key y ≤ key x := by
        rcases List.mem_cons.mp ((mem_of_filter hf y).mpr List.mem_cons_self) with hy | hy
        · exact Nat.le_of_eq (congrArg key hy)
        · exact List.rel_of_pairwise_cons h hy
      have hxy : key x ≤ key y := by
        rcases List.mem_cons.mp ((mem_of_filter hf x).mp List.mem_cons_self) with hx | hx
        · exact Nat.le_of_eq (congrArg key hx)
        · exact List.rel_of_pairwise_cons h' hx
      have hkey : key y = key x := by omega
      have hhead := hf (key x)
      rw [List.filter_cons_of_pos (by simp), List.filter_cons_of_pos (by simp [hkey]),
        List.cons.injEq] at hhead
      obtain ⟨rfl, -⟩ := hhead
      rw [ih h.of_cons h'.of_cons]
      intro k
      have := hf k
      rw [List.filter_cons, List.filter_cons] at this
      split at this
      · exact (List.cons.inj this).2
      · exact this

theorem key_trans (a b c : α) (hab : decide (key b ≤ key a) = true)
    (hbc : decide (key c ≤ key b) = true) : decide (key c ≤ key a) = true := by
  rw [decide_eq_true_eq] at hab hbc ⊢
  omega

theorem key_total (a b : α) : (decide (key b ≤ key a) || decide (key a ≤ key b)) = true := by
  rw [Bool.or_eq_true, decide_eq_true_eq, decide_eq_true_eq]
  omega

theorem pairwise_mergeSort_key (l : List α) :
    (l.mergeSort fun a b => decide (key b ≤ key a)).Pairwise fun a b => key b ≤ key a :=
  (List.pairwise_mergeSort key_trans key_total l).imp fun hab => of_decide_eq_true hab

theorem filter_mergeSort (l : List α) (k : Nat) :
    (l.mergeSort fun a b => decide (key b ≤ key a)).filter (fun a => decide (key a = k)) =
      l.filter fun a => decide (key a = k) := by
  have hsorted : (l.filter fun a => decide (key a = k)).Pairwise
      fun a b => decide (key b ≤ key a) = true := by
    refine List.pairwise_of_forall_mem_list fun a ha b hb => ?_
    have ha := of_decide_eq_true (List.mem_filter.mp ha).2
    have hb := of_decide_eq_true (List.mem_filter.mp hb).2
    rw [ha, hb]
    exact decide_eq_true (Nat.le_refl k)
  have hsub := List.sublist_mergeSort key_trans key_total hsorted List.filter_sublist
  have hfilter := hsub.filter fun a => decide (key a = k)
  rw [List.filter_filter, funext fun a => Bool.and_self (decide (key a = k))] at hfilter
  exact (hfilter.eq_of_length ((List.mergeSort_perm l _).filter _).length_eq.symm).symm

theorem mergeSort_eq {l l' : List α} (h' : l'.Pairwise fun a b => key b ≤ key a)
    (hf : ∀ k, l'.filter (fun a => decide (key a = k)) = l.filter fun a => decide (key a = k)) :
    (l.mergeSort fun a b => decide (key b ≤ key a)) = l' :=
  eq_of_filter (pairwise_mergeSort_key l) h' fun k => (filter_mergeSort l k).trans (hf k).symm

theorem mergeSort_filter (p : α → Bool) (l : List α) :
    ((l.filter p).mergeSort fun a b => decide (key b ≤ key a)) =
      (l.mergeSort fun a b => decide (key b ≤ key a)).filter p := by
  refine mergeSort_eq ((pairwise_mergeSort_key l).filter p) fun k => ?_
  have hcomm (xs : List α) : (xs.filter p).filter (fun a => decide (key a = k)) =
      (xs.filter fun a => decide (key a = k)).filter p := by
    rw [List.filter_filter, List.filter_filter]
    exact congrArg (xs.filter ·) (funext fun a => Bool.and_comm _ _)
  rw [hcomm, filter_mergeSort, hcomm]

theorem filter_flatMap_key {f : α → List β} {key' : β → Nat} {l : List α}
    (h : ∀ a ∈ l, ∀ b ∈ f a, key' b = key a) (k : Nat) :
    (l.flatMap f).filter (fun b => decide (key' b = k)) =
      (l.filter fun a => decide (key a = k)).flatMap f := by
  induction l with
  | nil => rfl
  | cons a l ih =>
    have hrest := ih fun a' ha' => h a' (List.mem_cons_of_mem a ha')
    have ha := h a List.mem_cons_self
    rw [List.flatMap_cons, List.filter_append, hrest, List.filter_cons]
    split
    · rename_i hk
      have hall : (f a).filter (fun b => decide (key' b = k)) = f a := by
        refine List.filter_eq_self.mpr fun b hb => ?_
        rw [ha b hb]
        exact hk
      rw [hall, List.flatMap_cons]
    · rename_i hk
      have hnone : (f a).filter (fun b => decide (key' b = k)) = [] := by
        refine List.filter_eq_nil_iff.mpr fun b hb => ?_
        rw [ha b hb]
        exact hk
      rw [hnone, List.nil_append]

theorem mergeSort_flatMap {f : α → List β} {key' : β → Nat} {l : List α}
    (h : ∀ a ∈ l, ∀ b ∈ f a, key' b = key a) :
    ((l.flatMap f).mergeSort fun a b => decide (key' b ≤ key' a)) =
      (l.mergeSort fun a b => decide (key b ≤ key a)).flatMap f := by
  have hsorted : ∀ a ∈ l.mergeSort (fun a b => decide (key b ≤ key a)), ∀ b ∈ f a,
      key' b = key a := fun a ha => h a (List.mem_mergeSort.mp ha)
  refine mergeSort_eq ?_ fun k => ?_
  · rw [List.pairwise_flatMap]
    constructor
    · intro a ha
      refine List.pairwise_of_forall_mem_list fun b hb c hc => ?_
      exact Nat.le_of_eq ((hsorted a ha c hc).trans (hsorted a ha b hb).symm)
    · refine (pairwise_mergeSort_key l).imp_of_mem fun {a a'} ha ha' hle b hb c hc => ?_
      rw [hsorted a ha b hb, hsorted a' ha' c hc]
      exact hle
  · rw [filter_flatMap_key hsorted, filter_mergeSort, filter_flatMap_key h]

end Stable

end Seiran.Sorting
