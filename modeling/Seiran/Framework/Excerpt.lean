import Mathlib.Data.List.Chain
import Mathlib.Data.List.Infix
import Mathlib.Order.Defs.LinearOrder
import Mathlib.Order.Lattice

/-!
# Excerpts of a list that grows

A list in falling order grows at its head. A reader has some of it, with a mark before each
element that does not follow the one before it.

* `Excerpt`: what the reader has is in order, and nothing is left out without a mark;
* `mem_of_between`: a part of the list has all that is between two of its elements;
* `Excerpt.cons`, `Excerpt.append`: more at the head of what the reader has;
* `Unbroken`, `Excerpt.extend`: more at its end, read on from an element after which nothing is
  left out.
-/

namespace Seiran

section Unbroken

variable {α : Type} {L l : List α} {u : α}

/-- From an element on, nothing is left out. -/
def Unbroken (L l : List α) (u : α) : Prop :=
  ∃ pre post, l = pre ++ u :: post ∧ (u :: post) <:+: L

theorem Unbroken.mem (h : Unbroken L l u) : u ∈ L ∧ u ∈ l := by
  obtain ⟨pre, post, rfl, hpost⟩ := h
  exact ⟨hpost.subset List.mem_cons_self, by simp⟩

theorem Unbroken.mono (h : Unbroken L l u) {L' : List α} (hL : L <:+ L') : Unbroken L' l u := by
  obtain ⟨pre, post, hl, hpost⟩ := h
  exact ⟨pre, post, hl, hpost.trans hL.isInfix⟩

theorem Unbroken.append_left (h : Unbroken L l u) (l' : List α) : Unbroken L (l' ++ l) u := by
  obtain ⟨pre, post, rfl, hpost⟩ := h
  exact ⟨l' ++ pre, post, by rw [List.append_assoc], hpost⟩

theorem unbroken_getLast? (hL : ∀ a ∈ l, a ∈ L) (hu : u ∈ l.getLast?) : Unbroken L l u := by
  obtain ⟨pre, rfl⟩ := List.getLast?_eq_some_iff.mp hu
  obtain ⟨s, t, rfl⟩ := List.append_of_mem (hL u (by simp))
  exact ⟨pre, [], rfl, s, t, by simp⟩

end Unbroken

variable {α : Type} [LinearOrder α]

structure Excerpt (L marks l : List α) : Prop where
  mem : ∀ {a}, a ∈ l → a ∈ L
  falling : l.Pairwise (· > ·)
  chain : l.IsChain fun a b => b ∈ marks ∨ [a, b] <:+: L

variable {L marks l l' : List α} {a b u : α}

/-- What a part of the list has in it is all that is between. -/
theorem mem_of_between (hL : L.Pairwise (· > ·)) (hl : l <:+: L) (hu : u ∈ L) (ha : a ∈ l)
    (hb : b ∈ l) (hbu : b ≤ u) (hua : u ≤ a) : u ∈ l := by
  obtain ⟨s, t, rfl⟩ := hl
  obtain ⟨hst, -, hlt⟩ := List.pairwise_append.mp hL
  obtain ⟨-, -, hsl⟩ := List.pairwise_append.mp hst
  rcases List.mem_append.mp hu with hu | hu
  · rcases List.mem_append.mp hu with hu | hu
    · exact absurd (hsl u hu a ha) (not_lt.mpr hua)
    · exact hu
  · exact absurd (hlt b (List.mem_append_right _ hb) u hu) (not_lt.mpr hbu)

/-- What is at the head of the list has all that is before one of its elements. -/
theorem mem_of_prefix (hL : L.Pairwise (· > ·)) (hl : l <+: L) (ha : a ∈ L) (hb : b ∈ l)
    (hba : b ≤ a) : a ∈ l := by
  obtain ⟨t, rfl⟩ := hl
  rcases List.mem_append.mp ha with ha | ha
  · exact ha
  · exact absurd ((List.pairwise_append.mp hL).2.2 b hb a ha) (not_lt.mpr hba)

/-- The elements after one of them -/
theorem filter_lt_eq {pre post : List α} (hL : (pre ++ u :: post).Pairwise (· > ·)) :
    (pre ++ u :: post).filter (fun x => decide (x < u)) = post := by
  obtain ⟨-, hu, hpre⟩ := List.pairwise_append.mp hL
  rw [List.filter_append, List.filter_cons_of_neg (by simp), List.filter_eq_nil_iff.mpr,
    List.nil_append, List.filter_eq_self.mpr]
  · intro x hx
    exact decide_eq_true ((List.pairwise_cons.mp hu).1 x hx)
  · intro x hx
    simpa using le_of_lt (hpre x hx u List.mem_cons_self)

/-- A page after an element -/
theorem page_infix (hL : L.Pairwise (· > ·)) (hu : u ∈ L) (n : Nat) :
    (u :: (L.filter fun x => decide (x < u)).take n) <:+: L := by
  obtain ⟨pre, post, rfl⟩ := List.append_of_mem hu
  rw [filter_lt_eq hL]
  refine ⟨pre, post.drop n, ?_⟩
  rw [List.append_assoc, List.cons_append, List.take_append_drop]

/-- Of two parts that start alike one is the beginning of the other. -/
theorem prefix_or_prefix_of_infix (hL : L.Pairwise (· > ·)) (h : (u :: l) <:+: L)
    (h' : (u :: l') <:+: L) : l <+: l' ∨ l' <+: l := by
  obtain ⟨s, t, rfl⟩ := h
  obtain ⟨s', t', heq⟩ := h'
  simp only [List.append_assoc, List.cons_append] at heq hL
  have hrest : l' ++ t' = l ++ t := by
    rw [← filter_lt_eq hL, ← heq, filter_lt_eq (heq ▸ hL)]
  exact List.prefix_or_prefix_of_prefix ⟨t, rfl⟩ ⟨t', hrest⟩

/-- What goes on from one element goes on from another. -/
theorem infix_of_overlap (hL : L.Pairwise (· > ·)) {pre post r : List α}
    (h : (pre ++ u :: post) <:+: L) (h' : (u :: (post ++ r)) <:+: L) :
    (pre ++ u :: (post ++ r)) <:+: L := by
  obtain ⟨s, t, rfl⟩ := h
  obtain ⟨s', t', heq⟩ := h'
  have hleft : s ++ (pre ++ u :: post) ++ t = (s ++ pre) ++ u :: (post ++ t) := by simp
  have hright : s' ++ u :: (post ++ r) ++ t' = s' ++ u :: (post ++ (r ++ t')) := by simp
  rw [hleft] at heq hL
  rw [hright] at heq
  have hrest : post ++ (r ++ t') = post ++ t := by
    rw [← filter_lt_eq hL, ← heq, filter_lt_eq (heq ▸ hL)]
  rw [← List.append_cancel_left hrest]
  exact ⟨s, t', by simp⟩

theorem Unbroken.extend (hL : L.Pairwise (· > ·)) {pre post r : List α} {v : α}
    (hv : Unbroken L (pre ++ u :: post) v) (h : (u :: (post ++ r)) <:+: L) :
    Unbroken L (pre ++ u :: (post ++ r)) v := by
  obtain ⟨pre', post', heq, hpost'⟩ := hv
  rcases List.append_eq_append_iff.mp heq with ⟨c, rfl, hc⟩ | ⟨c, rfl, hc⟩
  · have hr : u :: (post ++ r) = c ++ v :: (post' ++ r) := by
      rw [← List.cons_append, hc, List.append_assoc, List.cons_append]
    refine ⟨pre ++ c, post' ++ r, by rw [hr, List.append_assoc], List.IsInfix.trans ?_ h⟩
    exact ⟨c, [], by rw [hr, List.append_nil]⟩
  · have hall := infix_of_overlap hL (hc ▸ hpost') h
    -- the two elements are one, or `v` comes first
    cases c with
    | nil =>
      cases hc
      exact ⟨pre', post ++ r, by simp, hall⟩
    | cons w c =>
      cases hc
      exact ⟨pre', c ++ u :: (post ++ r), by simp, hall⟩

/-- What is new in a page, read for the first time or again -/
theorem infix_append_filter (hL : L.Pairwise (· > ·)) {pre : List α}
    (hl : (pre ++ u :: l).Pairwise (· > ·)) (h : (u :: l) <:+: L) (h' : (u :: l') <:+: L) :
    (u :: (l ++ l'.filter fun x => decide (x ∉ pre ++ u :: l))) <:+: L := by
  obtain ⟨-, hul, hpre⟩ := List.pairwise_append.mp hl
  have hlt' := (List.pairwise_cons.mp (hL.sublist h'.sublist)).1
  -- what is before the page is greater than what is on it
  have hmem : ∀ x ∈ l', (x ∈ pre ++ u :: l ↔ x ∈ l) := by
    intro x hx
    refine ⟨fun hmem => ?_, fun hmem => List.mem_append_right _ (List.mem_cons_of_mem _ hmem)⟩
    rcases List.mem_append.mp hmem with hmem | hmem
    · exact absurd (hlt' x hx) (not_lt.mpr (le_of_lt (hpre x hmem u List.mem_cons_self)))
    · rcases List.mem_cons.mp hmem with rfl | hmem
      · exact absurd (hlt' x hx) (lt_irrefl _)
      · exact hmem
  have hfilter : (l'.filter fun x => decide (x ∉ pre ++ u :: l)) =
      l'.filter fun x => decide (x ∉ l) :=
    List.filter_congr fun x hx => by rw [decide_eq_decide, hmem x hx]
  rw [hfilter]
  rcases prefix_or_prefix_of_infix hL h h' with ⟨r, rfl⟩ | ⟨r, rfl⟩
  · have hnodup := (List.pairwise_cons.mp (hL.sublist h'.sublist)).2
    obtain ⟨-, -, hlr⟩ := List.pairwise_append.mp hnodup
    rw [List.filter_append, List.filter_eq_nil_iff.mpr (by simp), List.nil_append,
      List.filter_eq_self.mpr]
    · exact h'
    · exact fun x hx => decide_eq_true fun hxl => absurd (hlr x hxl x hx) (lt_irrefl x)
  · rw [List.filter_eq_nil_iff.mpr, List.append_nil]
    · exact h
    · intro x hx
      simp [hx]

/-- The first one is the greatest. -/
theorem le_of_head? (hl : l.Pairwise (· > ·)) (ha : a ∈ l.head?) (hb : b ∈ l) : b ≤ a := by
  cases l with
  | nil => cases hb
  | cons c l =>
    cases ha
    rcases List.mem_cons.mp hb with rfl | hb
    · exact le_rfl
    · exact le_of_lt ((List.pairwise_cons.mp hl).1 b hb)

/-- What is greater than the first one is greater than all. -/
theorem gt_of_head? (hl : l.Pairwise (· > ·)) (ha : ∀ b ∈ l.head?, a > b) (hb : b ∈ l) : a > b := by
  obtain ⟨c, hc⟩ := Option.isSome_iff_exists.mp (List.isSome_head?.mpr (List.ne_nil_of_mem hb))
  exact lt_of_le_of_lt (le_of_head? hl hc hb) (ha c hc)

namespace Excerpt

theorem nil : Excerpt L marks [] := ⟨by simp, List.Pairwise.nil, List.IsChain.nil⟩

theorem of_infix (hL : L.Pairwise (· > ·)) (hl : l <:+: L) : Excerpt L marks l where
  mem := fun ha => hl.subset ha
  falling := hL.sublist hl.sublist
  chain := (List.isChain_isInfix l).imp fun _ _ h => .inr (h.trans hl)

/-- The list grows. -/
theorem grow (h : Excerpt L marks l) {L' : List α} (hL : L <:+ L') : Excerpt L' marks l where
  mem := fun ha => hL.subset (h.mem ha)
  falling := h.falling
  chain := h.chain.imp fun _ _ hab => hab.imp_right fun hab => hab.trans hL.isInfix

/-- The element that comes before the first one -/
theorem cons (h : Excerpt L marks l) (hL : L.Pairwise (· > ·)) (ha : a ∈ L)
    (hhead : ∀ b ∈ l.head?, [a, b] <:+: L) : Excerpt L marks (a :: l) := by
  have hgt : ∀ b ∈ l.head?, a > b := fun b hb =>
    (List.pairwise_cons.mp (hL.sublist (hhead b hb).sublist)).1 b (List.mem_singleton_self b)
  refine ⟨fun hx => ?_, List.pairwise_cons.mpr ⟨fun x hx => ?_, h.falling⟩,
    List.isChain_cons.mpr ⟨fun b hb => .inr (hhead b hb), h.chain⟩⟩
  · rcases List.mem_cons.mp hx with rfl | hx
    · exact ha
    · exact h.mem hx
  · exact gt_of_head? h.falling hgt hx

/-- A part of the list comes before, which ends where this begins or has a mark in between. -/
theorem append (h : Excerpt L marks l) (hL : L.Pairwise (· > ·)) (hl' : l' <:+: L)
    (hgt : ∀ x ∈ l', ∀ b ∈ l.head?, x > b)
    (hnext : ∀ b ∈ l.head?, b ∈ marks ∨ (l' ++ [b]) <:+: L) : Excerpt L marks (l' ++ l) := by
  have hpart : Excerpt L marks l' := of_infix hL hl'
  refine ⟨fun hx => (List.mem_append.mp hx).elim hpart.mem h.mem,
    List.pairwise_append.mpr ⟨hpart.falling, h.falling, fun x hx y hy => ?_⟩, ?_⟩
  · exact gt_of_head? h.falling (hgt x hx) hy
  · refine List.isChain_append.mpr ⟨hpart.chain, h.chain, fun x hx b hb => ?_⟩
    refine (hnext b hb).imp_right fun hinfix => List.IsInfix.trans ?_ hinfix
    obtain ⟨r, rfl⟩ := List.getLast?_eq_some_iff.mp hx
    exact ⟨r, [], by simp⟩

/-- More marks -/
theorem mono {marks' : List α} (h : Excerpt L marks l) (hm : ∀ a ∈ marks, a ∈ marks') :
    Excerpt L marks' l where
  mem := h.mem
  falling := h.falling
  chain := h.chain.imp fun _ b hab => hab.imp_left (hm b)

/-- A page is read on from an element after which nothing is left out, and what is new in it
goes to the end. -/
theorem extend (h : Excerpt L marks l) (hL : L.Pairwise (· > ·)) (hu : Unbroken L l u)
    (hpage : (u :: l') <:+: L) :
    Excerpt L marks (l ++ l'.filter fun x => decide (x ∉ l)) ∧
      ∀ v, Unbroken L l v → Unbroken L (l ++ l'.filter fun x => decide (x ∉ l)) v := by
  obtain ⟨pre, post, rfl, hpost⟩ := hu
  have hnew := infix_append_filter hL h.falling hpost hpage
  have hpart : Excerpt L marks (u :: (post ++ l'.filter fun x => decide (x ∉ pre ++ u :: post))) :=
    of_infix hL hnew
  obtain ⟨hpre, -, hgt⟩ := List.pairwise_append.mp h.falling
  rw [List.append_assoc, List.cons_append]
  refine ⟨⟨fun hx => ?_, List.pairwise_append.mpr ⟨hpre, hpart.falling, fun x hx y hy => ?_⟩,
    List.isChain_split.mpr ⟨(List.isChain_split.mp h.chain).1, hpart.chain⟩⟩,
    fun v hv => hv.extend hL hnew⟩
  · exact (List.mem_append.mp hx).elim (fun hx => h.mem (List.mem_append_left _ hx)) hpart.mem
  · have hxu : x > u := hgt x hx u List.mem_cons_self
    rcases List.mem_cons.mp hy with rfl | hy
    · exact hxu
    · exact lt_trans ((List.pairwise_cons.mp hpart.falling).1 y hy) hxu

end Excerpt

end Seiran
