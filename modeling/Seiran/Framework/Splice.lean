import Mathlib.Algebra.GroupWithZero.Nat
import Mathlib.Data.List.Basic

/-!
# Replacing ranges of a text from the back

A text is a list whose elements take up space (`w`), as characters do in UTF-8.
A range is given by its two offsets, and counts only where both lie between two
elements (`cut`). `replace` goes through a list of edits, each over the range of
an earlier text, and skips what is not a range or reaches over the last edit it
made.

* `render`: what a text becomes when ranges that lie apart are replaced at once.
* `foldl_step_render`: edits in descending order give that, and leave alone what
  follows them.
* `foldl_step_kept`: any edits at all give that of those that are made (`kept`).
* `foldl_step_suffix`: what lies after all the edits stays as it is.
-/

namespace Seiran.Splice

variable {α : Type} (w : α → Nat)

def size (xs : List α) : Nat := (xs.map w).sum

/-- The parts before and after an offset that lies between two elements. -/
def split : List α → Nat → Option (List α × List α)
  | [], n => if n = 0 then some ([], []) else none
  | x :: xs, n =>
    if n = 0 then some ([], x :: xs)
    else if w x ≤ n then (split xs (n - w x)).map fun p => (x :: p.1, p.2)
    else none

/-- The parts before, in and after a range. -/
def cut (xs : List α) (start stop : Nat) : Option (List α × List α × List α) :=
  (split w xs start).bind fun p =>
    (split w p.2 (stop - start)).map fun q => (p.1, q.1, q.2)

structure Edit (α : Type) where
  start : Nat
  stop : Nat
  /-- What the range is replaced by, if it is. -/
  value : Option (List α → List α)

def Edit.apply (e : Edit α) (xs : List α) : List α := (e.value.map fun f => f xs).getD xs

/-- One edit of the text, where nothing is replaced from the offset on. -/
def step (state : List α × Nat) (e : Edit α) : List α × Nat :=
  if e.stop ≤ e.start ∨ state.2 < e.stop then state
  else
    match cut w state.1 e.start e.stop, e.value with
    | some (before, covered, after), some f => (before ++ f covered ++ after, e.start)
    | _, _ => state

/-- The edits of a text made at once, the last of them first in the list. -/
def render : List (Edit α) → List α → List α
  | [], xs => xs
  | e :: es, xs =>
    match cut w xs e.start e.stop with
    | some (before, covered, after) => render es before ++ e.apply covered ++ after
    | none => render es xs

/-! ## Ranges -/

section Ranges

variable {w}

theorem size_nil : size w [] = 0 := rfl

theorem size_cons (x : α) (xs : List α) : size w (x :: xs) = w x + size w xs := rfl

theorem size_append (xs ys : List α) : size w (xs ++ ys) = size w xs + size w ys := by
  rw [size, List.map_append, List.sum_append]
  rfl

variable (hw : ∀ x, 0 < w x)

include hw

theorem size_pos {xs : List α} (h : xs ≠ []) : 0 < size w xs := by
  cases xs with
  | nil => exact absurd rfl h
  | cons x xs =>
    have := hw x
    rw [size_cons]
    omega

theorem split_append (a b : List α) : split w (a ++ b) (size w a) = some (a, b) := by
  induction a with
  | nil =>
    cases b with
    | nil => rfl
    | cons x b => rfl
  | cons x a ih =>
    have := hw x
    have hne : size w (x :: a) ≠ 0 := by
      rw [size_cons]
      omega
    have hle : w x ≤ size w (x :: a) := by
      rw [size_cons]
      omega
    have hsub : size w (x :: a) - w x = size w a := by
      rw [size_cons]
      omega
    rw [List.cons_append, split, if_neg hne, if_pos hle, hsub, ih]
    rfl

omit hw in
theorem eq_of_split {xs a b : List α} {n : Nat} (h : split w xs n = some (a, b)) :
    xs = a ++ b ∧ size w a = n := by
  induction xs generalizing n a with
  | nil =>
    rw [split, Option.ite_none_right_eq_some, Option.some.injEq, Prod.mk.injEq] at h
    obtain ⟨hn, rfl, rfl⟩ := h
    exact ⟨rfl, hn.symm⟩
  | cons x xs ih =>
    rw [split] at h
    split at h
    · rename_i hn
      rw [Option.some.injEq, Prod.mk.injEq] at h
      obtain ⟨rfl, rfl⟩ := h
      exact ⟨rfl, hn.symm⟩
    · rw [Option.ite_none_right_eq_some, Option.map_eq_some_iff] at h
      obtain ⟨hle, ⟨a', b'⟩, hsplit, hab⟩ := h
      rw [Prod.mk.injEq] at hab
      obtain ⟨rfl, rfl⟩ := hab
      obtain ⟨rfl, hsize⟩ := ih hsplit
      refine ⟨rfl, ?_⟩
      rw [size_cons, show size w a' = n - w x from hsize]
      omega

theorem cut_append (a m b : List α) :
    cut w (a ++ m ++ b) (size w a) (size w (a ++ m)) = some (a, m, b) := by
  have hsub : size w (a ++ m) - size w a = size w m := by
    rw [size_append]
    omega
  rw [cut, List.append_assoc, split_append hw, Option.bind_some, hsub, split_append hw]
  rfl

omit hw in
theorem eq_of_cut {xs a m b : List α} {start stop : Nat} (hle : start ≤ stop)
    (h : cut w xs start stop = some (a, m, b)) :
    xs = a ++ m ++ b ∧ size w a = start ∧ size w (a ++ m) = stop := by
  rw [cut, Option.bind_eq_some_iff] at h
  obtain ⟨⟨a', rest⟩, hsplit, h⟩ := h
  rw [Option.map_eq_some_iff] at h
  obtain ⟨⟨m', b'⟩, hsplit', heq⟩ := h
  rw [Prod.mk.injEq, Prod.mk.injEq] at heq
  obtain ⟨rfl, rfl, rfl⟩ := heq
  obtain ⟨rfl, ha⟩ := eq_of_split hsplit
  obtain ⟨hrest, hm⟩ := eq_of_split hsplit'
  refine ⟨?_, ha, ?_⟩
  · rw [show rest = m' ++ b' from hrest, List.append_assoc]
  · rw [size_append, show size w a' = start from ha, show size w m' = stop - start from hm]
    omega

theorem cut_eq_some {xs a m b : List α} {start stop : Nat} (hle : start ≤ stop) :
    cut w xs start stop = some (a, m, b) ↔
      xs = a ++ m ++ b ∧ size w a = start ∧ size w (a ++ m) = stop := by
  constructor
  · exact eq_of_cut hle
  · intro h
    obtain ⟨rfl, rfl, rfl⟩ := h
    exact cut_append hw a m b

omit hw in
theorem le_size_of_split {xs : List α} {n : Nat} (h : (split w xs n).isSome) : n ≤ size w xs := by
  obtain ⟨⟨a, b⟩, hsplit⟩ := Option.isSome_iff_exists.mp h
  obtain ⟨rfl, rfl⟩ := eq_of_split hsplit
  rw [size_append]
  omega

/-- A range is given by two offsets between elements. -/
theorem isSome_cut {xs : List α} {start stop : Nat} (hle : start ≤ stop) :
    (cut w xs start stop).isSome ↔ (split w xs start).isSome ∧ (split w xs stop).isSome := by
  constructor
  · intro h
    obtain ⟨⟨a, m, b⟩, hcut⟩ := Option.isSome_iff_exists.mp h
    obtain ⟨rfl, rfl, rfl⟩ := eq_of_cut hle hcut
    refine ⟨?_, by rw [split_append hw]; rfl⟩
    rw [List.append_assoc, split_append hw]
    rfl
  · intro h
    obtain ⟨⟨⟨a, rest⟩, ha⟩, ⟨⟨a', b⟩, ha'⟩⟩ :=
      And.intro (Option.isSome_iff_exists.mp h.1) (Option.isSome_iff_exists.mp h.2)
    obtain ⟨rfl, rfl⟩ := eq_of_split ha
    obtain ⟨heq, rfl⟩ := eq_of_split ha'
    rcases List.append_eq_append_iff.mp heq with ⟨m, rfl, rfl⟩ | ⟨m, rfl, rfl⟩
    · rw [← List.append_assoc, cut_append hw]
      rfl
    · -- the two offsets are one
      have hm : m = [] := by
        by_contra hne
        have := size_pos hw hne
        rw [size_append] at hle
        omega
      rw [hm, List.append_nil]
      have := cut_append hw a' [] rest
      rw [List.append_nil] at this
      rw [this]
      rfl

/-- A range that ends within the first part is one of the first part. -/
theorem cut_of_append {pre post a m b : List α} {start stop : Nat} (hle : start ≤ stop)
    (hstop : stop ≤ size w pre) (h : cut w (pre ++ post) start stop = some (a, m, b)) :
    ∃ b', pre = a ++ m ++ b' ∧ b = b' ++ post := by
  obtain ⟨heq, -, hsize⟩ := eq_of_cut hle h
  rcases List.append_eq_append_iff.mp heq with ⟨c, hc, hpost⟩ | ⟨c, hc, hpost⟩
  · -- the range reaches to the end of the first part
    have hnil : c = [] := by
      by_contra hne
      have := size_pos hw hne
      rw [hc, size_append] at hsize
      omega
    rw [hnil, List.append_nil] at hc
    rw [hnil, List.nil_append] at hpost
    exact ⟨[], by rw [hc, List.append_nil], hpost.symm⟩
  · exact ⟨c, hc, hpost⟩

theorem cut_append_right {pre post a m b : List α} {start stop : Nat} (hle : start ≤ stop)
    (h : cut w pre start stop = some (a, m, b)) :
    cut w (pre ++ post) start stop = some (a, m, b ++ post) := by
  obtain ⟨rfl, ha, hm⟩ := eq_of_cut hle h
  rw [cut_eq_some hw hle]
  exact ⟨List.append_assoc _ _ _, ha, hm⟩

end Ranges

/-! ## Edits -/

/-- The edit is over a range of the text, and not over nothing. -/
structure Edit.In (xs : List α) (e : Edit α) : Prop where
  lt : e.start < e.stop
  isSome_cut : (cut w xs e.start e.stop).isSome

theorem Edit.In.le {xs : List α} {e : Edit α} (h : e.In w xs) : e.start ≤ e.stop :=
  Nat.le_of_lt h.lt

def Descending (es : List (Edit α)) : Prop := es.Pairwise fun e e' => e'.stop ≤ e.start

section Edits

variable {w}

theorem step_of_cut {xs a m b : List α} {upper : Nat} {e : Edit α} (hlt : e.start < e.stop)
    (hupper : e.stop ≤ upper) (hcut : cut w xs e.start e.stop = some (a, m, b)) :
    step w (xs, upper) e =
      (a ++ e.apply m ++ b, if e.value.isSome then e.start else upper) := by
  obtain ⟨rfl, -, -⟩ := eq_of_cut (Nat.le_of_lt hlt) hcut
  rw [step, if_neg (by omega), hcut, Edit.apply]
  cases e.value with
  | none => rfl
  | some f => rfl

theorem render_of_cut {xs a m b : List α} {e : Edit α} {es : List (Edit α)}
    (hcut : cut w xs e.start e.stop = some (a, m, b)) :
    render w (e :: es) xs = render w es a ++ e.apply m ++ b := by
  rw [render, hcut]

theorem step_of_none {state : List α × Nat} {e : Edit α} (h : e.value = none) :
    step w state e = state := by
  rw [step]
  split
  · rfl
  · rw [h]
    cases cut w state.1 e.start e.stop <;> rfl

theorem step_of_skip {state : List α × Nat} {e : Edit α}
    (h : e.stop ≤ e.start ∨ state.2 < e.stop) : step w state e = state := if_pos h

theorem step_of_range {state : List α × Nat} {e : Edit α}
    (h : ¬ (e.stop ≤ e.start ∨ state.2 < e.stop)) :
    step w state e =
      match cut w state.1 e.start e.stop, e.value with
      | some (before, covered, after), some f => (before ++ f covered ++ after, e.start)
      | _, _ => state := if_neg h

theorem step_of_cut_none {state : List α × Nat} {e : Edit α}
    (hcut : cut w state.1 e.start e.stop = none) : step w state e = state := by
  rw [step, hcut]
  exact ite_self state

/-- A range that has been replaced is not replaced again. -/
theorem step_step (state : List α × Nat) (start stop : Nat) (f : List α → List α)
    (value : Option (List α → List α)) :
    step w (step w state ⟨start, stop, some f⟩) ⟨start, stop, value⟩ =
      step w state ⟨start, stop, some f⟩ := by
  by_cases hrange : stop ≤ start ∨ state.2 < stop
  · rw [@step_of_skip _ _ state ⟨start, stop, some f⟩ hrange]
    exact step_of_skip hrange
  · cases hcut : cut w state.1 start stop with
    | none =>
      rw [@step_of_cut_none _ _ state ⟨start, stop, some f⟩ hcut]
      exact step_of_cut_none hcut
    | some p =>
      have hupper : (step w state ⟨start, stop, some f⟩).2 = start := by
        rw [step, if_neg hrange, hcut]
      apply step_of_skip
      show stop ≤ start ∨ (step w state ⟨start, stop, some f⟩).2 < stop
      omega

variable (hw : ∀ x, 0 < w x)

include hw

theorem Edit.In.of_append {pre post : List α} {e : Edit α} (h : e.In w (pre ++ post))
    (hstop : e.stop ≤ size w pre) : e.In w pre := by
  obtain ⟨⟨a, m, b⟩, hcut⟩ := Option.isSome_iff_exists.mp h.isSome_cut
  obtain ⟨b', rfl, -⟩ := cut_of_append hw h.le hstop hcut
  obtain ⟨-, ha, hm⟩ := eq_of_cut h.le hcut
  exact ⟨h.lt, by rw [← ha, ← hm, cut_append hw]; rfl⟩

/-- The edits that lie before one of the text lie within what is before it. -/
theorem Descending.in_before {e : Edit α} {es : List (Edit α)} {xs a m b : List α}
    (hdesc : Descending (e :: es)) (hin : ∀ e' ∈ e :: es, e'.In w xs)
    (hcut : cut w xs e.start e.stop = some (a, m, b)) :
    ∀ e' ∈ es, e'.In w a ∧ e'.stop ≤ size w a := by
  intro e' he'
  obtain ⟨rfl, ha, -⟩ := eq_of_cut (hin e List.mem_cons_self).le hcut
  have hstop : e'.stop ≤ size w a := ha ▸ List.rel_of_pairwise_cons hdesc he'
  have := hin e' (List.mem_cons_of_mem e he')
  rw [List.append_assoc] at this
  exact ⟨this.of_append hw hstop, hstop⟩

theorem foldl_step_render {es : List (Edit α)} {pre post : List α} {upper : Nat}
    (hdesc : Descending es) (hin : ∀ e ∈ es, e.In w pre) (hupper : ∀ e ∈ es, e.stop ≤ upper) :
    (es.foldl (step w) (pre ++ post, upper)).1 = render w es pre ++ post := by
  induction es generalizing pre post upper with
  | nil => rfl
  | cons e es ih =>
    have he := hin e List.mem_cons_self
    obtain ⟨⟨a, m, b⟩, hcut⟩ := Option.isSome_iff_exists.mp he.isSome_cut
    have hbefore := hdesc.in_before hw hin hcut
    have ha := (eq_of_cut he.le hcut).2.1
    rw [List.foldl_cons, step_of_cut he.lt (hupper e List.mem_cons_self)
      (cut_append_right hw he.le hcut), render_of_cut hcut, List.append_assoc a,
      ih hdesc.of_cons (fun e' he' => (hbefore e' he').1), List.append_assoc, List.append_assoc]
    intro e' he'
    split
    · exact ha ▸ (hbefore e' he').2
    · exact hupper e' (List.mem_cons_of_mem e he')

/-! ## The edits that are made

Of any list of edits, `step` makes those over ranges of the text that end before the last
one that was made. -/

omit hw in
/-- The edits that `step` makes of a text of which nothing is replaced before an offset. -/
def kept (w : α → Nat) (xs : List α) : Nat → List (Edit α) → List (Edit α)
  | _, [] => []
  | upper, e :: es =>
    if e.start < e.stop ∧ e.stop ≤ upper ∧ (cut w xs e.start e.stop).isSome ∧ e.value.isSome then
      e :: kept w xs e.start es
    else kept w xs upper es

theorem isSome_cut_append {pre post : List α} {e : Edit α} (hle : e.start ≤ e.stop)
    (hstop : e.stop ≤ size w pre) :
    (cut w (pre ++ post) e.start e.stop).isSome = (cut w pre e.start e.stop).isSome := by
  rw [Bool.eq_iff_iff]
  constructor
  · intro h
    obtain ⟨⟨a, m, b⟩, hcut⟩ := Option.isSome_iff_exists.mp h
    obtain ⟨b', rfl, -⟩ := cut_of_append hw hle hstop hcut
    rw [(cut_eq_some hw hle).mpr ⟨rfl, (eq_of_cut hle hcut).2⟩]
    rfl
  · intro h
    obtain ⟨⟨a, m, b⟩, hcut⟩ := Option.isSome_iff_exists.mp h
    rw [cut_append_right hw hle hcut]
    rfl

theorem kept_append {pre post : List α} {upper : Nat} (hupper : upper ≤ size w pre)
    (es : List (Edit α)) : kept w (pre ++ post) upper es = kept w pre upper es := by
  induction es generalizing upper with
  | nil => rfl
  | cons e es ih =>
    rw [kept, kept]
    by_cases hrange : e.start < e.stop ∧ e.stop ≤ upper
    · rw [isSome_cut_append hw (Nat.le_of_lt hrange.1) (Nat.le_trans hrange.2 hupper),
        ih hupper, ih (Nat.le_trans (Nat.le_of_lt hrange.1) (Nat.le_trans hrange.2 hupper))]
    · rw [if_neg fun h => hrange ⟨h.1, h.2.1⟩, if_neg fun h => hrange ⟨h.1, h.2.1⟩, ih hupper]

theorem foldl_step_kept {es : List (Edit α)} {pre post : List α} {upper : Nat}
    (hupper : upper ≤ size w pre) :
    (es.foldl (step w) (pre ++ post, upper)).1 = render w (kept w pre upper es) pre ++ post := by
  induction es generalizing pre post upper with
  | nil => rfl
  | cons e es ih =>
    rw [List.foldl_cons, kept]
    split
    · rename_i h
      obtain ⟨hlt, hstop, hcut, hvalue⟩ := h
      obtain ⟨⟨a, m, b⟩, hcut⟩ := Option.isSome_iff_exists.mp hcut
      obtain ⟨rfl, ha, -⟩ := eq_of_cut (Nat.le_of_lt hlt) hcut
      rw [step_of_cut hlt hstop (cut_append_right hw (Nat.le_of_lt hlt) hcut), if_pos hvalue,
        render_of_cut hcut, List.append_assoc a, ih (Nat.le_of_eq ha.symm), List.append_assoc,
        List.append_assoc a, kept_append hw (Nat.le_of_eq ha.symm), List.append_assoc]
    · rename_i h
      have hskip : step w (pre ++ post, upper) e = (pre ++ post, upper) := by
        by_cases hrange : e.stop ≤ e.start ∨ upper < e.stop
        · exact step_of_skip hrange
        · rw [not_or, Nat.not_le, Nat.not_lt] at hrange
          cases hvalue : e.value with
          | none => exact step_of_none hvalue
          | some f =>
            refine step_of_cut_none (Option.not_isSome_iff_eq_none.mp fun hcut => ?_)
            rw [isSome_cut_append hw (Nat.le_of_lt hrange.1)
              (Nat.le_trans hrange.2 hupper)] at hcut
            exact h ⟨hrange.1, hrange.2, hcut, by rw [hvalue]; rfl⟩
      rw [hskip, ih hupper]

omit hw in
theorem kept_sublist (xs : List α) (upper : Nat) (es : List (Edit α)) :
    (kept w xs upper es).Sublist es := by
  induction es generalizing upper with
  | nil => exact List.Sublist.slnil
  | cons e es ih =>
    rw [kept]
    split
    · exact (ih _).cons_cons e
    · exact (ih upper).cons e

omit hw in
theorem mem_kept {xs : List α} {upper : Nat} {es : List (Edit α)} {e : Edit α}
    (h : e ∈ kept w xs upper es) : e.In w xs ∧ e.value.isSome ∧ e.stop ≤ upper := by
  induction es generalizing upper with
  | nil => cases h
  | cons e' es ih =>
    rw [kept] at h
    split at h
    · rename_i he
      obtain rfl | h := List.mem_cons.mp h
      · exact ⟨⟨he.1, he.2.2.1⟩, he.2.2.2, he.2.1⟩
      · obtain ⟨hin, hvalue, hstop⟩ := ih h
        exact ⟨hin, hvalue, by omega⟩
    · exact ih h

omit hw in
theorem descending_kept (xs : List α) (upper : Nat) (es : List (Edit α)) :
    Descending (kept w xs upper es) := by
  induction es generalizing upper with
  | nil => exact List.Pairwise.nil
  | cons e es ih =>
    rw [kept]
    split
    · exact .cons (fun e' he' => (mem_kept he').2.2) (ih _)
    · exact ih upper

omit hw in
/-- Edits that lie apart, the last of them first, are all made. -/
theorem kept_of_descending {xs : List α} {upper : Nat} {es : List (Edit α)}
    (hin : ∀ e ∈ es, e.In w xs ∧ e.value.isSome ∧ e.stop ≤ upper) (hdesc : Descending es) :
    kept w xs upper es = es := by
  induction es generalizing upper with
  | nil => rfl
  | cons e es ih =>
    obtain ⟨he, hvalue, hstop⟩ := hin e List.mem_cons_self
    rw [kept, if_pos ⟨he.lt, hstop, he.isSome_cut, hvalue⟩]
    refine congrArg (e :: ·) (ih (fun e' he' => ?_) hdesc.of_cons)
    obtain ⟨hin', hvalue', -⟩ := hin e' (List.mem_cons_of_mem e he')
    exact ⟨hin', hvalue', List.rel_of_pairwise_cons hdesc he'⟩

omit hw in
/-- Those that are over no range of the text, or replace nothing, may be left out. -/
theorem kept_filter (xs : List α) (upper : Nat) (es : List (Edit α)) {p : Edit α → Bool}
    (hp : ∀ e ∈ es, e.In w xs → e.value.isSome → p e = true) :
    kept w xs upper (es.filter p) = kept w xs upper es := by
  induction es generalizing upper with
  | nil => rfl
  | cons e es ih =>
    have ih := fun upper => ih upper fun e' he' => hp e' (List.mem_cons_of_mem e he')
    cases hpe : p e with
    | true => rw [List.filter_cons_of_pos hpe, kept, kept, ih, ih]
    | false =>
      rw [List.filter_cons_of_neg (by rw [hpe]; nofun), kept, if_neg, ih]
      rintro ⟨hlt, -, hcut, hvalue⟩
      have := hp e List.mem_cons_self ⟨hlt, hcut⟩ hvalue
      rw [hpe] at this
      cases this

/-- The edits end before the element does, or nothing is replaced from there on. -/
theorem foldl_step_suffix {es : List (Edit α)} {q suffix : List α} {y : α} {upper : Nat}
    (h : (∀ e ∈ es, e.stop < size w q + w y) ∨ upper < size w q + w y) :
    ∃ q', (es.foldl (step w) (q ++ y :: suffix, upper)).1 = q' ++ y :: suffix := by
  induction es generalizing q upper with
  | nil => exact ⟨q, rfl⟩
  | cons e es ih =>
    have htail : (∀ e' ∈ es, e'.stop < size w q + w y) ∨ upper < size w q + w y :=
      h.imp_left fun h e' he' => h e' (List.mem_cons_of_mem e he')
    rw [List.foldl_cons, step]
    split
    · exact ih htail
    · rename_i hrange
      rw [not_or, Nat.not_le, Nat.not_lt] at hrange
      have hstop : e.stop < size w q + w y := by
        rcases h with h | h
        · exact h e List.mem_cons_self
        · omega
      split
      · rename_i a m b f hcut hf
        -- the range ends between two elements, so before `y`
        obtain ⟨heq, hstart, hsize⟩ := eq_of_cut (Nat.le_of_lt hrange.1) hcut
        have hq : e.stop ≤ size w q := by
          by_contra hlt
          rw [Nat.not_le] at hlt
          rcases List.append_eq_append_iff.mp heq with ⟨c, hc, hpost⟩ | ⟨c, hc, hpost⟩
          · cases c with
            | nil =>
              rw [List.append_nil] at hc
              rw [hc] at hsize
              omega
            | cons z c =>
              rw [List.cons_append, List.cons.injEq] at hpost
              rw [hc, size_append, size_cons, ← hpost.1] at hsize
              omega
          · rw [hc, size_append] at hlt
            omega
        obtain ⟨b', rfl, hb⟩ := cut_of_append hw (Nat.le_of_lt hrange.1) hq hcut
        rw [hb]
        have hnext := @ih (a ++ f m ++ b') e.start (Or.inr ?_)
        · rw [← List.append_assoc (a ++ f m)]
          exact hnext
        · have := hw y
          rw [size_append, size_append, hstart]
          omega
      · exact ih htail

theorem size_render {es : List (Edit α)} {xs : List α}
    (hgrow : ∀ e ∈ es, ∀ m, size w m ≤ size w (e.apply m)) (hdesc : Descending es)
    (hin : ∀ e ∈ es, e.In w xs) :
    size w xs ≤ size w (render w es xs) := by
  induction es generalizing xs with
  | nil => exact Nat.le_refl _
  | cons e es ih =>
    have he := hin e List.mem_cons_self
    obtain ⟨⟨a, m, b⟩, hcut⟩ := Option.isSome_iff_exists.mp he.isSome_cut
    have hbefore := hdesc.in_before hw hin hcut
    have hrec := ih (fun e' he' => hgrow e' (List.mem_cons_of_mem e he')) hdesc.of_cons
      (fun e' he' => (hbefore e' he').1)
    have hm := hgrow e List.mem_cons_self m
    obtain ⟨rfl, -, -⟩ := eq_of_cut he.le hcut
    rw [render_of_cut hcut, size_append, size_append, size_append, size_append]
    omega

theorem size_render_lt {es : List (Edit α)} {xs : List α}
    (hgrow : ∀ e ∈ es, ∀ m, size w m ≤ size w (e.apply m)) (hdesc : Descending es)
    (hin : ∀ e ∈ es, e.In w xs) {e : Edit α} (he : e ∈ es)
    (hlt : ∀ m, size w m < size w (e.apply m)) :
    size w xs < size w (render w es xs) := by
  induction es generalizing xs with
  | nil => exact absurd he List.not_mem_nil
  | cons e' es ih =>
    have he' := hin e' List.mem_cons_self
    obtain ⟨⟨a, m, b⟩, hcut⟩ := Option.isSome_iff_exists.mp he'.isSome_cut
    have hbefore := fun d hd => (hdesc.in_before hw hin hcut d hd).1
    have hgrow' := fun d (hd : d ∈ es) => hgrow d (List.mem_cons_of_mem e' hd)
    have hm := hgrow e' List.mem_cons_self m
    obtain ⟨rfl, -, -⟩ := eq_of_cut he'.le hcut
    rw [render_of_cut hcut, size_append, size_append, size_append, size_append]
    rcases List.mem_cons.mp he with rfl | he
    · have := size_render hw hgrow' hdesc.of_cons hbefore
      have := hlt m
      omega
    · have := ih hgrow' hdesc.of_cons hbefore he
      omega

end Edits

end Seiran.Splice
