import Mathlib.Data.List.Nodup
import Mathlib.Data.List.Pairwise

/-!
# Columns that refer to other rows

A table is the list of its rows. A column of it refers to the rows of another
table, and may be part of a unique index: a row is in the index with what it
refers to and the rest of its key.

* `Reference.reparent`: one `UPDATE` that points all rows that refer to one
  row to another one; it fails as a whole on a duplicate key;
* `Reference.unique_move_iff`: it fails where one of the rows clashes with a
  row that was there;
* `Reference.cascade`: what is left when the row is deleted;
* `Reference.Kept`: each row is there, or moved, but those that clash;
* `Reference.kept_cascade_reparent_iff`, `Reference.kept_cascade_iff`: when
  that holds after an `UPDATE` and the deletion, and after the deletion alone.
-/

namespace Seiran.Sql

universe u v w

variable {ι : Type u} {R : Type v} {K : Type w}

/-- A column of a table, with the rest of the key of the unique index it is
part of; a row without one is not in the index. -/
structure Reference (ι : Type u) (R : Type v) (K : Type w) where
  get : R → Option ι
  point : ι → R → R
  rest : R → Option K
  get_point : ∀ i r, get (point i r) = some i
  rest_point : ∀ i r, rest (point i r) = rest r

namespace Reference

section Definitions

variable [DecidableEq ι] [DecidableEq K] (ref : Reference ι R K) (old new : ι)

/-- The key of a row in the index -/
def key (r : R) : Option (ι × K) := (ref.get r).bind fun i => (ref.rest r).map (Prod.mk i)

/-- No two rows have a key in common. -/
def Unique (rows : List R) : Prop := (rows.filterMap ref.key).Nodup

instance (rows : List R) : Decidable (ref.Unique rows) := inferInstanceAs (Decidable (List.Nodup _))

/-- A row that refers to `old` refers to `new`. -/
def move (r : R) : R := if ref.get r = some old then ref.point new r else r

/-- `UPDATE t SET c = new WHERE c = old` -/
def reparent (rows : List R) : Option (List R) :=
  if ref.Unique (rows.map (ref.move old new)) then some (rows.map (ref.move old new)) else none

/-- `ON DELETE CASCADE` of a row -/
def cascade (rows : List R) : List R := rows.filter fun r => ref.get r != some old

/-- The row cannot refer to `new`: a row with its key does. -/
def Clashes (rows : List R) (r : R) : Prop :=
  ∃ q ∈ rows, ref.get q = some new ∧ ref.rest q = ref.rest r ∧ ref.rest r ≠ none

/-- What referred to `old` refers to `new`, but what clashes; the other rows are there. -/
def Kept (before after : List R) : Prop :=
  ∀ r ∈ before, (ref.get r ≠ some old → r ∈ after) ∧
    (ref.get r = some old → ¬ ref.Clashes new before r → ref.point new r ∈ after)

end Definitions

variable {ref : Reference ι R K} {old new : ι}

theorem key_eq_some {r : R} {i : ι} {k : K} :
    ref.key r = some (i, k) ↔ ref.get r = some i ∧ ref.rest r = some k := by
  simp only [key, Option.bind_eq_some_iff, Option.map_eq_some_iff, Prod.mk.injEq]
  constructor
  · intro ⟨j, hj, k', hk, hi, hkk⟩
    subst hi hkk
    exact ⟨hj, hk⟩
  · intro ⟨hi, hk⟩
    exact ⟨i, hi, k, hk, rfl, rfl⟩

/-- No unique key of the two rows is the same. -/
def Apart (ref : Reference ι R K) (r q : R) : Prop :=
  ∀ key, ref.key r = some key → ref.key q ≠ some key

instance : Std.Symm ref.Apart where
  symm _ _ h key hq hr := h key hr hq

theorem unique_iff {rows : List R} : ref.Unique rows ↔ rows.Pairwise ref.Apart := by
  show List.Pairwise (· ≠ ·) (rows.filterMap ref.key) ↔ _
  rw [List.pairwise_filterMap]
  constructor
  · intro h
    exact h.imp fun hrq key hr hq => hrq key hr key hq rfl
  · intro h
    refine h.imp fun hrq key hr key' hq heq => ?_
    exact hrq key hr (heq ▸ hq)

variable [DecidableEq ι]

theorem move_of_ne {r : R} (h : ref.get r ≠ some old) : ref.move old new r = r := if_neg h

theorem move_of_eq {r : R} (h : ref.get r = some old) : ref.move old new r = ref.point new r :=
  if_pos h

theorem rest_move (r : R) : ref.rest (ref.move old new r) = ref.rest r := by
  unfold move
  split
  · exact ref.rest_point _ _
  · rfl

theorem get_move_of_eq {r : R} (h : ref.get r = some old) :
    ref.get (ref.move old new r) = some new := by
  rw [move_of_eq h, ref.get_point]

/-- A column that is not the reference -/
theorem column_move {α : Type*} (column : R → α) (h : ∀ i r, column (ref.point i r) = column r)
    (r : R) : column (ref.move old new r) = column r := by
  unfold move
  split
  · exact h new r
  · rfl

theorem get_move (r : R) :
    ref.get (ref.move old new r) = if ref.get r = some old then some new else ref.get r := by
  split
  · rename_i h
    exact get_move_of_eq h
  · rename_i h
    rw [move_of_ne h]

/-- Where two rows share a key after the move, one of them moved onto the other, or they shared
one before. -/
theorem clashes_or_key_eq {rows : List R} {r q : R} (hr : r ∈ rows) (hq : q ∈ rows)
    {key : ι × K} (hkr : ref.key (ref.move old new r) = some key)
    (hkq : ref.key (ref.move old new q) = some key) :
    (ref.get r = some old ∧ ref.Clashes new rows r) ∨ (ref.get q = some old ∧ ref.Clashes new rows q) ∨
      ∃ key', ref.key r = some key' ∧ ref.key q = some key' := by
  obtain ⟨i, k⟩ := key
  obtain ⟨hgr, hrr⟩ := key_eq_some.mp hkr
  obtain ⟨hgq, hrq⟩ := key_eq_some.mp hkq
  rw [rest_move] at hrr hrq
  by_cases hor : ref.get r = some old
  · by_cases hoq : ref.get q = some old
    · exact .inr (.inr ⟨(old, k), key_eq_some.mpr ⟨hor, hrr⟩, key_eq_some.mpr ⟨hoq, hrq⟩⟩)
    · rw [get_move_of_eq hor] at hgr
      rw [move_of_ne hoq, ← hgr] at hgq
      exact .inl ⟨hor, q, hq, hgq, hrq.trans hrr.symm, by simp [hrr]⟩
  · by_cases hoq : ref.get q = some old
    · rw [get_move_of_eq hoq] at hgq
      rw [move_of_ne hor, ← hgq] at hgr
      exact .inr (.inl ⟨hoq, r, hr, hgr, hrr.trans hrq.symm, by simp [hrq]⟩)
    · rw [move_of_ne hor] at hgr
      rw [move_of_ne hoq] at hgq
      exact .inr (.inr ⟨(i, k), key_eq_some.mpr ⟨hgr, hrr⟩, key_eq_some.mpr ⟨hgq, hrq⟩⟩)

/-- The `UPDATE` goes through where no row that moves clashes with a row that is there. -/
theorem unique_move_iff {rows : List R} (h : ref.Unique rows) (hne : old ≠ new) :
    ref.Unique (rows.map (ref.move old new)) ↔
      ∀ r ∈ rows, ref.get r = some old → ¬ ref.Clashes new rows r := by
  rw [unique_iff] at h
  rw [unique_iff, List.pairwise_map]
  constructor
  · intro hu r hr hold ⟨q, hq, hnew, hrest, hsome⟩
    obtain ⟨k, hk⟩ := Option.ne_none_iff_exists'.mp hsome
    have hstay : ref.get q ≠ some old := by
      rw [hnew]
      simpa using hne.symm
    have hrq : r ≠ q := fun heq => hstay (heq ▸ hold)
    have hkr : ref.key (ref.move old new r) = some (new, k) :=
      key_eq_some.mpr ⟨get_move_of_eq hold, (rest_move r).trans hk⟩
    have hkq : ref.key (ref.move old new q) = some (new, k) := by
      rw [move_of_ne hstay]
      exact key_eq_some.mpr ⟨hnew, hrest.trans hk⟩
    have hsymm : Std.Symm fun r q => ref.Apart (ref.move old new r) (ref.move old new q) :=
      ⟨fun _ _ h key hq hr => h key hr hq⟩
    exact hu.forall hr hq hrq (new, k) hkr hkq
  · intro hclash
    refine h.imp_of_mem fun {r q} hr hq hrq key hkr hkq => ?_
    obtain ⟨hold, hc⟩ | ⟨hold, hc⟩ | ⟨key', hkr', hkq'⟩ := clashes_or_key_eq hr hq hkr hkq
    · exact hclash r hr hold hc
    · exact hclash q hq hold hc
    · exact hrq key' hkr' hkq'

theorem mem_cascade {rows : List R} {r : R} :
    r ∈ ref.cascade old rows ↔ r ∈ rows ∧ ref.get r ≠ some old := by
  rw [cascade, List.mem_filter, bne_iff_ne]

theorem mem_map_move_of_ne {rows : List R} {r : R} (hr : r ∈ rows) (h : ref.get r ≠ some old) :
    r ∈ rows.map (ref.move old new) :=
  List.mem_map.mpr ⟨r, hr, move_of_ne h⟩

theorem point_mem_map_move {rows : List R} {r : R} (hr : r ∈ rows) (h : ref.get r = some old) :
    ref.point new r ∈ rows.map (ref.move old new) :=
  List.mem_map.mpr ⟨r, hr, move_of_eq h⟩

/-- Without an `UPDATE`, everything that referred to the row has to clash. -/
theorem kept_cascade_iff {rows : List R} (htotal : ∀ r ∈ rows, ref.rest r ≠ none) :
    ref.Kept old new rows (ref.cascade old rows) ↔
      ∀ r ∈ rows, ref.get r = some old → ref.Clashes new rows r := by
  constructor
  · intro hkept r hr hold
    by_contra hc
    have hmem := (mem_cascade.mp ((hkept r hr).2 hold hc)).1
    exact hc ⟨_, hmem, ref.get_point new r, ref.rest_point new r, htotal r hr⟩
  · intro hclash r hr
    exact ⟨fun hstay => mem_cascade.mpr ⟨hr, hstay⟩, fun hold hc => absurd (hclash r hr hold) hc⟩

variable [DecidableEq K]

/-- A column without a unique index always moves. -/
theorem reparent_of_rest_eq_none (hrest : ∀ r, ref.rest r = none) (rows : List R) :
    ref.reparent old new rows = some (rows.map (ref.move old new)) := by
  refine if_pos (unique_iff.mpr (List.pairwise_iff_forall_sublist.mpr ?_))
  intro r q _ key hr
  obtain ⟨k, hk⟩ : ∃ k, ref.rest r = some k := ⟨key.2, (key_eq_some.mp hr).2⟩
  rw [hrest] at hk
  cases hk

theorem isSome_reparent {rows : List R} :
    (ref.reparent old new rows).isSome = true ↔ ref.Unique (rows.map (ref.move old new)) := by
  unfold reparent
  split
  · rename_i h
    exact iff_of_true rfl h
  · rename_i h
    exact iff_of_false Bool.false_ne_true h

/-- Whether the `UPDATE` goes through depends on the column and its key alone. -/
theorem isSome_reparent_map {f : R → R} (hget : ∀ r, ref.get (f r) = ref.get r)
    (hrest : ∀ r, ref.rest (f r) = ref.rest r) (rows : List R) :
    (ref.reparent old new (rows.map f)).isSome = (ref.reparent old new rows).isSome := by
  have hkey (r : R) : ref.key (ref.move old new (f r)) = ref.key (ref.move old new r) := by
    unfold key
    rw [get_move, get_move, rest_move, rest_move, hget, hrest]
  rw [Bool.eq_iff_iff, isSome_reparent, isSome_reparent]
  unfold Unique
  rw [List.map_map, List.filterMap_map, List.filterMap_map,
    show ref.key ∘ ref.move old new ∘ f = ref.key ∘ ref.move old new from funext hkey]

/-- The rows that move all go through, or they are all deleted. -/
theorem kept_cascade_reparent_iff {rows : List R} (h : ref.Unique rows) (hne : old ≠ new)
    (htotal : ∀ r ∈ rows, ref.rest r ≠ none) :
    ref.Kept old new rows (ref.cascade old ((ref.reparent old new rows).getD rows)) ↔
      (∀ r ∈ rows, ref.get r = some old → ¬ ref.Clashes new rows r) ∨
        ∀ r ∈ rows, ref.get r = some old → ref.Clashes new rows r := by
  unfold reparent
  split
  · rename_i hu
    rw [unique_move_iff h hne] at hu
    refine iff_of_true (fun r hr => ⟨fun hstay => ?_, fun hold _ => ?_⟩) (.inl hu)
    · exact mem_cascade.mpr ⟨mem_map_move_of_ne hr hstay, hstay⟩
    · refine mem_cascade.mpr ⟨point_mem_map_move hr hold, ?_⟩
      rw [ref.get_point]
      simpa using hne.symm
  · rename_i hu
    rw [unique_move_iff h hne] at hu
    rw [Option.getD_none, kept_cascade_iff htotal]
    exact (or_iff_right hu).symm

end Reference

end Seiran.Sql
