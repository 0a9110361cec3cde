import Mathlib.Data.List.Nodup
import Mathlib.Data.List.Count
import Mathlib.Data.List.Pairwise

/-!
# Tables with unique indexes

A table is the list of its rows. A row has an identifier and is in the unique
indexes with some keys (with none in a partial index it is not part of); no key
is in the table twice. An `INSERT` or `UPDATE` after which one would be fails.

* `Schema.Unique.eq_of_key`, `Schema.Unique.eq_of_id`: rows that share a key are
  one row;
* `Schema.insert_eq_none`, `Schema.update_eq_none`: the row a write fails on;
* `Schema.mem_update`: the rows after an `UPDATE` by the identifier;
* `Schema.Unique.find?_eq`, `Schema.Unique.countP_eq_one`: a condition that says a
  key of the row holds of that row alone.
-/

namespace Seiran.Sql

universe u v w

/-- Rows, what identifies them and the keys they have in the unique indexes -/
structure Schema (ι : Type u) (R : Type v) (κ : Type w) where
  id : R → ι
  keys : R → List κ
  pkey : ι → κ
  pkey_mem : ∀ r, pkey (id r) ∈ keys r

namespace Schema

variable {ι : Type u} {R : Type v} {κ : Type w} (S : Schema ι R κ)

/-- No key is in the table twice. -/
def Unique (rows : List R) : Prop := (rows.flatMap S.keys).Nodup

instance [DecidableEq κ] (rows : List R) : Decidable (S.Unique rows) :=
  inferInstanceAs (Decidable (List.Nodup _))

/-- `INSERT INTO t VALUES r` -/
def insert [DecidableEq κ] (rows : List R) (r : R) : Option (List R) :=
  if S.Unique (rows ++ [r]) then some (rows ++ [r]) else none

/-- The rows with the row `i` changed -/
def set [DecidableEq ι] (rows : List R) (i : ι) (f : R → R) : List R :=
  rows.map fun r => if S.id r = i then f r else r

/-- `UPDATE t SET … WHERE id = i` -/
def update [DecidableEq ι] [DecidableEq κ] (rows : List R) (i : ι) (f : R → R) :
    Option (List R) :=
  if S.Unique (S.set rows i f) then some (S.set rows i f) else none

variable {S} {rows rows' : List R} {r q : R} {i : ι} {f : R → R}

theorem unique_iff : S.Unique rows ↔ (∀ r ∈ rows, (S.keys r).Nodup) ∧
    rows.Pairwise fun r q => (S.keys r).Disjoint (S.keys q) :=
  List.nodup_flatMap

theorem Unique.eq_of_key (h : S.Unique rows) (hr : r ∈ rows) (hq : q ∈ rows) {k : κ}
    (hkr : k ∈ S.keys r) (hkq : k ∈ S.keys q) : r = q := by
  by_contra hne
  have hpair := (unique_iff.mp h).2
  have hsymm : Std.Symm fun r q => (S.keys r).Disjoint (S.keys q) :=
    ⟨fun _ _ hd _ hkq hkr => hd hkr hkq⟩
  have hdisj := hpair.forall hr hq hne
  exact hdisj hkr hkq

theorem Unique.eq_of_id (h : S.Unique rows) (hr : r ∈ rows) (hq : q ∈ rows)
    (hid : S.id r = S.id q) : r = q := by
  have hkq : S.pkey (S.id r) ∈ S.keys q := hid ▸ S.pkey_mem q
  exact h.eq_of_key hr hq (S.pkey_mem r) hkq

theorem unique_append (h : S.Unique rows) (hr : (S.keys r).Nodup)
    (hnew : ∀ q ∈ rows, ∀ k ∈ S.keys r, k ∉ S.keys q) : S.Unique (rows ++ [r]) := by
  rw [Unique, List.flatMap_append, List.flatMap_singleton, List.nodup_append']
  refine ⟨h, hr, fun k hk hkr => ?_⟩
  obtain ⟨q, hq, hkq⟩ := List.mem_flatMap.mp hk
  exact hnew q hq k hkr hkq

theorem Unique.filter (h : S.Unique rows) (p : R → Bool) : S.Unique (rows.filter p) :=
  unique_iff.mpr ⟨fun r hr => (unique_iff.mp h).1 r (List.mem_filter.mp hr).1,
    (unique_iff.mp h).2.filter _⟩

section OneRow

variable {p : R → Bool} {k : κ}

theorem Unique.eq_of_condition (h : S.Unique rows) (hr : r ∈ rows) (hp : p r = true)
    (hk : ∀ q ∈ rows, p q = true → k ∈ S.keys q) : ∀ q ∈ rows, p q = true → q = r :=
  fun q hq hpq => h.eq_of_key hq hr (hk q hq hpq) (hk r hr hp)

theorem Unique.find?_eq (h : S.Unique rows) (hr : r ∈ rows) (hp : p r = true)
    (hk : ∀ q ∈ rows, p q = true → k ∈ S.keys q) : rows.find? p = some r := by
  cases hf : rows.find? p with
  | none => exact absurd hp (List.find?_eq_none.mp hf r hr)
  | some q =>
    have hpq : p q = true := List.find?_some hf
    rw [h.eq_of_condition hr hp hk q (List.mem_of_find?_eq_some hf) hpq]

/-- A condition that says a key of the row holds of one row of the table. -/
theorem Unique.countP_eq_one (h : S.Unique rows) (hr : r ∈ rows) (hp : p r = true)
    (hk : ∀ q ∈ rows, p q = true → k ∈ S.keys q) : rows.countP p = 1 := by
  have honly := h.eq_of_condition hr hp hk
  obtain ⟨l₁, l₂, rfl⟩ := List.append_of_mem hr
  have hpair := (unique_iff.mp h).2
  rw [List.pairwise_append, List.pairwise_cons] at hpair
  have h₁ : l₁.countP p = 0 := List.countP_eq_zero.mpr fun q hq hpq => by
    have heq := honly q (List.mem_append_left _ hq) hpq
    exact hpair.2.2 q hq r List.mem_cons_self (S.pkey_mem q) (heq ▸ S.pkey_mem q)
  have h₂ : l₂.countP p = 0 := List.countP_eq_zero.mpr fun q hq hpq => by
    have heq := honly q (List.mem_append_right _ (List.mem_cons_of_mem _ hq)) hpq
    exact hpair.2.1.1 q hq (S.pkey_mem r) (heq.symm ▸ S.pkey_mem r)
  rw [List.countP_append, List.countP_cons_of_pos hp, h₁, h₂]

end OneRow

section Insert

variable [DecidableEq κ]

theorem insert_eq_some : S.insert rows r = some rows' ↔ S.Unique rows' ∧ rows' = rows ++ [r] := by
  unfold insert
  split
  · rename_i h
    simp only [Option.some.injEq]
    exact ⟨fun heq => heq ▸ ⟨h, rfl⟩, fun heq => heq.2.symm⟩
  · rename_i h
    simp only [reduceCtorEq, false_iff, not_and]
    exact fun hu heq => h (heq ▸ hu)

/-- A row that cannot be inserted shares a key with one that is there. -/
theorem insert_eq_none (h : S.Unique rows) (hr : (S.keys r).Nodup) (hs : S.insert rows r = none) :
    ∃ q ∈ rows, ∃ k ∈ S.keys r, k ∈ S.keys q := by
  by_contra hnot
  simp only [not_exists, not_and] at hnot
  have hu : S.Unique (rows ++ [r]) := unique_append h hr hnot
  rw [insert, if_pos hu] at hs
  cases hs

end Insert

section Update

variable [DecidableEq ι]

theorem mem_set : r ∈ S.set rows i f ↔ ∃ q ∈ rows, (if S.id q = i then f q else q) = r :=
  List.mem_map

theorem mem_set_of_ne (hr : r ∈ rows) (hid : S.id r ≠ i) : r ∈ S.set rows i f :=
  mem_set.mpr ⟨r, hr, if_neg hid⟩

theorem mem_set_of_eq (hr : r ∈ rows) (hid : S.id r = i) : f r ∈ S.set rows i f :=
  mem_set.mpr ⟨r, hr, if_pos hid⟩

theorem mem_set_iff :
    r ∈ S.set rows i f ↔ r ∈ rows ∧ S.id r ≠ i ∨ ∃ q ∈ rows, S.id q = i ∧ f q = r := by
  rw [mem_set]
  constructor
  · rintro ⟨q, hq, rfl⟩
    split
    · rename_i hid
      exact .inr ⟨q, hq, hid, rfl⟩
    · rename_i hid
      exact .inl ⟨hq, hid⟩
  · rintro (⟨hr, hid⟩ | ⟨q, hq, hid, rfl⟩)
    · exact ⟨r, hr, if_neg hid⟩
    · exact ⟨q, hq, if_pos hid⟩

theorem set_of_fixed (hf : ∀ r ∈ rows, S.id r = i → f r = r) : S.set rows i f = rows := by
  calc S.set rows i f = rows.map (fun r => r) := List.map_congr_left fun r hr => by
        split
        · rename_i hid
          exact hf r hr hid
        · rfl
    _ = rows := List.map_id' rows

/-- Rows that are left out anyway may be changed before. -/
theorem filter_set {p : R → Bool} (hp : ∀ r, S.id r = i → p r = false)
    (hf : ∀ r, S.id (f r) = S.id r) : (S.set rows i f).filter p = rows.filter p := by
  rw [set, List.filter_map]
  have hsame : ∀ r ∈ rows, (p ∘ fun r => if S.id r = i then f r else r) r = p r := by
    intro r _
    simp only [Function.comp]
    split
    · rename_i hid
      rw [hp r hid, hp (f r) ((hf r).trans hid)]
    · rfl
  rw [List.filter_congr hsame]
  calc (rows.filter p).map (fun r => if S.id r = i then f r else r)
      = (rows.filter p).map fun r => r := List.map_congr_left fun r hr => by
        have hpr := (List.mem_filter.mp hr).2
        refine if_neg fun hid => ?_
        rw [hp r hid] at hpr
        cases hpr
    _ = rows.filter p := List.map_id' _

variable [DecidableEq κ]

theorem update_eq_some :
    S.update rows i f = some rows' ↔ S.Unique rows' ∧ rows' = S.set rows i f := by
  unfold update
  split
  · rename_i h
    simp only [Option.some.injEq]
    exact ⟨fun heq => heq ▸ ⟨h, rfl⟩, fun heq => heq.2.symm⟩
  · rename_i h
    simp only [reduceCtorEq, false_iff, not_and]
    exact fun hu heq => h (heq ▸ hu)

/-- A row that cannot be changed would share a key with another one. -/
theorem update_eq_none (h : S.Unique rows) (hf : ∀ r, (S.keys (f r)).Nodup)
    (hs : S.update rows i f = none) :
    ∃ r ∈ rows, S.id r = i ∧ ∃ q ∈ rows, S.id q ≠ i ∧ ∃ k ∈ S.keys (f r), k ∈ S.keys q := by
  by_contra hnot
  simp only [not_exists, not_and] at hnot
  have hpair := (unique_iff.mp h).2
  have hu : S.Unique (S.set rows i f) := by
    refine unique_iff.mpr ⟨fun r hr => ?_, ?_⟩
    · obtain ⟨q, hq, rfl⟩ := mem_set.mp hr
      split
      · exact hf q
      · exact (unique_iff.mp h).1 q hq
    · refine List.pairwise_map.mpr (hpair.imp_of_mem fun {r q} hr hq hd => ?_)
      by_cases hri : S.id r = i <;> by_cases hqi : S.id q = i
      · exact absurd (hri.trans hqi.symm) fun heq =>
          hd (S.pkey_mem r) (heq ▸ S.pkey_mem q)
      · rw [if_pos hri, if_neg hqi]
        exact fun k hk hkq => hnot r hr hri q hq hqi k hk hkq
      · rw [if_neg hri, if_pos hqi]
        exact fun k hk hkq => hnot q hq hqi r hr hri k hkq hk
      · rw [if_neg hri, if_neg hqi]
        exact hd
  rw [update, if_pos hu] at hs
  cases hs

/-- A change that gives the row no new key does not fail. -/
theorem update_of_subset (h : S.Unique rows)
    (hf : ∀ r, (S.keys (f r)).Nodup) (hkeys : ∀ r ∈ rows, S.id r = i → S.keys (f r) ⊆ S.keys r) :
    S.update rows i f = some (S.set rows i f) ∧ S.Unique (S.set rows i f) := by
  cases hs : S.update rows i f with
  | none =>
    obtain ⟨r, hr, hri, q, hq, hqi, k, hk, hkq⟩ := update_eq_none h hf hs
    have heq : r = q := h.eq_of_key hr hq (hkeys r hr hri hk) hkq
    exact absurd (heq ▸ hri) hqi
  | some rows' =>
    obtain ⟨hu, rfl⟩ := update_eq_some.mp hs
    exact ⟨rfl, hu⟩

end Update

end Schema

end Seiran.Sql
