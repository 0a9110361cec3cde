import Mathlib.Data.List.Infix

/-!
# LIKE

A pattern of SQL's `LIKE` matches the whole text: `%` stands for any characters,
`_` for one, and a character after the escape character for itself.

`like_contains` is what escaping is for: between two `%`, the escaped text
matches exactly the texts that contain it.
-/

namespace Seiran.Sql

inductive PatternItem
  | char (c : Char)
  | one
  | any

/-- Nothing where the pattern ends in the escape character. -/
def pattern (escape : Char) : (escaped : Bool) → List Char → Option (List PatternItem)
  | false, [] => some []
  | true, [] => none
  | true, c :: cs => (pattern escape false cs).map (.char c :: ·)
  | false, c :: cs =>
    if c = escape then pattern escape true cs
    else if c = '%' then (pattern escape false cs).map (.any :: ·)
    else if c = '_' then (pattern escape false cs).map (.one :: ·)
    else (pattern escape false cs).map (.char c :: ·)

def patternMatches : List PatternItem → List Char → Bool
  | [], s => s.isEmpty
  | .char _ :: _, [] => false
  | .char c :: ps, d :: s => c == d && patternMatches ps s
  | .one :: _, [] => false
  | .one :: ps, _ :: s => patternMatches ps s
  | .any :: ps, s => s.tails.any (patternMatches ps)

def like (escape : Char) (p s : List Char) : Option Bool :=
  (pattern escape false p).map (patternMatches · s)

/-- A character as a pattern that matches it alone. -/
def escapeChar (escape c : Char) : List Char :=
  if c = escape ∨ c = '%' ∨ c = '_' then [escape, c] else [c]

theorem pattern_escapeChar (escape c : Char) (p : List Char) :
    pattern escape false (escapeChar escape c ++ p) =
      (pattern escape false p).map (.char c :: ·) := by
  by_cases h : c = escape ∨ c = '%' ∨ c = '_'
  · rw [escapeChar, if_pos h]
    simp [pattern]
  · rw [escapeChar, if_neg h]
    simp only [not_or] at h
    simp [pattern, h]

theorem pattern_escape (escape : Char) (v p : List Char) :
    pattern escape false (v.flatMap (escapeChar escape) ++ p) =
      (pattern escape false p).map (v.map .char ++ ·) := by
  induction v with
  | nil => simp
  | cons c v ih =>
    rw [List.flatMap_cons, List.append_assoc, pattern_escapeChar, ih, Option.map_map]
    rfl

theorem patternMatches_any (ps : List PatternItem) (s : List Char) :
    patternMatches (.any :: ps) s ↔ ∃ t, t <:+ s ∧ patternMatches ps t := by
  simp [patternMatches]

theorem patternMatches_chars (v : List Char) (ps : List PatternItem) (s : List Char) :
    patternMatches (v.map .char ++ ps) s ↔ ∃ t, s = v ++ t ∧ patternMatches ps t := by
  induction v generalizing s with
  | nil => simp
  | cons c v ih =>
    cases s with
    | nil => simp [patternMatches]
    | cons d s =>
      rw [List.map_cons, List.cons_append, patternMatches, Bool.and_eq_true, beq_iff_eq, ih]
      simp only [List.cons_append, List.cons.injEq]
      constructor
      · rintro ⟨hcd, t, hs, ht⟩
        exact ⟨t, ⟨hcd.symm, hs⟩, ht⟩
      · rintro ⟨t, ⟨hcd, hs⟩, ht⟩
        exact ⟨hcd.symm, t, hs, ht⟩

theorem patternMatches_contains (v s : List Char) :
    patternMatches (.any :: (v.map .char ++ [.any])) s ↔ v <:+: s := by
  have hend (t : List Char) : patternMatches [.any] t :=
    (patternMatches_any [] t).mpr ⟨[], List.nil_suffix, rfl⟩
  rw [patternMatches_any]
  constructor
  · rintro ⟨t, ⟨pre, rfl⟩, ht⟩
    obtain ⟨post, rfl, -⟩ := (patternMatches_chars v _ t).mp ht
    exact ⟨pre, post, List.append_assoc pre v post⟩
  · rintro ⟨pre, post, rfl⟩
    refine ⟨v ++ post, ⟨pre, (List.append_assoc pre v post).symm⟩, ?_⟩
    exact (patternMatches_chars v _ _).mpr ⟨post, rfl, hend post⟩

theorem like_contains {escape : Char} (h : escape ≠ '%') (v s : List Char) :
    like escape ('%' :: (v.flatMap (escapeChar escape) ++ ['%'])) s = some (decide (v <:+: s)) := by
  have hp : pattern escape false ('%' :: (v.flatMap (escapeChar escape) ++ ['%'])) =
      some (.any :: (v.map .char ++ [.any])) := by
    simp [pattern, pattern_escape, h.symm]
  rw [like, hp, Option.map_some]
  congr 1
  rw [Bool.eq_iff_iff, decide_eq_true_iff]
  exact patternMatches_contains v s

end Seiran.Sql
