import Seiran.Framework.Splice

/-!
# A text written piece by piece, with marks over some of the pieces

A writer appends the pieces to a text and notes, for a piece that has a mark, the
offsets at which it starts and ends (`marks`). Offsets count what the elements take up
(`w`), as in `Splice`.

* `mem_marks`: a mark is that of one piece, over where the piece is written.
* `marks_pairwise`: the marks are in the order of their ranges, which lie apart.
* `cut_piece`: the range of a piece is given by offsets between elements, and has the
  text of the piece in it.
* `exists_pieces`: `Splice.render` replaces the pieces that have a mark.
-/

namespace Seiran.Marks

open Splice

structure Piece (α μ : Type) where
  text : List α
  mark : Option μ

structure Mark (μ : Type) where
  start : Nat
  stop : Nat
  value : μ
  deriving DecidableEq

variable {α μ : Type} (w : α → Nat)

def written (ps : List (Piece α μ)) : List α := ps.flatMap Piece.text

/-- The marks of the pieces when they are written from an offset on. -/
def marks : Nat → List (Piece α μ) → List (Mark μ)
  | _, [] => []
  | n, p :: ps =>
    (p.mark.toList.map fun m => ⟨n, n + size w p.text, m⟩) ++ marks (n + size w p.text) ps

variable {w}

theorem written_append (ps qs : List (Piece α μ)) : written (ps ++ qs) = written ps ++ written qs :=
  List.flatMap_append

theorem mem_marks {n : Nat} {ps : List (Piece α μ)} {m : Mark μ} (h : m ∈ marks w n ps) :
    ∃ before p after, ps = before ++ p :: after ∧ p.mark = some m.value ∧
      m.start = n + size w (written before) ∧ m.stop = m.start + size w p.text := by
  induction ps generalizing n with
  | nil => cases h
  | cons p ps ih =>
    rw [marks, List.mem_append, List.mem_map] at h
    obtain ⟨v, hv, rfl⟩ | h := h
    · exact ⟨[], p, ps, rfl, Option.mem_toList.mp hv, rfl, rfl⟩
    · obtain ⟨before, q, after, rfl, hmark, hstart, hstop⟩ := ih h
      refine ⟨p :: before, q, after, rfl, hmark, ?_, hstop⟩
      rw [hstart, Nat.add_assoc]
      exact congrArg (n + ·) (size_append p.text (written before)).symm

theorem le_start_of_mem_marks {n : Nat} {ps : List (Piece α μ)} {m : Mark μ}
    (h : m ∈ marks w n ps) : n ≤ m.start := by
  obtain ⟨before, p, after, -, -, hstart, -⟩ := mem_marks h
  rw [hstart]
  exact Nat.le_add_right n _

theorem marks_pairwise (n : Nat) (ps : List (Piece α μ)) :
    (marks w n ps).Pairwise fun m m' => m.stop ≤ m'.start := by
  induction ps generalizing n with
  | nil => exact List.Pairwise.nil
  | cons p ps ih =>
    rw [marks, List.pairwise_append]
    refine ⟨?_, ih _, fun m hm m' hm' => ?_⟩
    · cases p.mark with
      | none => exact List.Pairwise.nil
      | some v => exact List.pairwise_singleton _ _
    · obtain ⟨v, -, rfl⟩ := List.mem_map.mp hm
      exact le_start_of_mem_marks hm'

theorem cut_piece (hw : ∀ x, 0 < w x) (before : List (Piece α μ)) (p : Piece α μ)
    (after : List (Piece α μ)) :
    cut w (written (before ++ p :: after)) (size w (written before))
        (size w (written before) + size w p.text) =
      some (written before, p.text, written after) := by
  have htext : written (before ++ p :: after) = written before ++ p.text ++ written after := by
    rw [written_append, List.append_assoc]
    rfl
  rw [htext, ← size_append]
  exact cut_append hw _ _ _

/-! ## Edits as marks -/

theorem marks_append (n : Nat) (ps qs : List (Piece α μ)) :
    marks w n (ps ++ qs) = marks w n ps ++ marks w (n + size w (written ps)) qs := by
  induction ps generalizing n with
  | nil => rfl
  | cons p ps ih =>
    have hsize : size w (written (p :: ps)) = size w p.text + size w (written ps) :=
      size_append p.text (written ps)
    rw [List.cons_append, marks, marks, ih, hsize, List.append_assoc, Nat.add_assoc]

/-- The edit that replaces what a mark is over. -/
def edit (f : μ → List α → List α) (m : Mark μ) : Edit α := ⟨m.start, m.stop, some (f m.value)⟩

/-- The text of a piece, replaced where it has a mark. -/
def replaced (f : μ → List α → List α) (p : Piece α μ) : List α :=
  ((p.mark.map f).getD id) p.text

/-- To replace ranges of a text is to take it for pieces, with marks over those ranges,
and to replace each of them. -/
theorem exists_pieces (hw : ∀ x, 0 < w x) (f : μ → List α → List α) {ms : List (Mark μ)}
    {xs : List α} (hdesc : Descending (ms.map (edit f)))
    (hin : ∀ e ∈ ms.map (edit f), e.In w xs) :
    ∃ ps : List (Piece α μ), written ps = xs ∧ marks w 0 ps = ms.reverse ∧
      render w (ms.map (edit f)) xs = ps.flatMap (replaced f) := by
  induction ms generalizing xs with
  | nil => exact ⟨[⟨xs, none⟩], List.append_nil xs, rfl, (List.append_nil xs).symm⟩
  | cons m ms ih =>
    have he := hin (edit f m) List.mem_cons_self
    obtain ⟨⟨a, c, b⟩, hcut⟩ := Option.isSome_iff_exists.mp he.isSome_cut
    have hbefore := hdesc.in_before hw hin hcut
    obtain ⟨ps, hps, hmarks, hrender⟩ := ih hdesc.of_cons fun e he => (hbefore e he).1
    obtain ⟨rfl, hstart, hstop⟩ := eq_of_cut he.le hcut
    have hsize : size w a + size w c = m.stop := (size_append a c).symm.trans hstop
    refine ⟨ps ++ [⟨c, some m.value⟩, ⟨b, none⟩], ?_, ?_, ?_⟩
    · rw [written_append, hps, List.append_assoc]
      exact congrArg (fun b => a ++ (c ++ b)) (List.append_nil b)
    · rw [marks_append, hmarks, hps, List.reverse_cons, Nat.zero_add]
      refine congrArg (ms.reverse ++ ·) ?_
      show [Mark.mk (size w a) (size w a + size w c) m.value] = [m]
      rw [hsize, show size w a = m.start from hstart]
    · rw [List.map_cons, render_of_cut hcut, hrender, List.flatMap_append, List.append_assoc]
      exact congrArg (fun b => ps.flatMap (replaced f) ++ (f m.value c ++ b)) (List.append_nil b).symm

end Seiran.Marks
