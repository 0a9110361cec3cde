import Mathlib.Algebra.BigOperators.Group.List.Basic
import Mathlib.Algebra.GroupWithZero.Nat
import Mathlib.Data.List.TakeWhile
import Seiran.Model.Inbox.Markdown

/-!
# White space in the text of a note

* `visible_normalize`: normalising keeps every character that is no white space;
* `trimStart_append`, `trimEnd_append`: what trimming leaves of a text with another text in it.
-/

namespace Seiran.Content

open Lists (isWhitespace)

/-! ## What normalising keeps -/

theorem visible_append (s t : Str) : visible (s ++ t) = visible s + visible t :=
  List.countP_append

theorem visible_cons (c : Char) (s : Str) :
    visible (c :: s) = visible s + if isWhitespace c then 0 else 1 := by
  rw [visible, List.countP_cons]
  cases isWhitespace c <;> rfl

theorem visible_eq_zero {s : Str} (h : ∀ c ∈ s, isWhitespace c = true) : visible s = 0 := by
  refine List.countP_eq_zero.mpr fun c hc => ?_
  simp [h c hc]

/-- Dropping white space drops nothing else. -/
theorem visible_dropWhile {p : Char → Bool} (hp : ∀ c, p c = true → isWhitespace c = true)
    (s : Str) : visible (s.dropWhile p) = visible s := by
  have htake : visible (s.takeWhile p) = 0 :=
    visible_eq_zero fun c hc => hp c (List.mem_takeWhile_imp hc)
  conv_rhs => rw [← List.takeWhile_append_dropWhile (p := p) (l := s), visible_append, htake]
  exact (Nat.zero_add _).symm

theorem visible_reverse (s : Str) : visible s.reverse = visible s := List.countP_reverse

theorem visible_intercalate (sep : Str) (hsep : visible sep = 0) (parts : List Str) :
    visible (sep.intercalate parts) = (parts.map visible).sum := by
  induction parts with
  | nil => rfl
  | cons part parts ih =>
    cases parts with
    | nil => simp [List.intercalate_singleton]
    | cons next parts =>
      rw [List.intercalate_cons_cons, visible_append, visible_append, ih, hsep, Nat.add_zero]
      rfl

theorem visible_splitOnP {p : Char → Bool} (hp : ∀ c, p c = true → isWhitespace c = true)
    (s : Str) : ((s.splitOnP p).map visible).sum = visible s := by
  induction s with
  | nil => rfl
  | cons c s ih =>
    rw [List.splitOnP_cons_eq_if_modifyHead]
    split
    · rename_i hc
      rw [List.map_cons, List.sum_cons, ih, visible_cons, if_pos (hp c hc)]
      exact Nat.zero_add _
    · cases hsplit : s.splitOnP p with
      | nil => exact absurd hsplit (List.splitOnP_ne_nil p s)
      | cons part parts =>
        rw [hsplit, List.map_cons, List.sum_cons] at ih
        rw [List.modifyHead_cons, List.map_cons, List.sum_cons, visible_cons, visible_cons, ← ih,
          Nat.add_right_comm]

theorem visible_splitWhitespace (s : Str) :
    ((splitWhitespace s).map visible).sum = visible s := by
  rw [← visible_splitOnP (p := isWhitespace) (fun _ hc => hc) s, splitWhitespace]
  induction s.splitOnP isWhitespace with
  | nil => rfl
  | cons part parts ih =>
    cases part with
    | nil =>
      rw [List.filter_cons_of_neg (by decide), ih, List.map_cons, List.sum_cons]
      exact (Nat.zero_add _).symm
    | cons c part =>
      rw [List.filter_cons_of_pos rfl, List.map_cons, List.map_cons, List.sum_cons, List.sum_cons,
        ih]

theorem visible_joinNewlines (s : Str) (run : Nat) : visible (joinNewlines s run) = visible s := by
  induction s generalizing run with
  | nil => rfl
  | cons c s ih =>
    rw [joinNewlines]
    split
    · rename_i hc
      rw [ih, visible_cons, hc]
      rfl
    · have hrun : visible (List.replicate (min run 2) '\n') = 0 :=
        visible_eq_zero fun c hc => by rw [List.eq_of_mem_replicate hc]; rfl
      rw [visible_append, hrun, Nat.zero_add, visible_cons, visible_cons, ih]

/-- Normalising keeps every character that is no white space. -/
theorem visible_normalize (s : Str) :
    visible (normalizeWhitespacePreservingNewlines s) = visible s := by
  have hnewline : ∀ c : Char, decide (c = '\n') = true → isWhitespace c = true := by
    intro c hc
    rw [of_decide_eq_true hc]
    rfl
  have hline : (fun line => visible ([' '].intercalate (splitWhitespace line))) = visible := by
    funext line
    rw [visible_intercalate _ rfl, visible_splitWhitespace]
  have hjoined : visible (['\n'].intercalate
      ((s.splitOn '\n').map fun line => [' '].intercalate (splitWhitespace line))) = visible s := by
    rw [visible_intercalate _ rfl, List.map_map]
    show ((s.splitOn '\n').map
      fun line => visible ([' '].intercalate (splitWhitespace line))).sum = visible s
    rw [hline, ← visible_intercalate ['\n'] rfl, List.intercalate_splitOn]
  rw [normalizeWhitespacePreservingNewlines, trimEndMatches, trimStartMatches, visible_reverse,
    visible_dropWhile hnewline, visible_reverse, visible_dropWhile hnewline, visible_joinNewlines,
    hjoined]

/-! ## Trimming -/

theorem trim_eq (s : Str) : trim s = trimEnd (trimStart s) := rfl

/-- Trimming the start of a text does not go past a character that is no white space. -/
theorem trimStart_append (s t : Str) {c : Char} (hc : isWhitespace c = false) :
    trimStart (s ++ c :: t) = trimStart s ++ c :: t := by
  have hnot : ¬isWhitespace c = true := by
    rw [hc]
    exact Bool.false_ne_true
  rw [trimStart, List.dropWhile_append]
  split
  · rename_i hnil
    rw [trimStart, List.isEmpty_iff.mp hnil, List.dropWhile_cons_of_neg hnot, List.nil_append]
  · rfl

theorem trimEnd_append (s t : Str) {c : Char} (hc : isWhitespace c = false) :
    trimEnd (s ++ [c] ++ t) = s ++ [c] ++ trimEnd t := by
  have h := trimStart_append t.reverse s.reverse hc
  rw [trimStart, trimStart] at h
  rw [trimEnd, trimEnd, List.reverse_append, List.reverse_append, List.reverse_singleton,
    List.singleton_append, h, List.reverse_append, List.reverse_cons, List.reverse_reverse]

/-- Trimming leaves what starts and ends in no white space. -/
theorem trim_around {s : Str} (hstart : ∃ c r, s = c :: r ∧ isWhitespace c = false)
    (hend : ∃ r c, s = r ++ [c] ∧ isWhitespace c = false) (a b : Str) :
    trim (a ++ (s ++ b)) = trimStart a ++ (s ++ trimEnd b) := by
  have htrimStart : trimStart (a ++ (s ++ b)) = trimStart a ++ (s ++ b) := by
    obtain ⟨c, r, rfl, hc⟩ := hstart
    exact trimStart_append a (r ++ b) hc
  obtain ⟨r, c, rfl, hc⟩ := hend
  rw [trim_eq, htrimStart, ← List.append_assoc, ← List.append_assoc (trimStart a),
    trimEnd_append _ _ hc, List.append_assoc, List.append_assoc, List.append_assoc]

theorem trim_append (s : Str) :
    trim s ++ ((trimStart s).reverse.takeWhile isWhitespace).reverse = trimStart s := by
  rw [trim, ← List.reverse_append, List.takeWhile_append_dropWhile, List.reverse_reverse]

/-- A text is white space, what is left when it is trimmed, and white space. -/
theorem exists_trim (s : Str) :
    ∃ before after, s = before ++ (trim s ++ after) ∧
      (∀ c ∈ before, isWhitespace c = true) ∧ ∀ c ∈ after, isWhitespace c = true := by
  refine ⟨s.takeWhile isWhitespace, ((trimStart s).reverse.takeWhile isWhitespace).reverse,
    ?_, fun c hc => List.mem_takeWhile_imp hc, fun c hc => ?_⟩
  · rw [trim_append, trimStart, List.takeWhile_append_dropWhile]
  · exact List.mem_takeWhile_imp (List.mem_reverse.mp hc)

theorem exists_trimStart (s : Str) :
    ∃ blank, s = blank ++ trimStart s ∧ ∀ c ∈ blank, isWhitespace c = true :=
  ⟨s.takeWhile isWhitespace, List.takeWhile_append_dropWhile.symm,
    fun _ hc => List.mem_takeWhile_imp hc⟩

theorem exists_trimEnd (s : Str) :
    ∃ blank, s = trimEnd s ++ blank ∧ ∀ c ∈ blank, isWhitespace c = true := by
  obtain ⟨blank, hs, hblank⟩ := exists_trimStart s.reverse
  refine ⟨blank.reverse, ?_, fun c hc => hblank c (List.mem_reverse.mp hc)⟩
  rw [trimEnd, ← List.reverse_append]
  exact List.reverse_eq_iff.mp hs

theorem trimStart_blank_append {blank : Str} (hblank : ∀ c ∈ blank, isWhitespace c = true)
    (s : Str) : trimStart (blank ++ s) = trimStart s := List.dropWhile_append_of_pos hblank

theorem trimEnd_append_blank {blank : Str} (hblank : ∀ c ∈ blank, isWhitespace c = true)
    (s : Str) : trimEnd (s ++ blank) = trimEnd s := by
  rw [trimEnd, List.reverse_append,
    List.dropWhile_append_of_pos fun c hc => hblank c (List.mem_reverse.mp hc)]
  rfl

theorem trim_blank_append {blank : Str} (hblank : ∀ c ∈ blank, isWhitespace c = true)
    (s : Str) : trim (blank ++ s) = trim s := by
  rw [trim_eq, trimStart_blank_append hblank]
  rfl

theorem trim_append_blank {blank : Str} (hblank : ∀ c ∈ blank, isWhitespace c = true)
    (s : Str) : trim (s ++ blank) = trim s := by
  rw [trim_eq, trim_eq, trimStart, trimStart, List.dropWhile_append]
  split
  · rename_i hnil
    rw [List.isEmpty_iff.mp hnil, List.dropWhile_eq_nil_iff.mpr hblank]
  · exact trimEnd_append_blank hblank _

theorem isWhitespace_of_dropWhile {s t : Str} {c : Char}
    (h : s.dropWhile isWhitespace = c :: t) : isWhitespace c = false := by
  have hhead := List.head?_dropWhile_not isWhitespace s
  simpa [h] using hhead

/-- What is left when a text is trimmed starts in no white space. -/
theorem isWhitespace_of_trim_cons {s t : Str} {c : Char} (h : trim s = c :: t) :
    isWhitespace c = false := by
  have hstart := trim_append s
  rw [h, List.cons_append] at hstart
  exact isWhitespace_of_dropWhile hstart.symm

/-- What is left when a text is trimmed ends in no white space. -/
theorem isWhitespace_of_trim_concat {s t : Str} {c : Char} (h : trim s = t ++ [c]) :
    isWhitespace c = false := by
  have hend := congrArg List.reverse h
  rw [trim, List.reverse_reverse, List.reverse_append, List.reverse_singleton,
    List.singleton_append] at hend
  exact isWhitespace_of_dropWhile hend

end Seiran.Content
