import Mathlib.Data.List.ReduceOption
import Seiran.Model.Inbox.QuoteFallback
import Seiran.Proof.Inbox.Anchors

/-!
# Searching a text

* `find_eq_none_of_le`, `find_eq_none_of_lt`: there is nothing before the first occurrence, and
  nothing after the last;
* `find_lower`, `rfind_lower`: an occurrence in a text in lower case is one in the text;
* `exists_firstLine`, `exists_lastLine`: the lines at the two ends of a text.
-/

namespace Seiran.Content

/-! ## The first occurrence and the last -/

theorem find_cons_eq_none {needle s : Str} {c : Char} :
    find needle (c :: s) = none ↔ needle.isPrefixOf (c :: s) = false ∧ find needle s = none := by
  rw [find]
  split
  · rename_i hstart
    rw [hstart]
    simp
  · rename_i hstart
    rw [Option.map_eq_none_iff, Bool.not_eq_true _ |>.mp hstart]
    simp

/-- There is nothing before the first occurrence. -/
theorem find_eq_none_of_le {needle a b : Str} (hneedle : needle ≠ [])
    (h : ∀ n ∈ find needle (a ++ b), len a ≤ n) : find needle a = none := by
  induction a with
  | nil =>
    rw [find, if_neg]
    exact fun hempty => hneedle (List.isEmpty_iff.mp hempty)
  | cons c a ih =>
    have hpos : 0 < len (c :: a) := Splice.size_pos Char.utf8Size_pos (List.cons_ne_nil c a)
    rw [List.cons_append, find] at h
    split at h
    · exact absurd (h 0 rfl) (Nat.not_le_of_lt hpos)
    · rename_i hstart
      refine find_cons_eq_none.mpr ⟨?_, ih fun n hn => ?_⟩
      · rw [← Bool.not_eq_true]
        intro hbefore
        obtain ⟨s, hs⟩ := List.isPrefixOf_iff_prefix.mp hbefore
        refine hstart (List.isPrefixOf_iff_prefix.mpr ⟨s ++ b, ?_⟩)
        rw [← List.append_assoc, hs]
        rfl
      · have hle := h (c.utf8Size + n) (by rw [Option.mem_def.mp hn]; rfl)
        exact Nat.le_of_add_le_add_left hle

theorem not_mem_of_find {c : Char} {s : Str} (h : find [c] s = none) : c ∉ s := by
  induction s with
  | nil => exact List.not_mem_nil
  | cons d s ih =>
    obtain ⟨hstart, hs⟩ := find_cons_eq_none.mp h
    rw [List.mem_cons, not_or]
    refine ⟨?_, ih hs⟩
    rintro rfl
    rw [List.isPrefixOf_cons_cons, beq_self_eq_true] at hstart
    cases hstart

theorem find_char_eq_some {c : Char} {s : Str} {n : Nat} (h : find [c] s = some n) :
    ∃ a b, s = a ++ c :: b ∧ len a = n ∧ c ∉ a := by
  obtain ⟨before, after, rfl, rfl⟩ := find_eq_some h
  have hbefore : find [c] before = none := by
    refine find_eq_none_of_le (List.cons_ne_nil c []) (b := [c] ++ after) fun n hn => ?_
    rw [← List.append_assoc, h] at hn
    exact Nat.le_of_eq (Option.some.inj hn)
  exact ⟨before, after, List.append_assoc _ _ _, rfl, not_mem_of_find hbefore⟩

theorem rfind_eq_some {needle hay : Str} {n : Nat} (h : rfind needle hay = some n) :
    ∃ before after, hay = before ++ needle ++ after ∧ len before = n := by
  induction hay generalizing n with
  | nil => exact find_eq_some h
  | cons c cs ih =>
    rw [rfind] at h
    split at h
    · rename_i m hm
      cases h
      obtain ⟨before, after, rfl, rfl⟩ := ih hm
      exact ⟨c :: before, after, rfl, rfl⟩
    · rw [Option.ite_none_right_eq_some, Option.some.injEq] at h
      obtain ⟨after, hafter⟩ := List.isPrefixOf_iff_prefix.mp h.1
      exact ⟨[], after, hafter.symm, h.2⟩

theorem find_eq_none_of_rfind {needle s : Str} (h : rfind needle s = none) :
    find needle s = none := by
  induction s with
  | nil => exact h
  | cons c s ih =>
    rw [rfind] at h
    split at h
    · cases h
    · rename_i hs
      split at h
      · cases h
      · rename_i hstart
        exact find_cons_eq_none.mpr ⟨Bool.not_eq_true _ |>.mp hstart, ih hs⟩

/-- There is nothing after the last occurrence. -/
theorem find_eq_none_of_lt {needle a b : Str} (h : ∀ n ∈ rfind needle (a ++ b), n < len a) :
    find needle b = none := by
  induction a with
  | nil =>
    refine find_eq_none_of_rfind (Option.eq_none_iff_forall_not_mem.mpr fun n hn => ?_)
    exact Nat.not_lt_zero n (h n hn)
  | cons c a ih =>
    refine ih fun n hn => ?_
    have hlt := h (c.utf8Size + n) (by rw [List.cons_append, rfind, Option.mem_def.mp hn]; rfl)
    exact Nat.lt_of_add_lt_add_left hlt

/-! ## Slices -/

theorem slice_append (a b c : Str) : slice (a ++ (b ++ c)) (len a) (len a + len b) = some b := by
  rw [slice, ← List.append_assoc, ← len_append]
  exact congrArg (Option.map _) (Splice.cut_append Char.utf8Size_pos a b c)

/-! ## Lower case -/

theorem slice_lower (a b c : Str) :
    slice (toAsciiLowercase (a ++ (b ++ c))) (len a) (len a + len b) =
      some (toAsciiLowercase b) := by
  rw [toAsciiLowercase_append, toAsciiLowercase_append, ← len_toAsciiLowercase a,
    ← len_toAsciiLowercase b]
  exact slice_append _ _ _

/-- Only letters have another lower case. -/
theorem eq_of_toLower {c d : Char} (hd : d < 'a') (h : c.toLower = d) : c = d := by
  delta Char.toLower at h
  split at h
  · rename_i hupper
    have hle : 'A'.val.toNat ≤ c.val.toNat := UInt32.le_iff_toNat_le.mp hupper.1
    have hge : c.val.toNat ≤ 'Z'.val.toNat := UInt32.le_iff_toNat_le.mp hupper.2
    have hval : (c.val + ('a'.val - 'A'.val)).toNat = c.val.toNat + 32 := by
      rw [UInt32.toNat_add]
      exact Nat.mod_eq_of_lt (Nat.lt_of_le_of_lt (Nat.add_le_add_right hge 32) (by decide))
    rw [← h] at hd
    have hlt : (c.val + ('a'.val - 'A'.val)).toNat < 97 := UInt32.lt_iff_toNat_lt.mp hd
    rw [hval] at hlt
    have : 65 ≤ c.val.toNat := hle
    omega
  · exact h

theorem starts_cons {c : Char} {marker text : Str} (hc : c < 'a')
    (h : c :: marker <+: toAsciiLowercase text) : ∃ rest, text = c :: rest := by
  obtain ⟨s, hs⟩ := h
  cases text with
  | nil => cases hs
  | cons d text =>
    obtain ⟨hd, -⟩ := List.cons.inj hs
    exact ⟨text, by rw [eq_of_toLower hc hd.symm]⟩

theorem exists_of_prefix_lower {marker s : Str} (h : marker <+: toAsciiLowercase s) :
    ∃ found after, s = found ++ after ∧ toAsciiLowercase found = marker := by
  obtain ⟨t, ht⟩ := h
  obtain ⟨found, after, rfl, hfound, -⟩ := List.map_eq_append_iff.mp ht.symm
  exact ⟨found, after, rfl, hfound⟩

/-- What is before an occurrence in lower case, and what it starts -/
theorem exists_of_lower_eq {needle s before after : Str}
    (h : toAsciiLowercase s = before ++ needle ++ after) :
    ∃ a b, s = a ++ b ∧ len a = len before ∧ needle <+: toAsciiLowercase b := by
  rw [List.append_assoc] at h
  obtain ⟨a, b, rfl, hlen, hb⟩ := of_toAsciiLowercase_append h
  exact ⟨a, b, rfl, hlen, after, hb.symm⟩

theorem find_lower {needle s : Str} {n : Nat} (h : find needle (toAsciiLowercase s) = some n) :
    ∃ a b, s = a ++ b ∧ len a = n ∧ needle <+: toAsciiLowercase b := by
  obtain ⟨before, after, hs, rfl⟩ := find_eq_some h
  exact exists_of_lower_eq hs

theorem rfind_lower {needle s : Str} {n : Nat} (h : rfind needle (toAsciiLowercase s) = some n) :
    ∃ a b, s = a ++ b ∧ len a = n ∧ needle <+: toAsciiLowercase b := by
  obtain ⟨before, after, hs, rfl⟩ := rfind_eq_some h
  exact exists_of_lower_eq hs

theorem not_has {marker : String} {text : Str}
    (h : find marker.toList (toAsciiLowercase text) = none) : ¬Has marker text := by
  rw [Has, contains, h]
  exact Bool.false_ne_true

/-! ## The first of two offsets and the last -/

theorem of_min {a b : Option Nat} {i : Nat} (h : [a, b].reduceOption.min? = some i) :
    (a = some i ∨ b = some i) ∧ (∀ n ∈ a, i ≤ n) ∧ ∀ n ∈ b, i ≤ n := by
  rw [List.min?_eq_some_iff] at h
  simp only [List.reduceOption_mem_iff, List.mem_cons, List.not_mem_nil, or_false] at h
  obtain ⟨hmem, hle⟩ := h
  exact ⟨hmem.imp Eq.symm Eq.symm, fun n hn => hle n (.inl (Option.mem_def.mp hn).symm),
    fun n hn => hle n (.inr (Option.mem_def.mp hn).symm)⟩

theorem of_max {a b : Option Nat} {i : Nat} (h : [a, b].reduceOption.max? = some i) :
    (a = some i ∨ b = some i) ∧ (∀ n ∈ a, n ≤ i) ∧ ∀ n ∈ b, n ≤ i := by
  rw [List.max?_eq_some_iff] at h
  simp only [List.reduceOption_mem_iff, List.mem_cons, List.not_mem_nil, or_false] at h
  obtain ⟨hmem, hle⟩ := h
  exact ⟨hmem.imp Eq.symm Eq.symm, fun n hn => hle n (.inl (Option.mem_def.mp hn).symm),
    fun n hn => hle n (.inr (Option.mem_def.mp hn).symm)⟩

theorem eq_none_of_max {a b : Option Nat} (h : [a, b].reduceOption.max? = none) :
    a = none ∧ b = none := by
  rw [List.max?_eq_none_iff] at h
  cases a with
  | some n => cases b <;> cases h
  | none =>
    cases b with
    | some n => cases h
    | none => exact ⟨rfl, rfl⟩

/-! ## The first line and the last -/

theorem exists_firstLine (s : Str) :
    ∃ a b, s = a ++ b ∧ len a = (find ['\n'] s).getD (len s) ∧ '\n' ∉ a ∧
      (b = [] ∨ ∃ r, b = '\n' :: r) := by
  cases hfind : find ['\n'] s with
  | none => exact ⟨s, [], (List.append_nil s).symm, rfl, not_mem_of_find hfind, .inl rfl⟩
  | some n =>
    obtain ⟨before, after, rfl, rfl, hbefore⟩ := find_char_eq_some hfind
    exact ⟨before, '\n' :: after, rfl, rfl, hbefore, .inr ⟨after, rfl⟩⟩

theorem exists_lastLine (s : Str) :
    ∃ a b, s = a ++ b ∧ len a = ((rfind ['\n'] s).map (· + 1)).getD 0 ∧ '\n' ∉ b ∧
      (a = [] ∨ ∃ r, a = r ++ ['\n']) := by
  cases hrfind : rfind ['\n'] s with
  | none =>
    exact ⟨[], s, rfl, rfl, not_mem_of_find (find_eq_none_of_rfind hrfind), .inl rfl⟩
  | some n =>
    obtain ⟨before, after, rfl, rfl⟩ := rfind_eq_some hrfind
    have hlen : len (before ++ ['\n']) = len before + 1 := len_append before ['\n']
    have hafter : find ['\n'] after = none := by
      refine find_eq_none_of_lt (a := before ++ ['\n']) fun n hn => ?_
      rw [hrfind] at hn
      rw [hlen, ← Option.some.inj hn]
      exact Nat.lt_succ_self _
    exact ⟨before ++ ['\n'], after, rfl, hlen, not_mem_of_find hafter, .inr ⟨before, rfl⟩⟩

end Seiran.Content
