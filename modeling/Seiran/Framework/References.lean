import Mathlib.Data.List.TakeWhile

/-!
# Character references

A reference is `&`, a name and `;`. A decoder goes through a text once, from left to right.
`Decoder` says what that comes to, without a table of names.

* `unfinished`: a text that ends in `&` and a part of a name.
* `Decoder.cut`, `Decoder.flatMap`: where a text is decoded in parts, and that what is escaped
  character by character is decoded to itself.
* `decoder_decode`, `countP_decode`: decoding by a table is a decoder, and shortens a text that
  it changes.
-/

namespace Seiran.References

def isName (c : Char) : Bool := c.isAlphanum || c = '#'

/-- The text ends in what may become a reference. -/
def unfinished (s : List Char) : Bool := (s.reverse.dropWhile isName).head? = some '&'

/-- No reference goes on with the character, and none starts with it. -/
def stops (c : Char) : Bool := !isName c && c ≠ ';' && c ≠ '&'

/-- No reference goes from one text into the other. -/
def Apart (s t : List Char) : Prop := unfinished s = false ∨ ∃ c ∈ t.head?, stops c = true

instance (s t : List Char) : Decidable (Apart s t) :=
  inferInstanceAs (Decidable (_ ∨ ∃ c ∈ t.head?, _))

structure Decoder (D : List Char → List Char) : Prop where
  plain {s : List Char} : '&' ∉ s → D s = s
  append {s t : List Char} : Apart s t → D (s ++ t) = D s ++ D t

/-! ## Unfinished texts -/

theorem unfinished_append_singleton (s : List Char) (c : Char) :
    unfinished (s ++ [c]) = (decide (c = '&') || (isName c && unfinished s)) := by
  rw [unfinished, List.reverse_append, List.reverse_singleton, List.singleton_append,
    List.dropWhile_cons]
  by_cases hname : isName c = true
  · have hne : c ≠ '&' := by
      rintro rfl
      exact absurd hname (by decide)
    simp [hname, hne, unfinished]
  · simp [hname]

theorem unfinished_append_of_not_isName (s : List Char) {c : Char} (hname : isName c = false)
    (hamp : c ≠ '&') : unfinished (s ++ [c]) = false := by
  simp [unfinished_append_singleton, hname, hamp]

theorem unfinished_of_suffix {s t : List Char} (hsuffix : s <:+ t) (h : unfinished s = true) :
    unfinished t = true := by
  obtain ⟨before, rfl⟩ := hsuffix
  rw [unfinished, decide_eq_true_iff] at h ⊢
  rw [List.reverse_append, List.dropWhile_append]
  cases hdrop : s.reverse.dropWhile isName with
  | nil => simp [hdrop] at h
  | cons c rest =>
    rw [hdrop] at h
    exact h

theorem finished_of_suffix {s t : List Char} (hsuffix : s <:+ t) (h : unfinished t = false) :
    unfinished s = false := by
  rw [← Bool.not_eq_true] at h ⊢
  exact mt (unfinished_of_suffix hsuffix) h

theorem dropWhile_ne_nil {rest : List Char} (h : unfinished ('&' :: rest) = false) :
    rest.dropWhile isName ≠ [] := by
  intro hnil
  have hall : ∀ c ∈ rest.reverse, isName c = true := fun c hc =>
    List.dropWhile_eq_nil_iff.mp hnil c (List.mem_reverse.mp hc)
  rw [unfinished, List.reverse_cons, List.dropWhile_append_of_pos hall] at h
  exact absurd h (by decide)

theorem Apart.of_suffix {s s' t : List Char} (h : Apart s t) (hsuffix : s' <:+ s) : Apart s' t :=
  h.imp_left (finished_of_suffix hsuffix)

theorem Apart.append_right {s t : List Char} (h : Apart s t) (u : List Char) :
    Apart s (t ++ u) := by
  refine h.imp_right ?_
  rintro ⟨c, hhead, hstop⟩
  obtain ⟨t', rfl⟩ := List.head?_eq_some_iff.mp hhead
  exact ⟨c, rfl, hstop⟩

theorem Apart.of_head? {s t t' : List Char} (h : Apart s t) (hhead : t'.head? = t.head?) :
    Apart s t' := by
  rw [Apart, hhead]
  exact h

/-! ## Decoders -/

namespace Decoder

variable {D : List Char → List Char} (hD : Decoder D)

include hD

theorem nil : D [] = [] := hD.plain List.not_mem_nil

/-- A character that is no `&` is copied. -/
theorem cons {c : Char} (hamp : c ≠ '&') (t : List Char) : D (c :: t) = c :: D t := by
  have hfinished : unfinished [c] = false := by
    refine (unfinished_append_singleton [] c).trans ?_
    simp [hamp, unfinished]
  have hplain : D [c] = [c] := hD.plain fun h => hamp (List.mem_singleton.mp h).symm
  calc D (c :: t) = D [c] ++ D t := hD.append (.inl hfinished)
    _ = c :: D t := by rw [hplain]; rfl

/-- A text is decoded in parts around a character that no reference has. -/
theorem cut (s t : List Char) {c : Char} (hstop : stops c = true) :
    D (s ++ c :: t) = D s ++ c :: D t := by
  have hamp : c ≠ '&' := by
    rintro rfl
    exact absurd hstop (by decide)
  rw [hD.append (.inr ⟨c, rfl, hstop⟩), hD.cons hamp]

/-- What is escaped character by character is decoded to itself. -/
theorem flatMap {e : Char → List Char} (he : ∀ c, D (e c) = [c])
    (hfinished : ∀ c, unfinished (e c) = false) (s t : List Char) :
    D (s.flatMap e ++ t) = s ++ D t := by
  induction s with
  | nil => rfl
  | cons c s ih =>
    rw [List.flatMap_cons, List.append_assoc, hD.append (.inl (hfinished c)), he, ih]
    rfl

end Decoder

/-! ## Decoding by a table -/

section

variable (lookup : List Char → Option (List Char))

/-- What a name stands for, where a `;` comes after it -/
def ended : Option (List Char) → List Char → Option (List Char × List Char)
  | some chars, ';' :: rest => some (chars, rest)
  | _, _ => none

/-- The reference that is after an `&`: its characters, and what comes after it -/
def reference (rest : List Char) : Option (List Char × List Char) :=
  ended (lookup (rest.takeWhile isName)) (rest.dropWhile isName)

theorem ended_nil (found : Option (List Char)) : ended found [] = none := by
  cases found <;> rfl

theorem ended_cons (found : Option (List Char)) (c : Char) (rest : List Char) :
    ended found (c :: rest) = if c = ';' then found.map fun chars => (chars, rest) else none := by
  by_cases hsemi : c = ';'
  · subst hsemi
    cases found <;> rfl
  · rw [if_neg hsemi]
    unfold ended
    split
    · rename_i hcons
      exact absurd (List.cons.inj hcons).1 hsemi
    · rfl

theorem eq_of_reference {rest chars rest' : List Char}
    (h : reference lookup rest = some (chars, rest')) :
    ∃ name, lookup name = some chars ∧ rest = name ++ ';' :: rest' := by
  refine ⟨rest.takeWhile isName, ?_⟩
  rw [reference] at h
  cases hdrop : rest.dropWhile isName with
  | nil =>
    rw [hdrop, ended_nil] at h
    cases h
  | cons c after =>
    rw [hdrop, ended_cons, Option.ite_none_right_eq_some, Option.map_eq_some_iff] at h
    obtain ⟨rfl, chars', hlookup, heq⟩ := h
    obtain ⟨rfl, rfl⟩ := Prod.mk.inj heq
    refine ⟨hlookup, ?_⟩
    rw [← hdrop, List.takeWhile_append_dropWhile]

theorem suffix_of_reference {rest chars rest' : List Char}
    (h : reference lookup rest = some (chars, rest')) : rest' <:+ rest := by
  obtain ⟨name, -, rfl⟩ := eq_of_reference lookup h
  exact (List.suffix_cons ';' rest').trans (List.suffix_append name _)

def decode : List Char → List Char
  | [] => []
  | c :: rest =>
    if c = '&' then
      match _h : reference lookup rest with
      | some (chars, rest') => chars ++ decode rest'
      | none => '&' :: decode rest
    else c :: decode rest
termination_by s => s.length
decreasing_by
  · exact Nat.lt_succ_of_le (suffix_of_reference lookup _h).length_le
  · exact Nat.lt_succ_self _
  · exact Nat.lt_succ_self _

variable {lookup}

theorem decode_reference {rest chars rest' : List Char}
    (href : reference lookup rest = some (chars, rest')) :
    decode lookup ('&' :: rest) = chars ++ decode lookup rest' := by
  rw [decode, if_pos rfl]
  split
  · rename_i heq
    obtain ⟨rfl, rfl⟩ := Prod.mk.inj (Option.some.inj (heq.symm.trans href))
    rfl
  · rename_i heq
    cases heq.symm.trans href

theorem decode_no_reference {rest : List Char} (href : reference lookup rest = none) :
    decode lookup ('&' :: rest) = '&' :: decode lookup rest := by
  rw [decode, if_pos rfl]
  split
  · rename_i heq
    cases heq.symm.trans href
  · rfl

theorem decode_cons {c : Char} (hc : c ≠ '&') (rest : List Char) :
    decode lookup (c :: rest) = c :: decode lookup rest := by
  rw [decode, if_neg hc]

theorem reference_eq {name : List Char} (hname : ∀ c ∈ name, isName c = true) {c : Char}
    (hc : isName c = false) (rest : List Char) :
    reference lookup (name ++ c :: rest) = ended (lookup name) (c :: rest) := by
  have hnot : ¬isName c = true := by
    rw [hc]
    exact Bool.false_ne_true
  rw [reference, List.takeWhile_append_of_pos hname, List.dropWhile_append_of_pos hname,
    List.takeWhile_cons_of_neg hnot, List.dropWhile_cons_of_neg hnot, List.append_nil]

/-- What comes after a text does not change its reference. -/
theorem reference_append {rest t : List Char} (h : Apart ('&' :: rest) t) :
    reference lookup (rest ++ t) = (reference lookup rest).map fun p => (p.1, p.2 ++ t) := by
  have hname : ∀ c ∈ rest.takeWhile isName, isName c = true := fun _ hc =>
    List.mem_takeWhile_imp hc
  have hsplit : rest.takeWhile isName ++ rest.dropWhile isName = rest :=
    List.takeWhile_append_dropWhile
  cases hdrop : rest.dropWhile isName with
  | nil =>
    obtain hfinished | ⟨c, hhead, hstop⟩ := h
    · exact absurd hdrop (dropWhile_ne_nil hfinished)
    · obtain ⟨t', rfl⟩ := List.head?_eq_some_iff.mp hhead
      simp only [stops, Bool.and_eq_true, Bool.not_eq_true', decide_eq_true_iff] at hstop
      obtain ⟨⟨hc, hsemi⟩, -⟩ := hstop
      rw [hdrop, List.append_nil] at hsplit
      rw [hsplit] at hname
      have hnone : reference lookup rest = none := by
        rw [reference, hdrop, ended_nil]
      rw [hnone, reference_eq hname hc, ended_cons, if_neg hsemi]
      rfl
  | cons d after =>
    have hd : isName d = false := by
      have hnot := List.head?_dropWhile_not isName rest
      simpa [hdrop] using hnot
    rw [hdrop] at hsplit
    rw [← hsplit, List.append_assoc, reference_eq hname hd, List.cons_append,
      reference_eq hname hd, ended_cons, ended_cons]
    by_cases hsemi : d = ';'
    · rw [if_pos hsemi, if_pos hsemi, Option.map_map]
      rfl
    · rw [if_neg hsemi, if_neg hsemi]
      rfl

/-- A text is decoded in parts where no reference is cut. -/
theorem decode_append {s t : List Char} (h : Apart s t) :
    decode lookup (s ++ t) = decode lookup s ++ decode lookup t := by
  fun_induction decode lookup s with
  | case1 => rw [List.nil_append, List.nil_append]
  | case2 rest chars rest' href ih =>
    have hsuffix : rest' <:+ '&' :: rest :=
      (suffix_of_reference lookup href).trans (List.suffix_cons _ _)
    have href' : reference lookup (rest ++ t) = some (chars, rest' ++ t) := by
      rw [reference_append h, href]
      rfl
    rw [List.cons_append, decode_reference href', ih (h.of_suffix hsuffix),
      List.append_assoc]
  | case3 rest href ih =>
    have href' : reference lookup (rest ++ t) = none := by
      rw [reference_append h, href]
      rfl
    rw [List.cons_append, decode_no_reference href',
      ih (h.of_suffix (List.suffix_cons _ _)), List.cons_append]
  | case4 c rest hc ih =>
    rw [List.cons_append, decode_cons hc,
      ih (h.of_suffix (List.suffix_cons _ _)), List.cons_append]

/-- Decoding by a table reads a text once. -/
theorem decoder_decode (lookup : List Char → Option (List Char)) : Decoder (decode lookup) where
  plain {s} hamp := by
    induction s with
    | nil => rw [decode]
    | cons c s ih =>
      obtain ⟨hc, hs⟩ := not_or.mp fun h => hamp (List.mem_cons.mpr h)
      rw [decode_cons (Ne.symm hc), ih hs]
  append h := decode_append h

/-- Where a name is no shorter than what it stands for, decoding that changes a text shortens it. -/
theorem countP_decode {p : Char → Bool} (hamp : p '&' = true)
    (hlookup : ∀ name chars, lookup name = some chars → chars.countP p ≤ name.countP p)
    (s : List Char) : decode lookup s = s ∨ (decode lookup s).countP p < s.countP p := by
  fun_induction decode lookup s with
  | case1 => exact .inl rfl
  | case2 rest chars rest' href ih =>
    obtain ⟨name, hname, rfl⟩ := eq_of_reference lookup href
    have hle : (decode lookup rest').countP p ≤ rest'.countP p := by
      obtain heq | hlt := ih
      · rw [heq]
      · exact Nat.le_of_lt hlt
    have hchars := hlookup name chars hname
    refine .inr ?_
    rw [List.countP_append, List.countP_cons, List.countP_append, List.countP_cons, if_pos hamp]
    omega
  | case3 rest href ih =>
    obtain heq | hlt := ih
    · exact .inl (congrArg _ heq)
    · rw [List.countP_cons, List.countP_cons]
      exact .inr (Nat.add_lt_add_right hlt _)
  | case4 c rest hc ih =>
    obtain heq | hlt := ih
    · exact .inl (congrArg _ heq)
    · rw [List.countP_cons, List.countP_cons]
      exact .inr (Nat.add_lt_add_right hlt _)

end

end Seiran.References
