import Seiran.Model.Inbox.Markdown
import Seiran.Proof.Inbox.Rewriting
import Seiran.Proof.Inbox.Whitespace

/-!
# What is decoded once

* `scan_append`, `scan_opened`: the pieces of a text with another text in it;
* `markdownText_eq`: what is decoded is what the pieces are written as;
* `decode_escape`, `trim_infix`: an escaped text is there again when it is decoded once;
* `decode_segment`: what stands for an anchor is decoded again;
* `decodedOnce_iff`: where a text in the HTML is decoded once.
-/

namespace Seiran.Content

open Lists (isWhitespace)
open References (Apart Decoder unfinished)

/-! ## What comes after a text -/

theorem isClosing_append {c : Char} {rest : Str} (h : c = '<' → '>' ∈ rest) (s : Str) :
    isClosing (c :: (rest ++ s)) = isClosing (c :: rest) := by
  by_cases hc : c = '<'
  · subst hc
    match rest, h rfl with
    | [d], hmem =>
      obtain rfl := List.mem_singleton.mp hmem
      cases s <;> simp [isClosing, toAsciiLowercase]
    | d :: d' :: rest, hmem => rfl
  · simp [isClosing, hc]

theorem tagInner_append {rest : Str} (h : '>' ∈ rest) (s : Str) :
    tagInner (rest ++ s) = tagInner rest ∧ afterTag (rest ++ s) = afterTag rest ++ s := by
  induction rest with
  | nil => cases h
  | cons c rest ih =>
    by_cases hc : c = '>'
    · subst hc
      exact ⟨rfl, rfl⟩
    · obtain ⟨hinner, hafter⟩ := ih ((List.mem_cons.mp h).resolve_left (Ne.symm hc))
      rw [List.cons_append, tagInner_cons hc, tagInner_cons hc, afterTag_cons hc, afterTag_cons hc,
        hinner, hafter]
      exact ⟨rfl, rfl⟩

theorem wholeTag_append_of_mem {rest : Str} (h : '>' ∈ rest) (s : Str) :
    wholeTag (rest ++ s) = wholeTag rest := by
  have happend := wholeTag_append (rest ++ s)
  rw [(tagInner_append h s).2, ← List.append_assoc] at happend
  have hcancel := List.append_cancel_right (happend.trans
    (congrArg (· ++ s) (wholeTag_append rest).symm))
  exact List.append_cancel_right hcancel

theorem mem_of_getLast_wholeTag {rest : Str} (h : (wholeTag rest).getLast? = some '>') :
    '>' ∈ rest := by
  have hmem : '>' ∈ wholeTag rest := List.mem_of_getLast? h
  have hle : '>' ∈ '<' :: rest := wholeTag_append rest ▸ List.mem_append_left _ hmem
  exact (List.mem_cons.mp hle).resolve_left (by decide)

/-- A content that has its closing tag keeps it. -/
theorem splitClosing_append_of_closing {chars : Str}
    (h : '>' ∈ (splitClosing chars).2) (s : Str) :
    splitClosing (chars ++ s) = ((splitClosing chars).1, (splitClosing chars).2 ++ s) := by
  induction chars with
  | nil => cases h
  | cons c rest ih =>
    rw [splitClosing] at h
    by_cases hclosing : isClosing (c :: rest) = true
    · rw [if_pos hclosing] at h
      have hmem : c = '<' → '>' ∈ rest := fun hc =>
        (List.mem_cons.mp h).resolve_left (by rw [hc]; decide)
      rw [List.cons_append, splitClosing, splitClosing, isClosing_append hmem, if_pos hclosing,
        if_pos hclosing, List.cons_append]
    · rw [if_neg hclosing] at h
      have hmem : '>' ∈ rest := splitClosing_append rest ▸ List.mem_append_right _ h
      rw [List.cons_append, splitClosing, splitClosing, isClosing_append fun _ => hmem,
        if_neg hclosing, if_neg hclosing, ih h]

theorem mem_of_inTagAfter {chars : Str} (h : inTagAfter chars true = false) : '>' ∈ chars := by
  induction chars with
  | nil => cases h
  | cons c rest ih =>
    by_cases hc : c = '>'
    · exact hc ▸ List.mem_cons_self
    · rw [inTagAfter, if_neg hc, Bool.or_true] at h
      exact List.mem_cons_of_mem c (ih h)

/-- A content without a closing tag, and in no tag at its end, goes on with what comes after. -/
theorem splitClosing_append_of_plain {chars : Str} {inInnerTag : Bool}
    (hclosing : (splitClosing chars).2 = []) (htag : inTagAfter chars inInnerTag = false)
    (s : Str) :
    splitClosing (chars ++ s) = (chars ++ (splitClosing s).1, (splitClosing s).2) := by
  induction chars generalizing inInnerTag with
  | nil => rfl
  | cons c rest ih =>
    rw [splitClosing] at hclosing
    split at hclosing
    · cases hclosing
    · rename_i hnot
      rw [inTagAfter] at htag
      have hmem : c = '<' → '>' ∈ rest := by
        intro hc
        rw [hc, if_neg (by decide), decide_eq_true rfl, Bool.true_or] at htag
        exact mem_of_inTagAfter htag
      have hrest : ∃ b, inTagAfter rest b = false := by
        split at htag
        · exact ⟨_, htag⟩
        · exact ⟨_, htag⟩
      obtain ⟨b, hb⟩ := hrest
      rw [List.cons_append, splitClosing, isClosing_append hmem, if_neg hnot, ih hclosing hb,
        List.cons_append]

theorem plain_append (chars s : Str) (inInnerTag : Bool) :
    plain (chars ++ s) inInnerTag =
      plain chars inInnerTag ++ plain s (inTagAfter chars inInnerTag) := by
  induction chars generalizing inInnerTag with
  | nil => rfl
  | cons c rest ih =>
    rw [List.cons_append, plain, plain, inTagAfter]
    split
    · exact ih false
    · split
      · rename_i htag
        rw [ih, htag]
      · rename_i htag
        rw [ih, Bool.not_eq_true _ |>.mp htag, List.cons_append]

theorem mem_of_mem_afterTag {c : Char} {chars : Str} (h : c ∈ afterTag chars) : c ∈ chars :=
  (List.dropWhile_sublist _).subset ((List.drop_sublist 1 _).subset h)

/-- An anchor that has its last `>` is the same whatever comes after it. -/
theorem anchorAt_append {rest : Str}
    (h : (Piece.anchor (anchorAt rest)).isComplete = true) (s : Str) :
    tagInner (rest ++ s) = tagInner rest ∧ anchorAt (rest ++ s) = anchorAt rest ∧
      afterAnchor (rest ++ s) = afterAnchor rest ++ s := by
  obtain hnil | ⟨closing, hsplit, -⟩ := splitClosing_snd (afterTag rest)
  · rw [Piece.isComplete, anchorAt, hnil] at h
    cases h
  · have hclosing : '>' ∈ closing := by
      rw [Piece.isComplete, anchorAt, hsplit] at h
      exact mem_of_getLast_wholeTag (of_decide_eq_true h)
    have hmem : '>' ∈ (splitClosing (afterTag rest)).2 := by
      rw [hsplit]
      exact List.mem_cons_of_mem _ hclosing
    have hrest : '>' ∈ rest := by
      refine mem_of_mem_afterTag ?_
      rw [← splitClosing_append (afterTag rest)]
      exact List.mem_append_right _ hmem
    have hafter : splitClosing (afterTag (rest ++ s)) =
        ((splitClosing (afterTag rest)).1, (splitClosing (afterTag rest)).2 ++ s) := by
      rw [(tagInner_append hrest s).2, splitClosing_append_of_closing hmem]
    refine ⟨(tagInner_append hrest s).1, ?_, ?_⟩
    · rw [anchorAt, anchorAt, hafter, wholeTag_append_of_mem hrest, hsplit, List.cons_append,
        closingTag, closingTag, wholeTag_append_of_mem hclosing]
    · rw [afterAnchor, afterAnchor, hafter, (tagInner_append hmem s).2]

/-! ## Pieces -/

/-- The pieces of a text with nothing left open come before those of what comes after it. -/
theorem scan_append {before : Str} (h : ∀ p ∈ scan before, p.isComplete = true) (s : Str) :
    scan (before ++ s) = scan before ++ scan s := by
  fun_induction scan before with
  | case1 => rfl
  | case2 c rest hc ih =>
    rw [List.cons_append, scan, if_pos hc, ih fun p hp => h p (List.mem_cons_of_mem _ hp),
      List.cons_append]
  | case3 c rest hc hopen ih =>
    have hmem := mem_of_getLast_wholeTag (of_decide_eq_true (h _ List.mem_cons_self))
    rw [List.cons_append, scan, if_neg hc, (tagInner_append hmem s).1, if_pos hopen,
      wholeTag_append_of_mem hmem, (tagInner_append hmem s).2,
      ih fun p hp => h p (List.mem_cons_of_mem _ hp), List.cons_append]
  | case4 c rest hc hopen ih =>
    obtain ⟨hinner, hanchor, hafter⟩ := anchorAt_append (h _ List.mem_cons_self) s
    rw [List.cons_append, scan, if_neg hc, hinner, if_neg hopen, hanchor, hafter,
      ih fun p hp => h p (List.mem_cons_of_mem _ hp), List.cons_append]

/-- The pieces of a text without tags -/
theorem scan_plain {t : Str} (h : '<' ∉ t) (s : Str) : scan (t ++ s) = t.map .char ++ scan s := by
  induction t with
  | nil => rfl
  | cons c t ih =>
    obtain ⟨hc, ht⟩ := not_or.mp fun hmem => h (List.mem_cons.mpr hmem)
    rw [List.cons_append, scan, if_pos (Ne.symm hc), ih ht, List.map_cons, List.cons_append]

section

variable (E : Env) (tags : List Json) (senderDomain : Str)

theorem flatMap_takeText (textBuf : Str) :
    (takeText textBuf).flatMap (HtmlSegment.markdown tags senderDomain) = textBuf := by
  cases textBuf with
  | nil => rfl
  | cons c textBuf => exact List.append_nil _

theorem flatMap_segments (textBuf : Str) (pieces : List Piece) :
    (segments E textBuf pieces).flatMap (HtmlSegment.markdown tags senderDomain) =
      textBuf ++ pieces.flatMap (Piece.written E tags senderDomain) := by
  induction pieces generalizing textBuf with
  | nil => rw [segments, flatMap_takeText, List.flatMap_nil, List.append_nil]
  | cons p pieces ih =>
    rw [List.flatMap_cons, ← List.append_assoc]
    cases p with
    | char c => exact ih _
    | tag whole => exact ih _
    | anchor a =>
      rw [segments, List.flatMap_append, List.flatMap_append, flatMap_takeText, ih, Piece.written]
      simp only [List.append_assoc]

/-- What is decoded is what the pieces are written as. -/
theorem markdownText_eq (html : Str) :
    markdownText E tags senderDomain html =
      E.decodeHtmlEntities ((scan html).flatMap (Piece.written E tags senderDomain)) := by
  rw [markdownText, tokenizeAnchors_eq, flatMap_segments, List.nil_append]

end

/-! ## Escaped texts -/

theorem replace_append (c : Char) (by_ s t : Str) :
    replace c by_ (s ++ t) = replace c by_ s ++ replace c by_ t := List.flatMap_append

theorem escapeHtmlText_append (s t : Str) :
    escapeHtmlText (s ++ t) = escapeHtmlText s ++ escapeHtmlText t := by
  simp only [escapeHtmlText, escapeHtmlAttr, replace_append]

/-- A text is escaped character by character. -/
theorem escapeHtmlText_eq (t : Str) : escapeHtmlText t = t.flatMap fun c => escapeHtmlText [c] := by
  induction t with
  | nil => rfl
  | cons c t ih =>
    rw [List.flatMap_cons, ← ih, ← escapeHtmlText_append]
    rfl

theorem replace_singleton {c d : Char} (h : d ≠ c) (by_ : Str) : replace c by_ [d] = [d] := by
  rw [replace, List.flatMap_cons, if_neg h]
  rfl

/-- What a character is escaped to -/
theorem forall_escape {P : Char → Str → Prop} (amp : P '&' "&amp;".toList)
    (quot : P '"' "&quot;".toList) (lt : P '<' "&lt;".toList) (gt : P '>' "&gt;".toList)
    (other : ∀ c, c ≠ '&' → c ≠ '<' → c ≠ '>' → P c [c]) (c : Char) :
    P c (escapeHtmlText [c]) := by
  have hamp : escapeHtmlText ['&'] = "&amp;".toList := by decide
  have hquot : escapeHtmlText ['"'] = "&quot;".toList := by decide
  have hlt : escapeHtmlText ['<'] = "&lt;".toList := by decide
  have hgt : escapeHtmlText ['>'] = "&gt;".toList := by decide
  by_cases h₁ : c = '&'
  · rw [h₁, hamp]
    exact amp
  · by_cases h₂ : c = '"'
    · rw [h₂, hquot]
      exact quot
    · by_cases h₃ : c = '<'
      · rw [h₃, hlt]
        exact lt
      · by_cases h₄ : c = '>'
        · rw [h₄, hgt]
          exact gt
        · have hother : escapeHtmlText [c] = [c] := by
            rw [escapeHtmlText, escapeHtmlAttr, replace_singleton h₁, replace_singleton h₂,
              replace_singleton h₃, replace_singleton h₄]
          rw [hother]
          exact other c h₁ h₃ h₄

theorem not_mem_escapeHtmlText (t : Str) :
    '<' ∉ escapeHtmlText t ∧ '>' ∉ escapeHtmlText t := by
  have hchar (c : Char) : '<' ∉ escapeHtmlText [c] :=
    forall_escape (P := fun _ s => '<' ∉ s) (by decide) (by decide) (by decide) (by decide)
      (fun _ _ hlt _ h => hlt (List.mem_singleton.mp h).symm) c
  refine ⟨?_, not_mem_escapeHtmlAttr t⟩
  rw [escapeHtmlText_eq]
  intro h
  obtain ⟨c, -, hc⟩ := List.mem_flatMap.mp h
  exact hchar c hc

theorem finished_escape (c : Char) : unfinished (escapeHtmlText [c]) = false := by
  refine forall_escape (P := fun _ s => unfinished s = false) (by decide) (by decide) (by decide)
    (by decide) ?_ c
  intro c hamp _ _
  refine (References.unfinished_append_singleton [] c).trans ?_
  simp [hamp, unfinished]

/-- White space is not escaped. -/
theorem escapeHtmlText_of_isWhitespace {s : Str} (h : ∀ c ∈ s, isWhitespace c = true) :
    escapeHtmlText s = s := by
  have hchar (c : Char) : isWhitespace c = true → escapeHtmlText [c] = [c] :=
    forall_escape (P := fun c s => isWhitespace c = true → s = [c]) (by decide) (by decide)
      (by decide) (by decide) (fun _ _ _ _ _ => rfl) c
  induction s with
  | nil => rfl
  | cons c s ih =>
    have htail : escapeHtmlText s = s := ih fun d hd => h d (List.mem_cons_of_mem c hd)
    calc escapeHtmlText (c :: s) = escapeHtmlText [c] ++ escapeHtmlText s :=
        escapeHtmlText_append [c] s
      _ = c :: s := by rw [hchar c (h c List.mem_cons_self), htail]; rfl

theorem escape_ends {c : Char} (hc : isWhitespace c = false) :
    (∃ d r, escapeHtmlText [c] = d :: r ∧ isWhitespace d = false) ∧
      ∃ r d, escapeHtmlText [c] = r ++ [d] ∧ isWhitespace d = false := by
  have hsemi : isWhitespace ';' = false := by decide
  have hamp : isWhitespace '&' = false := by decide
  refine forall_escape (P := fun c s => isWhitespace c = false →
    (∃ d r, s = d :: r ∧ isWhitespace d = false) ∧ ∃ r d, s = r ++ [d] ∧ isWhitespace d = false)
    (fun _ => ⟨⟨'&', ['a', 'm', 'p', ';'], by decide, hamp⟩,
      ⟨['&', 'a', 'm', 'p'], ';', by decide, hsemi⟩⟩)
    (fun _ => ⟨⟨'&', ['q', 'u', 'o', 't', ';'], by decide, hamp⟩,
      ⟨['&', 'q', 'u', 'o', 't'], ';', by decide, hsemi⟩⟩)
    (fun _ => ⟨⟨'&', ['l', 't', ';'], by decide, hamp⟩, ⟨['&', 'l', 't'], ';', by decide, hsemi⟩⟩)
    (fun _ => ⟨⟨'&', ['g', 't', ';'], by decide, hamp⟩, ⟨['&', 'g', 't'], ';', by decide, hsemi⟩⟩)
    (fun c _ _ _ hc => ⟨⟨c, [], rfl, hc⟩, ⟨[], c, rfl, hc⟩⟩) c hc

/-- What is left when a text is trimmed starts and ends in no white space when it is escaped. -/
theorem escape_trim_ends {t : Str} (h : trim t ≠ []) :
    (∃ c r, escapeHtmlText (trim t) = c :: r ∧ isWhitespace c = false) ∧
      ∃ r c, escapeHtmlText (trim t) = r ++ [c] ∧ isWhitespace c = false := by
  constructor
  · obtain ⟨c, m, hm⟩ := List.exists_cons_of_ne_nil h
    obtain ⟨d, r, hd, hws⟩ := (escape_ends (isWhitespace_of_trim_cons hm)).1
    refine ⟨d, r ++ escapeHtmlText m, ?_, hws⟩
    rw [hm, ← List.singleton_append, escapeHtmlText_append, hd, List.cons_append]
  · obtain ⟨m, c, hm⟩ := List.eq_nil_or_concat (trim t) |>.resolve_left h
    rw [List.concat_eq_append] at hm
    obtain ⟨r, d, hd, hws⟩ := (escape_ends (isWhitespace_of_trim_concat hm)).2
    refine ⟨escapeHtmlText m ++ r, d, ?_, hws⟩
    rw [hm, escapeHtmlText_append, hd, List.append_assoc]

theorem isName_of_isWhitespace {c : Char} (h : isWhitespace c = true) :
    References.isName c = false := by
  have hne : c ≠ '#' := by
    rintro rfl
    exact absurd h (by decide)
  have hnat : c.val.toNat = c.toNat := rfl
  simp only [isWhitespace, Bool.or_eq_true, Bool.and_eq_true, decide_eq_true_eq,
    List.contains_cons, List.contains_nil, beq_iff_eq, Bool.or_false] at h
  delta References.isName Char.isAlphanum Char.isAlpha Char.isUpper Char.isLower Char.isDigit
  simp only [hne, decide_false, Bool.or_false, Bool.or_eq_false_iff, Bool.and_eq_false_iff,
    UInt32.le_iff_toNat_le, ge_iff_le, decide_eq_false_iff_not]
  refine ⟨⟨?_, ?_⟩, ?_⟩ <;> simp <;> omega

theorem finished_of_isWhitespace (s : Str) {c : Char} (hc : isWhitespace c = true) :
    unfinished (s ++ [c]) = false := by
  refine References.unfinished_append_of_not_isName s (isName_of_isWhitespace hc) ?_
  rintro rfl
  exact absurd hc (by decide)

section

variable {E : Env} (hE : E.Decodes)

include hE

/-- What is escaped is decoded to itself, whatever comes after it. -/
theorem decode_escape (t s : Str) :
    E.decodeHtmlEntities (escapeHtmlText t ++ s) = t ++ E.decodeHtmlEntities s := by
  have hchar (c : Char) : E.decodeHtmlEntities (escapeHtmlText [c]) = [c] :=
    forall_escape (P := fun c s => E.decodeHtmlEntities s = [c]) hE.amp hE.quot hE.lt hE.gt
      (fun c hamp _ _ => hE.decoder.plain fun h => hamp (List.mem_singleton.mp h).symm) c
  rw [escapeHtmlText_eq]
  exact hE.decoder.flatMap hchar finished_escape t s

/-- A text that is escaped between two others is there when they are trimmed and decoded. -/
theorem trim_infix {x t : Str} (y : Str) (hx : Apart x (escapeHtmlText t)) :
    trim t <:+: E.decodeHtmlEntities (trim (x ++ (escapeHtmlText t ++ y))) := by
  by_cases hnil : trim t = []
  · rw [hnil]
    exact List.nil_infix
  · obtain ⟨before, after, ht, hbefore, hafter⟩ := exists_trim t
    obtain ⟨hstart, hend⟩ := escape_trim_ends hnil
    have hescape : escapeHtmlText t = before ++ (escapeHtmlText (trim t) ++ after) := by
      conv_lhs => rw [ht, escapeHtmlText_append, escapeHtmlText_append,
        escapeHtmlText_of_isWhitespace hbefore, escapeHtmlText_of_isWhitespace hafter]
    have htrim : trim (x ++ (escapeHtmlText t ++ y)) =
        trimStart (x ++ before) ++ (escapeHtmlText (trim t) ++ trimEnd (after ++ y)) := by
      rw [hescape, List.append_assoc, List.append_assoc, ← List.append_assoc x,
        trim_around hstart hend]
    have hapart : Apart (trimStart (x ++ before))
        (escapeHtmlText (trim t) ++ trimEnd (after ++ y)) := by
      refine Apart.of_suffix ?_ (trimStart_suffix _)
      obtain rfl | ⟨before', c, rfl⟩ := List.eq_nil_or_concat before
      · obtain ⟨c, r, hc, -⟩ := hstart
        rw [List.append_nil]
        refine hx.of_head? ?_
        rw [hescape, hc]
        rfl
      · rw [List.concat_eq_append] at hbefore ⊢
        have hc : isWhitespace c = true := hbefore c (List.mem_append_right _ List.mem_cons_self)
        rw [← List.append_assoc]
        exact .inl (finished_of_isWhitespace _ hc)
    rw [htrim, hE.decoder.append hapart, decode_escape hE, ← List.append_assoc]
    exact List.infix_append _ _ _

end

/-! ## The anchor around a text -/

theorem inTagAfter_of_not_mem {s : Str} (hlt : '<' ∉ s) : inTagAfter s false = false := by
  induction s with
  | nil => rfl
  | cons c s ih =>
    obtain ⟨hc, hs⟩ := not_or.mp fun h => hlt (List.mem_cons.mpr h)
    rw [inTagAfter, decide_eq_false (Ne.symm hc), Bool.or_false, ite_self, ih hs]

theorem plain_of_not_mem {s : Str} (hlt : '<' ∉ s) (hgt : '>' ∉ s) : plain s false = s := by
  induction s with
  | nil => rfl
  | cons c s ih =>
    obtain ⟨hc, hs⟩ := not_or.mp fun h => hlt (List.mem_cons.mpr h)
    obtain ⟨hc', hs'⟩ := not_or.mp fun h => hgt (List.mem_cons.mpr h)
    rw [plain, if_neg (Ne.symm hc'), decide_eq_false (Ne.symm hc), Bool.or_false,
      if_neg Bool.false_ne_true, ih hs hs']

theorem splitClosing_of_not_mem {s : Str} (hlt : '<' ∉ s) (t : Str) :
    splitClosing (s ++ t) = (s ++ (splitClosing t).1, (splitClosing t).2) := by
  induction s with
  | nil => rfl
  | cons c s ih =>
    obtain ⟨hc, hs⟩ := not_or.mp fun h => hlt (List.mem_cons.mpr h)
    have hopen : ¬isClosing (c :: (s ++ t)) = true := fun h => hc (eq_of_isClosing h).symm
    rw [List.cons_append, splitClosing, if_neg hopen, ih hs, List.cons_append]

section

variable {tag inner : Str} (htag : '>' ∉ tag)

include htag

theorem tagInner_opened (after t : Str) : tagInner (Place.opened tag inner after t) = tag ∧
    afterTag (Place.opened tag inner after t) = inner ++ (escapeHtmlText t ++ after) :=
  tag_append htag _

variable (hclosing : (splitClosing inner).2 = []) (hinner : inTagAfter inner false = false)

include hclosing hinner

theorem splitClosing_opened (after t : Str) :
    splitClosing (afterTag (Place.opened tag inner after t)) =
      (inner ++ (escapeHtmlText t ++ (splitClosing after).1), (splitClosing after).2) := by
  rw [(tagInner_opened htag after t).2, splitClosing_append_of_plain hclosing hinner,
    splitClosing_of_not_mem (not_mem_escapeHtmlText t).1]

/-- The text of the anchor around a text -/
theorem text_opened (E : Env) (after t : Str) :
    (anchorAt (Place.opened tag inner after t)).text E =
      E.decodeHtmlEntities (trim (plain inner false ++
        (escapeHtmlText t ++ plain (splitClosing after).1 false))) := by
  obtain ⟨hlt, hgt⟩ := not_mem_escapeHtmlText t
  rw [Anchor.text, anchorAt, splitClosing_opened htag hclosing hinner, plain_append, hinner,
    plain_append, plain_of_not_mem hlt hgt, inTagAfter_of_not_mem hlt]

/-- The pieces of a text with an anchor around another text -/
theorem scan_opened (hopen : isAnchorOpen tag = true) (after t : Str) :
    scan ('<' :: Place.opened tag inner after t) =
      .anchor (anchorAt (Place.opened tag inner after t)) ::
        scan (afterTag (splitClosing after).2) := by
  have hnot : ¬(!isAnchorOpen (tagInner (Place.opened tag inner after t))) = true := by
    rw [(tagInner_opened htag after t).1, hopen]
    exact Bool.false_ne_true
  rw [scan, if_neg (by simp), if_neg hnot, afterAnchor, splitClosing_opened htag hclosing hinner]

end

/-! ## Decoding what is written -/

section

variable {E : Env} (tags : List Json) (senderDomain : Str)

theorem tagBreakText_eq (tagInner : Str) :
    ∃ s c, tagBreakText tagInner = s ++ [c] ∧ isWhitespace c = true := by
  rw [tagBreakText]
  split
  · exact ⟨[], '\n', rfl, rfl⟩
  · split
    · exact ⟨['\n'], '\n', rfl, rfl⟩
    · exact ⟨[], ' ', rfl, rfl⟩

/-- What is written for a text ends in a reference only where the text does. -/
theorem unfinished_written {pieces : List Piece}
    (h : unfinished (pieces.flatMap (Piece.written E tags senderDomain)) = true) :
    unfinished (pieces.flatMap Piece.source) = true := by
  induction pieces using List.reverseRecOn with
  | nil => exact h
  | append_singleton pieces p ih =>
    rw [List.flatMap_append, List.flatMap_singleton] at h ⊢
    cases p with
    | char c =>
      rw [Piece.written, References.unfinished_append_singleton] at h
      rw [Piece.source, References.unfinished_append_singleton]
      simp only [Bool.or_eq_true, Bool.and_eq_true] at h ⊢
      exact h.imp_right (And.imp_right ih)
    | tag whole =>
      obtain ⟨s, c, hbreak, hc⟩ := tagBreakText_eq (tagInner whole.tail)
      rw [Piece.written, hbreak, ← List.append_assoc, finished_of_isWhitespace _ hc] at h
      cases h
    | anchor a =>
      rw [Piece.written, ← List.append_assoc, finished_of_isWhitespace _ rfl] at h
      cases h

theorem apart_written {before s : Str} (h : Apart before s) :
    Apart ((scan before).flatMap (Piece.written E tags senderDomain)) s := by
  refine h.imp_left fun hfinished => ?_
  rw [← Bool.not_eq_true] at hfinished ⊢
  intro hwritten
  have hsource := unfinished_written tags senderDomain hwritten
  rw [source_scan] at hsource
  exact hfinished hsource

variable (hE : E.Decodes)

include hE

omit hE in
/-- An anchor with an `href` that is no link has no text. -/
theorem text_eq_nil {a : Anchor} (hlink : a.link E = none) (hhref : ¬a.href.isNone = true) :
    a.text E = [] := by
  obtain ⟨href, hhref⟩ := Option.ne_none_iff_exists'.mp (mt Option.isNone_iff_eq_none.mpr hhref)
  rw [Anchor.link, hhref, Option.bind_some] at hlink
  split at hlink
  · rename_i hempty
    exact List.isEmpty_iff.mp hempty
  · cases hlink

omit hE in
theorem text_of_link {a : Anchor} {l : Link} (hlink : a.link E = some l) : l.text = a.text E := by
  rw [Anchor.link, Option.bind_eq_some_iff] at hlink
  obtain ⟨href, -, hlink⟩ := hlink
  split at hlink
  · cases hlink
  · cases hlink
    rfl

theorem decode_brackets (text href : Str) :
    E.decodeHtmlEntities ('[' :: text ++ [']', '('] ++ href ++ [')']) =
      '[' :: E.decodeHtmlEntities text ++ ']' :: '(' :: E.decodeHtmlEntities href ++ [')'] := by
  have hassoc : '[' :: text ++ [']', '('] ++ href ++ [')'] =
      '[' :: (text ++ ']' :: '(' :: (href ++ ')' :: [])) := by
    simp only [List.cons_append, List.append_assoc, List.nil_append]
  rw [hassoc, hE.decoder.cons (by decide), hE.decoder.cut _ _ (by decide),
    hE.decoder.cons (by decide), hE.decoder.cut _ _ (by decide), hE.decoder.nil]
  simp only [List.cons_append, List.append_assoc]

/-- The text of an anchor, or the name of a mention, is decoded again. -/
theorem decode_segment (a : Anchor) :
    E.decodeHtmlEntities ((a.segment E).flatMap (HtmlSegment.markdown tags senderDomain)) =
      a.wrapped E tags senderDomain (E.decodeHtmlEntities (a.shown E tags senderDomain)) := by
  cases hlink : a.link E with
  | none =>
    have hsegment : (a.segment E).flatMap (HtmlSegment.markdown tags senderDomain) = a.text E := by
      rw [Anchor.segment, hlink]
      by_cases hhref : a.href.isNone = true
      · rw [if_pos hhref, flatMap_takeText]
      · rw [if_neg hhref, text_eq_nil hlink hhref, List.flatMap_nil]
    rw [hsegment, Anchor.wrapped, Anchor.markdownLink, Anchor.shown, hlink]
    rfl
  | some l =>
    rw [Anchor.segment, hlink, List.flatMap_singleton, HtmlSegment.markdown, Link.markdown,
      Anchor.wrapped, Anchor.markdownLink, Anchor.shown, hlink, Option.bind_some]
    cases hmention : l.mention tags senderDomain with
    | some name =>
      rw [Option.filter_some_neg (by rw [hmention]; rfl)]
      rfl
    | none =>
      rw [Option.filter_some_pos (by rw [hmention]; rfl), text_of_link hlink]
      exact decode_brackets hE _ _

/-- What is decoded around an anchor -/
theorem markdownText_opened {before tag inner after t : Str}
    (hplace : (Place.inside before tag inner after).IsText E tags senderDomain t) :
    markdownText E tags senderDomain ((Place.inside before tag inner after).body t) =
      markdownText E tags senderDomain before ++
        (anchorAt (Place.opened tag inner after t)).wrapped E tags senderDomain
          (E.decodeHtmlEntities ((anchorAt (Place.opened tag inner after t)).shown E tags
            senderDomain)) ++
        ' ' :: markdownText E tags senderDomain (afterTag (splitClosing after).2) := by
  obtain ⟨hcomplete, hopen, htag, hclosing, hinner, -, hapart⟩ := hplace
  have hout := apart_written (E := E) tags senderDomain hapart
  rw [Place.body, markdownText_eq, scan_append hcomplete,
    scan_opened htag hclosing hinner hopen, List.flatMap_append, List.flatMap_cons,
    hE.decoder.append (hout.append_right _), ← markdownText_eq, Piece.written, List.append_assoc,
    List.singleton_append, hE.decoder.cut _ _ (by decide), ← markdownText_eq,
    decode_segment tags senderDomain hE, List.append_assoc]

theorem markdownText_outside {before after t : Str}
    (hplace : (Place.outside before after).IsText E tags senderDomain t) :
    markdownText E tags senderDomain ((Place.outside before after).body t) =
      markdownText E tags senderDomain before ++ t ++ markdownText E tags senderDomain after := by
  obtain ⟨hcomplete, hapart⟩ := hplace
  have hchars : ((escapeHtmlText t).map Piece.char).flatMap (Piece.written E tags senderDomain) =
      escapeHtmlText t := by
    rw [List.flatMap_map]
    exact List.flatMap_singleton' _
  have hout := apart_written (E := E) tags senderDomain hapart
  rw [Place.body, markdownText_eq, scan_append hcomplete,
    scan_plain (not_mem_escapeHtmlText t).1, List.flatMap_append, List.flatMap_append, hchars,
    hE.decoder.append (hout.append_right _), ← markdownText_eq, decode_escape hE,
    ← markdownText_eq, List.append_assoc]

omit hE in
/-- The wrapping of an anchor has as many characters whatever is wrapped. -/
theorem visible_wrapped (a : Anchor) :
    ∃ n, ∀ text, visible (a.wrapped E tags senderDomain text) = n + visible text := by
  simp only [Anchor.wrapped]
  cases a.markdownLink E tags senderDomain with
  | none => exact ⟨0, fun text => (Nat.zero_add _).symm⟩
  | some l =>
    refine ⟨visible ('[' :: ']' :: '(' :: E.decodeHtmlEntities l.href ++ [')']), fun text => ?_⟩
    simp only [visible_append, visible_cons, List.cons_append, List.append_assoc]
    omega

/-- The text is there, decoded once, if and only if it is outside of anchors, or nothing of what
stands for its anchor can be decoded. -/
theorem decodedOnce_iff {place : Place} {t : Str} (hplace : place.IsText E tags senderDomain t) :
    place.DecodedOnce E tags senderDomain t ↔ place.IsSettled E tags senderDomain t := by
  cases place with
  | outside before after =>
    refine iff_of_true ?_ trivial
    rw [Place.DecodedOnce, apContentToMarkdownBody,
      markdownText_outside tags senderDomain hE hplace]
  | inside before tag inner after =>
    have hbody := markdownText_opened tags senderDomain hE hplace
    obtain ⟨-, -, htag, hclosing, hinner, hapart, -⟩ := hplace
    have hinfix : trim t <:+: (anchorAt (Place.opened tag inner after t)).text E := by
      rw [text_opened htag hclosing hinner]
      exact trim_infix hE _ hapart
    rw [Place.DecodedOnce, Place.IsSettled, apContentToMarkdownBody, hbody]
    generalize anchorAt (Place.opened tag inner after t) = a at hinfix ⊢
    constructor
    · rintro ⟨hsame, -⟩
      obtain ⟨n, hn⟩ := visible_wrapped (E := E) tags senderDomain a
      by_contra hne
      have hfewer := hE.fewer _ hne
      have hcount := congrArg visible hsame
      simp only [visible_normalize, visible_append, hn] at hcount
      omega
    · intro hsettled
      exact ⟨by rw [hsettled], hinfix⟩

end

/-! ## A decoder of what is escaped -/

def escapes : List (Str × Char) :=
  [("amp".toList, '&'), ("quot".toList, '"'), ("lt".toList, '<'), ("gt".toList, '>')]

def named (name : Str) : Option Str := (escapes.find? fun e => e.1 = name).map fun e => [e.2]

/-- It knows no other reference. -/
def escapesOnly : Env where
  decodeHtmlEntities := References.decode named
  urlEncode := id
  toLowercase := toAsciiLowercase

theorem visible_named {name chars : Str} (h : named name = some chars) :
    visible chars ≤ visible name := by
  obtain ⟨e, hfind, rfl⟩ := Option.map_eq_some_iff.mp h
  have hname : e.1 = name := by
    have hsome := List.find?_some hfind
    exact of_decide_eq_true hsome
  have hall : ∀ e ∈ escapes, visible [e.2] ≤ visible e.1 := by decide
  rw [← hname]
  exact hall e (List.mem_of_find?_eq_some hfind)

theorem decode_named {chars : Str} {c : Char}
    (h : References.reference named chars = some ([c], [])) :
    escapesOnly.decodeHtmlEntities ('&' :: chars) = [c] := by
  show References.decode named ('&' :: chars) = [c]
  rw [References.decode_reference h, References.decode]
  rfl

theorem decodes_escapesOnly : escapesOnly.Decodes where
  decoder := References.decoder_decode named
  amp := @decode_named "amp;".toList '&' (by decide)
  quot := @decode_named "quot;".toList '"' (by decide)
  lt := @decode_named "lt;".toList '<' (by decide)
  gt := @decode_named "gt;".toList '>' (by decide)
  fewer s hne := by
    refine (References.countP_decode (by decide) ?_ s).resolve_left hne
    exact fun _ _ h => visible_named h

theorem decodedOnce_iff_link :
    (Place.inside [] "a href=\"h\"".toList [] "</a>".toList).DecodedOnce escapesOnly [] []
      "AT&T".toList :=
  (decodedOnce_iff [] [] decodes_escapesOnly (by decide +kernel)).mpr (by decide +kernel)

/-- A reference that is written out in an anchor -/
theorem decodedOnce_counterexample :
    let place := Place.inside [] "a href=\"h\"".toList [] "</a>".toList
    place.IsText escapesOnly [] [] "&lt;".toList ∧
    place.body "&lt;".toList = "<a href=\"h\">&amp;lt;</a>".toList ∧
    apContentToMarkdownBody escapesOnly [] [] (place.body "&lt;".toList) = "[<](h)".toList ∧
    ¬place.DecodedOnce escapesOnly [] [] "&lt;".toList := by
  refine ⟨by decide +kernel, by decide +kernel, by decide +kernel, ?_⟩
  rintro ⟨hsame, -⟩
  revert hsame
  decide +kernel

end Seiran.Content
