import Seiran.Model.Inbox.Anchors

/-!
# The two anchor scanners

* `extractAttrChecked_isSome`: looking for an attribute ends, and slices no character;
* `source_scan`: the pieces are the text;
* `tokenizeAnchors_eq`, `rewriteMentionHashtagHrefs_eq`: what the two scanners make of them.
-/

namespace Seiran.Content

/-! ## Attributes -/

theorem len_append (s t : Str) : len (s ++ t) = len s + len t := Splice.size_append s t

theorem sliceFrom_append (s t : Str) : sliceFrom (s ++ t) (len s) = some t := by
  rw [sliceFrom, len, Splice.split_append Char.utf8Size_pos]
  rfl

theorem sliceTo_append (s t : Str) : sliceTo (s ++ t) (len s) = some s := by
  rw [sliceTo, len, Splice.split_append Char.utf8Size_pos]
  rfl

/-- An occurrence that is found is there. -/
theorem find_eq_some {needle hay : Str} {n : Nat} (h : find needle hay = some n) :
    ∃ before after, hay = before ++ needle ++ after ∧ len before = n := by
  induction hay generalizing n with
  | nil =>
    rw [find] at h
    split at h
    · rename_i hempty
      cases h
      exact ⟨[], [], by rw [List.isEmpty_iff.mp hempty]; rfl, rfl⟩
    · cases h
  | cons c cs ih =>
    rw [find] at h
    split at h
    · rename_i hprefix
      cases h
      obtain ⟨after, hafter⟩ := List.isPrefixOf_iff_prefix.mp hprefix
      exact ⟨[], after, hafter.symm, rfl⟩
    · obtain ⟨m, hm, heq⟩ := Option.map_eq_some_iff.mp h
      obtain ⟨before, after, rfl, hlen⟩ := ih hm
      refine ⟨c :: before, after, rfl, ?_⟩
      rw [← heq, ← hlen]
      rfl

theorem utf8Size_toLower (c : Char) : c.toLower.utf8Size = c.utf8Size := by
  delta Char.toLower
  split
  · rename_i hupper
    have hle : c.val.toNat ≤ 90 := UInt32.le_iff_toNat_le.mp hupper.2
    have hone : c.utf8Size = 1 := by
      rw [Char.utf8Size_eq_one_iff, UInt32.le_iff_toNat_le]
      exact Nat.le_trans hle (by decide)
    rw [hone, Char.utf8Size_eq_one_iff, UInt32.le_iff_toNat_le]
    have hadd : (c.val + ('a'.val - 'A'.val)).toNat ≤ c.val.toNat + 32 := by
      rw [UInt32.toNat_add]
      exact Nat.mod_le _ _
    exact Nat.le_trans hadd (Nat.add_le_add_right hle 32 |>.trans (by decide))
  · rfl

theorem len_toAsciiLowercase (s : Str) : len (toAsciiLowercase s) = len s := by
  induction s with
  | nil => rfl
  | cons c cs ih => exact congrArg₂ (· + ·) (utf8Size_toLower c) ih

theorem toAsciiLowercase_append (a b : Str) :
    toAsciiLowercase (a ++ b) = toAsciiLowercase a ++ toAsciiLowercase b := List.map_append

theorem sliceFrom_lower (a b : Str) :
    sliceFrom (toAsciiLowercase (a ++ b)) (len a) = some (toAsciiLowercase b) := by
  rw [toAsciiLowercase_append, ← len_toAsciiLowercase a]
  exact sliceFrom_append _ _

/-- What is before an offset of a text in lower case is before it in the text. -/
theorem of_toAsciiLowercase_append {s a b : Str} (h : toAsciiLowercase s = a ++ b) :
    ∃ a' b', s = a' ++ b' ∧ len a' = len a ∧ toAsciiLowercase b' = b := by
  obtain ⟨a', b', rfl, ha, hb⟩ := List.map_eq_append_iff.mp h
  refine ⟨a', b', rfl, ?_, hb⟩
  rw [← ha]
  exact (len_toAsciiLowercase a').symm

theorem length_asBytes (s : Str) : (asBytes s).length = len s := by
  induction s with
  | nil => rfl
  | cons c cs ih =>
    rw [asBytes, List.flatMap_cons, List.length_append, String.length_utf8EncodeChar]
    exact congrArg (c.utf8Size + ·) ih

theorem quotedValue_isSome (after : Str) : (quotedValue after).isSome := by
  unfold quotedValue
  split
  · rename_i rest _
    have hone : sliceFrom ('=' :: rest) 1 = some rest := sliceFrom_append ['='] rest
    rw [hone]
    dsimp only [Option.bind_eq_bind, Option.bind_some]
    split
    · rename_i quote value hvalue
      split
      · have hquote : sliceFrom (trimStart rest) quote.utf8Size = some value := by
          rw [hvalue]
          exact sliceFrom_append [quote] value
        rw [hquote]
        dsimp only [Option.bind_some]
        split
        · rename_i stop hstop
          obtain ⟨before, after, rfl, rfl⟩ := find_eq_some hstop
          rw [List.append_assoc, sliceTo_append]
          rfl
        · rfl
      · rfl
    · rfl
  · rfl

theorem valueAt_isSome {lower tagInner attrName rest : Str} {idx : Nat} (hidx : idx ≤ len lower)
    (hslice : sliceFrom tagInner (idx + len attrName) = some rest) :
    (valueAt lower tagInner attrName idx).isSome := by
  have hread : ∀ boundaryOk : Bool,
      (if boundaryOk then quotedValue rest else some none).isSome = true := by
    intro boundaryOk
    cases boundaryOk
    · rfl
    · exact quotedValue_isSome rest
  rw [valueAt, hslice]
  by_cases hzero : idx = 0
  · rw [if_pos hzero]
    exact hread true
  · rw [if_neg hzero]
    have hbyte : ((asBytes lower)[idx - 1]?).isSome := by
      rw [isSome_getElem?, length_asBytes]
      omega
    obtain ⟨b, hb⟩ := Option.isSome_iff_exists.mp hbyte
    rw [hb]
    exact hread (!isAsciiAlphanumeric b)

theorem extractAttrLoop_isSome {tagInner attrName : Str} (hattr : attrName ≠ [])
    (rounds : Nat) (before after : Str) (hsplit : tagInner = before ++ after)
    (hrounds : after.length < rounds) :
    (extractAttrLoop (toAsciiLowercase tagInner) tagInner attrName (toAsciiLowercase attrName)
      rounds (len before)).isSome := by
  induction rounds generalizing before after with
  | zero => omega
  | succ rounds ih =>
    have hlower : sliceFrom (toAsciiLowercase tagInner) (len before) =
        some (toAsciiLowercase after) := by
      rw [hsplit]
      exact sliceFrom_lower before after
    rw [extractAttrLoop, hlower]
    dsimp only [Option.bind_eq_bind, Option.bind_some]
    split
    · rfl
    · rename_i relIdx hfind
      obtain ⟨before', after', hafter, hlen⟩ := find_eq_some hfind
      rw [List.append_assoc] at hafter
      obtain ⟨skipped, found, rfl, hskipped, hfound⟩ := of_toAsciiLowercase_append hafter
      obtain ⟨name, rest, rfl, hname, -⟩ := of_toAsciiLowercase_append hfound
      rw [len_toAsciiLowercase] at hname
      have hidx : len before + relIdx = len (before ++ skipped) := by
        rw [len_append, hskipped, hlen]
      have hnext : len before + relIdx + len attrName = len (before ++ skipped ++ name) := by
        rw [hidx, len_append (before ++ skipped), hname]
      have hsplit' : tagInner = before ++ skipped ++ name ++ rest := by
        rw [hsplit]
        simp only [List.append_assoc]
      have hslice : sliceFrom tagInner (len before + relIdx + len attrName) = some rest := by
        rw [hnext, hsplit']
        exact sliceFrom_append _ _
      have hpos : 0 < name.length := by
        refine List.length_pos_of_ne_nil fun hnil => ?_
        rw [hnil] at hname
        exact Nat.ne_of_gt (Splice.size_pos Char.utf8Size_pos hattr) hname.symm
      have hrest : rest.length < rounds := by
        simp only [List.length_append] at hrounds
        omega
      have hih := ih (before ++ skipped ++ name) rest hsplit' hrest
      rw [← hnext] at hih
      have hle : len before + relIdx ≤ len (toAsciiLowercase tagInner) := by
        rw [hidx, len_toAsciiLowercase, hsplit', len_append (before ++ skipped ++ name), len_append]
        omega
      obtain ⟨value, hvalue⟩ := Option.isSome_iff_exists.mp (valueAt_isSome hle hslice)
      rw [hvalue]
      cases value with
      | none => exact hih
      | some v => rfl

/-- Looking for an attribute comes to an end, and no slice is cut through a character. -/
theorem extractAttrChecked_isSome (tagInner : Str) {attrName : Str} (hattr : attrName ≠ []) :
    (extractAttrChecked tagInner attrName).isSome :=
  extractAttrLoop_isSome hattr _ [] tagInner rfl (Nat.lt_succ_self _)

/-! ## Tags -/

theorem tagInner_cons {c : Char} (hc : c ≠ '>') (rest : Str) :
    tagInner (c :: rest) = c :: tagInner rest := by
  simp [tagInner, hc]

theorem wholeTag_cons {c : Char} (hc : c ≠ '>') (rest : Str) :
    (wholeTag (c :: rest)).tail = c :: (wholeTag rest).tail := by
  simp [wholeTag, tagInner, hc]

theorem tag_append {tag : Str} (hgt : '>' ∉ tag) (s : Str) :
    tagInner (tag ++ '>' :: s) = tag ∧ afterTag (tag ++ '>' :: s) = s := by
  have hnot : ∀ c ∈ tag, decide (c ≠ '>') = true := by
    intro c hc
    rw [decide_eq_true_iff]
    exact fun h => hgt (h ▸ hc)
  rw [tagInner, afterTag, List.takeWhile_append_of_pos hnot, List.dropWhile_append_of_pos hnot]
  exact ⟨List.append_nil tag, rfl⟩

/-- A tag has its content between its `<` and its `>`. -/
theorem tagInner_wholeTag (chars : Str) : tagInner (wholeTag chars).tail = tagInner chars := by
  induction chars with
  | nil => rfl
  | cons c rest ih =>
    by_cases hc : c = '>'
    · subst hc
      rfl
    · rw [wholeTag_cons hc, tagInner_cons hc, tagInner_cons hc, ih]

theorem wholeTag_append (chars : Str) : wholeTag chars ++ afterTag chars = '<' :: chars := by
  rw [wholeTag, afterTag, List.cons_append, List.cons_append, List.append_assoc,
    List.take_append_drop, tagInner, List.takeWhile_append_dropWhile]

theorem eq_of_isClosing {c : Char} {rest : Str} (h : isClosing (c :: rest) = true) : c = '<' := by
  unfold isClosing at h
  split at h
  · rename_i heq
    exact (List.cons.inj heq).1
  · cases h

theorem splitClosing_append (chars : Str) :
    (splitClosing chars).1 ++ (splitClosing chars).2 = chars := by
  induction chars with
  | nil => rfl
  | cons c rest ih =>
    rw [splitClosing]
    split
    · rfl
    · rw [List.cons_append, ih]

theorem splitClosing_snd (chars : Str) :
    (splitClosing chars).2 = [] ∨ ∃ rest, (splitClosing chars).2 = '<' :: rest ∧
      isClosing ('<' :: rest) = true := by
  induction chars with
  | nil => exact .inl rfl
  | cons c rest ih =>
    rw [splitClosing]
    split
    · rename_i hclosing
      obtain rfl := eq_of_isClosing hclosing
      exact .inr ⟨rest, rfl, hclosing⟩
    · exact ih

theorem closingTag_append (chars : Str) :
    (closingTag (splitClosing chars).2).getD [] ++ afterTag (splitClosing chars).2 =
      (splitClosing chars).2 := by
  rcases splitClosing_snd chars with hnil | ⟨rest, hcons, -⟩
  · rw [hnil]
    rfl
  · rw [hcons]
    exact wholeTag_append rest

/-! ## The pieces -/

/-- The pieces of a text are the text. -/
theorem source_scan (html : Str) : (scan html).flatMap Piece.source = html := by
  fun_induction scan html with
  | case1 => rfl
  | case2 c rest hc ih =>
    rw [List.flatMap_cons, ih]
    rfl
  | case3 c rest hc hopen ih =>
    obtain rfl := Decidable.not_not.mp hc
    rw [List.flatMap_cons, ih]
    exact wholeTag_append rest
  | case4 c rest hc hopen ih =>
    obtain rfl := Decidable.not_not.mp hc
    rw [List.flatMap_cons, ih, Piece.source, anchorAt, afterAnchor, List.append_assoc,
      List.append_assoc, closingTag_append, splitClosing_append, wholeTag_append]

/-! ## What the scanners make of them -/

theorem afterTag_cons {c : Char} (hc : c ≠ '>') (rest : Str) :
    afterTag (c :: rest) = afterTag rest := by
  simp [afterTag, hc]

theorem afterTag_of_isClosing {c : Char} {rest : Str} (h : isClosing (c :: rest) = true) :
    afterTag (c :: rest) = afterTag rest := by
  obtain rfl := eq_of_isClosing h
  exact afterTag_cons (by decide) rest

theorem tokenizeInner_eq (chars innerText : Str) (inInnerTag : Bool) :
    tokenizeInner chars innerText inInnerTag =
      (innerText ++ plain (splitClosing chars).1 inInnerTag, afterTag (splitClosing chars).2) := by
  induction chars generalizing innerText inInnerTag with
  | nil => rw [tokenizeInner, splitClosing, plain, List.append_nil]; rfl
  | cons c rest ih =>
    rw [tokenizeInner, splitClosing]
    split
    · rename_i hclosing
      rw [plain, List.append_nil, afterTag_of_isClosing hclosing]
    · rw [plain]
      split
      · rw [ih]
      · by_cases hlt : c = '<'
        · simp [hlt, ih]
        · cases inInnerTag <;> simp [hlt, ih]

theorem rewriteInner_eq (chars plainText rawInner : Str) (inInnerTag : Bool) :
    rewriteInner chars plainText rawInner inInnerTag =
      { plainText := plainText ++ plain (splitClosing chars).1 inInnerTag
        rawInner := rawInner ++ (splitClosing chars).1
        closed := (closingTag (splitClosing chars).2).isSome
        rest := afterTag (splitClosing chars).2 } := by
  induction chars generalizing plainText rawInner inInnerTag with
  | nil => simp [rewriteInner, splitClosing, plain, closingTag, afterTag]
  | cons c rest ih =>
    rw [rewriteInner, splitClosing]
    split
    · rename_i hclosing
      rw [plain, List.append_nil, List.append_nil, afterTag_of_isClosing hclosing]
      rfl
    · rw [plain]
      split
      · rw [ih, List.append_assoc]
        rfl
      · by_cases hlt : c = '<'
        · simp [hlt, ih]
        · cases inInnerTag <;> simp [hlt, ih]

section

variable (E : Env)

theorem tagInner_anchorAt (rest : Str) : (anchorAt rest).tagInner = tagInner rest :=
  tagInner_wholeTag rest

theorem segment_anchorAt (rest : Str) :
    (anchorAt rest).segment E = anchorSegment (tagInner rest) ((anchorAt rest).text E) := by
  rw [Anchor.segment, Anchor.link, Anchor.href, tagInner_anchorAt, anchorSegment]
  cases extractHrefAttr (tagInner rest) with
  | none => rfl
  | some href =>
    by_cases htext : ((anchorAt rest).text E).isEmpty = true
    · simp [htext]
    · simp [htext]

theorem tokenizeLoop_eq (chars textBuf : Str) :
    tokenizeLoop E chars textBuf = segments E textBuf (scan chars) := by
  fun_induction scan chars generalizing textBuf with
  | case1 => rw [tokenizeLoop, segments]
  | case2 c rest hc ih => rw [tokenizeLoop, if_pos hc, ih, segments]
  | case3 c rest hc hopen ih =>
    rw [tokenizeLoop, if_neg hc, if_pos hopen, ih, segments, tagInner_wholeTag]
  | case4 c rest hc hopen ih =>
    rw [tokenizeLoop, if_neg hc, if_neg hopen, segments, segment_anchorAt, ← ih,
      tokenizeInner_eq]
    rfl

/-- `tokenize_anchors` makes its segments of the pieces. -/
theorem tokenizeAnchors_eq (html : Str) : tokenizeAnchors E html = segments E [] (scan html) :=
  tokenizeLoop_eq E html []

variable (tags : List Json) (senderDomain : Str)

theorem rewriteLoop_eq (chars : Str) :
    rewriteLoop E tags senderDomain chars =
      (scan chars).flatMap (Piece.rewritten E tags senderDomain) := by
  fun_induction scan chars with
  | case1 => rw [rewriteLoop]; rfl
  | case2 c rest hc ih => rw [rewriteLoop, if_pos hc, ih]; rfl
  | case3 c rest hc hopen ih => rw [rewriteLoop, if_neg hc, if_pos hopen, ih]; rfl
  | case4 c rest hc hopen ih =>
    rw [rewriteLoop, if_neg hc, if_neg hopen, rewriteInner_eq, List.flatMap_cons, ← ih,
      Piece.rewritten, Anchor.givenHref, Anchor.href, tagInner_anchorAt]
    have hclosing : (anchorAt rest).closing =
        closingTag (splitClosing (afterTag rest)).2 := rfl
    rw [hclosing]
    dsimp only
    split
    · rfl
    · rw [List.append_nil]
      rfl

end

end Seiran.Content
