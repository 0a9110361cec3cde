import Seiran.Proof.Inbox.Search
import Seiran.Proof.Inbox.Whitespace

/-!
# What is taken out with the fallback of a quote

* `stripQuoteFallbackLine_ok`, `stripQuoteFallbackLineLeading_ok`: one whole line;
* `stripQuoteFallbackLineHtmlLeading_ok`, `stripQuoteFallbackLineHtml_ok`: one block;
* `inlineParagraphLoop_ok`: one paragraph;
* `strip_only_fallback`: nothing else is, and what was balanced stays so where the part is.
-/

namespace Seiran.Content

open Lists (isWhitespace)
open Markup (Neutral Outside)

theorem not_mem_of_blank {blank : Str} (hblank : Blank blank) {c : Char}
    (hc : isWhitespace c = false) : c ∉ blank := by
  intro hmem
  rw [hblank c hmem] at hc
  cases hc

/-! ## Lines -/

theorem stripQuoteFallbackLine_ok (body quoteUri : Str) :
    ∃ out, stripQuoteFallbackLine body quoteUri = some out ∧
      (out = body ∨ Without (LastLine quoteUri) body out) := by
  obtain ⟨blank, hbody, hblank⟩ := exists_trimEnd body
  obtain ⟨before, line, htrimmed, hstart, hline, hbefore⟩ := exists_lastLine (trimEnd body)
  obtain ⟨rest, after, rfl, -, hrest, hafter⟩ := exists_firstLine blank
  have hfrom : sliceFrom (trimEnd body) (len before) = some line := by
    rw [htrimmed]
    exact sliceFrom_append before line
  have hto : sliceTo (trimEnd body) (len before) = some before := by
    rw [htrimmed]
    exact sliceTo_append before line
  dsimp only [stripQuoteFallbackLine]
  rw [← hstart, hfrom, hto]
  dsimp only [Option.bind_eq_bind, Option.bind_some, Option.pure_def]
  split
  · rename_i hfallback
    refine ⟨_, rfl, .inr ⟨before, line ++ rest, after, ?_, ⟨?_, hbefore, hafter⟩, ?_, ?_, rfl⟩⟩
    · rw [hbody, htrimmed]
      simp only [List.append_assoc]
    · rw [List.mem_append, not_or]
      exact ⟨hline, hrest⟩
    · exact fun c hc => hblank c (List.mem_append_right rest hc)
    · rw [trim_append_blank fun c hc => hblank c (List.mem_append_left after hc)]
      exact hfallback
  · exact ⟨body, rfl, .inl rfl⟩

theorem stripQuoteFallbackLineLeading_ok (body quoteUri : Str) :
    ∃ out, stripQuoteFallbackLineLeading body quoteUri = some out ∧
      (out = body ∨ Without (FirstLine quoteUri) body out) := by
  obtain ⟨blank, hbody, hblank⟩ := exists_trimStart body
  obtain ⟨line, after, htrimmed, hstop, hline, hafter⟩ := exists_firstLine (trimStart body)
  obtain ⟨before, rest, rfl, -, hrest, hbefore⟩ := exists_lastLine blank
  have hfrom : sliceFrom (trimStart body) (len line) = some after := by
    rw [htrimmed]
    exact sliceFrom_append line after
  have hto : sliceTo (trimStart body) (len line) = some line := by
    rw [htrimmed]
    exact sliceTo_append line after
  dsimp only [stripQuoteFallbackLineLeading]
  rw [← hstop, hfrom, hto]
  dsimp only [Option.bind_eq_bind, Option.bind_some, Option.pure_def]
  split
  · rename_i hfallback
    refine ⟨_, rfl, .inr ⟨before, rest ++ line, after, ?_, ⟨?_, hbefore, hafter⟩, ?_, ?_, rfl⟩⟩
    · rw [hbody, htrimmed]
      simp only [List.append_assoc]
    · rw [List.mem_append, not_or]
      exact ⟨hrest, hline⟩
    · exact fun c hc => hblank c (List.mem_append_left rest hc)
    · rw [trim_blank_append fun c hc => hblank c (List.mem_append_right before hc)]
      exact hfallback
  · exact ⟨body, rfl, .inl rfl⟩

/-! ## What stays balanced -/

/-- A block at the end is neutral if and only if what is before it is balanced. -/
theorem staysBalanced_last {before part after : Str} (hafter : Blank after) :
    StaysBalanced before part after (trimEnd before) := by
  intro h
  obtain ⟨blank, hbefore, hblank⟩ := exists_trimEnd before
  have hpart : Balanced (before ++ part) := by
    rw [← List.append_assoc] at h
    exact (Markup.balanced_append_plain (not_mem_of_blank hafter rfl)
      (not_mem_of_blank hafter rfl)).mp h
  have htrim : Balanced (trimEnd before) ↔ Balanced before := by
    conv_rhs => rw [hbefore]
    exact (Markup.balanced_append_plain (not_mem_of_blank hblank rfl)
      (not_mem_of_blank hblank rfl)).symm
  rw [htrim, Neutral, show Markup.read tagEffect .start (before ++ part) = some .start from hpart]
  exact eq_comm

theorem staysBalanced_first {before part after : Str} (hbefore : Blank before)
    (hpart : Balanced (before ++ (part ++ after)) → Outside tagEffect (before ++ part)) :
    StaysBalanced before part after (trimStart after) := by
  intro h
  obtain ⟨blank, hafter, hblank⟩ := exists_trimStart after
  have htrim : Balanced (trimStart after) ↔ Balanced after := by
    conv_rhs => rw [hafter]
    exact (Markup.balanced_plain_append (not_mem_of_blank hblank rfl)).symm
  have houtside : Outside tagEffect before := Markup.outside_plain (not_mem_of_blank hbefore rfl)
  rw [htrim, ← Markup.balanced_remove h houtside (hpart h)]
  exact (Markup.balanced_plain_append (not_mem_of_blank hbefore rfl)).symm

theorem getLast?_of_lower {tag : Str} (h : toAsciiLowercase tag = "</p>".toList) :
    tag.getLast? = some '>' := by
  have hlast : (toAsciiLowercase tag).getLast? = some '>' := by rw [h]; rfl
  rw [toAsciiLowercase, List.getLast?_map, Option.map_eq_some_iff] at hlast
  obtain ⟨c, hc, hlower⟩ := hlast
  rw [hc, eq_of_toLower (by decide) hlower]

/-- The block at the start of a balanced text ends with a tag. -/
theorem outside_of_firstBlock {E : Env} {quoteUri before part after : Str}
    (hblock : FirstBlock E quoteUri part after) (h : Balanced (before ++ (part ++ after))) :
    Outside tagEffect (before ++ part) := by
  have hassoc := h
  rw [← List.append_assoc] at hassoc
  cases hblock with
  | @intro block tag after hbr hclose hbreak hfallback =>
    cases hbreak with
    | paragraph hclose =>
      refine Markup.outside_of_balanced hassoc ?_
      rw [← List.append_assoc, List.getLast?_append, getLast?_of_lower hclose]
      rfl
    | line hbr hgt =>
      refine Markup.outside_of_balanced hassoc ?_
      rw [← List.append_assoc, ← List.append_assoc, List.getLast?_concat]
    | cutOff hbr hgt =>
      -- a tag without its `>` leaves the text unbalanced
      obtain ⟨rest, rfl⟩ := starts_cons (by decide) hbr
      rw [Balanced, Markup.Balanced, Markup.read_append, Option.bind_eq_some_iff] at hassoc
      obtain ⟨s, -, hread⟩ := hassoc
      exact absurd (List.mem_cons_of_mem '<' (Markup.gt_mem_of_read hread)) hgt

/-! ## Blocks -/

/-- The rest of a text from an offset on starts with a tag, or has no `>`. -/
theorem exists_tagEnd (before rest : Str) :
    ∃ tag after, rest = tag ++ after ∧
      tagEnd (before ++ rest) (len before) = some (len (before ++ tag)) ∧
      ((tag = [] ∧ '>' ∉ rest) ∨ ∃ t, tag = t ++ ['>'] ∧ '>' ∉ t) := by
  cases hfind : find ['>'] rest with
  | none =>
    refine ⟨[], rest, rfl, ?_, .inl ⟨rfl, not_mem_of_find hfind⟩⟩
    rw [tagEnd, sliceFrom_append, List.append_nil]
    dsimp only [Option.bind_eq_bind, Option.bind_some, Option.pure_def]
    rw [hfind]
    rfl
  | some n =>
    obtain ⟨tag, after, rfl, rfl, htag⟩ := find_char_eq_some hfind
    refine ⟨tag ++ ['>'], after, List.append_cons tag '>' after, ?_, .inr ⟨tag, rfl, htag⟩⟩
    rw [tagEnd, sliceFrom_append]
    dsimp only [Option.bind_eq_bind, Option.bind_some, Option.pure_def]
    rw [hfind, len_append, len_append]
    rfl

/-- Before the first of two markers there is neither. -/
theorem not_has_of_min {marker : String} {s rest : Str} (hmarker : marker.toList ≠ [])
    (hle : ∀ n ∈ find marker.toList (toAsciiLowercase (s ++ rest)), len s ≤ n) :
    ¬Has marker s := by
  refine not_has (find_eq_none_of_le hmarker (b := toAsciiLowercase rest) fun n hn => ?_)
  rw [len_toAsciiLowercase]
  rw [← toAsciiLowercase_append] at hn
  exact hle n hn

/-- After the start of the last of two markers there is neither. -/
theorem not_has_of_max {marker : String} {s rest : Str} {c : Char}
    (hle : ∀ n ∈ rfind marker.toList (toAsciiLowercase (s ++ c :: rest)), n ≤ len s) :
    ¬Has marker rest := by
  refine not_has (find_eq_none_of_lt (a := toAsciiLowercase (s ++ [c])) fun n hn => ?_)
  rw [← toAsciiLowercase_append, List.append_assoc] at hn
  rw [len_toAsciiLowercase, len_append]
  exact Nat.lt_of_le_of_lt (hle n hn) (Nat.lt_add_of_pos_right (Splice.size_pos Char.utf8Size_pos
    (List.cons_ne_nil c [])))

/-- The first break of a text, and where the code takes it to end -/
theorem exists_firstBreak {s : Str} {idx : Nat}
    (h : [find "<br".toList (toAsciiLowercase s),
      find "</p>".toList (toAsciiLowercase s)].reduceOption.min? = some idx) :
    ∃ block tag after, s = block ++ (tag ++ after) ∧ len block = idx ∧
      ¬Has "<br" block ∧ ¬Has "</p>" block ∧ IsBreak tag after ∧
      blockEnd s idx = some (len (block ++ tag)) := by
  obtain ⟨hidx, hbr, hclose⟩ := of_min h
  obtain ⟨block, rest, rfl, hlen, hrest⟩ : ∃ a b, s = a ++ b ∧ len a = idx ∧
      ("<br".toList <+: toAsciiLowercase b ∨ "</p>".toList <+: toAsciiLowercase b) := by
    rcases hidx with hidx | hidx
    · obtain ⟨a, b, hs, hlen, hprefix⟩ := find_lower hidx
      exact ⟨a, b, hs, hlen, .inl hprefix⟩
    · obtain ⟨a, b, hs, hlen, hprefix⟩ := find_lower hidx
      exact ⟨a, b, hs, hlen, .inr hprefix⟩
  subst hlen
  have hnoBr := not_has_of_min (by decide) hbr
  have hnoClose := not_has_of_min (by decide) hclose
  rw [blockEnd, sliceFrom_lower, Option.bind_eq_bind, Option.bind_some]
  by_cases hparagraph : "</p>".toList <+: toAsciiLowercase rest
  · rw [if_pos (List.isPrefixOf_iff_prefix.mpr hparagraph)]
    obtain ⟨tag, after, rfl, htag⟩ := exists_of_prefix_lower hparagraph
    refine ⟨block, tag, after, rfl, rfl, hnoBr, hnoClose, .paragraph htag, ?_⟩
    rw [len_append, ← htag, len_toAsciiLowercase]
    rfl
  · rw [if_neg fun hprefix => hparagraph (List.isPrefixOf_iff_prefix.mp hprefix)]
    have hstart : Starts "<br" rest := hrest.resolve_right hparagraph
    obtain ⟨tag, after, rfl, hend, htag⟩ := exists_tagEnd block rest
    refine ⟨block, tag, after, rfl, rfl, hnoBr, hnoClose, ?_, hend⟩
    rcases htag with ⟨rfl, hgt⟩ | ⟨t, rfl, hgt⟩
    · exact .cutOff hstart hgt
    · rw [List.append_assoc] at hstart
      exact .line hstart hgt

theorem stripQuoteFallbackLineHtmlLeading_ok (E : Env) (html quoteUri : Str) :
    ∃ out, stripQuoteFallbackLineHtmlLeading E html quoteUri = some out ∧
      (out = html ∨ Without (FirstBlockOut E quoteUri) html out) := by
  obtain ⟨before, hhtml, hblank⟩ := exists_trimStart html
  dsimp only [stripQuoteFallbackLineHtmlLeading]
  split
  · exact ⟨html, rfl, .inl rfl⟩
  · rename_i idx hidx
    obtain ⟨block, tag, after, htrimmed, rfl, hbr, hclose, hbreak, hend⟩ := exists_firstBreak hidx
    have hto : sliceTo (trimStart html) (len block) = some block := by
      rw [htrimmed]
      exact sliceTo_append block (tag ++ after)
    have hfrom : sliceFrom (trimStart html) (len (block ++ tag)) = some after := by
      rw [htrimmed, ← List.append_assoc]
      exact sliceFrom_append (block ++ tag) after
    rw [hend, hto]
    dsimp only [Option.bind_eq_bind, Option.bind_some, Option.pure_def]
    split
    · rename_i hfallback
      have hblock : FirstBlock E quoteUri (block ++ tag) after :=
        .intro hbr hclose hbreak hfallback
      rw [hfrom]
      refine ⟨trimStart after, rfl, .inr ⟨before, block ++ tag, after, ?_, hblank, hblock, rfl,
        staysBalanced_first hblank (outside_of_firstBlock hblock)⟩⟩
      rw [hhtml, htrimmed, List.append_assoc]
    · exact ⟨html, rfl, .inl rfl⟩

/-- The last block of a text, and where the code takes its tag to end -/
theorem exists_lastBreak {s : Str} {idx : Nat}
    (h : [rfind "<br".toList (toAsciiLowercase s),
      rfind "<p".toList (toAsciiLowercase s)].reduceOption.max? = some idx) :
    ∃ before rest, s = before ++ '<' :: rest ∧ len before = idx ∧
      (Starts "<br" ('<' :: rest) ∨ Starts "<p" ('<' :: rest)) ∧
      ¬Has "<br" rest ∧ ¬Has "<p" rest := by
  obtain ⟨hidx, hbr, hp⟩ := of_max h
  rcases hidx with hidx | hidx
  · obtain ⟨before, rest, rfl, rfl, hstart⟩ := rfind_lower hidx
    obtain ⟨rest, rfl⟩ := starts_cons (by decide) hstart
    exact ⟨before, rest, rfl, rfl, .inl hstart, not_has_of_max hbr, not_has_of_max hp⟩
  · obtain ⟨before, rest, rfl, rfl, hstart⟩ := rfind_lower hidx
    obtain ⟨rest, rfl⟩ := starts_cons (by decide) hstart
    exact ⟨before, rest, rfl, rfl, .inr hstart, not_has_of_max hbr, not_has_of_max hp⟩

/-- What goes from the text of a block at the end to the block -/
theorem lastBlock_of_tag {E : Env} {quoteUri rest tag after : Str} (before : Str)
    (hstart : Starts "<br" ('<' :: rest) ∨ Starts "<p" ('<' :: rest)) (hbr : ¬Has "<br" rest)
    (hp : ¬Has "<p" rest) (hrest : '<' :: rest = tag ++ after)
    (htag : (tag = [] ∧ '>' ∉ '<' :: rest) ∨ ∃ t, tag = t ++ ['>'] ∧ '>' ∉ t)
    (hfallback : isFallback (stripTagsVerbatim E after) quoteUri) :
    LastBlock E quoteUri before ('<' :: rest) := by
  rcases htag with ⟨rfl, hgt⟩ | ⟨t, rfl, hgt⟩
  · rw [List.nil_append] at hrest
    rw [← hrest] at hfallback
    exact .cutOff (fun hmem => hgt (List.mem_cons_of_mem '<' hmem)) hfallback
  · cases t with
    | nil => exact absurd (List.cons.inj hrest).1 (by decide)
    | cons c t =>
      obtain ⟨rfl, htail⟩ := List.cons.inj hrest
      obtain rfl : rest = t ++ '>' :: after := htail.trans (List.append_assoc t ['>'] after)
      exact .tagged hstart (fun hmem => hgt (List.mem_cons_of_mem '<' hmem)) hbr hp hfallback

theorem stripQuoteFallbackLineHtml_ok (E : Env) (html quoteUri : Str) :
    ∃ out, stripQuoteFallbackLineHtml E html quoteUri = some out ∧
      (out = html ∨ Without (LastBlockOut E quoteUri) html out) := by
  obtain ⟨blank, hhtml, hblank⟩ := exists_trimEnd html
  dsimp only [stripQuoteFallbackLineHtml]
  split
  · rename_i idx hidx
    obtain ⟨before, rest, htrimmed, rfl, hstart, hbr, hp⟩ := exists_lastBreak hidx
    obtain ⟨tag, after, hrest, hend, htag⟩ := exists_tagEnd before ('<' :: rest)
    have hto : sliceTo (trimEnd html) (len before) = some before := by
      rw [htrimmed]
      exact sliceTo_append before ('<' :: rest)
    have hfrom : sliceFrom (trimEnd html) (len (before ++ tag)) = some after := by
      rw [htrimmed, hrest, ← List.append_assoc]
      exact sliceFrom_append (before ++ tag) after
    rw [← htrimmed] at hend
    rw [hend, hto]
    dsimp only [Option.bind_eq_bind, Option.bind_some, Option.pure_def]
    rw [hfrom]
    dsimp only [Option.bind_eq_bind, Option.bind_some, Option.pure_def]
    split
    · rename_i hfallback
      have hblock : LastBlock E quoteUri before ('<' :: rest) :=
        lastBlock_of_tag before hstart hbr hp hrest htag hfallback
      refine ⟨trimEnd before, rfl, .inr ⟨before, '<' :: rest, blank, ?_, hblank, hblock, rfl,
        staysBalanced_last hblank⟩⟩
      rw [← List.append_assoc, ← htrimmed]
      exact hhtml
    · exact ⟨html, rfl, .inl rfl⟩
  · rename_i hnone
    obtain ⟨hbr, hp⟩ := eq_none_of_max hnone
    dsimp only [Option.bind_eq_bind, Option.bind_some, Option.pure_def]
    split
    · rename_i hfallback
      have hblock : LastBlock E quoteUri [] (trimEnd html) :=
        .whole (not_has (find_eq_none_of_rfind hbr)) (not_has (find_eq_none_of_rfind hp)) hfallback
      exact ⟨trimEnd [], rfl, .inr ⟨[], trimEnd html, blank, hhtml, hblank, hblock, rfl,
        staysBalanced_last hblank⟩⟩
    · exact ⟨html, rfl, .inl rfl⟩

/-! ## A paragraph of the class -/

theorem staysBalanced_inline {E : Env} {quoteUri before part after : Str}
    (hpart : InlineParagraph E quoteUri part) (hbefore : Outside tagEffect before) :
    StaysBalanced before part after (before ++ after) := by
  intro h
  have hassoc := h
  rw [← List.append_assoc] at hassoc
  refine Markup.balanced_remove h hbefore (Markup.outside_of_balanced hassoc ?_)
  cases hpart with
  | @intro tag inner close hstart hgt hclass hinner hclose hmatches =>
    rw [List.getLast?_append, List.getLast?_append, List.getLast?_cons, List.getLast?_append,
      getLast?_of_lower hclose]
    rfl

theorem exists_close {text : Str} {n : Nat}
    (h : find "</p>".toList (toAsciiLowercase text) = some n) :
    ∃ inner close after, text = inner ++ (close ++ after) ∧ len inner = n ∧
      toAsciiLowercase close = "</p>".toList ∧ ¬Has "</p>" inner := by
  obtain ⟨inner, rest, rfl, rfl, hprefix⟩ := find_lower h
  obtain ⟨close, after, rfl, hclose⟩ := exists_of_prefix_lower hprefix
  have hle : ∀ n ∈ find "</p>".toList (toAsciiLowercase (inner ++ (close ++ after))),
      len inner ≤ n := by
    intro n hn
    rw [h] at hn
    exact Nat.le_of_eq (Option.some.inj hn)
  exact ⟨inner, close, after, rfl, rfl, hclose, not_has_of_min (by decide) hle⟩

theorem inlineParagraphLoop_ok {E : Env} {html quoteUri : Str} (rounds : Nat) (before after : Str)
    (hhtml : html = before ++ after) (hrounds : after.length < rounds) :
    ∃ out, inlineParagraphLoop E html (toAsciiLowercase html) quoteUri rounds (len before) =
      some out ∧ ∀ r ∈ out, Without (InlineParagraphOut E quoteUri) html r := by
  induction rounds generalizing before after with
  | zero => exact absurd hrounds (Nat.not_lt_zero _)
  | succ rounds ih =>
    have hlower : sliceFrom (toAsciiLowercase html) (len before) =
        some (toAsciiLowercase after) := by
      rw [hhtml]
      exact sliceFrom_lower before after
    rw [inlineParagraphLoop, hlower]
    dsimp only [Option.bind_eq_bind, Option.bind_some, Option.pure_def]
    split
    · exact ⟨none, rfl, nofun⟩
    · rename_i relOpen hopen
      obtain ⟨skipped, rest, rfl, rfl, -⟩ := find_lower hopen
      obtain ⟨start, hstart⟩ : ∃ start, start = before ++ skipped := ⟨_, rfl⟩
      have hlen : len before + len skipped = len start := by rw [hstart, len_append]
      rw [← List.append_assoc, ← hstart] at hhtml
      have hrest : sliceFrom html (len start) = some rest := by
        rw [hhtml]
        exact sliceFrom_append start rest
      rw [hlen, hrest]
      dsimp only [Option.bind_some]
      split
      · exact ⟨none, rfl, nofun⟩
      · rename_i relTagEnd htagEnd
        obtain ⟨tag, text, rfl, rfl, hgt⟩ := find_char_eq_some htagEnd
        rw [List.append_cons] at hhtml
        have hlenTag : len start + len tag + 1 = len (start ++ (tag ++ ['>'])) := by
          rw [len_append, len_append]
          rfl
        have hslice : slice (toAsciiLowercase html) (len start) (len start + len tag + 1) =
            some (toAsciiLowercase (tag ++ ['>'])) := by
          rw [hhtml, hlenTag, len_append]
          exact slice_lower start (tag ++ ['>']) text
        rw [← List.append_assoc] at hhtml
        have htext : text.length < rounds := by
          simp only [List.length_append, List.length_cons] at hrounds
          omega
        have hskip := ih (start ++ (tag ++ ['>'])) text hhtml htext
        have hfrom : sliceFrom (toAsciiLowercase html) (len (start ++ (tag ++ ['>']))) =
            some (toAsciiLowercase text) := by
          rw [hhtml]
          exact sliceFrom_lower (start ++ (tag ++ ['>'])) text
        rw [hslice, hlenTag, hfrom]
        dsimp only [Option.bind_some]
        split
        · exact hskip
        · rename_i hclass
          rw [Bool.not_eq_true', Bool.not_eq_false, Bool.and_eq_true] at hclass
          split
          · exact hskip
          · rename_i relClose hrelClose
            obtain ⟨inner, close, after, rfl, rfl, hclose, hinner⟩ := exists_close hrelClose
            have hslice : slice html (len (start ++ (tag ++ ['>'])))
                (len (start ++ (tag ++ ['>'])) + len inner) = some inner := by
              rw [hhtml]
              exact slice_append _ inner (close ++ after)
            have hlenClose : len (start ++ (tag ++ ['>'])) + len inner + len "</p>".toList =
                len (start ++ (tag ++ ['>']) ++ (inner ++ close)) := by
              rw [len_append _ (inner ++ close), len_append inner, ← hclose, len_toAsciiLowercase,
                Nat.add_assoc]
            rw [← List.append_assoc inner, ← List.append_assoc] at hhtml
            have hnext : after.length < rounds := by
              simp only [List.length_append] at htext
              omega
            have hafter : sliceFrom html (len (start ++ (tag ++ ['>']) ++ (inner ++ close))) =
                some after := by
              rw [hhtml]
              exact sliceFrom_append _ after
            have hto : sliceTo html (len start) = some start := by
              rw [hhtml, List.append_assoc, List.append_assoc]
              exact sliceTo_append start _
            rw [hslice, hlenClose, hto, hafter]
            dsimp only [Option.bind_some]
            split
            · rename_i hmatches
              have hpart : InlineParagraph E quoteUri (tag ++ '>' :: (inner ++ close)) :=
                .intro (List.isPrefixOf_iff_prefix.mp hclass.1) hgt hclass.2 hinner hclose hmatches
              refine ⟨_, rfl, fun r hr => ?_⟩
              cases hr
              refine ⟨start, _, after, ?_, hpart, rfl, staysBalanced_inline hpart⟩
              rw [hhtml]
              simp only [List.append_assoc, List.cons_append, List.nil_append]
            · exact ih _ after hhtml hnext

theorem stripQuoteInlineParagraphHtml_ok (E : Env) (html quoteUri : Str) :
    ∃ out, stripQuoteInlineParagraphHtml E html quoteUri = some out ∧
      ∀ r ∈ out, Without (InlineParagraphOut E quoteUri) html r :=
  inlineParagraphLoop_ok _ [] html rfl (Nat.lt_succ_self _)

/-- What is not the fallback stays, and so does the balance of an HTML text out of which a part
is taken that leaves the same elements open. -/
theorem strip_only_fallback (E : Env) (text quoteUri : Str) :
    (∃ out, stripQuoteFallbackLine text quoteUri = some out ∧
      (out = text ∨ Without (LastLine quoteUri) text out)) ∧
    (∃ out, stripQuoteFallbackLineLeading text quoteUri = some out ∧
      (out = text ∨ Without (FirstLine quoteUri) text out)) ∧
    (∃ out, stripQuoteFallbackLineHtml E text quoteUri = some out ∧
      (out = text ∨ Without (LastBlockOut E quoteUri) text out)) ∧
    (∃ out, stripQuoteFallbackLineHtmlLeading E text quoteUri = some out ∧
      (out = text ∨ Without (FirstBlockOut E quoteUri) text out)) ∧
    ∃ out, stripQuoteInlineParagraphHtml E text quoteUri = some out ∧
      ∀ r ∈ out, Without (InlineParagraphOut E quoteUri) text r :=
  ⟨stripQuoteFallbackLine_ok text quoteUri, stripQuoteFallbackLineLeading_ok text quoteUri,
    stripQuoteFallbackLineHtml_ok E text quoteUri,
    stripQuoteFallbackLineHtmlLeading_ok E text quoteUri,
    stripQuoteInlineParagraphHtml_ok E text quoteUri⟩

/-- A paragraph that the line ends is left open, a marker has no colon, a paragraph of the class
has no marker, and a line has no URL. -/
theorem strip_only_fallback_counterexample :
    let E : Env := { decodeHtmlEntities := id, urlEncode := id, toLowercase := id }
    let quoteUri := "https://q.example/notes/123456".toList
    let html := "<p>本文<br>RE: <a>https://q.example/notes/123456</a></p>".toList
    (Balanced html ∧ stripQuoteFallbackLineHtml E html quoteUri = some "<p>本文".toList ∧
      ¬Balanced "<p>本文".toList) ∧
    stripQuoteFallbackLine "a\nRE https://q.example/notes/123456".toList quoteUri =
      some "a".toList ∧
    stripQuoteInlineParagraphHtml E
      "<p class=\"quote-inline\">https://q.example/notes/123456</p>".toList quoteUri =
      some (some []) ∧
    stripQuoteFallbackLine "a\nRE: q.example 123456".toList quoteUri = some "a".toList := by
  decide

end Seiran.Content
