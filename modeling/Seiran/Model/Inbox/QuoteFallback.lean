import Seiran.Framework.Markup
import Seiran.Model.Inbox.Anchors

/-!
# The fallback of a quote

`strip_quote_fallback_line` and `strip_quote_fallback_line_leading` (`note_input.rs`), and the
three functions for HTML (`content.rs`), with what they are to take out of a text. The result is
`none` where the code would panic, and where a loop does not end.
-/

namespace Seiran.Content

open Lists (isWhitespace)

/-! ## The functions of `str` -/

/-- The byte offset of the last occurrence -/
def rfind (needle : Str) : Str → Option Nat
  | [] => if needle.isEmpty then some 0 else none
  | c :: cs =>
    match rfind needle cs with
    | some n => some (c.utf8Size + n)
    | none => if needle.isPrefixOf (c :: cs) then some 0 else none

def contains (text needle : Str) : Bool := (find needle text).isSome

/-- `&s[start..stop]` -/
def slice (s : Str) (start stop : Nat) : Option Str :=
  (Splice.cut Char.utf8Size s start stop).map fun p => p.2.1

/-! ## Lines -/

def startsWithQuoteMarker (line : Str) : Bool :=
  ["RE:".toList, "QT:".toList, "RE ".toList, "QT ".toList].any fun marker =>
    marker.isPrefixOf line

/-- `split("://").nth(1)`, up to the next `/` -/
def uriHost (quoteUri : Str) : Option Str := do
  let (_, rest) ← splitOnce slashes quoteUri
  let rest := ((splitOnce slashes rest).map Prod.fst).getD rest
  let host := rest.takeWhile (· ≠ '/')
  if host.isEmpty then none else some host

/-- `rsplit('/').next()` -/
def uriId (quoteUri : Str) : Str := (quoteUri.reverse.takeWhile (· ≠ '/')).reverse

def quoteUriMatches (text quoteUri : Str) : Bool :=
  if contains text quoteUri then true
  else
    let id := uriId quoteUri
    let idOk := 6 ≤ len id && id.all Char.isAlphanum
    match uriHost quoteUri with
    | some host => idOk && contains text host && contains text id
    | none => false

def isFallback (text quoteUri : Str) : Bool :=
  startsWithQuoteMarker text && quoteUriMatches text quoteUri

def stripQuoteFallbackLine (body quoteUri : Str) : Option Str := do
  let trimmed := trimEnd body
  let lastLineStart := ((rfind ['\n'] trimmed).map (· + 1)).getD 0
  let lastLine := trim (← sliceFrom trimmed lastLineStart)
  if isFallback lastLine quoteUri then return trimEnd (← sliceTo trimmed lastLineStart)
  else return body

def stripQuoteFallbackLineLeading (body quoteUri : Str) : Option Str := do
  let trimmed := trimStart body
  let firstLineEnd := (find ['\n'] trimmed).getD (len trimmed)
  let firstLine := trim (← sliceTo trimmed firstLineEnd)
  if isFallback firstLine quoteUri then return trimStart (← sliceFrom trimmed firstLineEnd)
  else return body

/-! ## HTML -/

section

variable (E : Env)

def stripTagsVerbatim (s : Str) : Str := E.decodeHtmlEntities (trim (plain s false))

/-- The loop of `strip_quote_inline_paragraph_html`, which does not end where the rounds run
out -/
def inlineParagraphLoop (html lower quoteUri : Str) : Nat → Nat → Option (Option Str)
  | 0, _ => none
  | rounds + 1, searchFrom => do
    match find "<p".toList (← sliceFrom lower searchFrom) with
    | none => return none
    | some relOpen =>
      let start := searchFrom + relOpen
      match find ['>'] (← sliceFrom html start) with
      | none => return none
      | some relTagEnd =>
        let tagEnd := start + relTagEnd + 1
        let tag ← slice lower start tagEnd
        if !("<p ".toList.isPrefixOf tag && contains tag "quote-inline".toList) then
          inlineParagraphLoop html lower quoteUri rounds tagEnd
        else
          match find "</p>".toList (← sliceFrom lower tagEnd) with
          | none => inlineParagraphLoop html lower quoteUri rounds tagEnd
          | some relClose =>
            let closeEnd := tagEnd + relClose + len "</p>".toList
            let innerText := stripTagsVerbatim E (← slice html tagEnd (tagEnd + relClose))
            if quoteUriMatches innerText quoteUri then
              return some ((← sliceTo html start) ++ (← sliceFrom html closeEnd))
            else inlineParagraphLoop html lower quoteUri rounds closeEnd

def stripQuoteInlineParagraphHtml (html quoteUri : Str) : Option (Option Str) :=
  inlineParagraphLoop E html (toAsciiLowercase html) quoteUri (html.length + 1) 0

/-- `idx + o + 1` for the next `>`, or `idx` -/
def tagEnd (trimmed : Str) (idx : Nat) : Option Nat := do
  let rest ← sliceFrom trimmed idx
  return ((find ['>'] rest).map (idx + · + 1)).getD idx

/-- The end of the `</p>` or of the `<br>` at an offset -/
def blockEnd (trimmed : Str) (idx : Nat) : Option Nat := do
  if "</p>".toList.isPrefixOf (← sliceFrom (toAsciiLowercase trimmed) idx) then
    return idx + len "</p>".toList
  else tagEnd trimmed idx

def stripQuoteFallbackLineHtmlLeading (html quoteUri : Str) : Option Str := do
  let trimmed := trimStart html
  let lower := toAsciiLowercase trimmed
  match [find "<br".toList lower, find "</p>".toList lower].reduceOption.min? with
  | none => return html
  | some idx =>
    let blockEnd ← blockEnd trimmed idx
    let firstBlock := stripTagsVerbatim E (← sliceTo trimmed idx)
    if isFallback firstBlock quoteUri then return trimStart (← sliceFrom trimmed blockEnd)
    else return html

def stripQuoteFallbackLineHtml (html quoteUri : Str) : Option Str := do
  let trimmed := trimEnd html
  let lower := toAsciiLowercase trimmed
  let (before, after) ←
    match [rfind "<br".toList lower, rfind "<p".toList lower].reduceOption.max? with
    | some idx => do
      let close ← tagEnd trimmed idx
      pure (← sliceTo trimmed idx, ← sliceFrom trimmed close)
    | none => pure ([], trimmed)
  let lastLine := stripTagsVerbatim E after
  if isFallback lastLine quoteUri then return trimEnd before else return html

end

/-! ## Elements -/

/-- The elements that have no end tag -/
def voidElements : List Str :=
  ["area", "base", "br", "col", "embed", "hr", "img", "input", "link", "meta", "source", "track",
    "wbr"].map String.toList

def tagName (inner : Str) : Str :=
  toAsciiLowercase (inner.takeWhile fun c => !isWhitespace c && c ≠ '/')

def tagEffect (inner : Str) : Markup.Effect Str :=
  match inner with
  | '/' :: inner => .closes (tagName inner)
  -- a comment or a declaration
  | '!' :: _ => .neither
  | _ => if voidElements.contains (tagName inner) then .neither else .opens (tagName inner)

abbrev Balanced (html : Str) : Prop := Markup.Balanced tagEffect html

/-- Without the part, what was balanced stays so if and only if the same elements are open
before and after the part. -/
def StaysBalanced (before part after out : Str) : Prop :=
  Balanced (before ++ (part ++ after)) → (Balanced out ↔ Markup.Neutral tagEffect before part)

/-! ## What is taken out -/

/-- A text with the marker in it, in lower or in upper case -/
def Has (marker : String) (text : Str) : Prop :=
  contains (toAsciiLowercase text) marker.toList = true

def Starts (marker : String) (text : Str) : Prop := marker.toList <+: toAsciiLowercase text

def Blank (text : Str) : Prop := ∀ c ∈ text, isWhitespace c = true

/-- A whole line -/
structure IsLine (before line after : Str) : Prop where
  noBreak : '\n' ∉ line
  start : before = [] ∨ ∃ s, before = s ++ ['\n']
  stop : after = [] ∨ ∃ s, after = '\n' :: s

section

variable (E : Env) (quoteUri : Str)

structure LastLine (before line after out : Str) : Prop extends IsLine before line after where
  blank : Blank after
  isFallback : isFallback (trim line) quoteUri
  out_eq : out = trimEnd before

structure FirstLine (before line after out : Str) : Prop extends IsLine before line after where
  blank : Blank before
  isFallback : isFallback (trim line) quoteUri
  out_eq : out = trimStart after

/-- A `</p>`, or a `<br>`, or nothing before one that has no `>` -/
inductive IsBreak : Str → Str → Prop
  | paragraph {tag after : Str} (hclose : toAsciiLowercase tag = "</p>".toList) : IsBreak tag after
  | line {tag after : Str} (hbr : Starts "<br" (tag ++ '>' :: after)) (hgt : '>' ∉ tag) :
    IsBreak (tag ++ ['>']) after
  | cutOff {after : Str} (hbr : Starts "<br" after) (hgt : '>' ∉ after) : IsBreak [] after

/-- A text up to the first `<br>` or `</p>` -/
inductive FirstBlock : Str → Str → Prop
  | intro {block tag after : Str} (hbr : ¬Has "<br" block) (hclose : ¬Has "</p>" block)
    (hbreak : IsBreak tag after) (hfallback : isFallback (stripTagsVerbatim E block) quoteUri) :
    FirstBlock (block ++ tag) after

structure FirstBlockOut (before part after out : Str) : Prop where
  blank : Blank before
  block : FirstBlock E quoteUri part after
  out_eq : out = trimStart after
  staysBalanced : StaysBalanced before part after out

/-- A text from the last `<br` or `<p` on, or all of one that has neither -/
inductive LastBlock : Str → Str → Prop
  | whole {part : Str} (hbr : ¬Has "<br" part) (hp : ¬Has "<p" part)
    (hfallback : isFallback (stripTagsVerbatim E part) quoteUri) : LastBlock [] part
  | tagged {before tag text : Str}
    (hstart : Starts "<br" ('<' :: (tag ++ '>' :: text)) ∨ Starts "<p" ('<' :: (tag ++ '>' :: text)))
    (hgt : '>' ∉ tag) (hbr : ¬Has "<br" (tag ++ '>' :: text)) (hp : ¬Has "<p" (tag ++ '>' :: text))
    (hfallback : isFallback (stripTagsVerbatim E text) quoteUri) :
    LastBlock before ('<' :: (tag ++ '>' :: text))
  | cutOff {before tag : Str} (hgt : '>' ∉ tag)
    (hfallback : isFallback (stripTagsVerbatim E ('<' :: tag)) quoteUri) :
    LastBlock before ('<' :: tag)

structure LastBlockOut (before part after out : Str) : Prop where
  blank : Blank after
  block : LastBlock E quoteUri before part
  out_eq : out = trimEnd before
  staysBalanced : StaysBalanced before part after out

/-- A `<p>` of the class, up to the first `</p>` -/
inductive InlineParagraph : Str → Prop
  | intro {tag inner close : Str} (hstart : Starts "<p " (tag ++ ['>'])) (hgt : '>' ∉ tag)
    (hclass : Has "quote-inline" (tag ++ ['>'])) (hinner : ¬Has "</p>" inner)
    (hclose : toAsciiLowercase close = "</p>".toList)
    (hmatches : quoteUriMatches (stripTagsVerbatim E inner) quoteUri) :
    InlineParagraph (tag ++ '>' :: (inner ++ close))

structure InlineParagraphOut (before part after out : Str) : Prop where
  paragraph : InlineParagraph E quoteUri part
  out_eq : out = before ++ after
  staysBalanced : Markup.Outside tagEffect before → StaysBalanced before part after out

end

/-- A text without the one part that may be taken out of it -/
def Without (removed : Str → Str → Str → Str → Prop) (text out : Str) : Prop :=
  ∃ before part after, text = before ++ (part ++ after) ∧ removed before part after out

end Seiran.Content
