import Seiran.Model.Inbox.Content

/-!
# The anchors of an HTML text

What the loops of `tokenize_anchors` and `rewrite_mention_hashtag_hrefs` take an HTML text
for, as a list of pieces, and what each of the two makes of a piece.
-/

namespace Seiran.Content

/-- An anchor from its `<` to the end of its `</a>`, or of the text where it has none -/
structure Anchor where
  /-- From `<` to `>` -/
  opening : Str
  raw : Str
  /-- From `<` to `>`, if there is one -/
  closing : Option Str
deriving DecidableEq

inductive Piece where
  | char (c : Char)
  /-- A tag that does not open an anchor, from `<` to `>` -/
  | tag (whole : Str)
  | anchor (a : Anchor)
deriving DecidableEq

/-- The characters that the piece is -/
def Piece.source : Piece → Str
  | .char c => [c]
  | .tag whole => whole
  | .anchor a => a.opening ++ a.raw ++ a.closing.getD []

/-- The content of an anchor up to `</a>`, and from there on -/
def splitClosing : Str → Str × Str
  | [] => ([], [])
  | c :: rest =>
    if isClosing (c :: rest) then ([], c :: rest)
    else ((c :: (splitClosing rest).1), (splitClosing rest).2)

/-- The closing tag that what is left starts with -/
def closingTag : Str → Option Str
  | [] => none
  | _ :: rest => some (wholeTag rest)

theorem length_splitClosing (chars : Str) :
    (splitClosing chars).1.length + (splitClosing chars).2.length = chars.length := by
  induction chars with
  | nil => rfl
  | cons c rest ih =>
    rw [splitClosing]
    split
    · exact Nat.zero_add _
    · rw [List.length_cons, List.length_cons, Nat.add_right_comm, ih]

theorem length_afterTag_splitClosing_le (chars : Str) :
    (afterTag (splitClosing chars).2).length ≤ chars.length := by
  have hle := length_afterTag_le (splitClosing chars).2
  have hlen := length_splitClosing chars
  omega

/-- The anchor that starts with the tag that `chars` starts with -/
def anchorAt (chars : Str) : Anchor where
  opening := wholeTag chars
  raw := (splitClosing (afterTag chars)).1
  closing := closingTag (splitClosing (afterTag chars)).2

/-- What comes after it -/
def afterAnchor (chars : Str) : Str := afterTag (splitClosing (afterTag chars)).2

theorem length_afterAnchor_le (chars : Str) : (afterAnchor chars).length ≤ chars.length :=
  Nat.le_trans (length_afterTag_splitClosing_le _) (length_afterTag_le chars)

def scan (html : Str) : List Piece :=
  match html with
  | [] => []
  | c :: rest =>
    if c ≠ '<' then .char c :: scan rest
    else if !isAnchorOpen (tagInner rest) then .tag (wholeTag rest) :: scan (afterTag rest)
    else .anchor (anchorAt rest) :: scan (afterAnchor rest)
termination_by html.length
decreasing_by
  · exact Nat.lt_succ_self _
  · exact Nat.lt_succ_of_le (length_afterTag_le rest)
  · exact Nat.lt_succ_of_le (length_afterAnchor_le rest)

/-- The characters outside of tags, in or out of one at the start -/
def plain : Str → Bool → Str
  | [], _ => []
  | c :: rest, inInnerTag =>
    if c = '>' then plain rest false
    else if c = '<' || inInnerTag then plain rest true
    else c :: plain rest false

namespace Anchor

variable (E : Env) (a : Anchor)

/-- What is between `<` and `>` -/
def tagInner : Str := Content.tagInner a.opening.tail

def href : Option Str := extractHrefAttr a.tagInner

/-- The text without tags, decoded -/
def text : Str := E.decodeHtmlEntities (trim (plain a.raw false))

/-- The link that it is, if it has an `href` and a text -/
def link : Option Link :=
  a.href.bind fun href =>
    if (a.text E).isEmpty then none
    else some { href, text := a.text E, isMentionClass := isMentionClass a.tagInner,
                isHashtag := isHashtag a.tagInner }

/-- Without an `href`, the text is left. -/
def segment : List HtmlSegment :=
  match a.link E with
  | some l => [.link l]
  | none => if a.href.isNone then takeText (a.text E) else []

end Anchor

/-- The segments of the pieces, after some text -/
def segments (E : Env) (textBuf : Str) : List Piece → List HtmlSegment
  | [] => takeText textBuf
  | .char c :: pieces => segments E (textBuf ++ [c]) pieces
  | .tag whole :: pieces => segments E (textBuf ++ tagBreakText (tagInner whole.tail)) pieces
  | .anchor a :: pieces => takeText textBuf ++ a.segment E ++ segments E [' '] pieces

section

variable (E : Env) (tags : List Json) (senderDomain : Str)

/-- The `href` that an anchor is given: a new one for a link that is closed, its own otherwise -/
def Anchor.givenHref (a : Anchor) : Str :=
  let href := a.href.getD []
  if a.closing.isSome then
    ((newHref E tags senderDomain href (a.text E) (isMentionClass a.tagInner)
      (isHashtag a.tagInner)).map escapeHtmlAttr).getD href
  else href

/-- The `href` that a link calls for -/
def Link.newHref (l : Link) : Option Str :=
  Content.newHref E tags senderDomain l.href l.text l.isMentionClass l.isHashtag

/-- The anchor is given the `href` that its link calls for, and keeps its own if there is none. -/
def Anchor.Agrees (a : Anchor) : Prop :=
  a.givenHref E tags senderDomain =
    (((a.link E).bind (Link.newHref E tags senderDomain)).map escapeHtmlAttr).getD (a.href.getD [])

instance (a : Anchor) : Decidable (a.Agrees E tags senderDomain) :=
  inferInstanceAs (Decidable (_ = _))

/-- What a piece is rewritten to -/
def Piece.rewritten : Piece → Str
  | .char c => [c]
  | .tag whole => whole
  | .anchor a => openAnchor (a.givenHref E tags senderDomain) ++ a.raw ++
      if a.closing.isSome then "</a>".toList else []

/-- A piece is copied, up to the tags of an anchor: its opening tag has the `href` that the
anchor is given. -/
inductive Piece.RewrittenTo : Piece → Str → Prop where
  | char (c : Char) : RewrittenTo (.char c) [c]
  | tag (whole : Str) : RewrittenTo (.tag whole) whole
  | anchor (a : Anchor) (opening closing : Str)
      (isOpen : isAnchorOpen (tagInner opening.tail) = true)
      (hasHref : '"' ∉ a.givenHref E tags senderDomain →
        extractHrefAttr (tagInner opening.tail) = some (a.givenHref E tags senderDomain))
      (isClosed : a.closing.isSome = true → isClosing closing = true)
      (notClosed : a.closing = none → closing = []) :
      RewrittenTo (.anchor a) (opening ++ a.raw ++ closing)

end

/-- The anchors of an HTML text -/
def anchors (html : Str) : List Anchor :=
  (scan html).filterMap fun p => match p with
    | .anchor a => some a
    | _ => none

end Seiran.Content
