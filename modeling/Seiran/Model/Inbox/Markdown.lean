import Seiran.Framework.References
import Seiran.Model.Inbox.Anchors

/-!
# Texts in the HTML of a note

Where in an HTML text another text can be put, and what `ap_content_to_markdown_body` is to make
of it there.
-/

namespace Seiran.Content

open Lists (isWhitespace)
open References (Apart Decoder)

/-- How many characters are no white space -/
def visible (s : Str) : Nat := s.countP fun c => !isWhitespace c

/-- What is documented of the decoder: it knows the references that escaping makes, and what a
reference stands for is shorter than the reference. -/
structure Env.Decodes (E : Env) : Prop where
  decoder : Decoder E.decodeHtmlEntities
  amp : E.decodeHtmlEntities "&amp;".toList = ['&']
  quot : E.decodeHtmlEntities "&quot;".toList = ['"']
  lt : E.decodeHtmlEntities "&lt;".toList = ['<']
  gt : E.decodeHtmlEntities "&gt;".toList = ['>']
  fewer (s : Str) : E.decodeHtmlEntities s ≠ s → visible (E.decodeHtmlEntities s) < visible s

/-- A tag or an anchor that has its last `>` -/
def Piece.isComplete : Piece → Bool
  | .char _ => true
  | .tag whole => whole.getLast? = some '>'
  | .anchor a => a.closing.any fun closing => closing.getLast? = some '>'

/-- Whether the characters leave off within a tag -/
def inTagAfter : Str → Bool → Bool
  | [], inInnerTag => inInnerTag
  | c :: rest, inInnerTag =>
    if c = '>' then inTagAfter rest false else inTagAfter rest (c = '<' || inInnerTag)

section

variable (E : Env) (tags : List Json) (senderDomain : Str)

/-! ## What is made of an anchor -/

/-- What a piece is in `out` -/
def Piece.written : Piece → Str
  | .char c => [c]
  | .tag whole => tagBreakText (tagInner whole.tail)
  | .anchor a => (a.segment E).flatMap (HtmlSegment.markdown tags senderDomain) ++ [' ']

namespace Anchor

variable (a : Anchor)

/-- The link that it is wrapped as, if it is no mention -/
def markdownLink : Option Link :=
  (a.link E).filter fun l => (l.mention tags senderDomain).isNone

/-- Its text, or the name of a mention -/
def shown : Str := ((a.link E).bind (Link.mention tags senderDomain)).getD (a.text E)

/-- A text in the place of its own -/
def wrapped (text : Str) : Str :=
  match a.markdownLink E tags senderDomain with
  | some l => '[' :: text ++ ']' :: '(' :: E.decodeHtmlEntities l.href ++ [')']
  | none => text

end Anchor

/-! ## Places -/

inductive Place where
  | outside (before after : Str)
  /-- In an anchor, between `inner` and `after` -/
  | inside (before tag inner after : Str)

namespace Place

/-- The anchor around a text, from after its `<` -/
def opened (tag inner after t : Str) : Str := tag ++ '>' :: (inner ++ (escapeHtmlText t ++ after))

/-- The HTML with a text at the place -/
def body : Place → Str → Str
  | outside before after, t => before ++ (escapeHtmlText t ++ after)
  | inside before tag inner after, t => before ++ '<' :: opened tag inner after t

/-- The place is for text: in no tag, and in no reference. -/
def IsText : Place → Str → Prop
  | outside before _, t =>
    (∀ p ∈ scan before, p.isComplete = true) ∧ Apart before (escapeHtmlText t)
  | inside before tag inner after, t =>
    (∀ p ∈ scan before, p.isComplete = true) ∧
    isAnchorOpen tag = true ∧ '>' ∉ tag ∧
    (splitClosing inner).2 = [] ∧ inTagAfter inner false = false ∧
    Apart (plain inner false) (escapeHtmlText t) ∧
    Apart before ((Piece.anchor (anchorAt (opened tag inner after t))).written E tags senderDomain)

instance (place : Place) (t : Str) : Decidable (place.IsText E tags senderDomain t) :=
  match place with
  | outside _ _ => inferInstanceAs (Decidable (_ ∧ _))
  | inside _ _ _ _ => inferInstanceAs (Decidable (_ ∧ _))

/-- The text is there, decoded once. -/
def DecodedOnce : Place → Str → Prop
  | outside before after, t =>
    apContentToMarkdownBody E tags senderDomain (body (outside before after) t) =
      normalizeWhitespacePreservingNewlines
        (markdownText E tags senderDomain before ++ t ++ markdownText E tags senderDomain after)
  | inside before tag inner after, t =>
    let a := anchorAt (opened tag inner after t)
    apContentToMarkdownBody E tags senderDomain (body (inside before tag inner after) t) =
      normalizeWhitespacePreservingNewlines
        (markdownText E tags senderDomain before ++
          a.wrapped E tags senderDomain (a.shown E tags senderDomain) ++
          ' ' :: markdownText E tags senderDomain (afterTag (splitClosing after).2)) ∧
      trim t <:+: a.text E

/-- No reference is left in what stands for the anchor. -/
def IsSettled : Place → Str → Prop
  | outside _ _, _ => True
  | inside _ tag inner after, t =>
    let shown := (anchorAt (opened tag inner after t)).shown E tags senderDomain
    E.decodeHtmlEntities shown = shown

instance (place : Place) (t : Str) : Decidable (place.IsSettled E tags senderDomain t) :=
  match place with
  | outside _ _ => .isTrue trivial
  | inside _ _ _ _ => inferInstanceAs (Decidable (_ = _))

end Place

end

end Seiran.Content
