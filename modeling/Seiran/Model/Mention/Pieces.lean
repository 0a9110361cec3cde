import Seiran.Model.Mention.Mention

/-!
# The pieces of a post's text

What the loops of `convert_mentions_for_bsky`, `convert_mentions_for_ap` and
`scan_mention_tokens` take the text for, as a list of pieces with their spans, and what
the first two write for a piece. The three differ in `@user@` with no domain: it is a
token with an empty domain for `scan_mention_tokens`, and the others copy it.
-/

namespace Seiran.Mention

inductive Piece
  /-- What is copied, or passed over. -/
  | plain (text : Text)
  | url (text : Text)
  | hashtag (tag : Text)
  | mention (t : MentionToken)
  deriving DecidableEq

/-- The characters that the piece is. -/
def Piece.source : Piece → Text
  | .plain text => text
  | .url text => text
  | .hashtag tag => '#' :: tag
  | .mention t => '@' :: t.username ++ (t.domain.map fun domain => '@' :: domain).getD []

/-- The mention that the piece is. -/
def Piece.token : Piece → Option MentionToken
  | .mention t => some t
  | _ => none

/-- A piece from one character up to another. -/
structure Span where
  start : Nat
  stop : Nat
  piece : Piece
  deriving DecidableEq

/-- `@user@` is copied. -/
def copied (username : Text) : Piece := .plain ('@' :: username ++ ['@'])

/-- `@user@` is a token. -/
def tokened (username : Text) : Piece := .mention ⟨username, some []⟩

section

variable (U : Unicode) (bare : Text → Piece)

def mentionPiece (t : MentionToken) : Piece :=
  match t.domain with
  | some [] => bare t.username
  | _ => .mention t

/-- The piece that starts here, and where the loop goes on. -/
def pieceAt (chars : Text) (i : Nat) (hi : i < chars.length) : Piece × Nat :=
  match U.urlAt chars i with
  | some stop => (.url (slice chars i stop), stop)
  | none =>
    match U.hashtagAt chars i with
    | some (tag, stop) => (.hashtag tag, stop)
    | none =>
      if chars[i] ≠ '@' then (.plain [chars[i]], i + 1)
      else if Unicode.wordBefore [] chars i then (.plain ['@'], i + 1)
      else if U.usernameEnd chars (i + 1) = i + 1 then (.plain ['@'], i + 1)
      else
        match U.domainEnd chars (U.usernameEnd chars (i + 1)) with
        | some stop =>
          (mentionPiece bare ⟨slice chars (i + 1) (U.usernameEnd chars (i + 1)),
            some (slice chars (U.usernameEnd chars (i + 1) + 1) stop)⟩, stop)
        | none =>
          (mentionPiece bare ⟨slice chars (i + 1) (U.usernameEnd chars (i + 1)), none⟩,
            U.usernameEnd chars (i + 1))

theorem lt_pieceAt (chars : Text) (i : Nat) (hi : i < chars.length) :
    i < (pieceAt U bare chars i hi).2 := by
  have hname : i + 1 ≤ U.usernameEnd chars (i + 1) := Unicode.le_spanEnd _ _ _
  rw [pieceAt]
  split
  · rename_i hurl
    exact U.lt_of_urlAt hurl
  · split
    · rename_i htag
      exact U.lt_of_hashtagAt htag
    · split
      · exact Nat.lt_succ_self i
      · split
        · exact Nat.lt_succ_self i
        · split
          · exact Nat.lt_succ_self i
          · split
            · rename_i hdomain
              exact Nat.lt_trans hname (U.lt_of_domainEnd hdomain)
            · exact hname

def piecesFrom (chars : Text) (i : Nat) : List Span :=
  if hi : i < chars.length then
    have := lt_pieceAt U bare chars i hi
    ⟨i, (pieceAt U bare chars i hi).2, (pieceAt U bare chars i hi).1⟩ ::
      piecesFrom chars (pieceAt U bare chars i hi).2
  else []
termination_by chars.length - i

def pieces (text : Text) : List Span := piecesFrom U bare text 0

end

section

variable (R : Resolvers) (localDomain : Text)

/-- What `convert_mentions_for_bsky` writes for a piece. -/
def bskyPiece : Piece → Nat → Text × List Facet
  | .plain text, _ => (text, [])
  | .url url, byteStart => withFacet byteStart url (some (.link url))
  | .hashtag tag, byteStart => withFacet byteStart ('#' :: tag) (some (.tag tag))
  | .mention t, byteStart => bskyMention R localDomain t byteStart

/-- What `convert_mentions_for_ap` writes for a piece. -/
def apPiece (U : Unicode) : Piece → Nat → Text × List ApInlineMention
  | .plain text, _ => (text, [])
  | .url url, byteStart => withSpan byteStart url url .link
  | .hashtag tag, byteStart =>
    withSpan byteStart ('#' :: tag)
      ("https://".toList ++ localDomain ++ "/tags/".toList ++ U.toLowercase tag) .hashtag
  | .mention t, byteStart => apMention R localDomain t byteStart

end

/-- The pieces are written one after another. -/
def writeFrom {α : Type} (write : Piece → Nat → Text × List α) (state : Text × List α)
    (spans : List Span) : Text × List α :=
  spans.foldl (fun state s =>
    (state.1 ++ (write s.piece (utf8Len state.1)).1,
      state.2 ++ (write s.piece (utf8Len state.1)).2)) state

/-- A mention and its bytes in the text. -/
structure MentionAt where
  byteStart : Nat
  byteEnd : Nat
  token : MentionToken
  deriving DecidableEq

def mentionAt (text : Text) (s : Span) : Option MentionAt :=
  s.piece.token.map fun t => ⟨utf8Len (text.take s.start), utf8Len (text.take s.stop), t⟩

/-- The mentions among the pieces. -/
def mentionsIn (text : Text) (spans : List Span) : List MentionAt :=
  spans.filterMap (mentionAt text)

end Seiran.Mention
