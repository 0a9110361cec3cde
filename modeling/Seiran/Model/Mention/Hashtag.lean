import Seiran.Model.Mention.Pieces

/-!
# Hashtags to store

`extract_hashtags` of `hashtag.rs`, and the hashtags that a text shows, with those that
are part of a URL. `scan_hashtag`, by its comment, has the rules of `extract_hashtags`,
but the conversion for Bluesky does not look for hashtags inside of URLs.
-/

namespace Seiran.Mention

section

variable (U : Unicode)

/-- The loop of `extract_hashtags` from `i`. `seen` has the tags of the result. -/
def extractLoop (chars : Text) (i : Nat) (result : List Text) : List Text :=
  if hi : i < chars.length then
    if chars[i] = '#' ∧ !Unicode.wordBefore ['/'] chars i then
      let j := spanEnd (fun c => U.isAlphanumeric c || c == '_') chars (i + 1)
      if i + 1 < j then
        extractLoop chars j
          (if (slice chars (i + 1) j).any U.isAlphabetic then
            pushNew result (U.toLowercase (slice chars (i + 1) j))
          else result)
      else extractLoop chars (i + 1) result
    else extractLoop chars (i + 1) result
  else result
termination_by chars.length - i

def extractHashtags (text : Text) : List Text := extractLoop U text 0 []

def Facet.tag (f : Facet) : Option Text :=
  match f.feature with
  | .tag tag => some tag
  | _ => none

/-- The tags of the facets for Bluesky, in lower case and each of them once. -/
def deliveredHashtags (R : Resolvers) (localDomain text : Text) : List Text :=
  (((convertMentionsForBsky U R localDomain text).2.filterMap Facet.tag).map
    U.toLowercase).foldl pushNew []

/-! ## Hashtags and URLs -/

/-- A hashtag of the text, in lower case, and whether it is part of a URL. -/
structure Shown where
  tag : Text
  inUrl : Bool
  deriving DecidableEq

/-- The tags of the hashes from one character up to another, in lower case. -/
def hashtagsBetween (chars : Text) (start stop : Nat) : List Text :=
  (List.range' start (stop - start)).filterMap fun i =>
    (U.hashtagAt chars i).map fun h => U.toLowercase h.1

def shownAt (chars : Text) (s : Span) : List Shown :=
  match s.piece with
  | .hashtag tag => [⟨U.toLowercase tag, false⟩]
  | .url _ => (hashtagsBetween U chars s.start s.stop).map fun tag => ⟨tag, true⟩
  | _ => []

def shown (text : Text) : List Shown := (pieces U copied text).flatMap (shownAt U text)

/-- Every tag that a URL is the first to show is written outside of URLs later, and
before any other new tag is. `written` are the tags outside of URLs so far, `waiting` those
that only URLs have shown. -/
def settles (written waiting : List Text) : List Shown → Bool
  | [] => waiting.isEmpty
  | s :: rest =>
    if s.inUrl then
      settles written (if s.tag ∈ written ++ waiting then waiting else waiting ++ [s.tag]) rest
    else if s.tag ∈ written then settles written waiting rest
    else
      match waiting with
      | [] => settles (written ++ [s.tag]) [] rest
      | first :: waiting => first == s.tag && settles (written ++ [s.tag]) waiting rest

end

end Seiran.Mention
