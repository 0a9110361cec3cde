import Seiran.Framework.Json
import Seiran.Framework.Splice
import Seiran.Model.Mention.Mention

/-!
# Facets of a received post

`facets.rs`: links are written into the text of a post, and the ranges of its
mentions are stored beside it. `dto.rs`: the stored ranges are replaced by
handles when the post is shown. A post comes in through Jetstream
(`firehose.rs`) or is created through XRPC (`post_from_record.rs`).
-/

namespace Seiran.Facets

open Mention (Text utf8Len)

structure ParsedFacetIndex where
  byteStart : Nat
  byteEnd : Nat
  deriving DecidableEq

inductive ParsedFacetFeature
  | link (uri : Text)
  | mention (did : Text)
  | tag
  | unknown
  deriving DecidableEq

structure ParsedFacet where
  index : ParsedFacetIndex
  features : List ParsedFacetFeature
  deriving DecidableEq

structure MentionFacetSpan where
  byteStart : Nat
  byteEnd : Nat
  did : Text
  deriving DecidableEq

/-! ## Byte ranges of a text -/

/-- `text.is_char_boundary(index)` -/
def isCharBoundary (text : Text) (index : Nat) : Bool :=
  (Splice.split Char.utf8Size text index).isSome

/-- `text[start..stop]` -/
def slice (text : Text) (start stop : Nat) : Text :=
  match Splice.cut Char.utf8Size text start stop with
  | some (_, covered, _) => covered
  | none => []

/-- `text.replace_range(start..stop, replacement)` -/
def replaceRange (text : Text) (start stop : Nat) (replacement : Text) : Text :=
  match Splice.cut Char.utf8Size text start stop with
  | some (before, _, after) => before ++ replacement ++ after
  | none => text

/-! ## Storing -/

def ParsedFacetFeature.uri : ParsedFacetFeature → Option Text
  | .link uri => some uri
  | _ => none

def ParsedFacetFeature.did : ParsedFacetFeature → Option Text
  | .mention did => some did
  | _ => none

/-- What `apply_link_facets` takes out of a facet for `posts.mention_facets`. -/
def mentionSpans (text : Text) (facet : ParsedFacet) : List MentionFacetSpan :=
  if facet.index.byteStart ≥ facet.index.byteEnd || facet.index.byteEnd > utf8Len text ||
      !isCharBoundary text facet.index.byteStart || !isCharBoundary text facet.index.byteEnd then []
  else
    (facet.features.filterMap ParsedFacetFeature.did).map fun did =>
      ⟨facet.index.byteStart, facet.index.byteEnd, did⟩

def isLinkFacet (facet : ParsedFacet) : Bool := facet.features.any fun f => f.uri.isSome

/-- `format!("[{}]({})", original, uri)` -/
def markdownLink (original uri : Text) : Text := '[' :: original ++ "](".toList ++ uri ++ [')']

/-- One round of the loop of `apply_link_facets`: `result` and `upper_bound`. -/
def linkStep (state : Text × Nat) (facet : ParsedFacet) : Text × Nat :=
  let (result, upperBound) := state
  let start := facet.index.byteStart
  let stop := facet.index.byteEnd
  if start ≥ stop || stop > utf8Len result || stop > upperBound then state
  else if !isCharBoundary result start || !isCharBoundary result stop then state
  else
    match facet.features.findSome? ParsedFacetFeature.uri with
    | none => state
    | some uri =>
      (replaceRange result start stop (markdownLink (slice result start stop) uri), start)

/-- `sort_by_key(|x| Reverse(key(x)))` -/
def sortByKeyReverse {α : Type} (key : α → Nat) (xs : List α) : List α :=
  xs.mergeSort fun a b => decide (key b ≤ key a)

def applyLinkFacets (text : Text) (facets : List ParsedFacet) : Text × List MentionFacetSpan :=
  if facets.isEmpty then (text, [])
  else
    let linkFacets := sortByKeyReverse (fun f => f.index.byteStart) (facets.filter isLinkFacet)
    ((linkFacets.foldl linkStep (text, utf8Len text)).1, facets.flatMap (mentionSpans text))

/-- `serde_json::json!` of a span. -/
def MentionFacetSpan.json (s : MentionFacetSpan) : Json :=
  .obj [("byteEnd", .num (.posInt s.byteEnd)), ("byteStart", .num (.posInt s.byteStart)),
    ("did", .str (String.ofList s.did))]

def applyBskyFacets (text : Text) (facets : List ParsedFacet) : Text × Json :=
  if facets.isEmpty then (text, .arr [])
  else
    let (body, spans) := applyLinkFacets text facets
    (body, .arr (spans.map MentionFacetSpan.json))

/-- A record of `app.bsky.feed.post`, and the `body` of its `seiranPost`. -/
structure PostRecord where
  text : Text
  facets : List ParsedFacet
  seiranPost : Option Text

/-- `posts.body` and `posts.mention_facets` -/
structure StoredPost where
  body : Text
  mentionFacets : Json

/-- The row that Jetstream's `save_new_bsky_post` inserts. -/
def saveNewBskyPost (r : PostRecord) : StoredPost :=
  let (bodyText, mentionFacets) := applyBskyFacets r.text r.facets
  match r.seiranPost with
  | some body => ⟨body, mentionFacets⟩
  | none => ⟨bodyText, mentionFacets⟩

/-- The row of XRPC's `create_post_from_record`: `mention_facets` has its default unless
there is something to update. -/
def createPostFromRecord (r : PostRecord) : StoredPost :=
  let (bodyText, mentionFacets) := applyBskyFacets r.text r.facets
  match mentionFacets with
  | .arr (_ :: _) => ⟨bodyText, mentionFacets⟩
  | _ => ⟨bodyText, .arr []⟩

/-! ## Panics

`apply_link_facets` with `none` for a panic. Slicing and `replace_range` panic at an
offset that is not between two characters. -/

def sliceChecked (text : Text) (start stop : Nat) : Option Text :=
  if start ≤ stop ∧ isCharBoundary text start ∧ isCharBoundary text stop then
    some (slice text start stop)
  else none

def replaceRangeChecked (text : Text) (start stop : Nat) (replacement : Text) : Option Text :=
  if start ≤ stop ∧ isCharBoundary text start ∧ isCharBoundary text stop then
    some (replaceRange text start stop replacement)
  else none

def linkStepChecked (state : Text × Nat) (facet : ParsedFacet) : Option (Text × Nat) :=
  let (result, upperBound) := state
  let start := facet.index.byteStart
  let stop := facet.index.byteEnd
  if start ≥ stop || stop > utf8Len result || stop > upperBound then some state
  else if !isCharBoundary result start || !isCharBoundary result stop then some state
  else
    match facet.features.findSome? ParsedFacetFeature.uri with
    | none => some state
    | some uri => do
      let original ← sliceChecked result start stop
      let result ← replaceRangeChecked result start stop (markdownLink original uri)
      return (result, start)

def applyLinkFacetsChecked (text : Text) (facets : List ParsedFacet) :
    Option (Text × List MentionFacetSpan) :=
  if facets.isEmpty then some (text, [])
  else do
    let linkFacets := sortByKeyReverse (fun f => f.index.byteStart) (facets.filter isLinkFacet)
    let state ← linkFacets.foldlM linkStepChecked (text, utf8Len text)
    return (state.1, facets.flatMap (mentionSpans text))

/-! ## Showing -/

/-- `(start, end, did)` of a stored facet. -/
def spanOfJson (f : Json) : Option MentionFacetSpan := do
  let start ← f.getU64 "byteStart"
  let stop ← f.getU64 "byteEnd"
  let did ← f.getStr "did"
  return ⟨start, stop, did.toList⟩

/-- The handle that the loop of `apply_mention_facets` writes over the span. -/
def replacement (mentionPaths : Text → Option Text) (state : Text × Nat) (s : MentionFacetSpan) :
    Option Text :=
  let (result, upperBound) := state
  if s.byteStart ≥ s.byteEnd || s.byteEnd > utf8Len result || s.byteEnd > upperBound then none
  else if !isCharBoundary result s.byteStart || !isCharBoundary result s.byteEnd then none
  else mentionPaths s.did

/-- One round of the loop: `result` and `upper_bound`. -/
def mentionStep (mentionPaths : Text → Option Text) (state : Text × Nat) (s : MentionFacetSpan) :
    Text × Nat :=
  match replacement mentionPaths state s with
  | some handle => (replaceRange state.1 s.byteStart s.byteEnd handle, s.byteStart)
  | none => state

def applyMentionFacets (body : Text) (mentionFacets : Option Json)
    (mentionPaths : Text → Option Text) : Text :=
  match mentionFacets with
  | some (.arr facets) =>
    if facets.isEmpty then body
    else
      let spans := sortByKeyReverse MentionFacetSpan.byteStart (facets.filterMap spanOfJson)
      (spans.foldl (mentionStep mentionPaths) (body, utf8Len body)).1
  | _ => body

/-- The body that `resolve_mention_facets_in_place` shows. -/
def StoredPost.shown (p : StoredPost) (mentionPaths : Text → Option Text) : Text :=
  applyMentionFacets p.body (some p.mentionFacets) mentionPaths

end Seiran.Facets
