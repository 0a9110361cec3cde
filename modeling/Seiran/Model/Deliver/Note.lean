import Mathlib.Data.Char
import Mathlib.Data.List.Dedup
import Mathlib.Data.List.Lex
import Mathlib.Data.List.Sort
import Seiran.Model.Mention.Mention
import Seiran.Model.Timeline.Database

/-!
# Notes for ActivityPub

The rows that a delivery reads, and the Note of a local post as
`ap/deliver/activity.rs` builds it. The HTML, the times, the attachments and the
`seiranPost` extension are left out; `quoteUrl` stands for `_misskey_quote` too.
-/

namespace Seiran.Deliver

open Timeline (ActorType Visibility Follow PostRecipient)
open Mention (Text)

structure Actor where
  id : Int64
  actorType : ActorType
  username : Text
  apUri : Option Text := none
  apInboxUrl : Option Text := none
  /-- `withdrawn_at IS NOT NULL` -/
  withdrawn : Bool := false
deriving DecidableEq

structure PollOption where
  name : Text
  votes : Int
deriving DecidableEq

/-- `posts.poll` -/
structure Poll where
  multiple : Bool
  options : List PollOption
  endTime : Option Text
deriving DecidableEq

structure Post where
  id : Int64
  actorId : Int64
  body : Text := []
  visibility : Visibility := .pub
  /-- `deleted_at IS NOT NULL` -/
  deleted : Bool := false
  replyToPostId : Option Int64 := none
  quoteOfPostId : Option Int64 := none
  repostOfPostId : Option Int64 := none
  apObjectId : Option Text := none
  atUri : Option Text := none
  bridgeOfPostId : Option Int64 := none
  apBridgePostId : Option Int64 := none
  atpBridgePostId : Option Int64 := none
  deliverFedi : Bool := true
  emojiMap : List (Text × Text) := []
  poll : Option Poll := none
  contentWarning : Option Text := none
deriving DecidableEq

structure Reaction where
  postId : Int64
  actorId : Int64
deriving DecidableEq

structure PinnedPost where
  actorId : Int64
  postId : Int64
deriving DecidableEq

/-- A row of `fediverse_relays` -/
structure Relay where
  inboxUrl : Text
  /-- `status = 'accepted'` -/
  accepted : Bool
deriving DecidableEq

structure Tables where
  actors : List Actor := []
  posts : List Post := []
  follows : List Follow := []
  postRecipients : List PostRecipient := []
  reactions : List Reaction := []
  pinnedPosts : List PinnedPost := []
  relays : List Relay := []
deriving DecidableEq

def Tables.actor (db : Tables) (actorId : Int64) : Option Actor :=
  db.actors.find? fun a => a.id == actorId

def Tables.post (db : Tables) (postId : Int64) : Option Post :=
  db.posts.find? fun p => p.id == postId

/-- The server, and what it gets to know from others -/
structure World where
  localDomain : Text
  unicode : Mention.Unicode
  resolvers : Mention.Resolvers
  /-- `fetch_actor_signed`: the inbox of an actor document that can be fetched -/
  fetchActorInbox : Text → Option Text

variable (W : World)

section Addresses

def World.origin : Text := "https://".toList ++ W.localDomain

/-- `local_actor_address` -/
def World.actorUri (username : Text) : Text := W.origin ++ "/users/".toList ++ username

def World.followersUri (username : Text) : Text := W.actorUri username ++ "/followers".toList

/-- The canonical URL of a local post -/
def World.noteId (postId : Int64) : Text :=
  W.origin ++ "/notes/".toList ++ (toString postId.toInt).toList

def asPublic : Text := "https://www.w3.org/ns/activitystreams#Public".toList

/-- `visibility_to_to_cc` -/
def visibilityToToCc (followersUri : Text) (visibility : Visibility)
    (directRecipients mentionRecipients : List Text) : List Text × List Text :=
  match visibility with
  | .unlisted => (followersUri :: mentionRecipients, [asPublic])
  | .direct => (directRecipients, [])
  | .followersOnly => (followersUri :: mentionRecipients, [])
  | .pub => (asPublic :: mentionRecipients, [followersUri])

/-- `classify_ap_visibility`, of a receiver -/
def classifyApVisibility (toUris ccUris : List Text) : Visibility :=
  let publicUris := [asPublic, "as:Public".toList, "Public".toList]
  let hasPublic (uris : List Text) := uris.any publicUris.contains
  if hasPublic toUris then .pub
  else if hasPublic ccUris then .unlisted
  else if toUris.any fun u => "/followers".toList.isSuffixOf u then .followersOnly
  else .direct

end Addresses

section Tags

inductive Tag where
  | mention (href name : Text)
  | hashtag (href name : Text)
  | emoji (id : Option Text) (name url : Text)
deriving DecidableEq

/-- `ap_inline_mentions_to_tag_json` -/
def apInlineMentionsToTagJson (mentions : List Mention.ApInlineMention) : List Tag :=
  mentions.filterMap fun m =>
    match m.kind with
    | .mention => some (.mention m.href m.name)
    | .hashtag => some (.hashtag m.href m.name)
    | .link => none

/-- The loop of `extract_shortcode_candidates` -/
def shortcodes (U : Mention.Unicode) : Nat → Text → List Text
  | 0, _ => []
  | _, [] => []
  | fuel + 1, c :: rest =>
    let name := rest.takeWhile fun d => U.isAlphanumeric d || d == '_'
    if c = ':' ∧ name ≠ [] ∧ (rest.drop name.length).head? = some ':' then
      name :: shortcodes U fuel (rest.drop (name.length + 1))
    else shortcodes U fuel rest

/-- `extract_shortcode_candidates` -/
def extractShortcodeCandidates (U : Mention.Unicode) (text : Text) : List Text :=
  (shortcodes U text.length text).foldl Mention.pushNew []

/-- The names and the URLs of the emoji of a body -/
def emojiOf (U : Mention.Unicode) (body : Text) (emojiMap : List (Text × Text)) :
    List (Text × Text × Text) :=
  (extractShortcodeCandidates U body).filterMap fun shortcode =>
    let name := ':' :: shortcode ++ [':']
    (emojiMap.lookup name).map fun url => (shortcode, name, url)

/-- `append_emoji_tags` -/
def appendEmojiTags (body : Text) (emojiMap : List (Text × Text)) : List Tag :=
  (emojiOf W.unicode body emojiMap).map fun (shortcode, name, url) =>
    .emoji (some (W.origin ++ "/emojis/".toList ++ shortcode)) name url

/-- `html_and_tags_for_body`: the tags, and the actors that are mentioned -/
def htmlAndTagsForBody (body : Text) : List Tag × List Text :=
  let (_, mentions) := Mention.convertMentionsForAp W.unicode W.resolvers W.localDomain body
  let uris := (mentions.filter fun m => m.kind = .mention).map Mention.ApInlineMention.href
  (apInlineMentionsToTagJson mentions, (uris.insertionSort (· ≤ ·)).dedup)

end Tags

section Objects

/-- `apply_poll_to_note_object` -/
structure Question where
  /-- `anyOf`, not `oneOf` -/
  multiple : Bool
  choices : List PollOption
  endTime : Option Text
deriving DecidableEq

def applyPollToNoteObject (poll : Poll) : Question := ⟨poll.multiple, poll.options, poll.endTime⟩

structure Note where
  id : Text
  attributedTo : Text
  /-- `to` and `cc` -/
  toUris : List Text
  ccUris : List Text
  summary : Option Text := none
  sensitive : Option Bool := none
  inReplyTo : Option Text := none
  quoteUrl : Option Text := none
  question : Option Question := none
  tag : List Tag := []
deriving DecidableEq

/-- `NoteActivityParams` -/
structure NoteParams where
  postId : Int64
  quoteUrl : Option Text := none
  inReplyTo : Option Text := none
  visibility : Visibility
  tag : List Tag
  directRecipients : List Text := []
  mentionRecipients : List Text := []
  poll : Option Poll := none
  contentWarning : Option Text := none

/-- `build_note_object` -/
def buildNoteObject (username : Text) (p : NoteParams) : Note :=
  let (toUris, ccUris) := visibilityToToCc (W.followersUri username) p.visibility
    p.directRecipients p.mentionRecipients
  { id := W.noteId p.postId
    attributedTo := W.actorUri username
    toUris
    ccUris
    summary := p.contentWarning
    inReplyTo := p.inReplyTo
    quoteUrl := p.quoteUrl
    question := p.poll.map applyPollToNoteObject
    tag := p.tag }

end Objects

end Seiran.Deliver
