import Mathlib.Data.List.Infix
import Seiran.Model.Deliver.Audience

/-!
# The Note that is sent and the Notes that are served

What the creation of a local post puts into its Note (`handlers/notes/delivery.rs`), and
the Note at the URL of the post (`handlers/notes/retrieval.rs`), in the outbox and in the
featured collection (`seiran-federation-inbox`).
-/

namespace Seiran.Deliver

open Timeline (Visibility)
open Mention (Text)

variable (W : World) (db : Tables)

section Quotes

/-- The text before the first slash and the one after it -/
def splitSlash (text : Text) : Option (Text × Text) :=
  if '/' ∈ text then some (text.takeWhile (· ≠ '/'), (text.dropWhile (· ≠ '/')).tail) else none

/-- `at_uri_to_bsky_app_url` -/
def atUriToBskyAppUrl (atUri : Text) : Text :=
  let withoutPrefix := ("at://".toList.isPrefixOf? atUri).getD atUri
  match (splitSlash withoutPrefix).bind fun (did, rest) =>
    (splitSlash rest).map fun (_, rkey) => (did, rkey) with
  | some (did, rkey) => "https://bsky.app/profile/".toList ++ did ++ "/post/".toList ++ rkey
  | none => atUri

/-- `ApQuote` -/
inductive ApQuote where
  | misskey (url : Text)
  | appendUrl (url : Text)
deriving DecidableEq

/-- `ap_quote_from_meta` -/
def apQuoteFromMeta (quoted : Post) : Option ApQuote :=
  match quoted.apObjectId, quoted.atUri with
  | none, some atUri => some (.appendUrl (atUriToBskyAppUrl atUri))
  | apObjectId, _ => apObjectId.map .misskey

/-- `ap_delivery_quote_fields`: a body that overrides the text, and the `quoteUrl` -/
def apDeliveryQuoteFields (text : Text) : Option ApQuote → Option Text × Option Text
  | some (.misskey url) => (none, some url)
  | some (.appendUrl url) => (some (text ++ "\n\n".toList ++ url), none)
  | none => (none, none)

/-- `redirect_bridge_post_meta` -/
def redirectBridgePostMeta (post : Post) : Post :=
  (post.bridgeOfPostId.bind (findDeliveryMeta db)).getD post

/-- `resolve_quote_embed`: what goes to ActivityPub -/
def resolveQuoteEmbed (quoteOfId : Int64) : Option ApQuote := do
  let quoted ← findDeliveryMeta db quoteOfId
  apQuoteFromMeta (withBridgeDeliveryTargets db (redirectBridgePostMeta db quoted))

end Quotes

section Pushed

/-- `fedi_link_card_urls_append_needed` -/
def fediLinkCardUrlsAppendNeeded (baseText : Text) (linkCardUrls : List Text) : List Text :=
  linkCardUrls.filter fun url => !decide (url <:+: baseText)

/-- What the author chose beside the text: a URL to embed that the text does not have
(`fedi_append_url`), and the URLs of link cards -/
structure Choices where
  fediAppendUrl : Option Text := none
  linkCardUrls : List Text := []

/-- The body and the `quoteUrl` of `enqueue_regular_post_fedi_delivery` -/
def regularBody (text : Text) (apQuote : Option ApQuote) (choices : Choices) :
    Option Text × Option Text :=
  let (quoteBody, quoteUrl) := apDeliveryQuoteFields text apQuote
  let base := quoteBody.getD text
  let appendLines := choices.fediAppendUrl.toList ++
    fediLinkCardUrlsAppendNeeded base choices.linkCardUrls
  (if appendLines = [] then quoteBody
    else some (base ++ "\n\n".toList ++ "\n".toList.intercalate appendLines), quoteUrl)

/-- `ap_in_reply_to` of `resolve_reply_context` -/
def apInReplyTo (post : Post) : Option Text := do
  let parent ← findDeliveryMeta db (← post.replyToPostId)
  parent.apObjectId

/-- The jobs for a new post -/
def jobsOfNewPost (post : Post) (choices : Choices) (fallbackText : Text) : List ApDeliveryKind :=
  let apQuote := post.quoteOfPostId.bind (resolveQuoteEmbed db)
  let (body, quoteUrl) := regularBody post.body apQuote choices
  creationJobs db post body fallbackText quoteUrl (apInReplyTo db post)

end Pushed

section Pulled

/-- Whom an object is served to without an account: the post is neither deleted nor for few. -/
def Post.isPublic (post : Post) : Bool :=
  !post.deleted && post.visibility != .followersOnly && post.visibility != .direct

/-- The emoji tags of `get_note_ap` -/
def pulledEmojiTags (post : Post) : List Tag :=
  (emojiOf W.unicode post.body post.emojiMap).map fun (_, name, url) => .emoji none name url

/-- The quote of `get_note_ap` -/
def pulledQuote (post : Post) : Option ApQuote := do
  let quoted ← findDeliveryMeta db (← post.quoteOfPostId)
  apQuoteFromMeta quoted

/-- `get_note_ap` -/
def getNoteAp (postId : Int64) : Option Note := do
  let post ← db.post postId
  let author ← db.actor post.actorId
  guard (post.isPublic && author.actorType == .localUser)
  let (quoteBody, quoteUrl) := apDeliveryQuoteFields post.body (pulledQuote db post)
  let apBody := quoteBody.getD post.body
  let followersUri := W.followersUri author.username
  return {
    id := W.noteId post.id
    attributedTo := W.actorUri author.username
    toUris := if post.visibility = .unlisted then [followersUri] else [asPublic]
    ccUris := if post.visibility = .unlisted then [asPublic] else [followersUri]
    summary := post.contentWarning
    quoteUrl
    question := post.poll.map applyPollToNoteObject
    tag := (htmlAndTagsForBody W apBody).1 ++ pulledEmojiTags W post }

/-- `public_note` -/
def publicNote (username noteId : Text) : Note where
  id := noteId
  attributedTo := W.actorUri username
  toUris := [asPublic]
  ccUris := [W.followersUri username]

/-- A live account of this server -/
def liveLocalActor (actorId : Int64) : Option Actor := do
  let a ← db.actor actorId
  guard (a.actorType == .localUser && !a.withdrawn)
  return a

/-- The Note of `outbox_item`; what is announced has none. -/
def outboxItem (postId : Int64) : Option Note := do
  let post ← db.post postId
  guard post.isPublic
  let author ← liveLocalActor db post.actorId
  match post.repostOfPostId with
  | none => return publicNote W author.username (post.apObjectId.getD (W.noteId post.id))
  | some originalId =>
    let ownId ← post.apObjectId
    let original ← db.post originalId
    guard original.isBskyOnly
    return publicNote W author.username ownId

/-- The Note of a pinned post in `featured_handler` -/
def featuredItem (postId : Int64) : Option Note := do
  let post ← db.post postId
  guard post.isPublic
  let author ← liveLocalActor db post.actorId
  guard (db.pinnedPosts.any fun pp => pp.actorId == post.actorId && pp.postId == postId)
  return publicNote W author.username (W.noteId post.id)

/-- The Notes that are served for a post -/
def servedNotes (postId : Int64) : List Note :=
  (getNoteAp W db postId).toList ++ (outboxItem W db postId).toList ++
    (featuredItem W db postId).toList

end Pulled

end Seiran.Deliver
