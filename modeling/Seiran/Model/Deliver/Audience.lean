import Seiran.Model.Deliver.Note

/-!
# Whom a post is delivered to

The inboxes that `ap/deliver/infra.rs` collects, the deliveries of `ap/deliver/note.rs`
and the jobs that the creation and the deletion of a local post put into the queue
(`handlers/notes/delivery.rs`, `handlers/notes/deletion.rs`). The requests of a
delivery may fail one by one; here it is what it sends to which inbox.
-/

namespace Seiran.Deliver

open Timeline (Visibility)
open Mention (Text)

variable (W : World) (db : Tables)

section Inboxes

/-- `actor_type IN ('fedi', 'remote_seiran')` -/
def Actor.isRemote (a : Actor) : Bool := a.actorType == .fedi || a.actorType == .remoteSeiran

/-- The inbox of a remote actor -/
def Tables.remoteInbox (actorId : Int64) : Option Text :=
  (db.actor actorId).bind fun a => if a.isRemote then a.apInboxUrl else none

/-- `fetch_fedi_follower_inboxes` -/
def fetchFediFollowerInboxes (actorId : Int64) : List Text :=
  (db.follows.filter fun f => f.targetActorId == actorId && f.status == .accepted).filterMap fun f =>
    db.remoteInbox f.followerActorId

/-- An author and the followers -/
def authorInboxes (actorId : Int64) : List Text :=
  (db.remoteInbox actorId).toList ++ fetchFediFollowerInboxes db actorId

/-- `resolve_conversation_broadcast_inboxes` -/
def resolveConversationBroadcastInboxes (targetPostId : Int64) : List Text :=
  let author := (db.post targetPostId).toList
  let children := db.posts.filter fun p =>
    !p.deleted && (p.repostOfPostId == some targetPostId || p.replyToPostId == some targetPostId ||
      p.quoteOfPostId == some targetPostId)
  (author ++ children).flatMap (fun p => authorInboxes db p.actorId) ++
    (db.reactions.filter fun r => r.postId == targetPostId).filterMap fun r => db.remoteInbox r.actorId

/-- `fetch_accepted_relay_inboxes` -/
def fetchAcceptedRelayInboxes : List Text := (db.relays.filter Relay.accepted).map Relay.inboxUrl

/-- The inboxes of an actor that is not of this server -/
def inboxesOfUri (uri : Text) : List Text :=
  match db.actors.filter fun a => a.apUri == some uri && a.isRemote with
  | [] => (W.fetchActorInbox uri).toList
  | known => known.filterMap Actor.apInboxUrl

/-- `fetch_inboxes_by_ap_uris` -/
def fetchInboxesByApUris (apUris : List Text) : List Text :=
  (apUris.filter fun u => !(W.origin ++ ['/']).isPrefixOf u).flatMap (inboxesOfUri W db)

end Inboxes

section Deliveries

inductive Activity where
  | create (note : Note)
  | delete (object : Text)
deriving DecidableEq

/-- `fetch_post_activity_basis`: the post and its author -/
def fetchPostActivityBasis (postId actorId : Int64) : Option (Post × Actor) := do
  let post ← db.post postId
  guard (post.actorId = actorId)
  let author ← db.actor actorId
  return (post, author)

/-- The tags and the mentions of a delivered body: a text that overrides it has no mentions. -/
def bodyTags (post : Post) (overrideBody : Option Text) : List Tag × List Text :=
  let (tag, mentionUris) :=
    if overrideBody.isSome then ([], []) else htmlAndTagsForBody W post.body
  (tag ++ appendEmojiTags W (overrideBody.getD post.body) post.emojiMap, mentionUris)

/-- The inboxes of `deliver_post_to_ap_followers` -/
def postInboxes (post : Post) (overrideBody : Option Text) : List Text :=
  fetchFediFollowerInboxes db post.actorId ++
    fetchInboxesByApUris W db (bodyTags W post overrideBody).2 ++
    (post.replyToPostId.toList ++ post.quoteOfPostId.toList).flatMap
      (resolveConversationBroadcastInboxes db) ++
    if post.visibility = .pub then fetchAcceptedRelayInboxes db else []

/-- The Note of `deliver_post_to_ap_followers` -/
def pushedNote (post : Post) (author : Actor) (overrideBody quoteUrl inReplyTo : Option Text) : Note :=
  buildNoteObject W author.username
    { postId := post.id
      quoteUrl
      inReplyTo
      visibility := post.visibility
      tag := (bodyTags W post overrideBody).1
      mentionRecipients := (bodyTags W post overrideBody).2
      poll := post.poll
      contentWarning := post.contentWarning }

/-- `fan_out_activity` -/
def fanOutActivity (inboxes : List Text) (activity : Activity) : List (Text × Activity) :=
  inboxes.map fun inbox => (inbox, activity)

/-- `deliver_post_to_ap_followers` -/
def deliverPostToApFollowers (actorId postId : Int64) (overrideBody quoteUrl inReplyTo : Option Text) :
    Option (List (Text × Activity)) :=
  (fetchPostActivityBasis db postId actorId).map fun (post, author) =>
    if post.visibility = .direct then []
    else fanOutActivity (postInboxes W db post overrideBody).dedup
      (.create (pushedNote W post author overrideBody quoteUrl inReplyTo))

/-- The rows that `deliver_direct_message_to_ap` reads -/
def directRecipients (postId : Int64) : List (Text × Text) :=
  (db.postRecipients.filter fun pr => pr.postId == postId).filterMap fun pr => do
    let a ← db.actor pr.actorId
    let apUri ← a.apUri
    let inbox ← a.apInboxUrl
    if a.isRemote then some (apUri, inbox) else none

/-- `deliver_direct_message_to_ap` -/
def deliverDirectMessageToAp (actorId postId : Int64) : Option (List (Text × Activity)) :=
  (fetchPostActivityBasis db postId actorId).map fun (post, author) =>
    let recipients := directRecipients db postId
    fanOutActivity (recipients.map Prod.snd)
      (.create (buildNoteObject W author.username
        { postId
          visibility := .direct
          tag := (htmlAndTagsForBody W post.body).1 ++ appendEmojiTags W post.body post.emojiMap
          directRecipients := recipients.map Prod.fst }))

/-- `deliver_delete_note` -/
def deliverDeleteNote (actorId postId : Int64) : Option (List (Text × Activity)) :=
  (db.actor actorId).map fun _ =>
    fanOutActivity (fetchFediFollowerInboxes db actorId) (.delete (W.noteId postId))

end Deliveries

section Jobs

inductive ApDeliveryKind where
  | postToFollowers (postId : Int64) (body quoteUrl inReplyTo : Option Text)
  | directMessage (postId : Int64)
  | deleteNote (postId : Int64)
deriving DecidableEq

/-- `jobs/ap_delivery.rs` -/
def ApDeliveryKind.deliver (actorId : Int64) : ApDeliveryKind → Option (List (Text × Activity))
  | postToFollowers postId body quoteUrl inReplyTo =>
    deliverPostToApFollowers W db actorId postId body quoteUrl inReplyTo
  | directMessage postId => deliverDirectMessageToAp W db actorId postId
  | deleteNote postId => deliverDeleteNote W db actorId postId

/-- `find_delivery_meta` -/
def findDeliveryMeta (postId : Int64) : Option Post := do
  let post ← db.post postId
  guard (!post.deleted && (db.actor post.actorId).isSome)
  return post

inductive PostOrigin where
  | localOrSeiran
  | fediRemote
  | bskyRemote
deriving DecidableEq

/-- `classify_post` -/
def classifyPost (apObjectId atUri : Option Text) (isLocal : Bool) : PostOrigin :=
  if isLocal then .localOrSeiran
  else match apObjectId, atUri with
    | some _, some _ => .localOrSeiran
    | some _, none => .fediRemote
    | none, some _ => .bskyRemote
    | none, none => .localOrSeiran

/-- `with_bridge_delivery_targets` -/
def withBridgeDeliveryTargets (post : Post) : Post :=
  let isLocal := (db.actor post.actorId).any fun a => a.actorType == .localUser
  if classifyPost post.apObjectId post.atUri isLocal = .localOrSeiran then post
  else
    let apBridge := post.apBridgePostId.bind (findDeliveryMeta db)
    let atpBridge := post.atpBridgePostId.bind (findDeliveryMeta db)
    { post with
      apObjectId := (apBridge.map Post.apObjectId).getD post.apObjectId
      atUri := (atpBridge.map Post.atUri).getD post.atUri }

/-- A post that is of Bluesky alone -/
def Post.isBskyOnly (post : Post) : Bool := post.apObjectId.isNone && post.atUri.isSome

/-- Whether `deliver_repost` sends a repost of the original as a text -/
def goesOutAsText (originalId : Int64) : Bool :=
  (findDeliveryMeta db originalId).any fun original =>
    (withBridgeDeliveryTargets db original).isBskyOnly

/-- Whether `delete_repost` deletes a text for a repost of the original -/
def isFallbackRepost (originalId : Int64) : Bool := (db.post originalId).any Post.isBskyOnly

/-- The jobs of `deliver_regular_post` and `deliver_repost` that create a Note. The text
and the URLs come from the request; a repost has a text of its own. -/
def creationJobs (post : Post) (body : Option Text) (fallbackText : Text)
    (quoteUrl inReplyTo : Option Text) : List ApDeliveryKind :=
  if !post.deliverFedi then []
  else match post.repostOfPostId with
    | some originalId =>
      if goesOutAsText db originalId then
        [.postToFollowers post.id (some fallbackText) none none]
      else []
    | none =>
      if post.visibility = .direct then [.directMessage post.id]
      else [.postToFollowers post.id body quoteUrl inReplyTo]

/-- The jobs of `delete_note`, and of `delete_repost`, that delete a Note -/
def deletionJobs (post : Post) : List ApDeliveryKind :=
  match post.repostOfPostId with
  | some originalId => if isFallbackRepost db originalId then [.deleteNote post.id] else []
  | none => if post.deliverFedi ∧ post.visibility ≠ .direct then [.deleteNote post.id] else []

end Jobs

end Seiran.Deliver
