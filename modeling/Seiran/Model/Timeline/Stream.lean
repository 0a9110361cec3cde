import Seiran.Model.Timeline.Timelines

/-!
# The streams of the timelines

What is published when a post is created (`streaming.rs`), by the API
(`broadcast_new_note`, `broadcast_direct_message`) and for a note that comes in
(`broadcast_created_note`), and which channels of a viewer it is for. An inbound
repost publishes nothing (`announce.rs`). The scope is computed from the tables
with the new row.
-/

namespace Seiran.Timeline

inductive ChannelKind where
  | homeTimeline
  | localTimeline
  | hybridTimeline
  | globalTimeline
  | userList (listId : Int64)
  | hashtag (tag : String)
deriving DecidableEq

structure ChannelScope where
  isLocal : Bool
  visibility : Visibility
  homeRecipients : List Int64
  listIds : List Int64
  hashtags : List String
deriving DecidableEq

def ChannelScope.matches (scope : ChannelScope) (kind : ChannelKind) (viewerActorId : Int64) : Bool :=
  let isPublicIsh := scope.visibility != .unlisted && scope.visibility != .followersOnly
  match kind with
  | .homeTimeline => scope.homeRecipients.contains viewerActorId
  | .localTimeline => scope.isLocal && isPublicIsh
  | .hybridTimeline =>
    (scope.isLocal && isPublicIsh) || scope.homeRecipients.contains viewerActorId
  | .globalTimeline => isPublicIsh
  | .userList id => scope.listIds.contains id
  | .hashtag tag => scope.visibility != .followersOnly && scope.hashtags.contains tag

/-- `publish_note` and `publish_channel_note` -/
inductive StreamEvent where
  | note (recipients : List Int64)
  | channelNote (scope : ChannelScope)
deriving DecidableEq

/-- What creates a post: `create_note` and `create_repost` of the API, `Create` and `Announce`
of another server -/
inductive Producer where
  | note
  | repost
  | createNote
  | announce
deriving DecidableEq

namespace Tables

variable (db : Tables)

/-- `find_home_recipient_ids` -/
def findHomeRecipientIds (targetActorId : Int64) (replyToPostId : Option Int64) : List Int64 :=
  (db.follows.filter fun f =>
    f.targetActorId == targetActorId && f.status == .accepted &&
      db.actors.any (fun a => a.id == f.followerActorId && a.actorType == .localUser) &&
      db.postReplyTargetFollowed f.followerActorId replyToPostId).map Follow.followerActorId

/-- `list_ids_containing_actor` -/
def listIdsContainingActor (actorId : Int64) : List Int64 :=
  (db.listMembers.filter fun m => m.actorId == actorId).map ListMember.listId

/-- `recipient_ids` -/
def recipientIds (postId : Int64) : List Int64 :=
  (db.postRecipients.filter fun r => r.postId == postId).map PostRecipient.actorId

/-- The scope that both producers make of what they know of a post -/
def channelScope (isLocal : Bool) (visibility : Visibility) (actorId : Int64)
    (replyToPostId : Option Int64) (hashtags : List String) : ChannelScope where
  isLocal := isLocal
  visibility := visibility
  homeRecipients := actorId :: db.findHomeRecipientIds actorId replyToPostId
  listIds := db.listIdsContainingActor actorId
  hashtags := hashtags

/-- `broadcast_new_note`; a response without a visibility is of a public post. -/
def broadcastNewNote (actorId : Int64) (visibility : Option Visibility)
    (replyToPostId : Option Int64) (hashtags : List String) : StreamEvent :=
  .channelNote (db.channelScope true (visibility.getD .pub) actorId replyToPostId hashtags)

/-- `broadcast_direct_message` -/
def broadcastDirectMessage (actorId postId : Int64) : StreamEvent :=
  .note (actorId :: db.recipientIds postId)

/-- `broadcast_created_note` -/
def broadcastCreatedNote (p : Post) (hashtags : List String) : Option StreamEvent :=
  if p.visibility = .direct then
    let recipients := db.recipientIds p.id
    if recipients = [] then none else some (.note recipients)
  else some (.channelNote (db.channelScope false p.visibility p.actorId p.replyToPostId hashtags))

/-- What is published for a new post with these hashtags; the response of a repost has neither
a visibility nor a reply nor a text. -/
def published (producer : Producer) (p : Post) (hashtags : List String) : Option StreamEvent :=
  match producer with
  | .note =>
    if p.visibility = .direct then some (db.broadcastDirectMessage p.actorId p.id)
    else some (db.broadcastNewNote p.actorId
      (if p.visibility = .pub then none else some p.visibility) p.replyToPostId hashtags)
  | .repost => some (db.broadcastNewNote p.actorId none none [])
  | .createNote => db.broadcastCreatedNote p hashtags
  | .announce => none

/-- Whether the post is pushed to a channel of the viewer -/
def pushed (producer : Producer) (p : Post) (hashtags : List String) (kind : ChannelKind)
    (viewerActorId : Int64) : Bool :=
  match db.published producer p hashtags with
  | some (.channelNote scope) => scope.matches kind viewerActorId
  | _ => false

end Tables

end Seiran.Timeline
