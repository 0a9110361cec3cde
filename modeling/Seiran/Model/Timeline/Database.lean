import Seiran.Framework.Int64

/-!
# The tables that timelines read

The rows of `posts` and of the tables around it, with the columns that the
timelines, the direct messages and the creation of replies use, and the SQL
functions on them. A null column is `none`; a `WHERE` clause keeps a row where
its condition is true, so what is null there is false here.
-/

namespace Seiran.Timeline

/-- `post_visibility_enum` -/
inductive Visibility where
  | pub
  | unlisted
  | followersOnly
  | direct
deriving DecidableEq

/-- `actors.actor_type` -/
inductive ActorType where
  | localUser
  | fedi
  | bsky
  | remoteSeiran
deriving DecidableEq

structure Actor where
  id : Int64
  actorType : ActorType := .localUser
  /-- `withdrawn_at IS NOT NULL` -/
  withdrawn : Bool := false
  /-- `suspended_at IS NOT NULL` -/
  suspended : Bool := false
deriving DecidableEq

structure Post where
  id : Int64
  actorId : Int64
  visibility : Visibility := .pub
  isLocal : Bool := false
  /-- `deleted_at IS NOT NULL` -/
  deleted : Bool := false
  replyToPostId : Option Int64 := none
  repostOfPostId : Option Int64 := none
  repostOfApUri : Option String := none
  threadRootPostId : Option Int64 := none
  apObjectId : Option String := none
  atUri : Option String := none
  deliverFedi : Bool := true
  deliverBsky : Bool := true
deriving DecidableEq

/-- `follows.status` -/
inductive FollowStatus where
  | pending
  | accepted
deriving DecidableEq

structure Follow where
  followerActorId : Int64
  targetActorId : Int64
  status : FollowStatus := .accepted
deriving DecidableEq

structure PostRecipient where
  postId : Int64
  actorId : Int64
deriving DecidableEq

structure Block where
  blockerActorId : Int64
  blockedActorId : Int64
deriving DecidableEq

/-- A row of `mutes` or of `repost_mutes`. -/
structure Mute where
  muterActorId : Int64
  mutedActorId : Int64
deriving DecidableEq

structure UserList where
  id : Int64
  ownerActorId : Int64
  isPublic : Bool := false
deriving DecidableEq

structure ListMember where
  listId : Int64
  actorId : Int64
deriving DecidableEq

structure Notification where
  recipientActorId : Int64
  /-- the column `type` -/
  kind : String
  noteId : Option Int64
deriving DecidableEq

structure DmReadState where
  actorId : Int64
  threadRootPostId : Int64
  lastReadPostId : Int64
deriving DecidableEq

structure DmHiddenMessage where
  actorId : Int64
  postId : Int64
deriving DecidableEq

structure Tables where
  actors : List Actor := []
  posts : List Post := []
  follows : List Follow := []
  postRecipients : List PostRecipient := []
  blocks : List Block := []
  mutes : List Mute := []
  repostMutes : List Mute := []
  lists : List UserList := []
  listMembers : List ListMember := []
  notifications : List Notification := []
  dmReadStates : List DmReadState := []
  dmHiddenMessages : List DmHiddenMessage := []
deriving DecidableEq

/-- The tables with their primary keys, unique constraints and authors. -/
structure Database extends Tables where
  posts_pkey : (posts.map Post.id).Nodup
  posts_actor_id_fkey : ∀ p ∈ posts, p.actorId ∈ actors.map Actor.id
  lists_pkey : (lists.map UserList.id).Nodup
  list_members_key : (listMembers.map fun m => (m.listId, m.actorId)).Nodup
  dm_read_states_pkey : (dmReadStates.map fun s => (s.actorId, s.threadRootPostId)).Nodup

/-- The key of an empty `list_members` or `dm_read_states`. -/
theorem nodup_no_keys : ([] : List (Int64 × Int64)).Nodup :=
  List.nodup_nil

namespace Tables

variable (db : Tables)

/-- An accepted follow. -/
def followsAccepted (follower target : Int64) : Bool :=
  db.follows.any fun f =>
    f.followerActorId == follower && f.targetActorId == target && f.status == .accepted

def isRecipient (postId actorId : Int64) : Bool :=
  db.postRecipients.any fun pr => pr.postId == postId && pr.actorId == actorId

/-- `actor_is_hidden_for_viewer` -/
def actorIsHiddenForViewer (viewerId otherId : Int64) : Bool :=
  (db.blocks.any fun b =>
      (b.blockerActorId == viewerId && b.blockedActorId == otherId) ||
        (b.blockerActorId == otherId && b.blockedActorId == viewerId)) ||
    (db.mutes.any fun m => m.muterActorId == viewerId && m.mutedActorId == otherId) ||
    (db.actors.any fun a => a.id == otherId && (a.withdrawn || a.suspended))

/-- `repost_is_muted_for_viewer` -/
def repostIsMutedForViewer (viewerId reposterId : Int64) : Bool :=
  db.repostMutes.any fun m => m.muterActorId == viewerId && m.mutedActorId == reposterId

/-- `post_reply_target_followed` -/
def postReplyTargetFollowed (viewerId : Int64) (replyToPostId : Option Int64) : Bool :=
  match replyToPostId with
  | none => true
  | some parentId =>
    db.posts.any fun parent =>
      parent.id == parentId &&
        (parent.actorId == viewerId || db.followsAccepted viewerId parent.actorId)

/-- `post_is_visible_to` -/
def postIsVisibleTo (viewerId : Option Int64) (postActorId : Int64) (postVisibility : Visibility)
    (postId : Int64) (excludeDirect : Bool) : Bool :=
  (viewerId.isSome ||
      db.actors.any fun pa => pa.id == postActorId && pa.actorType == .localUser) &&
    match postVisibility with
    | .followersOnly =>
      viewerId == some postActorId || viewerId.any fun v => db.followsAccepted v postActorId
    | .direct =>
      !excludeDirect &&
        (viewerId == some postActorId || viewerId.any fun v => db.isRecipient postId v)
    | _ => true

/-- `post_is_visible_to` of a row, direct posts included. -/
def visible (viewerId : Option Int64) (p : Post) : Bool :=
  db.postIsVisibleTo viewerId p.actorId p.visibility p.id false

end Tables

end Seiran.Timeline
