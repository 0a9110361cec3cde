import Seiran.Model.Timeline.Timelines

/-!
# Direct messages

`repository/dm.rs` and `handlers/dm.rs`: the sessions of a viewer, the messages
of one thread and the number of unread sessions. A thread is the posts that share
a root.
-/

namespace Seiran.Timeline

open TopN

/-- A `DmSessionResponse`, with the ids of the peers. -/
structure Session where
  threadRootPostId : Int64
  lastMessage : Post
  peers : List Int64
  unread : Bool
deriving DecidableEq

namespace Tables

variable (db : Tables)

/-- The undeleted posts of a thread. -/
def threadPosts (root : Int64) : List Post :=
  db.posts.filter fun p => p.threadRootPostId == some root && !p.deleted

/-- The author or a recipient of a post. -/
def takesPart (actorId : Int64) (p : Post) : Bool :=
  p.actorId == actorId || db.isRecipient p.id actorId

/-- `my_threads` of the posts that meet a condition -/
def threadsOf (q : Post → Bool) : List Int64 :=
  ((db.posts.filter fun p => !p.deleted && q p).filterMap Post.threadRootPostId).dedup

/-- `peers` of a thread -/
def peers (root : Int64) : List Int64 :=
  ((db.threadPosts root).map Post.actorId ++ (db.threadPosts root).flatMap fun p =>
    (db.postRecipients.filter fun pr => pr.postId == p.id).map PostRecipient.actorId).dedup

/-- Neither muted by the viewer nor blocked either way. -/
def isOpenPeer (viewer peer : Int64) : Bool :=
  (!db.mutes.any fun m => m.muterActorId == viewer && m.mutedActorId == peer) &&
    !db.blocks.any fun b =>
      (b.blockerActorId == viewer && b.blockedActorId == peer) ||
        (b.blockerActorId == peer && b.blockedActorId == viewer)

/-- The condition of `visible_threads` -/
def isVisibleThread (viewer root : Int64) : Bool :=
  (db.peers root).all (fun pe => pe == viewer) ||
    (db.peers root).any fun pe => pe != viewer && db.isOpenPeer viewer pe

/-- The newest post of a thread, whoever it is for. -/
def latest (root : Int64) : Option Post := (top Post.id 1 (db.threadPosts root)).head?

/-- The row of `dm_read_states`, or 0 -/
def lastRead (viewer root : Int64) : Int64 :=
  ((db.dmReadStates.find? fun s => s.actorId == viewer && s.threadRootPostId == root).map
    DmReadState.lastReadPostId).getD 0

/-- A session as the handler shows it: unread where its last post is after the marker. -/
def toSession (viewer root : Int64) (last : Post) : Session where
  threadRootPostId := root
  lastMessage := last
  peers := ((db.peers root).filter fun pe => pe != viewer).insertionSort (· ≤ ·)
  unread := decide (db.lastRead viewer root < last.id)

/-- The rows of `sessions` before the cursor and the limit. -/
def sessionRows (viewer : Int64) : List Session :=
  ((db.threadsOf (db.takesPart viewer)).filter (db.isVisibleThread viewer)).filterMap fun root =>
    (db.latest root).map (db.toSession viewer root)

def lastPostId (s : Session) : Int64 := s.lastMessage.id

/-- `sessions`, of the repository and the handler -/
def sessions (viewer : Int64) (limit : Option Int) (untilId sinceId : Option Int64) :
    List Session :=
  top lastPostId (min (limit.getD 30) 100).toNat ((db.sessionRows viewer).filter fun s =>
    decide (lastPostId s < untilOrMax untilId) && decide (sinceOrZero sinceId < lastPostId s))

/-- `unread_session_count` -/
def unreadSessionCount (viewer : Int64) : Nat :=
  let visibleThreads :=
    (db.threadsOf fun p => db.isRecipient p.id viewer).filter (db.isVisibleThread viewer)
  ((db.posts.filter fun p =>
      p.threadRootPostId.any (fun root =>
          visibleThreads.contains root && decide (db.lastRead viewer root < p.id)) &&
        !p.deleted && db.isRecipient p.id viewer).filterMap Post.threadRootPostId).dedup.length

/-- `is_participant` -/
def isParticipant (root viewer : Int64) : Bool := (db.threadPosts root).any (db.takesPart viewer)

/-- A message that the viewer may see and has not hidden. -/
def isShown (viewer : Int64) (p : Post) : Bool :=
  db.visible (some viewer) p &&
    !db.dmHiddenMessages.any fun dh => dh.actorId == viewer && dh.postId == p.id

/-- `DmRepository::thread_messages` -/
def threadPage (root viewer : Int64) (limit : Int) (untilId sinceId : Option Int64) : List Post :=
  bottom Post.id limit.toNat ((db.threadPosts root).filter fun p =>
    decide (p.id < untilOrMax untilId) && decide (sinceOrZero sinceId < p.id) &&
      db.isShown viewer p)

/-- The handler `thread_messages` -/
def threadMessages (root viewer : Int64) (limit : Option Int) (untilId sinceId : Option Int64) :
    Except ApiError (List Post) :=
  if !db.isParticipant root viewer then .error (.forbidden "DM_NOT_PARTICIPANT")
  else .ok (db.threadPage root viewer (min (limit.getD 50) 200) untilId sinceId)

end Tables

end Seiran.Timeline
