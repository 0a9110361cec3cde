import Mathlib.Data.List.Destutter
import Seiran.Model.Timeline.Feed

/-!
# The timelines

The rows that each timeline returns: the queries of `repository/post.rs` and
`repository/list.rs`, and the handler `list_timeline`, which decides who may see
the list.
-/

namespace Seiran.Timeline

open TopN

/-- The errors of the handlers, with their codes. -/
inductive ApiError where
  | badRequest (code : String)
  | forbidden (code : String)
  | notFound (code : String)
deriving DecidableEq

namespace Tables

variable (db : Tables)

/-- `fetch_feed_posts` -/
def fetchFeedPosts (ids : List Int64) : List Post :=
  descending Post.id (db.posts.filter fun p => ids.contains p.id && !p.deleted)

/-- `home_timeline` -/
def homeTimeline (now : Clock) (actorId : Int64) (page : FeedPage) (excludeDirect : Bool) :
    List Post :=
  db.fetchFeedPosts (db.feedCandidateIds now (.following actorId excludeDirect) page)

/-- What `local_timeline` and `global_timeline` ask of a row of any origin. -/
def publicFilter (viewer : Option Int64) (page : FeedPage) (excludeDirect : Bool) (p : Post) :
    Bool :=
  between (untilOrMax page.untilId) (sinceOrZero page.sinceId) p &&
    (p.visibility != .unlisted && p.visibility != .followersOnly) &&
    viewer.all (fun v => p.actorId == v || !db.actorIsHiddenForViewer v p.actorId) &&
    viewer.all (fun v => !(isRepost p && db.repostIsMutedForViewer v p.actorId)) &&
    db.postIsVisibleTo viewer p.actorId p.visibility p.id excludeDirect

/-- `local_timeline` -/
def localTimeline (viewer : Option Int64) (page : FeedPage) (excludeDirect : Bool) : List Post :=
  top Post.id page.limit.toNat
    (db.posts.filter fun p => p.isLocal && db.publicFilter viewer page excludeDirect p)

/-- `global_timeline` -/
def globalTimeline (viewer : Option Int64) (page : FeedPage) (excludeDirect : Bool) : List Post :=
  top Post.id page.limit.toNat (db.posts.filter fun p => db.publicFilter viewer page excludeDirect p)

/-- The candidates of `social_timeline` among all local posts. -/
def socialLocalIds (actorId : Int64) (page : FeedPage) (excludeDirect : Bool) : List Int64 :=
  (top Post.id page.limit.toNat (db.posts.filter fun p =>
    p.isLocal && between (untilOrMax page.untilId) (sinceOrZero page.sinceId) p &&
      (p.visibility != .unlisted || p.actorId == actorId) &&
      (p.actorId == actorId || !db.actorIsHiddenForViewer actorId p.actorId) &&
      !(isRepost p && db.repostIsMutedForViewer actorId p.actorId) &&
      db.postIsVisibleTo (some actorId) p.actorId p.visibility p.id excludeDirect)).map Post.id

/-- `social_timeline` -/
def socialTimeline (now : Clock) (actorId : Int64) (page : FeedPage) (excludeDirect : Bool) :
    List Post :=
  let ids := db.feedCandidateIds now (.following actorId excludeDirect) page ++
    db.socialLocalIds actorId page excludeDirect
  db.fetchFeedPosts (((descending (fun id => id) ids).destutter (· ≠ ·)).take page.limit.toNat)

/-- `ListRepository::timeline` -/
def listPosts (now : Clock) (listId : Int64) (page : FeedPage) : List Post :=
  db.fetchFeedPosts (db.feedCandidateIds now (.listMembers listId) page)

/-- `list_timeline` -/
def listTimeline (now : Clock) (viewer : Option Int64) (id : Int64) (limit : Option Int)
    (untilId sinceId : Option Int64) : Except ApiError (List Post) :=
  match db.lists.find? fun row => row.id == id with
  | none => .error (.notFound "LIST_NOT_FOUND")
  | some row =>
    if !row.isPublic && viewer != some row.ownerActorId then .error (.notFound "LIST_NOT_FOUND")
    else .ok (db.listPosts now id ⟨min (limit.getD 30) 100, untilId, sinceId⟩)

/-- A notification of a mention or a reply. -/
def isNotified (recipientId : Int64) (p : Post) : Bool :=
  db.notifications.any fun n =>
    n.noteId == some p.id && n.recipientActorId == recipientId &&
      (n.kind == "mention" || n.kind == "reply")

/-- `mentions_timeline` -/
def mentionsTimeline (actorId : Int64) (specifiedOnly : Bool) (page : FeedPage) : List Post :=
  top Post.id page.limit.toNat (db.posts.filter fun p =>
    p.actorId != actorId && between (untilOrMax page.untilId) (sinceOrZero page.sinceId) p &&
      ((p.visibility == .direct && db.isRecipient p.id actorId) ||
        (!specifiedOnly && db.isNotified actorId p)))

end Tables

end Seiran.Timeline
