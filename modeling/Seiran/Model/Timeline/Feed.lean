import Seiran.Framework.Paging
import Seiran.Model.Timeline.Database

/-!
# The candidates of a feed

`repository/feed.rs`: the ids of the posts of a set of actors, newest first, by
one of two ways. `lateralIds` takes at most `limit` posts of each target;
`windowedIds` goes back in time from `until` through windows of 1, 24 and 168
hours and leaves what is older to `lateralIds`. Instants are milliseconds since
1970. The ids are those of `id.rs`.
-/

namespace Seiran.Timeline

open TopN

/-- `generate_snowflake_id`, of the two instants and the counter it reads: 48 bits of
the milliseconds and 16 of the counter, as an `i64` -/
def generateSnowflakeId (now createdAt : Int) (sequence : Nat) : Int64 :=
  let targetTime := if createdAt > now then now else createdAt
  Int64.ofInt (targetTime % 2 ^ 48 * 2 ^ 16 + sequence % 2 ^ 16)

/-- `snowflake_id_time` -/
def snowflakeIdTime (id : Int64) : Int := id.toInt / 2 ^ 16

/-- `snowflake_id_floor`; the shift of an `i64` drops the bits beyond the 64th. -/
def snowflakeIdFloor (ms : Int) : Int64 := Int64.ofInt (max ms 0 % 2 ^ 48 * 2 ^ 16)

/-- What `Utc::now` reads: an instant before the milliseconds of snowflake ids
run out of their 47 bits, in the year 6429. -/
structure Clock where
  ms : Int
  inRange : ms < 2 ^ 47

def LATERAL_MAX_TARGETS : Nat := 100

def WINDOW_HOURS : List Int := [1, 24, 168]

/-- `FeedSource` -/
inductive FeedSource where
  | following (viewerActorId : Int64) (excludeDirect : Bool)
  | listMembers (listId : Int64)
deriving DecidableEq

/-- `FeedPage` -/
structure FeedPage where
  limit : Int
  untilId : Option Int64
  sinceId : Option Int64
deriving DecidableEq

/-- `COALESCE(until, 9223372036854775807)` -/
def untilOrMax (untilId : Option Int64) : Int64 := untilId.getD Int64.maxValue

/-- `COALESCE(since, 0)` -/
def sinceOrZero (sinceId : Option Int64) : Int64 := sinceId.getD 0

namespace Tables

variable (db : Tables)

/-- `post_visible_to_viewer_sql!` -/
def postVisibleToViewer (viewer : Int64) (excludeDirect : Bool) (p : Post) : Bool :=
  (p.visibility != .followersOnly && p.visibility != .direct) ||
    (p.visibility == .followersOnly &&
      (p.actorId == viewer || db.followsAccepted viewer p.actorId)) ||
    (p.visibility == .direct && !excludeDirect &&
      (p.actorId == viewer || db.isRecipient p.id viewer))

/-- `reply_target_followed_sql!` -/
def replyTargetFollowed (viewer : Int64) (p : Post) : Bool :=
  p.replyToPostId.isNone ||
    db.posts.any fun rp =>
      some rp.id == p.replyToPostId &&
        (rp.actorId == viewer || db.followsAccepted viewer rp.actorId)

def isRepost (p : Post) : Bool := p.repostOfPostId.isSome || p.repostOfApUri.isSome

/-- `repost_not_muted_sql!` -/
def repostNotMuted (viewer : Int64) (p : Post) : Bool :=
  !(isRepost p &&
    db.repostMutes.any fun rm => rm.muterActorId == viewer && rm.mutedActorId == p.actorId)

/-- `actor_not_hidden_sql!` -/
def actorNotHidden (viewer other : Int64) : Bool :=
  (!db.blocks.any fun hb =>
      (hb.blockerActorId == viewer && hb.blockedActorId == other) ||
        (hb.blockerActorId == other && hb.blockedActorId == viewer)) &&
    (!db.mutes.any fun hm => hm.muterActorId == viewer && hm.mutedActorId == other) &&
    (!db.actors.any fun ha => ha.id == other && (ha.withdrawn || ha.suspended))

/-- `following_post_filter_sql!`, and of a list `p.visibility != 'direct'` -/
def postFilter : FeedSource → Post → Bool
  | .following viewer excludeDirect, p =>
    db.postVisibleToViewer viewer excludeDirect p && db.replyTargetFollowed viewer p &&
      db.repostNotMuted viewer p
  | .listMembers _, p => p.visibility != .direct

/-- `p.deleted_at IS NULL` between two ids, both exclusive. -/
def between (upper lower : Int64) (p : Post) : Bool :=
  !p.deleted && decide (p.id < upper) && decide (lower < p.id)

/-- `target_count` -/
def targetCount : FeedSource → Nat
  | .following viewer _ =>
    db.follows.countP fun f => f.followerActorId == viewer && f.status == .accepted
  | .listMembers listId => db.listMembers.countP fun lm => lm.listId == listId

/-- The targets that `lateral_ids` goes through. `UNION` drops duplicates. -/
def targets : FeedSource → List Int64
  | .following viewer _ =>
    (viewer :: (db.follows.filter fun f =>
      f.followerActorId == viewer && f.status == .accepted &&
        db.actorNotHidden viewer f.targetActorId).map Follow.targetActorId).dedup
  | .listMembers listId =>
    (db.listMembers.filter fun lm => lm.listId == listId).map ListMember.actorId

/-- `lateral_ids` -/
def lateralIds (source : FeedSource) (page : FeedPage) : List Int64 :=
  (top Post.id page.limit.toNat ((db.targets source).flatMap fun t =>
    top Post.id page.limit.toNat (db.posts.filter fun p =>
      p.actorId == t && between (untilOrMax page.untilId) (sinceOrZero page.sinceId) p &&
        db.postFilter source p))).map Post.id

/-- The condition of `window_ids` on the author. -/
def isTarget : FeedSource → Post → Bool
  | .following viewer _, p =>
    p.actorId == viewer || db.follows.any fun f =>
      f.followerActorId == viewer && f.targetActorId == p.actorId && f.status == .accepted &&
        db.actorNotHidden viewer f.targetActorId
  | .listMembers listId, p =>
    db.listMembers.any fun lm => lm.listId == listId && lm.actorId == p.actorId

/-- `window_ids` -/
def windowIds (source : FeedSource) (upper lower : Int64) (limit : Int) : List Int64 :=
  (top Post.id limit.toNat (db.posts.filter fun p =>
    between upper lower p && db.isTarget source p && db.postFilter source p)).map Post.id

/-- The loop of `windowed_ids` over the windows that are left, with what it has
found. -/
def widen (source : FeedSource) (page : FeedPage) (anchor : Int) :
    List Int → (upper : Int64) → (ids : List Int64) → List Int64
  | [], upper, ids =>
    ids ++ db.lateralIds source ⟨page.limit - ids.length, some upper, page.sinceId⟩
  | hours :: rest, upper, ids =>
    let since := sinceOrZero page.sinceId
    let lower := max (snowflakeIdFloor (anchor - hours * 3600000) - 1) since
    let remaining := page.limit - ids.length
    let ids := ids ++ db.windowIds source upper lower remaining
    if page.limit ≤ ids.length ∨ lower = since then ids
    else widen source page anchor rest (lower + 1) ids

/-- `windowed_ids` -/
def windowedIds (now : Clock) (source : FeedSource) (page : FeedPage) : List Int64 :=
  db.widen source page ((page.untilId.map snowflakeIdTime).getD now.ms) WINDOW_HOURS
    (untilOrMax page.untilId) []

/-- `feed_candidate_ids` -/
def feedCandidateIds (now : Clock) (source : FeedSource) (page : FeedPage) : List Int64 :=
  if page.limit ≤ 0 then []
  else if db.targetCount source ≤ LATERAL_MAX_TARGETS then db.lateralIds source page
  else db.windowedIds now source page

end Tables

/-!
## The ids of a process

`SEQUENCE` of `id.rs`, which the calls of `generate_snowflake_id` take turns to count up,
and the range of the times of ids.
-/

/-- The instants that a call of `generate_snowflake_id` is given, and finds. -/
structure Call where
  createdAt : Int
  now : Int

/-- The ids that the calls give, with `SEQUENCE.fetch_add(1)` in each of them. -/
def generateIds : UInt32 → List Call → List Int64
  | _, [] => []
  | sequence, call :: calls =>
    generateSnowflakeId call.now call.createdAt sequence.toNat :: generateIds (sequence + 1) calls

/-- The time that 48 bits with a sign have of some milliseconds. -/
def idTime (ms : Int) : Int := ms.bmod (2 ^ 48)

end Seiran.Timeline
