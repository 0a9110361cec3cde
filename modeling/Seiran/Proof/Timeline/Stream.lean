import Seiran.Model.Timeline.Stream
import Seiran.Proof.Timeline.Timelines

/-!
# The streams and the timelines

* `returned_iff`: which posts a timeline returns, in terms of the viewer, the author and the
  row;
* `pushed_iff`: whom a new post is pushed to;
* `Differs`: the posts for which the two are not the same;
* `pushed_iff_returned_iff`: there are no others.
-/

namespace Seiran.Timeline

open TopN

/-- The timelines that have a channel and a query -/
inductive TimelineKind where
  | home
  | localPosts
  | hybrid
  | global
deriving DecidableEq

def TimelineKind.channel : TimelineKind → ChannelKind
  | .home => .homeTimeline
  | .localPosts => .localTimeline
  | .hybrid => .hybridTimeline
  | .global => .globalTimeline

/-- The query of a timeline by a viewer, without a cursor -/
def Tables.query (db : Tables) (now : Clock) (kind : TimelineKind) (viewer : Int64)
    (excludeDirect : Bool) (limit : Int) : List Post :=
  let page : FeedPage := ⟨limit, none, none⟩
  match kind with
  | .home => db.homeTimeline now viewer page excludeDirect
  | .localPosts => db.localTimeline (some viewer) page excludeDirect
  | .hybrid => db.socialTimeline now viewer page excludeDirect
  | .global => db.globalTimeline (some viewer) page excludeDirect

/-- The timeline returns the post, if it is not cut off before. -/
def Tables.Returned (db : Tables) (now : Clock) (kind : TimelineKind) (viewer : Int64)
    (excludeDirect : Bool) (p : Post) : Prop :=
  ∃ limit, p ∈ db.query now kind viewer excludeDirect limit

section Conditions

variable (db : Tables) (viewer : Int64) (p : Post)

def Tables.Followed : Prop := viewer = p.actorId ∨ db.followsAccepted viewer p.actorId = true

/-- The post is no reply, or one to the viewer or to somebody the viewer follows. -/
def Tables.AnswersFollowed : Prop := db.postReplyTargetFollowed viewer p.replyToPostId = true

def Post.ShownPublicly : Prop := p.visibility ≠ .unlisted ∧ p.visibility ≠ .followersOnly

/-- Neither a block, a mute, a withdrawal or a suspension nor a mute of reposts hides the post. -/
def Tables.NotFiltered : Prop :=
  (viewer = p.actorId ∨ db.actorIsHiddenForViewer viewer p.actorId = false) ∧
    (Tables.isRepost p && db.repostIsMutedForViewer viewer p.actorId) = false

/-- The identifier is that of an instant after the beginning of 1970. -/
def Post.Dated : Prop := 0 < p.id ∧ p.id < Int64.maxValue

instance : Decidable (db.Followed viewer p) := inferInstanceAs (Decidable (_ ∨ _))

instance : Decidable (db.AnswersFollowed viewer p) := inferInstanceAs (Decidable (_ = _))

instance : Decidable p.ShownPublicly := inferInstanceAs (Decidable (_ ∧ _))

instance : Decidable (db.NotFiltered viewer p) := inferInstanceAs (Decidable (_ ∧ _))

instance : Decidable p.Dated := inferInstanceAs (Decidable (_ ∧ _))

/-- The timeline is one for posts like this. -/
def Tables.Shows : TimelineKind → Prop
  | .home => db.Followed viewer p ∧ db.AnswersFollowed viewer p
  | .localPosts => p.isLocal = true ∧ p.ShownPublicly
  | .hybrid => (db.Followed viewer p ∧ db.AnswersFollowed viewer p) ∨
      p.isLocal = true ∧ (p.visibility ≠ .unlisted ∨ viewer = p.actorId)
  | .global => p.ShownPublicly

end Conditions

section Destutter

variable {α : Type} [DecidableEq α] {l : List α} {a x : α}

theorem mem_destutter'_of_mem (h : x ∈ l) : x ∈ l.destutter' (· ≠ ·) a := by
  induction l generalizing a with
  | nil => cases h
  | cons b l ih =>
    rw [List.destutter'_cons]
    split
    · rcases List.mem_cons.mp h with rfl | h
      · exact List.mem_cons_of_mem _ (List.mem_destutter' _ _ _)
      · exact List.mem_cons_of_mem _ (ih h)
    · rename_i heq
      rw [not_not] at heq
      rcases List.mem_cons.mp h with rfl | h
      · exact heq ▸ List.mem_destutter' _ _ _
      · exact ih h

theorem mem_destutter : x ∈ l.destutter (· ≠ ·) ↔ x ∈ l := by
  refine ⟨fun h => (List.destutter_sublist _ _).subset h, fun h => ?_⟩
  cases l with
  | nil => cases h
  | cons a l =>
    rw [List.destutter_cons']
    rcases List.mem_cons.mp h with rfl | h
    · exact List.mem_destutter' _ _ _
    · exact mem_destutter'_of_mem h

end Destutter

section Queries

variable {db : Database} {now : Clock} {viewer : Int64} {excludeDirect : Bool} {p : Post}

theorem feedStop_none {source : FeedSource} (limit : Int) :
    db.feedStop source ⟨limit, none, none⟩ = Int64.maxValue := by
  rw [Tables.feedStop]
  split <;> rfl

theorem exists_limit_feed {source : FeedSource} :
    (∃ limit, p ∈ db.fetchFeedPosts (db.feedCandidateIds now source ⟨limit, none, none⟩)) ↔
      p ∈ db.posts ∧ db.qualifies source p ∧ p.Dated := by
  simp only [mem_feedPosts, feedStop_none]
  constructor
  · rintro ⟨limit, -, htop⟩
    exact mem_qualifying.mp (mem_of_mem_top htop)
  · intro h
    have hmem := mem_qualifying.mpr h
    refine ⟨(ahead Post.id (db.qualifying source Int64.maxValue 0) p + 1 : Nat), by omega, ?_⟩
    exact (mem_top (nodup_qualifying _ _ _ _) p).mpr ⟨hmem, Nat.lt_succ_self _⟩

theorem exists_limit_top {q : Post → Bool} :
    (∃ limit : Int, p ∈ top Post.id limit.toNat (db.posts.filter q)) ↔ p ∈ db.posts ∧ q p = true := by
  rw [← List.mem_filter]
  constructor
  · rintro ⟨limit, htop⟩
    exact mem_of_mem_top htop
  · intro h
    exact ⟨(ahead Post.id (db.posts.filter q) p + 1 : Nat),
      (mem_top (nodup_posts q) p).mpr ⟨h, Nat.lt_succ_self _⟩⟩

theorem between_iff : Tables.between (untilOrMax none) (sinceOrZero none) p = true ↔
    p.deleted = false ∧ p.Dated := by
  simp only [Tables.between, Bool.and_eq_true, Bool.not_eq_true', decide_eq_true_eq]
  constructor
  · rintro ⟨⟨hdeleted, hmax⟩, hmin⟩
    exact ⟨hdeleted, hmin, hmax⟩
  · rintro ⟨hdeleted, hmin, hmax⟩
    exact ⟨⟨hdeleted, hmax⟩, hmin⟩

theorem publicFilter_iff {limit : Int} :
    db.publicFilter (some viewer) ⟨limit, none, none⟩ excludeDirect p = true ↔
      p.deleted = false ∧ p.Dated ∧ p.ShownPublicly ∧ db.NotFiltered viewer p ∧
        db.postIsVisibleTo (some viewer) p.actorId p.visibility p.id excludeDirect = true := by
  have hown : p.actorId = viewer ↔ viewer = p.actorId := eq_comm
  simp only [Tables.publicFilter, Bool.and_eq_true, between_iff, Option.all_some, Bool.or_eq_true,
    bne_iff_ne, beq_iff_eq, Bool.not_eq_true', Post.ShownPublicly, Tables.NotFiltered, hown,
    and_assoc]

theorem qualifies_following_iff :
    db.qualifies (.following viewer excludeDirect) p = true ↔
      p.deleted = false ∧ db.Followed viewer p ∧ db.AnswersFollowed viewer p ∧
        db.NotFiltered viewer p ∧
        db.postIsVisibleTo (some viewer) p.actorId p.visibility p.id excludeDirect = true := by
  have htarget : db.isTarget (.following viewer excludeDirect) p = true ↔ db.Followed viewer p ∧
      (viewer = p.actorId ∨ db.actorIsHiddenForViewer viewer p.actorId = false) := by
    simp only [Tables.isTarget, Bool.or_eq_true, beq_iff_eq, List.any_eq_true, Bool.and_eq_true,
      actorNotHidden_eq, Bool.not_eq_true', Tables.Followed, Tables.followsAccepted]
    constructor
    · rintro (hown | ⟨f, hf, ⟨⟨hfollower, htarget⟩, haccepted⟩, hhidden⟩)
      · exact ⟨.inl hown.symm, .inl hown.symm⟩
      · rw [htarget] at hhidden
        exact ⟨.inr ⟨f, hf, ⟨hfollower, htarget⟩, haccepted⟩, .inr hhidden⟩
    · rintro ⟨hown | ⟨f, hf, ⟨hfollower, htarget⟩, haccepted⟩, hnot⟩
      · exact .inl hown.symm
      · rcases hnot with hown | hhidden
        · exact .inl hown.symm
        · exact .inr ⟨f, hf, ⟨⟨hfollower, htarget⟩, haccepted⟩, htarget ▸ hhidden⟩
  have hmuted : db.repostNotMuted viewer p = true ↔
      (Tables.isRepost p && db.repostIsMutedForViewer viewer p.actorId) = false :=
    iff_of_eq (Bool.not_eq_true' _)
  simp only [Tables.qualifies, Tables.postFilter, Bool.and_eq_true, htarget, hmuted,
    postVisibleToViewer_eq, replyTargetFollowed_eq, Bool.not_eq_true', Tables.AnswersFollowed,
    Tables.NotFiltered]
  tauto

/-- What `social_timeline` asks of a local row, without a cursor -/
def Tables.socialLocalFilter (db : Tables) (viewer : Int64) (excludeDirect : Bool) (p : Post) :
    Bool :=
  p.isLocal && Tables.between (untilOrMax none) (sinceOrZero none) p &&
    (p.visibility != .unlisted || p.actorId == viewer) &&
    (p.actorId == viewer || !db.actorIsHiddenForViewer viewer p.actorId) &&
    !(Tables.isRepost p && db.repostIsMutedForViewer viewer p.actorId) &&
    db.postIsVisibleTo (some viewer) p.actorId p.visibility p.id excludeDirect

theorem socialLocalFilter_iff : db.socialLocalFilter viewer excludeDirect p = true ↔
    p.isLocal = true ∧ p.deleted = false ∧ p.Dated ∧
      (p.visibility ≠ .unlisted ∨ viewer = p.actorId) ∧ db.NotFiltered viewer p ∧
      db.postIsVisibleTo (some viewer) p.actorId p.visibility p.id excludeDirect = true := by
  have hown : p.actorId = viewer ↔ viewer = p.actorId := eq_comm
  simp only [Tables.socialLocalFilter, Bool.and_eq_true, between_iff, Bool.or_eq_true, bne_iff_ne,
    beq_iff_eq, Bool.not_eq_true', Tables.NotFiltered, hown, and_assoc]

theorem mem_socialLocalIds {limit : Int} (hp : p ∈ db.posts) :
    p.id ∈ db.socialLocalIds viewer ⟨limit, none, none⟩ excludeDirect ↔
      p ∈ top Post.id limit.toNat (db.posts.filter (db.socialLocalFilter viewer excludeDirect)) := by
  constructor
  · intro h
    obtain ⟨q, hq, heq⟩ := List.mem_map.mp h
    have hqmem := (List.mem_filter.mp (mem_of_mem_top hq)).1
    have hqp := List.inj_on_of_nodup_map db.posts_pkey hqmem hp heq
    exact hqp ▸ hq
  · exact fun h => List.mem_map.mpr ⟨p, h, rfl⟩

theorem length_top_filter_le (db : Database) (n : Nat) (q : Post → Bool) :
    (top Post.id n (db.posts.filter q)).length ≤ db.posts.length := by
  rw [length_top]
  exact (Nat.min_le_right _ _).trans (List.length_filter_le _ _)

theorem length_feedCandidateIds_le (db : Database) (now : Clock) (source : FeedSource)
    {limit : Int} (h : 0 < limit) :
    (db.feedCandidateIds now source ⟨limit, none, none⟩).length ≤ db.posts.length := by
  have heq := request_eq db source now h none none
  rw [Tables.request] at heq
  rw [heq, Tables.firstIds, List.length_map]
  exact length_top_filter_le _ _ _

theorem mem_top_of_length_le {n : Nat} {q : Post → Bool} (hn : db.posts.length ≤ n)
    (hp : p ∈ db.posts) (hq : q p = true) : p ∈ top Post.id n (db.posts.filter q) := by
  rw [top_of_length_le ((List.length_filter_le _ _).trans hn), mem_descending]
  exact List.mem_filter.mpr ⟨hp, hq⟩

theorem shows_of_mem_social {limit : Int}
    (h : p ∈ db.socialTimeline now viewer ⟨limit, none, none⟩ excludeDirect) :
    p ∈ db.posts ∧ p.deleted = false ∧ p.Dated ∧ db.NotFiltered viewer p ∧
      db.postIsVisibleTo (some viewer) p.actorId p.visibility p.id excludeDirect = true ∧
      db.Shows viewer p .hybrid := by
  obtain ⟨hp, hid, hdeleted⟩ := mem_fetchFeedPosts.mp h
  have hids := mem_descending.mp (mem_destutter.mp (List.mem_of_mem_take hid))
  rcases List.mem_append.mp hids with hfeed | hlocal
  · obtain ⟨-, hq, hdated⟩ := exists_limit_feed.mp
      ⟨limit, mem_fetchFeedPosts.mpr ⟨hp, hfeed, hdeleted⟩⟩
    obtain ⟨-, hfollowed, hanswers, hnot, hvisible⟩ := qualifies_following_iff.mp hq
    exact ⟨hp, hdeleted, hdated, hnot, hvisible, .inl ⟨hfollowed, hanswers⟩⟩
  · have hf := (List.mem_filter.mp (mem_of_mem_top ((mem_socialLocalIds hp).mp hlocal))).2
    obtain ⟨hlocal, -, hdated, hshown, hnot, hvisible⟩ := socialLocalFilter_iff.mp hf
    exact ⟨hp, hdeleted, hdated, hnot, hvisible, .inr ⟨hlocal, hshown⟩⟩

theorem mem_social_of_shows (hp : p ∈ db.posts) (hdeleted : p.deleted = false) (hdated : p.Dated)
    (hnot : db.NotFiltered viewer p)
    (hvisible : db.postIsVisibleTo (some viewer) p.actorId p.visibility p.id excludeDirect = true)
    (h : db.Shows viewer p .hybrid) :
    ∃ limit, p ∈ db.socialTimeline now viewer ⟨limit, none, none⟩ excludeDirect := by
  have hpos : (0 : Int) < (2 * db.posts.length + 1 : Nat) := by omega
  have hle : db.posts.length ≤ ((2 * db.posts.length + 1 : Nat) : Int).toNat := by
    rw [Int.toNat_natCast]
    omega
  have hfeedStop : db.feedStop (.following viewer excludeDirect)
      ⟨(2 * db.posts.length + 1 : Nat), none, none⟩ = Int64.maxValue := feedStop_none _
  refine ⟨(2 * db.posts.length + 1 : Nat), mem_fetchFeedPosts.mpr ⟨hp, ?_, hdeleted⟩⟩
  rw [List.take_of_length_le, mem_destutter, mem_descending, List.mem_append]
  · rcases h with ⟨hfollowed, hanswers⟩ | ⟨hlocal, hshown⟩
    · have hq : db.qualifies (.following viewer excludeDirect) p = true :=
        qualifies_following_iff.mpr ⟨hdeleted, hfollowed, hanswers, hnot, hvisible⟩
      refine .inl (mem_fetchFeedPosts.mp (mem_feedPosts.mpr ⟨hpos, ?_⟩)).2.1
      rw [hfeedStop]
      have hqualifying := mem_qualifying.mpr ⟨hp, hq, hdated⟩
      exact mem_top_of_length_le hle hp (List.mem_filter.mp hqualifying).2
    · exact .inr ((mem_socialLocalIds hp).mpr (mem_top_of_length_le hle hp
        (socialLocalFilter_iff.mpr ⟨hlocal, hdeleted, hdated, hshown, hnot, hvisible⟩)))
  · refine ((List.destutter_sublist _ _).length_le).trans ?_
    rw [length_descending, List.length_append]
    have hfeed := length_feedCandidateIds_le db now (.following viewer excludeDirect) hpos
    have hlocal := length_top_filter_le db ((2 * db.posts.length + 1 : Nat) : Int).toNat
      (db.socialLocalFilter viewer excludeDirect)
    have hlength : (db.socialLocalIds viewer ⟨(2 * db.posts.length + 1 : Nat), none, none⟩
        excludeDirect).length ≤ db.posts.length := by
      rw [Tables.socialLocalIds, List.length_map]
      exact hlocal
    show _ ≤ ((2 * db.posts.length + 1 : Nat) : Int).toNat
    rw [Int.toNat_natCast]
    omega

theorem returned_iff {kind : TimelineKind} (hp : p ∈ db.posts) (hdeleted : p.deleted = false) :
    db.Returned now kind viewer excludeDirect p ↔
      p.Dated ∧ db.NotFiltered viewer p ∧
        db.postIsVisibleTo (some viewer) p.actorId p.visibility p.id excludeDirect = true ∧
        db.Shows viewer p kind := by
  cases kind with
  | home =>
    show (∃ limit, p ∈ db.fetchFeedPosts (db.feedCandidateIds now (.following viewer excludeDirect)
      ⟨limit, none, none⟩)) ↔ _
    rw [exists_limit_feed, qualifies_following_iff, Tables.Shows]
    tauto
  | localPosts =>
    show (∃ limit : Int, p ∈ top Post.id limit.toNat (db.posts.filter fun p =>
      p.isLocal && db.publicFilter (some viewer) ⟨0, none, none⟩ excludeDirect p)) ↔ _
    rw [exists_limit_top, Bool.and_eq_true, publicFilter_iff, Tables.Shows]
    tauto
  | hybrid =>
    constructor
    · rintro ⟨limit, h⟩
      exact (shows_of_mem_social h).2.2
    · rintro ⟨hdated, hnot, hvisible, hshows⟩
      exact mem_social_of_shows hp hdeleted hdated hnot hvisible hshows
  | global =>
    show (∃ limit : Int, p ∈ top Post.id limit.toNat (db.posts.filter
      (db.publicFilter (some viewer) ⟨0, none, none⟩ excludeDirect))) ↔ _
    rw [exists_limit_top, publicFilter_iff, Tables.Shows]
    tauto

end Queries

section Pushes

variable {db : Database} {now : Clock} {viewer : Int64} {excludeDirect : Bool} {p : Post}
  {producer : Producer} {kind : TimelineKind} {hashtags : List String}

def Tables.IsLocalUser (db : Tables) (viewer : Int64) : Prop :=
  ∃ a ∈ db.actors, a.id = viewer ∧ a.actorType = .localUser

/-- The row of a new post: those of the API are local (`posts_set_is_local`), and a repost is
as visible as a public or an unlisted post. -/
def Producer.Row : Producer → Post → Prop
  | .note, p => p.isLocal = true
  | .repost, p => p.isLocal = true ∧ p.replyToPostId = none ∧
      (p.visibility = .pub ∨ p.visibility = .unlisted)
  | .createNote, _ => True
  | .announce, _ => True

/-- Whom a scope is for -/
def Tables.Audience (db : Tables) (viewer : Int64) (producer : Producer) (p : Post) :
    TimelineKind → Prop
  | .home => viewer = p.actorId ∨
      db.followsAccepted viewer p.actorId = true ∧ db.AnswersFollowed viewer p
  | .localPosts => producer ≠ .createNote ∧ (producer = .repost ∨ p.ShownPublicly)
  | .hybrid => (producer ≠ .createNote ∧ (producer = .repost ∨ p.ShownPublicly)) ∨
      (viewer = p.actorId ∨
        db.followsAccepted viewer p.actorId = true ∧ db.AnswersFollowed viewer p)
  | .global => producer = .repost ∨ p.ShownPublicly

theorem mem_findHomeRecipientIds {target : Int64} {replyToPostId : Option Int64}
    (hv : db.IsLocalUser viewer) : viewer ∈ db.findHomeRecipientIds target replyToPostId ↔
      db.followsAccepted viewer target = true ∧
        db.postReplyTargetFollowed viewer replyToPostId = true := by
  simp only [Tables.findHomeRecipientIds, List.mem_map, List.mem_filter, Bool.and_eq_true,
    beq_iff_eq, Tables.followsAccepted, List.any_eq_true]
  constructor
  · rintro ⟨f, ⟨hf, ⟨⟨htarget, haccepted⟩, -⟩, hreply⟩, rfl⟩
    exact ⟨⟨f, hf, ⟨rfl, htarget⟩, haccepted⟩, hreply⟩
  · rintro ⟨⟨f, hf, ⟨rfl, htarget⟩, haccepted⟩, hreply⟩
    exact ⟨f, ⟨hf, ⟨⟨htarget, haccepted⟩, hv⟩, hreply⟩, rfl⟩

theorem matches_channelScope {isLocal : Bool} {visibility : Visibility}
    {replyToPostId : Option Int64} (hv : db.IsLocalUser viewer) :
    (db.channelScope isLocal visibility p.actorId replyToPostId hashtags).matches kind.channel
        viewer = true ↔
      match kind with
      | .home => viewer = p.actorId ∨ db.followsAccepted viewer p.actorId = true ∧
          db.postReplyTargetFollowed viewer replyToPostId = true
      | .localPosts => isLocal = true ∧ visibility ≠ .unlisted ∧ visibility ≠ .followersOnly
      | .hybrid => (isLocal = true ∧ visibility ≠ .unlisted ∧ visibility ≠ .followersOnly) ∨
          (viewer = p.actorId ∨ db.followsAccepted viewer p.actorId = true ∧
            db.postReplyTargetFollowed viewer replyToPostId = true)
      | .global => visibility ≠ .unlisted ∧ visibility ≠ .followersOnly := by
  cases kind <;> simp only [ChannelScope.matches, TimelineKind.channel, Tables.channelScope,
    List.contains_iff_mem, List.mem_cons, mem_findHomeRecipientIds hv, Bool.and_eq_true,
    Bool.or_eq_true, bne_iff_ne]

theorem pushed_iff (hv : db.IsLocalUser viewer) (hrow : producer.Row p) :
    db.pushed producer p hashtags kind.channel viewer = true ↔
      (producer ≠ .announce ∧ p.visibility ≠ .direct) ∧ db.Audience viewer producer p kind := by
  cases producer with
  | note =>
    by_cases hdirect : p.visibility = .direct
    · simp [Tables.pushed, Tables.published, Tables.broadcastDirectMessage, hdirect]
    · have hvisibility : (if p.visibility = .pub then none else some p.visibility).getD .pub =
          p.visibility := by
        split
        · rename_i hpub
          exact hpub.symm
        · rfl
      rw [Tables.pushed, Tables.published, if_neg hdirect, Tables.broadcastNewNote, hvisibility]
      dsimp only
      rw [matches_channelScope hv]
      cases kind <;> simp [hdirect, Tables.Audience, Post.ShownPublicly, Tables.AnswersFollowed]
  | repost =>
    obtain ⟨-, hreply, hvisibility⟩ := hrow
    have hdirect : p.visibility ≠ .direct := by
      rcases hvisibility with h | h <;> simp [h]
    rw [Tables.pushed, Tables.published, Tables.broadcastNewNote]
    dsimp only
    rw [matches_channelScope hv]
    cases kind <;> simp [hdirect, Tables.Audience, Tables.AnswersFollowed, hreply]
  | createNote =>
    rw [Tables.pushed, Tables.published, Tables.broadcastCreatedNote]
    by_cases hdirect : p.visibility = .direct
    · rw [if_pos hdirect]
      dsimp only
      split
      · rename_i scope heq
        split at heq <;> cases heq
      · simp [hdirect]
    · rw [if_neg hdirect]
      dsimp only
      rw [matches_channelScope hv]
      cases kind <;> simp [hdirect, Tables.Audience, Post.ShownPublicly, Tables.AnswersFollowed]
  | announce => simp [Tables.pushed, Tables.published]

/-- What is never pushed to a channel: direct notes, and the reposts of other servers -/
def Tables.Unsent (db : Tables) (viewer : Int64) (excludeDirect : Bool) (p : Post)
    (kind : TimelineKind) : Prop :=
  p.Dated ∧ db.NotFiltered viewer p ∧
    db.postIsVisibleTo (some viewer) p.actorId p.visibility p.id excludeDirect = true ∧
    db.Shows viewer p kind

/-- The viewer's own reply to somebody the viewer does not follow -/
def Tables.OwnReply (db : Tables) (viewer : Int64) (p : Post) (kind : TimelineKind) : Prop :=
  viewer = p.actorId ∧ ¬ db.AnswersFollowed viewer p ∧
    (kind = .home ∨ kind = .hybrid ∧ p.isLocal = false)

/-- A repost of an unlisted post is pushed like one of a public post. -/
def Tables.UnlistedRepost (db : Tables) (viewer : Int64) (producer : Producer) (p : Post)
    (kind : TimelineKind) : Prop :=
  producer = .repost ∧ p.visibility = .unlisted ∧
    (kind = .localPosts ∨ kind = .global ∨ kind = .hybrid ∧ ¬ db.Followed viewer p)

/-- A local reply for the followers, one of them the viewer, to somebody the viewer does not
follow -/
def Tables.FollowersOnlyReply (db : Tables) (viewer : Int64) (p : Post) (kind : TimelineKind) :
    Prop :=
  kind = .hybrid ∧ p.isLocal = true ∧ p.visibility = .followersOnly ∧ viewer ≠ p.actorId ∧
    db.followsAccepted viewer p.actorId = true ∧ ¬ db.AnswersFollowed viewer p

/-- A public note of a local user that comes in from elsewhere -/
def Tables.LocalAuthor (db : Tables) (viewer : Int64) (producer : Producer) (p : Post)
    (kind : TimelineKind) : Prop :=
  producer = .createNote ∧ p.isLocal = true ∧ p.visibility = .pub ∧
    (kind = .localPosts ∨ kind = .hybrid ∧ viewer ≠ p.actorId ∧
      ¬ (db.followsAccepted viewer p.actorId = true ∧ db.AnswersFollowed viewer p))

/-- The posts that only the stream or only the timeline has -/
def Tables.Differs (db : Tables) (viewer : Int64) (excludeDirect : Bool) (producer : Producer)
    (p : Post) (kind : TimelineKind) : Prop :=
  if producer = .announce ∨ p.visibility = .direct then db.Unsent viewer excludeDirect p kind
  else
    if p.Dated ∧ db.NotFiltered viewer p then
      (db.OwnReply viewer p kind ∨ db.UnlistedRepost viewer producer p kind) ∨
        db.FollowersOnlyReply viewer p kind ∨ db.LocalAuthor viewer producer p kind
    else db.Audience viewer producer p kind

theorem visible_iff (h : p.visibility ≠ .direct) :
    db.postIsVisibleTo (some viewer) p.actorId p.visibility p.id excludeDirect = true ↔
      (p.visibility = .followersOnly → db.Followed viewer p) := by
  have hauthor : (some viewer == some p.actorId) = true ↔ viewer = p.actorId := by
    rw [beq_iff_eq, Option.some.injEq]
  unfold Tables.postIsVisibleTo
  cases hvisibility : p.visibility with
  | direct => exact absurd hvisibility h
  | followersOnly => simp [Tables.Followed]
  | pub => simp
  | unlisted => simp

theorem visibility_cases (h : p.visibility ≠ .direct) :
    p.visibility = .pub ∨ p.visibility = .unlisted ∨ p.visibility = .followersOnly := by
  cases hvisibility : p.visibility with
  | direct => exact absurd hvisibility h
  | _ => simp

theorem answersFollowed_of_none (h : p.replyToPostId = none) : db.AnswersFollowed viewer p := by
  rw [Tables.AnswersFollowed, h]
  rfl

/-- What is pushed to a viewer and not for the timeline -/
theorem only_pushed_iff (hannounce : producer ≠ .announce) (hdirect : p.visibility ≠ .direct)
    (hrow : producer.Row p) :
    (db.Audience viewer producer p kind ∧
        ¬ ((p.visibility = .followersOnly → db.Followed viewer p) ∧ db.Shows viewer p kind)) ↔
      db.OwnReply viewer p kind ∨ db.UnlistedRepost viewer producer p kind := by
  have hvisibility := visibility_cases hdirect
  simp only [Tables.OwnReply, Tables.UnlistedRepost]
  cases kind with
  | home =>
    simp only [Tables.Audience, Tables.Shows, Tables.Followed]
    grind
  | localPosts =>
    simp only [Tables.Audience, Tables.Shows, Post.ShownPublicly]
    cases producer <;> simp only [Producer.Row] at hrow <;> grind
  | hybrid =>
    simp only [Tables.Audience, Tables.Shows, Post.ShownPublicly, Tables.Followed]
    cases producer with
    | note =>
      simp only [Producer.Row] at hrow
      grind
    | repost =>
      obtain ⟨hlocal, hreply, hpub⟩ := hrow
      have hanswers : db.AnswersFollowed viewer p := answersFollowed_of_none hreply
      grind
    | createNote => grind
    | announce => exact absurd rfl hannounce
  | global =>
    simp only [Tables.Audience, Tables.Shows, Post.ShownPublicly]
    cases producer <;> simp only [Producer.Row] at hrow <;> grind

/-- What a timeline is for and is not pushed to the viewer -/
theorem only_shown_iff (hannounce : producer ≠ .announce) (hdirect : p.visibility ≠ .direct)
    (hrow : producer.Row p) :
    (((p.visibility = .followersOnly → db.Followed viewer p) ∧ db.Shows viewer p kind) ∧
        ¬ db.Audience viewer producer p kind) ↔
      db.FollowersOnlyReply viewer p kind ∨ db.LocalAuthor viewer producer p kind := by
  have hvisibility := visibility_cases hdirect
  simp only [Tables.FollowersOnlyReply, Tables.LocalAuthor]
  cases kind with
  | home =>
    simp only [Tables.Audience, Tables.Shows, Tables.Followed]
    grind
  | localPosts =>
    simp only [Tables.Audience, Tables.Shows, Post.ShownPublicly]
    cases producer <;> simp only [Producer.Row] at hrow <;> grind
  | hybrid =>
    simp only [Tables.Audience, Tables.Shows, Post.ShownPublicly, Tables.Followed]
    cases producer with
    | note =>
      simp only [Producer.Row] at hrow
      grind
    | repost =>
      obtain ⟨hlocal, hreply, hpub⟩ := hrow
      have hanswers : db.AnswersFollowed viewer p := answersFollowed_of_none hreply
      grind
    | createNote => grind
    | announce => exact absurd rfl hannounce
  | global =>
    simp only [Tables.Audience, Tables.Shows, Post.ShownPublicly]
    cases producer <;> simp only [Producer.Row] at hrow <;> grind

/-- A post is pushed to a channel exactly where the timeline returns it, except for the posts
of `Differs`. -/
theorem pushed_iff_returned_iff (now : Clock) (hashtags : List String)
    (hp : p ∈ db.posts) (hdeleted : p.deleted = false) (hrow : producer.Row p)
    (hv : db.IsLocalUser viewer) :
    (db.pushed producer p hashtags kind.channel viewer = true ↔
        db.Returned now kind viewer excludeDirect p) ↔
      ¬ db.Differs viewer excludeDirect producer p kind := by
  rw [returned_iff hp hdeleted, pushed_iff hv hrow, Tables.Differs]
  split
  · rename_i hunsent
    have hno : ¬ (producer ≠ .announce ∧ p.visibility ≠ .direct) := by tauto
    rw [Tables.Unsent]
    tauto
  · rename_i hsent
    rw [not_or] at hsent
    rw [visible_iff hsent.2, and_iff_right hsent]
    split
    · rename_i hkept
      rw [← only_pushed_iff hsent.1 hsent.2 hrow, ← only_shown_iff hsent.1 hsent.2 hrow,
        and_iff_right hkept.1, and_iff_right hkept.2]
      exact (not_xor _ _).symm
    · rename_i hkept
      have hno : ¬ (p.Dated ∧ db.NotFiltered viewer p ∧
          (p.visibility = .followersOnly → db.Followed viewer p) ∧ db.Shows viewer p kind) :=
        fun h => hkept ⟨h.1, h.2.1⟩
      rw [iff_false_intro hno, iff_false]

def newPost : Post := { id := 9, actorId := 1, isLocal := true }

/-- 2 follows 1, who has written a post. -/
def follower (mutes : List Mute) : Database where
  actors := [⟨1, .localUser, false, false⟩, ⟨2, .localUser, false, false⟩]
  posts := [newPost]
  follows := [⟨2, 1, .accepted⟩]
  mutes := mutes
  posts_pkey := by decide
  posts_actor_id_fkey := by decide
  lists_pkey := by exact List.nodup_nil
  list_members_key := by exact nodup_no_keys
  dm_read_states_pkey := by exact nodup_no_keys

def noon : Clock := ⟨43200000, by decide⟩

theorem pushed_iff_returned_iff_follower :
    (follower []).pushed .note newPost [] TimelineKind.home.channel 2 = true ↔
      (follower []).Returned noon .home 2 true newPost := by
  have hviewer : (follower []).IsLocalUser 2 :=
    ⟨⟨2, .localUser, false, false⟩, by decide, rfl, rfl⟩
  have hrow : Producer.note.Row newPost := rfl
  refine (pushed_iff_returned_iff noon [] (by decide) rfl hrow hviewer).mpr ?_
  rw [Tables.Differs, if_neg (by decide), if_pos (by decide), Tables.OwnReply,
    Tables.UnlistedRepost, Tables.FollowersOnlyReply, Tables.LocalAuthor]
  decide

/-- A post of a muted author is pushed to the follower, whose timeline does not have it. -/
theorem pushed_of_muted :
    (follower [⟨2, 1⟩]).pushed .note newPost [] TimelineKind.home.channel 2 = true ∧
      ¬ (follower [⟨2, 1⟩]).Returned noon .home 2 true newPost := by
  refine ⟨by decide, fun h => ?_⟩
  have hnot := ((returned_iff (by decide) rfl).mp h).2.1
  revert hnot
  decide

end Pushes

end Seiran.Timeline
