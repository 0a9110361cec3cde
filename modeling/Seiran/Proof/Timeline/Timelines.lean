import Seiran.Model.Timeline.Timelines
import Seiran.Proof.Timeline.Feed

/-!
# What the timelines show

* `mem_feedPosts`: a post of a feed qualifies for its source;
* `exists_page_iff`: and of a list, which of the posts that qualify some page
  holds;
* `timelines_confined`: the home, local, social and global timelines only have
  posts that the viewer may see; the list and mentions timelines where nothing
  they collect is hidden from the viewer.
-/

namespace Seiran.Timeline

open TopN

variable {db : Database}

section Visible

/-- `post_visible_to_viewer_sql!` is `post_is_visible_to` of a viewer. -/
theorem postVisibleToViewer_eq (db : Tables) (viewer : Int64) (excludeDirect : Bool) (p : Post) :
    db.postVisibleToViewer viewer excludeDirect p =
      db.postIsVisibleTo (some viewer) p.actorId p.visibility p.id excludeDirect := by
  have hauthor : (some viewer == some p.actorId) = (p.actorId == viewer) := by
    rw [Bool.eq_iff_iff, beq_iff_eq, beq_iff_eq, Option.some.injEq]
    exact eq_comm
  cases hv : p.visibility <;>
    simp [Tables.postVisibleToViewer, Tables.postIsVisibleTo, hv, hauthor]

theorem replyTargetFollowed_eq (db : Tables) (viewer : Int64) (p : Post) :
    db.replyTargetFollowed viewer p = db.postReplyTargetFollowed viewer p.replyToPostId := by
  cases hr : p.replyToPostId <;> simp [Tables.replyTargetFollowed, Tables.postReplyTargetFollowed, hr]

theorem actorNotHidden_eq (db : Tables) (viewer other : Int64) :
    db.actorNotHidden viewer other = !db.actorIsHiddenForViewer viewer other := by
  simp only [Tables.actorNotHidden, Tables.actorIsHiddenForViewer, Bool.not_or]

/-- Leaving direct posts out only hides more. -/
theorem visible_of_postIsVisibleTo {viewer : Option Int64} {p : Post} {excludeDirect : Bool}
    (h : db.postIsVisibleTo viewer p.actorId p.visibility p.id excludeDirect) :
    db.visible viewer p := by
  cases excludeDirect with
  | false => exact h
  | true =>
    rw [Tables.visible]
    cases hv : p.visibility <;> simp_all [Tables.postIsVisibleTo]

/-- What hides a post that is not a direct one. -/
theorem visible_iff_of_ne_direct {viewer : Option Int64} {p : Post} (h : p.visibility ≠ .direct) :
    db.visible viewer p ↔
      (viewer = none → ∃ a ∈ db.actors, a.id = p.actorId ∧ a.actorType = .localUser) ∧
      (p.visibility = .followersOnly →
        ∃ v, viewer = some v ∧ (v = p.actorId ∨ db.followsAccepted v p.actorId)) := by
  unfold Tables.visible Tables.postIsVisibleTo
  cases viewer with
  | none => cases hv : p.visibility <;> simp_all
  | some v =>
    have hauthor : (some v == some p.actorId) = (v == p.actorId) := by
      rw [Bool.eq_iff_iff, beq_iff_eq, beq_iff_eq, Option.some.injEq]
    cases hv : p.visibility <;> simp_all

end Visible

section Feed

theorem mem_fetchFeedPosts {ids : List Int64} {p : Post} :
    p ∈ db.fetchFeedPosts ids ↔ p ∈ db.posts ∧ p.id ∈ ids ∧ p.deleted = false := by
  simp [Tables.fetchFeedPosts, mem_descending, List.mem_filter]

/-- The bound below which `feed_candidate_ids` takes the first ids. -/
def Tables.feedStop (db : Tables) (source : FeedSource) (page : FeedPage) : Int64 :=
  if db.targetCount source ≤ LATERAL_MAX_TARGETS then untilOrMax page.untilId
  else stop page.untilId (sinceOrZero page.sinceId)

theorem mem_feedPosts {now : Clock} {source : FeedSource} {page : FeedPage} {p : Post} :
    p ∈ db.fetchFeedPosts (db.feedCandidateIds now source page) ↔
      0 < page.limit ∧ p ∈ top Post.id page.limit.toNat
        (db.qualifying source (db.feedStop source page) (sinceOrZero page.sinceId)) := by
  rw [mem_fetchFeedPosts]
  by_cases hlimit : 0 < page.limit
  · have hids := request_eq db source now hlimit page.sinceId page.untilId
    rw [Tables.request] at hids
    rw [hids, ← Tables.feedStop]
    constructor
    · rintro ⟨hp, hid, -⟩
      obtain ⟨q, hq, heq⟩ := List.mem_map.mp hid
      have hqp := List.inj_on_of_nodup_map db.posts_pkey
        (mem_qualifying.mp (mem_of_mem_top hq)).1 hp heq
      exact ⟨hlimit, hqp ▸ hq⟩
    · rintro ⟨-, htop⟩
      have hq := mem_qualifying.mp (mem_of_mem_top htop)
      refine ⟨hq.1, List.mem_map.mpr ⟨p, htop, rfl⟩, ?_⟩
      have := hq.2.1
      simp only [Tables.qualifies, Bool.and_eq_true, Bool.not_eq_true'] at this
      exact this.1.1
  · rw [Tables.feedCandidateIds, if_pos (not_lt.mp hlimit)]
    simp [hlimit]

theorem qualifies_of_mem_feedPosts {now : Clock} {source : FeedSource} {page : FeedPage} {p : Post}
    (h : p ∈ db.fetchFeedPosts (db.feedCandidateIds now source page)) :
    db.qualifies source p :=
  (mem_qualifying.mp (mem_of_mem_top (mem_feedPosts.mp h).2)).2.1

theorem visible_of_following {viewer : Int64} {excludeDirect : Bool} {p : Post}
    (h : db.qualifies (.following viewer excludeDirect) p) : db.visible (some viewer) p := by
  simp only [Tables.qualifies, Tables.postFilter, Bool.and_eq_true] at h
  rw [postVisibleToViewer_eq] at h
  exact visible_of_postIsVisibleTo h.2.1.1

end Feed

section Confined

variable {now : Clock} {viewer : Option Int64} {actorId : Int64} {page : FeedPage}
  {excludeDirect : Bool} {p : Post}

theorem visible_of_mem_homeTimeline (h : p ∈ db.homeTimeline now actorId page excludeDirect) :
    db.visible (some actorId) p :=
  visible_of_following (qualifies_of_mem_feedPosts h)

theorem visible_of_publicFilter (h : db.publicFilter viewer page excludeDirect p) :
    db.visible viewer p := by
  simp only [Tables.publicFilter, Bool.and_eq_true] at h
  exact visible_of_postIsVisibleTo h.2

theorem visible_of_mem_localTimeline (h : p ∈ db.localTimeline viewer page excludeDirect) :
    db.visible viewer p := by
  have hf := (List.mem_filter.mp (mem_of_mem_top h)).2
  rw [Bool.and_eq_true] at hf
  exact visible_of_publicFilter hf.2

theorem visible_of_mem_globalTimeline (h : p ∈ db.globalTimeline viewer page excludeDirect) :
    db.visible viewer p :=
  visible_of_publicFilter (List.mem_filter.mp (mem_of_mem_top h)).2

theorem visible_of_mem_socialTimeline (h : p ∈ db.socialTimeline now actorId page excludeDirect) :
    db.visible (some actorId) p := by
  obtain ⟨hp, hid, hdeleted⟩ := mem_fetchFeedPosts.mp h
  have hid' := (List.destutter_sublist _ _).subset (List.mem_of_mem_take hid)
  rcases List.mem_append.mp (mem_descending.mp hid') with hfeed | hlocal
  · exact visible_of_mem_homeTimeline (mem_fetchFeedPosts.mpr ⟨hp, hfeed, hdeleted⟩)
  · obtain ⟨q, hq, heq⟩ := List.mem_map.mp hlocal
    have hq' := List.mem_filter.mp (mem_of_mem_top hq)
    obtain rfl := List.inj_on_of_nodup_map db.posts_pkey hq'.1 hp heq
    simp only [Bool.and_eq_true] at hq'
    exact visible_of_postIsVisibleTo hq'.2.2

end Confined

section Lists

/-- Which of the posts that qualify some page of a list holds: all but those with a
negative id that come after a hundred others, in a list of more than a hundred
members. -/
def Tables.Listed (db : Tables) (source : FeedSource) (p : Post) : Prop :=
  Int64.minValue < p.id ∧ p.id < Int64.maxValue ∧
    (0 ≤ p.id ∨ db.targetCount source ≤ LATERAL_MAX_TARGETS ∨
      ahead Post.id (db.qualifying source 0 p.id) p < 100)

theorem stop_nonneg {untilId : Option Int64} {since : Int64} (h : since < -1) :
    0 ≤ stop untilId since := by
  rw [stop]
  by_cases huntil : untilOrMax untilId < 0
  · rw [if_pos ⟨huntil, h⟩]
  · rw [if_neg fun hand => huntil hand.1]
    exact not_lt.mp huntil

theorem lt_neg_one {a b : Int64} (hab : a < b) (hb : b < 0) : a < -1 := by
  rw [I64.lt_iff] at hab hb ⊢
  have hzero : (0 : Int64).toInt = 0 := rfl
  have hone : (-1 : Int64).toInt = -1 := rfl
  omega

theorem ahead_qualifying_le (db : Database) (source : FeedSource)
    {upper upper' lower lower' : Int64} (p : Post) (hupper : upper ≤ upper') (hlower : lower' ≤ lower) :
    ahead Post.id (db.qualifying source upper lower) p ≤
      ahead Post.id (db.qualifying source upper' lower') p := by
  refine ahead_le Post.id (List.Sublist.subperm (List.monotone_filter_right _ fun q hq => ?_)) p
  simp only [Tables.between, Bool.and_eq_true, decide_eq_true_eq] at hq ⊢
  exact ⟨⟨⟨⟨hq.1.1.1.1, lt_of_lt_of_le hq.1.1.1.2 hupper⟩, lt_of_le_of_lt hlower hq.1.1.2⟩,
    hq.1.2⟩, hq.2⟩

theorem listed_of_mem_feedPosts {now : Clock} {source : FeedSource} {page : FeedPage} {p : Post}
    (hlimit : page.limit ≤ 100) (h : p ∈ db.fetchFeedPosts (db.feedCandidateIds now source page)) :
    db.Listed source p := by
  obtain ⟨hpos, htop⟩ := mem_feedPosts.mp h
  obtain ⟨-, -, hsince, hstop⟩ := mem_qualifying.mp (mem_of_mem_top htop)
  have hahead := ((mem_top (nodup_qualifying _ _ _ _) p).mp htop).2
  refine ⟨lt_of_le_of_lt (Int64.minValue_le _) hsince,
    lt_of_lt_of_le hstop (Int64.le_maxValue _), ?_⟩
  by_cases hcount : db.targetCount source ≤ LATERAL_MAX_TARGETS
  · exact .inr (.inl hcount)
  · by_cases hneg : p.id < 0
    · refine .inr (.inr ?_)
      have hfrom : 0 ≤ db.feedStop source page := by
        rw [Tables.feedStop, if_neg hcount]
        exact stop_nonneg (lt_neg_one hsince hneg)
      have := ahead_qualifying_le db source p hfrom hsince.le
      omega
    · exact .inl (not_lt.mp hneg)

/-- The page between the neighbours of an id has the post of that id. -/
theorem mem_top_between {source : FeedSource} {p : Post} (hp : p ∈ db.posts)
    (hq : db.qualifies source p) (hmin : Int64.minValue < p.id) (hmax : p.id < Int64.maxValue) :
    p ∈ top Post.id 1 (db.qualifying source (p.id + 1) (p.id - 1)) := by
  obtain ⟨hlower, hupper⟩ := between_neighbours hmin hmax
  refine (mem_top (nodup_qualifying _ _ _ _) p).mpr
    ⟨mem_qualifying.mpr ⟨hp, hq, hlower, hupper⟩, ?_⟩
  rw [ahead_eq_zero hmax fun q hq => (mem_qualifying.mp hq).2.2.2]
  exact Nat.one_pos

theorem exists_page_of_listed (now : Clock) {source : FeedSource} {p : Post} (hp : p ∈ db.posts)
    (hq : db.qualifies source p) (h : db.Listed source p) :
    ∃ page : FeedPage, page.limit ≤ 100 ∧
      p ∈ db.fetchFeedPosts (db.feedCandidateIds now source page) := by
  obtain ⟨hmin, hmax, hlisted⟩ := h
  have hnext := I64.toInt_add_one (I64.lt_iff.mp hmax : p.id.toInt < 2 ^ 63 - 1)
  by_cases hcase : db.targetCount source ≤ LATERAL_MAX_TARGETS ∨ 0 ≤ p.id
  · refine ⟨⟨1, some (p.id + 1), some (p.id - 1)⟩, (by omega : (1 : Int) ≤ 100), ?_⟩
    refine mem_feedPosts.mpr ⟨(by omega : (0 : Int) < 1), ?_⟩
    have hstop : db.feedStop source ⟨1, some (p.id + 1), some (p.id - 1)⟩ = p.id + 1 := by
      rw [Tables.feedStop]
      rcases hcase with hcount | hnonneg
      · rw [if_pos hcount]
        rfl
      · have hle : ¬ p.id + 1 < 0 := by
          rw [I64.lt_iff]
          rw [I64.le_iff] at hnonneg
          have hzero : (0 : Int64).toInt = 0 := rfl
          omega
        have hstop : stop (some (p.id + 1)) (p.id - 1) = p.id + 1 := if_neg fun hand => hle hand.1
        show (if _ then p.id + 1 else stop (some (p.id + 1)) (p.id - 1)) = p.id + 1
        rw [hstop, ite_self]
    rw [hstop]
    exact mem_top_between hp hq hmin hmax
  · obtain ⟨hcount, hneg⟩ := not_or.mp hcase
    have hahead := (hlisted.resolve_left hneg).resolve_left hcount
    refine ⟨⟨100, some 0, some (p.id - 1)⟩, (by omega : (100 : Int) ≤ 100), ?_⟩
    refine mem_feedPosts.mpr ⟨(by omega : (0 : Int) < 100), ?_⟩
    have hstop : db.feedStop source ⟨100, some 0, some (p.id - 1)⟩ = 0 := by
      rw [Tables.feedStop, if_neg hcount]
      exact if_neg fun hand => lt_irrefl _ hand.1
    rw [hstop]
    refine (mem_top (nodup_qualifying _ _ _ _) p).mpr
      ⟨mem_qualifying.mpr ⟨hp, hq, (between_neighbours hmin hmax).1, not_le.mp hneg⟩, ?_⟩
    · -- what is ahead of the post is above its id, whatever the lower bound
      have hle : ahead Post.id (db.qualifying source 0 (p.id - 1)) p ≤
          ahead Post.id (db.qualifying source 0 p.id) p := by
        unfold ahead
        rw [List.countP_eq_length_filter, List.countP_eq_length_filter]
        refine (List.subperm_of_subset ((nodup_posts _).of_map.filter _) fun q hqmem => ?_).length_le
        rw [List.mem_filter, decide_eq_true_eq] at hqmem ⊢
        obtain ⟨hqpost, hqq, -, hq0⟩ := mem_qualifying.mp hqmem.1
        exact ⟨mem_qualifying.mpr ⟨hqpost, hqq, hqmem.2, hq0⟩, hqmem.2⟩
      exact lt_of_le_of_lt hle hahead

variable {viewer : Option Int64} {listId : Int64} {p : Post}

theorem ne_direct_of_qualifies (h : db.qualifies (.listMembers listId) p) :
    p.visibility ≠ .direct := by
  simp only [Tables.qualifies, Tables.postFilter, Bool.and_eq_true, bne_iff_ne] at h
  exact h.2

/-- Who may see a list sees the posts that some page of it holds. -/
theorem listTimeline_confined_iff :
    (∀ now limit untilId sinceId posts,
        db.listTimeline now viewer listId limit untilId sinceId = .ok posts →
          ∀ p ∈ posts, db.visible viewer p) ↔
      ∀ row, (db.lists.find? fun row => row.id == listId) = some row →
        (row.isPublic ∨ viewer = some row.ownerActorId) →
        ∀ p ∈ db.posts, db.qualifies (.listMembers listId) p → db.Listed (.listMembers listId) p →
          (viewer = none → ∃ a ∈ db.actors, a.id = p.actorId ∧ a.actorType = .localUser) ∧
          (p.visibility = .followersOnly →
            ∃ v, viewer = some v ∧ (v = p.actorId ∨ db.followsAccepted v p.actorId)) := by
  constructor
  · intro h row hrow haccess p hp hq hlisted
    obtain ⟨page, hlimit, hmem⟩ := exists_page_of_listed ⟨0, by decide⟩ hp hq hlisted
    have hallowed : ¬ (!row.isPublic && viewer != some row.ownerActorId) = true := by
      rcases haccess with hpublic | howner
      · simp [hpublic]
      · simp [howner]
    have hok : db.listTimeline ⟨0, by decide⟩ viewer listId (some page.limit) page.untilId
        page.sinceId = .ok (db.listPosts ⟨0, by decide⟩ listId page) := by
      have hmin : min page.limit 100 = page.limit := by omega
      rw [Tables.listTimeline, hrow]
      show (if _ then _ else _) = _
      rw [if_neg hallowed, Option.getD_some, hmin]
    exact (visible_iff_of_ne_direct (ne_direct_of_qualifies hq)).mp (h _ _ _ _ _ hok p hmem)
  · intro h now limit untilId sinceId posts hok p hp
    rw [Tables.listTimeline] at hok
    cases hrow : db.lists.find? fun row => row.id == listId with
    | none =>
      rw [hrow] at hok
      cases hok
    | some row =>
      rw [hrow] at hok
      replace hok : (if (!row.isPublic && viewer != some row.ownerActorId) = true then
          Except.error (ApiError.notFound "LIST_NOT_FOUND") else
          .ok (db.listPosts now listId ⟨min (limit.getD 30) 100, untilId, sinceId⟩)) =
            .ok posts := hok
      by_cases hdenied : (!row.isPublic && viewer != some row.ownerActorId) = true
      · rw [if_pos hdenied] at hok
        cases hok
      · rw [if_neg hdenied, Except.ok.injEq] at hok
        subst hok
        have hq := qualifies_of_mem_feedPosts hp
        have hlisted := listed_of_mem_feedPosts (by show min _ (100 : Int) ≤ 100; omega) hp
        have haccess : row.isPublic ∨ viewer = some row.ownerActorId := by
          cases hpublic : row.isPublic with
          | true => exact .inl rfl
          | false => exact .inr (by simpa [hpublic] using hdenied)
        exact (visible_iff_of_ne_direct (ne_direct_of_qualifies hq)).mpr
          (h row hrow haccess p (mem_fetchFeedPosts.mp hp).1 hq hlisted)

end Lists

section Mentions

variable {actorId : Int64}

theorem mem_mentionsTimeline {specifiedOnly : Bool} {page : FeedPage} {p : Post}
    (h : p ∈ db.mentionsTimeline actorId specifiedOnly page) :
    p ∈ db.posts ∧ p.deleted = false ∧ p.actorId ≠ actorId ∧
      (sinceOrZero page.sinceId < p.id ∧ p.id < untilOrMax page.untilId) ∧
      (p.visibility = .direct ∧ db.isRecipient p.id actorId ∨ db.isNotified actorId p) := by
  have hp := List.mem_filter.mp (mem_of_mem_top h)
  simp only [Tables.between, Bool.and_eq_true, Bool.or_eq_true, Bool.not_eq_true', beq_iff_eq,
    bne_iff_ne, decide_eq_true_eq] at hp
  obtain ⟨hmem, ⟨hauthor, ⟨hdeleted, huntil⟩, hsince⟩, hkind⟩ := hp
  exact ⟨hmem, hdeleted, hauthor, ⟨hsince, huntil⟩, hkind.imp_right And.right⟩

theorem visible_iff_of_ne_author {p : Post} (hauthor : p.actorId ≠ actorId) :
    db.visible (some actorId) p ↔
      (p.visibility = .followersOnly → db.followsAccepted actorId p.actorId) ∧
      (p.visibility = .direct → db.isRecipient p.id actorId) := by
  have hne : (some actorId == some p.actorId) = false := by
    rw [Bool.eq_false_iff, ne_eq, beq_iff_eq, Option.some.injEq]
    exact fun h => hauthor h.symm
  unfold Tables.visible Tables.postIsVisibleTo
  cases hv : p.visibility <;> simp [hne]

/-- The mentions timeline shows what notifies the viewer, seen or not. -/
theorem mentionsTimeline_confined_iff :
    (∀ specifiedOnly page, ∀ p ∈ db.mentionsTimeline actorId specifiedOnly page,
        db.visible (some actorId) p) ↔
      ∀ p ∈ db.posts, p.deleted = false → p.actorId ≠ actorId → db.isNotified actorId p →
        Int64.minValue < p.id → p.id < Int64.maxValue →
          (p.visibility = .followersOnly → db.followsAccepted actorId p.actorId) ∧
          (p.visibility = .direct → db.isRecipient p.id actorId) := by
  constructor
  · intro h p hp hdeleted hauthor hnotified hmin hmax
    refine (visible_iff_of_ne_author hauthor).mp
      (h false ⟨1, some (p.id + 1), some (p.id - 1)⟩ p ?_)
    obtain ⟨hlower, hupper⟩ := between_neighbours hmin hmax
    refine (mem_top (nodup_posts _) p).mpr ⟨List.mem_filter.mpr ⟨hp, ?_⟩, ?_⟩
    · simp [Tables.between, untilOrMax, sinceOrZero, hdeleted, hauthor, hnotified, hlower, hupper]
    · rw [ahead_eq_zero hmax fun q hq => ?_]
      · exact Nat.one_pos
      · have hq' := (List.mem_filter.mp hq).2
        simp only [Tables.between, Bool.and_eq_true] at hq'
        exact of_decide_eq_true hq'.1.2.1.2
  · intro h specifiedOnly page p hp
    obtain ⟨hmem, hdeleted, hauthor, ⟨hsince, huntil⟩, hkind⟩ := mem_mentionsTimeline hp
    refine (visible_iff_of_ne_author hauthor).mpr ?_
    rcases hkind with ⟨hdirect, hrecipient⟩ | hnotified
    · have hne : p.visibility ≠ .followersOnly := by
        rw [hdirect]
        decide
      exact ⟨fun hfollowers => absurd hfollowers hne, fun _ => hrecipient⟩
    · exact h p hmem hdeleted hauthor hnotified (lt_of_le_of_lt (Int64.minValue_le _) hsince)
        (lt_of_lt_of_le huntil (Int64.le_maxValue _))

end Mentions

/-- In every database the home, social, local and global timelines only return what
`post_is_visible_to` allows; a list only does for a viewer who may see all that its
members share with followers, and the mentions only for one who may see all that
notifies them. -/
theorem timelines_confined (db : Database) :
    (∀ now viewer page excludeDirect, ∀ p ∈ db.homeTimeline now viewer page excludeDirect ++
        db.socialTimeline now viewer page excludeDirect, db.visible (some viewer) p) ∧
    (∀ viewer page excludeDirect, ∀ p ∈ db.localTimeline viewer page excludeDirect ++
        db.globalTimeline viewer page excludeDirect, db.visible viewer p) ∧
    (∀ viewer listId,
      (∀ now limit untilId sinceId posts,
          db.listTimeline now viewer listId limit untilId sinceId = .ok posts →
            ∀ p ∈ posts, db.visible viewer p) ↔
        ∀ row, (db.lists.find? fun row => row.id == listId) = some row →
          (row.isPublic ∨ viewer = some row.ownerActorId) →
          ∀ p ∈ db.posts, db.qualifies (.listMembers listId) p →
            db.Listed (.listMembers listId) p →
            (viewer = none → ∃ a ∈ db.actors, a.id = p.actorId ∧ a.actorType = .localUser) ∧
            (p.visibility = .followersOnly →
              ∃ v, viewer = some v ∧ (v = p.actorId ∨ db.followsAccepted v p.actorId))) ∧
    (∀ viewer,
      (∀ specifiedOnly page, ∀ p ∈ db.mentionsTimeline viewer specifiedOnly page,
          db.visible (some viewer) p) ↔
        ∀ p ∈ db.posts, p.deleted = false → p.actorId ≠ viewer → db.isNotified viewer p →
          Int64.minValue < p.id → p.id < Int64.maxValue →
            (p.visibility = .followersOnly → db.followsAccepted viewer p.actorId) ∧
            (p.visibility = .direct → db.isRecipient p.id viewer)) := by
  refine ⟨fun now viewer page excludeDirect p hp => ?_, fun viewer page excludeDirect p hp => ?_,
    fun viewer listId => listTimeline_confined_iff, fun viewer => mentionsTimeline_confined_iff⟩
  · rcases List.mem_append.mp hp with hp | hp
    · exact visible_of_mem_homeTimeline hp
    · exact visible_of_mem_socialTimeline hp
  · rcases List.mem_append.mp hp with hp | hp
    · exact visible_of_mem_localTimeline hp
    · exact visible_of_mem_globalTimeline hp

/-- A public list with one member, whose one post is for followers and mentions 2. -/
def publicList : Database where
  actors := [{ id := 1 }, { id := 2 }]
  posts := [{ id := 100, actorId := 1, visibility := .followersOnly, isLocal := true }]
  lists := [{ id := 10, ownerActorId := 2, isPublic := true }]
  listMembers := [{ listId := 10, actorId := 1 }]
  notifications := [{ recipientActorId := 2, kind := "mention", noteId := some 100 }]
  posts_pkey := by decide
  posts_actor_id_fkey := by decide
  lists_pkey := by decide
  list_members_key := by decide
  dm_read_states_pkey := by exact nodup_no_keys

theorem timelines_confined_counterexample :
    publicList.listTimeline ⟨0, by decide⟩ none 10 none none none = .ok publicList.posts ∧
    publicList.mentionsTimeline 2 false ⟨30, none, none⟩ = publicList.posts ∧
    ∀ p ∈ publicList.posts, publicList.visible none p = false ∧
      publicList.visible (some 2) p = false := by
  refine ⟨by decide, by decide, by decide⟩

end Seiran.Timeline
