import Seiran.Model.Timeline.Dm
import Seiran.Proof.Timeline.Feed

/-!
# The history and the sessions of direct messages

* `thread_messages_paging`: the history asks for the oldest messages before the
  cursor, so going back from the first page finds nothing, and the history is
  whole exactly where it fits one page;
* `dm_sessions`: the newest message of a thread is shown to whoever takes part in
  the thread, and the two ways to count unread sessions differ by the threads
  that one of them leaves out.
-/

namespace Seiran.Timeline

open TopN Paging

variable {db : Database}

section History

/-- The messages of the thread that the viewer may see and has not hidden. -/
def Tables.shownMessages (db : Tables) (root viewer : Int64) : List Post :=
  (db.threadPosts root).filter (db.isShown viewer)

/-- The smallest id of a page. -/
def smallestId (page : List Post) : Option Int64 := (page.map Post.id).min?

variable {root viewer : Int64} {limit : Int}

theorem nodup_shownMessages : ((db.shownMessages root viewer).map Post.id).Nodup :=
  db.posts_pkey.sublist ((List.filter_sublist.trans List.filter_sublist).map Post.id)

/-- The ids that a page without cursors takes in. -/
def isPositive (p : Post) : Bool := decide (p.id < Int64.maxValue) && decide (0 < p.id)

theorem threadPage_eq (untilId : Option Int64) :
    db.threadPage root viewer limit untilId none = bottom Post.id limit.toNat
      (((db.shownMessages root viewer).filter isPositive).filter (before Post.id untilId)) := by
  rw [Tables.threadPage, Tables.shownMessages, List.filter_filter, List.filter_filter]
  refine congrArg (bottom Post.id limit.toNat) (List.filter_congr fun p _ => ?_)
  have hsince : sinceOrZero none = 0 := rfl
  rw [hsince]
  cases untilId with
  | none =>
    have huntil : untilOrMax none = Int64.maxValue := rfl
    rw [huntil, isPositive, before, Bool.true_and]
  | some u =>
    have huntil : untilOrMax (some u) = u := rfl
    have : p.id < u → p.id < Int64.maxValue := fun h => lt_of_lt_of_le h (Int64.le_maxValue u)
    rw [huntil, isPositive, before, Bool.eq_iff_iff]
    simp only [Bool.and_eq_true, decide_eq_true_eq]
    tauto

theorem nodup_positive :
    (((db.shownMessages root viewer).filter isPositive).map fun p => OrderDual.toDual p.id).Nodup :=
  (nodup_shownMessages.sublist (List.filter_sublist.map Post.id))

/-- The first page has the oldest messages: nothing is before its smallest id. -/
theorem threadPage_next_nil (hlimit : 0 < limit) :
    db.threadPage root viewer limit
      (smallestId (db.threadPage root viewer limit none none)) none = [] := by
  have hn : 0 < limit.toNat := by omega
  cases hmin : smallestId (db.threadPage root viewer limit none none) with
  | none =>
    rw [smallestId, List.min?_eq_none_iff, List.map_eq_nil_iff] at hmin
    exact hmin
  | some id =>
    have hle := (List.min?_eq_some_iff.mp hmin).2
    rw [threadPage_eq, bottom, top_eq_nil hn]
    refine List.filter_eq_nil_iff.mpr fun p hp hbefore => ?_
    have hlt : p.id < id := of_decide_eq_true hbefore
    have hpage : db.threadPage root viewer limit none none = bottom Post.id limit.toNat
        ((db.shownMessages root viewer).filter isPositive) := by
      rw [threadPage_eq]
      exact congrArg (bottom Post.id limit.toNat) (List.filter_eq_self.mpr fun _ _ => rfl)
    by_cases htop : p ∈ db.threadPage root viewer limit none none
    · exact absurd (hle p.id (List.mem_map.mpr ⟨p, htop, rfl⟩)) (not_le.mpr hlt)
    · -- a message that the page leaves out is after all that it has
      obtain ⟨q, hq, rfl⟩ := List.mem_map.mp (List.min?_eq_some_iff.mp hmin).1
      rw [hpage] at htop hq
      have := lt_of_mem_top_of_not_mem nodup_positive hp htop hq
      exact absurd hlt (not_lt.mpr (OrderDual.toDual_lt_toDual.mp this).le)

theorem threadMessages_eq (hpart : db.isParticipant root viewer) (untilId : Option Int64) :
    db.threadMessages root viewer (some limit) untilId none =
      .ok (db.threadPage root viewer (min limit 200) untilId none) := by
  rw [Tables.threadMessages, hpart]
  rfl

theorem threadPage_perm_iff :
    (db.threadPage root viewer limit none none).Perm (db.shownMessages root viewer) ↔
      (db.shownMessages root viewer).length ≤ limit.toNat ∧
        ∀ p ∈ db.shownMessages root viewer, isPositive p := by
  have hpage : db.threadPage root viewer limit none none = bottom Post.id limit.toNat
      ((db.shownMessages root viewer).filter isPositive) := by
    rw [threadPage_eq]
    exact congrArg (bottom Post.id limit.toNat) (List.filter_eq_self.mpr fun _ _ => rfl)
  constructor
  · intro hperm
    have hlen := hperm.length_eq
    have hle := List.length_filter_le isPositive (db.shownMessages root viewer)
    rw [hpage, bottom, length_top] at hlen
    refine ⟨by omega, fun p hp => ?_⟩
    rw [hpage] at hperm
    exact (List.mem_filter.mp (mem_of_mem_top (hperm.mem_iff.mpr hp))).2
  · intro ⟨hlen, hpos⟩
    rw [hpage, List.filter_eq_self.mpr hpos, bottom, top_of_length_le hlen]
    exact perm_descending _ _

theorem history_iff (hlimit : 0 < limit) :
    Enumerates (fun untilId => db.threadPage root viewer limit untilId none) smallestId none
        (db.shownMessages root viewer) ↔
      ((db.shownMessages root viewer).length : Int) ≤ limit ∧
        ∀ p ∈ db.shownMessages root viewer, 0 < p.id ∧ p.id < Int64.maxValue := by
  rw [enumerates_iff_perm _ smallestId (threadPage_next_nil hlimit), threadPage_perm_iff]
  have hlen : (db.shownMessages root viewer).length ≤ limit.toNat ↔
      ((db.shownMessages root viewer).length : Int) ≤ limit := by omega
  refine and_congr hlen (forall₂_congr fun p _ => ?_)
  rw [isPositive, Bool.and_eq_true, decide_eq_true_eq, decide_eq_true_eq, and_comm]

/-- A participant who goes back through the history from the newest messages gets
each of them once exactly where one page has room for all of them and none has an
id of before 1970. -/
theorem thread_messages_paging (db : Database) (root viewer : Int64) (limit : Int)
    (hlimit : 0 < limit) (hpart : db.isParticipant root viewer) :
    (∃ page : Option Int64 → List Post,
      (∀ untilId, db.threadMessages root viewer (some limit) untilId none = .ok (page untilId)) ∧
      (∀ p ∈ top Post.id (min limit 200).toNat (db.shownMessages root viewer), p ∈ page none) ∧
      Enumerates page smallestId none (db.shownMessages root viewer)) ↔
    ((db.shownMessages root viewer).length : Int) ≤ min limit 200 ∧
      ∀ p ∈ db.shownMessages root viewer, 0 < p.id ∧ p.id < Int64.maxValue := by
  have hpos : (0 : Int) < min limit 200 := by omega
  rw [← history_iff hpos]
  constructor
  · intro ⟨page, hpage, _, henum⟩
    have heq : page = fun untilId => db.threadPage root viewer (min limit 200) untilId none := by
      funext untilId
      have := hpage untilId
      rw [threadMessages_eq hpart, Except.ok.injEq] at this
      exact this.symm
    rw [heq] at henum
    exact henum
  · intro henum
    refine ⟨fun untilId => db.threadPage root viewer (min limit 200) untilId none,
      threadMessages_eq hpart, fun p hp => ?_, henum⟩
    have hperm := (enumerates_iff_perm _ smallestId (threadPage_next_nil hpos) _).mp henum
    exact hperm.mem_iff.mpr (mem_of_mem_top hp)

/-- Actor 1 has sent 2 the messages 10, 20 and 30. -/
def threeMessages : Database where
  actors := [{ id := 1 }, { id := 2 }]
  posts := [10, 20, 30].map fun id =>
    { id, actorId := 1, visibility := .direct, isLocal := true, threadRootPostId := some 10 }
  postRecipients := [10, 20, 30].map fun id => { postId := id, actorId := 2 }
  posts_pkey := by decide
  posts_actor_id_fkey := by decide
  lists_pkey := by exact List.nodup_nil
  list_members_key := by exact nodup_no_keys
  dm_read_states_pkey := by exact nodup_no_keys

theorem thread_messages_paging_three :
    threeMessages.isParticipant 10 2 ∧
    ((∃ page : Option Int64 → List Post,
      (∀ untilId, threeMessages.threadMessages 10 2 (some 3) untilId none = .ok (page untilId)) ∧
      (∀ p ∈ top Post.id (min (3 : Int) 200).toNat (threeMessages.shownMessages 10 2),
        p ∈ page none) ∧
      Enumerates page smallestId none (threeMessages.shownMessages 10 2)) ↔
    ((threeMessages.shownMessages 10 2).length : Int) ≤ min 3 200 ∧
      ∀ p ∈ threeMessages.shownMessages 10 2, 0 < p.id ∧ p.id < Int64.maxValue) :=
  ⟨by decide, thread_messages_paging threeMessages 10 2 3 (by decide) (by decide)⟩

/-- In pages of two, the first has the oldest messages and the second has none. -/
theorem thread_messages_paging_counterexample :
    (threeMessages.shownMessages 10 2).map Post.id = [10, 20, 30] ∧
    (threeMessages.threadMessages 10 2 (some 2) none none).map (List.map Post.id) = .ok [10, 20] ∧
    (threeMessages.threadMessages 10 2 (some 2) (some 10) none).map (List.map Post.id) =
      .ok [] := by
  refine ⟨by decide, by decide, by decide⟩

end History

section Sessions

variable {viewer : Int64}

/-- The threads that the viewer takes part in and is not shut out of. -/
def Tables.visibleThreads (db : Tables) (viewer : Int64) : List Int64 :=
  (db.threadsOf (db.takesPart viewer)).filter (db.isVisibleThread viewer)

theorem mem_threadPosts {root : Int64} {p : Post} :
    p ∈ db.threadPosts root ↔
      p ∈ db.posts ∧ p.threadRootPostId = some root ∧ p.deleted = false := by
  simp [Tables.threadPosts, List.mem_filter]

theorem mem_threadsOf {q : Post → Bool} {root : Int64} :
    root ∈ db.threadsOf q ↔ ∃ p ∈ db.threadPosts root, q p := by
  simp only [Tables.threadsOf, List.mem_dedup, List.mem_filterMap, List.mem_filter,
    mem_threadPosts, Bool.and_eq_true, Bool.not_eq_true']
  refine exists_congr fun p => ?_
  tauto

theorem nodup_threadPosts (root : Int64) : ((db.threadPosts root).map Post.id).Nodup :=
  nodup_posts _

/-- `latest` is the post of the thread that no other one is after. -/
theorem latest_eq_some_iff {root : Int64} {p : Post} :
    db.latest root = some p ↔ p ∈ db.threadPosts root ∧ ∀ q ∈ db.threadPosts root, q.id ≤ p.id := by
  have hmem : db.latest root = some p ↔ p ∈ top Post.id 1 (db.threadPosts root) := by
    have hlen : (top Post.id 1 (db.threadPosts root)).length ≤ 1 := by
      rw [length_top]
      omega
    rw [Tables.latest]
    cases htop : top Post.id 1 (db.threadPosts root) with
    | nil => simp
    | cons x rest =>
      rw [htop, List.length_cons] at hlen
      obtain rfl := List.length_eq_zero_iff.mp (by omega : rest.length = 0)
      simp [eq_comm]
  rw [hmem, mem_top (nodup_threadPosts root), Nat.lt_one_iff, ahead, List.countP_eq_zero]
  simp

theorem exists_latest {root : Int64} {p : Post} (hp : p ∈ db.threadPosts root) :
    ∃ last, db.latest root = some last := by
  have hne : top Post.id 1 (db.threadPosts root) ≠ [] :=
    fun hnil => List.ne_nil_of_mem hp ((top_eq_nil Nat.one_pos).mp hnil)
  rw [Tables.latest]
  exact ⟨_, List.head?_eq_some_head hne⟩

theorem mem_sessionRows {s : Session} :
    s ∈ db.sessionRows viewer ↔ ∃ root ∈ db.visibleThreads viewer, ∃ last,
      db.latest root = some last ∧ db.toSession viewer root last = s := by
  simp [Tables.sessionRows, Tables.visibleThreads, List.mem_filterMap]

theorem nodup_visibleThreads : (db.visibleThreads viewer).Nodup :=
  (List.nodup_dedup _).filter _

/-- A post is the last one of one thread. -/
theorem nodup_sessionRows : ((db.sessionRows viewer).map Tables.lastPostId).Nodup := by
  refine List.pairwise_map.mpr (List.pairwise_filterMap.mpr ?_)
  refine (@nodup_visibleThreads db _).imp fun {root root'} hne s hs s' hs' heq => ?_
  obtain ⟨last, hlast, rfl⟩ := Option.map_eq_some_iff.mp hs
  obtain ⟨last', hlast', rfl⟩ := Option.map_eq_some_iff.mp hs'
  have hp := mem_threadPosts.mp (latest_eq_some_iff.mp hlast).1
  have hp' := mem_threadPosts.mp (latest_eq_some_iff.mp hlast').1
  have hsame : last = last' := List.inj_on_of_nodup_map db.posts_pkey hp.1 hp'.1 heq
  rw [hsame, hp'.2.1, Option.some.injEq] at hp
  exact hne hp.2.1.symm

/-- The sessions that a client gets page after page. -/
def Tables.allSessions (db : Tables) (viewer : Int64) : List Session :=
  (db.sessionRows viewer).filter fun s => isPositive s.lastMessage

theorem sessions_enumerate {limit : Int} (hlimit : 0 < limit) :
    Enumerates (fun untilId => db.sessions viewer (some limit) untilId none)
      (lastKey Tables.lastPostId) none (db.allSessions viewer) := by
  have hn : 0 < (min limit 100).toNat := by omega
  have hfetch (untilId : Option Int64) : db.sessions viewer (some limit) untilId none =
      top Tables.lastPostId (min limit 100).toNat
        ((db.allSessions viewer).filter (before Tables.lastPostId untilId)) := by
    rw [Tables.sessions, Option.getD_some, Tables.allSessions, List.filter_filter]
    refine congrArg (top _ _) (List.filter_congr fun s _ => ?_)
    have hsince : sinceOrZero none = 0 := rfl
    rw [hsince]
    cases untilId with
    | none =>
      have huntil : untilOrMax none = Int64.maxValue := rfl
      rw [huntil, before, Bool.true_and]
      rfl
    | some u =>
      have huntil : untilOrMax (some u) = u := rfl
      have : Tables.lastPostId s < u → Tables.lastPostId s < Int64.maxValue :=
        fun h => lt_of_lt_of_le h (Int64.le_maxValue u)
      have hpositive : isPositive s.lastMessage =
          (decide (Tables.lastPostId s < Int64.maxValue) && decide (0 < Tables.lastPostId s)) := rfl
      rw [huntil, hpositive, before, Bool.eq_iff_iff]
      simp only [Bool.and_eq_true, decide_eq_true_eq]
      tauto
  have hnodup := (@nodup_sessionRows db viewer).sublist
    ((List.filter_sublist (p := fun s => isPositive s.lastMessage)).map Tables.lastPostId)
  have h := enumerates_top hnodup hn hfetch (fun _ => rfl) none
  have hall : (db.allSessions viewer).filter (before Tables.lastPostId none) =
      db.allSessions viewer := List.filter_eq_self.mpr fun _ _ => rfl
  rw [← hall]
  exact h

/-- A message after the marker that is addressed to the viewer. -/
def Tables.addressedUnread (db : Tables) (viewer root : Int64) : Bool :=
  (db.threadPosts root).any fun p =>
    db.isRecipient p.id viewer && decide (db.lastRead viewer root < p.id)

/-- Flagged unread by the session list. -/
def Tables.flaggedUnread (db : Tables) (viewer root : Int64) : Bool :=
  (db.latest root).any fun last => isPositive last && decide (db.lastRead viewer root < last.id)

/-- A thread whose newest message is after the marker, while none that is addressed to
the viewer is. -/
def Tables.overcounted (db : Tables) (viewer root : Int64) : Bool :=
  db.flaggedUnread viewer root && !db.addressedUnread viewer root

/-- A thread with a message to the viewer after the marker that the list leaves out, as
its newest id is not between 0 and the largest one. -/
def Tables.undercounted (db : Tables) (viewer root : Int64) : Bool :=
  db.addressedUnread viewer root && (db.latest root).any fun last => !isPositive last

theorem undercounted_eq (root : Int64) :
    db.undercounted viewer root =
      (db.addressedUnread viewer root && !db.flaggedUnread viewer root) := by
  cases hunread : db.addressedUnread viewer root with
  | false => simp [Tables.undercounted, hunread]
  | true =>
    obtain ⟨p, hp, hmessage⟩ := List.any_eq_true.mp hunread
    rw [Bool.and_eq_true, decide_eq_true_eq] at hmessage
    obtain ⟨last, hlast⟩ := exists_latest hp
    have hmarker : db.lastRead viewer root < last.id :=
      lt_of_lt_of_le hmessage.2 ((latest_eq_some_iff.mp hlast).2 p hp)
    simp [Tables.undercounted, Tables.flaggedUnread, hunread, hlast, hmarker]

theorem countP_unread :
    (db.allSessions viewer).countP Session.unread =
      (db.visibleThreads viewer).countP (db.flaggedUnread viewer) := by
  rw [Tables.allSessions, List.countP_filter, Tables.sessionRows, List.countP_filterMap]
  refine List.countP_congr fun root _ => ?_
  rw [Tables.flaggedUnread]
  cases db.latest root with
  | none => simp
  | some last => simp [Tables.toSession, and_comm]

theorem unreadSessionCount_eq :
    db.unreadSessionCount viewer =
      (db.visibleThreads viewer).countP (db.addressedUnread viewer) := by
  rw [Tables.unreadSessionCount, List.countP_eq_length_filter]
  refine List.Perm.length_eq ?_
  refine (List.perm_ext_iff_of_nodup (List.nodup_dedup _) (nodup_visibleThreads.filter _)).mpr ?_
  intro root
  rw [List.mem_dedup, List.mem_filterMap, List.mem_filter]
  constructor
  · intro ⟨p, hp, hroot⟩
    obtain ⟨hpost, hcond⟩ := List.mem_filter.mp hp
    rw [hroot] at hcond
    simp only [Option.any_some, Bool.and_eq_true, Bool.not_eq_true', List.contains_eq_mem,
      decide_eq_true_eq] at hcond
    obtain ⟨⟨⟨hthread, hmarker⟩, hdeleted⟩, hrecipient⟩ := hcond
    have hmem := mem_threadPosts.mpr ⟨hpost, hroot, hdeleted⟩
    refine ⟨List.mem_filter.mpr ⟨mem_threadsOf.mpr ⟨p, hmem, ?_⟩, (List.mem_filter.mp hthread).2⟩, ?_⟩
    · rw [Tables.takesPart, hrecipient, Bool.or_true]
    · refine List.any_eq_true.mpr ⟨p, hmem, ?_⟩
      rw [hrecipient, Bool.true_and]
      exact decide_eq_true hmarker
  · intro ⟨hthread, hunread⟩
    obtain ⟨p, hp, hmessage⟩ := List.any_eq_true.mp hunread
    obtain ⟨hpost, hroot, hdeleted⟩ := mem_threadPosts.mp hp
    rw [Bool.and_eq_true] at hmessage
    refine ⟨p, List.mem_filter.mpr ⟨hpost, ?_⟩, hroot⟩
    have hmine : root ∈ (db.threadsOf fun p => db.isRecipient p.id viewer).filter
        (db.isVisibleThread viewer) :=
      List.mem_filter.mpr ⟨mem_threadsOf.mpr ⟨p, hp, hmessage.1⟩, (List.mem_filter.mp hthread).2⟩
    rw [hroot, Option.any_some, hdeleted, hmessage.1, hmessage.2, List.contains_eq_mem,
      decide_eq_true hmine]
    rfl

/-- Counts of two conditions differ by the elements that meet one of them only. -/
theorem countP_eq_iff {α : Type} (p q : α → Bool) (l : List α) :
    l.countP p = l.countP q ↔
      (l.countP fun a => p a && !q a) = l.countP fun a => q a && !p a := by
  have h : l.countP p + (l.countP fun a => q a && !p a) =
      l.countP q + l.countP fun a => p a && !q a := by
    induction l with
    | nil => rfl
    | cons a l ih =>
      simp only [List.countP_cons]
      cases p a <;> cases q a <;> simp <;> omega
  omega

theorem unread_eq_iff :
    (db.allSessions viewer).countP Session.unread = db.unreadSessionCount viewer ↔
      (db.visibleThreads viewer).countP (db.overcounted viewer) =
        (db.visibleThreads viewer).countP (db.undercounted viewer) := by
  rw [countP_unread, unreadSessionCount_eq, countP_eq_iff]
  have hunder : (db.visibleThreads viewer).countP (db.undercounted viewer) =
      (db.visibleThreads viewer).countP fun root =>
        db.addressedUnread viewer root && !db.flaggedUnread viewer root :=
    List.countP_congr fun root _ => by rw [undercounted_eq]
  rw [hunder]
  rfl

/-- A session that some page of the list holds. -/
theorem exists_page_of_latest {root : Int64} {last : Post} (hroot : root ∈ db.visibleThreads viewer)
    (hlast : db.latest root = some last) (hmin : Int64.minValue < last.id)
    (hmax : last.id < Int64.maxValue) :
    db.toSession viewer root last ∈
      db.sessions viewer (some 1) (some (last.id + 1)) (some (last.id - 1)) := by
  obtain ⟨hlower, hupper⟩ := between_neighbours hmin hmax
  refine (mem_top (nodup_sessionRows.sublist (List.filter_sublist.map _)) _).mpr
    ⟨List.mem_filter.mpr ⟨mem_sessionRows.mpr ⟨root, hroot, last, hlast, rfl⟩, ?_⟩, ?_⟩
  · rw [Bool.and_eq_true]
    exact ⟨decide_eq_true hupper, decide_eq_true hlower⟩
  · have hbelow : ∀ s ∈ (db.sessionRows viewer).filter (fun s =>
        decide (Tables.lastPostId s < untilOrMax (some (last.id + 1))) &&
          decide (sinceOrZero (some (last.id - 1)) < Tables.lastPostId s)),
        Tables.lastPostId s < last.id + 1 := by
      intro s hs
      have hs' := (List.mem_filter.mp hs).2
      rw [Bool.and_eq_true] at hs'
      exact of_decide_eq_true hs'.1
    rw [@ahead_eq_zero Session Tables.lastPostId _ (db.toSession viewer root last) hmax hbelow]
    exact Nat.one_pos

/-- The session list of any viewer, over all its pages: its last messages are those of
the viewer exactly where the newest message of each thread is, and as many of its
sessions are unread as are counted exactly where as many threads have something new
for others only as have something new and an id that the list leaves out. -/
theorem dm_sessions (db : Database) (viewer : Int64) :
    (∀ limit : Int, 0 < limit →
      Enumerates (fun untilId => db.sessions viewer (some limit) untilId none)
        (lastKey Tables.lastPostId) none (db.allSessions viewer)) ∧
    ((∀ limit untilId sinceId, ∀ s ∈ db.sessions viewer limit untilId sinceId,
        db.takesPart viewer s.lastMessage) ↔
      ∀ root ∈ db.visibleThreads viewer, ∀ last, db.latest root = some last →
        Int64.minValue < last.id → last.id < Int64.maxValue → db.takesPart viewer last) ∧
    ((db.allSessions viewer).countP Session.unread = db.unreadSessionCount viewer ↔
      (db.visibleThreads viewer).countP (db.overcounted viewer) =
        (db.visibleThreads viewer).countP (db.undercounted viewer)) := by
  refine ⟨fun limit hlimit => sessions_enumerate hlimit, ⟨?_, ?_⟩, unread_eq_iff⟩
  · intro h root hroot last hlast hmin hmax
    exact h _ _ _ _ (exists_page_of_latest hroot hlast hmin hmax)
  · intro h limit untilId sinceId s hs
    obtain ⟨hrow, hrange⟩ := List.mem_filter.mp (mem_of_mem_top hs)
    obtain ⟨root, hroot, last, hlast, rfl⟩ := mem_sessionRows.mp hrow
    rw [Bool.and_eq_true, decide_eq_true_eq, decide_eq_true_eq] at hrange
    exact h root hroot last hlast (lt_of_le_of_lt (Int64.minValue_le _) hrange.2)
      (lt_of_lt_of_le hrange.1 (Int64.le_maxValue _))

/-- In one thread actor 1 has written to 2 and then to 3; in another 2 has answered. -/
def threeActors : Database where
  actors := [{ id := 1 }, { id := 2 }, { id := 3 }]
  posts := [
    { id := 10, actorId := 1, visibility := .direct, threadRootPostId := some 10 },
    { id := 20, actorId := 1, visibility := .direct, threadRootPostId := some 10 },
    { id := 30, actorId := 1, visibility := .direct, threadRootPostId := some 30 },
    { id := 40, actorId := 2, visibility := .direct, threadRootPostId := some 30 }]
  postRecipients := [
    { postId := 10, actorId := 2 }, { postId := 20, actorId := 3 },
    { postId := 30, actorId := 2 }, { postId := 40, actorId := 1 }]
  dmReadStates := [{ actorId := 2, threadRootPostId := 30, lastReadPostId := 30 }]
  posts_pkey := by decide
  posts_actor_id_fkey := by decide
  lists_pkey := by exact List.nodup_nil
  list_members_key := by exact nodup_no_keys
  dm_read_states_pkey := by decide

/-- Actor 2 is shown message 20, which is for 3, and their own answer 40 as unread. -/
theorem dm_sessions_counterexample :
    (threeActors.sessions 2 none none none).map (fun s => (s.lastMessage.id, s.unread)) =
      [(40, true), (20, true)] ∧
    threeActors.isRecipient 20 2 = false ∧
    threeActors.unreadSessionCount 2 = 1 := by
  refine ⟨by decide, by decide, by decide⟩

end Sessions

end Seiran.Timeline
