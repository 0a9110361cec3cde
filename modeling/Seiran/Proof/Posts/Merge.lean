import Seiran.Proof.Posts.Rows

/-!
# What a merge keeps

* `mergedRow`, `posts_mergePosts`: every row of `posts` after a merge;
* `Merged`: what referred to the doomed post refers to the survivor, but where
  the survivor has the same key, and no other row is lost;
* `merged_iff`: exactly when a merge does that.
-/

namespace Seiran.Posts

open Sql

section Merge

variable {db : Tables} {survivor doomed : Int64} {ap uri : String}

/-- The tables before the row is deleted -/
def moved (db : Tables) (survivor doomed : Int64) (apObjectId atUri : String) : Tables :=
  ((db.finalizePostMerge survivor doomed apObjectId atUri).reparentAllSimple survivor
    doomed).reparentAllCounted survivor doomed

theorem hasPost_finalize (id : Int64) :
    (db.finalizePostMerge survivor doomed ap uri).hasPost id = db.hasPost id :=
  hasPost_of_map posts_finalizePostMerge finalizedRow_id id

/-- A table that `finalize_post_merge` and the counted `UPDATE`s do not touch, after its
`UPDATE` -/
theorem moved_table {R K : Type} [DecidableEq K] {ref : Reference Int64 R K}
    (hs : db.hasPost survivor = true) (table : Tables → List R)
    (hsimple : ∀ db, table (Tables.reparentAllSimple db survivor doomed) =
      Tables.reparentSimple db ref survivor doomed (table db))
    (h : ∀ db posts count, table { db with posts, relationCount := count } = table db) :
    table (moved db survivor doomed ap uri) =
      (ref.reparent doomed survivor (table db)).getD (table db) := by
  have hf : (db.finalizePostMerge survivor doomed ap uri).hasPost survivor = true := by
    rw [hasPost_finalize, hs]
  unfold moved
  rw [reparentAllCounted_tables table h, hsimple, reparentSimple_of_hasPost hf]
  rw [show table (db.finalizePostMerge survivor doomed ap uri) = table db from h db _ _]

theorem mem_moved_reports (hs : db.hasPost survivor = true) (hne : survivor ≠ doomed) :
    ∀ r ∈ (moved db survivor doomed ap uri).reports, r.subjectPostId ≠ some doomed :=
  mem_reports_reparentAll (by rw [hasPost_finalize, hs]) hne

/-- The two functions one after the other delete the row once everything has moved. -/
theorem mergePosts_eq (hs : db.hasPost survivor = true) (hd : db.hasPost doomed = true)
    (hne : survivor ≠ doomed) :
    db.mergePosts survivor doomed ap uri = (moved db survivor doomed ap uri).deletePost doomed := by
  obtain ⟨p, hfind⟩ : ∃ p, (db.finalizePostMerge survivor doomed ap uri).posts.find?
      (fun p => p.id == doomed) = some p := by
    rw [← Option.isSome_iff_exists, List.find?_isSome]
    obtain ⟨q, hq, hid⟩ := hasPost_iff.mp ((hasPost_finalize doomed).trans hd)
    exact ⟨q, hq, beq_iff_eq.mpr hid⟩
  have hdeleted : p.deleted = true := by
    have hmem := List.mem_of_find?_eq_some hfind
    have hid := List.find?_some hfind
    rw [posts_finalizePostMerge] at hmem
    obtain ⟨q, -, rfl⟩ := List.mem_map.mp hmem
    rw [finalizedRow_id] at hid
    rw [finalizedRow_deleted, hid, Bool.or_true]
  have hreports : ((moved db survivor doomed ap uri).reports.any fun r =>
      r.subjectPostId == some doomed) = false := by
    rw [List.any_eq_false]
    intro r hr
    rw [beq_iff_eq]
    exact mem_moved_reports hs hne r hr
  unfold Tables.mergePosts Tables.cleanupMergedPost
  rw [hfind]
  show (if p.deleted = true then
    if (moved db survivor doomed ap uri).reports.any (fun r => r.subjectPostId == some doomed) = true
    then (none, moved db survivor doomed ap uri)
    else (some MergeCleanup.done, (moved db survivor doomed ap uri).deletePost doomed)
    else (some MergeCleanup.notSoftDeleted, db.finalizePostMerge survivor doomed ap uri)).2 = _
  rw [if_pos hdeleted, hreports, if_neg Bool.false_ne_true]

end Merge

section Reposts

variable {db : Database} {survivor doomed : Int64} {ap uri : String}

/-- In the index a row is as before the merge, but the doomed one, which is not in it any more. -/
theorem rest_finalizedRow (p : Post) :
    (Post.reference .repost).rest (finalizedRow survivor doomed ap uri p) =
      if p.id = doomed then none else (Post.reference .repost).rest p := by
  show (if (finalizedRow survivor doomed ap uri p).deleted then none
    else some (finalizedRow survivor doomed ap uri p).actorId) = _
  rw [finalizedRow_deleted, finalizedRow_actorId]
  by_cases h : p.id = doomed
  · simp [h]
  · rw [beq_eq_false_iff_ne.mpr h, Bool.or_false, if_neg h]
    rfl

theorem get_finalizedRow (p : Post) :
    (Post.reference .repost).get (finalizedRow survivor doomed ap uri p) =
      (Post.reference .repost).get p := finalizedRow_ref .repost p

theorem unique_finalizedRow (db : Database) :
    (Post.reference .repost).Unique (db.posts.map (finalizedRow survivor doomed ap uri)) := by
  have h := Reference.unique_iff.mp db.idx_posts_unique_repost
  rw [Reference.unique_iff, List.pairwise_map]
  refine h.imp fun {p q} hpq key hp hq => ?_
  rw [Reference.key_eq_some, get_finalizedRow, rest_finalizedRow] at hp hq
  by_cases hpd : p.id = doomed
  · rw [if_pos hpd] at hp
    cases hp.2
  · by_cases hqd : q.id = doomed
    · rw [if_pos hqd] at hq
      cases hq.2
    · rw [if_neg hpd] at hp
      rw [if_neg hqd] at hq
      exact hpq key (Reference.key_eq_some.mpr hp) (Reference.key_eq_some.mpr hq)

theorem clashes_finalizedRow {p : Post} (hp : p.id ≠ doomed) :
    (Post.reference .repost).Clashes survivor (db.posts.map (finalizedRow survivor doomed ap uri))
        (finalizedRow survivor doomed ap uri p) ↔
      (Post.reference .repost).Clashes survivor (others db.toTables doomed) p := by
  unfold Reference.Clashes
  simp only [List.mem_map, exists_exists_and_eq_and, get_finalizedRow, rest_finalizedRow, if_neg hp,
    mem_others]
  constructor
  · intro ⟨q, hq, hget, hrest, hsome⟩
    by_cases hqd : q.id = doomed
    · rw [if_pos hqd] at hrest
      exact absurd hrest.symm hsome
    · rw [if_neg hqd] at hrest
      exact ⟨q, ⟨hq, hqd⟩, hget, hrest, hsome⟩
  · intro ⟨q, ⟨hq, hqd⟩, hget, hrest, hsome⟩
    exact ⟨q, hq, hget, by rw [if_neg hqd, hrest], hsome⟩

/-- Whether the reposts move -/
theorem movesAll_repost_iff (hne : survivor ≠ doomed) :
    movesAll (db.posts.map (finalizedRow survivor doomed ap uri)) .repost survivor doomed = true ↔
      ∀ p ∈ others db.toTables doomed, p.ref .repost = some doomed →
        ¬ (Post.reference .repost).Clashes survivor (others db.toTables doomed) p := by
  unfold movesAll
  rw [Reference.isSome_reparent, Reference.unique_move_iff (unique_finalizedRow db) hne.symm,
    List.forall_mem_map]
  simp only [get_finalizedRow]
  constructor
  · intro h p hp hrepost hc
    obtain ⟨hmem, hid⟩ := mem_others.mp hp
    exact h p hmem hrepost ((clashes_finalizedRow hid).mpr hc)
  · intro h p hp hrepost hc
    by_cases hid : p.id = doomed
    · obtain ⟨q, -, -, -, hsome⟩ := hc
      rw [rest_finalizedRow, if_pos hid] at hsome
      exact hsome rfl
    · exact h p (mem_others.mpr ⟨hp, hid⟩) hrepost ((clashes_finalizedRow hid).mp hc)

end Reposts

section Merged

/-- What referred to the doomed post refers to the survivor, but for the rows whose key a row of
the survivor had; no other row is lost. -/
structure Merged (survivor doomed : Int64) (db db' : Tables) : Prop where
  reactions : Reaction.reference.Kept doomed survivor db.reactions db'.reactions
  pollVotes : PollVote.reference.Kept doomed survivor db.pollVotes db'.pollVotes
  postHashtags : PostHashtag.reference.Kept doomed survivor db.postHashtags db'.postHashtags
  postRecipients : PostRecipient.reference.Kept doomed survivor db.postRecipients db'.postRecipients
  notifications : Notification.reference.Kept doomed survivor db.notifications db'.notifications
  bookmarks : Bookmark.reference.Kept doomed survivor db.bookmarks db'.bookmarks
  posts : ∀ p ∈ db.posts, p.id ≠ doomed → ∃ p' ∈ db'.posts, p'.id = p.id ∧ ∀ kind,
    (p.ref kind ≠ some doomed → p'.ref kind = p.ref kind) ∧
    (p.ref kind = some doomed →
      ¬ (Post.reference kind).Clashes survivor (others db doomed) p → p'.ref kind = some survivor)

/-- Of the rows that refer to the doomed post, none has a key of a row of the survivor, or all
have. -/
def AllOrNone {R K : Type} (ref : Reference Int64 R K) (survivor doomed : Int64) (rows : List R) :
    Prop :=
  (∀ r ∈ rows, ref.get r = some doomed → ¬ ref.Clashes survivor rows r) ∨
    ∀ r ∈ rows, ref.get r = some doomed → ref.Clashes survivor rows r

/-- Where a merge loses nothing -/
structure Mergeable (survivor doomed : Int64) (db : Tables) : Prop where
  reactions : AllOrNone Reaction.reference survivor doomed db.reactions
  pollVotes : AllOrNone PollVote.reference survivor doomed db.pollVotes
  postHashtags : AllOrNone PostHashtag.reference survivor doomed db.postHashtags
  postRecipients : AllOrNone PostRecipient.reference survivor doomed db.postRecipients
  reposts : AllOrNone (Post.reference .repost) survivor doomed (others db doomed)
  bookmarks : ∀ b ∈ db.bookmarks, b.postId = doomed →
    Bookmark.reference.Clashes survivor db.bookmarks b

variable {db : Database} {survivor doomed : Int64} {ap uri : String}

/-- A table that moves and is then deleted from -/
theorem table_kept_iff {R K : Type} [DecidableEq K] {ref : Reference Int64 R K} {db : Database}
    {survivor doomed : Int64} {ap uri : String} (hs : db.hasPost survivor = true)
    (hne : survivor ≠ doomed) (table : Tables → List R)
    (hsimple : ∀ db, table (Tables.reparentAllSimple db survivor doomed) =
      Tables.reparentSimple db ref survivor doomed (table db))
    (h : ∀ db posts count, table { db with posts, relationCount := count } = table db)
    (hunique : ref.Unique (table db.toTables)) (htotal : ∀ r, ref.rest r ≠ none) :
    ref.Kept doomed survivor (table db.toTables)
        (ref.cascade doomed (table (moved db.toTables survivor doomed ap uri))) ↔
      AllOrNone ref survivor doomed (table db.toTables) := by
  rw [moved_table hs table hsimple h]
  exact Reference.kept_cascade_reparent_iff hunique hne.symm fun r _ => htotal r

/-- The bookmarks do not move. -/
theorem kept_bookmarks_iff :
    Bookmark.reference.Kept doomed survivor db.bookmarks
        ((moved db.toTables survivor doomed ap uri).deletePost doomed).bookmarks ↔
      ∀ b ∈ db.bookmarks, b.postId = doomed → Bookmark.reference.Clashes survivor db.bookmarks b := by
  have hmoved : (moved db.toTables survivor doomed ap uri).bookmarks = db.bookmarks := by
    unfold moved
    rw [reparentAllCounted_tables Tables.bookmarks fun _ _ _ => rfl]
    rfl
  show Bookmark.reference.Kept doomed survivor db.bookmarks
    (Bookmark.reference.cascade doomed (moved db.toTables survivor doomed ap uri).bookmarks) ↔ _
  rw [hmoved, Reference.kept_cascade_iff fun _ _ => Option.some_ne_none _]
  simp only [Bookmark.reference, Option.some.injEq]

theorem kept_notifications (hs : db.hasPost survivor = true) (hne : survivor ≠ doomed) :
    Notification.reference.Kept doomed survivor db.notifications
      ((moved db.toTables survivor doomed ap uri).deletePost doomed).notifications := by
  have hmoved : (moved db.toTables survivor doomed ap uri).notifications =
      db.notifications.map (Notification.reference.move doomed survivor) := by
    rw [moved_table hs Tables.notifications (fun _ => rfl) (fun _ _ _ => rfl),
      Reference.reparent_of_rest_eq_none (fun _ => rfl), Option.getD_some]
  have hstay {n : Notification} (hn : n ∈ (moved db.toTables survivor doomed ap uri).notifications)
      (h : n.noteId ≠ some doomed) :
      n ∈ ((moved db.toTables survivor doomed ap uri).deletePost doomed).notifications := by
    refine List.mem_map.mpr ⟨n, hn, ?_⟩
    rw [nullify_of_ne h]
  intro n hn
  refine ⟨fun h => hstay ?_ h, fun h _ => hstay ?_ ?_⟩
  · rw [hmoved]
    exact Reference.mem_map_move_of_ne hn h
  · rw [hmoved]
    exact Reference.point_mem_map_move hn h
  · show some survivor ≠ some doomed
    simpa using hne

/-- The row of a post after the merge -/
def mergedRow (db : Tables) (survivor doomed : Int64) (apObjectId atUri : String) (p : Post) : Post :=
  cleanedRow (db.posts.map (finalizedRow survivor doomed apObjectId atUri)) survivor doomed
    (finalizedRow survivor doomed apObjectId atUri p)

@[simp] theorem mergedRow_id (p : Post) :
    (mergedRow db.toTables survivor doomed ap uri p).id = p.id := by
  rw [mergedRow, cleanedRow_id, finalizedRow_id]

theorem mergedRow_ref (hne : survivor ≠ doomed) (kind : ReferenceKind) (p : Post) :
    (mergedRow db.toTables survivor doomed ap uri p).ref kind =
      if p.ref kind = some doomed then
        if movesAll (db.posts.map (finalizedRow survivor doomed ap uri)) kind survivor doomed then
          some survivor
        else none
      else p.ref kind := by
  rw [mergedRow, cleanedRow_ref hne, finalizedRow_ref]

theorem posts_mergePosts (hs : db.hasPost survivor = true) :
    ((moved db.toTables survivor doomed ap uri).deletePost doomed).posts =
      (others db.toTables doomed).map (mergedRow db.toTables survivor doomed ap uri) := by
  have hf : (db.finalizePostMerge survivor doomed ap uri).hasPost survivor = true := by
    rw [hasPost_finalize, hs]
  have hothers : others (db.finalizePostMerge survivor doomed ap uri) doomed =
      (others db.toTables doomed).map (finalizedRow survivor doomed ap uri) := by
    unfold others
    rw [posts_finalizePostMerge, List.filter_map]
    refine congrArg (List.map _) (List.filter_congr fun p _ => ?_)
    rw [Function.comp_apply, finalizedRow_id]
  unfold moved
  rw [posts_cleaned hf, posts_finalizePostMerge, hothers, List.map_map]
  rfl

theorem posts_kept_iff (hs : db.hasPost survivor = true) (hne : survivor ≠ doomed) :
    (∀ p ∈ db.posts, p.id ≠ doomed →
      ∃ p' ∈ ((moved db.toTables survivor doomed ap uri).deletePost doomed).posts, p'.id = p.id ∧
        ∀ kind, (p.ref kind ≠ some doomed → p'.ref kind = p.ref kind) ∧
          (p.ref kind = some doomed →
            ¬ (Post.reference kind).Clashes survivor (others db.toTables doomed) p →
              p'.ref kind = some survivor)) ↔
      AllOrNone (Post.reference .repost) survivor doomed (others db.toTables doomed) := by
  rw [posts_mergePosts hs]
  constructor
  · intro h
    by_cases hmove : movesAll (db.posts.map (finalizedRow survivor doomed ap uri)) .repost survivor
        doomed = true
    · exact .inl ((movesAll_repost_iff hne).mp hmove)
    · refine .inr fun p hp hrepost => ?_
      by_contra hc
      obtain ⟨hmem, hid⟩ := mem_others.mp hp
      obtain ⟨p', hp', hid', hkind⟩ := h p hmem hid
      obtain ⟨q, hq, rfl⟩ := List.mem_map.mp hp'
      rw [mergedRow_id] at hid'
      obtain rfl := List.inj_on_of_nodup_map db.posts_pkey (mem_others.mp hq).1 hmem hid'
      have hlost := (hkind .repost).2 hrepost hc
      rw [mergedRow_ref hne, if_pos (show q.ref .repost = some doomed from hrepost),
        if_neg hmove] at hlost
      cases hlost
  · intro hall p hp hid
    refine ⟨_, List.mem_map_of_mem (mem_others.mpr ⟨hp, hid⟩), mergedRow_id p, fun kind => ?_⟩
    rw [mergedRow_ref hne]
    refine ⟨fun h => if_neg h, fun h hc => ?_⟩
    rw [if_pos h, if_pos]
    by_cases hk : kind = .repost
    · subst hk
      refine (movesAll_repost_iff hne).mpr (hall.resolve_right fun hclash => hc ?_)
      exact hclash p (mem_others.mpr ⟨hp, hid⟩) h
    · exact movesAll_of_ne_repost hk _

/-- A merge of two posts loses nothing where, in each table that moves, no row of the doomed post
has a key of the survivor or all have, and where its bookmarks are on the survivor too. -/
theorem merged_iff (hs : db.hasPost survivor = true) (hd : db.hasPost doomed = true)
    (hne : survivor ≠ doomed) :
    Merged survivor doomed db.toTables (db.mergePosts survivor doomed ap uri) ↔
      Mergeable survivor doomed db.toTables := by
  have hreactions := @table_kept_iff _ _ _ Reaction.reference db survivor doomed ap uri hs hne
    Tables.reactions (fun _ => rfl) (fun _ _ _ => rfl) db.reactions_key fun _ => Option.some_ne_none _
  have hpollVotes := @table_kept_iff _ _ _ PollVote.reference db survivor doomed ap uri hs hne
    Tables.pollVotes (fun _ => rfl) (fun _ _ _ => rfl) db.poll_votes_key fun _ => Option.some_ne_none _
  have hpostHashtags := @table_kept_iff _ _ _ PostHashtag.reference db survivor doomed ap uri hs hne
    Tables.postHashtags (fun _ => rfl) (fun _ _ _ => rfl) db.post_hashtags_pkey
    fun _ => Option.some_ne_none _
  have hpostRecipients := @table_kept_iff _ _ _ PostRecipient.reference db survivor doomed ap uri hs
    hne Tables.postRecipients (fun _ => rfl) (fun _ _ _ => rfl) db.post_recipients_key
    fun _ => Option.some_ne_none _
  have hbookmarks := @kept_bookmarks_iff db survivor doomed ap uri
  have hposts := @posts_kept_iff db survivor doomed ap uri hs hne
  rw [mergePosts_eq hs hd hne]
  constructor
  · intro h
    exact {
      reactions := hreactions.mp h.reactions
      pollVotes := hpollVotes.mp h.pollVotes
      postHashtags := hpostHashtags.mp h.postHashtags
      postRecipients := hpostRecipients.mp h.postRecipients
      reposts := hposts.mp h.posts
      bookmarks := hbookmarks.mp h.bookmarks }
  · intro h
    exact {
      reactions := hreactions.mpr h.reactions
      pollVotes := hpollVotes.mpr h.pollVotes
      postHashtags := hpostHashtags.mpr h.postHashtags
      postRecipients := hpostRecipients.mpr h.postRecipients
      notifications := kept_notifications hs hne
      bookmarks := hbookmarks.mpr h.bookmarks
      posts := hposts.mpr h.reposts }

/-- Actor 10 reacted to both rows, actor 11 to the doomed one only. -/
def twoReactions : Database where
  posts := [
    { id := 1, actorId := 9, apObjectId := some "https://a.example/1" },
    { id := 2, actorId := 9, atUri := some "at://did:plc:a/app.bsky.feed.post/1" }]
  reactions := [
    { id := 100, postId := 1, actorId := 10, content := "a" },
    { id := 101, postId := 2, actorId := 10, content := "b" },
    { id := 102, postId := 2, actorId := 11, content := "c" }]
  posts_pkey := by decide
  idx_posts_unique_repost := by decide
  reactions_key := by decide
  poll_votes_key := by decide
  post_hashtags_pkey := by decide
  post_recipients_key := by decide
  bookmarks_key := by decide

theorem merged_iff_twoReactions :
    Merged 1 2 twoReactions.toTables (twoReactions.mergePosts 1 2 "https://a.example/1"
      "at://did:plc:a/app.bsky.feed.post/1") ↔ Mergeable 1 2 twoReactions.toTables :=
  merged_iff (by decide) (by decide) (by decide)

/-- The reaction of actor 11 is lost with that of actor 10. -/
theorem merged_counterexample :
    ¬ Merged 1 2 twoReactions.toTables (twoReactions.mergePosts 1 2 "https://a.example/1"
      "at://did:plc:a/app.bsky.feed.post/1") := by
  intro h
  have hclash : ¬ Reaction.reference.Clashes 1 twoReactions.reactions
      { id := 102, postId := 2, actorId := 11, content := "c" } := by
    unfold Reference.Clashes
    decide
  have hkept := (h.reactions { id := 102, postId := 2, actorId := 11, content := "c" } (by decide)).2
    rfl hclash
  revert hkept
  decide

end Merged

end Seiran.Posts
