import Seiran.Model.Posts.Merge

/-!
# The rows of posts, statement by statement

What each statement of `finalize_post_merge` and `cleanup_merged_post` makes of a
row, as a function of the row.

* `onId`: an `UPDATE` by id;
* `finalizedRow`, `posts_finalizePostMerge`: the three of `finalize_post_merge`;
* `movedRow`, `posts_reparentAll`: the loops of `cleanup_merged_post`;
* `nulledRow`, `posts_deletePost`: the deletion of another row;
* `cleanedRow`, `posts_cleaned`: all of `cleanup_merged_post`.
-/

namespace Seiran.Posts

open Sql

section Rows

/-- What `UPDATE posts SET … WHERE id = …` makes of a row -/
def onId (id : Int64) (f : Post → Post) (p : Post) : Post := if p.id == id then f p else p

variable {id : Int64} {f : Post → Post}

theorem onId_eq (h : ∀ p, (f p).id = p.id) (p : Post) : (onId id f p).id = p.id := by
  unfold onId
  split
  · exact h p
  · rfl

/-- A column that the `UPDATE` does not set -/
theorem onId_column {α : Type} (column : Post → α) (h : ∀ p, column (f p) = column p) (p : Post) :
    column (onId id f p) = column p := by
  unfold onId
  split
  · exact h p
  · rfl

theorem updatePost_eq (db : Tables) : db.updatePost id f = db.posts.map (onId id f) := rfl

variable {db : Tables}

theorem hasPost_iff {id : Int64} : db.hasPost id = true ↔ ∃ p ∈ db.posts, p.id = id := by
  simp [Tables.hasPost, List.any_eq_true]

theorem hasPost_of_map {db' : Tables} (h : db'.posts = db.posts.map f)
    (hid : ∀ p, (f p).id = p.id) (id : Int64) : db'.hasPost id = db.hasPost id := by
  unfold Tables.hasPost
  rw [h, List.any_map]
  congr 1
  funext p
  rw [Function.comp_apply, hid]

end Rows

section Finalize

variable {db : Tables} {survivor doomed : Int64} {ap uri : String}

/-- The first `UPDATE` of `finalize_post_merge`, of the doomed row -/
def clearUris (p : Post) : Post := { p with apObjectId := none, atUri := none }

/-- The second, of the survivor -/
def takeUris (apObjectId atUri : String) (p : Post) : Post :=
  { p with
    apObjectId := some apObjectId
    atUri := some atUri
    claimedApObjectId := none
    claimedAtUri := none }

/-- The third, of the doomed row -/
def markMerged (survivor : Int64) (p : Post) : Post :=
  { p with parentOriginalPostId := some survivor, deleted := true }

/-- The row after `finalize_post_merge` -/
def finalizedRow (survivor doomed : Int64) (apObjectId atUri : String) (p : Post) : Post :=
  onId doomed (markMerged survivor) (onId survivor (takeUris apObjectId atUri) (onId doomed clearUris p))

theorem posts_finalizePostMerge :
    (db.finalizePostMerge survivor doomed ap uri).posts =
      db.posts.map (finalizedRow survivor doomed ap uri) := by
  simp only [Tables.finalizePostMerge, updatePost_eq, List.map_map]
  rfl

/-- A column that no statement of `finalize_post_merge` sets -/
theorem finalizedRow_column {α : Type} (column : Post → α)
    (hmark : ∀ p, column (markMerged survivor p) = column p)
    (htake : ∀ p, column (takeUris ap uri p) = column p)
    (hclear : ∀ p, column (clearUris p) = column p) (p : Post) :
    column (finalizedRow survivor doomed ap uri p) = column p := by
  unfold finalizedRow
  rw [onId_column column hmark, onId_column column htake, onId_column column hclear]

@[simp] theorem finalizedRow_id (p : Post) : (finalizedRow survivor doomed ap uri p).id = p.id :=
  finalizedRow_column Post.id (fun _ => rfl) (fun _ => rfl) (fun _ => rfl) p

@[simp] theorem finalizedRow_actorId (p : Post) :
    (finalizedRow survivor doomed ap uri p).actorId = p.actorId :=
  finalizedRow_column Post.actorId (fun _ => rfl) (fun _ => rfl) (fun _ => rfl) p

@[simp] theorem finalizedRow_ref (kind : ReferenceKind) (p : Post) :
    (finalizedRow survivor doomed ap uri p).ref kind = p.ref kind :=
  finalizedRow_column (Post.ref · kind) (fun _ => by cases kind <;> rfl)
    (fun _ => by cases kind <;> rfl) (fun _ => by cases kind <;> rfl) p

@[simp] theorem finalizedRow_deleted (p : Post) :
    (finalizedRow survivor doomed ap uri p).deleted = (p.deleted || p.id == doomed) := by
  have hid : (onId survivor (takeUris ap uri) (onId doomed clearUris p)).id = p.id := by
    rw [onId_eq (f := takeUris ap uri) fun _ => rfl, onId_eq (f := clearUris) fun _ => rfl]
  have hdeleted : (onId survivor (takeUris ap uri) (onId doomed clearUris p)).deleted = p.deleted := by
    rw [onId_column (f := takeUris ap uri) Post.deleted fun _ => rfl,
      onId_column (f := clearUris) Post.deleted fun _ => rfl]
  unfold finalizedRow
  rw [onId, hid]
  by_cases h : p.id = doomed
  · rw [if_pos (beq_iff_eq.mpr h), h, beq_self_eq_true, Bool.or_true]
    rfl
  · rw [if_neg (by simpa using h), hdeleted, beq_eq_false_iff_ne.mpr h, Bool.or_false]

end Finalize

section Cleanup

variable {db : Tables} {survivor doomed : Int64}

theorem reparentSimple_of_hasPost {R K : Type} [DecidableEq K] {ref : Reference Int64 R K}
    (h : db.hasPost survivor = true) (rows : List R) :
    db.reparentSimple ref survivor doomed rows = (ref.reparent doomed survivor rows).getD rows :=
  if_pos h

/-- A column without a unique index -/
theorem reparentSimple_of_rest_eq_none {R K : Type} [DecidableEq K] {ref : Reference Int64 R K}
    (h : db.hasPost survivor = true) (hrest : ∀ r, ref.rest r = none) (rows : List R) :
    db.reparentSimple ref survivor doomed rows = rows.map (ref.move doomed survivor) := by
  rw [reparentSimple_of_hasPost h, Reference.reparent_of_rest_eq_none hrest, Option.getD_some]

theorem posts_reparentAllSimple (h : db.hasPost survivor = true) :
    (db.reparentAllSimple survivor doomed).posts =
      (db.posts.map (Post.parentOriginal.move doomed survivor)).map
        (Post.threadRoot.move doomed survivor) := by
  show db.reparentSimple Post.threadRoot survivor doomed
    (db.reparentSimple Post.parentOriginal survivor doomed db.posts) = _
  rw [reparentSimple_of_rest_eq_none h fun _ => rfl, reparentSimple_of_rest_eq_none h fun _ => rfl]

theorem posts_reparentCounted (kind : ReferenceKind) (h : db.hasPost survivor = true) :
    (db.reparentCounted survivor doomed kind).posts =
      ((Post.reference kind).reparent doomed survivor db.posts).getD db.posts := by
  unfold Tables.reparentCounted
  rw [if_pos h]
  split
  · rename_i hr
    rw [hr, Option.getD_none]
  · rename_i posts hr
    rw [hr, Option.getD_some]

theorem posts_reparentCounted_of_ne_repost {kind : ReferenceKind} (hk : kind ≠ .repost)
    (h : db.hasPost survivor = true) :
    (db.reparentCounted survivor doomed kind).posts =
      db.posts.map ((Post.reference kind).move doomed survivor) := by
  rw [posts_reparentCounted kind h, Reference.reparent_of_rest_eq_none, Option.getD_some]
  intro r
  cases kind with
  | reply => rfl
  | quote => rfl
  | repost => exact absurd rfl hk

@[simp] theorem move_id (kind : ReferenceKind) (p : Post) :
    ((Post.reference kind).move doomed survivor p).id = p.id :=
  Reference.column_move Post.id (fun _ _ => Post.id_setRef ..) p

theorem move_ref_of_ne {kind kind' : ReferenceKind} (h : kind' ≠ kind) (p : Post) :
    ((Post.reference kind).move doomed survivor p).ref kind' = p.ref kind' :=
  Reference.column_move (Post.ref · kind') (fun _ _ => Post.ref_setRef_of_ne _ _ h) p

theorem move_ref (kind : ReferenceKind) (p : Post) :
    ((Post.reference kind).move doomed survivor p).ref kind =
      if p.ref kind = some doomed then some survivor else p.ref kind := by
  show (Post.reference kind).get ((Post.reference kind).move doomed survivor p) = _
  exact Reference.get_move p

/-- The row before the reposts move -/
def movedRow (survivor doomed : Int64) (p : Post) : Post :=
  (Post.reference .quote).move doomed survivor ((Post.reference .reply).move doomed survivor
    (Post.threadRoot.move doomed survivor (Post.parentOriginal.move doomed survivor p)))

/-- A column that moves with no `UPDATE` but that of the reposts -/
theorem movedRow_column {α : Type} (column : Post → α)
    (hquote : ∀ i p, column (p.setRef .quote (some i)) = column p)
    (hreply : ∀ i p, column (p.setRef .reply (some i)) = column p)
    (hthread : ∀ i p, column { p with threadRootPostId := some i } = column p)
    (hparent : ∀ i p, column { p with parentOriginalPostId := some i } = column p) (p : Post) :
    column (movedRow survivor doomed p) = column p := by
  unfold movedRow
  rw [Reference.column_move column hquote, Reference.column_move column hreply,
    Reference.column_move column hthread, Reference.column_move column hparent]

@[simp] theorem movedRow_id (p : Post) : (movedRow survivor doomed p).id = p.id :=
  movedRow_column Post.id (fun _ _ => rfl) (fun _ _ => rfl) (fun _ _ => rfl) (fun _ _ => rfl) p

@[simp] theorem movedRow_actorId (p : Post) : (movedRow survivor doomed p).actorId = p.actorId :=
  movedRow_column Post.actorId (fun _ _ => rfl) (fun _ _ => rfl) (fun _ _ => rfl) (fun _ _ => rfl) p

@[simp] theorem movedRow_deleted (p : Post) : (movedRow survivor doomed p).deleted = p.deleted :=
  movedRow_column Post.deleted (fun _ _ => rfl) (fun _ _ => rfl) (fun _ _ => rfl) (fun _ _ => rfl) p

@[simp] theorem movedRow_repost (p : Post) :
    (movedRow survivor doomed p).ref .repost = p.ref .repost :=
  movedRow_column (Post.ref · .repost) (fun _ _ => rfl) (fun _ _ => rfl) (fun _ _ => rfl)
    (fun _ _ => rfl) p

theorem movedRow_ref {kind : ReferenceKind} (hk : kind ≠ .repost) (p : Post) :
    (movedRow survivor doomed p).ref kind =
      if p.ref kind = some doomed then some survivor else p.ref kind := by
  have hthread (q : Post) : (Post.threadRoot.move doomed survivor q).ref kind = q.ref kind :=
    Reference.column_move (Post.ref · kind) (fun _ _ => by cases kind <;> rfl) q
  have hparent (q : Post) : (Post.parentOriginal.move doomed survivor q).ref kind = q.ref kind :=
    Reference.column_move (Post.ref · kind) (fun _ _ => by cases kind <;> rfl) q
  unfold movedRow
  cases kind with
  | reply => rw [move_ref_of_ne (by decide), move_ref, hthread, hparent]
  | quote => rw [move_ref, move_ref_of_ne (by decide), hthread, hparent]
  | repost => exact absurd rfl hk

/-- The row without references to the deleted one -/
def nulledRow (id : Int64) (p : Post) : Post :=
  { p with
    replyToPostId := nullify id p.replyToPostId
    quoteOfPostId := nullify id p.quoteOfPostId
    repostOfPostId := nullify id p.repostOfPostId
    parentOriginalPostId := nullify id p.parentOriginalPostId
    threadRootPostId := nullify id p.threadRootPostId }

theorem nulledRow_ref (id : Int64) (kind : ReferenceKind) (p : Post) :
    (nulledRow id p).ref kind = nullify id (p.ref kind) := by
  cases kind <;> rfl

theorem nullify_of_ne {id : Int64} {target : Option Int64} (h : target ≠ some id) :
    nullify id target = target := if_neg h

theorem posts_deletePost (id : Int64) :
    (db.deletePost id).posts = (db.posts.filter fun p => p.id != id).map (nulledRow id) := rfl

/-- The rows after both loops of `cleanup_merged_post` -/
theorem posts_reparentAll (hs : db.hasPost survivor = true) :
    ((db.reparentAllSimple survivor doomed).reparentAllCounted survivor doomed).posts =
      ((Post.reference .repost).reparent doomed survivor
        (db.posts.map (movedRow survivor doomed))).getD
        (db.posts.map (movedRow survivor doomed)) := by
  let db₁ := db.reparentAllSimple survivor doomed
  have h₁ : db₁.posts = db.posts.map fun p =>
      Post.threadRoot.move doomed survivor (Post.parentOriginal.move doomed survivor p) := by
    rw [posts_reparentAllSimple hs, List.map_map]
    rfl
  have hid₁ (p : Post) :
      (Post.threadRoot.move doomed survivor (Post.parentOriginal.move doomed survivor p)).id = p.id := by
    rw [Reference.column_move Post.id fun _ _ => rfl, Reference.column_move Post.id fun _ _ => rfl]
  have hs₁ : db₁.hasPost survivor = true := (hasPost_of_map h₁ hid₁ survivor).trans hs
  let db₂ := db₁.reparentCounted survivor doomed .reply
  have h₂ : db₂.posts = db₁.posts.map ((Post.reference .reply).move doomed survivor) :=
    posts_reparentCounted_of_ne_repost (by decide) hs₁
  have hs₂ : db₂.hasPost survivor = true := (hasPost_of_map h₂ (move_id _) survivor).trans hs₁
  let db₃ := db₂.reparentCounted survivor doomed .quote
  have h₃ : db₃.posts = db₂.posts.map ((Post.reference .quote).move doomed survivor) :=
    posts_reparentCounted_of_ne_repost (by decide) hs₂
  have hs₃ : db₃.hasPost survivor = true := (hasPost_of_map h₃ (move_id _) survivor).trans hs₂
  have h₃' : db₃.posts = db.posts.map (movedRow survivor doomed) := by
    rw [h₃, h₂, h₁, List.map_map, List.map_map]
    rfl
  show (db₃.reparentCounted survivor doomed .repost).posts = _
  rw [posts_reparentCounted _ hs₃, h₃']

/-- `REPARENT_COUNTED` only touches `posts`. -/
theorem reparentCounted_tables {α : Type} (table : Tables → α)
    (h : ∀ db posts count, table { db with posts, relationCount := count } = table db)
    (db : Tables) (kind : ReferenceKind) :
    table (db.reparentCounted survivor doomed kind) = table db := by
  unfold Tables.reparentCounted
  split
  · split
    · rfl
    · exact h db _ _
  · rfl

theorem reparentAllCounted_tables {α : Type} (table : Tables → α)
    (h : ∀ db posts count, table { db with posts, relationCount := count } = table db)
    (db : Tables) : table (db.reparentAllCounted survivor doomed) = table db := by
  unfold Tables.reparentAllCounted
  rw [reparentCounted_tables table h, reparentCounted_tables table h, reparentCounted_tables table h]

theorem mem_reports_reparentAll (hs : db.hasPost survivor = true) (hne : survivor ≠ doomed) :
    ∀ r ∈ ((db.reparentAllSimple survivor doomed).reparentAllCounted survivor doomed).reports,
      r.subjectPostId ≠ some doomed := by
  intro r hr
  rw [reparentAllCounted_tables Tables.reports fun _ _ _ => rfl] at hr
  have hreports : (db.reparentAllSimple survivor doomed).reports =
      db.reports.map (Report.reference.move doomed survivor) :=
    reparentSimple_of_rest_eq_none hs (fun _ => rfl) db.reports
  rw [hreports] at hr
  obtain ⟨q, -, rfl⟩ := List.mem_map.mp hr
  show Report.reference.get (Report.reference.move doomed survivor q) ≠ some doomed
  rw [Reference.get_move]
  split
  · simpa using hne
  · assumption

/-- Whether the `UPDATE` of a kind of references goes through -/
def movesAll (posts : List Post) (kind : ReferenceKind) (survivor doomed : Int64) : Bool :=
  ((Post.reference kind).reparent doomed survivor posts).isSome

theorem movesAll_of_ne_repost {kind : ReferenceKind} (hk : kind ≠ .repost) (posts : List Post) :
    movesAll posts kind survivor doomed = true := by
  unfold movesAll
  rw [Reference.reparent_of_rest_eq_none, Option.isSome_some]
  intro r
  cases kind with
  | reply => rfl
  | quote => rfl
  | repost => exact absurd rfl hk

theorem movesAll_map {f : Post → Post} {kind : ReferenceKind}
    (href : ∀ p, (f p).ref kind = p.ref kind) (hactor : ∀ p, (f p).actorId = p.actorId)
    (hdeleted : ∀ p, (f p).deleted = p.deleted) (posts : List Post) :
    movesAll (posts.map f) kind survivor doomed = movesAll posts kind survivor doomed := by
  refine Reference.isSome_reparent_map href (fun p => ?_) posts
  show Post.indexRest kind (f p) = Post.indexRest kind p
  cases kind with
  | reply => rfl
  | quote => rfl
  | repost =>
    unfold Post.indexRest
    rw [hactor, hdeleted]

/-- The rows of posts but the doomed one -/
def others (db : Tables) (doomed : Int64) : List Post := db.posts.filter fun p => p.id != doomed

theorem mem_others {p : Post} : p ∈ others db doomed ↔ p ∈ db.posts ∧ p.id ≠ doomed := by
  rw [others, List.mem_filter, bne_iff_ne]

/-- The row after `cleanup_merged_post` -/
def cleanedRow (posts : List Post) (survivor doomed : Int64) (p : Post) : Post :=
  nulledRow doomed
    (if movesAll posts .repost survivor doomed then
      (Post.reference .repost).move doomed survivor (movedRow survivor doomed p)
    else movedRow survivor doomed p)

/-- A column that is no reference -/
theorem cleanedRow_column {α : Type} (column : Post → α) (hnull : ∀ p, column (nulledRow doomed p) = column p)
    (hmove : ∀ i p, column (p.setRef .repost (some i)) = column p)
    (hmoved : ∀ p, column (movedRow survivor doomed p) = column p) (posts : List Post) (p : Post) :
    column (cleanedRow posts survivor doomed p) = column p := by
  unfold cleanedRow
  rw [hnull]
  split
  · rw [Reference.column_move column hmove, hmoved]
  · exact hmoved p

@[simp] theorem cleanedRow_id (posts : List Post) (p : Post) :
    (cleanedRow posts survivor doomed p).id = p.id :=
  cleanedRow_column Post.id (fun _ => rfl) (fun _ _ => rfl) movedRow_id posts p

@[simp] theorem cleanedRow_actorId (posts : List Post) (p : Post) :
    (cleanedRow posts survivor doomed p).actorId = p.actorId :=
  cleanedRow_column Post.actorId (fun _ => rfl) (fun _ _ => rfl) movedRow_actorId posts p

@[simp] theorem cleanedRow_deleted (posts : List Post) (p : Post) :
    (cleanedRow posts survivor doomed p).deleted = p.deleted :=
  cleanedRow_column Post.deleted (fun _ => rfl) (fun _ _ => rfl) movedRow_deleted posts p

/-- What referred to the doomed post refers to the survivor or, where the `UPDATE` failed, to
nothing. -/
theorem cleanedRow_ref (hne : survivor ≠ doomed) (posts : List Post) (kind : ReferenceKind)
    (p : Post) : (cleanedRow posts survivor doomed p).ref kind =
      if p.ref kind = some doomed then
        if movesAll posts kind survivor doomed then some survivor else none
      else p.ref kind := by
  have hsome : some survivor ≠ some doomed := fun h => hne (Option.some.inj h)
  unfold cleanedRow
  rw [nulledRow_ref]
  by_cases hk : kind = .repost
  · subst hk
    by_cases h : p.ref .repost = some doomed
    · rw [if_pos h]
      split
      · rw [move_ref, movedRow_repost, if_pos h]
        exact nullify_of_ne hsome
      · rw [movedRow_repost, h]
        exact if_pos rfl
    · rw [if_neg h]
      split
      · rw [move_ref, movedRow_repost, if_neg h]
        exact nullify_of_ne h
      · rw [movedRow_repost]
        exact nullify_of_ne h
  · have hrow : (if movesAll posts .repost survivor doomed = true then
        (Post.reference .repost).move doomed survivor (movedRow survivor doomed p)
        else movedRow survivor doomed p).ref kind =
          if p.ref kind = some doomed then some survivor else p.ref kind := by
      split
      · rw [move_ref_of_ne hk, movedRow_ref hk]
      · rw [movedRow_ref hk]
    rw [hrow, movesAll_of_ne_repost hk, if_pos rfl]
    split
    · exact nullify_of_ne hsome
    · rename_i h
      exact nullify_of_ne h

theorem posts_cleaned (hs : db.hasPost survivor = true) :
    (((db.reparentAllSimple survivor doomed).reparentAllCounted survivor doomed).deletePost
        doomed).posts =
      (others db doomed).map (cleanedRow db.posts survivor doomed) := by
  have hfilter (f : Post → Post) (hf : ∀ p, (f p).id = p.id) :
      (db.posts.map f).filter (fun p => p.id != doomed) = (others db doomed).map f := by
    rw [List.filter_map, others]
    congr 1
    refine List.filter_congr fun p _ => ?_
    rw [Function.comp_apply, hf]
  have hmoves : movesAll (db.posts.map (movedRow survivor doomed)) .repost survivor doomed =
      movesAll db.posts .repost survivor doomed :=
    movesAll_map movedRow_repost movedRow_actorId movedRow_deleted db.posts
  rw [posts_deletePost, posts_reparentAll hs]
  unfold cleanedRow
  by_cases h : movesAll db.posts .repost survivor doomed = true
  · have hsome : (Post.reference .repost).reparent doomed survivor
        (db.posts.map (movedRow survivor doomed)) =
          some ((db.posts.map (movedRow survivor doomed)).map
            ((Post.reference .repost).move doomed survivor)) :=
      if_pos (Reference.isSome_reparent.mp (hmoves.trans h))
    rw [hsome, Option.getD_some, List.map_map, hfilter _ fun p => by
      rw [Function.comp_apply, move_id, movedRow_id], List.map_map]
    refine List.map_congr_left fun p _ => ?_
    rw [if_pos h]
    rfl
  · have hnone : (Post.reference .repost).reparent doomed survivor
        (db.posts.map (movedRow survivor doomed)) = none :=
      Option.not_isSome_iff_eq_none.mp fun hs => h (hmoves.symm.trans hs)
    rw [hnone, Option.getD_none, hfilter _ movedRow_id, List.map_map]
    refine List.map_congr_left fun p _ => ?_
    rw [if_neg h]
    rfl

end Cleanup

end Seiran.Posts
