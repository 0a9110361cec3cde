import Seiran.Proof.Posts.Counts

/-!
# The counters along a run

* `Pointed`, `right_others_map_iff`: what the deletion of a row does to the
  counters once its references point elsewhere;
* `right_cleanupMergedPost_iff`: `cleanup_merged_post`;
* `Sound`: the condition on a step from a state whose counters are right;
* `right_step_iff`: the counters are right after the step if and only if it
  meets the condition;
* `counters_right_iff`: and so along every run.
-/

namespace Seiran.Posts

open Sql

section Cleanup

variable {db : Tables} {survivor doomed : Int64}

/-- What the `UPDATE` of a kind adds to the counter of the survivor -/
def bump (posts : List Post) (kind : ReferenceKind) (survivor doomed : Int64) : Nat :=
  if movesAll posts kind survivor doomed ∧
      ¬ posts.any (fun p => p.ref kind == some doomed && p.id == survivor) then
    posts.countP fun p => p.ref kind == some doomed
  else 0

theorem bump_map {f : Post → Post} {kind : ReferenceKind} (hid : ∀ p, (f p).id = p.id)
    (href : ∀ p, (f p).ref kind = p.ref kind) (hactor : ∀ p, (f p).actorId = p.actorId)
    (hdeleted : ∀ p, (f p).deleted = p.deleted) (posts : List Post) :
    bump (posts.map f) kind survivor doomed = bump posts kind survivor doomed := by
  have hany : (posts.map f).any (fun p => p.ref kind == some doomed && p.id == survivor) =
      posts.any fun p => p.ref kind == some doomed && p.id == survivor := by
    rw [List.any_map]
    congr 1
    funext p
    rw [Function.comp_apply, href, hid]
  have hcount : (posts.map f).countP (fun p => p.ref kind == some doomed) =
      posts.countP fun p => p.ref kind == some doomed := by
    rw [List.countP_map]
    refine List.countP_congr fun p _ => ?_
    rw [Function.comp_apply, href]
  unfold bump
  rw [movesAll_map href hactor hdeleted, hany, hcount]

theorem relationCount_reparentCounted (hs : db.hasPost survivor = true) (kind kind' : ReferenceKind)
    (id : Int64) :
    (db.reparentCounted survivor doomed kind).relationCount kind' id =
      db.relationCount kind' id +
        if kind' = kind ∧ id = survivor then bump db.posts kind survivor doomed else 0 := by
  have hany : (db.posts.filter fun p => p.ref kind == some doomed).any (fun p => p.id == survivor) =
      db.posts.any fun p => p.ref kind == some doomed && p.id == survivor := List.any_filter ..
  unfold Tables.reparentCounted bump movesAll
  rw [if_pos hs]
  cases hr : (Post.reference kind).reparent doomed survivor db.posts with
  | none => simp
  | some posts =>
    simp only [hany, Option.isSome_some, true_and, Bool.not_eq_true', Bool.not_eq_true,
      List.countP_eq_length_filter]
    by_cases hself : db.posts.any (fun p => p.ref kind == some doomed && p.id == survivor) = true
    · simp [hself]
    · rw [Bool.not_eq_true] at hself
      simp only [hself, and_true, if_true]
      split <;> rfl

/-- What `cleanup_merged_post` adds to the counters -/
theorem relationCount_reparentAll (hs : db.hasPost survivor = true) (kind : ReferenceKind)
    (id : Int64) :
    ((db.reparentAllSimple survivor doomed).reparentAllCounted survivor doomed).relationCount kind id =
      db.relationCount kind id +
        if id = survivor then bump db.posts kind survivor doomed else 0 := by
  let db₁ := db.reparentAllSimple survivor doomed
  let f (p : Post) : Post :=
    Post.threadRoot.move doomed survivor (Post.parentOriginal.move doomed survivor p)
  have h₁ : db₁.posts = db.posts.map f := by
    rw [posts_reparentAllSimple hs, List.map_map]
    rfl
  have hcolumn {α : Type} (column : Post → α)
      (hthread : ∀ i p, column { p with threadRootPostId := some i } = column p)
      (hparent : ∀ i p, column { p with parentOriginalPostId := some i } = column p) (p : Post) :
      column (f p) = column p := by
    show column (Post.threadRoot.move doomed survivor (Post.parentOriginal.move doomed survivor p)) = _
    rw [Reference.column_move column hthread, Reference.column_move column hparent]
  have hid₁ := hcolumn Post.id (fun _ _ => rfl) fun _ _ => rfl
  have hs₁ : db₁.hasPost survivor = true := (hasPost_of_map h₁ hid₁ survivor).trans hs
  have hb₁ (k : ReferenceKind) :
      bump db₁.posts k survivor doomed = bump db.posts k survivor doomed := by
    rw [h₁]
    exact bump_map hid₁
      (hcolumn (Post.ref · k) (fun _ _ => by cases k <;> rfl) fun _ _ => by cases k <;> rfl)
      (hcolumn Post.actorId (fun _ _ => rfl) fun _ _ => rfl)
      (hcolumn Post.deleted (fun _ _ => rfl) fun _ _ => rfl) db.posts
  have hmove (k k' : ReferenceKind) (hne : k' ≠ k) (posts : List Post) :
      bump (posts.map ((Post.reference k).move doomed survivor)) k' survivor doomed =
        bump posts k' survivor doomed :=
    bump_map (move_id k) (move_ref_of_ne hne)
      (Reference.column_move Post.actorId fun _ _ => Post.actorId_setRef ..)
      (Reference.column_move Post.deleted fun _ _ => Post.deleted_setRef ..) posts
  let db₂ := db₁.reparentCounted survivor doomed .reply
  have h₂ : db₂.posts = db₁.posts.map ((Post.reference .reply).move doomed survivor) :=
    posts_reparentCounted_of_ne_repost (by decide) hs₁
  have hs₂ : db₂.hasPost survivor = true := (hasPost_of_map h₂ (move_id _) survivor).trans hs₁
  let db₃ := db₂.reparentCounted survivor doomed .quote
  have h₃ : db₃.posts = db₂.posts.map ((Post.reference .quote).move doomed survivor) :=
    posts_reparentCounted_of_ne_repost (by decide) hs₂
  have hs₃ : db₃.hasPost survivor = true := (hasPost_of_map h₃ (move_id _) survivor).trans hs₂
  show (db₃.reparentCounted survivor doomed .repost).relationCount kind id = _
  rw [relationCount_reparentCounted hs₃, relationCount_reparentCounted hs₂,
    relationCount_reparentCounted hs₁, h₃, hmove _ _ (by decide), h₂, hmove _ _ (by decide),
    hmove _ _ (by decide), hb₁, hb₁, hb₁]
  show db.relationCount kind id + _ + _ + _ = _
  cases kind <;> simp

/-- Without a survivor nothing moves. -/
theorem reparentAll_of_not_hasPost (hs : db.hasPost survivor = false) :
    (db.reparentAllSimple survivor doomed).reparentAllCounted survivor doomed = db := by
  have hsimple : db.reparentAllSimple survivor doomed = db := by
    simp only [Tables.reparentAllSimple, Tables.reparentSimple, hs, Bool.false_eq_true, if_false]
  have hcounted (kind : ReferenceKind) : db.reparentCounted survivor doomed kind = db := by
    unfold Tables.reparentCounted
    rw [hs, if_neg Bool.false_ne_true]
  rw [hsimple]
  unfold Tables.reparentAllCounted
  rw [hcounted, hcounted, hcounted]

/-- The rows but the doomed one, with what referred to it pointed at `target` -/
structure Pointed (db : Tables) (doomed : Int64) (g : Post → Post)
    (target : ReferenceKind → Option Int64) : Prop where
  id : ∀ p, (g p).id = p.id
  actorId : ∀ p, (g p).actorId = p.actorId
  deleted : ∀ p, (g p).deleted = p.deleted
  ref : ∀ kind p, (g p).ref kind = if p.ref kind = some doomed then target kind else p.ref kind
  gone : ∀ p ∈ db.posts, p.id = doomed → p.deleted = true

variable {g : Post → Post} {target : ReferenceKind → Option Int64}

theorem countP_others_map (h : Pointed db doomed g target) (c c' : Post → Bool)
    (hc : ∀ p, p.deleted = true → c p = false) (hc' : ∀ p, c' (g p) = c p) :
    ((others db doomed).map g).countP c' = db.posts.countP c := by
  unfold others
  rw [List.countP_map, List.countP_filter]
  refine List.countP_congr fun p hp => ?_
  rw [Function.comp_apply, hc', Bool.and_eq_true, bne_iff_ne, and_iff_left_iff_imp]
  intro hcp hid
  rw [hc p (h.gone p hp hid)] at hcp
  cases hcp

theorem notes_others_map (h : Pointed db doomed g target) (a : Int64) :
    notes ((others db doomed).map g) a = notes db.posts a := by
  refine countP_others_map h _ _ (fun p hp => by rw [hp]; rfl) fun p => ?_
  rw [h.deleted, h.actorId]

/-- The references to a post that stays: its own, and what is pointed at it. -/
theorem refs_others_map (h : Pointed db doomed g target) (kind : ReferenceKind) {id : Int64}
    (hid : id ≠ doomed) :
    refs ((others db doomed).map g) kind id =
      refs db.posts kind id + if target kind = some id then refs db.posts kind doomed else 0 := by
  have hne : some doomed ≠ some id := fun heq => hid (Option.some.inj heq).symm
  by_cases ht : target kind = some id
  · rw [if_pos ht]
    unfold refs
    rw [← countP_or fun p _ hp => ?_]
    · refine countP_others_map h _ _ (fun p hp => by simp [hp]) fun p => ?_
      rw [h.deleted, h.ref]
      by_cases hp : p.ref kind = some doomed
      · rw [if_pos hp, ht, hp, beq_self_eq_true, beq_self_eq_true, beq_eq_false_iff_ne.mpr hne,
          Bool.and_false, Bool.false_or]
      · rw [if_neg hp, beq_eq_false_iff_ne.mpr hp, Bool.and_false, Bool.or_false]
    · rw [Bool.and_eq_true, beq_iff_eq] at hp
      rw [hp.2, beq_eq_false_iff_ne.mpr hne.symm, Bool.and_false]
  · rw [if_neg ht, Nat.add_zero]
    refine countP_others_map h _ _ (fun p hp => by rw [hp]; rfl) fun p => ?_
    rw [h.deleted, h.ref]
    by_cases hp : p.ref kind = some doomed
    · rw [if_pos hp, hp, beq_eq_false_iff_ne.mpr ht, beq_eq_false_iff_ne.mpr hne]
    · rw [if_neg hp]

theorem live_others_map {db' : Tables} (h : Pointed db doomed g target)
    (hposts : db'.posts = (others db doomed).map g) (id : Int64) : Live db' id ↔ Live db id := by
  unfold Live
  rw [hposts]
  constructor
  · intro ⟨q, hq, hqid, hlive⟩
    obtain ⟨p, hp, rfl⟩ := List.mem_map.mp hq
    exact ⟨p, (mem_others.mp hp).1, (h.id p).symm.trans hqid, (h.deleted p).symm.trans hlive⟩
  · intro ⟨p, hp, hpid, hlive⟩
    refine ⟨g p, List.mem_map_of_mem (mem_others.mpr ⟨hp, fun hid => ?_⟩), (h.id p).trans hpid,
      (h.deleted p).trans hlive⟩
    rw [h.gone p hp hid] at hlive
    cases hlive

theorem Live.ne_doomed (h : Pointed db doomed g target) {id : Int64} (hlive : Live db id) :
    id ≠ doomed := by
  obtain ⟨p, hp, rfl, hp'⟩ := hlive
  intro hid
  rw [h.gone p hp hid] at hp'
  cases hp'

theorem inv_others_map {db' : Tables} (hinv : Inv db) (h : Pointed db doomed g target)
    (htarget : ∀ kind id, target kind = some id → db.hasPost id = true ∧ id ≠ doomed)
    (hposts : db'.posts = (others db doomed).map g) : Inv db' := by
  constructor
  · rw [hposts, List.map_map, show Post.id ∘ g = Post.id from funext h.id]
    exact (List.filter_sublist.map _).nodup hinv.keys
  · intro q hq kind id hk
    rw [hposts] at hq
    obtain ⟨p, hp, rfl⟩ := List.mem_map.mp hq
    have hid : db.hasPost id = true ∧ id ≠ doomed := by
      rw [h.ref] at hk
      split at hk
      · exact htarget kind id hk
      · rename_i hstay
        refine ⟨hinv.references p (mem_others.mp hp).1 kind id hk, fun heq => hstay ?_⟩
        rw [hk, heq]
    obtain ⟨r, hr, hrid⟩ := hasPost_iff.mp hid.1
    refine hasPost_iff.mpr ⟨g r, ?_, (h.id r).trans hrid⟩
    rw [hposts]
    exact List.mem_map_of_mem (mem_others.mpr ⟨hr, by rw [hrid]; exact hid.2⟩)

/-- What the counters gain has to be what is pointed at a live post. -/
theorem right_others_map_iff {db' : Tables} (hright : CountersRight db)
    (h : Pointed db doomed g target) (hposts : db'.posts = (others db doomed).map g)
    (extra : ReferenceKind → Int64 → Nat)
    (hcount : ∀ kind id, db'.relationCount kind id = db.relationCount kind id + extra kind id)
    (hnotes : db'.notesCount = db.notesCount) :
    CountersRight db' ↔ ∀ kind id, Live db id →
      extra kind id = if target kind = some id then refs db.posts kind doomed else 0 := by
  have hauthors (a : Int64) : db'.notesCount a = notes db'.posts a := by
    rw [hnotes, hposts, notes_others_map h]
    exact hright.notes a
  rw [countersRight_iff, and_iff_left hauthors]
  have hpost (kind : ReferenceKind) {id : Int64} (hid : Live db id) :
      db'.relationCount kind id = refs db'.posts kind id ↔
        extra kind id = if target kind = some id then refs db.posts kind doomed else 0 := by
    rw [hposts, refs_others_map h kind (hid.ne_doomed h), hcount, hright.of_live kind hid]
    omega
  constructor
  · intro hall kind id hid
    exact (hpost kind hid).mp (hall kind id ((live_others_map h hposts id).mpr hid))
  · intro hall kind id hid
    have hid' := (live_others_map h hposts id).mp hid
    exact (hpost kind hid').mpr (hall kind id hid')

/-- The counter of a live survivor may gain the number of rows that move where all of them are
live and none is the survivor. -/
def CleanupSound (db : Tables) (survivor doomed : Int64) : Prop :=
  (∃ p ∈ db.posts, p.id = doomed ∧ p.deleted = true) → Live db survivor → ∀ kind,
    movesAll db.posts kind survivor doomed = true →
      ∀ q ∈ db.posts, q.ref kind = some doomed → q.deleted = false ∧ q.id ≠ survivor

theorem Live.hasPost {id : Int64} (h : Live db id) : db.hasPost id = true := by
  obtain ⟨p, hp, hid, -⟩ := h
  exact hasPost_iff.mpr ⟨p, hp, hid⟩

theorem pointed_cleanedRow (hne : survivor ≠ doomed)
    (hgone : ∀ p ∈ db.posts, p.id = doomed → p.deleted = true) :
    Pointed db doomed (cleanedRow db.posts survivor doomed) fun kind =>
      if movesAll db.posts kind survivor doomed then some survivor else none where
  id := cleanedRow_id db.posts
  actorId := cleanedRow_actorId db.posts
  deleted := cleanedRow_deleted db.posts
  ref := cleanedRow_ref hne db.posts
  gone := hgone

theorem pointed_nulledRow (hgone : ∀ p ∈ db.posts, p.id = doomed → p.deleted = true) :
    Pointed db doomed (nulledRow doomed) fun _ => none where
  id _ := rfl
  actorId _ := rfl
  deleted _ := rfl
  ref kind p := nulledRow_ref doomed kind p
  gone := hgone

/-- The rows that move are the live ones where all of them are live. -/
theorem bump_eq_refs_iff (hlive : Live db survivor) (hinv : Inv db) {kind : ReferenceKind}
    (hmove : movesAll db.posts kind survivor doomed = true) :
    bump db.posts kind survivor doomed = refs db.posts kind doomed ↔
      ∀ q ∈ db.posts, q.ref kind = some doomed → q.deleted = false ∧ q.id ≠ survivor := by
  obtain ⟨s, hs, hsid, hslive⟩ := hlive
  unfold bump refs
  rw [hmove]
  by_cases hself : db.posts.any (fun p => p.ref kind == some doomed && p.id == survivor) = true
  · rw [if_neg fun h => h.2 hself]
    obtain ⟨q, hq, hcond⟩ := List.any_eq_true.mp hself
    rw [Bool.and_eq_true, beq_iff_eq, beq_iff_eq] at hcond
    refine iff_of_false (fun heq => ?_) fun hall => (hall q hq hcond.1).2 hcond.2
    obtain rfl := hinv.eq_of_id_eq hq hs (hcond.2.trans hsid.symm)
    refine List.countP_eq_zero.mp heq.symm q hq ?_
    rw [hslive, hcond.1, beq_self_eq_true]
    rfl
  · rw [if_pos ⟨rfl, hself⟩]
    rw [Bool.not_eq_true, List.any_eq_false] at hself
    constructor
    · intro heq q hq href
      refine ⟨?_, fun hid => hself q hq (by rw [href, hid, beq_self_eq_true, beq_self_eq_true]; rfl)⟩
      by_contra hdel
      rw [Bool.not_eq_false] at hdel
      have hless := @countP_lt_countP _ (fun p : Post => p.ref kind == some doomed)
        (fun p => !p.deleted && p.ref kind == some doomed) db.posts
        (fun p _ hp => (Bool.and_eq_true_iff.mp hp).2) q hq (beq_iff_eq.mpr href) (by simp [hdel])
      omega
    · intro hall
      refine List.countP_congr fun p hp => ?_
      rw [Bool.and_eq_true, Bool.not_eq_true', beq_iff_eq]
      exact ⟨fun h => ⟨(hall p hp h).1, h⟩, fun h => h.2⟩

/-- `cleanup_merged_post` deletes the row or leaves the tables as they are. -/
theorem cleanupMergedPost_cases (hne : survivor ≠ doomed) :
    ((db.cleanupMergedPost survivor doomed).2 = db ∧
        ((∃ p ∈ db.posts, p.id = doomed ∧ p.deleted = true) → Inv db →
          db.hasPost survivor = false)) ∨
      ((∃ p ∈ db.posts, p.id = doomed ∧ p.deleted = true) ∧
        (db.cleanupMergedPost survivor doomed).2 =
          ((db.reparentAllSimple survivor doomed).reparentAllCounted survivor doomed).deletePost
            doomed) := by
  unfold Tables.cleanupMergedPost
  split
  · rename_i hfind
    refine .inl ⟨rfl, fun ⟨p, hp, hid, _⟩ _ => ?_⟩
    exact absurd (beq_iff_eq.mpr hid) (List.find?_eq_none.mp hfind p hp)
  · rename_i p hfind
    have hp : p ∈ db.posts := List.mem_of_find?_eq_some hfind
    have hid : p.id = doomed := by
      have hcond := List.find?_some hfind
      exact beq_iff_eq.mp hcond
    split
    · rename_i hdel
      dsimp only
      split
      · rename_i hreport
        -- with a survivor, no report is left behind
        have hs : db.hasPost survivor = false := by
          by_contra hs
          rw [Bool.not_eq_false] at hs
          obtain ⟨r, hr, hsubject⟩ := List.any_eq_true.mp hreport
          exact mem_reports_reparentAll hs hne r hr (beq_iff_eq.mp hsubject)
        exact .inl ⟨reparentAll_of_not_hasPost hs, fun _ _ => hs⟩
      · exact .inr ⟨⟨p, hp, hid, hdel⟩, rfl⟩
    · rename_i hdel
      refine .inl ⟨rfl, fun ⟨q, hq, hqid, hqdel⟩ hinv => absurd ?_ hdel⟩
      rwa [hinv.eq_of_id_eq hp hq (hid.trans hqid.symm)]

theorem notesCount_reparentAll :
    (((db.reparentAllSimple survivor doomed).reparentAllCounted survivor doomed).deletePost
      doomed).notesCount = db.notesCount := by
  show ((db.reparentAllSimple survivor doomed).reparentAllCounted survivor doomed).notesCount = _
  rw [reparentAllCounted_tables Tables.notesCount fun _ _ _ => rfl]
  rfl

theorem right_cleanupMergedPost_iff (hinv : Inv db) (hright : CountersRight db)
    (hne : survivor ≠ doomed) :
    CountersRight (db.cleanupMergedPost survivor doomed).2 ↔ CleanupSound db survivor doomed := by
  obtain ⟨heq, hnone⟩ | ⟨hex, heq⟩ := @cleanupMergedPost_cases db survivor doomed hne
  · rw [heq]
    refine iff_of_true hright fun hex hlive => ?_
    rw [hlive.hasPost] at hnone
    cases hnone hex hinv
  · have hgone := hinv.gone hex
    rw [heq]
    by_cases hs : db.hasPost survivor = true
    · rw [right_others_map_iff hright (pointed_cleanedRow hne hgone) (posts_cleaned hs) _
        (relationCount_reparentAll hs) notesCount_reparentAll]
      have hkind (kind : ReferenceKind) (hlive : Live db survivor) :
          bump db.posts kind survivor doomed =
              (if (if movesAll db.posts kind survivor doomed = true then some survivor else none) =
                some survivor then refs db.posts kind doomed else 0) ↔
            (movesAll db.posts kind survivor doomed = true →
              ∀ q ∈ db.posts, q.ref kind = some doomed → q.deleted = false ∧ q.id ≠ survivor) := by
        by_cases hmove : movesAll db.posts kind survivor doomed = true
        · rw [if_pos hmove, if_pos rfl, bump_eq_refs_iff hlive hinv hmove, forall_prop_of_true hmove]
        · rw [if_neg hmove, if_neg (Option.some_ne_none survivor).symm, bump,
            if_neg fun h => hmove h.1]
          exact iff_of_true rfl fun h => absurd h hmove
      constructor
      · intro hall _ hlive kind
        refine (hkind kind hlive).mp ?_
        rw [← hall kind survivor hlive, if_pos rfl]
      · intro hsound kind id hlive
        by_cases hid : id = survivor
        · subst hid
          rw [if_pos rfl]
          exact (hkind kind hlive).mpr (hsound hex hlive kind)
        · rw [if_neg hid, if_neg]
          split
          · exact fun h => hid (Option.some.inj h).symm
          · exact (Option.some_ne_none id).symm
    · rw [Bool.not_eq_true] at hs
      rw [reparentAll_of_not_hasPost hs,
        right_others_map_iff hright (pointed_nulledRow hgone) (posts_deletePost doomed)
          (fun _ _ => 0) (fun _ _ => rfl) rfl]
      refine iff_of_true (fun kind id _ => (if_neg (Option.some_ne_none id).symm).symm) ?_
      intro _ hlive
      rw [hlive.hasPost] at hs
      cases hs

theorem inv_cleanupMergedPost (hinv : Inv db) (hne : survivor ≠ doomed) :
    Inv (db.cleanupMergedPost survivor doomed).2 := by
  obtain ⟨heq, -⟩ | ⟨hex, heq⟩ := @cleanupMergedPost_cases db survivor doomed hne
  · rw [heq]
    exact hinv
  · have hgone := hinv.gone hex
    rw [heq]
    by_cases hs : db.hasPost survivor = true
    · refine inv_others_map hinv (pointed_cleanedRow hne hgone) (fun kind id ht => ?_)
        (posts_cleaned hs)
      split at ht
      · rw [← Option.some.inj ht]
        exact ⟨hs, hne⟩
      · cases ht
    · rw [Bool.not_eq_true] at hs
      rw [reparentAll_of_not_hasPost hs]
      refine inv_others_map hinv (pointed_nulledRow hgone) (fun kind id ht => ?_)
        (posts_deletePost doomed)
      cases ht

end Cleanup

section Machine

variable {db db' : Tables}

/-- Where a step keeps the counters right: a post that came in is one that was there, or is
counted; a deletion that does not count deletes nothing; a reference that is resolved, or moved
with a merge, is counted as it was. -/
def Sound (db : Tables) : Action → Prop
  | .insertOrMergeBskyPost row =>
    (db.mergeTarget row).isSome = true ∨ ∃ q ∈ db.posts, q.atUri = some row.atUri
  | .importBskyDm _ _ _ messageId => ∃ q ∈ db.posts, q.bskyMessageId = some messageId
  | .upsertBskyPost _ _ atUri => ∃ q ∈ db.posts, q.atUri = some atUri
  | .upsertApNote _ _ apObjectId => ∃ q ∈ db.posts, q.apObjectId = some apObjectId
  | .withdrawLocalActor actorId => ∀ p ∈ db.posts, p.actorId = actorId → p.deleted = true
  | .applyReferenceResolution postId kind resolved => ResolutionSound db postId kind resolved
  | .finalizePostMerge _ doomed _ _ => ∀ p ∈ db.posts, p.id = doomed → p.deleted = true
  | .cleanupMergedPost survivor doomed => CleanupSound db survivor doomed
  | _ => True

/-- `insert_remote_with_dedup` takes the id of the other protocol or inserts. -/
theorem inv_insertRemoteWithDedup (hinv : Inv db) {row : InsertRemoteWithDedupParams}
    (h : db.insertRemoteWithDedup row = some db') : Inv db' := by
  unfold Tables.insertRemoteWithDedup at h
  split at h
  · split at h
    · cases h
    · cases h
      exact inv_updatePost hinv rfl (fun _ => rfl) fun q _ _ kind id hk => .inl (by cases kind <;> exact hk)
  · exact inv_insertOrSkipCounted hinv h

theorem right_insertRemoteWithDedup (hinv : Inv db) (hright : CountersRight db)
    {row : InsertRemoteWithDedupParams} (h : db.insertRemoteWithDedup row = some db') :
    CountersRight db' := by
  unfold Tables.insertRemoteWithDedup at h
  split at h
  · split at h
    · cases h
    · cases h
      exact right_updatePost hright _ (fun _ => rfl) (fun _ => rfl) (fun _ => rfl) fun _ kind => by
        cases kind <;> rfl
  · exact right_insertOrSkipCounted hinv hright rfl h

theorem inv_insertOrMergeBskyPost (hinv : Inv db) {row : BskyPostRow}
    (h : db.insertOrMergeBskyPost row = some db') : Inv db' := by
  unfold Tables.insertOrMergeBskyPost at h
  split at h
  · split at h
    · cases h
    · cases h
      exact inv_updatePost hinv rfl (fun _ => rfl) fun q _ _ kind id hk => .inl (by cases kind <;> exact hk)
  · exact inv_insertOrSkipUncounted hinv h

/-- `insert_or_merge_bsky_post` counts nothing. -/
theorem right_insertOrMergeBskyPost_iff (hright : CountersRight db) {row : BskyPostRow}
    (h : db.insertOrMergeBskyPost row = some db') :
    CountersRight db' ↔
      (db.mergeTarget row).isSome = true ∨ ∃ q ∈ db.posts, q.atUri = some row.atUri := by
  unfold Tables.insertOrMergeBskyPost at h
  split at h
  · rename_i existing htarget
    split at h
    · cases h
    · cases h
      refine iff_of_true ?_ (.inl (by rw [htarget]; rfl))
      exact right_updatePost hright _ (fun _ => rfl) (fun _ => rfl) (fun _ => rfl) fun _ kind => by
        cases kind <;> rfl
  · rename_i htarget
    rw [right_insertOrSkipUncounted_iff hright rfl h, htarget]
    simp

/-- Every step keeps the keys. -/
theorem inv_step (hinv : Inv db) {a : Action} (h : step db a = some db') : Inv db' := by
  cases a with
  | insert id actorId ap => exact inv_insertCounted hinv h
  | insertFull id actorId ap reply quote root => exact inv_insertCounted hinv h
  | insertRepost id actorId ap target => exact inv_insertOrSkipCounted hinv h
  | insertRepostBsky id actorId uri target => exact inv_insertCounted hinv h
  | insertRemote id actorId ap => exact inv_insertOrSkipCounted hinv h
  | insertRemoteWithDedup row => exact inv_insertRemoteWithDedup hinv h
  | insertOrMergeBskyPost row => exact inv_insertOrMergeBskyPost hinv h
  | importBskyDm id root sender message => exact inv_insertOrSkipUncounted hinv h
  | upsertBskyPost id actorId uri => exact inv_insertOrSkipUncounted hinv h
  | upsertApNote id actorId ap => exact inv_insertOrSkipUncounted hinv h
  | softDeleteById id => cases h; exact inv_softDelete hinv _
  | softDeleteByApObjectId ap => cases h; exact inv_softDelete hinv _
  | softDeleteByAtUri uri => cases h; exact inv_softDelete hinv _
  | withdrawLocalActor actorId => cases h; exact inv_withdrawLocalActor hinv actorId
  | applyReferenceResolution postId kind resolved => exact inv_applyReferenceResolution hinv h
  | finalizePostMerge survivor doomed ap uri =>
    obtain ⟨-, heq⟩ := Option.ite_none_right_eq_some.mp h
    cases heq
    exact inv_finalizePostMerge hinv
  | cleanupMergedPost survivor doomed =>
    obtain ⟨hne, heq⟩ := Option.ite_none_right_eq_some.mp h
    cases heq
    exact inv_cleanupMergedPost hinv hne

/-- After a step from right counters they are right if and only if the step is sound. -/
theorem right_step_iff (hinv : Inv db) (hright : CountersRight db) {a : Action}
    (h : step db a = some db') : CountersRight db' ↔ Sound db a := by
  cases a with
  | insert id actorId ap => exact iff_of_true (right_insertCounted hinv hright rfl h) trivial
  | insertFull id actorId ap reply quote root =>
    exact iff_of_true (right_insertCounted hinv hright rfl h) trivial
  | insertRepost id actorId ap target =>
    exact iff_of_true (right_insertOrSkipCounted hinv hright rfl h) trivial
  | insertRepostBsky id actorId uri target =>
    exact iff_of_true (right_insertCounted hinv hright rfl h) trivial
  | insertRemote id actorId ap =>
    exact iff_of_true (right_insertOrSkipCounted hinv hright rfl h) trivial
  | insertRemoteWithDedup row =>
    exact iff_of_true (right_insertRemoteWithDedup hinv hright h) trivial
  | insertOrMergeBskyPost row => exact right_insertOrMergeBskyPost_iff hright h
  | importBskyDm id root sender message =>
    simpa [Sound] using right_insertOrSkipUncounted_iff hright rfl h
  | upsertBskyPost id actorId uri =>
    simpa [Sound] using right_insertOrSkipUncounted_iff hright rfl h
  | upsertApNote id actorId ap =>
    simpa [Sound] using right_insertOrSkipUncounted_iff hright rfl h
  | softDeleteById id => cases h; exact iff_of_true (right_softDelete hinv hright _) trivial
  | softDeleteByApObjectId ap => cases h; exact iff_of_true (right_softDelete hinv hright _) trivial
  | softDeleteByAtUri uri => cases h; exact iff_of_true (right_softDelete hinv hright _) trivial
  | withdrawLocalActor actorId => cases h; exact right_withdrawLocalActor_iff hright actorId
  | applyReferenceResolution postId kind resolved => exact right_resolution_iff hinv hright h
  | finalizePostMerge survivor doomed ap uri =>
    obtain ⟨-, heq⟩ := Option.ite_none_right_eq_some.mp h
    cases heq
    exact right_finalizePostMerge_iff hright
  | cleanupMergedPost survivor doomed =>
    obtain ⟨hne, heq⟩ := Option.ite_none_right_eq_some.mp h
    cases heq
    exact right_cleanupMergedPost_iff hinv hright hne

theorem inv_empty : Inv {} := ⟨List.nodup_nil, fun _ h => absurd h List.not_mem_nil⟩

theorem right_empty : CountersRight {} := ⟨fun _ h => absurd h List.not_mem_nil, fun _ => rfl⟩

/-- The counters are right in every state of a run if and only if its steps are sound. -/
theorem counters_right_iff {acts : List Action} {t : Tables} (hr : machine.run {} acts = some t) :
    (∀ bs cs u, acts = bs ++ cs → machine.run {} bs = some u → CountersRight u) ↔
      machine.Along Sound {} acts := by
  constructor
  · exact machine.along_of_prefixes_holding (fun hinv hs => inv_step hinv hs)
      (fun hinv hright hunsound hs hright' =>
        hunsound ((right_step_iff hinv hright hs).mp hright')) inv_empty hr
  · intro hsound bs cs u hacts hu
    subst hacts
    have hstep {db db' : Tables} {a : Action} (hI : Inv db ∧ CountersRight db) (ha : Sound db a)
        (hs : machine.step db a = some db') : Inv db' ∧ CountersRight db' :=
      ⟨inv_step hI.1 hs, (right_step_iff hI.1 hI.2 hs).mpr ha⟩
    exact (machine.run_inv_along hstep ⟨inv_empty, right_empty⟩ (machine.along_append_left hsound)
      hu).2

/-- A reply to a post that is deleted again -/
def replyThenDelete : List Action :=
  [.insert 1 9 "https://a.example/1", .insertFull 2 8 "https://a.example/2" (some 1) none (some 1),
    .softDeleteById 2]

theorem counters_right_iff_replyThenDelete :
    (∀ bs cs u, replyThenDelete = bs ++ cs → machine.run {} bs = some u → CountersRight u) ↔
      machine.Along Sound {} replyThenDelete := by
  obtain ⟨t, ht⟩ : ∃ t, machine.run {} replyThenDelete = some t :=
    Option.isSome_iff_exists.mp (by decide)
  exact counters_right_iff ht

/-- A message that is imported is a live post of its sender, whose `notes_count` stays 0. -/
theorem counters_right_counterexample :
    ∃ u, machine.run {} [.importBskyDm 1 1 9 "m"] = some u ∧ ¬ CountersRight u := by
  refine ⟨_, rfl, fun h => ?_⟩
  have hcount := h.notes 9
  revert hcount
  decide

end Machine

end Seiran.Posts
