import Seiran.Framework.Counting
import Seiran.Model.Posts.Write
import Seiran.Proof.Posts.Rows

/-!
# The counters of posts and actors

* `CountersRight`: every counter is the number of live rows it stands for;
* `Inv`: ids are unique and references exist, in every state;
* `right_insertCounted`, `right_insertOrSkipUncounted_iff`: the insertions;
* `right_softDelete`, `right_resolution_iff`: the statements on one row;
* `right_finalizePostMerge_iff`, `right_withdrawLocalActor_iff`: the deletions
  that do not count.
-/

namespace Seiran.Posts

open Sql

/-- The live posts that refer to a post in a way -/
def refs (posts : List Post) (kind : ReferenceKind) (id : Int64) : Nat :=
  posts.countP fun p => !p.deleted && p.ref kind == some id

/-- The live posts of an actor -/
def notes (posts : List Post) (actorId : Int64) : Nat :=
  posts.countP fun p => !p.deleted && p.actorId == actorId

/-- Every counter equals what it counts: those of the live posts, and that of every actor. -/
structure CountersRight (db : Tables) : Prop where
  relations : ∀ p ∈ db.posts, p.deleted = false → ∀ kind,
    db.relationCount kind p.id = refs db.posts kind p.id
  notes : ∀ a, db.notesCount a = notes db.posts a

/-- What holds of the rows in every state -/
structure Inv (db : Tables) : Prop where
  keys : (db.posts.map Post.id).Nodup
  references : ∀ p ∈ db.posts, ∀ kind id, p.ref kind = some id → db.hasPost id = true

/-- A post that is there and not deleted -/
def Live (db : Tables) (id : Int64) : Prop := ∃ p ∈ db.posts, p.id = id ∧ p.deleted = false

theorem Inv.eq_of_id_eq {db : Tables} (h : Inv db) {p q : Post} (hp : p ∈ db.posts)
    (hq : q ∈ db.posts) (hid : p.id = q.id) : p = q :=
  List.inj_on_of_nodup_map h.keys hp hq hid

theorem Inv.gone {db : Tables} (h : Inv db) {id : Int64}
    (hex : ∃ p ∈ db.posts, p.id = id ∧ p.deleted = true) :
    ∀ p ∈ db.posts, p.id = id → p.deleted = true := by
  obtain ⟨q, hq, hqid, hdel⟩ := hex
  intro p hp hid
  rwa [h.eq_of_id_eq hp hq (hid.trans hqid.symm)]

theorem CountersRight.of_live {db : Tables} (h : CountersRight db) (kind : ReferenceKind) {id : Int64}
    (hid : Live db id) : db.relationCount kind id = refs db.posts kind id := by
  obtain ⟨p, hp, rfl, hlive⟩ := hid
  exact h.relations p hp hlive kind

theorem countersRight_iff {db : Tables} :
    CountersRight db ↔
      (∀ kind id, Live db id → db.relationCount kind id = refs db.posts kind id) ∧
        ∀ a, db.notesCount a = notes db.posts a := by
  constructor
  · intro h
    exact ⟨fun kind _ hid => h.of_live kind hid, h.notes⟩
  · intro h
    exact ⟨fun p hp hlive kind => h.1 kind p.id ⟨p, hp, rfl, hlive⟩, h.2⟩

section Map

variable {db db' : Tables} {f : Post → Post}

theorem live_map (hposts : db'.posts = db.posts.map f) (hid : ∀ p, (f p).id = p.id)
    (hdeleted : ∀ p ∈ db.posts, (f p).deleted = p.deleted) (id : Int64) :
    Live db' id ↔ Live db id := by
  unfold Live
  rw [hposts]
  constructor
  · intro ⟨q, hq, hqid, hlive⟩
    obtain ⟨p, hp, rfl⟩ := List.mem_map.mp hq
    exact ⟨p, hp, (hid p).symm.trans hqid, (hdeleted p hp).symm.trans hlive⟩
  · intro ⟨p, hp, hpid, hlive⟩
    exact ⟨f p, List.mem_map_of_mem hp, (hid p).trans hpid, (hdeleted p hp).trans hlive⟩

theorem refs_map {posts : List Post} (hdeleted : ∀ p ∈ posts, (f p).deleted = p.deleted)
    (href : ∀ p ∈ posts, ∀ kind, (f p).ref kind = p.ref kind) (kind : ReferenceKind) (id : Int64) :
    refs (posts.map f) kind id = refs posts kind id := by
  unfold refs
  rw [List.countP_map]
  refine List.countP_congr fun p hp => ?_
  rw [Function.comp_apply, hdeleted p hp, href p hp]

theorem notes_map {posts : List Post} (hdeleted : ∀ p ∈ posts, (f p).deleted = p.deleted)
    (hactor : ∀ p ∈ posts, (f p).actorId = p.actorId) (a : Int64) :
    notes (posts.map f) a = notes posts a := by
  unfold notes
  rw [List.countP_map]
  refine List.countP_congr fun p hp => ?_
  rw [Function.comp_apply, hdeleted p hp, hactor p hp]

theorem inv_map (h : Inv db) (hposts : db'.posts = db.posts.map f) (hid : ∀ p, (f p).id = p.id)
    (href : ∀ p ∈ db.posts, ∀ kind id, (f p).ref kind = some id →
      p.ref kind = some id ∨ db.hasPost id = true) : Inv db' where
  keys := by
    rw [hposts, List.map_map, show Post.id ∘ f = Post.id from funext hid]
    exact h.keys
  references p hp kind id hk := by
    rw [hasPost_of_map hposts hid]
    rw [hposts] at hp
    obtain ⟨q, hq, rfl⟩ := List.mem_map.mp hp
    exact (href q hq kind id hk).elim (h.references q hq kind id) fun hpost => hpost

/-- An `UPDATE` of columns that no counter depends on -/
theorem right_of_map (hposts : db'.posts = db.posts.map f) (hid : ∀ p, (f p).id = p.id)
    (hactor : ∀ p ∈ db.posts, (f p).actorId = p.actorId)
    (hdeleted : ∀ p ∈ db.posts, (f p).deleted = p.deleted)
    (href : ∀ p ∈ db.posts, ∀ kind, (f p).ref kind = p.ref kind)
    (hcount : db'.relationCount = db.relationCount) (hnotes : db'.notesCount = db.notesCount)
    (h : CountersRight db) : CountersRight db' := by
  rw [countersRight_iff]
  constructor
  · intro kind id hlive
    rw [hposts, refs_map hdeleted href, hcount]
    exact h.of_live kind ((live_map hposts hid hdeleted id).mp hlive)
  · intro a
    rw [hposts, notes_map hdeleted hactor, hnotes]
    exact h.notes a

end Map

section Insert

variable {db db' : Tables} {p : Post} {same : Post → Bool}

theorem insertPost_eq_some (h : db.insertPost p = some db') :
    db.hasPost p.id = false ∧ (∀ kind id, p.ref kind = some id → db.hasPost id = true) ∧
      db' = { db with
        posts := db.posts ++ [p]
        relationCount := fun kind id => if id = p.id then 0 else db.countRefs p (· + 1) kind id } := by
  unfold Tables.insertPost at h
  split at h
  · cases h
  · rename_i hok
    cases h
    simp only [Tables.violates, Bool.or_eq_true, not_or, Bool.not_eq_true] at hok
    obtain ⟨⟨⟨⟨⟨hid, hrefs⟩, -⟩, -⟩, -⟩, -⟩ := hok
    refine ⟨hid, fun kind id hk => ?_, rfl⟩
    have hkind := (List.any_eq_false.mp hrefs) kind (by cases kind <;> decide)
    rw [hk, Option.all_some, Bool.not_eq_true', Bool.not_eq_false] at hkind
    exact hkind

theorem inv_insertPost (hinv : Inv db) (h : db.insertPost p = some db') : Inv db' := by
  obtain ⟨hid, hrefs, rfl⟩ := insertPost_eq_some h
  have hgrow {id : Int64} (hpost : db.hasPost id = true) :
      (db.posts ++ [p]).any (fun q => q.id == id) = true := by
    rw [List.any_append, Bool.or_eq_true]
    exact .inl hpost
  constructor
  · rw [List.map_append]
    refine List.nodup_append'.mpr ⟨hinv.keys, List.nodup_singleton _, ?_⟩
    show (db.posts.map Post.id).Disjoint [p.id]
    rw [List.disjoint_singleton]
    intro hmem
    obtain ⟨q, hq, hqid⟩ := List.mem_map.mp hmem
    rw [hasPost_iff.mpr ⟨q, hq, hqid⟩] at hid
    cases hid
  · intro q hq kind id hk
    obtain hq | hq := List.mem_append.mp hq
    · exact hgrow (hinv.references q hq kind id hk)
    · rw [List.mem_singleton.mp hq] at hk
      exact hgrow (hrefs kind id hk)

theorem refs_append (posts : List Post) (hp : p.deleted = false) (kind : ReferenceKind)
    (id : Int64) :
    refs (posts ++ [p]) kind id = refs posts kind id + if p.ref kind = some id then 1 else 0 := by
  simp [refs, hp]

theorem notes_append (posts : List Post) (hp : p.deleted = false) (a : Int64) :
    notes (posts ++ [p]) a = notes posts a + if p.actorId = a then 1 else 0 := by
  simp [notes, hp]

/-- Nothing refers to an id before there is a row with it. -/
theorem refs_eq_zero (hinv : Inv db) {id : Int64} (hid : db.hasPost id = false)
    (kind : ReferenceKind) : refs db.posts kind id = 0 := by
  unfold refs
  rw [List.countP_eq_zero]
  intro q hq hcond
  rw [Bool.and_eq_true, beq_iff_eq] at hcond
  rw [hinv.references q hq kind id hcond.2] at hid
  cases hid

/-- The trigger keeps the counters of the posts. -/
theorem relations_insertPost (hinv : Inv db) (hright : CountersRight db) (hp : p.deleted = false)
    (h : db.insertPost p = some db') :
    ∀ q ∈ db'.posts, q.deleted = false → ∀ kind,
      db'.relationCount kind q.id = refs db'.posts kind q.id := by
  obtain ⟨hid, hrefs, rfl⟩ := insertPost_eq_some h
  intro q hq hlive kind
  show (if q.id = p.id then 0 else db.countRefs p (· + 1) kind q.id) = refs (db.posts ++ [p]) kind q.id
  rw [refs_append _ hp]
  obtain hq | hq := List.mem_append.mp hq
  · have hne : q.id ≠ p.id := by
      intro heq
      rw [hasPost_iff.mpr ⟨q, hq, heq⟩] at hid
      cases hid
    rw [if_neg hne, Tables.countRefs, hright.relations q hq hlive kind]
    split <;> rfl
  · rw [List.mem_singleton.mp hq, if_pos rfl, refs_eq_zero hinv hid, if_neg]
    intro hself
    rw [hrefs kind p.id hself] at hid
    cases hid

theorem right_insertCounted (hinv : Inv db) (hright : CountersRight db) (hp : p.deleted = false)
    (h : db.insertCounted p = some db') : CountersRight db' := by
  obtain ⟨db₁, h₁, rfl⟩ := Option.map_eq_some_iff.mp h
  have hrel := relations_insertPost hinv hright hp h₁
  obtain ⟨-, -, rfl⟩ := insertPost_eq_some h₁
  refine ⟨hrel, fun a => ?_⟩
  show (if a = p.actorId then db.notesCount a + 1 else db.notesCount a) = notes (db.posts ++ [p]) a
  rw [notes_append _ hp, hright.notes a]
  by_cases ha : a = p.actorId
  · rw [if_pos ha, if_pos ha.symm]
  · rw [if_neg ha, if_neg (Ne.symm ha)]
    rfl

/-- Without the count, the author has a live post too many. -/
theorem not_right_insertPost (hright : CountersRight db) (hp : p.deleted = false)
    (h : db.insertPost p = some db') : ¬ CountersRight db' := by
  intro hright'
  obtain ⟨-, -, rfl⟩ := insertPost_eq_some h
  have hnotes := hright'.notes p.actorId
  have hbefore := hright.notes p.actorId
  change db.notesCount p.actorId = notes (db.posts ++ [p]) p.actorId at hnotes
  rw [notes_append _ hp, if_pos rfl] at hnotes
  omega

theorem right_insertOrSkipCounted (hinv : Inv db) (hright : CountersRight db)
    (hp : p.deleted = false) (h : db.insertOrSkipCounted same p = some db') : CountersRight db' := by
  unfold Tables.insertOrSkipCounted Tables.insertOrSkip at h
  split at h
  · cases h
    exact hright
  · rw [Option.map_map] at h
    exact right_insertCounted hinv hright hp h

theorem right_insertOrSkipUncounted_iff (hright : CountersRight db) (hp : p.deleted = false)
    (h : db.insertOrSkipUncounted same p = some db') :
    CountersRight db' ↔ ∃ q ∈ db.posts, same q = true := by
  unfold Tables.insertOrSkipUncounted Tables.insertOrSkip at h
  split at h
  · rename_i hany
    cases h
    exact iff_of_true hright (List.any_eq_true.mp hany)
  · rename_i hany
    rw [Option.map_map] at h
    obtain ⟨db₁, h₁, rfl⟩ := Option.map_eq_some_iff.mp h
    refine iff_of_false (not_right_insertPost hright hp h₁) fun hex => hany ?_
    exact List.any_eq_true.mpr hex

theorem inv_countNotes (hinv : Inv db) (a : Int64) (f : Nat → Nat) : Inv (db.countNotes a f) :=
  ⟨hinv.keys, hinv.references⟩

theorem inv_insertCounted (hinv : Inv db) (h : db.insertCounted p = some db') : Inv db' := by
  obtain ⟨db₁, h₁, rfl⟩ := Option.map_eq_some_iff.mp h
  exact inv_countNotes (inv_insertPost hinv h₁) _ _

theorem inv_insertOrSkip (hinv : Inv db) {inserted : Bool}
    (h : db.insertOrSkip same p = some (db', inserted)) : Inv db' := by
  unfold Tables.insertOrSkip at h
  split at h
  · cases h
    exact hinv
  · obtain ⟨db₁, h₁, heq⟩ := Option.map_eq_some_iff.mp h
    cases heq
    exact inv_insertPost hinv h₁

theorem inv_insertOrSkipCounted (hinv : Inv db) (h : db.insertOrSkipCounted same p = some db') :
    Inv db' := by
  obtain ⟨⟨db₁, inserted⟩, h₁, rfl⟩ := Option.map_eq_some_iff.mp h
  have hinv₁ := inv_insertOrSkip hinv h₁
  dsimp only
  split
  · exact inv_countNotes hinv₁ _ _
  · exact hinv₁

theorem inv_insertOrSkipUncounted (hinv : Inv db) (h : db.insertOrSkipUncounted same p = some db') :
    Inv db' := by
  obtain ⟨⟨db₁, inserted⟩, h₁, rfl⟩ := Option.map_eq_some_iff.mp h
  exact inv_insertOrSkip hinv h₁

end Insert

section Update

variable {db db' : Tables} {p : Post} {f : Post → Post}

theorem updatePost_eq_key (id : Int64) :
    db.updatePost id f = db.posts.map fun q => if q.id = id then f q else q := by
  simp only [Tables.updatePost, beq_iff_eq]

/-- What a statement on one row changes in a count of rows -/
theorem countP_updatePost (hinv : Inv db) (hp : p ∈ db.posts) (f : Post → Post) (c : Post → Bool) :
    (db.updatePost p.id f).countP c + (if c p then 1 else 0) =
      db.posts.countP c + (if c (f p) then 1 else 0) := by
  rw [updatePost_eq_key]
  exact countP_update hinv.keys hp f

theorem inv_updatePost (hinv : Inv db) {k : Int64} (hposts : db'.posts = db.updatePost k f)
    (hid : ∀ q, (f q).id = q.id)
    (href : ∀ q ∈ db.posts, q.id = k → ∀ kind id, (f q).ref kind = some id →
      q.ref kind = some id ∨ db.hasPost id = true) : Inv db' := by
  refine inv_map hinv hposts (onId_eq hid) fun q hq kind id hk => ?_
  split at hk
  · rename_i heq
    exact href q hq (beq_iff_eq.mp heq) kind id hk
  · exact .inl hk

/-- An `UPDATE` by id of columns that no counter depends on -/
theorem right_updatePost (hright : CountersRight db) (k : Int64) (hid : ∀ q, (f q).id = q.id)
    (hactor : ∀ q, (f q).actorId = q.actorId) (hdeleted : ∀ q, (f q).deleted = q.deleted)
    (href : ∀ q kind, (f q).ref kind = q.ref kind) :
    CountersRight { db with posts := db.updatePost k f } :=
  right_of_map rfl (onId_eq hid) (fun q _ => onId_column Post.actorId hactor q)
    (fun q _ => onId_column Post.deleted hdeleted q)
    (fun q _ kind => onId_column (Post.ref · kind) (href · kind) q) rfl rfl hright

end Update

section SoftDelete

variable {db : Tables}

/-- The row once it is deleted -/
def deletedRow (p : Post) : Post := { p with deleted := true }

theorem deletedRow_ref (p : Post) (kind : ReferenceKind) : (deletedRow p).ref kind = p.ref kind := by
  cases kind <;> rfl

theorem inv_softDelete (hinv : Inv db) (q : Post → Bool) : Inv (db.softDelete q) := by
  unfold Tables.softDelete
  split
  · exact hinv
  · rename_i p hfind
    have hrow := @inv_updatePost db
      { db with posts := db.updatePost p.id deletedRow, relationCount := db.countDelete p } deletedRow
      hinv p.id rfl (fun _ => rfl) fun q _ _ kind id hk =>
        .inl ((deletedRow_ref q kind).symm.trans hk)
    exact inv_countNotes hrow _ _

variable {p : Post} (hinv : Inv db) (hp : p ∈ db.posts) (hlive : p.deleted = false)
include hinv hp hlive

theorem refs_delete (kind : ReferenceKind) (id : Int64) :
    refs (db.updatePost p.id deletedRow) kind id + (if p.ref kind = some id then 1 else 0) =
      refs db.posts kind id := by
  have hcount := countP_updatePost hinv hp deletedRow fun r => !r.deleted && r.ref kind == some id
  rw [hlive, show (deletedRow p).deleted = true from rfl] at hcount
  simp only [Bool.not_false, Bool.true_and, beq_iff_eq, Bool.not_true, Bool.false_and,
    Bool.false_eq_true, if_false, Nat.add_zero] at hcount
  exact hcount

theorem notes_delete (a : Int64) :
    notes (db.updatePost p.id deletedRow) a + (if p.actorId = a then 1 else 0) = notes db.posts a := by
  have hcount := countP_updatePost hinv hp deletedRow fun r => !r.deleted && r.actorId == a
  rw [hlive, show (deletedRow p).deleted = true from rfl] at hcount
  simp only [Bool.not_false, Bool.true_and, beq_iff_eq, Bool.not_true, Bool.false_and,
    Bool.false_eq_true, if_false, Nat.add_zero] at hcount
  exact hcount

omit hinv hp hlive in
/-- The live rows after the deletion were there before, under other ids. -/
theorem mem_delete {id : Int64} {r : Post} (hr : r ∈ db.updatePost id deletedRow)
    (hrlive : r.deleted = false) : r ∈ db.posts ∧ r.id ≠ id := by
  obtain ⟨r', hr', rfl⟩ := List.mem_map.mp hr
  by_cases hid : r'.id = id
  · rw [if_pos (beq_iff_eq.mpr hid)] at hrlive
    cases hrlive
  · rw [if_neg (by simpa using hid)]
    exact ⟨hr', hid⟩

/-- The trigger takes away what the references of the deleted row added. -/
theorem relations_delete (hright : CountersRight db) {r : Post}
    (hr : r ∈ db.updatePost p.id deletedRow) (hrlive : r.deleted = false) (kind : ReferenceKind) :
    db.countDelete p kind r.id = refs (db.updatePost p.id deletedRow) kind r.id := by
  have hbefore := hright.relations r (mem_delete hr hrlive).1 hrlive kind
  have hafter := refs_delete hinv hp hlive kind r.id
  show (if p.ref kind = some r.id then db.relationCount kind r.id - 1
    else db.relationCount kind r.id) = _
  split
  · rename_i hk
    rw [if_pos hk] at hafter
    omega
  · rename_i hk
    rw [if_neg hk] at hafter
    omega

omit hp hlive in
theorem right_softDelete (hright : CountersRight db) (q : Post → Bool) :
    CountersRight (db.softDelete q) := by
  unfold Tables.softDelete
  split
  · exact hright
  · rename_i p hfind
    have hp : p ∈ db.posts := List.mem_of_find?_eq_some hfind
    have hlive : p.deleted = false := by
      have hcond := List.find?_some hfind
      rw [Bool.and_eq_true, Bool.not_eq_true'] at hcond
      exact hcond.2
    constructor
    · intro r hr hrlive kind
      exact relations_delete hinv hp hlive hright hr hrlive kind
    · intro a
      show (if a = p.actorId then db.notesCount a - 1 else db.notesCount a) =
        notes (db.updatePost p.id deletedRow) a
      have hbefore := hright.notes a
      have hafter := notes_delete hinv hp hlive a
      by_cases ha : a = p.actorId
      · rw [if_pos ha]
        rw [if_pos ha.symm] at hafter
        omega
      · rw [if_neg ha]
        rw [if_neg (Ne.symm ha)] at hafter
        omega

end SoftDelete

section Resolution

variable {db db' : Tables} {postId resolved : Int64} {kind : ReferenceKind}

/-- What the resolution of a reference does -/
theorem applyReferenceResolution_eq_some
    (h : db.applyReferenceResolution postId kind resolved = some db') :
    (db.hasPost postId = true → db.hasPost resolved = true) ∧
      db' = { db with posts := db.updatePost postId fun p => p.setRef kind (some resolved) } := by
  unfold Tables.applyReferenceResolution at h
  dsimp only at h
  split at h
  · cases h
  · rename_i hok
    cases h
    refine ⟨fun hpost => ?_, rfl⟩
    by_contra hres
    exact hok ⟨hpost, .inl hres⟩

theorem inv_applyReferenceResolution (hinv : Inv db)
    (h : db.applyReferenceResolution postId kind resolved = some db') : Inv db' := by
  obtain ⟨hres, rfl⟩ := applyReferenceResolution_eq_some h
  refine inv_updatePost hinv rfl (fun q => Post.id_setRef ..) fun q hq hid kind' id hk => ?_
  by_cases hkind : kind' = kind
  · subst hkind
    rw [Post.ref_setRef, Option.some.injEq] at hk
    exact .inr (hk ▸ hres (hasPost_iff.mpr ⟨q, hq, hid⟩))
  · rw [Post.ref_setRef_of_ne _ _ hkind] at hk
    exact .inl hk

/-- A reference may be resolved later without a count only where no live post is referred to,
before or after, or nothing changes. -/
def ResolutionSound (db : Tables) (postId : Int64) (kind : ReferenceKind) (resolved : Int64) :
    Prop :=
  ∀ p ∈ db.posts, p.id = postId → p.deleted = true ∨ p.ref kind = some resolved ∨
    (¬ Live db resolved ∧ ∀ old, p.ref kind = some old → ¬ Live db old)

/-- How the resolution moves a live reference of `p`; the counters stay. -/
theorem refs_resolution (hinv : Inv db) {p : Post} (hp : p ∈ db.posts) (kind : ReferenceKind)
    (resolved : Int64) (kind' : ReferenceKind) (id : Int64) :
    refs (db.updatePost p.id fun q => q.setRef kind (some resolved)) kind' id +
        (if p.deleted = false ∧ p.ref kind' = some id then 1 else 0) =
      refs db.posts kind' id +
        (if p.deleted = false ∧ (p.setRef kind (some resolved)).ref kind' = some id then 1 else 0) := by
  have hcount := countP_updatePost hinv hp (fun q => q.setRef kind (some resolved))
    fun r => !r.deleted && r.ref kind' == some id
  simp only [Post.deleted_setRef, Bool.and_eq_true, Bool.not_eq_true', beq_iff_eq] at hcount
  exact hcount

theorem notes_resolution (a : Int64) :
    notes (db.updatePost postId fun q => q.setRef kind (some resolved)) a = notes db.posts a :=
  notes_map (fun p _ => onId_column Post.deleted (fun _ => Post.deleted_setRef ..) p)
    (fun p _ => onId_column Post.actorId (fun _ => Post.actorId_setRef ..) p) a

/-- The counters are right after the resolution where the live references to live posts are as
many as before. -/
theorem right_resolution_iff_refs (hright : CountersRight db) :
    CountersRight { db with posts := db.updatePost postId fun q => q.setRef kind (some resolved) } ↔
      ∀ kind' id, Live db id →
        refs (db.updatePost postId fun q => q.setRef kind (some resolved)) kind' id =
          refs db.posts kind' id := by
  have hlive (id : Int64) : Live { db with
      posts := db.updatePost postId fun q => q.setRef kind (some resolved) } id ↔ Live db id :=
    live_map rfl (onId_eq fun _ => Post.id_setRef ..)
      (fun q _ => onId_column Post.deleted (fun _ => Post.deleted_setRef ..) q) id
  rw [countersRight_iff, and_iff_left fun a => (hright.notes a).trans (notes_resolution a).symm]
  constructor
  · intro hafter kind' id hid
    exact (hafter kind' id ((hlive id).mpr hid)).symm.trans (hright.of_live kind' hid)
  · intro hrefs kind' id hid
    have hid' := (hlive id).mp hid
    exact (hright.of_live kind' hid').trans (hrefs kind' id hid').symm

theorem right_resolution_iff (hinv : Inv db) (hright : CountersRight db)
    (h : db.applyReferenceResolution postId kind resolved = some db') :
    CountersRight db' ↔ ResolutionSound db postId kind resolved := by
  obtain ⟨-, rfl⟩ := applyReferenceResolution_eq_some h
  rw [right_resolution_iff_refs hright]
  constructor
  · intro hrefs p hp hid
    subst hid
    by_contra hnot
    rw [not_or, not_or, Bool.not_eq_true] at hnot
    obtain ⟨hlive, hchange, hnone⟩ := hnot
    refine hnone ⟨fun hres => ?_, fun old hold hlold => ?_⟩
    · have hcount := refs_resolution hinv hp kind resolved kind resolved
      rw [hrefs kind resolved hres, Post.ref_setRef, if_neg fun h => hchange h.2,
        if_pos ⟨hlive, rfl⟩] at hcount
      omega
    · have hcount := refs_resolution hinv hp kind resolved kind old
      have hne : some resolved ≠ some old := fun heq => hchange (hold.trans heq.symm)
      rw [hrefs kind old hlold, Post.ref_setRef, if_pos ⟨hlive, hold⟩, if_neg fun h => hne h.2]
        at hcount
      omega
  · intro hsound kind' id hlid
    by_cases hpost : db.hasPost postId = true
    · obtain ⟨p, hp, rfl⟩ := hasPost_iff.mp hpost
      have hcount := refs_resolution hinv hp kind resolved kind' id
      suffices (p.deleted = false ∧ p.ref kind' = some id) ↔
          (p.deleted = false ∧ (p.setRef kind (some resolved)).ref kind' = some id) by
        by_cases hc : p.deleted = false ∧ p.ref kind' = some id
        · rw [if_pos hc, if_pos (this.mp hc)] at hcount
          omega
        · rw [if_neg hc, if_neg fun h => hc (this.mpr h)] at hcount
          omega
      by_cases hkind : kind' = kind
      · subst hkind
        rw [Post.ref_setRef]
        obtain hdel | hsame | ⟨hres, hold⟩ := hsound p hp rfl
        · simp [hdel]
        · rw [hsame]
        · refine iff_of_false (fun h => hold id h.2 hlid) fun h => hres ?_
          rw [Option.some.inj h.2]
          exact hlid
      · rw [Post.ref_setRef_of_ne _ _ hkind]
    · rw [updatePost_eq_key, map_update_of_ne]
      intro q hq heq
      exact hpost (hasPost_iff.mpr ⟨q, hq, heq⟩)

end Resolution

section Bulk

variable {db : Tables}

/-- Where a statement deletes a live post without the count of its author, the author has a live
post too few. -/
theorem not_right_of_delete {db' : Tables} {f : Post → Post} (hright : CountersRight db)
    (hposts : db'.posts = db.posts.map f) (hnotes : db'.notesCount = db.notesCount)
    (hactor : ∀ p, (f p).actorId = p.actorId)
    (hdeleted : ∀ p, p.deleted = true → (f p).deleted = true) {p : Post} (hp : p ∈ db.posts)
    (hlive : p.deleted = false) (hgone : (f p).deleted = true) : ¬ CountersRight db' := by
  intro hright'
  have hafter := hright'.notes p.actorId
  rw [hnotes, hright.notes p.actorId, hposts] at hafter
  have hless : notes (db.posts.map f) p.actorId < notes db.posts p.actorId := by
    unfold notes
    rw [List.countP_map]
    refine countP_lt_countP (fun q _ hq => ?_) hp (by simp [hlive]) (by simp [hgone])
    rw [Function.comp_apply, Bool.and_eq_true, Bool.not_eq_true', hactor] at hq
    rw [Bool.and_eq_true, Bool.not_eq_true']
    refine ⟨?_, hq.2⟩
    by_contra hdel
    rw [hdeleted q (by simpa using hdel)] at hq
    cases hq.1
  omega

variable {survivor doomed : Int64} {ap uri : String}

theorem inv_finalizePostMerge (hinv : Inv db) :
    Inv (db.finalizePostMerge survivor doomed ap uri) :=
  inv_map hinv posts_finalizePostMerge finalizedRow_id fun p _ kind _ hk =>
    .inl ((finalizedRow_ref kind p).symm.trans hk)

/-- The trigger of a row that was deleted before does nothing. -/
theorem relationCount_finalizePostMerge (h : ∀ p ∈ db.posts, p.id = doomed → p.deleted = true) :
    (db.finalizePostMerge survivor doomed ap uri).relationCount = db.relationCount := by
  have hfind : ((db.posts.map (onId doomed clearUris)).map (onId survivor (takeUris ap uri))).find?
      (fun p => p.id == doomed && !p.deleted) = none := by
    rw [List.map_map, List.find?_eq_none]
    intro q hq
    obtain ⟨p, hp, rfl⟩ := List.mem_map.mp hq
    rw [Function.comp_apply, onId_eq (f := takeUris ap uri) fun _ => rfl,
      onId_eq (f := clearUris) fun _ => rfl,
      onId_column (f := takeUris ap uri) Post.deleted fun _ => rfl,
      onId_column (f := clearUris) Post.deleted fun _ => rfl, Bool.and_eq_true, beq_iff_eq,
      Bool.not_eq_true']
    intro hcond
    rw [h p hp hcond.1] at hcond
    cases hcond.2
  unfold Tables.finalizePostMerge
  dsimp only
  split
  · rename_i p hp
    cases hfind.symm.trans hp
  · rfl

/-- `finalize_post_merge` does not count the post it deletes. -/
theorem right_finalizePostMerge_iff (hright : CountersRight db) :
    CountersRight (db.finalizePostMerge survivor doomed ap uri) ↔
      ∀ p ∈ db.posts, p.id = doomed → p.deleted = true := by
  constructor
  · intro hright' p hp hid
    by_contra hlive
    rw [Bool.not_eq_true] at hlive
    refine not_right_of_delete hright posts_finalizePostMerge rfl finalizedRow_actorId
      (fun q hq => ?_) hp hlive ?_ hright'
    · rw [finalizedRow_deleted, hq, Bool.true_or]
    · rw [finalizedRow_deleted, beq_iff_eq.mpr hid, Bool.or_true]
  · intro h
    refine right_of_map posts_finalizePostMerge finalizedRow_id (fun p _ => finalizedRow_actorId p)
      (fun p hp => ?_) (fun p _ kind => finalizedRow_ref kind p)
      (relationCount_finalizePostMerge h) rfl hright
    rw [finalizedRow_deleted]
    by_cases hid : p.id = doomed
    · rw [h p hp hid, Bool.true_or]
    · rw [beq_eq_false_iff_ne.mpr hid, Bool.or_false]

/-- The row after an actor has left -/
def withdrawnRow (actorId : Int64) (p : Post) : Post :=
  if p.actorId == actorId && !p.deleted then { p with deleted := true } else p

theorem posts_withdrawLocalActor (actorId : Int64) :
    (db.withdrawLocalActor actorId).posts = db.posts.map (withdrawnRow actorId) := rfl

theorem withdrawnRow_column {α : Type} (column : Post → α)
    (h : ∀ p, column { p with deleted := true } = column p) (actorId : Int64) (p : Post) :
    column (withdrawnRow actorId p) = column p := by
  unfold withdrawnRow
  split
  · exact h p
  · rfl

theorem inv_withdrawLocalActor (hinv : Inv db) (actorId : Int64) :
    Inv (db.withdrawLocalActor actorId) :=
  inv_map hinv (posts_withdrawLocalActor actorId)
    (withdrawnRow_column Post.id (fun _ => rfl) actorId) fun p _ kind id hk =>
      .inl ((withdrawnRow_column (Post.ref · kind) (fun _ => by cases kind <;> rfl) actorId p).symm.trans
        hk)

/-- Neither does `withdraw_local_actor`. -/
theorem right_withdrawLocalActor_iff (hright : CountersRight db) (actorId : Int64) :
    CountersRight (db.withdrawLocalActor actorId) ↔
      ∀ p ∈ db.posts, p.actorId = actorId → p.deleted = true := by
  have hactor := withdrawnRow_column Post.actorId (fun _ => rfl) actorId
  constructor
  · intro hright' p hp hauthor
    by_contra hlive
    rw [Bool.not_eq_true] at hlive
    refine not_right_of_delete hright (posts_withdrawLocalActor actorId) rfl hactor
      (fun q hq => ?_) hp hlive ?_ hright'
    · unfold withdrawnRow
      rw [if_neg (by simp [hq])]
      exact hq
    · unfold withdrawnRow
      rw [if_pos (by simp [hauthor, hlive])]
  · intro h
    have hstay {p : Post} (hp : p ∈ db.posts) : (p.actorId == actorId && !p.deleted) = false := by
      by_cases hauthor : p.actorId = actorId
      · rw [h p hp hauthor, Bool.not_true, Bool.and_false]
      · rw [beq_eq_false_iff_ne.mpr hauthor, Bool.false_and]
    have hrow {p : Post} (hp : p ∈ db.posts) : withdrawnRow actorId p = p := by
      unfold withdrawnRow
      rw [hstay hp, if_neg Bool.false_ne_true]
    refine right_of_map (posts_withdrawLocalActor actorId)
      (withdrawnRow_column Post.id (fun _ => rfl) actorId) (fun p hp => by rw [hrow hp])
      (fun p hp => by rw [hrow hp]) (fun p hp kind => by rw [hrow hp]) ?_ rfl hright
    funext kind id
    show db.relationCount kind id - db.posts.countP (fun p =>
      (p.actorId == actorId && !p.deleted) && p.ref kind == some id) = db.relationCount kind id
    rw [List.countP_eq_zero.mpr, Nat.sub_zero]
    intro p hp
    rw [hstay hp, Bool.false_and]
    exact Bool.false_ne_true

end Bulk

end Seiran.Posts
