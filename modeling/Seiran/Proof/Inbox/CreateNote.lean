import Mathlib.Data.List.Infix
import Seiran.Model.Inbox.CreateNote

/-!
# A note that is retried

* `Statement.Idle`: when a statement changes nothing;
* `execAll_eq_self_iff`: the statements after the transaction change nothing only where
  each of them changes nothing;
* `insertRemoteWithDedup_spec`: what is stored beside the row when it has been written;
* `extras_complete_iff`: what is stored after the attempts is what the first one would have
  stored where the attempt that writes the row is not cut off before its statements are done.
-/

namespace Seiran.CreateNote

open Mention (Text Unicode pushNew)
open Posts (Post schema)
open Posts.Arrivals (Proc hasUri insertOrSkip)

variable {W : World} {x y : Extras} {st : Statement} {sts : List Statement}

/-! ## Statements that change nothing -/

section Tags

variable {α : Type} [DecidableEq α] {l tags : List α}

theorem prefix_pushNew (l : List α) (t : α) : l <+: pushNew l t := by
  rw [pushNew]
  split
  · exact List.prefix_rfl
  · exact List.prefix_append _ _

theorem prefix_foldl_pushNew : l <+: tags.foldl pushNew l := by
  induction tags generalizing l with
  | nil => exact List.prefix_rfl
  | cons t tags ih => exact (prefix_pushNew l t).trans ih

theorem mem_foldl_pushNew {t : α} (ht : t ∈ tags) : t ∈ tags.foldl pushNew l := by
  induction tags generalizing l with
  | nil => cases ht
  | cons u tags ih =>
    rcases List.mem_cons.mp ht with rfl | ht
    · have hmem : t ∈ pushNew l t := by
        rw [pushNew]
        split <;> simp [*]
      exact (prefix_foldl_pushNew (l := pushNew l t)).subset hmem
    · exact ih ht

theorem foldl_pushNew_eq_self : tags.foldl pushNew l = l ↔ ∀ t ∈ tags, t ∈ l := by
  constructor
  · intro h t ht
    have hmem : t ∈ tags.foldl pushNew l := mem_foldl_pushNew ht
    rwa [h] at hmem
  · intro h
    induction tags with
    | nil => rfl
    | cons t tags ih =>
      have ht : pushNew l t = l := if_pos (h t List.mem_cons_self)
      rw [List.foldl_cons, ht]
      exact ih fun u hu => h u (List.mem_cons_of_mem _ hu)

end Tags

/-- The statement finds everything as it would leave it. -/
def Statement.Idle (W : World) (x : Extras) : Statement → Prop
  | .dmRecipientResolve _ => True
  | .linkBridgePosts => True
  | .setFediContentMetadata contentWarning poll =>
    x.contentWarning = contentWarning ∧ x.poll = poll
  | .linkPost hashtags => ∀ t ∈ hashtags, t ∈ x.hashtags
  | .insertLinkCard card => ∃ c ∈ x.linkCards, c.position = card.position
  | .enqueueOgpFetch _ => False
  | .attachRemoteMediaUrl media => ∃ a ∈ x.attachments, a.position = media.position
  | .notify n => W.actorIsHidden n.recipientActorId n.notifierActorId = true

theorem exec_eq_self_iff : st.exec W x = x ↔ st.Idle W x := by
  obtain ⟨contentWarning, poll, hashtags, linkCards, ogpFetches, attachments, notifs⟩ := x
  cases st with
  | dmRecipientResolve uri => exact iff_of_true rfl trivial
  | linkBridgePosts => exact iff_of_true rfl trivial
  | setFediContentMetadata cw p =>
    simp only [Statement.exec, Statement.Idle, Extras.mk.injEq, and_true]
    exact and_congr eq_comm eq_comm
  | linkPost tags =>
    simp only [Statement.exec, Statement.Idle, Extras.mk.injEq, true_and, and_true]
    exact foldl_pushNew_eq_self
  | insertLinkCard card =>
    simp only [Statement.exec, Statement.Idle]
    split <;> rename_i h <;> simpa using h
  | enqueueOgpFetch job => simp [Statement.exec, Statement.Idle]
  | attachRemoteMediaUrl media =>
    simp only [Statement.exec, Statement.Idle]
    split <;> rename_i h <;> simpa using h
  | notify n =>
    simp only [Statement.exec, Statement.Idle]
    split <;> rename_i h <;> simp [h]

/-- Rows and jobs are only added. -/
structure Extras.Grows (x y : Extras) : Prop where
  hashtags : x.hashtags <+: y.hashtags
  linkCards : x.linkCards <+: y.linkCards
  ogpFetches : x.ogpFetches <+: y.ogpFetches
  attachments : x.attachments <+: y.attachments
  notifications : x.notifications <+: y.notifications

theorem Extras.Grows.refl (x : Extras) : x.Grows x :=
  ⟨List.prefix_rfl, List.prefix_rfl, List.prefix_rfl, List.prefix_rfl, List.prefix_rfl⟩

theorem Extras.Grows.trans {z : Extras} (h : x.Grows y) (h' : y.Grows z) : x.Grows z :=
  ⟨h.hashtags.trans h'.hashtags, h.linkCards.trans h'.linkCards,
    h.ogpFetches.trans h'.ogpFetches, h.attachments.trans h'.attachments,
    h.notifications.trans h'.notifications⟩

theorem eq_of_prefixes {α : Type} {l l' : List α} (h : l <+: l') (h' : l' <+: l) : l' = l :=
  (h.eq_of_length_le h'.length_le).symm

theorem Extras.Grows.eq (h : x.Grows y) (h' : y.Grows x)
    (hwarning : y.contentWarning = x.contentWarning) (hpoll : y.poll = x.poll) : y = x := by
  have hh := eq_of_prefixes h.hashtags h'.hashtags
  have hl := eq_of_prefixes h.linkCards h'.linkCards
  have ho := eq_of_prefixes h.ogpFetches h'.ogpFetches
  have ha := eq_of_prefixes h.attachments h'.attachments
  have hn := eq_of_prefixes h.notifications h'.notifications
  cases x
  cases y
  simp_all

theorem grows_exec : x.Grows (st.exec W x) := by
  have hrefl := Extras.Grows.refl x
  cases st with
  | dmRecipientResolve uri => exact hrefl
  | linkBridgePosts => exact hrefl
  | setFediContentMetadata cw p => exact { hrefl with }
  | linkPost tags => exact { hrefl with hashtags := prefix_foldl_pushNew }
  | insertLinkCard card =>
    rw [Statement.exec]
    split
    · exact hrefl
    · exact { hrefl with linkCards := List.prefix_append _ _ }
  | enqueueOgpFetch job => exact { hrefl with ogpFetches := List.prefix_append _ _ }
  | attachRemoteMediaUrl media =>
    rw [Statement.exec]
    split
    · exact hrefl
    · exact { hrefl with attachments := List.prefix_append _ _ }
  | notify n =>
    rw [Statement.exec]
    split
    · exact hrefl
    · exact { hrefl with notifications := List.prefix_append _ _ }

theorem grows_execAll : x.Grows (execAll W x sts) := by
  induction sts generalizing x with
  | nil => exact Extras.Grows.refl x
  | cons st sts ih => exact grows_exec.trans ih

theorem exec_metadata (hst : st.isMetadata = false) :
    (st.exec W x).contentWarning = x.contentWarning ∧ (st.exec W x).poll = x.poll := by
  cases st with
  | setFediContentMetadata cw p => cases hst
  | insertLinkCard card => rw [Statement.exec]; split <;> exact ⟨rfl, rfl⟩
  | attachRemoteMediaUrl media => rw [Statement.exec]; split <;> exact ⟨rfl, rfl⟩
  | notify n => rw [Statement.exec]; split <;> exact ⟨rfl, rfl⟩
  | _ => exact ⟨rfl, rfl⟩

theorem execAll_metadata (hsts : sts.countP Statement.isMetadata = 0) :
    (execAll W x sts).contentWarning = x.contentWarning ∧ (execAll W x sts).poll = x.poll := by
  induction sts generalizing x with
  | nil => exact ⟨rfl, rfl⟩
  | cons st sts ih =>
    have hnone := List.countP_eq_zero.mp hsts
    have hst := exec_metadata (W := W) (x := x) (by simpa using hnone st List.mem_cons_self)
    have hrest := ih (x := st.exec W x) (List.countP_eq_zero.mpr fun u hu =>
      hnone u (List.mem_cons_of_mem _ hu))
    exact ⟨hrest.1.trans hst.1, hrest.2.trans hst.2⟩

/-- The first of some statements that change nothing together changes nothing. -/
theorem exec_eq_self_of_execAll (hone : (st :: sts).countP Statement.isMetadata ≤ 1)
    (h : execAll W x (st :: sts) = x) : st.exec W x = x := by
  have hback : (st.exec W x).Grows x := by
    have hgrows : (st.exec W x).Grows (execAll W (st.exec W x) sts) := grows_execAll
    rwa [show execAll W (st.exec W x) sts = x from h] at hgrows
  cases hst : st.isMetadata with
  | false =>
    obtain ⟨hwarning, hpoll⟩ := exec_metadata (W := W) (x := x) hst
    exact grows_exec.eq hback hwarning hpoll
  | true =>
    have hrest : sts.countP Statement.isMetadata = 0 := by
      rw [List.countP_cons_of_pos hst] at hone
      omega
    obtain ⟨hwarning, hpoll⟩ := execAll_metadata (W := W) (x := st.exec W x) hrest
    rw [show execAll W (st.exec W x) sts = x from h] at hwarning hpoll
    exact grows_exec.eq hback hwarning.symm hpoll.symm

theorem execAll_eq_self_iff (hone : sts.countP Statement.isMetadata ≤ 1) :
    execAll W x sts = x ↔ ∀ st ∈ sts, st.Idle W x := by
  induction sts with
  | nil => simp [execAll]
  | cons st sts ih =>
    have hle : sts.countP Statement.isMetadata ≤ 1 :=
      ((List.sublist_cons_self st sts).countP_le).trans hone
    rw [List.forall_mem_cons, ← ih hle, ← exec_eq_self_iff]
    constructor
    · intro h
      have hst := exec_eq_self_of_execAll hone h
      have hrest : execAll W (st.exec W x) sts = x := h
      rw [hst] at hrest
      exact ⟨hst, hrest⟩
    · rintro ⟨hst, hrest⟩
      show execAll W (st.exec W x) sts = x
      rw [hst]
      exact hrest

theorem execAll_append (sts' : List Statement) :
    execAll W x (sts ++ sts') = execAll W (execAll W x sts) sts' :=
  List.foldl_append

theorem countP_linkCardStatements (note : Json) (noteId : String) (p : Prepared) :
    (linkCardStatements W note noteId p).countP Statement.isMetadata = 0 := by
  rw [List.countP_eq_zero]
  intro st hst
  rw [linkCardStatements] at hst
  split at hst <;> obtain ⟨c, -, rfl⟩ := List.mem_map.mp hst <;> simp [Statement.isMetadata]

theorem countP_statements (note : Json) (noteId : String) (p : Prepared) :
    (statements W note noteId p).countP Statement.isMetadata ≤ 1 := by
  have hmap {α : Type} (f : α → Statement) (l : List α) (hf : ∀ a, (f a).isMetadata = false) :
      (l.map f).countP Statement.isMetadata = 0 := by
    rw [List.countP_eq_zero]
    intro st hst
    obtain ⟨a, -, rfl⟩ := List.mem_map.mp hst
    simp [hf]
  simp only [statements, storeNoteExtras, List.countP_append, List.countP_cons,
    countP_linkCardStatements]
  rw [hmap _ _ fun _ => rfl, hmap _ _ fun _ => rfl, hmap _ _ fun _ => rfl]
  simp [Statement.isMetadata]

/-! ## The row -/

section Row

variable {db db' : Db} {c : Create} {p : Prepared} {id postId : Int64} {posts : List Post}

/-- What is stored beside the row that `insert_remote_with_dedup` leaves -/
def Db.rowExtras (db : Db) (c : Create) (p : Prepared) : Extras :=
  match (arrival c p 0).target db.posts with
  | some existing => db.extras existing.id
  | none => {}

theorem findId_isSome_iff {uri : String} : (db.findId uri).isSome ↔ hasUri db.posts uri = true := by
  rw [Db.findId, Option.isSome_map, List.find?_isSome, hasUri, List.any_eq_true]

theorem extrasOf_modifyExtras {uri : String} {f : Extras → Extras} (h : db.findId uri = some postId) :
    (db.modifyExtras postId f).extrasOf uri = some (f (db.extras postId)) := by
  show ((db.findId uri).map fun i => Function.update db.extras postId (f (db.extras postId)) i) = _
  rw [h, Option.map_some, Function.update_self]

theorem not_matches (hnew : hasUri db.posts c.noteId = false) {q : Post} (hq : q ∈ db.posts) :
    (q.apObjectId == some c.noteId || q.atUri == some c.noteId) = false := by
  simpa using List.any_eq_false.mp hnew q hq

theorem target_mem {pr : Proc} {q : Post} (h : pr.target posts = some q) : q ∈ posts := by
  have hfind {found : Option Post} {P : Post → Bool} (hf : found.filter P = some q)
      (hmem : ∀ r, found = some r → r ∈ posts) : q ∈ posts :=
    hmem q (Option.filter_eq_some_iff.mp hf).1
  rw [Proc.target] at h
  split at h
  · refine hfind h fun r hr => ?_
    obtain ⟨uri, -, hr⟩ := Option.bind_eq_some_iff.mp hr
    exact List.mem_of_find?_eq_some hr
  · exact hfind h fun r hr => List.mem_of_find?_eq_some hr
  · refine hfind h fun r hr => ?_
    obtain ⟨ap, -, hr⟩ := Option.bind_eq_some_iff.mp hr
    exact List.mem_of_find?_eq_some hr

/-- The row that has been given the URI is the one with it. -/
theorem findId_set {q : Post} {f : Post → Post} {extras : Int64 → Extras}
    (hnew : hasUri db.posts c.noteId = false) (hq : q ∈ db.posts)
    (hf : (f q).apObjectId = some c.noteId) (hid : ∀ r, (f r).id = r.id) :
    (Db.mk (schema.set db.posts q.id f) extras).findId c.noteId = some q.id := by
  have hsome : ((schema.set db.posts q.id f).find? fun r =>
      r.apObjectId == some c.noteId || r.atUri == some c.noteId).isSome := by
    rw [List.find?_isSome]
    exact ⟨f q, schema.mem_set_of_eq hq rfl, by simp [hf]⟩
  obtain ⟨r', hr'⟩ := Option.isSome_iff_exists.mp hsome
  obtain ⟨r, hr, hset⟩ := schema.mem_set.mp (List.mem_of_find?_eq_some hr')
  have hmatch := List.find?_some hr'
  show ((schema.set db.posts q.id f).find? fun r =>
      r.apObjectId == some c.noteId || r.atUri == some c.noteId).map Post.id = some q.id
  rw [hr', Option.map_some, ← hset]
  split
  · rename_i heq
    rw [hid]
    exact congrArg some heq
  · rename_i hne
    rw [if_neg hne] at hset
    subst hset
    rw [not_matches hnew hr] at hmatch
    cases hmatch

theorem not_any_apObjectId (hnew : hasUri db.posts c.noteId = false) :
    ¬ db.posts.any (fun r => r.apObjectId == some c.noteId) = true := by
  rw [List.any_eq_true]
  rintro ⟨r, hr, hap⟩
  have hno := not_matches hnew hr
  rw [hap] at hno
  cases hno

theorem findId_append {q : Post} {extras : Int64 → Extras}
    (hnew : hasUri db.posts c.noteId = false) (hq : q.apObjectId = some c.noteId)
    (hid : q.id = id) : (Db.mk (db.posts ++ [q]) extras).findId c.noteId = some id := by
  have hnone : db.posts.find? (fun r => r.apObjectId == some c.noteId || r.atUri == some c.noteId) =
      none := List.find?_eq_none.mpr fun r hr => by simp [not_matches hnew hr]
  show ((db.posts ++ [q]).find? fun r =>
      r.apObjectId == some c.noteId || r.atUri == some c.noteId).map Post.id = some id
  rw [List.find?_append, hnone]
  simp [hq, hid]

/-- The row that a note is written to, where there was none with its URI -/
theorem insertRemoteWithDedup_spec (hnew : hasUri db.posts c.noteId = false)
    (h : db.insertRemoteWithDedup c p id = some db') :
    ∃ postId, db'.findId c.noteId = some postId ∧ db'.extras postId = db.rowExtras c p := by
  obtain ⟨posts, hposts, rfl⟩ := Option.map_eq_some_iff.mp h
  have htarget : (arrival c p id).target db.posts = (arrival c p 0).target db.posts := rfl
  rw [htarget] at hposts
  rw [Db.rowExtras]
  cases hq : (arrival c p 0).target db.posts with
  | some q =>
    rw [hq] at hposts
    have hqmem := target_mem hq
    obtain ⟨-, rfl⟩ := schema.update_eq_some.mp hposts
    refine ⟨q.id, findId_set hnew hqmem rfl fun _ => rfl, ?_⟩
    dsimp only
    split
    · rfl
    · rename_i hid
      have hne : q.id ≠ id := fun heq => hid (List.any_eq_true.mpr ⟨q, hqmem, by simp [heq]⟩)
      exact Function.update_of_ne hne _ _
  | none =>
    rw [hq] at hposts
    have hinsert : insertOrSkip db.posts (fun r => r.apObjectId == some c.noteId)
        { id, actorId := p.actorId, apObjectId := some c.noteId,
          claimedAtUri := p.seiranPost.bind SeiranPost.counterpartPostId } = some posts := hposts
    rw [insertOrSkip, if_neg (not_any_apObjectId hnew)] at hinsert
    obtain ⟨hunique, rfl⟩ := schema.insert_eq_some.mp hinsert
    refine ⟨id, findId_append hnew rfl rfl, ?_⟩
    have hfresh : db.posts.any (fun q => q.id == id) = false := by
      rw [List.any_eq_false]
      intro r hr hid
      have heq := hunique.eq_of_id (List.mem_append_left _ hr) (List.mem_append_right _
        (List.mem_singleton_self _)) (by simpa [schema] using hid)
      have hno := not_matches hnew hr
      rw [heq] at hno
      simp at hno
    dsimp only
    rw [hfresh]
    exact Function.update_self _ _ _

end Row

/-! ## Attempts -/

section Attempts

variable {db db' s : Db} {c : Create} {p : Prepared} {id first last : Int64} {cut : Option Cut}
  {act : Int64 × Cut} {attempts : List (Int64 × Cut)} {n : Nat}

/-- The attempt writes the row, if it gets that far. -/
def Db.Writes (db : Db) (c : Create) (p : Prepared) (id : Int64) : Prop :=
  hasUri db.posts c.noteId = false ∧ p.loopback = none ∧ (db.insertRemoteWithDedup c p id).isSome

/-- An attempt that writes the row is not cut off before a statement that changes something. -/
def Finished (W : World) (c : Create) (db : Db) (act : Int64 × Cut) : Prop :=
  match c.prepared, act.2 with
  | .ok p, .afterRow n => db.Writes c p act.1 →
      ∀ st ∈ (statements W c.note c.noteId p).drop n,
        st.Idle W (execAll W (db.rowExtras c p) ((statements W c.note c.noteId p).take n))
  | _, _ => True

theorem handle_of_hasUri (h : hasUri db.posts c.noteId = true) :
    handleCreateNote W c id cut db = (.alreadyExists, db) := by
  rw [handleCreateNote, if_pos h]

/-- Without a row of the note, an attempt that does not write it changes nothing. -/
theorem handle_of_not_writes (h : ∀ p, c.prepared = .ok p → ¬ db.Writes c p id) :
    (handleCreateNote W c id cut db).2 = db := by
  rw [handleCreateNote]
  split
  · rfl
  · rename_i hnew
    split
    · rfl
    · rename_i p hp
      split
      · rfl
      · rename_i hloop
        split
        · rfl
        · have hno : db.insertRemoteWithDedup c p id = none := by
            by_contra hsome
            exact h p hp ⟨by simpa using hnew, by simpa using hloop,
              Option.isSome_iff_ne_none.mpr hsome⟩
          rw [hno]

theorem handle_beforeRow : (handleCreateNote W c id (some .beforeRow) db).2 = db := by
  rw [handleCreateNote]
  split
  · rfl
  · split
    · rfl
    · split
      · rfl
      · rw [if_pos rfl]

/-- The statements that are done where the row is written -/
def carriedOut (sts : List Statement) : Option Cut → List Statement
  | none => sts
  | some .beforeRow => []
  | some (.afterRow n) => sts.take n

theorem handle_of_writes (hp : c.prepared = .ok p) (h : db.Writes c p id)
    (hcut : cut ≠ some .beforeRow) :
    (handleCreateNote W c id cut db).2.extrasOf c.noteId = some (execAll W (db.rowExtras c p)
      (carriedOut (statements W c.note c.noteId p) cut)) := by
  obtain ⟨hnew, hloop, hsome⟩ := h
  obtain ⟨db', hdb'⟩ := Option.isSome_iff_exists.mp hsome
  obtain ⟨postId, hfind, hextras⟩ := insertRemoteWithDedup_spec hnew hdb'
  rw [handleCreateNote, hnew, hp]
  simp only [Bool.false_eq_true, if_false, hloop, Option.isSome_none, hcut, hdb', hfind]
  cases cut with
  | none =>
    dsimp only
    rw [extrasOf_modifyExtras hfind, hextras]
    rfl
  | some cut =>
    cases cut with
    | beforeRow => exact absurd rfl hcut
    | afterRow n =>
      dsimp only
      rw [extrasOf_modifyExtras hfind, hextras]
      rfl

theorem hasUri_of_extrasOf {uri : String} (h : (db.extrasOf uri).isSome) :
    hasUri db.posts uri = true := by
  rw [← findId_isSome_iff]
  rwa [Db.extrasOf, Option.isSome_map] at h

theorem machine_step : (machine W c).step db act =
    some (handleCreateNote W c act.1 (some act.2) db).2 := rfl

theorem not_writes_of_hasUri (h : hasUri db.posts c.noteId = true) (p : Prepared) (id : Int64) :
    ¬ db.Writes c p id := by
  rintro ⟨hnew, -⟩
  rw [h] at hnew
  cases hnew

theorem along_of_not_writes (h : ∀ p id, c.prepared = .ok p → ¬ db.Writes c p id) :
    (machine W c).Along (Finished W c) db attempts := by
  induction attempts with
  | nil => trivial
  | cons act attempts ih =>
    refine ⟨?_, fun s' hs => ?_⟩
    · rw [Finished]
      split
      · rename_i p n hp hn
        exact fun hw => absurd hw (h p _ hp)
      · trivial
    · rw [machine_step, handle_of_not_writes fun p => h p _] at hs
      cases hs
      exact ih

theorem run_of_not_writes (h : ∀ p id, c.prepared = .ok p → ¬ db.Writes c p id)
    (hrun : (machine W c).run db attempts = some s) : s = db := by
  refine (machine W c).run_inv (I := fun s => s = db) (fun hI hs => ?_) rfl hrun
  cases hI
  rw [machine_step, handle_of_not_writes fun p => h p _] at hs
  exact (Option.some.inj hs).symm

/-- An attempt that succeeds and does not find the row writes it, except for a note of this
server. -/
theorem writes_of_succeeds (hnew : hasUri db.posts c.noteId = false)
    (h : (handleCreateNote W c id none db).1 ≠ .failed) :
    ∃ p, c.prepared = .ok p ∧ (p.loopback = none → db.Writes c p id) := by
  rw [handleCreateNote, hnew] at h
  simp only [Bool.false_eq_true, if_false] at h
  split at h
  · exact absurd rfl h
  · rename_i p hp
    refine ⟨p, hp, fun hloop => ⟨hnew, hloop, ?_⟩⟩
    rw [hloop] at h
    by_contra hno
    rw [Option.not_isSome_iff_eq_none.mp hno] at h
    exact h rfl

theorem written_step (hp : c.prepared = .ok p) (hw : db.Writes c p act.1)
    (hcut : act.2 ≠ .beforeRow) (hs : (machine W c).step db act = some s) :
    s.extrasOf c.noteId = some (execAll W (db.rowExtras c p)
      (carriedOut (statements W c.note c.noteId p) (some act.2))) := by
  cases hs
  exact handle_of_writes hp hw fun h => hcut (Option.some.inj h)

theorem finished_afterRow (hp : c.prepared = .ok p) :
    Finished W c db (id, .afterRow n) ↔ (db.Writes c p id →
      ∀ st ∈ (statements W c.note c.noteId p).drop n,
        st.Idle W (execAll W (db.rowExtras c p) ((statements W c.note c.noteId p).take n))) := by
  rw [Finished, hp]

theorem finished_of_not_writes (hp : c.prepared = .ok p)
    (h : ¬ (db.Writes c p act.1 ∧ act.2 ≠ .beforeRow)) : Finished W c db act := by
  obtain ⟨id, cut⟩ := act
  cases cut with
  | beforeRow =>
    rw [Finished, hp]
    trivial
  | afterRow n =>
    rw [finished_afterRow hp]
    exact fun hw => absurd ⟨hw, nofun⟩ h

theorem finished_iff (hp : c.prepared = .ok p) (hw : db.Writes c p act.1)
    (hcut : act.2 ≠ .beforeRow) :
    execAll W (db.rowExtras c p) (carriedOut (statements W c.note c.noteId p) (some act.2)) =
        execAll W (db.rowExtras c p) (statements W c.note c.noteId p) ↔
      Finished W c db act := by
  obtain ⟨id, cut⟩ := act
  cases cut with
  | beforeRow => exact absurd rfl hcut
  | afterRow n =>
    have hall : execAll W (db.rowExtras c p) (statements W c.note c.noteId p) =
        execAll W (execAll W (db.rowExtras c p) ((statements W c.note c.noteId p).take n))
          ((statements W c.note c.noteId p).drop n) := by
      rw [← execAll_append, List.take_append_drop]
    have hone : ((statements W c.note c.noteId p).drop n).countP Statement.isMetadata ≤ 1 :=
      (List.drop_sublist _ _).countP_le.trans (countP_statements _ _ _)
    rw [finished_afterRow hp, forall_prop_of_true hw, ← execAll_eq_self_iff hone, hall]
    exact eq_comm

/-- What the attempts store, while the row is not there at first -/
theorem extras_run_iff (hp : c.prepared = .ok p) (hloop : p.loopback = none)
    (hnew : hasUri db.posts c.noteId = false) (hrun : (machine W c).run db attempts = some s)
    (hlast : (handleCreateNote W c last none s).1 ≠ .failed) :
    (handleCreateNote W c last none s).2.extrasOf c.noteId =
        some (execAll W (db.rowExtras c p) (statements W c.note c.noteId p)) ↔
      (machine W c).Along (Finished W c) db attempts := by
  induction attempts generalizing db with
  | nil =>
    cases hrun
    obtain ⟨p', hp', hw⟩ := writes_of_succeeds hnew hlast
    cases hp.symm.trans hp'
    have hdone := handle_of_writes (W := W) hp (hw hloop) (show none ≠ some Cut.beforeRow by simp)
    rw [hdone]
    exact iff_of_true rfl trivial
  | cons act attempts ih =>
    obtain ⟨s', hs, hrun'⟩ := (machine W c).run_cons_eq_some.mp hrun
    have halong : (machine W c).Along (Finished W c) db (act :: attempts) ↔
        Finished W c db act ∧ (machine W c).Along (Finished W c) s' attempts :=
      and_congr_right fun _ => ⟨fun h => h s' hs, fun h u hu => by
        rw [hs] at hu
        cases hu
        exact h⟩
    rw [halong]
    by_cases hw : db.Writes c p act.1 ∧ act.2 ≠ .beforeRow
    · have hstored := written_step hp hw.1 hw.2 hs
      have hthere : hasUri s'.posts c.noteId = true :=
        hasUri_of_extrasOf (by rw [hstored]; rfl)
      cases run_of_not_writes (fun p id _ => not_writes_of_hasUri hthere p id) hrun'
      rw [handle_of_hasUri hthere, hstored, Option.some.injEq, finished_iff hp hw.1 hw.2]
      exact (and_iff_left (along_of_not_writes fun p id _ => not_writes_of_hasUri hthere p id)).symm
    · have hsame : s' = db := by
        rw [machine_step, Option.some.injEq] at hs
        rw [← hs]
        by_cases hcut : act.2 = .beforeRow
        · rw [hcut, handle_beforeRow]
        · refine handle_of_not_writes fun p' hp' hw' => hw ⟨?_, hcut⟩
          cases hp.symm.trans hp'
          exact hw'
      rw [hsame] at hrun' ⊢
      rw [and_iff_right (finished_of_not_writes hp hw)]
      exact ih hnew hrun'

/-- After some attempts that are cut off and one that succeeds, the same is stored beside the
note as after a first attempt that succeeds, exactly where the attempt that writes the row is
not cut off before a statement that changes something. -/
theorem extras_complete_iff (hfirst : (handleCreateNote W c first none db).1 ≠ .failed)
    (hrun : (machine W c).run db attempts = some s)
    (hlast : (handleCreateNote W c last none s).1 ≠ .failed) :
    (handleCreateNote W c last none s).2.extrasOf c.noteId =
        (handleCreateNote W c first none db).2.extrasOf c.noteId ↔
      (machine W c).Along (Finished W c) db attempts := by
  by_cases hnever : ∀ p id, c.prepared = .ok p → ¬ db.Writes c p id
  · cases run_of_not_writes hnever hrun
    rw [handle_of_not_writes fun p => hnever p _, handle_of_not_writes fun p => hnever p _]
    exact iff_of_true rfl (along_of_not_writes hnever)
  · simp only [not_forall, not_not] at hnever
    obtain ⟨p, id, hp, hnew, hloop, -⟩ := hnever
    obtain ⟨p', hp', hw⟩ := writes_of_succeeds hnew hfirst
    cases hp.symm.trans hp'
    rw [handle_of_writes hp (hw hloop) (by simp)]
    exact extras_run_iff hp hloop hnew hrun hlast

/-! ## A note with everything -/

section Example

/-- A local user 1, who wrote the post 10 -/
def oneUser : World where
  localDomain := "home".toList
  unicode := ⟨Char.isAlphanum, Char.isAlpha, Char.isWhitespace, Mention.toAsciiLowercase⟩
  findByUsername name := if name = "one".toList then some ⟨1, .localUser⟩ else none
  findDeliveryMeta postId := if postId = 10 then some ⟨1, .localUser⟩ else none
  actorIsHidden _ _ := false

/-- A question of 2 with a content warning, a picture, a link, a hashtag and a mention -/
def question : Create where
  noteId := "https://away/1"
  note := .obj [("attachment", .arr [.obj [("url", .str "https://away/cat.mp4")]]),
    ("oneOf", .arr [.obj [("name", .str "yes")]]), ("summary", .str "cats"),
    ("type", .str "Question")]
  prepared := .ok {
    actorId := 2
    body := "#Cat [a](http://b)".toList
    tags := [.obj [("href", .str "https://home/users/one"), ("type", .str "Mention")]]
    quoteOfPostId := some 10 }

def emptyDb : Db := ⟨[], fun _ => {}⟩

theorem extras_complete_iff_retried :
    ∃ s, (machine oneUser question).run emptyDb [(20, .beforeRow)] = some s ∧
      (handleCreateNote oneUser question 21 none s).2.extrasOf "https://away/1" =
        (handleCreateNote oneUser question 20 none emptyDb).2.extrasOf "https://away/1" := by
  have hr : (machine oneUser question).run emptyDb [(20, .beforeRow)] = some _ := rfl
  refine ⟨_, hr, (extras_complete_iff (by decide) hr (by decide)).mpr ⟨?_, fun _ _ => trivial⟩⟩
  trivial

/-- An attempt that ends after the transaction leaves a note without anything. -/
theorem extras_lost : ∃ s x, (machine oneUser question).run emptyDb [(20, .afterRow 0)] = some s ∧
    (handleCreateNote oneUser question 20 none emptyDb).1 = .inserted ∧
    (handleCreateNote oneUser question 21 none s).1 = .alreadyExists ∧
    (handleCreateNote oneUser question 20 none emptyDb).2.extrasOf "https://away/1" = some x ∧
    x.contentWarning = some "cats" ∧ x.poll.isSome ∧ x.hashtags = ["cat".toList] ∧
    x.ogpFetches = [⟨"http://b".toList, 0⟩] ∧
    x.attachments = [⟨"https://away/cat.mp4", some "video/mp4", false, 0⟩] ∧
    x.notifications = [⟨1, .quote, 2⟩, ⟨1, .mention, 2⟩] ∧
    (handleCreateNote oneUser question 21 none s).2.extrasOf "https://away/1" = some {} ∧
    x ≠ {} := by
  refine ⟨_, _, rfl, by decide, by decide, rfl, by decide, by decide, by decide, by decide,
    by decide, by decide, rfl, fun heq => ?_⟩
  have hnone := congrArg Extras.contentWarning heq
  revert hnone
  decide

end Example

end Attempts

end Seiran.CreateNote
