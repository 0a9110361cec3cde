import Mathlib.Logic.Relation
import Seiran.Framework.Except
import Seiran.Model.Notes.Reply

/-!
# The visibility of replies

* `resolveVisibility_of_parent`: a request does not choose the visibility of a
  reply to a direct or followers-only post;
* `Inv`: a post that was made in one of the two ways and is not public has no
  AT URI, and its replies take its visibility over;
* `Frame`, `inv_of_frame`: what the other writers leave as it is;
* `inv_run`: `Inv` holds after every run;
* `reply_visibility`: no reply down a chain is more visible than its parent.
-/

namespace Seiran.Notes

open Timeline

/-- The ones who see a post, from the fewest. -/
def rank : Visibility → Nat
  | .direct => 0
  | .followersOnly => 1
  | .unlisted => 2
  | .pub => 3

/-- Direct or followers only. -/
def IsPrivate (v : Visibility) : Prop := v = .direct ∨ v = .followersOnly

/-- `child` replies to `parent`, and both were made in one of the two ways. -/
def Replies (s : State) (parent child : Post) : Prop :=
  parent ∈ s.db.posts ∧ child ∈ s.db.posts ∧ parent.id ∈ s.made ∧ child.id ∈ s.made ∧
    child.replyToPostId = some parent.id

/-- Below a private parent, the visibility of the parent. -/
def Inherits (parent child : Visibility) : Prop := IsPrivate parent → child = parent

section Visibility

variable {ctx : ReplyContext} {v w : Visibility} {requested : Option String}

theorem resolveVisibility_of_parent (hv : ctx.parentVisibility = some v)
    (h : ctx.resolveVisibility requested = .ok w) : Inherits v w := by
  intro hp
  unfold ReplyContext.resolveVisibility at h
  rw [hv] at h
  obtain rfl | rfl := hp
  · cases h
    rfl
  · cases h
    rfl

theorem capVisibility_of_private (r : RoleRestriction) (h : IsPrivate v) :
    r.capVisibility v = v := by
  unfold RoleRestriction.capVisibility
  rw [if_neg]
  obtain rfl | rfl := h
  · simp
  · simp

theorem not_isPrivate_capVisibility_pub (r : RoleRestriction) :
    ¬ IsPrivate (r.capVisibility .pub) := by
  unfold RoleRestriction.capVisibility IsPrivate
  split <;> simp

theorem Inherits.capVisibility (r : RoleRestriction) (h : Inherits v w) :
    Inherits v (r.capVisibility w) := by
  intro hp
  rw [h hp, capVisibility_of_private r hp]

end Visibility

section Requests

variable {db : Tables}

theorem replyContext_ok {id viewer : Int64} {ctx : ReplyContext}
    (h : replyContext db id viewer = .ok ctx) :
    ∃ p ∈ db.posts, p.id = id ∧ ctx.parentVisibility = some p.visibility := by
  unfold replyContext at h
  split at h
  · cases h
  · rename_i p hp
    obtain ⟨_, -, h⟩ := bind_eq_ok.mp h
    cases h
    have hid := List.find?_some hp
    simp only [Bool.and_eq_true, beq_iff_eq] at hid
    exact ⟨p, List.mem_of_find?_eq_some hp, hid.1.1, rfl⟩

theorem resolveReplyContext_ok {text : String} {viewer : Int64} {ctx : ReplyContext}
    (h : resolveReplyContext db text viewer = .ok ctx) :
    ∃ p ∈ db.posts, parseI64 text = some p.id ∧ ctx.parentVisibility = some p.visibility := by
  unfold resolveReplyContext at h
  split at h
  · cases h
  · rename_i id hid
    obtain ⟨p, hp, rfl, hv⟩ := replyContext_ok h
    exact ⟨p, hp, hid, hv⟩

/-- What a validated request replies to is a row, whose visibility it inherits. -/
theorem validate_reply {role : Int64 → String} {actorId : Int64} {req : CreateNoteRequest}
    {v : ValidatedCreatePost} (h : validateCreateRegularPostInput db role actorId req = .ok v)
    {k : Int64} (hk : v.replyToId = some k) :
    ∃ p ∈ db.posts, p.id = k ∧ Inherits p.visibility v.visibility := by
  unfold validateCreateRegularPostInput at h
  obtain ⟨ctx, hctx, h⟩ := bind_eq_ok.mp h
  obtain ⟨w, hw, h⟩ := bind_eq_ok.mp h
  obtain ⟨recipients, -, h⟩ := bind_eq_ok.mp h
  obtain ⟨-, -, h⟩ := bind_eq_ok.mp h
  obtain ⟨-, -, h⟩ := bind_eq_ok.mp h
  cases h
  cases hr : req.replyToId with
  | none => simp [hr] at hk
  | some text =>
    rw [requestReplyContext, hr] at hctx
    rw [hr] at hk
    obtain ⟨p, hp, hid, hv⟩ := resolveReplyContext_ok hctx
    refine ⟨p, hp, ?_, (resolveVisibility_of_parent hv hw).capVisibility _⟩
    rw [Option.bind_some, hid, Option.some.injEq] at hk
    exact hk

theorem recordReply_ok {s : State} {actorId : Int64} {uri : Option String} {k : Int64}
    (h : s.recordReply actorId uri = .ok (some k)) : ∃ p ∈ s.db.posts, p.id = k ∧ p.atUri ≠ none := by
  unfold State.recordReply at h
  split at h
  · cases h
  · rename_i rid hrid
    obtain ⟨_, -, h⟩ := bind_eq_ok.mp h
    cases h
    obtain ⟨text, -, hfind⟩ := Option.bind_eq_some_iff.mp hrid
    obtain ⟨p, hp, rfl⟩ := Option.map_eq_some_iff.mp hfind
    have huri := List.find?_some hp
    rw [beq_iff_eq] at huri
    exact ⟨p, List.mem_of_find?_eq_some hp, rfl, by rw [huri]; simp⟩

end Requests

/-- What holds of the rows in every state. -/
structure Inv (s : State) : Prop where
  keys : (s.db.posts.map Post.id).Nodup
  ids : ∀ p ∈ s.db.posts, p.id ∈ s.ids
  made : ∀ id ∈ s.made, id ∈ s.ids
  references : ∀ p ∈ s.db.posts, ∀ k, p.replyToPostId = some k → k ∈ s.ids
  authors : ∀ p ∈ s.db.posts, p.id ∈ s.made → isLocalActor s.db p.actorId
  claims : ∀ c ∈ s.claims, c.1 ∈ s.ids ∧ c.1 ∉ s.made
  merges : ∀ m ∈ s.merges, (m.1 ∈ s.ids ∧ m.1 ∉ s.made) ∧ m.2 ∈ s.ids ∧ m.2 ∉ s.made
  asked : ∀ id ∈ s.commits, id ∈ s.ids
  committed : ∀ id ∈ s.repo, id ∈ s.commits
  uncommitted : ∀ p ∈ s.db.posts, p.id ∈ s.made → IsPrivate p.visibility →
    p.atUri = none ∧ p.id ∉ s.commits
  inherits : ∀ q p, Replies s q p → Inherits q.visibility p.visibility

theorem eq_of_id_eq {s : State} (h : Inv s) {p q : Post} (hp : p ∈ s.db.posts)
    (hq : q ∈ s.db.posts) (hid : p.id = q.id) : p = q :=
  List.inj_on_of_nodup_map h.keys hp hq hid

theorem inv_empty (localDomain : String) : Inv { localDomain } where
  keys := by simp
  ids := by simp
  made := by simp
  references := by simp
  authors := by simp
  claims := by simp
  merges := by simp
  asked := by simp
  committed := by simp
  uncommitted := by simp
  inherits q p h := by simp [Replies] at h

section Made

variable {s : State} (h : Inv s)
include h

theorem nodup_append_post {p : Post} (hid : p.id ∉ s.ids) :
    ((s.db.posts ++ [p]).map Post.id).Nodup := by
  rw [List.map_append]
  refine List.nodup_append'.mpr ⟨h.keys, List.nodup_singleton _, ?_⟩
  show (s.db.posts.map Post.id).Disjoint [p.id]
  rw [List.disjoint_singleton]
  intro hmem
  obtain ⟨q, hq, hqid⟩ := List.mem_map.mp hmem
  exact hid (hqid ▸ h.ids q hq)

/-- A new post of a local actor that replies to nothing, or to a row whose visibility it
inherits where that row was made so too. -/
theorem inv_insertFull {p : Post} (recipients : List Int64) (hid : p.id ∉ s.ids)
    (hauthor : isLocalActor s.db p.actorId) (huri : p.atUri = none)
    (hreply : ∀ k, p.replyToPostId = some k → ∃ q ∈ s.db.posts, q.id = k ∧
      (q.id ∈ s.made → Inherits q.visibility p.visibility)) :
    Inv (s.insertFull p recipients) where
  keys := nodup_append_post h hid
  ids q hq := by
    simp only [State.insertFull, List.mem_append, List.mem_singleton] at hq ⊢
    exact hq.imp (h.ids q) (congrArg Post.id)
  made id hmem := by
    simp only [State.insertFull, List.mem_append, List.mem_singleton] at hmem ⊢
    exact hmem.imp_left (h.made id)
  references q hq k hk := by
    simp only [State.insertFull, List.mem_append, List.mem_singleton] at hq ⊢
    obtain hq | rfl := hq
    · exact .inl (h.references q hq k hk)
    · obtain ⟨r, hr, rfl, -⟩ := hreply k hk
      exact .inl (h.ids r hr)
  authors q hq hmem := by
    simp only [State.insertFull, List.mem_append, List.mem_singleton] at hq hmem
    obtain hq | rfl := hq
    · refine h.authors q hq (hmem.resolve_right fun heq => hid ?_)
      exact heq ▸ h.ids q hq
    · exact hauthor
  claims c hc := by
    obtain ⟨hids, hmade⟩ := h.claims c hc
    simp only [State.insertFull, List.mem_append, List.mem_singleton, not_or]
    exact ⟨.inl hids, hmade, fun heq => hid (heq ▸ hids)⟩
  merges m hm := by
    obtain ⟨⟨hids, hmade⟩, hids', hmade'⟩ := h.merges m hm
    simp only [State.insertFull, List.mem_append, List.mem_singleton, not_or]
    exact ⟨⟨.inl hids, hmade, fun heq => hid (heq ▸ hids)⟩, .inl hids', hmade',
      fun heq => hid (heq ▸ hids')⟩
  asked id hmem := by
    simp only [State.insertFull, List.mem_append]
    exact .inl (h.asked id hmem)
  committed := h.committed
  uncommitted q hq hmem hv := by
    simp only [State.insertFull, List.mem_append, List.mem_singleton] at hq hmem
    obtain hq | rfl := hq
    · refine h.uncommitted q hq (hmem.resolve_right fun heq => hid ?_) hv
      exact heq ▸ h.ids q hq
    · exact ⟨huri, fun hmem => hid (h.asked _ hmem)⟩
  inherits q r hqr := by
    obtain ⟨hq, hr, hqm, hrm, hqr⟩ := hqr
    simp only [State.insertFull, List.mem_append, List.mem_singleton] at hq hr hqm hrm
    -- an old post has no reply to the new id, and the new post none to itself
    have hq' : q ∈ s.db.posts := by
      refine hq.resolve_right fun heq => hid ?_
      obtain hr | rfl := hr
      · exact heq ▸ h.references r hr q.id hqr
      · obtain ⟨r', hr', hid', -⟩ := hreply q.id hqr
        exact heq ▸ hid' ▸ h.ids r' hr'
    have hqm' : q.id ∈ s.made :=
      hqm.resolve_right fun heq => hid (heq ▸ h.ids q hq')
    obtain hr | rfl := hr
    · have hrm' : r.id ∈ s.made := hrm.resolve_right fun heq => hid (heq ▸ h.ids r hr)
      exact h.inherits q r ⟨hq', hr, hqm', hrm', hqr⟩
    · obtain ⟨q', hq'', hid', hinh⟩ := hreply q.id hqr
      obtain rfl := eq_of_id_eq h hq'' hq' hid'
      exact hinh hqm'

theorem inv_askCommit {id : Int64} (hid : id ∈ s.ids)
    (hpub : ∀ p ∈ s.db.posts, p.id = id → ¬ IsPrivate p.visibility) : Inv (s.askCommit id) where
  keys := h.keys
  ids := h.ids
  made := h.made
  references := h.references
  authors := h.authors
  claims := h.claims
  merges := h.merges
  asked k hk := by
    simp only [State.askCommit, List.mem_append, List.mem_singleton] at hk
    obtain hk | rfl := hk
    · exact h.asked k hk
    · exact hid
  committed k hk := List.mem_append_left _ (h.committed k hk)
  uncommitted p hp hm hv := by
    obtain ⟨huri, hcommit⟩ := h.uncommitted p hp hm hv
    refine ⟨huri, ?_⟩
    simp only [State.askCommit, List.mem_append, List.mem_singleton, not_or]
    exact ⟨hcommit, fun heq => hpub p hp heq hv⟩
  inherits := h.inherits

theorem inv_deliverRegularPost {id : Int64} {v : Visibility} (bsky : Bool) (hid : id ∈ s.ids)
    (hv : ∀ p ∈ s.db.posts, p.id = id → p.visibility = v) :
    Inv (s.deliverRegularPost id v bsky) := by
  unfold State.deliverRegularPost
  split
  · exact h
  · rename_i hdirect
    split
    · rename_i hbsky
      rw [Bool.and_eq_true, bne_iff_ne] at hbsky
      refine inv_askCommit h hid fun p hp heq hprivate => ?_
      rw [hv p hp heq] at hprivate
      exact hprivate.elim hdirect hbsky.2
    · exact h

theorem inv_createNote {actorId postId : Int64} {req : CreateNoteRequest} {admitted : Bool}
    {s' : State} (hs : s.createNote actorId postId req admitted = some s') : Inv s' := by
  unfold State.createNote at hs
  split at hs
  · cases hs
  · rename_i v hv
    split at hs
    · cases hs
    · rename_i hguard
      simp only [Bool.or_eq_true, not_or, Bool.not_eq_true', Bool.not_eq_false,
        List.contains_iff_mem] at hguard
      obtain ⟨⟨-, hid⟩, hauthor⟩ := hguard
      cases hs
      have hins := inv_insertFull h (p := {
          id := postId, actorId, visibility := v.visibility, isLocal := true,
          replyToPostId := v.replyToId
          threadRootPostId :=
            if v.visibility = .direct then some (v.replyCtx.parentThreadRootPostId.getD postId)
            else none
          apObjectId := some (s.noteUri postId)
          deliverFedi := v.deliverFedi, deliverBsky := v.deliverBsky })
        v.recipientActorIds hid hauthor rfl fun k hk => by
          obtain ⟨q, hq, hqk, hinh⟩ := validate_reply hv hk
          exact ⟨q, hq, hqk, fun _ => hinh⟩
      refine inv_deliverRegularPost hins _ (by simp [State.insertFull]) fun p hp heq => ?_
      obtain rfl := eq_of_id_eq hins hp (List.mem_append_right _ (List.mem_singleton_self _)) heq
      rfl

/-- Nothing is taken over from the post a record replies to, but that post has an AT URI. -/
theorem inv_createPostFromRecord {actorId postId : Int64} {uri : Option String} {admitted : Bool}
    {s' : State} (hs : s.createPostFromRecord actorId postId uri admitted = some s') : Inv s' := by
  unfold State.createPostFromRecord at hs
  split at hs
  · cases hs
  · rename_i reply hr
    split at hs
    · cases hs
    · rename_i hguard
      simp only [Bool.or_eq_true, not_or, Bool.not_eq_true', Bool.not_eq_false,
        List.contains_iff_mem] at hguard
      obtain ⟨⟨-, hid⟩, hauthor⟩ := hguard
      cases hs
      have hins := inv_insertFull h (p := {
          id := postId, actorId, isLocal := true, replyToPostId := reply
          visibility := (RoleRestriction.fromRole (s.role actorId)).capVisibility .pub
          apObjectId := some (s.noteUri postId) }) [] hid hauthor rfl fun k hk => by
        obtain rfl : reply = some k := hk
        obtain ⟨q, hq, hqk, hquri⟩ := recordReply_ok hr
        exact ⟨q, hq, hqk, fun hm hp => absurd (h.uncommitted q hq hm hp).1 hquri⟩
      refine inv_askCommit hins (by simp [State.insertFull]) fun p hp heq => ?_
      obtain rfl := eq_of_id_eq hins hp (List.mem_append_right _ (List.mem_singleton_self _)) heq
      exact not_isPrivate_capVisibility_pub _

end Made

/-- What a writer other than the two ways does to the rows that these made: it keeps their
authors and visibility, gives an AT URI only where a commit was asked for, and lets them reply
to what they replied to, or to no such row. -/
structure Frame (s s' : State) : Prop where
  keys : (s'.db.posts.map Post.id).Nodup
  ids : ∀ p ∈ s'.db.posts, p.id ∈ s'.ids
  grows : ∀ id ∈ s.ids, id ∈ s'.ids
  references : ∀ p ∈ s'.db.posts, ∀ k, p.replyToPostId = some k → k ∈ s'.ids
  made : s'.made = s.made
  commits : s'.commits = s.commits
  repo : ∀ id ∈ s'.repo, id ∈ s.commits
  claims : ∀ c ∈ s'.claims, c.1 ∈ s'.ids ∧ c.1 ∉ s.made
  merges : ∀ m ∈ s'.merges, (m.1 ∈ s'.ids ∧ m.1 ∉ s.made) ∧ m.2 ∈ s'.ids ∧ m.2 ∉ s.made
  actors : ∀ id, isLocalActor s.db id → isLocalActor s'.db id
  rows : ∀ p ∈ s'.db.posts, p.id ∈ s.made → ∃ q ∈ s.db.posts, q.id = p.id ∧
    q.actorId = p.actorId ∧ q.visibility = p.visibility ∧
    (p.atUri = q.atUri ∨ p.id ∈ s.commits) ∧
    (p.replyToPostId = q.replyToPostId ∨ ∀ k, p.replyToPostId = some k → k ∉ s.made)

theorem inv_of_frame {s s' : State} (h : Inv s) (f : Frame s s') : Inv s' where
  keys := f.keys
  ids := f.ids
  made id hm := f.grows id (h.made id (f.made ▸ hm))
  references := f.references
  authors p hp hm := by
    obtain ⟨q, hq, hid, hauthor, -⟩ := f.rows p hp (f.made ▸ hm)
    rw [← hauthor]
    exact f.actors _ (h.authors q hq (by rw [hid, ← f.made]; exact hm))
  claims c hc := by
    rw [f.made]
    exact f.claims c hc
  merges m hm := by
    rw [f.made]
    exact f.merges m hm
  asked id hm := f.grows id (h.asked id (f.commits ▸ hm))
  committed id hm := by
    rw [f.commits]
    exact f.repo id hm
  uncommitted p hp hm hv := by
    rw [f.made] at hm
    obtain ⟨q, hq, hid, -, hvis, huri, -⟩ := f.rows p hp hm
    obtain ⟨hnone, hcommit⟩ := h.uncommitted q hq (hid ▸ hm) (hvis ▸ hv)
    rw [hid] at hcommit
    rw [f.commits]
    exact ⟨(huri.resolve_right hcommit).trans hnone, hcommit⟩
  inherits q p hqp := by
    obtain ⟨hq, hp, hqm, hpm, hreply⟩ := hqp
    rw [f.made] at hqm hpm
    obtain ⟨p', hp', hpid, -, hpvis, -, hpreply⟩ := f.rows p hp hpm
    obtain ⟨q', hq', hqid, -, hqvis, -⟩ := f.rows q hq hqm
    have hreply' : p'.replyToPostId = some q'.id := by
      obtain hsame | hother := hpreply
      · rw [hqid, ← hsame, hreply]
      · exact absurd hqm (hother q.id hreply)
    rw [← hpvis, ← hqvis]
    exact h.inherits q' p' ⟨hq', hp', hqid ▸ hqm, hpid ▸ hpm, hreply'⟩

section Writers

variable {s : State} (h : Inv s)
include h

theorem inv_claims (claims : List (Int64 × String))
    (hc : ∀ c ∈ claims, c.1 ∈ s.ids ∧ c.1 ∉ s.made) : Inv { s with claims } :=
  { h with claims := hc }

theorem inv_merges (merges : List (Int64 × Int64))
    (hm : ∀ m ∈ merges, (m.1 ∈ s.ids ∧ m.1 ∉ s.made) ∧ m.2 ∈ s.ids ∧ m.2 ∉ s.made) :
    Inv { s with merges } :=
  { h with merges := hm }

/-- The row of a remote author was not made in one of the two ways. -/
theorem notMem_made {p : Post} (hp : p ∈ s.db.posts) (hremote : isLocalActor s.db p.actorId = false) :
    p.id ∉ s.made := by
  intro hm
  rw [h.authors p hp hm] at hremote
  cases hremote

theorem inv_updatePost (id : Int64) (f : Post → Post) (hid : ∀ p, (f p).id = p.id)
    (hactor : ∀ p, (f p).actorId = p.actorId) (hvis : ∀ p, (f p).visibility = p.visibility)
    (hreply : ∀ p, (f p).replyToPostId = p.replyToPostId)
    (huri : (∀ p, (f p).atUri = p.atUri) ∨ id ∉ s.made ∨ id ∈ s.commits) :
    Inv (s.updatePost id f) := by
  let g (p : Post) : Post := if p.id == id then f p else p
  have hgid (p : Post) : (g p).id = p.id := by
    show (if p.id == id then f p else p).id = p.id
    split
    · exact hid p
    · rfl
  have hgreply (p : Post) : (g p).replyToPostId = p.replyToPostId := by
    show (if p.id == id then f p else p).replyToPostId = _
    split
    · exact hreply p
    · rfl
  refine inv_of_frame h {
    keys := ?_, ids := ?_, grows := fun _ hm => hm, references := ?_, made := rfl, commits := rfl,
    repo := h.committed, claims := h.claims, merges := h.merges, actors := fun _ hm => hm,
    rows := ?_ }
  · show ((s.db.posts.map g).map Post.id).Nodup
    rw [List.map_map, show Post.id ∘ g = Post.id from funext hgid]
    exact h.keys
  · intro p hp
    obtain ⟨q, hq, rfl⟩ := List.mem_map.mp hp
    show (g q).id ∈ s.ids
    rw [hgid]
    exact h.ids q hq
  · intro p hp k hk
    obtain ⟨q, hq, rfl⟩ := List.mem_map.mp hp
    exact h.references q hq k ((hgreply q).symm.trans hk)
  · intro p hp hm
    obtain ⟨q, hq, rfl⟩ := List.mem_map.mp hp
    refine ⟨q, hq, (hgid q).symm, ?_, ?_, ?_, .inl (hgreply q)⟩
    · show q.actorId = (if q.id == id then f q else q).actorId
      split
      · exact (hactor q).symm
      · rfl
    · show q.visibility = (if q.id == id then f q else q).visibility
      split
      · exact (hvis q).symm
      · rfl
    · have hm' : (g q).id ∈ s.made := hm
      show (g q).atUri = q.atUri ∨ (g q).id ∈ s.commits
      rw [hgid] at hm' ⊢
      show (if q.id == id then f q else q).atUri = q.atUri ∨ q.id ∈ s.commits
      split
      · rename_i heq
        rw [beq_iff_eq] at heq
        rw [heq] at hm' ⊢
        obtain hsame | hnot | hasked := huri
        · exact .inl (hsame q)
        · exact absurd hm' hnot
        · exact .inr hasked
      · exact .inl rfl

theorem inv_receive {p : Post} {claimed : Option String} {s' : State}
    (hs : s.receive p claimed = some s') : Inv s' := by
  unfold State.receive at hs
  split at hs
  · cases hs
  · rename_i hfresh
    cases hs
    rw [Bool.or_eq_true, not_or, List.contains_iff_mem, Bool.not_eq_true', Bool.not_eq_false] at hfresh
    obtain ⟨hid, hreply⟩ := hfresh
    have hmade : p.id ∉ s.made := fun hm => hid (h.made _ hm)
    refine inv_of_frame h {
      keys := ?_, ids := ?_, grows := fun _ hm => List.mem_append_left _ hm, references := ?_,
      made := rfl, commits := rfl, repo := h.committed, claims := ?_, merges := ?_,
      actors := fun _ hm => hm, rows := ?_ }
    · exact nodup_append_post h hid
    · intro q hq
      obtain hq | hq := List.mem_append.mp hq
      · exact List.mem_append_left _ (h.ids q hq)
      · rw [List.mem_singleton.mp hq]
        simp
    · intro q hq k hk
      obtain hq | hq := List.mem_append.mp hq
      · exact List.mem_append_left _ (h.references q hq k hk)
      · rw [List.mem_singleton.mp hq] at hk
        rw [hk, Option.all_some, State.hasPost, List.any_eq_true] at hreply
        obtain ⟨r, hr, hrk⟩ := hreply
        rw [beq_iff_eq] at hrk
        exact List.mem_append_left _ (hrk ▸ h.ids r hr)
    · intro c hc
      obtain hc | hc := List.mem_append.mp hc
      · exact (h.claims c hc).imp_left (List.mem_append_left _)
      · obtain ⟨uri, -, rfl⟩ := List.mem_map.mp hc
        exact ⟨by simp, hmade⟩
    · intro m hm
      obtain ⟨h₁, h₂⟩ := h.merges m hm
      exact ⟨h₁.imp_left (List.mem_append_left _), h₂.imp_left (List.mem_append_left _)⟩
    · intro q hq hm
      obtain hq | hq := List.mem_append.mp hq
      · exact ⟨q, hq, rfl, rfl, rfl, .inl rfl, .inl rfl⟩
      · rw [List.mem_singleton.mp hq] at hm
        exact absurd hm hmade

theorem inv_claim {id : Int64} {uri : String} {s' : State} (hs : s.claim id uri = some s') :
    Inv s' := by
  unfold State.claim at hs
  split at hs
  · rename_i hrow
    cases hs
    obtain ⟨p, hp, hcond⟩ := List.any_eq_true.mp hrow
    simp only [Bool.and_eq_true, beq_iff_eq, Bool.not_eq_true'] at hcond
    obtain ⟨⟨rfl, hremote⟩, -⟩ := hcond
    refine inv_claims h _ fun c hc => ?_
    obtain hc | hc := List.mem_append.mp hc
    · exact h.claims c hc
    · rw [List.mem_singleton.mp hc]
      exact ⟨h.ids p hp, notMem_made h hp hremote⟩
  · cases hs

theorem inv_mergeBsky {id : Int64} {uri : String} {s' : State} (hs : s.mergeBsky id uri = some s') :
    Inv s' := by
  unfold State.mergeBsky at hs
  split at hs
  · rename_i hclaim
    cases hs
    have hrow := inv_updatePost h id (fun p => { p with atUri := some uri })
      (fun _ => rfl) (fun _ => rfl) (fun _ => rfl) (fun _ => rfl) (.inr (.inl (h.claims _ hclaim).2))
    exact inv_claims hrow _ fun c hc => h.claims c (List.mem_of_mem_filter hc)
  · cases hs

theorem inv_finalizePostMerge {survivor doomed : Int64} {ap uri : String} {s' : State}
    (hs : s.finalizePostMerge survivor doomed ap uri = some s') : Inv s' := by
  unfold State.finalizePostMerge at hs
  split at hs
  · rename_i htarget
    cases hs
    obtain ⟨p, hp, hcond⟩ := List.any_eq_true.mp htarget
    simp only [Bool.and_eq_true, beq_iff_eq, Bool.not_eq_true', List.any_eq_true] at hcond
    obtain ⟨⟨⟨⟨rfl, hremote⟩, -⟩, -⟩, q, hq, ⟨rfl, hauthor⟩, -⟩ := hcond
    have hp' : p.id ∉ s.made := notMem_made h hp hremote
    have hq' : q.id ∉ s.made := notMem_made h hq (hauthor ▸ hremote)
    have h₁ := inv_updatePost h q.id
      (fun p => { p with apObjectId := none, atUri := none, deleted := true })
      (fun _ => rfl) (fun _ => rfl) (fun _ => rfl) (fun _ => rfl) (.inr (.inl hq'))
    have h₂ := inv_updatePost h₁ p.id
      (fun p => { p with apObjectId := some ap, atUri := some uri })
      (fun _ => rfl) (fun _ => rfl) (fun _ => rfl) (fun _ => rfl) (.inr (.inl hp'))
    have h₃ := inv_claims h₂ (s.claims.filter fun c => c.1 != p.id) fun c hc =>
      h.claims c (List.mem_of_mem_filter hc)
    refine inv_merges h₃ _ fun m hm => ?_
    obtain hm | hm := List.mem_append.mp hm
    · exact h.merges m hm
    · rw [List.mem_singleton.mp hm]
      exact ⟨⟨h.ids p hp, hp'⟩, h.ids q hq, hq'⟩
  · cases hs

theorem inv_cleanupMergedPost {survivor doomed : Int64} {s' : State}
    (hs : s.cleanupMergedPost survivor doomed = some s') : Inv s' := by
  unfold State.cleanupMergedPost at hs
  split at hs
  · rename_i hmerge
    cases hs
    obtain ⟨⟨hsids, hsmade⟩, -, -⟩ := h.merges _ hmerge
    let target : Option Int64 := if s.hasPost survivor then some survivor else none
    let g (p : Post) : Post :=
      if p.replyToPostId == some doomed then { p with replyToPostId := target } else p
    have hgid (p : Post) : (g p).id = p.id := by
      show (if p.replyToPostId == some doomed then { p with replyToPostId := target } else p).id = _
      split <;> rfl
    have htarget {k : Int64} (hk : target = some k) : k = survivor := by
      by_cases hpost : s.hasPost survivor
      · rw [show target = some survivor from if_pos hpost, Option.some.injEq] at hk
        exact hk.symm
      · rw [show target = none from if_neg hpost] at hk
        cases hk
    have hrow {p : Post} (hp : p ∈ (s.db.posts.filter fun p => p.id != doomed).map g) :
        ∃ q ∈ s.db.posts, p = g q := by
      obtain ⟨q, hq, rfl⟩ := List.mem_map.mp hp
      exact ⟨q, List.mem_of_mem_filter hq, rfl⟩
    refine inv_of_frame h {
      keys := ?_, ids := ?_, grows := fun _ hm => hm, references := ?_, made := rfl,
      commits := rfl, repo := h.committed, claims := h.claims, merges := h.merges,
      actors := fun _ hm => hm, rows := ?_ }
    · show (((s.db.posts.filter fun p => p.id != doomed).map g).map Post.id).Nodup
      rw [List.map_map, show Post.id ∘ g = Post.id from funext hgid]
      exact (List.filter_sublist.map _).nodup h.keys
    · intro p hp
      obtain ⟨q, hq, rfl⟩ := hrow hp
      show (g q).id ∈ s.ids
      rw [hgid]
      exact h.ids q hq
    · intro p hp k hk
      obtain ⟨q, hq, rfl⟩ := hrow hp
      have hk' : (if q.replyToPostId == some doomed then { q with replyToPostId := target }
          else q).replyToPostId = some k := hk
      split at hk'
      · rw [htarget hk']
        exact hsids
      · exact h.references q hq k hk'
    · intro p hp hm
      obtain ⟨q, hq, rfl⟩ := hrow hp
      refine ⟨q, hq, (hgid q).symm, ?_⟩
      show q.actorId = (if q.replyToPostId == some doomed then
        { q with replyToPostId := target } else q).actorId ∧ _
      dsimp only [g]
      split
      · refine ⟨rfl, rfl, .inl rfl, .inr fun k hk => ?_⟩
        rw [htarget hk]
        exact hsmade
      · exact ⟨rfl, rfl, .inl rfl, .inl rfl⟩
  · cases hs

theorem inv_commit {id : Int64} {uri : String} {s' : State} (hs : s.commit id uri = some s') :
    Inv s' := by
  unfold State.commit at hs
  split at hs
  · rename_i hasked
    cases hs
    have hrow := inv_updatePost h id (fun p => { p with atUri := some uri })
      (fun _ => rfl) (fun _ => rfl) (fun _ => rfl) (fun _ => rfl) (.inr (.inr hasked))
    refine { hrow with committed := fun k hk => ?_ }
    obtain hk | hk := List.mem_append.mp hk
    · exact h.committed k hk
    · rw [List.mem_singleton.mp hk]
      exact hasked
  · cases hs

theorem inv_world {db : Tables} {roles : List (Int64 × String)} {s' : State}
    (hs : s.world db roles = some s') : Inv s' := by
  unfold State.world at hs
  split at hs
  · rename_i hlocal
    cases hs
    refine inv_of_frame h {
      keys := h.keys, ids := h.ids, grows := fun _ hm => hm, references := h.references,
      made := rfl, commits := rfl, repo := h.committed, claims := h.claims, merges := h.merges,
      actors := ?_, rows := fun p hp _ => ⟨p, hp, rfl, rfl, rfl, .inl rfl, .inl rfl⟩ }
    intro id hid
    obtain ⟨a, ha, heq⟩ := List.any_eq_true.mp hid
    rw [Bool.and_eq_true, beq_iff_eq] at heq
    have hkeep := List.all_eq_true.mp hlocal a ha
    rw [heq.1, hid] at hkeep
    have hlocal' : isLocalActor db id = true := by simpa using hkeep
    exact hlocal'
  · cases hs

theorem inv_step {a : Action} {s' : State} (hs : machine.step s a = some s') : Inv s' := by
  cases a with
  | createNote actorId postId req admitted => exact inv_createNote h hs
  | createRecord actorId postId uri admitted => exact inv_createPostFromRecord h hs
  | commit postId uri => exact inv_commit h hs
  | receive p claimed => exact inv_receive h hs
  | claim postId uri => exact inv_claim h hs
  | mergeBsky postId uri => exact inv_mergeBsky h hs
  | finalizePostMerge survivor doomed ap uri => exact inv_finalizePostMerge h hs
  | cleanupMergedPost survivor doomed => exact inv_cleanupMergedPost h hs
  | softDelete postId =>
    cases hs
    exact inv_updatePost h _ _ (fun _ => rfl) (fun _ => rfl) (fun _ => rfl) (fun _ => rfl)
      (.inl fun _ => rfl)
  | world db roles => exact inv_world h hs

end Writers

theorem inv_run {localDomain : String} {acts : List Action} {t : State}
    (hr : machine.run { localDomain } acts = some t) : Inv t :=
  machine.run_inv (fun h hs => inv_step h hs) (inv_empty localDomain) hr

section Chains

variable {t : State}

/-- Down a chain from a private root, every post has the visibility of the root. -/
theorem visibility_of_chain (h : Inv t) {root p : Post} (hroot : IsPrivate root.visibility)
    (hchain : Relation.ReflTransGen (Replies t) root p) : p.visibility = root.visibility := by
  induction hchain with
  | refl => rfl
  | tail _ hreply ih =>
    rw [← ih] at hroot ⊢
    exact h.inherits _ _ hreply hroot

theorem notMem_repo (h : Inv t) {p : Post} (hp : p ∈ t.db.posts) (hm : p.id ∈ t.made)
    (hv : IsPrivate p.visibility) : p.id ∉ t.repo :=
  fun hrepo => (h.uncommitted p hp hm hv).2 (h.committed _ hrepo)

/-- Whoever replies in whichever way, and whatever the rest of the system does meanwhile: below
a direct or followers-only root, a reply is at most as visible as its parent, direct if the root
is, and not in the AT repository. -/
theorem reply_visibility {localDomain : String} {acts : List Action}
    (hr : machine.run { localDomain } acts = some t) {root parent child : Post}
    (hroot : root.visibility = .direct ∨ root.visibility = .followersOnly)
    (hchain : Relation.ReflTransGen (Replies t) root parent) (hreply : Replies t parent child) :
    rank child.visibility ≤ rank parent.visibility ∧
      (root.visibility = .direct → child.visibility = .direct) ∧ child.id ∉ t.repo := by
  have h := inv_run hr
  have hparent := visibility_of_chain h hroot hchain
  have hchild := visibility_of_chain h hroot (hchain.tail hreply)
  refine ⟨by rw [hchild, hparent], fun hdirect => hchild.trans hdirect, ?_⟩
  obtain ⟨-, hmem, -, hmade, -⟩ := hreply
  exact notMem_repo h hmem hmade (by rw [hchild]; exact hroot)

end Chains

section Witness

/-- Actor 2 follows actor 1, asks for a public reply to the followers-only post of actor 1, and
replies once more from an AT client to a public post. -/
def followersThread : List Action := [
  .world { actors := [{ id := 1 }, { id := 2 }]
           follows := [{ followerActorId := 2, targetActorId := 1 }] } [],
  .createNote 1 100 { visibility := some "followers" } true,
  .createNote 2 101 { visibility := some "public", replyToId := some "100" } true,
  .createNote 1 102 {} true,
  .commit 102 "at://did:plc:a/app.bsky.feed.post/102",
  .createRecord 2 103 (some "at://did:plc:a/app.bsky.feed.post/102") true,
  .commit 103 "at://did:plc:b/app.bsky.feed.post/103"]

def followersThreadEnd : State :=
  (machine.run { localDomain := "a.example" } followersThread).getD { localDomain := "" }

def followersPost (id actorId : Int64) (parent : Option Int64) (uri : String) : Post where
  id
  actorId
  visibility := .followersOnly
  isLocal := true
  replyToPostId := parent
  apObjectId := some uri
  deliverBsky := false

theorem reply_visibility_followersThread :
    rank .followersOnly ≤ rank .followersOnly ∧
      (Visibility.followersOnly = .direct → Visibility.followersOnly = .direct) ∧
      (101 : Int64) ∉ followersThreadEnd.repo :=
  @reply_visibility followersThreadEnd "a.example" followersThread (by decide)
    (followersPost 100 1 none "https://a.example/notes/100")
    (followersPost 100 1 none "https://a.example/notes/100")
    (followersPost 101 2 (some 100) "https://a.example/notes/101") (.inr rfl) .refl
    (by unfold Replies; decide)

end Witness

end Seiran.Notes
