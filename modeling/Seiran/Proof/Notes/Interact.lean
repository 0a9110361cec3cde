import Seiran.Framework.Except
import Seiran.Model.Notes.Interact

/-!
# What can be interacted with

* `targets`: the posts that a request is about;
* `Confined`: a request succeeds and writes only if its posts can be seen, and its answer does
  not depend on what other posts say;
* `checkReaction_ok`, `validate_ok`, `checkRepost_ok`: the checks that look whether a post can be
  seen, or let only such posts pass;
* `embeddedNote_setContent`: an answer embeds nothing of a post that cannot be seen;
* `Unseen`: the requests that go by these checks;
* `interaction_confined_iff`: there are no others.
-/

namespace Seiran.Interact

open Timeline
open Notes (RoleRestriction checkNotBlocked parseI64 replyContext requestReplyContext
  resolveReplyContext)
open Polls (Poll recordLocalVote validateVote)

/-- The post that a post bridges, where it is known, and otherwise the post itself -/
def State.original (s : State) (id : Int64) : Int64 :=
  match s.findDeliveryMeta id with
  | some info => (s.redirectBridgePostMeta id info).1
  | none => id

/-- The posts that a request reacts to, votes in, replies to, quotes or reposts -/
def targets (s : State) : Request → List Int64
  | .react noteId _ => (parseI64 noteId).toList
  | .votePoll noteId _ => (parseI64 noteId).toList
  | .createNote req =>
    match req.renoteId with
    | some renoteId => (parseI64 renoteId).toList.map s.original
    | none =>
      (req.replyToId.bind parseI64).toList ++ (req.quoteOfId.bind parseI64).toList.map s.original
  | .createRecord record =>
    (record.replyParentUri.bind s.findIdByAtUri).toList ++
      ((record.quoteUri.bind s.findIdByAtUri).bind s.findDeliveryMeta).toList.map Post.id

/-- The state in which the post with an id says something else -/
def State.setContent (s : State) (id : Int64) (content : PostContent) : State :=
  { s with content := Function.update s.content id content }

section Statements

variable (E : Env) (s : State) (actorId : Int64)

def Sees (p : Post) : Prop := s.tables.visible (some actorId) p = true

/-- The request is about a post that the actor does not see. -/
def AboutHidden (r : Request) : Prop :=
  ∃ p ∈ s.tables.posts, p.id ∈ targets s r ∧ ¬ Sees s actorId p

/-- The request succeeds only if the actor sees the posts it is about, it changes nothing
otherwise, and its answer does not depend on what a post says that the actor does not see. -/
structure Confined (r : Request) : Prop where
  seen : (handle E s actorId r).1.ok = true → ∀ p ∈ s.tables.posts, p.id ∈ targets s r →
    Sees s actorId p
  unchanged : AboutHidden s actorId r → (handle E s actorId r).2 = s
  blind : ∀ p ∈ s.tables.posts, ¬ Sees s actorId p → ∀ content,
    (handle E (s.setContent p.id content) actorId r).1 = (handle E s actorId r).1

/-- Nothing but a quotation is a reason to refuse the record. -/
def Admitted (record : PostRecord) : Prop :=
  (∃ content, E.admitRecord actorId record = .ok content) ∧
    (∃ replyToPostId, recordReply s actorId record.replyParentUri = .ok replyToPostId) ∧
    s.hasPost E.newId = false ∧ s.hasApObjectId E.noteUri = false

/-- A vote for an option of a post that the actor does not see, or a record that quotes one and
is not refused for something else -/
def Unseen : Request → Prop
  | .react _ _ => False
  | .votePoll noteId optionIndexes =>
    optionIndexes ≠ [] ∧ ∃ p ∈ s.tables.posts,
      parseI64 noteId = some p.id ∧ p.deleted = false ∧ ¬ Sees s actorId p
  | .createNote _ => False
  | .createRecord record =>
    Admitted E s actorId record ∧ ∃ p ∈ s.tables.posts,
      record.quoteUri.bind s.findIdByAtUri = some p.id ∧ p.deleted = false ∧
        ¬ Sees s actorId p ∧ checkNotBlocked s.tables actorId p.actorId = .ok ()

end Statements

section Lookups

variable {s : State} {p : Post} {id actorId : Int64}

theorem findByIdForViewer_some (h : s.findByIdForViewer id actorId = some p) :
    p ∈ s.tables.posts ∧ p.id = id ∧ p.deleted = false ∧ Sees s actorId p := by
  have hp := List.find?_some h
  simp only [Bool.and_eq_true, beq_iff_eq, Bool.not_eq_true'] at hp
  exact ⟨List.mem_of_find?_eq_some h, hp.1.1, hp.1.2, hp.2⟩

theorem findDeliveryMeta_some (h : s.findDeliveryMeta id = some p) :
    p ∈ s.tables.posts ∧ p.id = id ∧ p.deleted = false := by
  have hp := List.find?_some h
  simp only [Bool.and_eq_true, beq_iff_eq, Bool.not_eq_true'] at hp
  exact ⟨List.mem_of_find?_eq_some h, hp.1, hp.2⟩

theorem redirectBridgePostMeta_mem (h : s.findDeliveryMeta id = some p) :
    (s.redirectBridgePostMeta id p).2 ∈ s.tables.posts ∧
      (s.redirectBridgePostMeta id p).2.id = (s.redirectBridgePostMeta id p).1 := by
  unfold State.redirectBridgePostMeta
  split
  · rename_i redirected hr
    obtain ⟨original, -, hr⟩ := Option.bind_eq_some_iff.mp hr
    obtain ⟨q, hq, rfl⟩ := Option.map_eq_some_iff.mp hr
    have := findDeliveryMeta_some hq
    exact ⟨this.1, this.2.1⟩
  · have := findDeliveryMeta_some h
    exact ⟨this.1, this.2.1⟩

theorem original_eq (h : s.findDeliveryMeta id = some p) :
    s.original id = (s.redirectBridgePostMeta id p).1 := by
  unfold State.original
  rw [h]

/-- A post that is not for followers or recipients only is seen by every actor. -/
theorem sees_of_visibility (hf : p.visibility ≠ .followersOnly) (hd : p.visibility ≠ .direct) :
    Sees s actorId p := by
  unfold Sees Tables.visible Tables.postIsVisibleTo
  cases hv : p.visibility with
  | pub => rfl
  | unlisted => rfl
  | followersOnly => exact absurd hv hf
  | direct => exact absurd hv hd

end Lookups

namespace Store

variable (s : Store) {p q : Post}

theorem eq_of_id (hp : p ∈ s.tables.posts) (hq : q ∈ s.tables.posts) (h : p.id = q.id) : p = q :=
  List.inj_on_of_nodup_map s.posts_pkey hp hq h

theorem findDeliveryMeta_of_mem (hp : p ∈ s.tables.posts) (hd : p.deleted = false) :
    s.findDeliveryMeta p.id = some p := by
  cases h : s.findDeliveryMeta p.id with
  | none =>
    have := List.find?_eq_none.mp h p hp
    simp [hd] at this
  | some q =>
    obtain ⟨hq, hid, -⟩ := findDeliveryMeta_some h
    rw [s.eq_of_id hq hp hid]

theorem findDeliveryMeta_of_deleted (hp : p ∈ s.tables.posts) (hd : p.deleted = true) :
    s.findDeliveryMeta p.id = none := by
  cases h : s.findDeliveryMeta p.id with
  | none => rfl
  | some q =>
    obtain ⟨hq, hid, hq'⟩ := findDeliveryMeta_some h
    rw [s.eq_of_id hq hp hid, hd] at hq'
    cases hq'

end Store

/-! ## The checks -/

section Checks

variable {E : Env} {s : Store} {actorId : Int64} {p : Post}

theorem parseId_ok {e : ApiError} {text : String} {id : Int64} (h : parseId e text = .ok id) :
    parseI64 text = some id := by
  unfold parseId at h
  split at h
  · rename_i hid
    cases h
    exact hid
  · cases h

theorem checkReaction_ok {noteId content : String} {reaction : Reaction}
    (h : checkReaction E s.toState actorId noteId content = .ok reaction)
    (hp : p ∈ s.tables.posts) (ht : p.id ∈ targets s.toState (.react noteId content)) :
    Sees s.toState actorId p := by
  unfold checkReaction at h
  obtain ⟨-, -, h⟩ := bind_eq_ok.mp h
  obtain ⟨id, hid, h⟩ := bind_eq_ok.mp h
  obtain ⟨⟨content, emojiUrl⟩, -, h⟩ := bind_eq_ok.mp h
  obtain ⟨post, hpost, -⟩ := bind_eq_ok.mp h
  unfold findReactablePost at hpost
  split at hpost
  · rename_i q hq
    obtain ⟨hq, hqid, -, hs⟩ := findByIdForViewer_some hq
    rw [targets, parseId_ok hid, Option.mem_toList, Option.some.injEq] at ht
    rw [s.eq_of_id hp hq (ht.symm.trans hqid.symm)]
    exact hs
  · cases hpost

theorem replyContext_ok {id : Int64} {ctx : Notes.ReplyContext}
    (h : replyContext s.tables id actorId = .ok ctx) (hp : p ∈ s.tables.posts) (hid : p.id = id) :
    Sees s.toState actorId p := by
  unfold replyContext at h
  split at h
  · cases h
  · rename_i q hq
    obtain ⟨hq, hqid, -, hs⟩ := findByIdForViewer_some (s := s.toState) hq
    rw [s.eq_of_id hp hq (hid.trans hqid.symm)]
    exact hs

theorem requestReplyContext_ok {req : Notes.CreateNoteRequest} {ctx : Notes.ReplyContext}
    (h : requestReplyContext s.tables actorId req = .ok ctx) (hp : p ∈ s.tables.posts)
    (hid : req.replyToId.bind parseI64 = some p.id) : Sees s.toState actorId p := by
  obtain ⟨text, ht, hid⟩ := Option.bind_eq_some_iff.mp hid
  rw [requestReplyContext, ht] at h
  replace h : resolveReplyContext s.tables text actorId = .ok ctx := h
  rw [resolveReplyContext, hid] at h
  exact replyContext_ok h hp rfl

theorem validateQuoteVisibility_ok {quoted new : Visibility}
    (h : validateQuoteVisibility quoted new = .ok ()) :
    quoted ≠ .followersOnly ∧ quoted ≠ .direct := by
  cases quoted with
  | pub => simp
  | unlisted => simp
  | followersOnly => cases h
  | direct => cases h

/-- The posts that pass the checks of their visibility, by the row that was read -/
theorem sees_redirected {id : Int64} {info : Post} (hinfo : s.findDeliveryMeta id = some info)
    (hf : (s.redirectBridgePostMeta id info).2.visibility ≠ .followersOnly)
    (hd : (s.redirectBridgePostMeta id info).2.visibility ≠ .direct)
    (hp : p ∈ s.tables.posts) (hid : p.id = s.original id) : Sees s.toState actorId p := by
  obtain ⟨hq, hqid⟩ := redirectBridgePostMeta_mem hinfo
  rw [original_eq hinfo] at hid
  rw [s.eq_of_id hp hq (hid.trans hqid.symm)]
  exact sees_of_visibility hf hd

theorem requestQuoteTarget_ok {req : CreateNoteRequest} {visibility : Visibility}
    {target : Option (Int64 × Post)}
    (h : requestQuoteTarget s.toState actorId req visibility = .ok target)
    (hp : p ∈ s.tables.posts)
    (hid : p.id ∈ (req.quoteOfId.bind parseI64).toList.map s.original) :
    Sees s.toState actorId p := by
  unfold requestQuoteTarget at h
  split at h
  · rename_i hnone
    simp [hnone] at hid
  · rename_i quoteId hquote
    simp only [hquote, Option.toList_some, List.map_cons, List.map_nil, List.mem_singleton] at hid
    cases hr : resolveQuoteTarget s.toState actorId quoteId visibility with
    | error e =>
      rw [hr] at h
      cases h
    | ok found =>
      unfold resolveQuoteTarget at hr
      split at hr
      · cases hr
      · rename_i info hinfo
        obtain ⟨_, -, hr⟩ := bind_eq_ok.mp hr
        obtain ⟨_, hv, -⟩ := bind_eq_ok.mp hr
        obtain ⟨hf, hd⟩ := validateQuoteVisibility_ok hv
        exact sees_redirected hinfo hf hd hp hid

theorem validate_ok {req : CreateNoteRequest} {v : ValidatedCreatePost}
    (h : validateCreateRegularPostInput E s.toState actorId req = .ok v)
    (hr : req.renoteId = none) (hp : p ∈ s.tables.posts)
    (ht : p.id ∈ targets s.toState (.createNote req)) : Sees s.toState actorId p := by
  unfold validateCreateRegularPostInput at h
  obtain ⟨-, -, h⟩ := bind_eq_ok.mp h
  obtain ⟨ctx, hctx, h⟩ := bind_eq_ok.mp h
  obtain ⟨w, -, h⟩ := bind_eq_ok.mp h
  obtain ⟨recipients, -, h⟩ := bind_eq_ok.mp h
  obtain ⟨content, -, h⟩ := bind_eq_ok.mp h
  obtain ⟨target, htarget, -⟩ := bind_eq_ok.mp h
  simp only [targets, hr, List.mem_append, Option.mem_toList] at ht
  obtain ht | ht := ht
  · exact requestReplyContext_ok hctx hp ht
  · exact requestQuoteTarget_ok htarget hp ht

theorem checkRepost_ok {req : CreateNoteRequest} {renoteId : String} {target : Int64 × Post}
    (h : checkRepost s.toState actorId renoteId = .ok target)
    (hr : req.renoteId = some renoteId) (hp : p ∈ s.tables.posts)
    (ht : p.id ∈ targets s.toState (.createNote req)) : Sees s.toState actorId p := by
  unfold checkRepost at h
  obtain ⟨id, hid, h⟩ := bind_eq_ok.mp h
  simp only [targets, hr, parseId_ok hid, Option.toList_some, List.map_cons, List.map_nil,
    List.mem_singleton] at ht
  split at h
  · cases h
  · rename_i info hinfo
    dsimp only at h
    split at h
    · cases h
    · rename_i hv
      simp only [not_or] at hv
      exact sees_redirected hinfo hv.1 hv.2 hp ht

/-- What a record replies to is seen, and what it quotes is a row that is there. -/
theorem checkRecord_ok {record : PostRecord} {x : PostContent × Option Int64 × Option Int64}
    (h : checkRecord E s.toState actorId record = .ok x) (hp : p ∈ s.tables.posts)
    (ht : p.id ∈ targets s.toState (.createRecord record)) :
    Sees s.toState actorId p ∨
      (record.quoteUri.bind s.findIdByAtUri = some p.id ∧ p.deleted = false ∧
        checkNotBlocked s.tables actorId p.actorId = .ok ()) := by
  unfold checkRecord at h
  obtain ⟨content, -, h⟩ := bind_eq_ok.mp h
  obtain ⟨quote, hquote, h⟩ := bind_eq_ok.mp h
  obtain ⟨reply, hreply, -⟩ := bind_eq_ok.mp h
  simp only [targets, List.mem_append, Option.mem_toList, List.mem_map] at ht
  obtain ht | ⟨q, hq, hid⟩ := ht
  · left
    unfold recordReply at hreply
    rw [ht] at hreply
    obtain ⟨ctx, hctx, -⟩ := bind_eq_ok.mp hreply
    exact replyContext_ok hctx hp rfl
  · right
    unfold recordQuote at hquote
    rw [hq] at hquote
    obtain ⟨_, hb, -⟩ := bind_eq_ok.mp hquote
    obtain ⟨id, hid', hq⟩ := Option.bind_eq_some_iff.mp hq
    obtain ⟨hmem, hqid, hd⟩ := findDeliveryMeta_some hq
    cases s.eq_of_id hmem hp hid
    exact ⟨hid'.trans (congrArg some hqid.symm), hd, hb⟩

end Checks

/-! ## What is refused -/

section Refusals

variable {E : Env} {s : Store} {actorId : Int64}

/-- The request is refused and changes nothing. -/
def Refused (E : Env) (s : State) (actorId : Int64) (r : Request) : Prop :=
  (handle E s actorId r).1.ok = false ∧ (handle E s actorId r).2 = s

theorem confined_of {r : Request}
    (h : AboutHidden s.toState actorId r → Refused E s.toState actorId r)
    (hb : ∀ p ∈ s.tables.posts, ¬ Sees s.toState actorId p → ∀ content,
      (handle E (s.setContent p.id content) actorId r).1 = (handle E s.toState actorId r).1) :
    Confined E s.toState actorId r where
  seen hok p hp ht := by
    by_contra hs
    rw [(h ⟨p, hp, ht, hs⟩).1] at hok
    cases hok
  unchanged ha := (h ha).2
  blind := hb

theorem react_refused {noteId content : String}
    (h : AboutHidden s.toState actorId (.react noteId content)) :
    Refused E s.toState actorId (.react noteId content) := by
  obtain ⟨p, hp, ht, hs⟩ := h
  cases hc : checkReaction E s.toState actorId noteId content with
  | error e => simp [Refused, handle, createReaction, hc, Answer.ok]
  | ok reaction => exact absurd (checkReaction_ok hc hp ht) hs

theorem createNote_refused {req : CreateNoteRequest}
    (h : AboutHidden s.toState actorId (.createNote req)) :
    Refused E s.toState actorId (.createNote req) := by
  obtain ⟨p, hp, ht, hs⟩ := h
  cases hm : requireNotDidMovedOut E actorId with
  | error e => simp [Refused, handle, createNote, hm, Answer.ok]
  | ok u =>
    cases hr : req.renoteId with
    | none =>
      cases hc : validateCreateRegularPostInput E s.toState actorId req with
      | error e => simp [Refused, handle, createNote, hm, hr, createRegularPost, hc, Answer.ok]
      | ok v => exact absurd (validate_ok hc hr hp ht) hs
    | some renoteId =>
      cases hc : checkRepost s.toState actorId renoteId with
      | error e => simp [Refused, handle, createNote, hm, hr, createRepost, hc, Answer.ok]
      | ok target => exact absurd (checkRepost_ok hc hr hp ht) hs

theorem votePoll_refused {noteId : String} {optionIndexes : List Nat}
    (hu : ¬ Unseen E s.toState actorId (.votePoll noteId optionIndexes))
    (h : AboutHidden s.toState actorId (.votePoll noteId optionIndexes)) :
    Refused E s.toState actorId (.votePoll noteId optionIndexes) := by
  obtain ⟨p, hp, ht, hs⟩ := h
  rw [targets, Option.mem_toList] at ht
  by_cases hopts : optionIndexes = []
  · simp [Refused, handle, votePoll, ht, hopts, Answer.ok]
  · have hd : p.deleted = true := by
      by_contra hd
      exact hu ⟨hopts, p, hp, ht, Bool.eq_false_iff.mpr hd, hs⟩
    simp [Refused, handle, votePoll, ht, hopts, recordVote, s.findDeliveryMeta_of_deleted hp hd,
      Answer.ok]

/-- Whatever is written for a record, it is a row more. -/
theorem createPostFromRecord_of_admitted {record : PostRecord}
    {x : PostContent × Option Int64 × Option Int64} (h : Admitted E s.toState actorId record)
    (hx : checkRecord E s.toState actorId record = .ok x) :
    (handle E s.toState actorId (.createRecord record)).2.tables.posts.length =
      s.tables.posts.length + 1 := by
  obtain ⟨-, -, hid, huri⟩ := h
  simp [handle, createPostFromRecord, hx, hid, huri, State.insertPost]

theorem createRecord_refused {record : PostRecord}
    (hu : ¬ Unseen E s.toState actorId (.createRecord record))
    (h : AboutHidden s.toState actorId (.createRecord record)) :
    Refused E s.toState actorId (.createRecord record) := by
  obtain ⟨p, hp, ht, hs⟩ := h
  cases hc : checkRecord E s.toState actorId record with
  | error e => simp [Refused, handle, createPostFromRecord, hc, Answer.ok]
  | ok x =>
    obtain hsees | ⟨hq, hd, hb⟩ := checkRecord_ok hc hp ht
    · exact absurd hsees hs
    · have hfree : (s.hasPost E.newId || s.hasApObjectId E.noteUri) = true := by
        by_contra hfree
        simp only [Bool.not_eq_true, Bool.or_eq_false_iff] at hfree
        have hc' := hc
        unfold checkRecord at hc'
        obtain ⟨content, hcontent, hc'⟩ := bind_eq_ok.mp hc'
        obtain ⟨quote, -, hc'⟩ := bind_eq_ok.mp hc'
        obtain ⟨reply, hreply, -⟩ := bind_eq_ok.mp hc'
        exact hu ⟨⟨⟨content, hcontent⟩, ⟨reply, hreply⟩, hfree⟩, p, hp, hq, hd, hs, hb⟩
      obtain ⟨content, quote, reply⟩ := x
      simp [Refused, handle, createPostFromRecord, hc, hfree, Answer.ok]

theorem checkRecord_of_quoted {record : PostRecord} {p : Post}
    (h : Admitted E s.toState actorId record) (hp : p ∈ s.tables.posts)
    (hq : record.quoteUri.bind s.findIdByAtUri = some p.id) (hd : p.deleted = false)
    (hb : checkNotBlocked s.tables actorId p.actorId = .ok ()) :
    ∃ x, checkRecord E s.toState actorId record = .ok x := by
  obtain ⟨⟨content, hcontent⟩, ⟨reply, hreply⟩, -⟩ := h
  have hquote : recordQuote s.toState actorId record.quoteUri = .ok (some p.id) := by
    unfold recordQuote
    rw [hq, Option.bind_some, s.findDeliveryMeta_of_mem hp hd]
    dsimp only
    rw [hb]
    rfl
  refine ⟨(content, some p.id, reply), ?_⟩
  unfold checkRecord
  rw [hcontent, hquote, hreply]
  rfl

theorem mem_targets_of_quoted {record : PostRecord} {p : Post} (hp : p ∈ s.tables.posts)
    (hq : record.quoteUri.bind s.findIdByAtUri = some p.id) (hd : p.deleted = false) :
    p.id ∈ targets s.toState (.createRecord record) := by
  simp [targets, hq, s.findDeliveryMeta_of_mem hp hd]

end Refusals

/-! ## What is answered -/

section Answers

variable {E : Env} {s : State} {actorId id : Int64} {content : PostContent}

/-- No post with the id is seen. -/
def Hidden (s : State) (actorId id : Int64) : Prop :=
  ∀ p ∈ s.tables.posts, p.id = id → ¬ Sees s actorId p

theorem Store.hidden_of_mem (s : Store) {p : Post} (hp : p ∈ s.tables.posts)
    (hs : ¬ Sees s.toState actorId p) : Hidden s.toState actorId p.id := by
  intro q hq hid
  rw [s.eq_of_id hq hp hid]
  exact hs

theorem embeddedNote_setContent (h : Hidden s actorId id) :
    (s.setContent id content).embeddedNote actorId = s.embeddedNote actorId := by
  funext noteId
  unfold State.embeddedNote
  show (s.findByIdForViewer noteId actorId).map _ = _
  cases hf : s.findByIdForViewer noteId actorId with
  | none => rfl
  | some p =>
    obtain ⟨hp, -, -, hs⟩ := findByIdForViewer_some hf
    have hid : p.id ≠ id := fun hid => h p hp hid hs
    simp only [Option.map_some, State.setContent, Function.update_of_ne hid]
    rfl

theorem insertPost_setContent {p : Post} {recipients : List Int64} {c : PostContent}
    {quote : Option Int64} (h : p.id ≠ id) :
    (s.setContent id content).insertPost p recipients c quote =
      (s.insertPost p recipients c quote).setContent id content := by
  simp only [State.insertPost, State.setContent, Function.update_comm h]

theorem visible_insertPost {p q : Post} {recipients : List Int64} {c : PostContent}
    {quote : Option Int64} (h : p.id ≠ q.id) :
    Sees (s.insertPost p recipients c quote) actorId q ↔ Sees s actorId q := by
  have hr : (s.insertPost p recipients c quote).tables.isRecipient q.id actorId =
      s.tables.isRecipient q.id actorId := by
    simp [Tables.isRecipient, State.insertPost, List.any_append, Function.comp_def, h]
  unfold Sees Tables.visible Tables.postIsVisibleTo
  simp only [Option.any_some, hr]
  rfl

theorem hidden_insertPost {p : Post} {recipients : List Int64} {c : PostContent}
    {quote : Option Int64} (h : p.id ≠ id) (hh : Hidden s actorId id) :
    Hidden (s.insertPost p recipients c quote) actorId id := by
  intro q hq hid
  rw [visible_insertPost (hid ▸ h)]
  obtain hq | hq := List.mem_append.mp hq
  · exact hh q hq hid
  · rw [List.mem_singleton.mp hq] at hid
    exact absurd hid h

theorem createReaction_setContent (noteId reaction : String) :
    (createReaction E (s.setContent id content) actorId noteId reaction).1 =
      (createReaction E s actorId noteId reaction).1 := by
  have hc : checkReaction E (s.setContent id content) actorId noteId reaction =
      checkReaction E s actorId noteId reaction := rfl
  unfold createReaction
  rw [hc]
  split
  · rfl
  · rfl

theorem createPostFromRecord_setContent (record : PostRecord) :
    (createPostFromRecord E (s.setContent id content) actorId record).1 =
      (createPostFromRecord E s actorId record).1 := by
  have hc : checkRecord E (s.setContent id content) actorId record =
      checkRecord E s actorId record := rfl
  have hp : (s.setContent id content).hasPost = s.hasPost := rfl
  have ha : (s.setContent id content).hasApObjectId = s.hasApObjectId := rfl
  unfold createPostFromRecord
  rw [hc, hp, ha]
  split
  · rfl
  · split
    · rfl
    · rfl

theorem newId_ne (hid : s.hasPost id = true) (hn : s.hasPost E.newId = false) : E.newId ≠ id := by
  intro h
  rw [h, hid] at hn
  cases hn

theorem insertRegularPost_setContent (hne : E.newId ≠ id) (v : ValidatedCreatePost) :
    insertRegularPost E (s.setContent id content) actorId v =
      (insertRegularPost E s actorId v).setContent id content :=
  insertPost_setContent hne

theorem regularPostResponse_setContent (h : Hidden s actorId id) (v : ValidatedCreatePost) :
    regularPostResponse E (s.setContent id content) actorId v = regularPostResponse E s actorId v := by
  rw [regularPostResponse, embeddedNote_setContent h]
  rfl

theorem createRegularPost_setContent (h : Hidden s actorId id) (hid : s.hasPost id = true)
    (req : CreateNoteRequest) :
    (createRegularPost E (s.setContent id content) actorId req).1 =
      (createRegularPost E s actorId req).1 := by
  have hc : validateCreateRegularPostInput E (s.setContent id content) actorId req =
      validateCreateRegularPostInput E s actorId req := rfl
  have hp : (s.setContent id content).hasPost = s.hasPost := rfl
  have ha : (s.setContent id content).hasApObjectId = s.hasApObjectId := rfl
  unfold createRegularPost
  rw [hc, hp, ha]
  split
  · rfl
  · rename_i v hv
    split
    · rfl
    · rename_i hfree
      simp only [Bool.not_eq_true, Bool.or_eq_false_iff] at hfree
      have hne := newId_ne hid hfree.1
      have hh : Hidden (insertRegularPost E s actorId v) actorId id := hidden_insertPost hne h
      dsimp only
      rw [insertRegularPost_setContent hne, regularPostResponse_setContent hh]

theorem insertRepost_setContent (hne : E.newId ≠ id) (renoteId : Int64) (info : Post) :
    insertRepost E (s.setContent id content) actorId renoteId info =
      (insertRepost E s actorId renoteId info).setContent id content := by
  have hd : repostApObjectId E (s.setContent id content) renoteId info =
      repostApObjectId E s renoteId info := rfl
  have ha : (s.setContent id content).hasApObjectId = s.hasApObjectId := rfl
  unfold insertRepost
  rw [hd, ha]
  split
  · rfl
  · rw [insertPost_setContent]
    exact hne

theorem hidden_insertRepost (hne : E.newId ≠ id) (h : Hidden s actorId id) (renoteId : Int64)
    (info : Post) : Hidden (insertRepost E s actorId renoteId info) actorId id := by
  unfold insertRepost
  split
  · exact h
  · apply hidden_insertPost _ h
    exact hne

theorem repostResponse_setContent (h : Hidden s actorId id) (renoteId : Int64) :
    repostResponse E (s.setContent id content) actorId renoteId =
      repostResponse E s actorId renoteId := by
  rw [repostResponse, embeddedNote_setContent h]
  rfl

theorem createRepost_setContent (h : Hidden s actorId id) (hid : s.hasPost id = true)
    (renoteId : String) :
    (createRepost E (s.setContent id content) actorId renoteId).1 =
      (createRepost E s actorId renoteId).1 := by
  have hc : checkRepost (s.setContent id content) actorId renoteId =
      checkRepost s actorId renoteId := rfl
  have hp : (s.setContent id content).hasPost = s.hasPost := rfl
  have hr : alreadyReposted (s.setContent id content) actorId = alreadyReposted s actorId := rfl
  unfold createRepost
  rw [hc, hp, hr]
  split
  · rfl
  · rename_i target info ht
    split
    · rfl
    · rename_i hfree
      simp only [Bool.not_eq_true, Bool.or_eq_false_iff] at hfree
      have hne := newId_ne hid hfree.1
      dsimp only
      rw [insertRepost_setContent hne, repostResponse_setContent (hidden_insertRepost hne h _ _)]

theorem createNote_setContent (h : Hidden s actorId id) (hid : s.hasPost id = true)
    (req : CreateNoteRequest) :
    (createNote E (s.setContent id content) actorId req).1 = (createNote E s actorId req).1 := by
  unfold createNote
  split
  · rfl
  · split
    · exact createRepost_setContent h hid _
    · exact createRegularPost_setContent h hid _

/-- A vote is answered by what one post says. -/
theorem recordVote_setContent {noteId : Int64} {optionIndexes : List Nat}
    (h : ∀ info, s.findDeliveryMeta noteId = some info → info.id ≠ id) :
    (recordVote E (s.setContent id content) actorId noteId optionIndexes).1 =
      (recordVote E s actorId noteId optionIndexes).1 := by
  have hf : (s.setContent id content).findDeliveryMeta noteId = s.findDeliveryMeta noteId := rfl
  have hv : (s.setContent id content).pollVotes = s.pollVotes := rfl
  unfold recordVote
  rw [hf]
  cases hi : s.findDeliveryMeta noteId with
  | none => rfl
  | some info =>
    have hc : (s.setContent id content).content info.id = s.content info.id :=
      Function.update_of_ne (h info hi) _ _
    dsimp only
    rw [hc, hv]
    split
    · rfl
    · split
      · rfl
      · rfl

theorem votePoll_setContent {noteId : String} {optionIndexes : List Nat}
    (h : optionIndexes ≠ [] → ∀ noteId' info, parseI64 noteId = some noteId' →
      s.findDeliveryMeta noteId' = some info → info.id ≠ id) :
    (votePoll E (s.setContent id content) actorId noteId optionIndexes).1 =
      (votePoll E s actorId noteId optionIndexes).1 := by
  unfold votePoll
  split
  · rfl
  · rename_i noteId' hparse
    split
    · rfl
    · rename_i hopts
      exact recordVote_setContent fun info => h hopts noteId' info hparse

end Answers

/-! ## The requests that go by the checks -/

section Main

variable (E : Env) (s : Store) (actorId : Int64)

theorem handle_blind {r : Request} (hu : ¬ Unseen E s.toState actorId r) {p : Post}
    (hp : p ∈ s.tables.posts) (hs : ¬ Sees s.toState actorId p) (content : PostContent) :
    (handle E (s.setContent p.id content) actorId r).1 = (handle E s.toState actorId r).1 := by
  cases r with
  | react noteId reaction => exact createReaction_setContent noteId reaction
  | createRecord record => exact createPostFromRecord_setContent record
  | createNote req =>
    have hid : s.hasPost p.id = true := List.any_eq_true.mpr ⟨p, hp, beq_self_eq_true _⟩
    exact createNote_setContent (s.hidden_of_mem hp hs) hid req
  | votePoll noteId optionIndexes =>
    apply votePoll_setContent
    intro hopts noteId' info hparse hinfo hid
    obtain ⟨hmem, hinfoId, hd⟩ := findDeliveryMeta_some hinfo
    cases s.eq_of_id hmem hp hid
    exact hu ⟨hopts, p, hp, hparse.trans (congrArg some hinfoId.symm), hd, hs⟩

theorem refused_of_hidden {r : Request} (hu : ¬ Unseen E s.toState actorId r)
    (h : AboutHidden s.toState actorId r) : Refused E s.toState actorId r := by
  cases r with
  | react noteId reaction => exact react_refused h
  | votePoll noteId optionIndexes => exact votePoll_refused hu h
  | createNote req => exact createNote_refused h
  | createRecord record => exact createRecord_refused hu h

/-- What a vote for an option is answered, by the poll of the post -/
def voteAnswer (postId : Int64) (optionIndexes : List Nat) : Option Poll → Answer
  | none => .error (.badRequest "NOT_A_POLL")
  | some poll =>
    match recordLocalVote poll (s.pollVotes postId) E.now actorId optionIndexes with
    | .error e => rejected e
    | .ok (poll, _) => .poll poll

theorem votePoll_answer {noteId : String} {optionIndexes : List Nat} (hopts : optionIndexes ≠ [])
    {p : Post} (hp : p ∈ s.tables.posts) (hparse : parseI64 noteId = some p.id)
    (hd : p.deleted = false) (content : PostContent) :
    (handle E (s.setContent p.id content) actorId (.votePoll noteId optionIndexes)).1 =
      voteAnswer E s actorId p.id optionIndexes content.poll := by
  have hf : (s.setContent p.id content).findDeliveryMeta p.id = some p :=
    s.findDeliveryMeta_of_mem hp hd
  have hc : (s.setContent p.id content).content p.id = content := Function.update_self _ _ _
  have hv : (s.setContent p.id content).pollVotes = s.pollVotes := rfl
  show (votePoll E (s.setContent p.id content) actorId noteId optionIndexes).1 = _
  unfold votePoll
  rw [hparse]
  dsimp only
  rw [if_neg hopts]
  unfold recordVote
  rw [hf]
  dsimp only
  rw [hc, hv]
  cases content.poll with
  | none => rfl
  | some poll =>
    unfold voteAnswer
    dsimp only
    cases recordLocalVote poll (s.pollVotes p.id) E.now actorId optionIndexes with
    | error e => rfl
    | ok voted => rfl

theorem validateVote_nil {optionIndexes : List Nat} (hopts : optionIndexes ≠ []) (now : Nat) :
    validateVote ⟨true, [], none, none⟩ now optionIndexes =
      .error (.invalid "INVALID_POLL_OPTIONS") := by
  have hany : ((optionIndexes.insertionSort (· ≤ ·)).dedup).any (0 ≤ ·) = true := by
    obtain ⟨i, rest, rfl⟩ := List.exists_cons_of_ne_nil hopts
    exact List.any_eq_true.mpr ⟨i, by simp, by simp⟩
  unfold validateVote
  dsimp only
  rw [if_pos]
  simp only [List.length_nil, hany, Bool.or_true]

/-- That a post has no poll is told apart from that its poll has no options. -/
theorem voteAnswer_ne {optionIndexes : List Nat} (hopts : optionIndexes ≠ []) (postId : Int64) :
    voteAnswer E s actorId postId optionIndexes none ≠
      voteAnswer E s actorId postId optionIndexes (some ⟨true, [], none, none⟩) := by
  have hr : recordLocalVote ⟨true, [], none, none⟩ (s.pollVotes postId) E.now actorId
      optionIndexes = .error (.invalid "INVALID_POLL_OPTIONS") := by
    unfold recordLocalVote
    rw [validateVote_nil hopts]
    rfl
  simp [voteAnswer, hr, rejected]

/-- Votes and records apart, an actor interacts with what the actor sees. -/
theorem interaction_confined_iff (r : Request) :
    Confined E s.toState actorId r ↔ ¬ Unseen E s.toState actorId r := by
  constructor
  · intro h hu
    cases r with
    | react noteId reaction => exact hu
    | createNote req => exact hu
    | votePoll noteId optionIndexes =>
      obtain ⟨hopts, p, hp, hparse, hd, hs⟩ := hu
      apply voteAnswer_ne E s actorId hopts p.id
      have hnone := h.blind p hp hs {}
      have hempty := h.blind p hp hs { poll := some ⟨true, [], none, none⟩ }
      rw [votePoll_answer E s actorId hopts hp hparse hd] at hnone hempty
      exact hnone.trans hempty.symm
    | createRecord record =>
      obtain ⟨hadmitted, p, hp, hq, hd, hs, hb⟩ := hu
      obtain ⟨x, hx⟩ := checkRecord_of_quoted hadmitted hp hq hd hb
      have hrows := createPostFromRecord_of_admitted hadmitted hx
      rw [h.unchanged ⟨p, hp, mem_targets_of_quoted hp hq hd, hs⟩] at hrows
      exact absurd hrows (Nat.succ_ne_self _).symm
  · intro hu
    exact confined_of (refused_of_hidden E s actorId hu)
      fun p hp hs content => handle_blind E s actorId hu hp hs content

end Main

/-- Nothing is refused here for another reason. -/
def lenient : Env where
  now := 0
  localDomain := "a.example"
  newId := 9
  role _ := "user"
  didMovedOut _ := false
  resolveReactionContent content := .ok (content, none)
  admitText _ _ := .ok ()
  admitPost req _ _ := .ok { body := req.text.getD "" }
  admitContacts _ _ _ := .ok ()
  attached := true
  admitRecord _ record := .ok { body := record.text }
  committed := true

/-- A poll of 1 for the followers of 1, of whom 2 is none -/
def privatePoll : Store where
  tables := {
    actors := [⟨1, .localUser, false, false⟩, ⟨2, .localUser, false, false⟩]
    posts := [{ id := 7, actorId := 1, visibility := .followersOnly, isLocal := true }] }
  content _ := { poll := some ⟨false, [⟨"yes", 0⟩, ⟨"no", 0⟩], none, none⟩ }
  posts_pkey := by decide

theorem vote_of_unseen :
    (handle lenient privatePoll.toState 2 (.votePoll "7" [0])).1 =
        .poll ⟨false, [⟨"yes", 1⟩, ⟨"no", 0⟩], none, none⟩ ∧
      ¬ Confined lenient privatePoll.toState 2 (.votePoll "7" [0]) := by
  refine ⟨by decide, fun h => ?_⟩
  have hs := h.seen (by decide) { id := 7, actorId := 1, visibility := .followersOnly, isLocal := true }
    (by decide) (by decide)
  revert hs
  unfold Sees
  decide

end Seiran.Interact
