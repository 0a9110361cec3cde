import Mathlib.Data.List.Nodup
import Mathlib.Data.List.TakeWhile
import Seiran.Model.Dm.Import

/-!
# Each message of the peer is imported and published once

* `fetchConvoMessages_eq`: a poll fetches what follows the cursor, within the limits of
  its pages;
* `Inv`: what was imported and published is a beginning of the conversation, up to the
  cursor of its only link;
* `imported_once`: in a run that stays within the limits each message is imported and
  published at most once, and those that a poll found are.
-/

namespace Seiran.BskyDmPoll

open BskyDm (ConvoLink loadConvoLink saveConvoId advanceConvoCursor)

variable {Convo : Type} [DecidableEq Convo] {convoId : Convo} {s t : State Convo}

section Fetch

/-- The messages after the cursor, the newest first -/
def afterCursor (history : List Message) (lastSynced : Option String) : List Message :=
  history.reverse.takeWhile fun m => some m.id ≠ lastSynced

/-- There are no more messages after the cursor than a poll fetches. -/
def WithinPages (history : List Message) (lastSynced : Option String) : Prop :=
  (afterCursor history lastSynced).length ≤
    if lastSynced.isNone then maxInitialSyncMessages else pageLimit

theorem takeWhile_none (messages : List Message) :
    messages.takeWhile (fun m => decide (some m.id ≠ none)) = messages :=
  List.takeWhile_eq_self_iff.mpr fun m _ => by simp

theorem fetchLoop_none (pagesLeft : Nat) (newMessages rest : List Message)
    (hpages : rest.length ≤ pagesLeft * pageLimit)
    (hlength : newMessages.length + rest.length ≤ maxInitialSyncMessages) :
    fetchLoop none pagesLeft newMessages rest = newMessages ++ rest := by
  induction pagesLeft generalizing newMessages rest with
  | zero =>
    rw [Nat.zero_mul] at hpages
    have hrest : rest = [] := List.length_eq_zero_iff.mp (by omega)
    rw [hrest, fetchLoop, List.append_nil]
  | succ pagesLeft ih =>
    have hsplit : newMessages ++ rest.take pageLimit ++ rest.drop pageLimit = newMessages ++ rest := by
      rw [List.append_assoc, List.take_append_drop]
    rw [fetchLoop, takeWhile_none]
    split
    · rename_i hcontinue
      rw [ih, hsplit]
      · rw [List.length_drop]
        rw [Nat.succ_mul] at hpages
        omega
      · rw [← List.length_append, hsplit, List.length_append]
        exact hlength
    · rename_i hstop
      have hrest : rest.drop pageLimit = [] := by
        by_contra hrest
        have hlong : pageLimit < rest.length := by simpa using hrest
        have hpage : rest.take pageLimit ≠ [] := by
          intro h
          have := congrArg List.length h
          rw [List.length_take, List.length_nil] at this
          simp only [pageLimit] at this hlong
          omega
        refine hstop ⟨rfl, by simp, hrest, hpage, ?_⟩
        rw [List.length_append, List.length_take]
        omega
      rw [← hsplit, hrest, List.append_nil]

/-- Within the limits a poll fetches what follows the cursor. -/
theorem fetchConvoMessages_eq {history : List Message} {lastSynced : Option String}
    (h : WithinPages history lastSynced) :
    fetchConvoMessages history lastSynced = afterCursor history lastSynced := by
  rw [WithinPages] at h
  cases lastSynced with
  | none =>
    rw [afterCursor, takeWhile_none, Option.isNone_none, if_pos rfl] at h
    rw [afterCursor, takeWhile_none]
    exact fetchLoop_none _ _ _ h (by simpa using h)
  | some last =>
    have hlength : (afterCursor history (some last)).length ≤ pageLimit := h
    rw [fetchConvoMessages, maxInitialSyncPages, fetchLoop, ← List.take_takeWhile, ← afterCursor,
      List.take_of_length_le hlength]
    simp

/-- After what was done comes what is to do. -/
theorem afterCursor_append {done todo : List Message}
    (hids : ((done ++ todo).map Message.id).Nodup) :
    afterCursor (done ++ todo) (done.getLast?.map Message.id) = todo.reverse := by
  rw [afterCursor]
  rcases List.eq_nil_or_concat' done with rfl | ⟨init, last, rfl⟩
  · exact takeWhile_none _
  have hother : ∀ m ∈ todo.reverse,
      decide (some m.id ≠ (init ++ [last]).getLast?.map Message.id) = true := by
    intro m hm
    rw [List.map_append] at hids
    have hne := (List.nodup_append.mp hids).2.2 last.id (by simp) m.id
      (List.mem_map_of_mem (List.mem_reverse.mp hm))
    simpa using hne.symm
  rw [List.reverse_append, List.takeWhile_append_of_pos hother, List.reverse_append]
  simp

end Fetch

section Links

variable {C : Type} {c : C} {root : Int64} {last : Option String} {messageId : String}

theorem saveConvoId_nil : saveConvoId [] root c = [⟨root, c, none⟩] := rfl

theorem saveConvoId_singleton : saveConvoId [⟨root, c, last⟩] root c = [⟨root, c, last⟩] := by
  simp [saveConvoId, BskyDm.upsertLink]

theorem advanceConvoCursor_nil :
    advanceConvoCursor [] root c messageId = [⟨root, c, some messageId⟩] := rfl

theorem advanceConvoCursor_singleton :
    advanceConvoCursor [⟨root, c, last⟩] root c messageId = [⟨root, c, some messageId⟩] := by
  simp [advanceConvoCursor, BskyDm.upsertLink]

end Links

section Invariant

/-- The messages of the peer -/
def peerIds (messages : List Message) : List String := (messages.filter Message.byPeer).map Message.id

@[simp] theorem peerIds_nil : peerIds [] = [] := rfl

@[simp] theorem peerIds_append (a b : List Message) : peerIds (a ++ b) = peerIds a ++ peerIds b := by
  rw [peerIds, List.filter_append, List.map_append]
  rfl

theorem peerIds_own {m : Message} (h : m.byPeer = false) : peerIds [m] = [] := by
  simp [peerIds, h]

theorem peerIds_peer {m : Message} (h : m.byPeer = true) : peerIds [m] = [m.id] := by
  simp [peerIds, h]

theorem peerIds_sublist (messages : List Message) :
    (peerIds messages).Sublist (messages.map Message.id) := List.filter_sublist.map _

theorem importBskyDm_eq {posts : List ImportedPost} {postId root : Int64} {messageId : String}
    {r : Int64 × List ImportedPost} (hnew : messageId ∉ posts.map ImportedPost.bskyMessageId)
    (h : importBskyDm posts postId root messageId = some r) :
    r = (root, posts ++ [⟨postId, root, messageId⟩]) := by
  have hnone : posts.find? (fun p => p.bskyMessageId == messageId) = none := by
    refine List.find?_eq_none.mpr fun p hp heq => ?_
    exact hnew (List.mem_map.mpr ⟨p, hp, by simpa using heq⟩)
  rw [importBskyDm, hnone] at h
  simp only at h
  split at h
  · cases h
  · exact (Option.some.inj h).symm

/-- What a poll that runs knows: it has gone past messages of the account alone as long as
there is no link. -/
def PollOk (convoId : Convo) (s : State Convo) (done todo : List Message) (p : Poll) : Prop :=
  ∃ skipped later, todo = skipped ++ p.newMessages ++ later ∧ peerIds skipped = [] ∧
    p.fetchedFrom = (done ++ skipped ++ p.newMessages).length ∧
      ((p.currentThreadRoot = none ∧ s.links = []) ∨
        skipped = [] ∧ ∃ root last, p.currentThreadRoot = some root ∧ s.links = [⟨root, convoId, last⟩])

/-- What was done is a beginning of the conversation, and the cursor of its only link is
where it ends. -/
structure Inv (convoId : Convo) (s : State Convo) (done todo : List Message) : Prop where
  history : s.history = done ++ todo
  ids : (s.history.map Message.id).Nodup
  imported : s.posts.map ImportedPost.bskyMessageId = peerIds done
  published : s.published ++ (s.poll.bind Poll.imported).toList = peerIds done
  cursor : (s.links = [] ∧ done = []) ∨
    ∃ root, s.links = [⟨root, convoId, done.getLast?.map Message.id⟩]
  poll : ∀ p ∈ s.poll, PollOk convoId s done todo p
  polled : s.polledUpTo ≤ s.history.length ∧
    ∀ m ∈ s.history.take s.polledUpTo, m.byPeer = true → m ∈ done

/-- A second thread with the peer gets no link, a poll finds no more than it can fetch, and
none is cut off between an import and what is published of it. -/
def Within (s : State Convo) : Action Convo → Prop
  | .saveConvoId root =>
    (∀ l ∈ s.links, l.threadRootPostId = root) ∧ ∀ p ∈ s.poll, p.currentThreadRoot ≠ none
  | .startPoll link => WithinPages s.history (link.bind ConvoLink.lastSyncedMessageId)
  | .failPoll => ∀ p ∈ s.poll, p.imported = none
  | _ => True

theorem inv_newMessage {done todo : List Message} {id : String} {byPeer : Bool}
    (h : Inv convoId s done todo) (hs : step convoId s (.newMessage id byPeer) = some t) :
    Inv convoId t done (todo ++ [⟨id, byPeer⟩]) := by
  simp only [step] at hs
  split at hs
  · cases hs
  rename_i hnew
  cases hs
  refine ⟨by rw [h.history, List.append_assoc], ?_, h.imported, h.published, h.cursor, ?_, ?_, ?_⟩
  · rw [List.map_append, List.nodup_append]
    refine ⟨h.ids, by simp, ?_⟩
    intro a ha b hb heq
    obtain ⟨m, hm, rfl⟩ := List.mem_map.mp ha
    refine hnew (List.any_eq_true.mpr ⟨m, hm, ?_⟩)
    simpa [heq] using hb
  · intro p hp
    obtain ⟨skipped, later, rfl, hskipped, hfrom, hroot⟩ := h.poll p hp
    exact ⟨skipped, later ++ [⟨id, byPeer⟩], by simp, hskipped, hfrom, hroot⟩
  · rw [List.length_append]
    exact Nat.le_add_right_of_le h.polled.1
  · intro m hm
    rw [List.take_append_of_le_length h.polled.1] at hm
    exact h.polled.2 m hm

theorem inv_saveConvoId {done todo : List Message} {root : Int64} (h : Inv convoId s done todo)
    (hw : Within s (.saveConvoId root)) (hs : step convoId s (.saveConvoId root) = some t) :
    Inv convoId t done todo := by
  cases hs
  obtain ⟨hroot, hpoll⟩ := hw
  rcases h.cursor with ⟨hlinks, rfl⟩ | ⟨root', hlinks⟩
  · have hnone : s.poll = none := by
      by_contra hsome
      obtain ⟨p, hp⟩ := Option.ne_none_iff_exists'.mp hsome
      obtain ⟨-, -, -, -, -, ⟨hroot, -⟩ | ⟨-, _, _, -, hlinks'⟩⟩ := h.poll p hp
      · exact hpoll p hp hroot
      · rw [hlinks] at hlinks'
        cases hlinks'
    refine ⟨h.history, h.ids, h.imported, h.published, .inr ⟨root, ?_⟩, ?_, h.polled⟩
    · rw [hlinks, saveConvoId_nil]
      rfl
    · intro p hp
      rw [hnone] at hp
      cases hp
  · have hsame : root' = root := hroot _ (by rw [hlinks]; exact List.mem_singleton_self _)
    subst hsame
    have hlinks' : saveConvoId s.links root' convoId = s.links := by
      rw [hlinks, saveConvoId_singleton]
    rw [hlinks']
    exact h

/-- The link that a poll reads has the cursor. -/
theorem loadConvoLink_cursor {done todo : List Message} {link : Option (ConvoLink Convo)}
    {root : Option Int64} (h : Inv convoId s done todo)
    (hload : loadConvoLink s.links convoId link = some root) :
    link.bind ConvoLink.lastSyncedMessageId = done.getLast?.map Message.id ∧
      ((root = none ∧ s.links = []) ∨
        ∃ r last, root = some r ∧ s.links = [⟨r, convoId, last⟩]) := by
  rcases h.cursor with ⟨hlinks, rfl⟩ | ⟨r, hlinks⟩
  · cases link with
    | none =>
      simp only [loadConvoLink, BskyDm.convoLinks, hlinks, List.filter_nil, if_true,
        Option.some.injEq] at hload
      exact ⟨rfl, .inl ⟨hload.symm, hlinks⟩⟩
    | some l => simp [loadConvoLink, BskyDm.convoLinks, hlinks] at hload
  · cases link with
    | none => simp [loadConvoLink, BskyDm.convoLinks, hlinks] at hload
    | some l =>
      rw [loadConvoLink, hlinks] at hload
      split at hload
      · rename_i hl
        have hl : l = ⟨r, convoId, done.getLast?.map Message.id⟩ :=
          List.mem_singleton.mp (List.mem_of_mem_filter hl)
        cases hload
        subst hl
        exact ⟨rfl, .inr ⟨r, _, rfl, hlinks⟩⟩
      · cases hload

theorem inv_startPoll {done todo : List Message} {link : Option (ConvoLink Convo)}
    (h : Inv convoId s done todo) (hw : Within s (.startPoll link))
    (hs : step convoId s (.startPoll link) = some t) : Inv convoId t done todo := by
  simp only [step] at hs
  split at hs
  · cases hs
  rename_i hidle
  obtain ⟨root, hload, rfl⟩ := Option.map_eq_some_iff.mp hs
  obtain ⟨hcursor, hroot⟩ := loadConvoLink_cursor h hload
  have hpublished : s.published = peerIds done := by
    simpa [Option.not_isSome_iff_eq_none.mp hidle] using h.published
  have hfetch : (fetchConvoMessages s.history (link.bind ConvoLink.lastSyncedMessageId)).reverse =
      todo := by
    have hids := h.ids
    rw [h.history] at hids
    rw [fetchConvoMessages_eq hw, hcursor, h.history, afterCursor_append hids, List.reverse_reverse]
  rw [hfetch]
  refine ⟨h.history, h.ids, h.imported, by simpa using hpublished, h.cursor, ?_, h.polled⟩
  intro p hp
  cases hp
  refine ⟨[], [], by simp, rfl, ?_, ?_⟩
  · rw [h.history, List.append_nil]
  · exact hroot.imp_right fun hr => ⟨rfl, hr⟩

omit [DecidableEq Convo] in
/-- The next message of a poll is done, after what was skipped before it. -/
theorem Inv.advance {done skipped rest later : List Message} {m : Message} {p : Poll} {root : Int64}
    {posts : List ImportedPost} {imported : Option String}
    (h : Inv convoId s done (skipped ++ m :: rest ++ later)) (hp : s.poll = some p)
    (hnone : p.imported = none) (hskipped : peerIds skipped = [])
    (hfrom : p.fetchedFrom = (done ++ skipped ++ m :: rest).length)
    (hposts : posts.map ImportedPost.bskyMessageId = peerIds done ++ peerIds [m])
    (himported : imported.toList = peerIds [m]) :
    Inv convoId { s with
        posts
        links := [⟨root, convoId, some m.id⟩]
        poll := some ⟨some root, rest, imported, p.fetchedFrom⟩ }
      (done ++ skipped ++ [m]) (rest ++ later) := by
  have hpublished := h.published
  rw [hp, Option.bind_some, hnone, Option.toList_none, List.append_nil] at hpublished
  constructor
  case history =>
    rw [h.history]
    simp
  case ids => exact h.ids
  case imported =>
    rw [hposts, peerIds_append, peerIds_append, hskipped, List.append_nil]
  case published =>
    rw [peerIds_append, peerIds_append, hskipped, List.append_nil, ← himported, ← hpublished]
    rfl
  case cursor => exact .inr ⟨root, by simp⟩
  case poll =>
    intro p' hp'
    cases hp'
    refine ⟨[], later, rfl, rfl, ?_, .inr ⟨rfl, root, _, rfl, rfl⟩⟩
    rw [hfrom]
    simp
  case polled =>
    refine ⟨h.polled.1, fun m' hm hpeer => ?_⟩
    exact List.mem_append_left _ (List.mem_append_left _ (h.polled.2 m' hm hpeer))

theorem inv_next {done todo : List Message} {candidatePostId : Int64}
    (h : Inv convoId s done todo) (hs : step convoId s (.next candidatePostId) = some t) :
    ∃ done' todo', Inv convoId t done' todo' := by
  obtain ⟨⟨root, newMessages, imported, fetchedFrom⟩, hp, hs⟩ := Option.bind_eq_some_iff.mp hs
  obtain ⟨skipped, later, rfl, hskipped, hfrom, hroot⟩ := h.poll _ hp
  simp only at h hfrom hroot
  rw [syncMessage] at hs
  split at hs
  case h_2 => cases hs
  rename_i m rest himported hnew
  simp only at himported hnew
  subst himported hnew
  split at hs
  · rename_i hpeer
    -- an import, under a thread of its own if there is no link
    have hfresh : m.id ∉ s.posts.map ImportedPost.bskyMessageId := by
      have hids := h.ids
      rw [h.history, List.map_append, List.nodup_append] at hids
      intro hmem
      rw [h.imported] at hmem
      exact hids.2.2 m.id ((peerIds_sublist done).subset hmem) m.id (by simp) rfl
    simp only [Option.bind_eq_bind, Option.bind_eq_some_iff, Prod.exists, Option.pure_def,
      Option.some.injEq] at hs
    obtain ⟨threadRoot, posts, himport, rfl⟩ := hs
    cases importBskyDm_eq hfresh himport
    have hlinks : advanceConvoCursor s.links (root.getD candidatePostId) convoId m.id =
        [⟨root.getD candidatePostId, convoId, some m.id⟩] := by
      rcases hroot with ⟨rfl, hlinks⟩ | ⟨-, r, last, rfl, hlinks⟩
      · rw [hlinks, advanceConvoCursor_nil]
      · rw [hlinks, Option.getD_some, advanceConvoCursor_singleton]
    rw [hlinks]
    refine ⟨_, _, h.advance hp rfl hskipped hfrom ?_ ?_⟩
    · rw [List.map_append, h.imported, peerIds_peer hpeer]
      rfl
    · rw [peerIds_peer hpeer]
      rfl
  · rename_i hown
    have hown : peerIds [m] = [] := peerIds_own (by simpa using hown)
    rcases hroot with ⟨rfl, hlinks⟩ | ⟨rfl, r, last, rfl, hlinks⟩
    · -- it is skipped
      cases hs
      have hpublished := h.published
      rw [hp] at hpublished
      refine ⟨done, _, h.history, h.ids, h.imported, hpublished, h.cursor, ?_, h.polled⟩
      intro p' hp'
      cases hp'
      refine ⟨skipped ++ [m], later, by simp, by rw [peerIds_append, hskipped, hown]; rfl, ?_,
        .inl ⟨rfl, hlinks⟩⟩
      rw [hfrom]
      simp
    · simp only [Option.some.injEq] at hs
      subst hs
      rw [hlinks, advanceConvoCursor_singleton]
      refine ⟨_, _, h.advance hp rfl hskipped hfrom ?_ hown.symm⟩
      rw [h.imported, hown, List.append_nil]

theorem inv_publish {done todo : List Message} (h : Inv convoId s done todo)
    (hs : step convoId s .publish = some t) : Inv convoId t done todo := by
  simp only [step, Option.bind_eq_bind, Option.bind_eq_some_iff] at hs
  obtain ⟨p, hp, messageId, himported, hs⟩ := hs
  cases hs
  have hpublished := h.published
  rw [hp] at hpublished
  refine ⟨h.history, h.ids, h.imported, ?_, h.cursor, ?_, h.polled⟩
  · simpa [himported] using hpublished
  · intro p' hp'
    cases hp'
    exact h.poll p hp

theorem inv_endPoll {done todo : List Message} (h : Inv convoId s done todo)
    (hs : step convoId s .endPoll = some t) : Inv convoId t done todo := by
  simp only [step, Option.bind_eq_bind, Option.bind_eq_some_iff, Option.guard_eq_some'] at hs
  obtain ⟨p, hp, -, ⟨hdone, himported⟩, hs⟩ := hs
  cases hs
  have hpublished := h.published
  rw [hp, Option.bind_some, himported] at hpublished
  obtain ⟨skipped, later, rfl, hskipped, hfrom, -⟩ := h.poll p hp
  rw [hdone, List.append_nil] at hfrom
  refine ⟨h.history, h.ids, h.imported, by simpa using hpublished, h.cursor, nofun, ?_, ?_⟩
  · rw [h.history, hfrom]
    simp
  · intro m hm hpeer
    have htake : s.history.take p.fetchedFrom = done ++ skipped := by
      rw [h.history, hfrom, hdone, List.append_nil, ← List.append_assoc, List.take_left]
    rw [htake] at hm
    rcases List.mem_append.mp hm with hm | hm
    · exact hm
    · have hid : m.id ∈ peerIds skipped :=
        List.mem_map_of_mem (List.mem_filter.mpr ⟨hm, hpeer⟩)
      rw [hskipped] at hid
      cases hid

theorem inv_failPoll {done todo : List Message} (h : Inv convoId s done todo)
    (hw : Within s .failPoll) (hs : step convoId s .failPoll = some t) :
    Inv convoId t done todo := by
  simp only [step] at hs
  split at hs
  · cases hs
    have hpublished := h.published
    have himported : s.poll.bind Poll.imported = none := by
      cases hp : s.poll with
      | none => rfl
      | some p => exact hw p hp
    rw [himported] at hpublished
    exact ⟨h.history, h.ids, h.imported, hpublished, h.cursor, nofun, h.polled⟩
  · cases hs

/-- What was imported and published is a beginning of the conversation. -/
def Sound (convoId : Convo) (s : State Convo) : Prop := ∃ done todo, Inv convoId s done todo

theorem sound_step {act : Action Convo} (h : Sound convoId s) (hw : Within s act)
    (hs : (machine convoId).step s act = some t) : Sound convoId t := by
  obtain ⟨done, todo, h⟩ := h
  cases act with
  | newMessage id byPeer => exact ⟨_, _, inv_newMessage h hs⟩
  | saveConvoId root => exact ⟨_, _, inv_saveConvoId h hw hs⟩
  | startPoll link => exact ⟨_, _, inv_startPoll h hw hs⟩
  | next candidatePostId => exact inv_next h hs
  | publish => exact ⟨_, _, inv_publish h hs⟩
  | endPoll => exact ⟨_, _, inv_endPoll h hs⟩
  | failPoll => exact ⟨_, _, inv_failPoll h hw hs⟩

omit [DecidableEq Convo] in
theorem sound_start : Sound convoId ({} : State Convo) :=
  ⟨[], [], rfl, List.nodup_nil, rfl, rfl, .inl ⟨rfl, rfl⟩, nofun, Nat.le_refl _, nofun⟩

end Invariant

section Runs

variable {acts : List (Action Convo)}

/-- How often a message was imported, and how often it was published -/
def importedTimes (s : State Convo) (id : String) : Nat :=
  (s.posts.map ImportedPost.bskyMessageId).count id

def publishedTimes (s : State Convo) (id : String) : Nat := s.published.count id

/-- No message of the peer is imported or published twice, and all that a poll which went to
its end had before it were. -/
structure ImportedOnce (s : State Convo) : Prop where
  atMostOnce : ∀ m ∈ s.history, m.byPeer = true →
    importedTimes s m.id ≤ 1 ∧ publishedTimes s m.id ≤ 1
  noneMissed : s.poll = none → ∀ m ∈ s.history.take s.polledUpTo, m.byPeer = true →
    importedTimes s m.id = 1 ∧ publishedTimes s m.id = 1

omit [DecidableEq Convo] in
theorem importedOnce_of_sound (h : Sound convoId s) : ImportedOnce s := by
  obtain ⟨done, todo, h⟩ := h
  have hnodup : (peerIds done).Nodup := by
    have hids := h.ids
    rw [h.history, List.map_append] at hids
    exact ((List.nodup_append.mp hids).1).sublist (peerIds_sublist done)
  have hpublished : s.published.Sublist (peerIds done) := by
    rw [← h.published]
    exact List.sublist_append_left _ _
  constructor
  case atMostOnce =>
    intro m _ _
    rw [importedTimes, publishedTimes, h.imported]
    exact ⟨List.nodup_iff_count_le_one.mp hnodup _,
      List.nodup_iff_count_le_one.mp (hnodup.sublist hpublished) _⟩
  case noneMissed =>
    intro hidle m hm hpeer
    have hid : m.id ∈ peerIds done :=
      List.mem_map_of_mem (List.mem_filter.mpr ⟨h.polled.2 m hm hpeer, hpeer⟩)
    have hall := h.published
    rw [hidle, Option.bind_none, Option.toList_none, List.append_nil] at hall
    rw [importedTimes, publishedTimes, h.imported, hall]
    exact ⟨List.count_eq_one_of_mem hnodup hid, List.count_eq_one_of_mem hnodup hid⟩

/-- Within the limits each message of the peer is imported and published once. -/
theorem imported_once (hr : (machine convoId).run {} acts = some t)
    (hw : (machine convoId).Along Within {} acts) : ImportedOnce t :=
  importedOnce_of_sound ((machine convoId).run_inv_along sound_step sound_start hw hr)

instance (history : List Message) (lastSynced : Option String) :
    Decidable (WithinPages history lastSynced) := inferInstanceAs (Decidable (_ ≤ _))

instance (s : State Convo) (act : Action Convo) : Decidable (Within s act) := by
  cases act <;> dsimp only [Within] <;> infer_instance

/-- A thread that is started here, an answer, and another one after the first poll -/
def answered : List (Action String) :=
  [.newMessage "3la" false, .saveConvoId 10, .newMessage "3lb" true,
    .startPoll (some ⟨10, "convo", none⟩), .next 20, .next 20, .publish, .endPoll,
    .newMessage "3lc" true, .startPoll (some ⟨10, "convo", some "3lb"⟩), .failPoll,
    .startPoll (some ⟨10, "convo", some "3lb"⟩), .next 21, .publish, .endPoll]

theorem imported_once_answered : ∃ t, (machine "convo").run {} answered = some t ∧
    t.published = ["3lb", "3lc"] ∧ t.posts = [⟨20, 10, "3lb"⟩, ⟨21, 10, "3lc"⟩] ∧ ImportedOnce t := by
  have hr : (machine "convo").run {} answered = some _ := rfl
  exact ⟨_, hr, rfl, rfl, imported_once hr (by decide)⟩

/-- A poll that ends after the import never publishes it, and none does later. -/
theorem imported_once_counterexample : ∃ t, (machine "convo").run {}
    [.newMessage "3la" true, .startPoll none, .next 20, .failPoll,
      .startPoll (some ⟨20, "convo", some "3la"⟩), .endPoll] = some t ∧
    importedTimes t "3la" = 1 ∧ publishedTimes t "3la" = 0 ∧ ¬ ImportedOnce t := by
  refine ⟨_, rfl, by decide, by decide, fun h => ?_⟩
  exact absurd (h.noneMissed rfl ⟨"3la", true⟩ (by decide) rfl).2 (by decide)

end Runs

end Seiran.BskyDmPoll
