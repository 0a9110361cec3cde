import Seiran.Framework.Int64

/-!
# Threads and conversations

The table `bsky_convo_links`, whose primary key is the thread, and the statements
of `repository/dm.rs` on it. The service that gives a conversation its identifier
is outside, and nothing looks into one.
-/

namespace Seiran.BskyDm

variable {Convo : Type} [DecidableEq Convo]

/-- A row of `bsky_convo_links` -/
structure ConvoLink (Convo : Type) where
  threadRootPostId : Int64
  convoId : Convo
  lastSyncedMessageId : Option String
deriving DecidableEq

/-- `convo_id_for_thread` -/
def convoIdForThread (links : List (ConvoLink Convo)) (threadRootPostId : Int64) : Option Convo :=
  (links.find? (·.threadRootPostId == threadRootPostId)).map ConvoLink.convoId

/-- `INSERT … ON CONFLICT (thread_root_post_id) DO UPDATE` -/
def upsertLink (links : List (ConvoLink Convo)) (row : ConvoLink Convo)
    (update : ConvoLink Convo → ConvoLink Convo) : List (ConvoLink Convo) :=
  if links.any (·.threadRootPostId == row.threadRootPostId) then
    links.map fun l => if l.threadRootPostId == row.threadRootPostId then update l else l
  else links ++ [row]

/-- `save_convo_id` -/
def saveConvoId (links : List (ConvoLink Convo)) (threadRootPostId : Int64) (convoId : Convo) :
    List (ConvoLink Convo) :=
  upsertLink links ⟨threadRootPostId, convoId, none⟩ fun l => { l with convoId }

/-- `advance_convo_cursor` -/
def advanceConvoCursor (links : List (ConvoLink Convo)) (threadRootPostId : Int64)
    (convoId : Convo) (messageId : String) : List (ConvoLink Convo) :=
  upsertLink links ⟨threadRootPostId, convoId, some messageId⟩ fun l =>
    { l with lastSyncedMessageId := some messageId }

/-- The rows of which `convo_link` returns one, if there is any -/
def convoLinks (links : List (ConvoLink Convo)) (convoId : Convo) : List (ConvoLink Convo) :=
  links.filter (·.convoId == convoId)

/-- `load_convo_link`, if this is what it can read -/
def loadConvoLink (links : List (ConvoLink Convo)) (convoId : Convo) :
    Option (ConvoLink Convo) → Option (Option Int64)
  | none => if convoLinks links convoId = [] then some none else none
  | some l => if l ∈ convoLinks links convoId then some (some l.threadRootPostId) else none

section Laws

variable {links : List (ConvoLink Convo)} {row l : ConvoLink Convo}
  {update : ConvoLink Convo → ConvoLink Convo} {root : Int64} {c : Convo}

omit [DecidableEq Convo] in
theorem mem_of_convoIdForThread (h : convoIdForThread links root = some c) :
    ∃ l ∈ links, l.threadRootPostId = root ∧ l.convoId = c := by
  obtain ⟨l, hl, rfl⟩ := Option.map_eq_some_iff.mp h
  exact ⟨l, List.mem_of_find?_eq_some hl, by simpa using List.find?_some hl, rfl⟩

omit [DecidableEq Convo] in
theorem mem_upsertLink (h : l ∈ upsertLink links row update) :
    l ∈ links ∨ l = row ∨ ∃ l' ∈ links, l'.threadRootPostId = row.threadRootPostId ∧ l = update l' := by
  rw [upsertLink] at h
  split at h
  · obtain ⟨l', hl', heq⟩ := List.mem_map.mp h
    split at heq
    · rename_i hroot
      exact .inr (.inr ⟨l', hl', by simpa using hroot, heq.symm⟩)
    · exact .inl (heq ▸ hl')
  · rcases List.mem_append.mp h with hl | hl
    · exact .inl hl
    · exact .inr (.inl (List.mem_singleton.mp hl))

omit [DecidableEq Convo] in
/-- The links of the threads afterwards -/
theorem mem_saveConvoId (h : l ∈ saveConvoId links root c) :
    (∃ l' ∈ links, l'.threadRootPostId = l.threadRootPostId ∧ l'.convoId = l.convoId) ∨
      (l.threadRootPostId = root ∧ l.convoId = c) := by
  rcases mem_upsertLink h with hl | rfl | ⟨l', hl', hroot, rfl⟩
  · exact .inl ⟨l, hl, rfl, rfl⟩
  · exact .inr ⟨rfl, rfl⟩
  · exact .inr ⟨hroot, rfl⟩

omit [DecidableEq Convo] in
theorem mem_advanceConvoCursor {messageId : String} (h : l ∈ advanceConvoCursor links root c messageId) :
    (∃ l' ∈ links, l'.threadRootPostId = l.threadRootPostId ∧ l'.convoId = l.convoId) ∨
      (l.threadRootPostId = root ∧ l.convoId = c) := by
  rcases mem_upsertLink h with hl | rfl | ⟨l', hl', -, rfl⟩
  · exact .inl ⟨l, hl, rfl, rfl⟩
  · exact .inr ⟨rfl, rfl⟩
  · exact .inl ⟨l', hl', rfl, rfl⟩

end Laws

end Seiran.BskyDm
