import Mathlib.Data.List.Dedup
import Seiran.Framework.Run
import Seiran.Model.Dm.ConvoLinks
import Seiran.Model.Timeline.Database

/-!
# Sending to Bluesky

Direct posts (`handlers/notes/creation.rs`, `note_save.rs`), the job `BskyDmSend`
(`jobs/bsky_dm_send.rs`) and the import of the messages of a conversation
(`bsky_dm_poll.rs`). A job or a poll goes one statement or request at a time, stops
wherever an error stops it, and starts again at any time.

The identifiers of the own messages, which no import looks for, and the cursors of
the polls are left out, but for what they write into `bsky_convo_links`.
-/

namespace Seiran.BskyDm

open Timeline (ActorType)

structure Actor where
  actorType : ActorType
  atDid : Option String
  /-- `at_signing_key_pem IS NOT NULL` -/
  hasSigningKey : Bool
deriving DecidableEq

/-- The accounts, and the chat service behind `api.bsky.chat` -/
structure Env (Convo : Type) where
  /-- The rows of `actors` -/
  actor : Int64 → Option Actor
  /-- The answer of `getConvoForMembers` to the first of them -/
  getConvoForMembers : String → String → Convo
  /-- The other member of a direct conversation that this one is in -/
  peer : Convo → String → Option String
  /-- The conversation and the sender of a message -/
  message : String → Option (Convo × String)

variable {Convo : Type} [DecidableEq Convo] (E : Env Convo)

def Env.atDid (actorId : Int64) : Option String := (E.actor actorId).bind Actor.atDid

def Env.isType (actorType : ActorType) (actorId : Int64) : Bool :=
  (E.actor actorId).any fun a => a.actorType == actorType

/-- A row of `posts` with `visibility = 'direct'`, and its `post_recipients` -/
structure DirectPost where
  id : Int64
  actorId : Int64
  body : String
  recipientActorIds : List Int64
  threadRootPostId : Int64
  /-- Of a message that was imported -/
  bskyMessageId : Option String := none
deriving DecidableEq

/-- `BskyDmSendRow` and `bsky_peer_did` -/
structure Material where
  postId : Int64
  body : String
  threadRootPostId : Int64
  senderDid : String
  peerDid : String
deriving DecidableEq

inductive Job (Convo : Type) where
  | started (m : Material)
  /-- There is no conversation of the thread. -/
  | missed (m : Material)
  | answered (m : Material) (convoId : Convo)
  | resolved (m : Material) (convoId : Convo)
deriving DecidableEq

/-- `sync_convo` with its `current_thread_root` -/
structure Poll (Convo : Type) where
  actorId : Int64
  convoId : Convo
  peerActorId : Int64
  peerDid : String
  currentThreadRoot : Option Int64
deriving DecidableEq

/-- A request to `sendMessage` -/
structure Sent (Convo : Type) where
  postId : Int64
  senderDid : String
  convoId : Convo
  text : String
deriving DecidableEq

structure State (Convo : Type) where
  posts : List DirectPost
  links : List (ConvoLink Convo)
  jobs : List (Job Convo)
  polls : List (Poll Convo)
  sent : List (Sent Convo)
deriving DecidableEq

def start : State Convo := ⟨[], [], [], [], []⟩

inductive Action (Convo : Type) where
  /-- `create_note` -/
  | createNote (actorId postId : Int64) (text : String) (recipientActorIds : List Int64)
      (replyTo : Option Int64)
  /-- `save_note`, of an actor whose posts come over ActivityPub -/
  | saveNote (actorId postId : Int64) (text : String) (recipientActorIds : List Int64)
      (replyTo : Option Int64)
  | startJob (postId : Int64)
  /-- The next statement or request of a job -/
  | runJob (job : Nat)
  | failJob (job : Nat)
  /-- `load_convo_link`, which reads this one of the links, and the actor of the peer -/
  | startPoll (actorId : Int64) (convoId : Convo) (peerActorId : Int64)
      (link : Option (ConvoLink Convo))
  /-- `persist_cursor` -/
  | persistCursor (poll : Nat) (messageId : String)
  /-- `import_peer_message` -/
  | importMessage (poll : Nat) (postId : Int64) (messageId text : String)
  | endPoll (poll : Nat)
deriving DecidableEq

section Posts

def State.findById (s : State Convo) (postId : Int64) : Option DirectPost :=
  s.posts.find? fun p => p.id == postId

/-- The author or a recipient -/
def DirectPost.isParty (p : DirectPost) (actorId : Int64) : Bool :=
  p.actorId == actorId || p.recipientActorIds.contains actorId

/-- The checks of `resolve_dm_recipients`, on recipients without repetitions -/
def recipientsValid (recipientActorIds : List Int64) : Bool :=
  !recipientActorIds.isEmpty && recipientActorIds.all (fun a => (E.actor a).isSome) &&
    (!recipientActorIds.any (E.isType .bsky) || recipientActorIds.length == 1)

/-- The `thread_root_post_id` of a post, unless its parent is hidden from the author.
A parent that is not direct counts as none. -/
def State.threadRoot (s : State Convo) (actorId postId : Int64) : Option Int64 → Option Int64
  | none => some postId
  | some parentId =>
    match s.findById parentId with
    | none => some postId
    | some parent => if parent.isParty actorId then some parent.threadRootPostId else none

/-- The `INSERT` of a direct post, with a new id -/
def State.insertPost (s : State Convo) (p : DirectPost) : Option (State Convo) :=
  if (s.findById p.id).isSome then none else some { s with posts := s.posts ++ [p] }

end Posts

section Jobs

/-- `bsky_dm_send_material` and `bsky_peer_did` -/
def material (s : State Convo) (postId : Int64) : Option Material := do
  let p ← s.findById postId
  let sender ← E.actor p.actorId
  let senderDid ← sender.atDid
  guard sender.hasSigningKey
  let peerDid ← p.recipientActorIds.findSome? fun a => if E.isType .bsky a then E.atDid a else none
  return ⟨p.id, p.body, p.threadRootPostId, senderDid, peerDid⟩

def State.setJob (s : State Convo) (i : Nat) (job : Job Convo) : State Convo :=
  { s with jobs := s.jobs.set i job }

/-- `resolve_convo_id`, and the request to `sendMessage` -/
def State.runJob (s : State Convo) (i : Nat) : Job Convo → State Convo
  | .started m =>
    match convoIdForThread s.links m.threadRootPostId with
    | some cached => s.setJob i (.resolved m cached)
    | none => s.setJob i (.missed m)
  | .missed m => s.setJob i (.answered m (E.getConvoForMembers m.senderDid m.peerDid))
  | .answered m convoId =>
    { s.setJob i (.resolved m convoId) with
      links := saveConvoId s.links m.threadRootPostId convoId }
  | .resolved m convoId =>
    { s with
      jobs := s.jobs.eraseIdx i
      sent := s.sent ++ [⟨m.postId, m.senderDid, convoId, m.body⟩] }

end Jobs

section Polls

/-- `sync_convo`, before it imports anything -/
def startPoll (s : State Convo) (actorId : Int64) (convoId : Convo) (peerActorId : Int64)
    (link : Option (ConvoLink Convo)) : Option (Poll Convo) := do
  let account ← E.actor actorId
  let did ← account.atDid
  guard (account.actorType = .localUser ∧ account.hasSigningKey)
  let peerDid ← E.peer convoId did
  guard (E.atDid peerActorId = some peerDid)
  let currentThreadRoot ← loadConvoLink s.links convoId link
  return { actorId, convoId, peerActorId, peerDid, currentThreadRoot }

/-- `persist_cursor`, where the thread is known -/
def State.persistCursor (s : State Convo) (messageId : String) (poll : Poll Convo) : State Convo :=
  match poll.currentThreadRoot with
  | none => s
  | some root => { s with links := advanceConvoCursor s.links root poll.convoId messageId }

/-- `import_bsky_dm`: the post and the thread of the message -/
def State.importBskyDm (s : State Convo) (poll : Poll Convo) (postId : Int64)
    (messageId text : String) : Option (State Convo × Int64) :=
  match s.posts.find? fun p => p.bskyMessageId == some messageId with
  | some p =>
    let posts := s.posts.map fun q =>
      if q.id = p.id ∧ poll.actorId ∉ q.recipientActorIds then
        { q with recipientActorIds := q.recipientActorIds ++ [poll.actorId] }
      else q
    let links := advanceConvoCursor s.links p.threadRootPostId poll.convoId messageId
    some ({ s with posts, links }, p.threadRootPostId)
  | none =>
    let root := poll.currentThreadRoot.getD postId
    (s.insertPost ⟨postId, poll.peerActorId, text, [poll.actorId], root, some messageId⟩).map fun s =>
      ({ s with links := advanceConvoCursor s.links root poll.convoId messageId }, root)

end Polls

def step (s : State Convo) : Action Convo → Option (State Convo)
  | .createNote actorId postId body recipientActorIds replyTo =>
    if !E.isType .localUser actorId then none
    else if !recipientsValid E recipientActorIds.dedup then some s
    else match s.threadRoot actorId postId replyTo with
      | none => some s
      | some threadRootPostId =>
        s.insertPost ⟨postId, actorId, body, recipientActorIds.dedup, threadRootPostId, none⟩
  | .saveNote actorId postId body recipientActorIds replyTo =>
    if E.isType .localUser actorId || E.isType .bsky actorId then none
    else match s.threadRoot actorId postId replyTo with
      | none => some s
      | some threadRootPostId =>
        s.insertPost ⟨postId, actorId, body, recipientActorIds, threadRootPostId, none⟩
  | .startJob postId =>
    -- `create_note` has put it into the queue
    if (s.findById postId).any fun p => E.isType .localUser p.actorId && p.bskyMessageId.isNone then
      match material E s postId with
      | none => some s
      | some m => some { s with jobs := s.jobs ++ [.started m] }
    else none
  | .runJob i => (s.jobs[i]?).map (s.runJob E i)
  | .failJob i => some { s with jobs := s.jobs.eraseIdx i }
  | .startPoll actorId convoId peerActorId link =>
    (startPoll E s actorId convoId peerActorId link).map fun poll =>
      { s with polls := s.polls ++ [poll] }
  | .persistCursor i messageId => (s.polls[i]?).map (s.persistCursor messageId)
  | .importMessage i postId messageId text =>
    (s.polls[i]?).bind fun poll =>
      -- `getMessages` has returned it
      if E.message messageId = some (poll.convoId, poll.peerDid) then
        (s.importBskyDm poll postId messageId text).map fun (s, root) =>
          { s with polls := s.polls.set i { poll with currentThreadRoot := some root } }
      else none
  | .endPoll i => some { s with polls := s.polls.eraseIdx i }

def machine : Machine (State Convo) (Action Convo) := ⟨step E⟩

end Seiran.BskyDm
