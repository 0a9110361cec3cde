import Seiran.Framework.Run
import Seiran.Model.Dm.ConvoLinks

/-!
# Importing the messages of a conversation

The poll of one conversation of a local account (`bsky_dm_poll.rs`, `import_bsky_dm` in
`repository/dm.rs`), one statement at a time, which an error may end anywhere. One poll
follows the other. Reactions are left out; so are the posts of the account, which have
messages that are not the peer's.
-/

namespace Seiran.BskyDmPoll

open BskyDm (ConvoLink loadConvoLink saveConvoId advanceConvoCursor)

variable {Convo : Type} [DecidableEq Convo]

/-- A message of the conversation, of which the service has each under an id of its own -/
structure Message where
  id : String
  /-- Its sender is not the account. -/
  byPeer : Bool
deriving DecidableEq

/-- A row of `posts` that was imported -/
structure ImportedPost where
  id : Int64
  threadRootPostId : Int64
  bskyMessageId : String
deriving DecidableEq

/-- `sync_convo` after it has fetched the messages -/
structure Poll where
  currentThreadRoot : Option Int64
  /-- What is left of the new messages, the oldest first -/
  newMessages : List Message
  /-- The message that is imported and not published yet -/
  imported : Option String := none
  /-- How many messages there were when they were fetched -/
  fetchedFrom : Nat
deriving DecidableEq

structure State (Convo : Type) where
  /-- The messages of the conversation, the oldest first -/
  history : List Message := []
  links : List (ConvoLink Convo) := []
  posts : List ImportedPost := []
  /-- The messages that `publish_received_dm` has published -/
  published : List String := []
  poll : Option Poll := none
  /-- How many messages there were for the last poll that went to its end -/
  polledUpTo : Nat := 0
deriving DecidableEq

section Fetch

/-- `limit=100` -/
def pageLimit : Nat := 100

def maxInitialSyncPages : Nat := 20

def maxInitialSyncMessages : Nat := 2000

/-- The loop of `fetch_convo_messages`, which has `newMessages` so far and gets the pages
of `rest`, the newest message first -/
def fetchLoop (lastSynced : Option String) : Nat → List Message → List Message → List Message
  | 0, newMessages, _ => newMessages
  | pagesLeft + 1, newMessages, rest =>
    let messages := rest.take pageLimit
    let unsynced := messages.takeWhile fun m => some m.id ≠ lastSynced
    let reachedLastSynced := unsynced.length < messages.length
    let newMessages := newMessages ++ unsynced
    if lastSynced.isNone ∧ ¬ reachedLastSynced ∧ rest.drop pageLimit ≠ [] ∧ messages ≠ [] ∧
        newMessages.length < maxInitialSyncMessages then
      fetchLoop lastSynced pagesLeft newMessages (rest.drop pageLimit)
    else newMessages

/-- `fetch_convo_messages` -/
def fetchConvoMessages (history : List Message) (lastSynced : Option String) : List Message :=
  fetchLoop lastSynced maxInitialSyncPages [] history.reverse

end Fetch

inductive Action (Convo : Type) where
  /-- A message by the peer, or by the account from anywhere -/
  | newMessage (id : String) (byPeer : Bool)
  /-- `save_convo_id`, of a thread with the peer in which something is sent -/
  | saveConvoId (threadRootPostId : Int64)
  /-- `load_convo_link`, which reads this one of the links, and `fetch_convo_messages` -/
  | startPoll (link : Option (ConvoLink Convo))
  /-- The next of the new messages: `persist_cursor`, or `import_peer_message` with a new
  post id -/
  | next (candidatePostId : Int64)
  /-- `publish_received_dm` -/
  | publish
  | endPoll
  | failPoll
deriving DecidableEq

section Steps

variable (convoId : Convo) (s : State Convo)

/-- `import_bsky_dm`: the thread of the message, with the posts then -/
def importBskyDm (posts : List ImportedPost) (candidatePostId candidateThreadRoot : Int64)
    (messageId : String) : Option (Int64 × List ImportedPost) :=
  match posts.find? fun p => p.bskyMessageId == messageId with
  | some p => some (p.threadRootPostId, posts)
  | none =>
    if posts.any fun p => p.id == candidatePostId then none
    else some (candidateThreadRoot,
      posts ++ [⟨candidatePostId, candidateThreadRoot, messageId⟩])

/-- One turn of the loop of `sync_convo`, up to the import -/
def syncMessage (poll : Poll) (candidatePostId : Int64) : Option (State Convo) :=
  match poll.imported, poll.newMessages with
  | none, m :: rest =>
    let poll := { poll with newMessages := rest }
    if m.byPeer then do
      let candidateThreadRoot := poll.currentThreadRoot.getD candidatePostId
      let (threadRoot, posts) ← importBskyDm s.posts candidatePostId candidateThreadRoot m.id
      return { s with
        posts
        links := advanceConvoCursor s.links threadRoot convoId m.id
        poll := some { poll with currentThreadRoot := some threadRoot, imported := some m.id } }
    else
      match poll.currentThreadRoot with
      | some threadRoot => some { s with
          links := advanceConvoCursor s.links threadRoot convoId m.id
          poll := some poll }
      | none => some { s with poll := some poll }
  | _, _ => none

def step : Action Convo → Option (State Convo)
  | .newMessage id byPeer =>
    if s.history.any fun m => m.id == id then none
    else some { s with history := s.history ++ [⟨id, byPeer⟩] }
  | .saveConvoId threadRootPostId =>
    some { s with links := saveConvoId s.links threadRootPostId convoId }
  | .startPoll link =>
    if s.poll.isSome then none
    else (loadConvoLink s.links convoId link).map fun currentThreadRoot => { s with
      poll := some {
        currentThreadRoot
        newMessages :=
          (fetchConvoMessages s.history (link.bind ConvoLink.lastSyncedMessageId)).reverse
        fetchedFrom := s.history.length } }
  | .next candidatePostId => s.poll.bind fun poll => syncMessage convoId s poll candidatePostId
  | .publish => do
    let poll ← s.poll
    let messageId ← poll.imported
    return { s with
      published := s.published ++ [messageId]
      poll := some { poll with imported := none } }
  | .endPoll => do
    let poll ← s.poll
    guard (poll.newMessages = [] ∧ poll.imported = none)
    return { s with poll := none, polledUpTo := poll.fetchedFrom }
  | .failPoll => if s.poll.isSome then some { s with poll := none } else none

end Steps

def machine (convoId : Convo) : Machine (State Convo) (Action Convo) := ⟨step convoId⟩

end Seiran.BskyDmPoll
