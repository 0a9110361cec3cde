import Mathlib.Data.List.Dedup
import Mathlib.Data.List.Sort
import Seiran.Framework.Run

/-!
# Votes in a poll

`vote_poll` (`handlers/notes/poll.rs`), `handle_poll_vote`
(`inbound_activity_process/poll_vote.rs`) and `repository/poll.rs`, for one poll.
A transaction of a local vote locks the row of the post first, one of a remote vote
updates it last, so each of them is one step; the names of the options do not change.
-/

namespace Seiran.Polls

structure PollOption where
  name : String
  votes : Nat
deriving DecidableEq

/-- `posts.poll`, with its times in seconds -/
structure Poll where
  multiple : Bool
  options : List PollOption
  endTime : Option Nat
  closed : Option Nat := none
deriving DecidableEq

/-- `poll_closed_at` -/
def Poll.closedAt (poll : Poll) : Option Nat := poll.closed <|> poll.endTime

/-- A row of `poll_votes` of the poll -/
structure PollVote where
  actorId : Int64
  optionIndex : Nat
  apActivityId : Option String
  createdAt : Nat
deriving DecidableEq

/-- `LocalVoteRejected`, of a post with a poll -/
inductive Rejected where
  | invalid (code : String)
  | alreadyVoted
  | invalidPoll
deriving DecidableEq

/-- `validate_vote` -/
def validateVote (poll : Poll) (now : Nat) (optionIndexes : List Nat) :
    Except Rejected (List Nat) :=
  let indexes := (optionIndexes.insertionSort (· ≤ ·)).dedup
  if (!poll.multiple && indexes.length != 1) || indexes.any (poll.options.length ≤ ·) then
    .error (.invalid "INVALID_POLL_OPTIONS")
  else if poll.closedAt.any (· ≤ now) then .error (.invalid "POLL_CLOSED")
  else .ok indexes

/-- `increment_poll_votes` -/
def incrementPollVotes (poll : Poll) (optionIndexes : List Nat) : Option Poll :=
  if poll.options = [] then none
  else some { poll with
    options := poll.options.mapIdx fun i o =>
      if optionIndexes.contains i then { o with votes := o.votes + 1 } else o }

/-- `record_local_vote` -/
def recordLocalVote (poll : Poll) (votes : List PollVote) (now : Nat) (actorId : Int64)
    (optionIndexes : List Nat) : Except Rejected (Poll × List PollVote) := do
  let indexes ← validateVote poll now optionIndexes
  if votes.any (·.actorId == actorId) then throw .alreadyVoted
  match incrementPollVotes poll indexes with
  | none => throw .invalidPoll
  | some poll =>
    return (poll, votes ++ indexes.map fun i => ⟨actorId, i, none, now⟩)

/-- `ON CONFLICT DO NOTHING`: `UNIQUE (post_id, actor_id, option_index)` and
`UNIQUE (ap_activity_id)`, where `used` are those of the other polls. -/
def conflicts (votes : List PollVote) (used : List String) (actorId : Int64) (optionIndex : Nat)
    (apActivityId : Option String) : Bool :=
  votes.any (fun v => (v.actorId == actorId && v.optionIndex == optionIndex) ||
    (apActivityId.isSome && v.apActivityId == apActivityId)) || apActivityId.any used.contains

/-- `record_remote_vote` -/
def recordRemoteVote (poll : Poll) (votes : List PollVote) (used : List String) (now : Nat)
    (actorId : Int64) (optionIndex : Nat) (apActivityId : Option String) : Poll × List PollVote :=
  if conflicts votes used actorId optionIndex apActivityId then (poll, votes)
  else ((incrementPollVotes poll [optionIndex]).getD poll,
    votes ++ [⟨actorId, optionIndex, apActivityId, now⟩])

/-- `options.iter().position(..)` -/
def Poll.position (poll : Poll) (optionName : String) : Option Nat :=
  poll.options.findIdx? fun o => o.name == optionName

structure State where
  poll : Poll
  votes : List PollVote
  now : Nat
deriving DecidableEq

inductive Action where
  /-- Time goes on. -/
  | tick (seconds : Nat)
  | votePoll (actorId : Int64) (optionIndexes : List Nat)
  /-- A vote that is delivered, perhaps again -/
  | handlePollVote (actorId : Int64) (optionName : String) (apActivityId : Option String)
deriving DecidableEq

def step (used : List String) (s : State) : Action → Option State
  | .tick seconds => some { s with now := s.now + seconds }
  | .votePoll actorId optionIndexes =>
    if optionIndexes = [] then some s
    else match recordLocalVote s.poll s.votes s.now actorId optionIndexes with
      | .error _ => some s
      | .ok (poll, votes) => some { s with poll, votes }
  | .handlePollVote actorId optionName apActivityId =>
    match s.poll.position optionName with
    | none => some s
    | some index =>
      let (poll, votes) := recordRemoteVote s.poll s.votes used s.now actorId index apActivityId
      some { s with poll, votes }

def machine (used : List String) : Machine State Action := ⟨step used⟩

/-- `build_poll_json` -/
def buildPoll (multiple : Bool) (choices : List String) (endTime : Option Nat) : Poll where
  multiple := multiple
  options := choices.map fun name => ⟨name, 0⟩
  endTime := endTime

def start (multiple : Bool) (choices : List String) (endTime : Option Nat) (now : Nat) : State :=
  ⟨buildPoll multiple choices endTime, [], now⟩

end Seiran.Polls
