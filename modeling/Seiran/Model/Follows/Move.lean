import Seiran.Framework.Run
import Seiran.Model.Follows.Write

/-!
# Moving to another account

`handle_move` (`inbound_activity_process/move_actor.rs`) of one Move from an actor to
another, one statement or send at a time. Each may fail, and the job may be cut off
anywhere, after which it starts again. Notifications are left out, and so are blocks, which
the job does not read. Nobody else changes the relations meanwhile.
-/

namespace Seiran.Move

open Follows (FollowTable Statement)

/-- The accounts of the Move -/
structure Env where
  isLocal : Int64 → Bool
  oldActor : Int64
  newActor : Int64

variable (E : Env)

/-- How far `handle_move` has come: the followers, or the lists, that are left -/
inductive Phase where
  | queued
  | followers (left : List Int64)
  /-- `migrate_one_follow` has read the status of the follow of the new account. -/
  | found (follower : Int64) (already : Bool) (left : List Int64)
  /-- It has sent the Follow. -/
  | sent (follower : Int64) (left : List Int64)
  /-- It has deleted the follow of the old account. -/
  | deleted (follower : Int64) (left : List Int64)
  | lists (left : List Int64)
  /-- The old account is no member of the list any more. -/
  | removed (listId : Int64) (left : List Int64)
  | completed
deriving DecidableEq

structure State where
  follows : FollowTable
  /-- `list_members`: a list and a member -/
  members : List (Int64 × Int64)
  phase : Phase := .queued
  /-- The attempt has gone past an error of a follower or a list. -/
  skipped : Bool := false

inductive Action where
  /-- Up to the followers; the target may not be fetched, which ends the job. -/
  | start (fetched : Bool)
  /-- The next statement or send -/
  | next (ok : Bool)
  | crash
deriving DecidableEq

section Steps

/-- `find_all_local_followers_with_status` -/
def localFollowers (follows : FollowTable) (actorId : Int64) : List Int64 :=
  (follows.keys.filter fun k => k.2 == actorId && E.isLocal k.1).map Prod.fst

/-- `list_ids_containing_actor` -/
def listIdsContainingActor (members : List (Int64 × Int64)) (actorId : Int64) : List Int64 :=
  (members.filter fun m => m.2 == actorId).map Prod.fst

def State.write (s : State) (stmt : Statement) : State := { s with follows := s.follows.write stmt }

/-- `remove_member` -/
def State.removeMember (s : State) (listId actorId : Int64) : State :=
  { s with members := s.members.filter (· ≠ (listId, actorId)) }

/-- `add_member` -/
def State.addMember (s : State) (listId actorId : Int64) : State :=
  { s with members := if (listId, actorId) ∈ s.members then s.members
      else s.members ++ [(listId, actorId)] }

def State.goto (s : State) (phase : Phase) : State := { s with phase }

/-- An error is logged, and the next follower or list is taken. -/
def State.skip (s : State) (phase : Phase) : State := { s with phase, skipped := true }

def next (s : State) (ok : Bool) : Option State :=
  match s.phase with
  | .queued => none
  | .followers [] =>
    -- an error here ends the attempt
    some (if ok then s.goto (.lists (listIdsContainingActor s.members E.oldActor))
      else s.goto .queued)
  | .followers (follower :: left) =>
    some (if follower = E.newActor then s.goto (.followers left)
      else if ok then
        s.goto (.found follower (s.follows.lookup (follower, E.newActor)).isSome left)
      else s.skip (.followers left))
  | .found follower true left =>
    some (if ok then
        (s.write (.deleteByActors follower E.oldActor)).goto (.followers left)
      else s.skip (.followers left))
  | .found follower false left =>
    some (if ok then s.goto (.sent follower left) else s.skip (.followers left))
  | .sent follower left =>
    some (if ok then (s.write (.deleteByActors follower E.oldActor)).goto (.deleted follower left)
      else s.skip (.followers left))
  | .deleted follower left =>
    some (if ok then (s.write (.upsertPending follower E.newActor)).goto (.followers left)
      else s.skip (.followers left))
  | .lists [] => some (s.goto .completed)
  | .lists (listId :: left) =>
    some (if ok then (s.removeMember listId E.oldActor).goto (.removed listId left)
      else s.skip (.lists left))
  | .removed listId left =>
    some (if ok then (s.addMember listId E.newActor).goto (.lists left)
      else s.skip (.lists left))
  | .completed => none

def step (s : State) : Action → Option State
  | .start fetched =>
    if s.phase = .queued then
      some { s with
        phase := if fetched then .followers (localFollowers E s.follows E.oldActor) else .completed
        skipped := false }
    else none
  | .next ok => next E s ok
  | .crash => if s.phase = .completed then none else some (s.goto .queued)

end Steps

def machine : Machine State Action := ⟨step E⟩

end Seiran.Move
