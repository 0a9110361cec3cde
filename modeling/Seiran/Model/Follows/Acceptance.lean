import Mathlib.Logic.Function.Basic
import Seiran.Framework.Run
import Seiran.Model.Follows.Write

/-!
# Accepted follows

What is received about follows (`follow.rs`, `undo.rs`, `block.rs` of
`inbound_activity_process`), and what the accounts here do with them
(`follow_approval.rs`, `unfollow_target`, `block_actor`, the withdrawal), one statement
at a time and in any order. Each may come again, and may be cut off anywhere. A `Reject`
that is received does nothing to the follows.

The records in the repositories, the deliveries and the notifications are left out, and
so are the follows that accounts here ask for with a commit.
-/

namespace Seiran.Acceptance

open Follows (Follow FollowTable Statement)

/-- What is going on, before its next statement -/
inductive Task where
  /-- `handle_follow` -/
  | loadTarget (follower target : Int64) (activity : String)
  | checkBlocked (follower target : Int64) (activity : String) (isLocked : Bool)
  | savePending (follower target : Int64) (activity : String)
  | saveAccepted (follower target : Int64)
  /-- `handle_accept`, and `approve_pending_follow` -/
  | accept (follower target : Int64)
  /-- `load_pending_pair`, or `find_pending_followers_raw` -/
  | loadPending (follower target : Int64) (approve : Bool)
  /-- `delete_by_actors` of `reject_pending_follow` -/
  | rejectPending (follower target : Int64)
  /-- `follow_fedi`, `follow_local` of a locked account -/
  | request (follower target : Int64)
  /-- `handle_undo`, `unfollow_target` -/
  | undo (follower target : Int64)
  /-- `block_actor`: the follow of the blocker, that of the blocked account, and the block -/
  | blockOwn (blocker blocked : Int64)
  | blockOther (blocker blocked : Int64)
  | insertBlock (blocker blocked : Int64)
  /-- `handle_block`: the block, and the follow of the blocked account -/
  | receiveBlock (blocker blocked : Int64)
  | endBlocked (blocker blocked : Int64)
  /-- `account_withdraw_unfollow_all`, with the targets that are left -/
  | withdraw (follower : Int64) (left : List Int64)
deriving DecidableEq

structure State where
  follows : FollowTable
  isLocked : Int64 → Bool
  blocks : List (Int64 × Int64)
  tasks : Nat → Option Task

inductive Action where
  | receiveFollow (i : Nat) (follower target : Int64) (activity : String)
  | receiveAccept (i : Nat) (follower target : Int64)
  | receiveReject (i : Nat) (follower target : Int64)
  | receiveUndo (i : Nat) (follower target : Int64)
  | receiveBlock (i : Nat) (blocker blocked : Int64)
  | approve (i : Nat) (follower target : Int64)
  | reject (i : Nat) (follower target : Int64)
  | request (i : Nat) (follower target : Int64)
  | unfollow (i : Nat) (follower target : Int64)
  | block (i : Nat) (blocker blocked : Int64)
  | withdraw (i : Nat) (follower : Int64)
  | setLocked (target : Int64) (isLocked : Bool)
  | run (i : Nat)
  /-- It is cut off. -/
  | stop (i : Nat)
deriving DecidableEq

variable (s : State)

def State.row (follower target : Int64) : Option Follow := s.follows.lookup (follower, target)

def State.write (stmt : Statement) : State := { s with follows := s.follows.write stmt }

def State.setTask (i : Nat) (task : Option Task) : State :=
  { s with tasks := Function.update s.tasks i task }

/-- `find_accepted_target_ids` -/
def findAcceptedTargetIds (follows : FollowTable) (follower : Int64) : List Int64 :=
  follows.entries.filterMap fun e =>
    if e.1.1 = follower ∧ e.2.status = .accepted then some e.1.2 else none

def isPending (follower target : Int64) : Bool :=
  (s.row follower target).any fun row => row.status = .pending

/-- The next statement of a task -/
def runTask (i : Nat) : Task → State
  | .loadTarget f t activity => s.setTask i (some (.checkBlocked f t activity (s.isLocked t)))
  | .checkBlocked f t activity isLocked =>
    s.setTask i (if (t, f) ∈ s.blocks then none
      else some (if isLocked then .savePending f t activity else .saveAccepted f t))
  | .savePending f t activity => (s.write (.upsertPendingWithActivity f t activity)).setTask i none
  | .saveAccepted f t => (s.write (.insertAccepted f t)).setTask i none
  | .accept f t => (s.write (.acceptAndSetRkey f t none)).setTask i none
  | .loadPending f t approve =>
    s.setTask i (if isPending s f t then
      some (if approve then .accept f t else .rejectPending f t) else none)
  | .rejectPending f t => (s.write (.deleteByActors f t)).setTask i none
  | .request f t => (s.write (.upsertPending f t)).setTask i none
  | .undo f t => (s.write (.deleteByActors f t)).setTask i none
  | .blockOwn b t => (s.write (.deleteByActors b t)).setTask i (some (.blockOther b t))
  | .blockOther b t => (s.write (.deleteByActors t b)).setTask i (some (.insertBlock b t))
  | .insertBlock b t => { s with blocks := (b, t) :: s.blocks }.setTask i none
  | .receiveBlock b t => { s with blocks := (b, t) :: s.blocks }.setTask i (some (.endBlocked b t))
  | .endBlocked b t => (s.write (.deleteByActors t b)).setTask i none
  | .withdraw _ [] => s.setTask i none
  | .withdraw f (t :: left) => (s.write (.deleteByActors f t)).setTask i (some (.withdraw f left))

/-- What is begun -/
def begin : Action → Option (Nat × Task)
  | .receiveFollow i f t activity => some (i, .loadTarget f t activity)
  | .receiveAccept i f t => some (i, .accept f t)
  | .receiveUndo i f t | .unfollow i f t => some (i, .undo f t)
  | .receiveBlock i b t => some (i, .receiveBlock b t)
  | .approve i f t => some (i, .loadPending f t true)
  | .reject i f t => some (i, .loadPending f t false)
  | .request i f t => some (i, .request f t)
  | .block i b t => some (i, .blockOwn b t)
  | .withdraw i f => some (i, .withdraw f (findAcceptedTargetIds s.follows f))
  | .receiveReject _ _ _ | .setLocked _ _ | .run _ | .stop _ => none

def step : Action → Option State
  | .receiveReject _ _ _ => some s
  | .setLocked t isLocked => some { s with isLocked := Function.update s.isLocked t isLocked }
  | .run i => (s.tasks i).map (runTask s i)
  | .stop i => some (s.setTask i none)
  | act => (begin s act).bind fun (i, task) =>
    if s.tasks i = none then some (s.setTask i (some task)) else none

def machine : Machine State Action := ⟨step⟩

end Seiran.Acceptance
