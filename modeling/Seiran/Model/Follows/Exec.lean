import Mathlib.Logic.Function.Basic
import Seiran.Framework.Ledger
import Seiran.Framework.Run
import Seiran.Model.Atp.Revision
import Seiran.Model.Follows.Write
import Seiran.Model.Timeline.Database

/-!
# Follows and their records

`follow_exec.rs`, `follow_approval.rs`, `handle_accept`, `unfollow_target` and
`account_withdraw_unfollow_all.rs`, for the follows of one local account, and the
records of `app.bsky.graph.follow` in its repository. Requests, approvals and jobs
take one statement or commit at a time, in any order; a commit may fail.

The delivery by ActivityPub, the checks of blocks, by which a request ends at once,
the notifications and the answers are left out.
-/

namespace Seiran.FollowExec

open Follows (Follow FollowTable Statement)
open Revision
open Timeline (ActorType)

structure Actor where
  actorType : ActorType
  atDid : Option String
deriving DecidableEq

structure Env where
  /-- The local account -/
  actorId : Int64
  actor : Int64 → Option Actor
  /-- The readings of the TIDs of the commits, in their order -/
  clock : Nat → Reading

variable (E : Env)

def Env.tid (n : Nat) : String := generateTid (E.clock n)

def Env.atDid (target : Int64) : Option String := (E.actor target).bind Actor.atDid

/-- What comes to a `commit_follow` -/
inductive Attempt where
  /-- `establish_atp_follow`, which has inserted the row -/
  | claimed
  /-- `follow_fedi` of an account that is not locked -/
  | married
  /-- `approve_pending_follow` -/
  | approved
  /-- `handle_accept` -/
  | accepted
deriving DecidableEq

/-- The DID that the record is to have as its subject -/
def Env.subject (target : Int64) : Attempt → Option String
  | .claimed | .approved => E.atDid target
  | .married | .accepted =>
    (E.actor target).bind fun a => if a.actorType = .remoteSeiran then a.atDid else none

/-- A request or a job before its next statement or commit. `left` has the targets that a
withdrawal still has to take, and nothing where there is none. -/
inductive Task where
  /-- `upsert_pending` -/
  | request (target : Int64)
  /-- `insert_accepted_with_rkey` of `establish_atp_follow` -/
  | claim (target : Int64)
  | commit (attempt : Attempt) (target : Int64)
  /-- `set_atp_rkey` -/
  | record (target : Int64) (rkey : String)
  /-- `commit_delete_follow` where there was no row to record the rkey in -/
  | undo (rkey : String)
  /-- `delete_by_actors` after a commit that failed -/
  | rollback (target : Int64)
  /-- `insert_accepted_with_rkey` of `follow_fedi` -/
  | insert (target : Int64) (rkey : Option String)
  /-- `accept_and_set_rkey` -/
  | accept (target : Int64) (rkey : Option String)
  /-- `load_pending_pair`, or `find_pending_followers_raw` -/
  | loadPending (target : Int64) (approve : Bool)
  /-- `find_atp_rkey` -/
  | find (target : Int64) (left : Option (List Int64))
  /-- `commit_delete_follow` of an unfollow -/
  | deleteRecord (target : Int64) (rkey : String) (left : Option (List Int64))
  /-- `delete_by_actors` of an unfollow, or of a rejection -/
  | delete (target : Int64) (left : Option (List Int64))
deriving DecidableEq

structure State where
  follows : FollowTable
  /-- The subjects of the records under their rkeys -/
  records : List (String × String)
  tasks : Nat → Option Task
  /-- How many records have been committed -/
  drawn : Nat
  /-- The relation was accepted without a record: its commit had failed, or was not made as
  the target has no DID that counts. -/
  uncommitted : Int64 → Bool

def start : State := ⟨∅, [], fun _ => none, 0, fun _ => false⟩

section Steps

variable (s : State)

/-- The row of the account and the target -/
def State.row (target : Int64) : Option Follow := s.follows.lookup (E.actorId, target)

def State.write (stmt : Statement) : State := { s with follows := s.follows.write stmt }

def State.setTask (i : Nat) (task : Option Task) : State :=
  { s with tasks := Function.update s.tasks i task }

def State.setUncommitted (target : Int64) (b : Bool) : State :=
  { s with uncommitted := Function.update s.uncommitted target b }

/-- `find_accepted_target_ids`, in any order -/
def findAcceptedTargetIds (follows : FollowTable) : List Int64 :=
  follows.entries.filterMap fun e =>
    if e.1.1 = E.actorId ∧ e.2.status = .accepted then some e.1.2 else none

/-- After the commit -/
def Attempt.committed (target : Int64) (rkey : String) : Attempt → Task
  | .claimed => .record target rkey
  | .married => .insert target (some rkey)
  | .approved | .accepted => .accept target (some rkey)

/-- After a commit that failed, or was not made -/
def Attempt.failed (target : Int64) : Attempt → Option Task
  | .claimed => some (.rollback target)
  | .married => some (.insert target none)
  | .approved => none
  | .accepted => some (.accept target none)

/-- The next target of a withdrawal -/
def nextTarget : Option (List Int64) → Option Task
  | none | some [] => none
  | some (target :: left) => some (.find target (some left))

/-- The next statement or commit of a task -/
def runTask (i : Nat) (ok : Bool) : Task → State
  | .request target => (s.write (.upsertPending E.actorId target)).setTask i none
  | .claim target =>
    match s.row E target with
    | none => ((s.write (.insertAcceptedWithRkey E.actorId target none)).setUncommitted target
        false).setTask i (some (.commit .claimed target))
    | some _ => s.setTask i none
  | .commit attempt target =>
    match E.subject target attempt, ok with
    | some did, true =>
      let rkey := E.tid s.drawn
      { s with records := Store.put s.records rkey did, drawn := s.drawn + 1 }.setTask i
        (some (attempt.committed target rkey))
    | _, _ => s.setTask i (attempt.failed target)
  | .record target rkey =>
    match s.row E target with
    | some _ => (s.write (.setAtpRkey E.actorId target rkey)).setTask i none
    | none => s.setTask i (some (.undo rkey))
  | .undo rkey =>
    if ok then { s with records := Store.delete s.records rkey }.setTask i none
    else s.setTask i none
  | .rollback target => (s.write (.deleteByActors E.actorId target)).setTask i none
  | .insert target rkey =>
    match s.row E target with
    | none => ((s.write (.insertAcceptedWithRkey E.actorId target rkey)).setUncommitted target
        rkey.isNone).setTask i none
    | some _ => s.setTask i none
  | .accept target rkey =>
    if (s.row E target).any (·.status = .pending) then
      ((s.write (.acceptAndSetRkey E.actorId target rkey)).setUncommitted target
        rkey.isNone).setTask i none
    else s.setTask i none
  | .loadPending target approve =>
    s.setTask i (if (s.row E target).any (·.status = .pending) then
      some (if approve then .commit .approved target else .delete target none) else none)
  | .find target left =>
    match (s.row E target).bind Follow.atpRkey with
    | some rkey => s.setTask i (some (.deleteRecord target rkey left))
    | none => s.setTask i (some (.delete target left))
  | .deleteRecord target rkey left =>
    if ok then
      { s with records := Store.delete s.records rkey }.setTask i (some (.delete target left))
    -- an unfollow ends with the error, a withdrawal goes on
    else s.setTask i (left.map fun left => .delete target (some left))
  | .delete target left =>
    (s.write (.deleteByActors E.actorId target)).setTask i (nextTarget left)

end Steps

inductive Action where
  | followLocal (i : Nat) (target : Int64) (isLocked : Bool)
  | followBsky (i : Nat) (target : Int64)
  | followFedi (i : Nat) (target : Int64) (isLocked : Bool)
  /-- The followee, whose account is here, approves the request, alone or with all others. -/
  | approve (i : Nat) (target : Int64)
  | reject (i : Nat) (target : Int64)
  /-- The Accept of a followee elsewhere -/
  | handleAccept (i : Nat) (target : Int64)
  | unfollow (i : Nat) (target : Int64)
  | withdraw (i : Nat) (targets : List Int64)
  | run (i : Nat) (ok : Bool)
deriving DecidableEq

def Env.isLocal (target : Int64) : Bool := (E.actor target).any (·.actorType = .localUser)

/-- Where a request comes to first -/
def firstTask (s : State) : Action → Option (Nat × Task)
  | .followLocal i target isLocked =>
    if !E.isLocal target then none
    else if isLocked then some (i, .request target)
    else (E.atDid target).map fun _ => (i, .claim target)
  | .followBsky i target => (E.atDid target).map fun _ => (i, .claim target)
  | .followFedi i target isLocked =>
    if E.isLocal target then none
    else some (i, if isLocked then .request target else .commit .married target)
  | .approve i target => if E.isLocal target then some (i, .loadPending target true) else none
  | .reject i target => if E.isLocal target then some (i, .loadPending target false) else none
  | .handleAccept i target => if E.isLocal target then none else some (i, .commit .accepted target)
  | .unfollow i target => some (i, .find target none)
  | .withdraw i targets =>
    if targets.Perm (findAcceptedTargetIds E s.follows) then
      (nextTarget (some targets)).map fun task => (i, task)
    else none
  | .run _ _ => none

def step (s : State) : Action → Option State
  | .run i ok => (s.tasks i).map (runTask E s i ok)
  | act => (firstTask E s act).bind fun (i, task) =>
    if s.tasks i = none then some (s.setTask i (some task)) else none

def machine : Machine State Action := ⟨step E⟩

end Seiran.FollowExec
