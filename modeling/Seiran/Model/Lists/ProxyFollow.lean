import Seiran.Framework.Run
import Seiran.Model.Follows.Write

/-!
# The follows of the list relay

`add_member`, `remove_member` and `delete_list` (`handlers/lists.rs`) and the job
`ProxyFollowSync` (`jobs/proxy_follow_sync.rs`), for one remote actor of type `fedi`:
the lists it is in, the requests and jobs about it, each at one of its statements or
sends, and the follow of the virtual actor list-relay. The queue may run a job late,
again and beside the others; requests do not fail once they have written.
-/

namespace Seiran.ProxyFollow

open Follows (Follow Statement Status)

/-- A request, and what it does next -/
inductive Request where
  /-- `add_member`: look whether the actor is in a list -/
  | addFound (listId : Int64)
  /-- `add_member`: the `INSERT` -/
  | addRead (listId : Int64) (wasReferenced : Bool)
  /-- `add_member`: a follow job -/
  | added
  /-- `remove_member`: the `DELETE` -/
  | removeFound (listId : Int64)
  /-- `delete_list`: the `DELETE`, where the actor is in `fedi_member_ids` or not -/
  | deleteRead (listId : Int64) (isMember : Bool)
  /-- `maybe_unfollow_if_unreferenced` -/
  | removed
  /-- `maybe_unfollow_if_unreferenced`: an unfollow job -/
  | unreferenced
deriving DecidableEq

/-- What a run of `ProxyFollowSync` does next: read the status, send, write -/
inductive Phase where
  | queued
  | sending
  | sent
deriving DecidableEq

structure Job where
  wantFollow : Bool
  phase : Phase := .queued
deriving DecidableEq

structure State where
  lists : List Int64
  /-- The lists that the actor is in -/
  members : List Int64
  requests : List Request
  jobs : List Job
  follow : Option Follow
deriving DecidableEq

def start : State := ⟨[], [], [], [], none⟩

inductive Action where
  | createList (listId : Int64)
  | addMember (listId : Int64)
  | removeMember (listId : Int64)
  /-- The request has read `members`. -/
  | deleteList (listId : Int64)
  | runRequest (request : Nat)
  /-- A request that has written nothing is turned down. -/
  | rejectRequest (request : Nat)
  | runJob (job : Nat)
  /-- A run fails, and will be repeated. -/
  | failJob (job : Nat)
  /-- A job is run a second time. -/
  | redeliverJob (job : Nat)
  /-- The actor accepts the follow. -/
  | receiveAccept
deriving DecidableEq

/-- `actor_referenced_by_any_list` -/
def State.referenced (s : State) : Bool := !s.members.isEmpty

/-- The row after a statement -/
def write (stmt : Statement) (follow : Option Follow) : Option Follow :=
  (stmt.change follow).getD follow

/-- `add_member` of the repository -/
def State.addMember (s : State) (listId : Int64) : State :=
  { s with members := if listId ∈ s.members then s.members else s.members ++ [listId] }

/-- `remove_member` of the repository -/
def State.removeMember (s : State) (listId : Int64) : State :=
  { s with members := s.members.filter (· ≠ listId) }

def State.setRequest (s : State) (i : Nat) (r : Request) : State :=
  { s with requests := s.requests.set i r }

def State.endRequest (s : State) (i : Nat) : State :=
  { s with requests := s.requests.eraseIdx i }

/-- `enqueue_proxy_follow_sync` -/
def State.enqueue (s : State) (wantFollow : Bool) : State :=
  { s with jobs := s.jobs ++ [{ wantFollow }] }

def State.runRequest (s : State) (i : Nat) : Request → State
  | .addFound listId => s.setRequest i (.addRead listId s.referenced)
  | .addRead listId wasReferenced =>
    -- the list may be gone
    if listId ∉ s.lists then s.endRequest i
    else if wasReferenced then (s.addMember listId).endRequest i
    else (s.addMember listId).setRequest i .added
  | .added => (s.enqueue true).endRequest i
  | .removeFound listId =>
    if listId ∈ s.members then (s.removeMember listId).setRequest i .removed else s.endRequest i
  | .deleteRead listId isMember =>
    if listId ∉ s.lists then s.endRequest i
    else
      -- `ON DELETE CASCADE`
      let s := { s.removeMember listId with lists := s.lists.filter (· ≠ listId) }
      if isMember then s.setRequest i .removed else s.endRequest i
  | .removed => if s.referenced then s.endRequest i else s.setRequest i .unreferenced
  | .unreferenced => (s.enqueue false).endRequest i

/-- Whether a request has written nothing -/
def Request.unwritten : Request → Bool
  | .addFound _ => true
  | .addRead _ _ => true
  | .removeFound _ => true
  | .deleteRead _ _ => true
  | _ => false

/-- The next step of a job, for the list relay and the actor -/
def State.runJob (proxyActorId targetActorId : Int64) (s : State) (i : Nat) (job : Job) : State :=
  match job.phase with
  | .queued =>
    if s.follow.isSome = job.wantFollow then { s with jobs := s.jobs.eraseIdx i }
    else { s with jobs := s.jobs.set i { job with phase := .sending } }
  | .sending => { s with jobs := s.jobs.set i { job with phase := .sent } }
  | .sent =>
    let stmt : Statement :=
      if job.wantFollow then .upsertPending proxyActorId targetActorId
      else .deleteByActors proxyActorId targetActorId
    { s with jobs := s.jobs.eraseIdx i, follow := write stmt s.follow }

def step (proxyActorId targetActorId : Int64) (s : State) : Action → Option State
  | .createList listId =>
    if listId ∈ s.lists then none else some { s with lists := s.lists ++ [listId] }
  | .addMember listId =>
    if listId ∈ s.lists then some { s with requests := s.requests ++ [.addFound listId] } else some s
  | .removeMember listId =>
    if listId ∈ s.lists then some { s with requests := s.requests ++ [.removeFound listId] } else some s
  | .deleteList listId =>
    if listId ∈ s.lists then
      some { s with requests := s.requests ++ [.deleteRead listId (s.members.contains listId)] }
    else some s
  | .runRequest i => (s.requests[i]?).map (s.runRequest i)
  | .rejectRequest i =>
    (s.requests[i]?).bind fun r => if r.unwritten then some (s.endRequest i) else none
  | .runJob i => (s.jobs[i]?).map (s.runJob proxyActorId targetActorId i)
  | .failJob i => (s.jobs[i]?).map fun job => { s with jobs := s.jobs.set i { job with phase := .queued } }
  | .redeliverJob i =>
    (s.jobs[i]?).map fun job => { s with jobs := s.jobs ++ [{ job with phase := .queued }] }
  | .receiveAccept => some { s with follow := write (.accept proxyActorId targetActorId) s.follow }

def machine (proxyActorId targetActorId : Int64) : Machine State Action :=
  ⟨step proxyActorId targetActorId⟩

end Seiran.ProxyFollow
