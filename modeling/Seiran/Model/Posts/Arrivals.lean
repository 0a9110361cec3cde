import Seiran.Framework.Run
import Seiran.Framework.Sql.Table
import Seiran.Model.Posts.Write

/-!
# The two forms of a post as they arrive

A post of another server arrives by ActivityPub (`note_save.rs`, `update.rs`) and
by the AT Protocol (`firehose.rs`), each form perhaps with a claim of what the
post is called in the other protocol. Every arrival is a process that executes
one statement of its transactions at a time: the lookup of the row of the other
form, the write, and again from the lookup after a violation of a unique index
(`unique_retry.rs`), five times at most. A transaction writes in one statement,
so that it is there for the others with its commit; `finalize_post_merge` is one
transaction.

The rows have the columns of the unique indexes and those the merge reads; the
identifier of a new row is that of its arrival.
-/

namespace Seiran.Posts

open Sql

/-- `UNIQUE (ap_object_id)`, `UNIQUE (at_uri)`, `posts_mutual_claim_key` -/
inductive Key where
  | id (id : Int64)
  | apObjectId (apObjectId : String)
  | atUri (atUri : String)
  | mutualClaim (apObjectId atUri : String)
deriving DecidableEq

def Post.keys (p : Post) : List Key :=
  .id p.id :: ((p.apObjectId.map .apObjectId).toList ++ (p.atUri.map .atUri).toList ++
    (p.mutualClaim.map fun (ap, uri) => .mutualClaim ap uri).toList)

def schema : Schema Int64 Post Key where
  id := Post.id
  keys := Post.keys
  pkey := .id
  pkey_mem _ := List.mem_cons_self

namespace Arrivals

inductive Arrival where
  /-- `Create`, by the author, with `seiranPost.counterpartPostId` -/
  | create (actorId : Int64) (apObjectId : String) (claimedAtUri : Option String)
  /-- `Update` with it; the sender, where it is known -/
  | update (sender : Option Int64) (apObjectId atUri : String)
  /-- A commit of Jetstream -/
  | bsky (actorId : Int64) (atUri : String) (claimedApObjectId : Option String)
deriving DecidableEq

inductive Outcome where
  | alreadyExists
  | inserted
  | merged
  | claimed
  /-- `Update` of a post that is not there -/
  | missing
  /-- `Update` by another actor -/
  | foreign
  /-- `Update` of a post that has an `at_uri` -/
  | settled
  | failed
deriving DecidableEq

inductive Phase where
  | start
  | search (attempt : Nat)
  | write (attempt : Nat) (found : Option Int64)
  | finalize (doomed : Int64)
  | confirm
  | ended (outcome : Outcome)
deriving DecidableEq

structure Proc where
  arrival : Arrival
  /-- The row to insert, or that of the post to update -/
  row : Int64
  phase : Phase
deriving DecidableEq

/-- `MAX_UNIQUE_VIOLATION_RETRIES` -/
def maxUniqueViolationRetries : Nat := 5

def byApObjectId (posts : List Post) (ap : String) : Option Post :=
  posts.find? fun q => q.apObjectId == some ap

def byAtUri (posts : List Post) (uri : String) : Option Post :=
  posts.find? fun q => q.atUri == some uri

/-- `find_id_by_ap_or_at_uri` -/
def hasUri (posts : List Post) (uri : String) : Bool :=
  posts.any fun q => q.apObjectId == some uri || q.atUri == some uri

/-- `INSERT INTO posts … ON CONFLICT DO NOTHING` -/
def insertOrSkip (posts : List Post) (same : Post → Bool) (p : Post) : Option (List Post) :=
  if posts.any same then some posts else schema.insert posts p

/-- `finalize_post_merge` -/
def finalizePostMerge (posts : List Post) (survivor doomed : Int64) (apObjectId atUri : String) :
    Option (List Post) := do
  let posts ← schema.update posts doomed fun p => { p with apObjectId := none, atUri := none }
  let posts ← schema.update posts survivor fun p =>
    { p with
      apObjectId := some apObjectId
      atUri := some atUri
      claimedApObjectId := none
      claimedAtUri := none }
  schema.update posts doomed fun p => { p with parentOriginalPostId := some survivor, deleted := true }

namespace Proc

variable (pr : Proc) (posts : List Post)

def setPhase (phase : Phase) : Proc := { pr with phase }

/-- What an arrival asks first -/
def begin : Proc :=
  match pr.arrival with
  | .create _ ap _ =>
    if hasUri posts ap then pr.setPhase (.ended .alreadyExists) else pr.setPhase (.search 1)
  | .update sender ap _ =>
    match byApObjectId posts ap with
    | none => pr.setPhase (.ended .missing)
    | some q =>
      if sender ≠ some q.actorId then pr.setPhase (.ended .foreign)
      else if q.atUri.isSome then pr.setPhase (.ended .settled)
      else { pr with row := q.id, phase := .search 1 }
  | .bsky _ uri _ =>
    if (byAtUri posts uri).isSome then pr.setPhase (.ended .alreadyExists)
    else pr.setPhase (.search 1)

/-- The row of the other form, if it claims this one and has the same author -/
def target : Option Post :=
  match pr.arrival with
  | .create actorId ap claim => (claim.bind (byAtUri posts)).filter fun q =>
      q.claimedApObjectId == some ap && q.actorId == actorId
  | .update sender ap uri => (byAtUri posts uri).filter fun q =>
      q.claimedApObjectId == some ap && some q.actorId == sender
  | .bsky actorId uri claim => (claim.bind (byApObjectId posts)).filter fun q =>
      q.claimedAtUri == some uri && q.actorId == actorId

def search (attempt : Nat) : Proc :=
  match pr.arrival, pr.target posts with
  | .update .., some doomed => pr.setPhase (.finalize doomed.id)
  | _, found => pr.setPhase (.write attempt (found.map Post.id))

/-- The write of an attempt -/
def statement (found : Option Int64) : Option (List Post) :=
  match pr.arrival, found with
  | .create _ ap _, some existing => schema.update posts existing fun p =>
      { p with apObjectId := some ap, claimedApObjectId := none }
  | .create actorId ap claim, none =>
    insertOrSkip posts (fun q => q.apObjectId == some ap)
      { id := pr.row, actorId, apObjectId := some ap, claimedAtUri := claim }
  | .update _ _ uri, _ => schema.update posts pr.row fun p => { p with claimedAtUri := some uri }
  | .bsky _ uri _, some existing => schema.update posts existing fun p =>
      { p with atUri := some uri, claimedAtUri := none }
  | .bsky actorId uri claim, none =>
    insertOrSkip posts (fun q => q.atUri == some uri)
      { id := pr.row, actorId, atUri := some uri, claimedApObjectId := claim }

/-- After a write that was committed -/
def written (found : Option Int64) : Proc :=
  match pr.arrival, found with
  | .create .., _ => pr.setPhase .confirm
  | .update .., _ => pr.setPhase (.ended .claimed)
  | .bsky .., some _ => pr.setPhase (.ended .merged)
  | .bsky .., none => pr.setPhase (.ended .inserted)

/-- `retry_on_unique_violation` -/
def retry (attempt : Nat) : Proc :=
  if attempt < maxUniqueViolationRetries then pr.setPhase (.search (attempt + 1))
  else pr.setPhase (.ended .failed)

/-- `finalize_post_merge` of an `Update` -/
def finalize (doomed : Int64) : Option (List Post) :=
  match pr.arrival with
  | .update _ ap uri => finalizePostMerge posts pr.row doomed ap uri
  | _ => none

/-- A saved note is looked up again. -/
def confirm : Proc :=
  match pr.arrival with
  | .create _ ap _ =>
    if hasUri posts ap then pr.setPhase (.ended .inserted) else pr.setPhase (.ended .failed)
  | _ => pr.setPhase (.ended .failed)

end Proc

structure State where
  posts : List Post
  procs : Int64 → Option Proc

def start : State := ⟨[], fun _ => none⟩

def State.setProc (s : State) (i : Int64) (posts : List Post) (pr : Proc) : State :=
  ⟨posts, Function.update s.procs i (some pr)⟩

/-- One statement of a process, with its transaction -/
def State.runProc (s : State) (i : Int64) (pr : Proc) : Option State :=
  match pr.phase with
  | .start => some (s.setProc i s.posts (pr.begin s.posts))
  | .search attempt => some (s.setProc i s.posts (pr.search s.posts attempt))
  | .write attempt found =>
    match pr.statement s.posts found with
    | some posts => some (s.setProc i posts (pr.written found))
    | none => some (s.setProc i s.posts (pr.retry attempt))
  | .finalize doomed =>
    match pr.finalize s.posts doomed with
    | some posts => some (s.setProc i posts (pr.setPhase (.ended .merged)))
    | none => some (s.setProc i s.posts (pr.setPhase (.ended .failed)))
  | .confirm => some (s.setProc i s.posts (pr.confirm s.posts))
  | .ended _ => none

inductive Action where
  | arrive (i : Int64) (arrival : Arrival)
  | run (i : Int64)
deriving DecidableEq

def step (s : State) : Action → Option State
  -- an arrival draws an identifier of its own
  | .arrive i arrival =>
    if s.procs i = none ∧ ∀ p ∈ s.posts, p.id ≠ i then
      some (s.setProc i s.posts ⟨arrival, i, .start⟩)
    else none
  | .run i => (s.procs i).bind (s.runProc i)

def machine : Machine State Action := ⟨step⟩

end Arrivals

end Seiran.Posts
