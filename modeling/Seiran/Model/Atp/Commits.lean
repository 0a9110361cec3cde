import Mathlib.Logic.Function.Basic
import Seiran.Model.Atp.Service

/-!
# Who commits what

The callers of `AtpCommitService`, for one actor, in any order. A request that
works in several statements (`create_post_from_record`, `delete_post_by_rkey`,
`commit_profile`) is a process, and anything may happen between two of its
steps; it may also stop there.
-/

namespace Seiran.Commits

open Atp

/-- Where a request is. -/
inductive Proc where
  /-- the row `id` is there, before it is committed at `rkey` -/
  | posting (id : Nat) (rkey : String)
  /-- after `find_delete_info` -/
  | deleting (id : Nat) (rkey : String)
  /-- after `soft_delete_by_id`, before the delete commit -/
  | retracting (id : Nat) (rkey : String)
  /-- after the `EXISTS` query for `collection/self` -/
  | checked (collection : String) (existing : Bool)
deriving DecidableEq

structure State where
  repo : Repo
  procs : Nat → Option Proc

/-- An actor without a commit; of one that was known before its migration
there may be posts. -/
def init (did : String) (cached : List PostRow) : State :=
  { repo := { atDid := did, posts := cached, records := [], events := [] }, procs := fun _ => none }

inductive Action where
  /-- `createRecord` and `applyWrites#create`, also `commit_like`,
  `commit_repost` and the like with an rkey of their own -/
  | createRecord (collection rkey : String) (cid : Cid)
  /-- `putRecord` and `applyWrites#update` -/
  | putRecord (collection rkey : String) (cid : Cid)
  | deleteRecord (collection rkey : String)
  /-- `insert_full`, for a post that is to be committed at `rkey` -/
  | insertPost (p id : Nat) (rkey : String)
  /-- `materialize_migrated_post` finds a row with the URI -/
  | reusePost (p : Nat) (rkey : String)
  /-- `commit_post`, `commit_post_record` -/
  | commitPost (p : Nat) (cid : Cid)
  /-- `delete_post_by_rkey`, up to `find_delete_info` -/
  | findByRkey (p : Nat) (rkey : String)
  /-- `delete_note`, up to `find_delete_info` -/
  | findById (p id : Nat)
  | softDeletePost (p : Nat)
  | commitDelete (p : Nat)
  /-- the `EXISTS` query of `commit_profile` and of the declarations -/
  | checkExisting (p : Nat) (collection : String)
  | commitSelf (p : Nat) (cid : Cid)
  /-- any other deletion of a post: a merge, the deletion of the account -/
  | softDelete (id : Nat)
  | stop (p : Nat)
deriving DecidableEq

def setProc (s : State) (p : Nat) (pr : Option Proc) : State :=
  { s with procs := Function.update s.procs p pr }

def start (s : State) (p : Nat) (pr : Proc) : Option State :=
  if s.procs p = none then some (setProc s p (some pr)) else none

/-- `find_delete_info` sees only rows that are not deleted. -/
def findDeleteInfo (repo : Repo) (id : Nat) : Option PostRow :=
  repo.posts.find? fun row => row.id = id ∧ row.deleted = false

/-- A commit, after which the request is done. -/
def finish (s : State) (p : Nat) (repo : Option Repo) : Option State :=
  repo.map fun repo => setProc { s with repo } p none

def step (s : State) : Action → Option State
  | .createRecord collection rkey cid =>
    if collection ≠ feedPost then
      (commitGenericRecord s.repo collection rkey cid "create").map fun repo => { s with repo }
    else none
  | .putRecord collection rkey cid =>
    if collection ≠ feedPost then
      (commitGenericRecord s.repo collection rkey cid "update").map fun repo => { s with repo }
    else none
  | .deleteRecord collection rkey =>
    if collection ≠ feedPost then
      (deleteAtpRecordGeneric s.repo collection rkey).map fun repo => { s with repo }
    else none
  | .insertPost p id rkey =>
    (insertFull s.repo id).bind fun repo => start { s with repo } p (.posting id rkey)
  | .reusePost p rkey =>
    (findByAtUri s.repo (postUri s.repo.atDid rkey)).bind fun row => start s p (.posting row.id rkey)
  | .commitPost p cid =>
    match s.procs p with
    | some (.posting id rkey) => finish s p (commitPostRecord s.repo id rkey cid "create")
    | _ => none
  | .findByRkey p rkey =>
    (findByAtUri s.repo (postUri s.repo.atDid rkey)).bind fun row =>
      (findDeleteInfo s.repo row.id).bind fun row => start s p (.deleting row.id rkey)
  | .findById p id =>
    (findDeleteInfo s.repo id).bind fun row =>
      row.atRkey.bind fun rkey => start s p (.deleting row.id rkey)
  | .softDeletePost p =>
    match s.procs p with
    | some (.deleting id rkey) =>
      some (setProc { s with repo := softDeleteById s.repo id } p (some (.retracting id rkey)))
    | _ => none
  | .commitDelete p =>
    match s.procs p with
    | some (.retracting _ rkey) => finish s p (deleteAtpRecordGeneric s.repo feedPost rkey)
    | _ => none
  | .checkExisting p collection =>
    if collection ≠ feedPost then
      start s p (.checked collection (s.repo.hasRecord collection "self"))
    else none
  | .commitSelf p cid =>
    match s.procs p with
    | some (.checked collection existing) =>
      finish s p (commitGenericRecord s.repo collection "self" cid
        (if existing then "update" else "create"))
    | _ => none
  | .softDelete id => some { s with repo := softDeleteById s.repo id }
  | .stop p => (s.procs p).map fun _ => setProc s p none

def commits : Machine State Action := ⟨step⟩

/-! ## What an event is to say -/

def hasKey (entries : Entries) (path : String) : Prop := ∃ x ∈ entries, x.1 = path

/-- The entries after an op: its path is set to its CID, or deleted. -/
def applyOp (entries : Entries) (op : CommitEvtOp) : Entries :=
  let rest := entries.filter fun x => x.1 ≠ op.path
  match op.cid with
  | some cid => (op.path, cid) :: rest
  | none => rest

/-- The ops of an event are the difference between the tree before it and its own. -/
structure Exact (prev : Entries) (e : RepoEvent) : Prop where
  entries : ∀ x, x ∈ e.ops.foldl applyOp prev ↔ x ∈ e.entries
  create : ∀ op ∈ e.ops, op.action = "create" ↔ ¬ hasKey prev op.path
  update : ∀ op ∈ e.ops, op.action = "update" ↔ hasKey prev op.path ∧ hasKey e.entries op.path
  delete : ∀ op ∈ e.ops, op.action = "delete" ↔ hasKey prev op.path ∧ ¬ hasKey e.entries op.path

/-- Every event of the list is exact. -/
def AllExact : List RepoEvent → Prop
  | [] => True
  | e :: rest => Exact (lastEntries rest) e ∧ AllExact rest

/-! ## Runs in which the requests do not get in each other's way -/

/-- No soft-deleted post other than the one at `path` is still in the tree. -/
def Settled (repo : Repo) (path : String) : Prop :=
  ∀ row ∈ repo.posts, row.deleted = true → ∀ k ∈ row.path, k ≠ path →
    ¬ hasKey (lastEntries repo.events) k

/-- No post and no other record has the path of the record `collection/rkey`,
except posts that are gone from the tree. -/
def Alone (repo : Repo) (collection rkey : String) : Prop :=
  (∀ row ∈ repo.posts, row.path = some (entryKey collection rkey) →
    row.deleted = true ∧ ¬ hasKey (lastEntries repo.events) (entryKey collection rkey)) ∧
    ∀ r ∈ repo.records, r.key = entryKey collection rkey → r.collection = collection ∧ r.rkey = rkey

/-- No record has the path of the post at `rkey`. -/
def PostAlone (repo : Repo) (rkey : String) : Prop :=
  ∀ r ∈ repo.records, r.key ≠ entryKey feedPost rkey

/-- No commit comes between the soft deletion of a post and its delete commit;
`createRecord` is called for a record that is not there, `putRecord` and
`deleteRecord` for one that is; the answer of an `EXISTS` query still holds at
the commit; a post that is committed is not in the tree, one whose deletion is
committed is. -/
def Orderly (s : State) : Action → Prop
  | .createRecord collection rkey _ =>
    Settled s.repo (entryKey collection rkey) ∧ Alone s.repo collection rkey ∧
      s.repo.hasRecord collection rkey = false
  | .putRecord collection rkey _ | .deleteRecord collection rkey =>
    Settled s.repo (entryKey collection rkey) ∧ Alone s.repo collection rkey ∧
      s.repo.hasRecord collection rkey = true
  | .commitPost p _ =>
    match s.procs p with
    | some (.posting _ rkey) =>
      Settled s.repo (entryKey feedPost rkey) ∧ PostAlone s.repo rkey ∧
        ¬ hasKey (lastEntries s.repo.events) (entryKey feedPost rkey)
    | _ => True
  | .commitDelete p =>
    match s.procs p with
    | some (.retracting _ rkey) =>
      Settled s.repo (entryKey feedPost rkey) ∧ PostAlone s.repo rkey ∧
        hasKey (lastEntries s.repo.events) (entryKey feedPost rkey)
    | _ => True
  | .commitSelf p _ =>
    match s.procs p with
    | some (.checked collection existing) =>
      Settled s.repo (entryKey collection "self") ∧ Alone s.repo collection "self" ∧
        s.repo.hasRecord collection "self" = existing
    | _ => True
  | _ => True

instance (entries : Entries) (path : String) : Decidable (hasKey entries path) :=
  inferInstanceAs (Decidable (∃ x ∈ entries, x.1 = path))

instance (repo : Repo) (path : String) : Decidable (Settled repo path) :=
  inferInstanceAs (Decidable (∀ row ∈ repo.posts, row.deleted = true → ∀ k ∈ row.path, k ≠ path →
    ¬ hasKey (lastEntries repo.events) k))

instance (repo : Repo) (collection rkey : String) : Decidable (Alone repo collection rkey) :=
  inferInstanceAs (Decidable ((∀ row ∈ repo.posts, row.path = some (entryKey collection rkey) →
    row.deleted = true ∧ ¬ hasKey (lastEntries repo.events) (entryKey collection rkey)) ∧
    ∀ r ∈ repo.records, r.key = entryKey collection rkey →
      r.collection = collection ∧ r.rkey = rkey))

instance (repo : Repo) (rkey : String) : Decidable (PostAlone repo rkey) :=
  inferInstanceAs (Decidable (∀ r ∈ repo.records, r.key ≠ entryKey feedPost rkey))

instance decidableOrderly (s : State) (a : Action) : Decidable (Orderly s a) := by
  unfold Orderly
  split <;> try split
  all_goals infer_instance

end Seiran.Commits
