import Mathlib.Data.List.Sort
import Seiran.Framework.Run
import Seiran.Model.Atp.Ipld

/-!
# Commits to an account's repository

`atp/service.rs`, for one actor. The records of a repository are kept in two
tables, `posts` and `atp_records`; `load_atp_entries` reads them, and every
commit builds the tree anew from what it reads. `try_apply_write` is one
SERIALIZABLE transaction, so it is one step here.

A tree is given by its entries (`walkMst_buildMst`).
-/

namespace Seiran.Atp

def feedPost : String := "app.bsky.feed.post"

def entryKey (collection rkey : String) : String := collection ++ "/" ++ rkey

/-- `at://{did}/app.bsky.feed.post/{rkey}` -/
def postUri (did rkey : String) : String := "at://" ++ did ++ "/app.bsky.feed.post/" ++ rkey

/-- The columns of `posts` that say where the post is in the repository. -/
structure PostRow where
  id : Nat
  atUri : Option String
  atCid : Option Cid
  atRkey : Option String
  /-- `deleted_at` is set -/
  deleted : Bool
deriving DecidableEq

/-- A row of `atp_records`, with key (`collection`, `rkey`). -/
structure AtpRecord where
  collection : String
  rkey : String
  cid : Cid
deriving DecidableEq

abbrev Entries := List (String × Cid)

structure CommitRecord where
  collection : String
  rkey : String
  cid : Cid
  action : String
deriving DecidableEq

inductive RepoWrite where
  | put (record : CommitRecord)
  | delete (collection rkey : String)
deriving DecidableEq

/-- `CommitEvtOp` -/
structure CommitEvtOp where
  action : String
  path : String
  cid : Option Cid
deriving DecidableEq

/-- A row of `atp_repo_events`: its ops, and the entries of the tree it commits. -/
structure RepoEvent where
  ops : List CommitEvtOp
  entries : Entries
deriving DecidableEq

/-- The rows of one actor; the events are in order, the last one first. -/
structure Repo where
  atDid : String
  posts : List PostRow
  records : List AtpRecord
  events : List RepoEvent
deriving DecidableEq

/-- The entry of a post that has been committed, deleted or not. -/
def PostRow.entry (row : PostRow) : Option (String × Cid) :=
  match row.atRkey, row.atCid with
  | some rkey, some cid => some (entryKey feedPost rkey, cid)
  | _, _ => none

/-- The path of a post that has been committed, deleted or not. -/
def PostRow.path (row : PostRow) : Option String := row.atRkey.map (entryKey feedPost)

def AtpRecord.key (record : AtpRecord) : String := entryKey record.collection record.rkey

def loadAtpEntries (repo : Repo) : Entries :=
  (repo.posts.filter fun row => !row.deleted).filterMap PostRow.entry ++
    repo.records.map fun record => (record.key, record.cid)

def RepoWrite.key : RepoWrite → String
  | .put record => entryKey record.collection record.rkey
  | .delete collection rkey => entryKey collection rkey

def RepoWrite.added : RepoWrite → Entries
  | .put record => [(entryKey record.collection record.rkey, record.cid)]
  | .delete _ _ => []

/-- The entries of the new tree. -/
def newEntries (repo : Repo) (write : RepoWrite) : Entries :=
  ((loadAtpEntries repo).filter (fun x => x.1 ≠ write.key) ++ write.added).insertionSort
    fun x y => x.1 ≤ y.1

/-- `INSERT INTO atp_records … ON CONFLICT … DO UPDATE` -/
def upsertRecord (record : CommitRecord) (records : List AtpRecord) : List AtpRecord :=
  ⟨record.collection, record.rkey, record.cid⟩ ::
    records.filter fun r => ¬ (r.collection = record.collection ∧ r.rkey = record.rkey)

def deleteRecord (collection rkey : String) (records : List AtpRecord) : List AtpRecord :=
  records.filter fun r => ¬ (r.collection = collection ∧ r.rkey = rkey)

def setAtColumns (did : String) (record : CommitRecord) (row : PostRow) : PostRow :=
  { row with
    atUri := some (postUri did record.rkey), atCid := some record.cid, atRkey := some record.rkey }

/-- `UPDATE posts SET at_uri, at_cid, at_rkey`; an error if another row has the
URI (`at_uri` is unique, deleted rows included). -/
def updatePost (did : String) (record : CommitRecord) (postId : Nat) (posts : List PostRow) :
    Option (List PostRow) :=
  let atUri := postUri did record.rkey
  if (posts.any fun row => row.id = postId) ∧
      posts.any fun row => row.id ≠ postId ∧ row.atUri = some atUri then none
  else some (posts.map fun row => if row.id = postId then setAtColumns did record row else row)

def RepoWrite.op : RepoWrite → CommitEvtOp
  | .put record =>
    { action := record.action, path := entryKey record.collection record.rkey,
      cid := some record.cid }
  | .delete collection rkey =>
    { action := "delete", path := entryKey collection rkey, cid := none }

/-- Step ⑨, the table `atp_records`. -/
def applyToRecords (write : RepoWrite) (records : List AtpRecord) : List AtpRecord :=
  match write with
  | .put record =>
    -- posts are kept in `posts` only
    if record.collection ≠ feedPost then upsertRecord record records else records
  | .delete collection rkey => deleteRecord collection rkey records

/-- Step ⑨, the table `posts`. -/
def applyToPosts (did : String) (write : RepoWrite) (postId : Option Nat) (posts : List PostRow) :
    Option (List PostRow) :=
  match write, postId with
  | .put record, some pid => updatePost did record pid posts
  | _, _ => some posts

/-- One commit; `none` if the transaction fails, and nothing has happened then. -/
def tryApplyWrite (repo : Repo) (write : RepoWrite) (postId : Option Nat) : Option Repo :=
  (applyToPosts repo.atDid write postId repo.posts).map fun posts =>
    { repo with
      posts
      records := applyToRecords write repo.records
      events := { ops := [write.op], entries := newEntries repo write } :: repo.events }

/-! ## The callers of `apply_write` -/

def commitGenericRecord (repo : Repo) (collection rkey : String) (cid : Cid) (action : String) :
    Option Repo :=
  tryApplyWrite repo (.put { collection, rkey, cid, action }) none

def commitPostRecord (repo : Repo) (postId : Nat) (rkey : String) (cid : Cid) (action : String) :
    Option Repo :=
  tryApplyWrite repo (.put { collection := feedPost, rkey, cid, action }) (some postId)

def deleteAtpRecordGeneric (repo : Repo) (collection rkey : String) : Option Repo :=
  tryApplyWrite repo (.delete collection rkey) none

/-- `posts_repo.insert_full`, which fails on an id that is taken. -/
def insertFull (repo : Repo) (id : Nat) : Option Repo :=
  if repo.posts.any fun row => row.id = id then none
  else some { repo with
    posts := repo.posts ++ [{ id, atUri := none, atCid := none, atRkey := none, deleted := false }] }

/-- `soft_delete_by_id` -/
def softDeleteById (repo : Repo) (id : Nat) : Repo :=
  { repo with
    posts := repo.posts.map fun row => if row.id = id then { row with deleted := true } else row }

/-- `find_id_by_at_uri`, which sees deleted rows too. -/
def findByAtUri (repo : Repo) (atUri : String) : Option PostRow :=
  repo.posts.find? fun row => row.atUri = some atUri

/-- The actor has a record `collection/rkey` outside `posts`. -/
def Repo.hasRecord (repo : Repo) (collection rkey : String) : Bool :=
  repo.records.any fun r => r.collection = collection ∧ r.rkey = rkey

/-- The entries of the last tree that was committed. -/
def lastEntries : List RepoEvent → Entries
  | [] => []
  | e :: _ => e.entries

end Seiran.Atp
