import Seiran.Model.Atp.Service

/-!
# Importing the records of a migrated account

`process_import` (`jobs/at_migration.rs`), for one request: its rows of
`at_migration_records`, the repository of the new account, and the execution
that holds the advisory lock. An execution imports one record in several
statements and enqueues the next; it may end after any of them, by an error or
because the process stops, and is then started again.

Blobs are left out: they are imported after the records, and touch neither
`posts` nor the repository.
-/

namespace Seiran.Import

open Atp

/-- A row of `at_migration_records`. -/
structure StagedRecord where
  id : Nat
  collection : String
  rkey : String
  bytes : Bytes
  /-- `imported_at` is set -/
  imported : Bool
deriving DecidableEq

/-- What is made of the bytes of a record: its JSON, and of that the CID of the
record in the new repository. -/
structure RecordCodec (J : Type) where
  decodeDagcborToJson : Bytes → Option J
  encodeGenericRecord : J → Option Cid

def RecordCodec.cid {J : Type} (C : RecordCodec J) (bytes : Bytes) : Option Cid :=
  (C.decodeDagcborToJson bytes).bind C.encodeGenericRecord

/-- Where the execution is. -/
inductive Phase where
  /-- the status was `importing_data` -/
  | started
  /-- after `claim_next_record` -/
  | claimed (record : StagedRecord)
  /-- no post has the URI, before `insert_full` -/
  | missing (record : StagedRecord)
  /-- the post is there, before `commit_post_record` -/
  | materialized (record : StagedRecord) (postId : Nat)
  /-- the record is in the repository, before `mark_record_imported` -/
  | committed (record : StagedRecord)
deriving DecidableEq

structure State where
  repo : Repo
  /-- in the order of their ids -/
  staged : List StagedRecord
  /-- the status is `importing_data`; after it, `deactivating_source` -/
  importing : Bool
  exec : Option Phase
deriving DecidableEq

inductive Action where
  | start
  | claim
  /-- `find_id_by_at_uri` -/
  | findPost
  | insertFull (id : Nat)
  /-- `commit_post_record` or `commit_generic_record` -/
  | commit
  | mark
  | finishImport
  /-- an error, or the end of the process -/
  | stop
deriving DecidableEq

def claimNextRecord (staged : List StagedRecord) : Option StagedRecord :=
  staged.find? fun r => !r.imported

def markRecordImported (id : Nat) (staged : List StagedRecord) : List StagedRecord :=
  staged.map fun r => if r.id = id then { r with imported := true } else r

def step {J : Type} (C : RecordCodec J) (s : State) : Action → Option State
  | .start => if s.exec = none ∧ s.importing then some { s with exec := some .started } else none
  | .claim =>
    match s.exec with
    | some .started =>
      (claimNextRecord s.staged).map fun r => { s with exec := some (.claimed r) }
    | _ => none
  | .findPost =>
    match s.exec with
    | some (.claimed r) =>
      if r.collection = feedPost ∧ (C.decodeDagcborToJson r.bytes).isSome then
        match findByAtUri s.repo (postUri s.repo.atDid r.rkey) with
        | some row => some { s with exec := some (.materialized r row.id) }
        | none => some { s with exec := some (.missing r) }
      else none
    | _ => none
  | .insertFull id =>
    match s.exec with
    | some (.missing r) =>
      (Atp.insertFull s.repo id).map fun repo =>
        { s with repo, exec := some (.materialized r id) }
    | _ => none
  | .commit =>
    match s.exec with
    | some (.claimed r) =>
      if r.collection ≠ feedPost then
        (C.cid r.bytes).bind fun cid =>
          (commitGenericRecord s.repo r.collection r.rkey cid "create").map fun repo =>
            { s with repo, exec := some (.committed r) }
      else none
    | some (.materialized r postId) =>
      (C.cid r.bytes).bind fun cid =>
        (commitPostRecord s.repo postId r.rkey cid "create").map fun repo =>
          { s with repo, exec := some (.committed r) }
    | _ => none
  | .mark =>
    match s.exec with
    | some (.committed r) =>
      some { s with staged := markRecordImported r.id s.staged, exec := none }
    | _ => none
  | .finishImport =>
    match s.exec with
    | some .started =>
      if (claimNextRecord s.staged).isNone then some { s with importing := false, exec := none }
      else none
    | _ => none
  | .stop => s.exec.map fun _ => { s with exec := none }

def imports {J : Type} (C : RecordCodec J) : Machine State Action := ⟨step C⟩

/-- A request whose records are staged and whose account was just made. Its
DID may have been known before, and posts of it. The keys of the source
repository are distinct and split at their first slash. -/
structure Ready (s : State) : Prop where
  importing : s.importing = true
  exec : s.exec = none
  unimported : ∀ r ∈ s.staged, r.imported = false
  ids : (s.staged.map StagedRecord.id).Nodup
  keys : (s.staged.map fun r => (r.collection, r.rkey)).Nodup
  collections : ∀ r ∈ s.staged, '/' ∉ r.collection.toList
  postIds : (s.repo.posts.map PostRow.id).Nodup
  postUris : ∀ row ∈ s.repo.posts, ∀ row' ∈ s.repo.posts, ∀ u, row.atUri = some u →
    row'.atUri = some u → row.id = row'.id
  postRkeys : ∀ row ∈ s.repo.posts, row.atRkey = none
  recordKeys : (s.repo.records.map fun r => (r.collection, r.rkey)).Nodup
  recordCollections : ∀ r ∈ s.repo.records, '/' ∉ r.collection.toList ∧ r.collection ≠ feedPost

/-! ## What the import is to do -/

/-- The record has one entry in the repository, at its own key. -/
def OneEntry (entries : Entries) (r : StagedRecord) (cid : Cid) : Prop :=
  (entryKey r.collection r.rkey, cid) ∈ entries ∧
    (entries.map Prod.fst).count (entryKey r.collection r.rkey) = 1

/-- The post has one row. -/
def OneRow (repo : Repo) (r : StagedRecord) (cid : Cid) : Prop :=
  ∃ row ∈ repo.posts, row.atUri = some (postUri repo.atDid r.rkey) ∧ row.atRkey = some r.rkey ∧
    row.atCid = some cid ∧ row.deleted = false ∧
      ∀ row' ∈ repo.posts, row'.atUri = some (postUri repo.atDid r.rkey) → row' = row

/-- Every record is imported once, and no other row of `posts` was made. -/
structure Faithful {J : Type} (C : RecordCodec J) (s₀ s : State) : Prop where
  records : ∀ r ∈ s.staged, ∃ cid, C.cid r.bytes = some cid ∧
    OneEntry (lastEntries s.repo.events) r cid ∧ (r.collection = feedPost → OneRow s.repo r cid)
  rows : ∀ row ∈ s.repo.posts, row.id ∈ s₀.repo.posts.map PostRow.id ∨
    ∃ r ∈ s.staged, r.collection = feedPost ∧ row.atUri = some (postUri s.repo.atDid r.rkey)

/-- No execution ends between the insertion of a row and its commit, and no
post of the new account that was known before is deleted. -/
def Careful (s : State) : Action → Prop
  | .stop =>
    match s.exec with
    | some (.materialized _ postId) => ∀ row ∈ s.repo.posts, row.id = postId → row.atUri.isSome
    | _ => True
  | .findPost =>
    match s.exec with
    | some (.claimed r) => ∀ row ∈ s.repo.posts,
      row.atUri = some (postUri s.repo.atDid r.rkey) → row.deleted = false
    | _ => True
  | _ => True

instance (s : State) (a : Action) : Decidable (Careful s a) := by
  unfold Careful
  split <;> try split
  all_goals infer_instance

end Seiran.Import
