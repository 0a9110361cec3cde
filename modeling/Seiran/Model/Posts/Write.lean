import Seiran.Framework.Run
import Seiran.Model.Posts.Merge

/-!
# Writing posts

The functions that insert, delete and resolve posts (`repository/post.rs`,
`repository/bsky_ingest.rs`, `repository/dm.rs`, `repository/user.rs`,
`atp/client.rs`, `ap/outbox.rs`), each as one transaction on the tables, and the
machine they make together with the two functions of a merge. A function that
fails leaves no trace.
-/

namespace Seiran.Posts

open Sql

/-- The columns of `insert_remote_with_dedup` -/
structure InsertRemoteWithDedupParams where
  id : Int64
  actorId : Int64
  apObjectId : String
  parentOriginalPostId : Option Int64 := none
  replyToPostId : Option Int64 := none
  threadRootPostId : Option Int64 := none
  quoteOfPostId : Option Int64 := none
  claimedAtUri : Option String := none
deriving DecidableEq

/-- The columns of `insert_or_merge_bsky_post` -/
structure BskyPostRow where
  id : Int64
  actorId : Int64
  atUri : String
  replyToPostId : Option Int64 := none
  quoteOfPostId : Option Int64 := none
  claimedApObjectId : Option String := none
deriving DecidableEq

namespace Tables

variable (db : Tables)

/-- A new row, with `notes_count + 1` of its author -/
def insertCounted (p : Post) : Option Tables :=
  (db.insertPost p).map fun db' => db'.countNotes p.actorId (· + 1)

/-- The same with `ON CONFLICT DO NOTHING` -/
def insertOrSkipCounted (same : Post → Bool) (p : Post) : Option Tables :=
  (db.insertOrSkip same p).map fun (db', inserted) =>
    if inserted then db'.countNotes p.actorId (· + 1) else db'

/-- A new row or none, and no count -/
def insertOrSkipUncounted (same : Post → Bool) (p : Post) : Option Tables :=
  (db.insertOrSkip same p).map Prod.fst

/-- `insert` -/
def insert (id actorId : Int64) (apObjectId : String) : Option Tables :=
  db.insertCounted { id, actorId, apObjectId := some apObjectId }

/-- `insert_full` -/
def insertFull (id actorId : Int64) (apObjectId : String)
    (replyToPostId quoteOfPostId threadRootPostId : Option Int64) : Option Tables :=
  db.insertCounted
    { id, actorId, apObjectId := some apObjectId, replyToPostId, quoteOfPostId, threadRootPostId }

/-- `insert_repost` -/
def insertRepost (id actorId : Int64) (apObjectId : String) (repostOfPostId : Option Int64) :
    Option Tables :=
  db.insertOrSkipCounted (fun q => q.apObjectId == some apObjectId)
    { id, actorId, apObjectId := some apObjectId, repostOfPostId }

/-- `insert_repost_bsky` -/
def insertRepostBsky (id actorId : Int64) (atUri : String) (repostOfPostId : Int64) :
    Option Tables :=
  db.insertCounted { id, actorId, atUri := some atUri, repostOfPostId := some repostOfPostId }

/-- `insert_remote` -/
def insertRemote (id actorId : Int64) (apObjectId : String) : Option Tables :=
  db.insertOrSkipCounted (fun q => q.apObjectId == some apObjectId)
    { id, actorId, apObjectId := some apObjectId }

/-- The row of `insert_remote_with_dedup` that came in by the other protocol -/
def dedupTarget (row : InsertRemoteWithDedupParams) : Option Post :=
  (row.claimedAtUri.bind fun uri => db.posts.find? fun q => q.atUri == some uri).filter fun q =>
    q.claimedApObjectId == some row.apObjectId && q.actorId == row.actorId

/-- `insert_remote_with_dedup` -/
def insertRemoteWithDedup (row : InsertRemoteWithDedupParams) : Option Tables :=
  match db.dedupTarget row with
  | some existing =>
    if db.posts.any fun q => q.id != existing.id && q.apObjectId == some row.apObjectId then none
    else some { db with
      posts := db.updatePost existing.id fun p =>
        { p with apObjectId := some row.apObjectId, claimedApObjectId := none } }
  | none =>
    db.insertOrSkipCounted (fun q => q.apObjectId == some row.apObjectId) {
      id := row.id
      actorId := row.actorId
      apObjectId := some row.apObjectId
      parentOriginalPostId := row.parentOriginalPostId
      replyToPostId := row.replyToPostId
      threadRootPostId := row.threadRootPostId
      quoteOfPostId := row.quoteOfPostId
      claimedAtUri := row.claimedAtUri }

/-- The row of `insert_or_merge_bsky_post` that came in by the other protocol -/
def mergeTarget (row : BskyPostRow) : Option Post :=
  (row.claimedApObjectId.bind fun ap => db.posts.find? fun q => q.apObjectId == some ap).filter
    fun q => q.claimedAtUri == some row.atUri && q.actorId == row.actorId

/-- `insert_or_merge_bsky_post` -/
def insertOrMergeBskyPost (row : BskyPostRow) : Option Tables :=
  match db.mergeTarget row with
  | some existing =>
    if db.posts.any fun q => q.id != existing.id && q.atUri == some row.atUri then none
    else some { db with
      posts := db.updatePost existing.id fun p =>
        { p with atUri := some row.atUri, claimedAtUri := none } }
  | none =>
    db.insertOrSkipUncounted (fun q => q.atUri == some row.atUri) {
      id := row.id
      actorId := row.actorId
      atUri := some row.atUri
      replyToPostId := row.replyToPostId
      quoteOfPostId := row.quoteOfPostId
      claimedApObjectId := row.claimedApObjectId }

/-- `import_bsky_dm`, as far as `posts` is concerned -/
def importBskyDm (id threadRoot senderActorId : Int64) (messageId : String) : Option Tables :=
  db.insertOrSkipUncounted (fun q => q.bskyMessageId == some messageId)
    { id, actorId := senderActorId, threadRootPostId := some threadRoot,
      bskyMessageId := some messageId }

/-- `upsert_bsky_post` -/
def upsertBskyPost (id actorId : Int64) (atUri : String) : Option Tables :=
  db.insertOrSkipUncounted (fun q => q.atUri == some atUri) { id, actorId, atUri := some atUri }

/-- `upsert_ap_note` -/
def upsertApNote (id actorId : Int64) (apObjectId : String) : Option Tables :=
  db.insertOrSkipUncounted (fun q => q.apObjectId == some apObjectId)
    { id, actorId, apObjectId := some apObjectId }

/-- `soft_delete_by_id`, `soft_delete_by_ap_object_id`, `soft_delete_by_at_uri`: at most one row
is meant, by its unique key. -/
def softDelete (q : Post → Bool) : Tables :=
  match db.posts.find? fun p => q p && !p.deleted with
  | none => db
  | some p =>
    ({ db with
      posts := db.updatePost p.id fun p => { p with deleted := true }
      relationCount := db.countDelete p } : Tables).countNotes p.actorId fun n => n - 1

def softDeleteById (id : Int64) : Tables := db.softDelete fun p => p.id == id

def softDeleteByApObjectId (apObjectId : String) : Tables :=
  db.softDelete fun p => p.apObjectId == some apObjectId

def softDeleteByAtUri (atUri : String) : Tables := db.softDelete fun p => p.atUri == some atUri

/-- The `UPDATE posts` of `withdraw_local_actor`, with the trigger for each row -/
def withdrawLocalActor (actorId : Int64) : Tables :=
  let withdrawn (p : Post) : Bool := p.actorId == actorId && !p.deleted
  { db with
    posts := db.posts.map fun p => if withdrawn p then { p with deleted := true } else p
    relationCount := fun kind id => db.relationCount kind id -
      db.posts.countP fun p => withdrawn p && p.ref kind == some id }

/-- `apply_reference_resolution` of a post that was resolved -/
def applyReferenceResolution (postId : Int64) (kind : ReferenceKind) (resolved : Int64) :
    Option Tables :=
  let posts := db.updatePost postId fun p => p.setRef kind (some resolved)
  if db.hasPost postId ∧ (¬ db.hasPost resolved ∨ ¬ (Post.reference .repost).Unique posts) then none
  else some { db with posts }

/-- `claim_or_find_seiranpost_merge_target`: the post with the one URI has none of the other
protocol, and the post that has it names the first and is by the same author. -/
def isMergeTarget (survivor doomed : Int64) (apObjectId atUri : String) : Bool :=
  db.posts.any fun p =>
    p.id == survivor && p.apObjectId == some apObjectId && p.atUri.isNone &&
      db.posts.any fun q =>
        q.id == doomed && q.atUri == some atUri && q.claimedApObjectId == some apObjectId &&
          q.actorId == p.actorId

end Tables

inductive Action where
  | insert (id actorId : Int64) (apObjectId : String)
  | insertFull (id actorId : Int64) (apObjectId : String)
      (replyToPostId quoteOfPostId threadRootPostId : Option Int64)
  | insertRepost (id actorId : Int64) (apObjectId : String) (repostOfPostId : Option Int64)
  | insertRepostBsky (id actorId : Int64) (atUri : String) (repostOfPostId : Int64)
  | insertRemote (id actorId : Int64) (apObjectId : String)
  | insertRemoteWithDedup (row : InsertRemoteWithDedupParams)
  | insertOrMergeBskyPost (row : BskyPostRow)
  | importBskyDm (id threadRoot senderActorId : Int64) (messageId : String)
  | upsertBskyPost (id actorId : Int64) (atUri : String)
  | upsertApNote (id actorId : Int64) (apObjectId : String)
  | softDeleteById (id : Int64)
  | softDeleteByApObjectId (apObjectId : String)
  | softDeleteByAtUri (atUri : String)
  | withdrawLocalActor (actorId : Int64)
  | applyReferenceResolution (postId : Int64) (kind : ReferenceKind) (resolved : Int64)
  | finalizePostMerge (survivor doomed : Int64) (apObjectId atUri : String)
  | cleanupMergedPost (survivor doomed : Int64)
deriving DecidableEq

def step (db : Tables) : Action → Option Tables
  | .insert id actorId ap => db.insert id actorId ap
  | .insertFull id actorId ap reply quote root => db.insertFull id actorId ap reply quote root
  | .insertRepost id actorId ap target => db.insertRepost id actorId ap target
  | .insertRepostBsky id actorId uri target => db.insertRepostBsky id actorId uri target
  | .insertRemote id actorId ap => db.insertRemote id actorId ap
  | .insertRemoteWithDedup row => db.insertRemoteWithDedup row
  | .insertOrMergeBskyPost row => db.insertOrMergeBskyPost row
  | .importBskyDm id root sender message => db.importBskyDm id root sender message
  | .upsertBskyPost id actorId uri => db.upsertBskyPost id actorId uri
  | .upsertApNote id actorId ap => db.upsertApNote id actorId ap
  | .softDeleteById id => some (db.softDeleteById id)
  | .softDeleteByApObjectId ap => some (db.softDeleteByApObjectId ap)
  | .softDeleteByAtUri uri => some (db.softDeleteByAtUri uri)
  | .withdrawLocalActor actorId => some (db.withdrawLocalActor actorId)
  | .applyReferenceResolution postId kind resolved =>
    db.applyReferenceResolution postId kind resolved
  | .finalizePostMerge survivor doomed ap uri =>
    if db.isMergeTarget survivor doomed ap uri then
      some (db.finalizePostMerge survivor doomed ap uri)
    else none
  -- the job of a merge, which is of two posts
  | .cleanupMergedPost survivor doomed =>
    if survivor ≠ doomed then some (db.cleanupMergedPost survivor doomed).2 else none

def machine : Machine Tables Action := ⟨step⟩

end Seiran.Posts
