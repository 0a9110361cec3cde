import Seiran.Model.Posts.Database

/-!
# Merging two rows of one post

`finalize_post_merge` (`repository/post.rs`) and `cleanup_merged_post`
(`repository/post_merge.rs`): the doomed row is deleted logically, what refers to
it is pointed at the survivor, table by table, and the row goes. An `UPDATE` that
violates a key is skipped, and so is one that finds no survivor to point at.
-/

namespace Seiran.Posts

open Sql

inductive MergeCleanup where
  | notSoftDeleted
  | alreadyGone
  | done
deriving DecidableEq

/-- `ON DELETE SET NULL` -/
def nullify (id : Int64) (target : Option Int64) : Option Int64 :=
  if target = some id then none else target

namespace Tables

variable (db : Tables)

/-- `finalize_post_merge` -/
def finalizePostMerge (survivor doomed : Int64) (apObjectId atUri : String) : Tables :=
  let cleared := { db with
    posts := db.updatePost doomed fun p => { p with apObjectId := none, atUri := none } }
  let merged := { cleared with
    posts := cleared.updatePost survivor fun p =>
      { p with
        apObjectId := some apObjectId
        atUri := some atUri
        claimedApObjectId := none
        claimedAtUri := none } }
  { merged with
    posts := merged.updatePost doomed fun p =>
      { p with parentOriginalPostId := some survivor, deleted := true }
    relationCount :=
      match merged.posts.find? fun p => p.id == doomed && !p.deleted with
      | some p => merged.countDelete p
      | none => merged.relationCount }

/-- One `UPDATE` of `REPARENT_SIMPLE` -/
def reparentSimple {R K : Type} [DecidableEq K] (ref : Reference Int64 R K) (survivor doomed : Int64)
    (rows : List R) : List R :=
  if db.hasPost survivor then (ref.reparent doomed survivor rows).getD rows else rows

/-- One `UPDATE` of `REPARENT_COUNTED`. A statement changes a row once: where the survivor is
one of the rows it moves, it does not count them. -/
def reparentCounted (survivor doomed : Int64) (kind : ReferenceKind) : Tables :=
  if db.hasPost survivor then
    match (Post.reference kind).reparent doomed survivor db.posts with
    | none => db
    | some posts =>
      let moved := db.posts.filter fun p => p.ref kind == some doomed
      { db with
        posts
        relationCount := fun kind' id =>
          if kind' = kind ∧ id = survivor ∧ !moved.any (fun p => p.id == survivor) then
            db.relationCount kind' id + moved.length
          else db.relationCount kind' id }
  else db

/-- The loop over `REPARENT_SIMPLE` -/
def reparentAllSimple (survivor doomed : Int64) : Tables :=
  { db with
    bskyConvoLinks := db.reparentSimple BskyConvoLink.reference survivor doomed db.bskyConvoLinks
    dmReadStates := db.reparentSimple DmReadState.threadRoot survivor doomed
      (db.reparentSimple DmReadState.lastRead survivor doomed db.dmReadStates)
    notifications := db.reparentSimple Notification.reference survivor doomed db.notifications
    pinnedPosts := db.reparentSimple PinnedPost.reference survivor doomed db.pinnedPosts
    pollVotes := db.reparentSimple PollVote.reference survivor doomed db.pollVotes
    postHashtags := db.reparentSimple PostHashtag.reference survivor doomed db.postHashtags
    postRecipients := db.reparentSimple PostRecipient.reference survivor doomed db.postRecipients
    posts := db.reparentSimple Post.threadRoot survivor doomed
      (db.reparentSimple Post.parentOriginal survivor doomed db.posts)
    reactions := db.reparentSimple Reaction.reference survivor doomed db.reactions
    reports := db.reparentSimple Report.reference survivor doomed db.reports }

/-- The loop over `REPARENT_COUNTED` -/
def reparentAllCounted (survivor doomed : Int64) : Tables :=
  ((db.reparentCounted survivor doomed .reply).reparentCounted survivor doomed .quote).reparentCounted
    survivor doomed .repost

/-- `DELETE FROM posts WHERE id = …` -/
def deletePost (id : Int64) : Tables :=
  { db with
    posts := (db.posts.filter fun p => p.id != id).map fun p =>
      { p with
        replyToPostId := nullify id p.replyToPostId
        quoteOfPostId := nullify id p.quoteOfPostId
        repostOfPostId := nullify id p.repostOfPostId
        parentOriginalPostId := nullify id p.parentOriginalPostId
        threadRootPostId := nullify id p.threadRootPostId }
    reactions := Reaction.reference.cascade id db.reactions
    pollVotes := PollVote.reference.cascade id db.pollVotes
    postHashtags := PostHashtag.reference.cascade id db.postHashtags
    postRecipients := PostRecipient.reference.cascade id db.postRecipients
    notifications := db.notifications.map fun n => { n with noteId := nullify id n.noteId }
    bookmarks := Bookmark.reference.cascade id db.bookmarks
    pinnedPosts := PinnedPost.reference.cascade id db.pinnedPosts
    dmReadStates := DmReadState.threadRoot.cascade id (DmReadState.lastRead.cascade id db.dmReadStates)
    bskyConvoLinks := BskyConvoLink.reference.cascade id db.bskyConvoLinks
    reports := db.reports.map fun r => { r with subjectPostId := nullify id r.subjectPostId } }

/-- `cleanup_merged_post`; the deletion fails where it would leave a report without its subject
(`reports_subject_consistent`). -/
def cleanupMergedPost (survivor doomed : Int64) : Option MergeCleanup × Tables :=
  match db.posts.find? fun p => p.id == doomed with
  | none => (some .alreadyGone, db)
  | some p =>
    if p.deleted then
      let moved := (db.reparentAllSimple survivor doomed).reparentAllCounted survivor doomed
      if moved.reports.any fun r => r.subjectPostId == some doomed then (none, moved)
      else (some .done, moved.deletePost doomed)
    else (some .notSoftDeleted, db)

/-- Both, one after the other -/
def mergePosts (survivor doomed : Int64) (apObjectId atUri : String) : Tables :=
  ((db.finalizePostMerge survivor doomed apObjectId atUri).cleanupMergedPost survivor doomed).2

end Tables

end Seiran.Posts
