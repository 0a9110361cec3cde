import Seiran.Framework.Int64
import Seiran.Framework.Sql.Reference

/-!
# Posts and what refers to them

The table `posts` with its references to itself and its counters, the tables
whose rows `cleanup_merged_post` moves or deletes, and the triggers that keep
the counters (`20260803120000_add_post_relation_counts.sql`).

The counters are functions: `reply_count`, `quote_count` and `repost_count` of
the post with an id, and `notes_count` of the actor with an id. The other tables
that refer to posts (attachments, link cards, blobs, reactions to messages,
hidden messages, link resolutions, bridges) are left out.
-/

namespace Seiran.Posts

open Sql

inductive ReferenceKind where
  | reply
  | quote
  | repost
deriving DecidableEq

def ReferenceKind.all : List ReferenceKind := [.reply, .quote, .repost]

structure Post where
  id : Int64
  actorId : Int64
  replyToPostId : Option Int64 := none
  quoteOfPostId : Option Int64 := none
  repostOfPostId : Option Int64 := none
  parentOriginalPostId : Option Int64 := none
  threadRootPostId : Option Int64 := none
  /-- `deleted_at IS NOT NULL` -/
  deleted : Bool := false
  apObjectId : Option String := none
  atUri : Option String := none
  claimedApObjectId : Option String := none
  claimedAtUri : Option String := none
  bskyMessageId : Option String := none
deriving DecidableEq

namespace Post

/-- The column of a kind of reference -/
def ref (p : Post) : ReferenceKind → Option Int64
  | .reply => p.replyToPostId
  | .quote => p.quoteOfPostId
  | .repost => p.repostOfPostId

def setRef (p : Post) (kind : ReferenceKind) (target : Option Int64) : Post :=
  match kind with
  | .reply => { p with replyToPostId := target }
  | .quote => { p with quoteOfPostId := target }
  | .repost => { p with repostOfPostId := target }

@[simp] theorem ref_setRef (p : Post) (kind : ReferenceKind) (target : Option Int64) :
    (p.setRef kind target).ref kind = target := by
  cases kind <;> rfl

theorem ref_setRef_of_ne (p : Post) {kind kind' : ReferenceKind} (target : Option Int64)
    (h : kind' ≠ kind) : (p.setRef kind target).ref kind' = p.ref kind' := by
  cases kind <;> cases kind' <;> first | rfl | exact absurd rfl h

@[simp] theorem id_setRef (p : Post) (kind : ReferenceKind) (target : Option Int64) :
    (p.setRef kind target).id = p.id := by
  cases kind <;> rfl

@[simp] theorem actorId_setRef (p : Post) (kind : ReferenceKind) (target : Option Int64) :
    (p.setRef kind target).actorId = p.actorId := by
  cases kind <;> rfl

@[simp] theorem deleted_setRef (p : Post) (kind : ReferenceKind) (target : Option Int64) :
    (p.setRef kind target).deleted = p.deleted := by
  cases kind <;> rfl

/-- In `idx_posts_unique_repost`, the actor; the other columns have no unique index. -/
def indexRest (kind : ReferenceKind) (p : Post) : Option Int64 :=
  match kind with
  | .repost => if p.deleted then none else some p.actorId
  | _ => none

/-- `posts.reply_to_post_id`, `posts.quote_of_post_id`, `posts.repost_of_post_id` -/
def reference (kind : ReferenceKind) : Reference Int64 Post Int64 where
  get p := p.ref kind
  point i p := p.setRef kind (some i)
  rest := indexRest kind
  get_point i p := ref_setRef p kind (some i)
  rest_point i p := by cases kind <;> rfl

/-- `posts.parent_original_post_id` -/
def parentOriginal : Reference Int64 Post Unit where
  get := parentOriginalPostId
  point i p := { p with parentOriginalPostId := some i }
  rest _ := none
  get_point _ _ := rfl
  rest_point _ _ := rfl

/-- `posts.thread_root_post_id` -/
def threadRoot : Reference Int64 Post Unit where
  get := threadRootPostId
  point i p := { p with threadRootPostId := some i }
  rest _ := none
  get_point _ _ := rfl
  rest_point _ _ := rfl

/-- `COALESCE(ap_object_id, claimed_ap_object_id)`, `COALESCE(at_uri, claimed_at_uri)` -/
def mutualClaim (p : Post) : Option (String × String) :=
  if p.deleted then none
  else (p.apObjectId <|> p.claimedApObjectId).bind fun ap =>
    (p.atUri <|> p.claimedAtUri).map (Prod.mk ap)

end Post

structure Reaction where
  id : Int64
  postId : Int64
  actorId : Int64
  content : String
deriving DecidableEq

/-- `UNIQUE (post_id, actor_id)` -/
def Reaction.reference : Reference Int64 Reaction Int64 where
  get r := some r.postId
  point i r := { r with postId := i }
  rest r := some r.actorId
  get_point _ _ := rfl
  rest_point _ _ := rfl

structure PollVote where
  id : Int64
  postId : Int64
  actorId : Int64
  optionIndex : Int
deriving DecidableEq

/-- `UNIQUE (post_id, actor_id, option_index)` -/
def PollVote.reference : Reference Int64 PollVote (Int64 × Int) where
  get v := some v.postId
  point i v := { v with postId := i }
  rest v := some (v.actorId, v.optionIndex)
  get_point _ _ := rfl
  rest_point _ _ := rfl

structure PostHashtag where
  postId : Int64
  hashtagId : Int64
deriving DecidableEq

/-- `PRIMARY KEY (post_id, hashtag_id)` -/
def PostHashtag.reference : Reference Int64 PostHashtag Int64 where
  get t := some t.postId
  point i t := { t with postId := i }
  rest t := some t.hashtagId
  get_point _ _ := rfl
  rest_point _ _ := rfl

structure PostRecipient where
  postId : Int64
  actorId : Int64
deriving DecidableEq

/-- `UNIQUE (post_id, actor_id)` -/
def PostRecipient.reference : Reference Int64 PostRecipient Int64 where
  get r := some r.postId
  point i r := { r with postId := i }
  rest r := some r.actorId
  get_point _ _ := rfl
  rest_point _ _ := rfl

structure Notification where
  id : Int64
  recipientActorId : Int64
  noteId : Option Int64
deriving DecidableEq

def Notification.reference : Reference Int64 Notification Unit where
  get := Notification.noteId
  point i n := { n with noteId := some i }
  rest _ := none
  get_point _ _ := rfl
  rest_point _ _ := rfl

structure Bookmark where
  id : Int64
  actorId : Int64
  postId : Int64
deriving DecidableEq

/-- `UNIQUE (actor_id, post_id)` -/
def Bookmark.reference : Reference Int64 Bookmark Int64 where
  get b := some b.postId
  point i b := { b with postId := i }
  rest b := some b.actorId
  get_point _ _ := rfl
  rest_point _ _ := rfl

structure PinnedPost where
  id : Int64
  actorId : Int64
  postId : Int64
deriving DecidableEq

/-- `UNIQUE (actor_id, post_id)` -/
def PinnedPost.reference : Reference Int64 PinnedPost Int64 where
  get p := some p.postId
  point i p := { p with postId := i }
  rest p := some p.actorId
  get_point _ _ := rfl
  rest_point _ _ := rfl

structure DmReadState where
  actorId : Int64
  threadRootPostId : Int64
  lastReadPostId : Int64
deriving DecidableEq

/-- `PRIMARY KEY (actor_id, thread_root_post_id)` -/
def DmReadState.threadRoot : Reference Int64 DmReadState Int64 where
  get s := some s.threadRootPostId
  point i s := { s with threadRootPostId := i }
  rest s := some s.actorId
  get_point _ _ := rfl
  rest_point _ _ := rfl

def DmReadState.lastRead : Reference Int64 DmReadState Unit where
  get s := some s.lastReadPostId
  point i s := { s with lastReadPostId := i }
  rest _ := none
  get_point _ _ := rfl
  rest_point _ _ := rfl

structure BskyConvoLink where
  threadRootPostId : Int64
  convoId : String
deriving DecidableEq

/-- `thread_root_post_id BIGINT PRIMARY KEY` -/
def BskyConvoLink.reference : Reference Int64 BskyConvoLink Unit where
  get l := some l.threadRootPostId
  point i l := { l with threadRootPostId := i }
  rest _ := some ()
  get_point _ _ := rfl
  rest_point _ _ := rfl

structure Report where
  id : Int64
  subjectPostId : Option Int64
deriving DecidableEq

def Report.reference : Reference Int64 Report Unit where
  get := Report.subjectPostId
  point i r := { r with subjectPostId := some i }
  rest _ := none
  get_point _ _ := rfl
  rest_point _ _ := rfl

structure Tables where
  posts : List Post := []
  reactions : List Reaction := []
  pollVotes : List PollVote := []
  postHashtags : List PostHashtag := []
  postRecipients : List PostRecipient := []
  notifications : List Notification := []
  bookmarks : List Bookmark := []
  pinnedPosts : List PinnedPost := []
  dmReadStates : List DmReadState := []
  bskyConvoLinks : List BskyConvoLink := []
  reports : List Report := []
  /-- `reply_count`, `quote_count`, `repost_count` of a post -/
  relationCount : ReferenceKind → Int64 → Nat := fun _ _ => 0
  /-- `notes_count` of an actor -/
  notesCount : Int64 → Nat := fun _ => 0

/-- The tables with their keys. -/
structure Database extends Tables where
  posts_pkey : (posts.map Post.id).Nodup
  idx_posts_unique_repost : (Post.reference .repost).Unique posts
  reactions_key : Reaction.reference.Unique reactions
  poll_votes_key : PollVote.reference.Unique pollVotes
  post_hashtags_pkey : PostHashtag.reference.Unique postHashtags
  post_recipients_key : PostRecipient.reference.Unique postRecipients
  bookmarks_key : Bookmark.reference.Unique bookmarks

namespace Tables

variable (db : Tables)

def hasPost (id : Int64) : Bool := db.posts.any fun p => p.id == id

/-- The rows of posts after an `UPDATE` by id -/
def updatePost (id : Int64) (f : Post → Post) : List Post :=
  db.posts.map fun p => if p.id == id then f p else p

/-- A column of the posts with the references of `p` to them, by kind, counted by `f` -/
def countRefs (p : Post) (f : Nat → Nat) (kind : ReferenceKind) (id : Int64) : Nat :=
  if p.ref kind = some id then f (db.relationCount kind id) else db.relationCount kind id

/-- `trg_posts_relation_counts_delete`, when `deleted_at` of `p` is set -/
def countDelete (p : Post) : ReferenceKind → Int64 → Nat := db.countRefs p fun n => n - 1

/-- Keys and foreign keys that a new row violates -/
def violates (p : Post) : Bool :=
  db.hasPost p.id ||
    (ReferenceKind.all.any fun kind => !(p.ref kind).all db.hasPost) ||
    !p.parentOriginalPostId.all db.hasPost ||
    !p.threadRootPostId.all (fun root => root == p.id || db.hasPost root) ||
    db.posts.any (fun q =>
      (p.apObjectId.isSome && q.apObjectId == p.apObjectId) ||
        (p.atUri.isSome && q.atUri == p.atUri) ||
        (p.bskyMessageId.isSome && q.bskyMessageId == p.bskyMessageId) ||
        (p.mutualClaim.isSome && q.mutualClaim == p.mutualClaim)) ||
    !decide ((Post.reference .repost).Unique (db.posts ++ [p]))

/-- `INSERT INTO posts` of a row that is not deleted, with `trg_posts_relation_counts_insert` -/
def insertPost (p : Post) : Option Tables :=
  if db.violates p then none
  else some { db with
    posts := db.posts ++ [p]
    relationCount := fun kind id => if id = p.id then 0 else db.countRefs p (· + 1) kind id }

/-- `INSERT INTO posts … ON CONFLICT DO NOTHING`, and whether there is a new row -/
def insertOrSkip (same : Post → Bool) (p : Post) : Option (Tables × Bool) :=
  if db.posts.any same then some (db, false) else (db.insertPost p).map fun db' => (db', true)

/-- `UPDATE actors SET notes_count = …` -/
def countNotes (actorId : Int64) (f : Nat → Nat) : Tables :=
  { db with notesCount := fun a => if a = actorId then f (db.notesCount a) else db.notesCount a }

end Tables

end Seiran.Posts
