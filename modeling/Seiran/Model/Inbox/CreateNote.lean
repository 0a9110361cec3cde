import Seiran.Model.Inbox.NoteExtras
import Seiran.Model.Posts.Arrivals
import Seiran.Model.Timeline.Database

/-!
# A note that is received

`handle_create_note` (`create.rs`) and `save_ap_note_core` (`note_save.rs`), as
attempts of a job that is retried after an error. The row of the note is written in
one transaction, and everything that comes with it by one statement after the other.

* What goes before the transaction is `Prepared`; it leaves nothing of the note.
* The rows of others do not change between two attempts: `World` has what they answer.
* The jobs for the recipients of a direct note and the columns of the bridges are only
  places where an attempt can end; the streams are left out.
-/

namespace Seiran.CreateNote

open Mention (Text Unicode pushNew)
open Posts (Post)
open Posts.Arrivals (Proc hasUri)

inductive NotificationKind where
  | quote
  | reply
  | mention
deriving DecidableEq

/-- A row of `notifications` with the post as its `note_id` -/
structure Notification where
  recipientActorId : Int64
  kind : NotificationKind
  notifierActorId : Int64
deriving DecidableEq

/-- A row of `post_link_cards` -/
structure LinkCard where
  position : Int16
  card : SeiranPostLinkCard
deriving DecidableEq

/-- `Job::OgpFetch` -/
structure OgpFetch where
  url : Text
  position : Int16
deriving DecidableEq

/-- What is stored beside the row of a post: two of its columns, the rows and the jobs that
refer to it. -/
structure Extras where
  contentWarning : Option String := none
  poll : Option Json := none
  hashtags : List Text := []
  linkCards : List LinkCard := []
  ogpFetches : List OgpFetch := []
  attachments : List RemoteAttachment := []
  notifications : List Notification := []

structure Actor where
  id : Int64
  actorType : Timeline.ActorType
deriving DecidableEq

structure World where
  localDomain : Text
  unicode : Unicode
  /-- `find_by_username_domain`, with the local domain -/
  findByUsername : Text → Option Actor
  /-- `find_delivery_meta`: the author of a post -/
  findDeliveryMeta : Int64 → Option Actor
  /-- `actor_is_hidden_for_viewer` -/
  actorIsHidden : Int64 → Int64 → Bool

/-- What is known of a note when its row is written -/
structure Prepared where
  actorId : Int64
  body : Text
  tags : List Json
  replyToPostId : Option Int64 := none
  quoteOfPostId : Option Int64 := none
  remoteRecipientUris : List String := []
  seiranPost : Option SeiranPost := none
  /-- `detect_loopback_post_id` -/
  loopback : Option Int64 := none

/-- `Create` of a note -/
structure Create where
  noteId : String
  note : Json
  /-- An actor that cannot be resolved and a reply to a foreign direct note are errors. -/
  prepared : Except String Prepared

/-! ## The statements after the transaction -/

inductive Statement where
  | dmRecipientResolve (uri : String)
  | linkBridgePosts
  | setFediContentMetadata (contentWarning : Option String) (poll : Option Json)
  | linkPost (hashtags : List Text)
  | insertLinkCard (card : LinkCard)
  | enqueueOgpFetch (job : OgpFetch)
  | attachRemoteMediaUrl (media : RemoteAttachment)
  | notify (notification : Notification)

def Statement.isMetadata : Statement → Bool
  | .setFediContentMetadata .. => true
  | _ => false

variable (W : World)

/-- The unique keys of the cards and of the attachments are their positions. -/
def Statement.exec (x : Extras) : Statement → Extras
  | .dmRecipientResolve _ => x
  | .linkBridgePosts => x
  | .setFediContentMetadata contentWarning poll => { x with contentWarning, poll }
  | .linkPost hashtags => { x with hashtags := hashtags.foldl pushNew x.hashtags }
  | .insertLinkCard card =>
    if x.linkCards.any fun c => c.position == card.position then x
    else { x with linkCards := x.linkCards ++ [card] }
  | .enqueueOgpFetch job => { x with ogpFetches := x.ogpFetches ++ [job] }
  | .attachRemoteMediaUrl media =>
    if x.attachments.any fun a => a.position == media.position then x
    else { x with attachments := x.attachments ++ [media] }
  | .notify n =>
    if W.actorIsHidden n.recipientActorId n.notifierActorId then x
    else { x with notifications := x.notifications ++ [n] }

def execAll (x : Extras) (statements : List Statement) : Extras :=
  statements.foldl (Statement.exec W) x

/-- `insert_seiran_post_link_cards`, or `queue_link_cards_for_post` -/
def linkCardStatements (note : Json) (noteId : String) (p : Prepared) : List Statement :=
  match (p.seiranPost.map SeiranPost.linkCards).filter (· ≠ []) with
  | some cards => (cards.take maxLinkCardsPerPost).zipIdx.map fun (card, position) =>
      .insertLinkCard ⟨Int16.ofNat position, card⟩
  | none =>
    let articleUrl := if note.getStr "type" = some "Article" then some noteId.toList else none
    (buildLinkCardUrls W.unicode p.body articleUrl maxLinkCardsPerPost).zipIdx.map
      fun (url, position) => .enqueueOgpFetch ⟨url, Int16.ofNat position⟩

/-- `store_note_extras` -/
def storeNoteExtras (note : Json) (noteId : String) (p : Prepared) : List Statement :=
  let (contentWarning, poll) := contentMetadata note p.seiranPost
  .setFediContentMetadata contentWarning poll ::
    .linkPost (extractHashtags W.unicode p.body) ::
    (linkCardStatements W note noteId p ++ (remoteAttachments note).map .attachRemoteMediaUrl)

/-- The local author of a post -/
def localAuthor (postId : Option Int64) : Option Int64 :=
  ((postId.bind W.findDeliveryMeta).filter fun a => a.actorType = .localUser).map Actor.id

def mentionedLocalActorIds (p : Prepared) : List Int64 :=
  (((extractMentionedLocalUsernames p.tags W.localDomain).filterMap W.findByUsername).filterMap
    fun a => if a.actorType = .localUser then some a.id else none).foldl pushNew []

/-- The notifications of `handle_create_note` -/
def notifications (p : Prepared) : List Notification :=
  let parent := localAuthor W p.replyToPostId
  let quoted := (localAuthor W p.quoteOfPostId).filter (· ≠ p.actorId)
  let replied := parent.filter (· ≠ p.actorId)
  let mentioned := (mentionedLocalActorIds W p).filter fun id => id ≠ p.actorId ∧ parent ≠ some id
  quoted.toList.map (⟨·, .quote, p.actorId⟩) ++ replied.toList.map (⟨·, .reply, p.actorId⟩) ++
    mentioned.map (⟨·, .mention, p.actorId⟩)

/-- The statements after the transaction, in their order -/
def statements (note : Json) (noteId : String) (p : Prepared) : List Statement :=
  p.remoteRecipientUris.map .dmRecipientResolve ++ .linkBridgePosts ::
    (storeNoteExtras W note noteId p ++ (notifications W p).map .notify)

/-! ## Attempts -/

structure Db where
  posts : List Post
  extras : Int64 → Extras

/-- `find_id_by_ap_or_at_uri` -/
def Db.findId (db : Db) (uri : String) : Option Int64 :=
  (db.posts.find? fun q => q.apObjectId == some uri || q.atUri == some uri).map Post.id

/-- What is stored beside the post -/
def Db.extrasOf (db : Db) (uri : String) : Option Extras := (db.findId uri).map db.extras

def Db.modifyExtras (db : Db) (postId : Int64) (f : Extras → Extras) : Db :=
  { db with extras := Function.update db.extras postId (f (db.extras postId)) }

/-- The transaction of `insert_remote_with_dedup`, of an arrival that is alone -/
def arrival (c : Create) (p : Prepared) (id : Int64) : Proc :=
  ⟨.create p.actorId c.noteId (p.seiranPost.bind SeiranPost.counterpartPostId), id, .start⟩

/-- `insert_remote_with_dedup`; nothing refers to an identifier that has had no row. -/
def Db.insertRemoteWithDedup (db : Db) (c : Create) (p : Prepared) (id : Int64) : Option Db :=
  let pr := arrival c p id
  (pr.statement db.posts ((pr.target db.posts).map Post.id)).map fun posts =>
    { posts
      extras := if db.posts.any fun q => q.id == id then db.extras
        else Function.update db.extras id {} }

/-- Where an attempt is cut off: before the row is there, or after so many of the statements
that follow. -/
inductive Cut where
  | beforeRow
  | afterRow (statements : Nat)
deriving DecidableEq

inductive Outcome where
  | inserted
  | alreadyExists
  | failed
deriving DecidableEq

/-- `handle_create_note`, with the identifier that it draws -/
def handleCreateNote (c : Create) (id : Int64) (cut : Option Cut) (db : Db) : Outcome × Db :=
  if hasUri db.posts c.noteId then (.alreadyExists, db)
  else match c.prepared with
    | .error _ => (.failed, db)
    | .ok p =>
      if p.loopback.isSome then (.alreadyExists, db)
      else if cut = some .beforeRow then (.failed, db)
      else match db.insertRemoteWithDedup c p id with
        | none => (.failed, db)
        | some db' =>
          match db'.findId c.noteId, cut with
          | none, _ => (.failed, db')
          | some postId, some (.afterRow n) =>
            (.failed, db'.modifyExtras postId fun x =>
              execAll W x ((statements W c.note c.noteId p).take n))
          | some postId, _ =>
            (.inserted, db'.modifyExtras postId fun x =>
              execAll W x (statements W c.note c.noteId p))

/-- The attempts that are cut off -/
def machine (c : Create) : Machine Db (Int64 × Cut) :=
  ⟨fun db (id, cut) => some (handleCreateNote W c id (some cut) db).2⟩

end Seiran.CreateNote
