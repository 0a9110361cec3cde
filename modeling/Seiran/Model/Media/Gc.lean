import Seiran.Framework.Run

/-!
# Media files and their garbage collection

Uploads (`media_store.rs`, and the same lookup and touch in `drive.rs`, `xrpc/repo.rs`
and `at_migration.rs`), the tables that refer to `media_files`, and `run_media_gc`
(`lib.rs`, `maintenance.rs`). A statement is one step, and so is a change of the object
store; what a request has still to do waits in `tasks`, and a request that fails or stops
gives it up (`drop`).

* At READ COMMITTED the conditions of `DELETE … WHERE` hold of the state in which the
  statement begins, but the row itself is looked at again when it was changed since. So
  the statement of `delete_media_file_if_orphaned` is two steps: `beginDelete` takes the
  snapshot, `delete` removes the row. A change counts when it is committed.
* `post_attachments` and `custom_emojis` have foreign keys without an action: where one
  refers to the row, the statement fails. The avatar and the banner are set to `NULL`, the
  rows of `post_record_blobs` go (`ON DELETE CASCADE`), and `site_settings` has no key.
* Of times the seconds are kept. Ids of rows and keys of objects are new when they are
  drawn.
-/

namespace Seiran.Media

/-- `sha256` and `blurhash`, unique with `NULLS NOT DISTINCT` -/
structure Content where
  sha256 : String
  blurhash : Option String
deriving DecidableEq

structure MediaFile where
  id : Int
  content : Content
  storageKey : String
  lastUploadedAt : Int
deriving DecidableEq

/-- A row of `posts`. One that was deleted for good stays here as deleted. -/
structure Post where
  id : Int
  deleted : Bool := false
deriving DecidableEq

/-- A row of `post_attachments`, `post_record_blobs` or `custom_emojis`, or an avatar or
banner: what refers to a file, and to which -/
structure Reference where
  owner : Int
  mediaFileId : Int
deriving DecidableEq

inductive Task where
  /-- `find_existing` of the candidates in turn, and the content that is saved otherwise -/
  | findExisting (candidates : List Content) (new : Content)
  | touchLastUploadedAt (id : Int)
  | put (new : Content)
  | upsert (new : Content) (storageKey : String)
  /-- A candidate of `run_media_gc` -/
  | beginDelete (id : Int) (storageKey : String)
  /-- The `DELETE`, with `NOW()` and the attachments that its snapshot has -/
  | delete (id : Int) (storageKey : String) (now : Int) (attachments : List Reference)
  | deleteObject (storageKey : String)
deriving DecidableEq

structure State where
  now : Int := 0
  mediaFiles : List MediaFile := []
  objects : List String := []
  posts : List Post := []
  postAttachments : List Reference := []
  postRecordBlobs : List Reference := []
  postRecordBlobsBackfill : List Int := []
  avatars : List Reference := []
  banners : List Reference := []
  customEmojis : List Reference := []
  siteSettings : List (String × String) := []
  tasks : List Task := []
  /-- The ids and keys that were drawn -/
  ids : List Int := []
  storageKeys : List String := []
  /-- The ids that uploads returned, and when the row was marked for that -/
  returned : List (Int × Int) := []
  /-- The rows that were deleted, and if they were referred to when they were -/
  deleted : List (Int × Bool) := []

/-- Seven days -/
def grace : Int := 7 * 24 * 3600

variable (s : State)

/-! ## What refers to a file -/

def live (postId : Int) : Bool := s.posts.any fun p => p.id = postId ∧ p.deleted = false

def attached (id : Int) : Bool :=
  s.postAttachments.any fun r => r.mediaFileId = id ∧ live s r.owner

def inRecord (id : Int) : Bool :=
  s.postRecordBlobs.any fun r => r.mediaFileId = id ∧ live s r.owner

def isAvatar (id : Int) : Bool := s.avatars.any fun r => r.mediaFileId = id

def isBanner (id : Int) : Bool := s.banners.any fun r => r.mediaFileId = id

def isEmoji (id : Int) : Bool := s.customEmojis.any fun r => r.mediaFileId = id

def inSettings (id : Int) : Bool :=
  s.siteSettings.any fun p =>
    p.1 ∈ ["site_icon_media_file_id", "login_bg_media_file_id"] ∧ p.2 = toString id

def referenced (id : Int) : Bool :=
  attached s id || inRecord s id || isAvatar s id || isBanner s id || isEmoji s id ||
    inSettings s id

/-- `ORPHANED_MEDIA_FILE_CONDITION` -/
def orphaned (m : MediaFile) : Bool :=
  m.lastUploadedAt < s.now - grace && !attached s m.id && !inRecord s m.id &&
    s.postRecordBlobsBackfill.isEmpty && !isAvatar s m.id && !isBanner s m.id &&
    !isEmoji s m.id && !inSettings s m.id

def findById (id : Int) : Option MediaFile := s.mediaFiles.find? fun m => m.id = id

def findByContent (c : Content) : Option MediaFile := s.mediaFiles.find? fun m => m.content = c

/-! ## Statements -/

def dequeue (t : Task) : State := { s with tasks := s.tasks.erase t }

def enqueue (ts : List Task) : State := { s with tasks := s.tasks ++ ts }

/-- `SET last_uploaded_at = now()` -/
def touch (marked : MediaFile → Bool) : State :=
  { s with mediaFiles := s.mediaFiles.map fun m =>
      if marked m then { m with lastUploadedAt := s.now } else m }

/-- An upload returns the id of a row. -/
def answer (id : Int) : State := { s with returned := s.returned ++ [(id, s.now)] }

/-- The foreign keys without an action: a reference that the statement does not remove -/
def refused (id : Int) (attachments : List Reference) : Bool :=
  isEmoji s id || s.postAttachments.any fun r => r.mediaFileId = id ∧ r ∉ attachments

def withoutFile (id : Int) (l : List Reference) : List Reference :=
  l.filter fun r => r.mediaFileId ≠ id

/-- The row goes, with what the foreign keys and `dead_attachments` take along. -/
def removeFile (id : Int) : State :=
  { s with
    mediaFiles := s.mediaFiles.filter fun m => m.id ≠ id
    postAttachments := withoutFile id s.postAttachments
    postRecordBlobs := withoutFile id s.postRecordBlobs
    avatars := withoutFile id s.avatars
    banners := withoutFile id s.banners
    deleted := s.deleted ++ [(id, referenced s id)] }

/-- The `DELETE` finds its row, which is still old, and no foreign key refuses it. -/
def removes (id now : Int) (attachments : List Reference) : Bool :=
  (findById s id).any (fun m => m.lastUploadedAt < now - grace) && !refused s id attachments

/-- The next statement of a request, with an id and a key that it may draw -/
def runTask (t : Task) (id : Int) (storageKey : String) : Option State :=
  let rest := dequeue s t
  match t with
  | .findExisting [] new => some (enqueue rest [.put new])
  | .findExisting (c :: candidates) new =>
    match findByContent s c with
    | some m => some (enqueue rest [.touchLastUploadedAt m.id])
    | none => some (enqueue rest [.findExisting candidates new])
  | .touchLastUploadedAt existing => some (answer (touch rest fun m => m.id = existing) existing)
  | .put new =>
    if storageKey ∉ s.storageKeys then
      some { enqueue rest [.upsert new storageKey] with
        objects := s.objects ++ [storageKey]
        storageKeys := s.storageKeys ++ [storageKey] }
    else none
  | .upsert new key =>
    match findByContent s new with
    | some m => some (answer (touch rest fun m' => m'.id = m.id) m.id)
    | none =>
      if id ∉ s.ids then
        some (answer { rest with
          mediaFiles := s.mediaFiles ++ [⟨id, new, key, s.now⟩]
          ids := s.ids ++ [id] } id)
      else none
  | .beginDelete existing key =>
    if (findById s existing).any (orphaned s) then
      some (enqueue rest [.delete existing key s.now s.postAttachments])
    else some rest
  | .delete existing key now attachments =>
    if removes s existing now attachments then
      some (enqueue (removeFile rest existing) [.deleteObject key])
    else some rest
  | .deleteObject key => some { rest with objects := s.objects.filter (· ≠ key) }

/-! ## The machine -/

inductive Action where
  | tick (seconds : Nat)
  | storeImage (candidates : List Content) (new : Content)
  | runTask (t : Task) (id : Int) (storageKey : String)
  | drop (t : Task)
  /-- `orphaned_media_files`, with the rows that it happens to list -/
  | selectOrphaned (ids : List Int)
  | insertPost (id : Int)
  | softDeleteById (id : Int)
  | softDelete (id : Int)
  | deletePost (id : Int)
  | attachMedia (postId mediaFileId : Int)
  | insertPostRecordBlobs (postId : Int) (sha256s : List String)
  | finishBackfill (postId : Int)
  | setAvatar (actorId : Int) (mediaFileId : Option Int)
  | setBanner (actorId : Int) (mediaFileId : Option Int)
  | insertEmoji (emojiId mediaFileId : Int)
  | deleteEmoji (emojiId : Int)
  | setSetting (key value : String)
deriving DecidableEq

/-- The foreign key of a new reference -/
def isFile (id : Int) : Bool := s.mediaFiles.any fun m => m.id = id

/-- A nullable column with a foreign key -/
def setReference (l : List Reference) (owner : Int) (mediaFileId : Option Int) : List Reference :=
  (l.filter fun r => r.owner ≠ owner) ++ (mediaFileId.map (Reference.mk owner)).toList

def candidates (ids : List Int) : List Task :=
  ids.filterMap fun id => (findById s id).map fun m => .beginDelete id m.storageKey

def markDeleted (id : Int) : List Post :=
  s.posts.map fun p => if p.id = id then { p with deleted := true } else p

def step : State → Action → Option State
  | s, .tick seconds => some { s with now := s.now + seconds }
  | s, .storeImage candidates new => some (enqueue s [.findExisting candidates new])
  | s, .runTask t id storageKey => if t ∈ s.tasks then runTask s t id storageKey else none
  | s, .drop t => if t ∈ s.tasks then some (dequeue s t) else none
  | s, .selectOrphaned ids =>
    if ids.length ≤ 100 ∧ ∀ id ∈ ids, (findById s id).any (orphaned s) then
      some (enqueue s (candidates s ids))
    else none
  | s, .insertPost id =>
    if id ∉ s.posts.map Post.id then some { s with posts := s.posts ++ [{ id }] } else none
  | s, .softDeleteById id =>
    some { touch s fun m => s.postAttachments.any fun r => r.owner = id ∧ r.mediaFileId = m.id with
      posts := markDeleted s id }
  | s, .softDelete id => some { s with posts := markDeleted s id }
  | s, .deletePost id =>
    if !live s id then
      some { s with
        postAttachments := s.postAttachments.filter fun r => r.owner ≠ id
        postRecordBlobs := s.postRecordBlobs.filter fun r => r.owner ≠ id }
    else none
  | s, .attachMedia postId mediaFileId =>
    if isFile s mediaFileId ∧ postId ∈ s.posts.map Post.id then
      some { s with postAttachments := s.postAttachments ++ [⟨postId, mediaFileId⟩] }
    else none
  | s, .insertPostRecordBlobs postId sha256s =>
    some { s with postRecordBlobs := s.postRecordBlobs ++
      (s.mediaFiles.filter fun m => m.content.sha256 ∈ sha256s).map fun m => ⟨postId, m.id⟩ }
  | s, .finishBackfill postId =>
    some { s with postRecordBlobsBackfill := s.postRecordBlobsBackfill.filter (· ≠ postId) }
  | s, .setAvatar actorId mediaFileId =>
    if mediaFileId.all (isFile s) then
      some { s with avatars := setReference s.avatars actorId mediaFileId }
    else none
  | s, .setBanner actorId mediaFileId =>
    if mediaFileId.all (isFile s) then
      some { s with banners := setReference s.banners actorId mediaFileId }
    else none
  | s, .insertEmoji emojiId mediaFileId =>
    if isFile s mediaFileId then
      some { s with customEmojis := s.customEmojis ++ [⟨emojiId, mediaFileId⟩] }
    else none
  | s, .deleteEmoji emojiId =>
    some { s with customEmojis := s.customEmojis.filter fun r => r.owner ≠ emojiId }
  | s, .setSetting key value =>
    some { s with siteSettings := (s.siteSettings.filter fun p => p.1 ≠ key) ++ [(key, value)] }

def machine : Machine State Action := ⟨step⟩

/-- The posts and the backfill that are there when the server starts -/
def start (posts : List Post) (backfill : List Int) : State :=
  { posts, postRecordBlobsBackfill := backfill }

/-! ## What must not be lost -/

structure Intact : Prop where
  stored : ∀ m ∈ s.mediaFiles, m.storageKey ∈ s.objects
  valid : ∀ id markedAt, (id, markedAt) ∈ s.returned → s.now ≤ markedAt + grace →
    ∃ m ∈ s.mediaFiles, m.id = id
  kept : ∀ id, (id, true) ∉ s.deleted

/-- The row that was found is still there when it is touched, and no avatar, banner,
record of a live post or setting refers to a file whose `DELETE` removes it. -/
def Orderly (s : State) : Action → Prop
  | .runTask (.touchLastUploadedAt id) _ _ => isFile s id
  | .runTask (.delete id _ now attachments) _ _ => removes s id now attachments →
    ¬ (inRecord s id ∨ isAvatar s id ∨ isBanner s id ∨ inSettings s id)
  | _ => True

end Seiran.Media
