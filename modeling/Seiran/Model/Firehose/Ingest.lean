import Mathlib.Logic.Function.Basic
import Seiran.Framework.Interleave

/-!
# Posts, reposts and likes of the Jetstream

`handle_post_commit`, `handle_repost_commit` and `handle_like_commit` of `firehose.rs`
with the queries of `bsky_ingest.rs`. An event is taken up in its turn; its handler is a
task that was spawned, and takes one statement or request at a time.

The actors and what the network answers are given: who can be resolved, who is suspended,
whose posts are kept, and which posts the AppView has. An actor is known by the DID. The
bridges of posts, the notifications, the streams and the counters are left out, as are the
ids and the times of the rows.
-/

namespace Seiran.Ingest

/-- A record of an account; the collection is that of the event or of the column. -/
structure AtUri where
  did : String
  rkey : String
deriving DecidableEq

/-- What `store_bsky_post_extras` writes, one statement each -/
inductive Extra where
  | contentMetadata (contentWarning poll : Option String)
  | gates (replyAllow : Option String) (quoteDisabled : Bool)
  | linkCards (urls : List String)
  | hashtags
  | attachment (url : String)
deriving DecidableEq

/-- `ParsedPostRecord`, with the `seiranPost` -/
structure PostRecord where
  text : String
  replyParentUri : Option AtUri := none
  quoteUri : Option AtUri := none
  counterpartPostId : Option String := none
  contentWarning : Option String := none
  poll : Option String := none
  seiranLinkCards : List String := []
  linkCard : Option String := none
  attachments : List String := []
deriving DecidableEq

/-- A row of `posts` that is no repost -/
structure Post where
  text : String
  replyTo : Option AtUri := none
  quoteOf : Option AtUri := none
  claimedApObjectId : Option String := none
  extras : List Extra := []
  deleted : Bool := false
deriving DecidableEq

/-- A row of `posts` with an `ap_object_id` -/
structure ApPost where
  /-- The DID of the author -/
  author : Option String
  claimedAtUri : Option AtUri
  post : Post
deriving DecidableEq

/-- A row of `posts` that is a repost, of the account that it is listed under -/
structure Repost where
  rkey : String
  repostOf : AtUri
  deleted : Bool := false
deriving DecidableEq

/-- A row of `reactions`, of the account that it is listed under -/
structure Reaction where
  post : AtUri
  content : String
  apActivityId : Option String
  atRkey : Option String
deriving DecidableEq

structure Db where
  /-- `posts` by `at_uri` -/
  posts : AtUri → Option Post
  /-- `posts` by `ap_object_id` -/
  apPosts : String → Option ApPost
  reposts : String → List Repost
  reactions : String → List Reaction

structure Env where
  /-- `saveable_author` -/
  saveableAuthor : String → Bool
  /-- `resolve_or_upsert_bsky_actor` finds the actor. -/
  resolvable : String → Bool
  isActorSuspended : String → Bool
  /-- `fetch_single_bsky_post`: the text -/
  fetchSingleBskyPost : AtUri → Option String
  /-- `fetch_bsky_gates` -/
  fetchBskyGates : AtUri → Option String × Bool

inductive Event where
  | createPost (uri : AtUri) (record : PostRecord)
  | deletePost (uri : AtUri)
  | createRepost (uri subject : AtUri)
  | deleteRepost (uri : AtUri)
  | createLike (uri subject : AtUri) (emoji : Option String)
  | deleteLike (uri : AtUri)
deriving DecidableEq

/-- A handler before its next statement or request -/
inductive Task where
  /-- `save_new_bsky_post` -/
  | resolveReply (uri : AtUri) (record : PostRecord)
  | resolveQuote (uri : AtUri) (record : PostRecord) (replyTo : Option AtUri)
  | insertPost (uri : AtUri) (record : PostRecord) (replyTo quoteOf : Option AtUri)
  | storeExtras (uri : AtUri) (left : List Extra)
  /-- `handle_inbound_post_delete` of a post -/
  | deletePost (uri : AtUri)
  /-- `handle_inbound_repost_create` -/
  | resolveReposter (uri subject : AtUri)
  | findSubject (uri subject : AtUri)
  | fetchSubject (uri subject : AtUri)
  | upsertSubject (uri subject : AtUri) (text : String)
  | findRepost (uri subject : AtUri)
  | insertRepost (uri subject : AtUri)
  /-- `handle_inbound_post_delete` of a repost -/
  | deleteRepost (uri : AtUri)
  /-- `handle_inbound_like_create` -/
  | findLiked (uri subject : AtUri) (content : String)
  | resolveLiker (uri subject : AtUri) (content : String)
  | upsertReaction (uri subject : AtUri) (content : String)
  /-- `handle_inbound_like_delete` -/
  | deleteLike (uri : AtUri)
deriving DecidableEq

section Statements

variable (db : Db)

def Db.setPost (uri : AtUri) (post : Option Post) : Db :=
  { db with posts := Function.update db.posts uri post }

def Db.setApPost (apObjectId : String) (row : Option ApPost) : Db :=
  { db with apPosts := Function.update db.apPosts apObjectId row }

def Db.setReposts (did : String) (rows : List Repost) : Db :=
  { db with reposts := Function.update db.reposts did rows }

def Db.setReactions (did : String) (rows : List Reaction) : Db :=
  { db with reactions := Function.update db.reactions did rows }

/-- `find_id_and_actor_by_at_uri`, for the posts -/
def Db.findPost (uri : AtUri) : Bool := (db.posts uri).any fun p => !p.deleted

/-- `INSERT … ON CONFLICT (at_uri) DO NOTHING` -/
def Db.insertPost (uri : AtUri) (row : Post) : Db :=
  if (db.posts uri).isSome then db else db.setPost uri (some row)

/-- The post that has come by ActivityPub first, which the record says to be, and which says
to be the record -/
def Db.counterpart (uri : AtUri) (row : Post) : Option (String × ApPost) := do
  let apObjectId ← row.claimedApObjectId
  let ap ← db.apPosts apObjectId
  if ap.claimedAtUri = some uri then some (apObjectId, ap) else none

/-- `insert_or_merge_bsky_post`, and whether it has inserted the row -/
def insertOrMergeBskyPost (uri : AtUri) (row : Post) : Bool × Db :=
  match db.counterpart uri row with
  | none => ((db.posts uri).isNone, db.insertPost uri row)
  | some (apObjectId, ap) =>
    if ap.author = some uri.did then
      -- `posts.at_uri` is unique
      if (db.posts uri).isSome then (false, db)
      else (false, (db.setPost uri (some ap.post)).setApPost apObjectId
        (some { ap with claimedAtUri := none }))
    -- `posts_mutual_claim_key`, of the posts that are not deleted
    else if ap.post.deleted then ((db.posts uri).isNone, db.insertPost uri row)
    else (false, db)

/-- `soft_delete_by_at_uri`, for the posts -/
def Db.deletePost (uri : AtUri) : Db :=
  db.setPost uri ((db.posts uri).map fun p => { p with deleted := true })

def Db.addExtra (uri : AtUri) (e : Extra) : Db :=
  db.setPost uri ((db.posts uri).map fun p => { p with extras := p.extras ++ [e] })

/-- `find_repost_undo_info` -/
def Db.findRepost (did : String) (subject : AtUri) : Bool :=
  (db.reposts did).any fun r => r.repostOf = subject && !r.deleted

/-- `insert_repost_bsky`; `posts.at_uri` is unique. -/
def Db.insertRepost (uri subject : AtUri) : Db :=
  if (db.reposts uri.did).any (·.rkey = uri.rkey) then db
  else db.setReposts uri.did (db.reposts uri.did ++ [{ rkey := uri.rkey, repostOf := subject }])

/-- `soft_delete_by_at_uri`, for the reposts -/
def Db.deleteRepost (uri : AtUri) : Db :=
  db.setReposts uri.did <| (db.reposts uri.did).map fun r =>
    if r.rkey = uri.rkey then { r with deleted := true } else r

/-- `ReactionRepository::upsert`; `reactions.at_uri` is unique. -/
def Db.upsertReaction (uri subject : AtUri) (content : String) : Db :=
  let rows := db.reactions uri.did
  let new : Reaction := ⟨subject, content, none, some uri.rkey⟩
  if rows.any fun r => r.atRkey = some uri.rkey && r.post ≠ subject then db
  else if rows.any (·.post = subject) then
    db.setReactions uri.did (rows.map fun r => if r.post = subject then new else r)
  else db.setReactions uri.did (rows ++ [new])

/-- `ReactionRepository::delete_by_at_uri` -/
def Db.deleteReaction (uri : AtUri) : Db :=
  db.setReactions uri.did ((db.reactions uri.did).filter fun r => r.atRkey ≠ some uri.rkey)

end Statements

variable (E : Env)

/-- The statements of `store_bsky_post_extras`, in their order -/
def extrasOf (uri : AtUri) (record : PostRecord) : List Extra :=
  (if record.contentWarning.isSome ∨ record.poll.isSome then
    [.contentMetadata record.contentWarning record.poll] else []) ++
  [.gates (E.fetchBskyGates uri).1 (E.fetchBskyGates uri).2] ++
  (if record.seiranLinkCards ≠ [] then [.linkCards record.seiranLinkCards]
    -- the card of a post with a poll is the poll
    else if record.poll.isSome then [] else (record.linkCard.map fun url => .linkCards [url]).toList) ++
  [.hashtags] ++ record.attachments.map .attachment

/-- `process_message`: what is spawned -/
def start : Event → Db → Option Task
  | .createPost uri record, db =>
    if E.saveableAuthor uri.did && (db.posts uri).isNone then some (.resolveReply uri record)
    else none
  | .deletePost uri, _ => some (.deletePost uri)
  | .createRepost uri subject, _ => some (.resolveReposter uri subject)
  | .deleteRepost uri, _ => some (.deleteRepost uri)
  | .createLike uri subject emoji, _ => some (.findLiked uri subject (emoji.getD "❤️"))
  | .deleteLike uri, _ => some (.deleteLike uri)

/-- The actor of the DID is found, and not suspended. -/
def Env.acts (did : String) : Bool := E.resolvable did && !E.isActorSuspended did

/-- The next statement or request of a handler -/
def next : Task → Db → Option Task × Db
  | .resolveReply uri record, db =>
    (some (.resolveQuote uri record (record.replyParentUri.filter db.findPost)), db)
  | .resolveQuote uri record replyTo, db =>
    (some (.insertPost uri record replyTo (record.quoteUri.filter db.findPost)), db)
  | .insertPost uri record replyTo quoteOf, db =>
    let row : Post := { text := record.text, replyTo, quoteOf
                        claimedApObjectId := record.counterpartPostId }
    let (inserted, db) := insertOrMergeBskyPost db uri row
    (if inserted then some (.storeExtras uri (extrasOf E uri record)) else none, db)
  | .storeExtras _ [], db => (none, db)
  | .storeExtras uri (e :: left), db => (some (.storeExtras uri left), db.addExtra uri e)
  | .deletePost uri, db => (none, db.deletePost uri)
  | .resolveReposter uri subject, db =>
    (if E.acts uri.did then some (.findSubject uri subject) else none, db)
  | .findSubject uri subject, db =>
    -- a deleted post is found
    (some (if (db.posts subject).isSome then .findRepost uri subject
      else .fetchSubject uri subject), db)
  | .fetchSubject uri subject, db =>
    ((E.fetchSingleBskyPost subject).bind fun text =>
      if E.resolvable subject.did then some (.upsertSubject uri subject text) else none, db)
  | .upsertSubject uri subject text, db =>
    (some (.findRepost uri subject), db.insertPost subject { text })
  | .findRepost uri subject, db =>
    (if db.findRepost uri.did subject then none else some (.insertRepost uri subject), db)
  | .insertRepost uri subject, db => (none, db.insertRepost uri subject)
  | .deleteRepost uri, db => (none, db.deleteRepost uri)
  | .findLiked uri subject content, db =>
    (if db.findPost subject then some (.resolveLiker uri subject content) else none, db)
  | .resolveLiker uri subject content, db =>
    (if E.acts uri.did then some (.upsertReaction uri subject content) else none, db)
  | .upsertReaction uri subject content, db => (none, db.upsertReaction uri subject content)
  | .deleteLike uri, db => (none, db.deleteReaction uri)

/-- How many steps are left, at most -/
def Task.size : Task → Nat
  | .resolveReply uri record => (extrasOf E uri record).length + 4
  | .resolveQuote uri record _ => (extrasOf E uri record).length + 3
  | .insertPost uri record _ _ => (extrasOf E uri record).length + 2
  | .storeExtras _ left => left.length + 1
  | .resolveReposter _ _ => 6
  | .findSubject _ _ => 5
  | .fetchSubject _ _ => 4
  | .upsertSubject _ _ _ => 3
  | .findRepost _ _ => 2
  | .findLiked _ _ _ => 3
  | .resolveLiker _ _ _ => 2
  | .deletePost _ | .insertRepost _ _ | .deleteRepost _ | .upsertReaction _ _ _ | .deleteLike _ => 1

theorem next_size {task task' : Task} {db : Db} (h : (next E task db).1 = some task') :
    task'.size E < task.size E := by
  cases task with
  | storeExtras uri left =>
    cases left with
    | nil => cases h
    | cons e left =>
      cases h
      simp [Task.size]
  | fetchSubject uri subject =>
    obtain ⟨text, -, h⟩ := Option.bind_eq_some_iff.mp h
    simp only [Option.ite_none_right_eq_some, Option.some.injEq] at h
    rw [← h.2]
    simp [Task.size]
  | findSubject uri subject =>
    simp only [next, Option.some.injEq] at h
    split at h <;> subst h <;> simp [Task.size]
  | insertPost | resolveReposter | findRepost | findLiked | resolveLiker =>
    simp only [next] at h
    split at h <;> cases h
    simp [Task.size]
  | resolveReply | resolveQuote | upsertSubject =>
    cases h
    simp [Task.size]
  | deletePost | insertRepost | deleteRepost | upsertReaction | deleteLike => cases h

def handlers : Handlers Db Event Task := ⟨start E, next E, Task.size E, next_size E⟩

end Seiran.Ingest
