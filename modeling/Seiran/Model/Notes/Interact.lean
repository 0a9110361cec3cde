import Mathlib.Logic.Function.Basic
import Seiran.Model.Notes.Reply
import Seiran.Model.Polls.Vote

/-!
# Reactions, votes, replies, quotations and reposts

`create_reaction` (`handlers/notes/reactions.rs`), `vote_poll` (`poll.rs`), `create_note`
(`creation.rs`) and `create_post_from_record` (`xrpc/post_from_record.rs`): the posts they look
up and what they check of them, the rows they write and what they answer.

The checks that read no post (of a text, its attachments, poll and mentions, of the rate
limits, of a role against the DIDs in a record) are answers of the environment, as is whether
what follows the insertion of a row succeeds. Of the answers, the attachments, the link cards
and what is said about actors are left out, and so are deliveries, notifications and streams.
-/

namespace Seiran.Interact

open Timeline
open Notes (RoleRestriction checkNotBlocked parseI64 replyContext requestReplyContext
  requireCanInteract resolveDmRecipients decideDeliveryTargets isLocalActor)
open Polls (Poll PollVote recordLocalVote)

/-- What a post says -/
structure PostContent where
  body : String := ""
  contentWarning : Option String := none
  poll : Option Poll := none
deriving DecidableEq

/-- A row of `reactions` -/
structure Reaction where
  postId : Int64
  actorId : Int64
  content : String
  emojiUrl : Option String
deriving DecidableEq

/-- The tables, with the columns of `posts` that the timelines do not read, by id -/
structure State where
  tables : Tables := {}
  content : Int64 → PostContent := fun _ => {}
  quoteOfPostId : Int64 → Option Int64 := fun _ => none
  bridgeOfPostId : Int64 → Option Int64 := fun _ => none
  apBridgePostId : Int64 → Option Int64 := fun _ => none
  reactions : List Reaction := []
  pollVotes : Int64 → List PollVote := fun _ => []

/-- A state with the primary key of `posts` -/
structure Store extends State where
  posts_pkey : (tables.posts.map Post.id).Nodup

structure CreateNoteRequest extends Notes.CreateNoteRequest where
  text : Option String := none
  quoteOfId : Option String := none
  renoteId : Option String := none
deriving DecidableEq

/-- A record of `app.bsky.feed.post`, with the `uri` of `parse_bsky_embed_quote_uri` -/
structure PostRecord where
  text : String
  replyParentUri : Option String
  quoteUri : Option String
deriving DecidableEq

/-- What a request does not read in the tables of posts -/
structure Env where
  now : Nat
  localDomain : String
  /-- `generate_snowflake_id` -/
  newId : Int64
  /-- `actor_role` -/
  role : Int64 → String
  didMovedOut : Int64 → Bool
  /-- `resolve_reaction_content` -/
  resolveReactionContent : String → Except ApiError (String × Option String)
  /-- The empty text and `check_post_rate_limit` -/
  admitText : Int64 → CreateNoteRequest → Except ApiError Unit
  /-- From `validate_post_text_length` to `validate_link_card_urls` -/
  admitPost : CreateNoteRequest → Visibility → List Actor → Except ApiError PostContent
  /-- `require_mentions_allowed` and `check_and_record_contacts` -/
  admitContacts : CreateNoteRequest → Visibility → List Int64 → Except ApiError Unit
  /-- `attach_media_files` succeeds. -/
  attached : Bool
  /-- What `create_post_from_record` checks of the record and of the role -/
  admitRecord : Int64 → PostRecord → Except ApiError PostContent
  /-- `commit_post_record` succeeds. -/
  committed : Bool

structure ReactionSummary where
  emoji : String
  count : Nat
  reactedByMe : Bool
deriving DecidableEq

structure EmbeddedNote where
  id : Int64
  actorId : Int64
  content : PostContent
  reactions : List ReactionSummary
deriving DecidableEq

structure NoteResponse where
  id : Int64
  content : PostContent
  replyId : Option Int64
  quoteId : Option Int64
  renoteId : Option Int64
  quote : Option EmbeddedNote
  renote : Option EmbeddedNote
  /-- The `quote` of `renote` -/
  renoteQuote : Option EmbeddedNote
deriving DecidableEq

inductive Answer where
  | error (e : ApiError)
  | conflict (code : String)
  | internal
  | reactions (summaries : List ReactionSummary)
  | poll (poll : Poll)
  | note (note : NoteResponse)
  | record
deriving DecidableEq

def Answer.ok : Answer → Bool
  | .error _ | .conflict _ | .internal => false
  | _ => true

namespace State

variable (s : State)

/-- `find_by_id_for_viewer` -/
def findByIdForViewer (id viewer : Int64) : Option Post :=
  s.tables.posts.find? fun p => p.id == id && !p.deleted && s.tables.visible (some viewer) p

/-- `find_delivery_meta` -/
def findDeliveryMeta (id : Int64) : Option Post :=
  s.tables.posts.find? fun p => p.id == id && !p.deleted

/-- `redirect_bridge_post_meta` -/
def redirectBridgePostMeta (id : Int64) (info : Post) : Int64 × Post :=
  match (s.bridgeOfPostId id).bind fun original =>
      (s.findDeliveryMeta original).map (Prod.mk original) with
  | some redirected => redirected
  | none => (id, info)

/-- `find_id_by_at_uri`, of deleted posts too -/
def findIdByAtUri (uri : String) : Option Int64 :=
  (s.tables.posts.find? fun p => p.atUri == some uri).map Post.id

/-- `fetch_reactions_map`, of one post -/
def reactionsOf (postId viewer : Int64) : List ReactionSummary :=
  let rows := s.reactions.filter fun r =>
    r.postId == postId && !s.tables.actorIsHiddenForViewer viewer r.actorId
  let summary (content : String) : ReactionSummary := {
    emoji := content
    count := rows.countP fun r => r.content == content
    reactedByMe := s.reactions.any fun r =>
      r.postId == postId && r.actorId == viewer && r.content == content }
  let contents := (rows.map Reaction.content).dedup.filter fun content => content != ""
  (contents.map summary).insertionSort fun a b => b.count ≤ a.count

/-- `fetch_embedded_notes`, of one post -/
def embeddedNote (viewer id : Int64) : Option EmbeddedNote :=
  (s.findByIdForViewer id viewer).map fun p => {
    id := p.id
    actorId := p.actorId
    content := s.content p.id
    reactions := s.reactionsOf p.id viewer }

/-- `ReactionRepository::upsert`: `UNIQUE (post_id, actor_id)` -/
def upsertReaction (r : Reaction) : State :=
  { s with reactions :=
      (s.reactions.filter fun q => !(q.postId == r.postId && q.actorId == r.actorId)) ++ [r] }

/-- The row of a new post with its recipients -/
def insertPost (p : Post) (recipients : List Int64) (content : PostContent)
    (quoteOfPostId : Option Int64) : State :=
  { s with
    tables := { s.tables with
      posts := s.tables.posts ++ [p]
      postRecipients := s.tables.postRecipients ++ recipients.map (PostRecipient.mk p.id) }
    content := Function.update s.content p.id content
    quoteOfPostId := Function.update s.quoteOfPostId p.id quoteOfPostId }

def hasPost (id : Int64) : Bool := s.tables.posts.any fun p => p.id == id

def hasApObjectId (apObjectId : String) : Bool :=
  s.tables.posts.any fun p => p.apObjectId == some apObjectId

end State

section

variable (E : Env) (s : State) (actorId : Int64)

/-- `require_not_did_moved_out` -/
def requireNotDidMovedOut : Except ApiError Unit :=
  if E.didMovedOut actorId then .error (.forbidden "DID_MOVED_OUT") else .ok ()

/-- `find_reactable_post` -/
def findReactablePost (noteId : Int64) : Except ApiError Post :=
  match s.findByIdForViewer noteId actorId with
  | some p => .ok p
  | none => .error (.notFound "NOT_FOUND")

/-- `parse::<i64>`, with the answer to a text that is none -/
def parseId (e : ApiError) (text : String) : Except ApiError Int64 :=
  match parseI64 text with
  | some id => .ok id
  | none => .error e

/-- What `create_reaction_inner` does before it writes -/
def checkReaction (noteId content : String) : Except ApiError Reaction := do
  requireNotDidMovedOut E actorId
  let noteId ← parseId (.badRequest "INVALID_NOTE_ID") noteId
  let (content, emojiUrl) ← E.resolveReactionContent content
  let post ← findReactablePost s actorId noteId
  checkNotBlocked s.tables actorId post.actorId
  requireCanInteract s.tables E.role actorId (RoleRestriction.fromRole (E.role actorId))
    [post.actorId]
  return ⟨noteId, actorId, content, emojiUrl⟩

/-- `create_reaction` -/
def createReaction (noteId content : String) : Answer × State :=
  match checkReaction E s actorId noteId content with
  | .error e => (.error e, s)
  | .ok reaction =>
    let s' := s.upsertReaction reaction
    (.reactions (s'.reactionsOf reaction.postId actorId), s')

/-- `LocalVoteRejected`, as `record_vote` answers it -/
def rejected : Polls.Rejected → Answer
  | .invalid code => .error (.badRequest code)
  | .alreadyVoted => .conflict "ALREADY_VOTED"
  | .invalidPoll => .error (.badRequest "INVALID_POLL")

/-- `record_vote` -/
def recordVote (noteId : Int64) (optionIndexes : List Nat) : Answer × State :=
  match s.findDeliveryMeta noteId with
  | none => (.error (.notFound "NOT_FOUND"), s)
  | some post =>
    match (s.content post.id).poll with
    | none => (.error (.badRequest "NOT_A_POLL"), s)
    | some poll =>
      match recordLocalVote poll (s.pollVotes post.id) E.now actorId optionIndexes with
      | .error e => (rejected e, s)
      | .ok (poll, votes) =>
        (.poll poll, { s with
          content := Function.update s.content post.id { s.content post.id with poll := some poll }
          pollVotes := Function.update s.pollVotes post.id votes })

/-- `vote_poll` -/
def votePoll (noteId : String) (optionIndexes : List Nat) : Answer × State :=
  match parseI64 noteId with
  | none => (.error (.notFound "NOT_FOUND"), s)
  | some noteId =>
    if optionIndexes = [] then (.error (.badRequest "POLL_OPTION_REQUIRED"), s)
    else recordVote E s actorId noteId optionIndexes

/-- `validate_quote_visibility` -/
def validateQuoteVisibility (quotedVis newVis : Visibility) : Except ApiError Unit :=
  match quotedVis with
  | .followersOnly | .direct => .error (.forbidden "PRIVATE_POST_NOT_QUOTABLE")
  | .unlisted =>
    if newVis = .pub then .error (.badRequest "CANNOT_QUOTE_UNLISTED_PUBLICLY") else .ok ()
  | .pub => .ok ()

/-- `resolve_quote_target` -/
def resolveQuoteTarget (quoteId : Int64) (visibility : Visibility) :
    Except ApiError (Int64 × Post) :=
  match s.findDeliveryMeta quoteId with
  | none => .error (.notFound "QUOTE_TARGET_NOT_FOUND")
  | some info => do
    let target := s.redirectBridgePostMeta quoteId info
    checkNotBlocked s.tables actorId target.2.actorId
    validateQuoteVisibility target.2.visibility visibility
    return target

/-- The quotation of a request; an id that is no number is none. -/
def requestQuoteTarget (req : CreateNoteRequest) (visibility : Visibility) :
    Except ApiError (Option (Int64 × Post)) :=
  match req.quoteOfId.bind parseI64 with
  | none => .ok none
  | some quoteId => some <$> resolveQuoteTarget s actorId quoteId visibility

structure ValidatedCreatePost extends Notes.ValidatedCreatePost where
  content : PostContent
  quoteOfId : Option Int64
deriving DecidableEq

/-- `validate_create_regular_post_input` -/
def validateCreateRegularPostInput (req : CreateNoteRequest) :
    Except ApiError ValidatedCreatePost := do
  E.admitText actorId req
  let replyCtx ← requestReplyContext s.tables actorId req.toCreateNoteRequest
  let restriction := RoleRestriction.fromRole (E.role actorId)
  let visibility := restriction.capVisibility (← replyCtx.resolveVisibility req.visibility)
  let recipients ← resolveDmRecipients s.tables req.toCreateNoteRequest visibility
  let targets := decideDeliveryTargets req.toCreateNoteRequest visibility replyCtx recipients
  let content ← E.admitPost req visibility recipients
  let quoteTarget ← requestQuoteTarget s actorId req visibility
  let contacts := recipients.map Actor.id ++ replyCtx.parentActorId.toList ++
    (quoteTarget.map fun target => target.2.actorId).toList
  requireCanInteract s.tables E.role actorId restriction contacts
  E.admitContacts req visibility contacts
  recipients.forM fun recipient => checkNotBlocked s.tables actorId recipient.id
  return {
    visibility
    deliverFedi := targets.1
    deliverBsky := targets.2
    recipientActorIds := recipients.map Actor.id
    replyToId := req.replyToId.bind parseI64
    replyCtx
    content
    quoteOfId := quoteTarget.map Prod.fst }

def Env.noteUri : String := "https://" ++ E.localDomain ++ "/notes/" ++ toString E.newId.toInt

def Env.announceUri : String :=
  "https://" ++ E.localDomain ++ "/announces/" ++ toString E.newId.toInt

/-- `insert_full` -/
def insertRegularPost (v : ValidatedCreatePost) : State :=
  s.insertPost
    { id := E.newId
      actorId
      visibility := v.visibility
      isLocal := true
      replyToPostId := v.replyToId
      threadRootPostId :=
        if v.visibility = .direct then some (v.replyCtx.parentThreadRootPostId.getD E.newId)
        else none
      apObjectId := some E.noteUri
      deliverFedi := v.deliverFedi
      deliverBsky := v.deliverBsky }
    v.recipientActorIds v.content v.quoteOfId

/-- The response of `persist_regular_post`, after `embed_quotes` -/
def regularPostResponse (v : ValidatedCreatePost) : NoteResponse where
  id := E.newId
  content := v.content
  replyId := v.replyToId
  quoteId := v.quoteOfId
  renoteId := none
  quote := v.quoteOfId.bind (s.embeddedNote actorId)
  renote := none
  renoteQuote := none

/-- `create_regular_post` -/
def createRegularPost (req : CreateNoteRequest) : Answer × State :=
  match validateCreateRegularPostInput E s actorId req with
  | .error e => (.error e, s)
  | .ok v =>
    if s.hasPost E.newId || s.hasApObjectId E.noteUri then (.internal, s)
    else
      let s' := insertRegularPost E s actorId v
      (if E.attached then .note (regularPostResponse E s' actorId v) else .internal, s')

/-- `ap_object_id` after `with_bridge_delivery_targets` -/
def deliveredApObjectId (id : Int64) (info : Post) : Option String :=
  if isLocalActor s.tables info.actorId || info.apObjectId.isSome == info.atUri.isSome then
    info.apObjectId
  else
    match (s.apBridgePostId id).bind s.findDeliveryMeta with
    | some bridge => bridge.apObjectId
    | none => info.apObjectId

/-- What `create_repost` does before it writes -/
def checkRepost (renoteId : String) : Except ApiError (Int64 × Post) := do
  let renoteId ← parseId (.badRequest "INVALID_RENOTE_ID") renoteId
  match s.findDeliveryMeta renoteId with
  | none => throw (.notFound "RENOTE_TARGET_NOT_FOUND")
  | some info =>
    let target := s.redirectBridgePostMeta renoteId info
    if target.2.visibility = .followersOnly ∨ target.2.visibility = .direct then
      throw (.forbidden "PRIVATE_POST_NOT_REPOSTABLE")
    checkNotBlocked s.tables actorId target.2.actorId
    return target

/-- `idx_posts_unique_repost` -/
def alreadyReposted (renoteId : Int64) : Bool :=
  s.tables.posts.any fun p =>
    p.actorId == actorId && p.repostOfPostId == some renoteId && !p.deleted

/-- The `ap_object_id` of a repost -/
def repostApObjectId (renoteId : Int64) (info : Post) : String :=
  if (deliveredApObjectId s renoteId info).isSome then E.announceUri else E.noteUri

/-- `insert_repost` -/
def insertRepost (renoteId : Int64) (info : Post) : State :=
  -- `ON CONFLICT (ap_object_id) DO NOTHING`
  if s.hasApObjectId (repostApObjectId E s renoteId info) then s
  else s.insertPost
    { id := E.newId
      actorId
      visibility := (RoleRestriction.fromRole (E.role actorId)).capVisibility
        (if info.visibility = .unlisted then .unlisted else .pub)
      repostOfPostId := some renoteId
      apObjectId := some (repostApObjectId E s renoteId info) }
    [] {} none

/-- The response of `create_repost`, after `embed_renotes` and `embed_quotes` -/
def repostResponse (renoteId : Int64) : NoteResponse where
  id := E.newId
  content := {}
  replyId := none
  quoteId := none
  renoteId := some renoteId
  quote := none
  renote := s.embeddedNote actorId renoteId
  renoteQuote := (s.embeddedNote actorId renoteId).bind fun renote =>
    (s.quoteOfPostId renote.id).bind (s.embeddedNote actorId)

/-- `create_repost` -/
def createRepost (renoteId : String) : Answer × State :=
  match checkRepost s actorId renoteId with
  | .error e => (.error e, s)
  | .ok (renoteId, info) =>
    if s.hasPost E.newId || alreadyReposted s actorId renoteId then
      (.conflict "ALREADY_REPOSTED", s)
    else
      let s' := insertRepost E s actorId renoteId info
      (.note (repostResponse E s' actorId renoteId), s')

/-- `create_note` -/
def createNote (req : CreateNoteRequest) : Answer × State :=
  match requireNotDidMovedOut E actorId with
  | .error e => (.error e, s)
  | .ok () =>
    match req.renoteId with
    | some renoteId => createRepost E s actorId renoteId
    | none => createRegularPost E s actorId req

/-- The post that a record quotes, where it is known -/
def recordQuote (quoteUri : Option String) : Except ApiError (Option Int64) :=
  match (quoteUri.bind s.findIdByAtUri).bind s.findDeliveryMeta with
  | none => .ok none
  | some info => do
    checkNotBlocked s.tables actorId info.actorId
    return some info.id

/-- The post that a record replies to, where it is known -/
def recordReply (replyParentUri : Option String) : Except ApiError (Option Int64) :=
  match replyParentUri.bind s.findIdByAtUri with
  | none => .ok none
  | some rid => do
    let _ ← replyContext s.tables rid actorId
    return some rid

/-- What `create_post_from_record` does before it writes -/
def checkRecord (record : PostRecord) :
    Except ApiError (PostContent × Option Int64 × Option Int64) := do
  let content ← E.admitRecord actorId record
  let quoteOfPostId ← recordQuote s actorId record.quoteUri
  let replyToPostId ← recordReply s actorId record.replyParentUri
  return (content, quoteOfPostId, replyToPostId)

/-- `create_post_from_record` -/
def createPostFromRecord (record : PostRecord) : Answer × State :=
  match checkRecord E s actorId record with
  | .error e => (.error e, s)
  | .ok (content, quoteOfPostId, replyToPostId) =>
    if s.hasPost E.newId || s.hasApObjectId E.noteUri then (.internal, s)
    else
      let s' := s.insertPost
        { id := E.newId
          actorId
          visibility := (RoleRestriction.fromRole (E.role actorId)).capVisibility .pub
          isLocal := true
          replyToPostId
          apObjectId := some E.noteUri }
        [] content quoteOfPostId
      (if E.committed then .record else .internal, s')

end

inductive Request where
  | react (noteId content : String)
  | votePoll (noteId : String) (optionIndexes : List Nat)
  | createNote (req : CreateNoteRequest)
  | createRecord (record : PostRecord)
deriving DecidableEq

/-- The answer to a request of an actor and the state after it -/
def handle (E : Env) (s : State) (actorId : Int64) : Request → Answer × State
  | .react noteId content => createReaction E s actorId noteId content
  | .votePoll noteId optionIndexes => votePoll E s actorId noteId optionIndexes
  | .createNote req => createNote E s actorId req
  | .createRecord record => createPostFromRecord E s actorId record

end Seiran.Interact
