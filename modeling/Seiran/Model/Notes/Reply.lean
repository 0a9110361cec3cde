import Seiran.Framework.Run
import Seiran.Framework.Digits
import Seiran.Model.Timeline.Timelines

/-!
# Creating posts and replies

`handlers/notes` (`create_note` without a `renote_id`), `handlers/xrpc/post_from_record.rs`
and `role_restriction.rs`: what a new post takes over from the post it replies to, and whether
it goes to the AT repository. Around the two ways to create a post, what else happens to the
rows: posts that come in from elsewhere, the claims and merges of the two protocols, deletion,
and everything in the other tables.

The checks that only refuse a request (its text, attachments, poll, quotation, mentions, and
the rate limits) are one answer of the environment, `admitted`.
-/

namespace Seiran.Notes

open Timeline

inductive RoleRestriction where
  | unrestricted
  | silence
  | quarantine
deriving DecidableEq

namespace RoleRestriction

def fromRole : String → RoleRestriction
  | "silence" => .silence
  | "quarantine" => .quarantine
  | _ => .unrestricted

def capVisibility (restriction : RoleRestriction) (visibility : Visibility) : Visibility :=
  if restriction ≠ .unrestricted ∧ visibility = .pub then .unlisted else visibility

def limitsInteraction (restriction : RoleRestriction) : Bool := restriction == .quarantine

end RoleRestriction

/-- `str::parse::<i64>` -/
def parseI64 (s : String) : Option Int64 :=
  let (negative, digits) := match s.toList with
    | '-' :: digits => (true, digits)
    | '+' :: digits => (false, digits)
    | digits => (false, digits)
  let n := ofDigits 10 (digits.map fun c => c.toNat - 48)
  let value : Int := if negative then -n else n
  if digits ≠ [] ∧ digits.all Char.isDigit ∧ -2 ^ 63 ≤ value ∧ value < 2 ^ 63 then
    some (Int64.ofInt value)
  else none

structure CreateNoteRequest where
  visibility : Option String := none
  replyToId : Option String := none
  recipientActorIds : Option (List String) := none
  deliverToFedi : Option Bool := none
  deliverToBsky : Option Bool := none
deriving DecidableEq

structure ReplyContext where
  deliverFediAllowed : Bool := true
  deliverBskyAllowed : Bool := true
  parentVisibility : Option Visibility := none
  parentThreadRootPostId : Option Int64 := none
  parentActorId : Option Int64 := none
deriving DecidableEq

/-- `posts`' part of a new post -/
structure ValidatedCreatePost where
  visibility : Visibility
  deliverFedi : Bool
  deliverBsky : Bool
  recipientActorIds : List Int64
  replyToId : Option Int64
  replyCtx : ReplyContext
deriving DecidableEq

def normalizeMisskeyVisibility : String → String
  | "home" => "unlisted"
  | "followers" => "followers_only"
  | "specified" => "direct"
  | other => other

namespace ReplyContext

def topLevel : ReplyContext := {}

def resolveVisibility (ctx : ReplyContext) (requested : Option String) :
    Except ApiError Visibility :=
  let requested := requested.map normalizeMisskeyVisibility
  match ctx.parentVisibility with
  | some .direct => .ok .direct
  | some .followersOnly => .ok .followersOnly
  | some .unlisted =>
    match requested with
    | none => .ok .unlisted
    | some "unlisted" => .ok .unlisted
    | some "public" => .ok .pub
    | some "followers_only" => .ok .followersOnly
    | some _ => .error (.badRequest "INVALID_VISIBILITY")
  | _ =>
    match requested with
    | none => .ok .pub
    | some "public" => .ok .pub
    | some "unlisted" => .ok .unlisted
    | some "followers_only" => .ok .followersOnly
    | some "direct" => .ok .direct
    | some _ => .error (.badRequest "INVALID_VISIBILITY")

end ReplyContext

section

variable (db : Tables)

def isLocalActor (actorId : Int64) : Bool :=
  db.actors.any fun a => a.id == actorId && a.actorType == .localUser

/-- `check_not_blocked` -/
def checkNotBlocked (actorA actorB : Int64) : Except ApiError Unit :=
  if db.blocks.any fun b =>
      (b.blockerActorId == actorA && b.blockedActorId == actorB) ||
        (b.blockerActorId == actorB && b.blockedActorId == actorA) then
    .error (.forbidden "BLOCKED")
  else .ok ()

/-- `reply_delivery_allowed` -/
def replyDeliveryAllowed (p : Post) : Bool × Bool :=
  if isLocalActor db p.actorId then (p.deliverFedi, p.deliverBsky)
  else (p.apObjectId.isSome, p.atUri.isSome)

/-- `resolve_reply_context`, of an id -/
def replyContext (replyToId viewer : Int64) : Except ApiError ReplyContext :=
  match db.posts.find? fun p => p.id == replyToId && !p.deleted && db.visible (some viewer) p with
  | none => .error (.notFound "REPLY_TARGET_NOT_FOUND")
  | some p => do
    checkNotBlocked db viewer p.actorId
    return {
      deliverFediAllowed := (replyDeliveryAllowed db p).1
      deliverBskyAllowed := (replyDeliveryAllowed db p).2
      parentVisibility := some p.visibility
      parentThreadRootPostId := p.threadRootPostId
      parentActorId := some p.actorId }

/-- `resolve_reply_context` -/
def resolveReplyContext (replyToId : String) (viewer : Int64) : Except ApiError ReplyContext :=
  match parseI64 replyToId with
  | none => .error (.badRequest "INVALID_REPLY_TO_ID")
  | some id => replyContext db id viewer

/-- The context of a request -/
def requestReplyContext (actorId : Int64) (req : CreateNoteRequest) : Except ApiError ReplyContext :=
  match req.replyToId with
  | some id => resolveReplyContext db id actorId
  | none => .ok .topLevel

/-- The recipients in the order of the request, without repetitions. -/
def findRecipients : List Int64 → List Actor → Except ApiError (List Actor)
  | [], recipients => .ok recipients
  | id :: ids, recipients =>
    if recipients.any fun a => a.id == id then findRecipients ids recipients
    else match db.actors.find? fun a => a.id == id with
      | some a => findRecipients ids (recipients ++ [a])
      | none => .error (.badRequest "INVALID_RECIPIENT_ACTOR_ID")

/-- `resolve_dm_recipients` -/
def resolveDmRecipients (req : CreateNoteRequest) (visibility : Visibility) :
    Except ApiError (List Actor) :=
  if visibility ≠ .direct then .ok []
  else match req.recipientActorIds with
    | none => .error (.badRequest "RECIPIENT_ACTOR_IDS_REQUIRED")
    | some [] => .error (.badRequest "RECIPIENT_ACTOR_IDS_REQUIRED")
    | some texts =>
      match texts.mapM parseI64 with
      | none => .error (.badRequest "INVALID_RECIPIENT_ACTOR_ID")
      | some ids => do
        let recipients ← findRecipients db ids []
        if recipients.any (fun a => a.actorType == .bsky) ∧ recipients.length > 1 then
          .error (.badRequest "BSKY_DM_SINGLE_RECIPIENT_ONLY")
        else .ok recipients

/-- `decide_delivery_targets` -/
def decideDeliveryTargets (req : CreateNoteRequest) (visibility : Visibility)
    (replyCtx : ReplyContext) (recipients : List Actor) : Bool × Bool :=
  if visibility = .direct then
    (recipients.any fun a => a.actorType == .fedi || a.actorType == .remoteSeiran,
      recipients.any fun a => a.actorType == .bsky)
  else
    let deliverBsky := req.deliverToBsky.getD true && replyCtx.deliverBskyAllowed
    (req.deliverToFedi.getD true && replyCtx.deliverFediAllowed,
      deliverBsky && visibility != .followersOnly)

/-- `require_can_interact` -/
def requireCanInteract (role : Int64 → String) (actorId : Int64) (restriction : RoleRestriction)
    (targets : List Int64) : Except ApiError Unit :=
  if !restriction.limitsInteraction || targets.all fun target =>
      target == actorId || db.followsAccepted target actorId ||
        role target == "admin" || role target == "moderator" then .ok ()
  else .error (.forbidden "INTERACTION_RESTRICTED")

/-- `validate_create_regular_post_input` -/
def validateCreateRegularPostInput (role : Int64 → String) (actorId : Int64)
    (req : CreateNoteRequest) : Except ApiError ValidatedCreatePost := do
  let replyCtx ← requestReplyContext db actorId req
  let restriction := RoleRestriction.fromRole (role actorId)
  let visibility := restriction.capVisibility (← replyCtx.resolveVisibility req.visibility)
  let recipients ← resolveDmRecipients db req visibility
  let targets := decideDeliveryTargets req visibility replyCtx recipients
  requireCanInteract db role actorId restriction
    (recipients.map Actor.id ++ replyCtx.parentActorId.toList)
  recipients.forM fun recipient => checkNotBlocked db actorId recipient.id
  return {
    visibility
    deliverFedi := targets.1
    deliverBsky := targets.2
    recipientActorIds := recipients.map Actor.id
    replyToId := req.replyToId.bind parseI64
    replyCtx }

end

/-- The database, as far as posts are created and committed. -/
structure State where
  localDomain : String
  db : Tables := {}
  /-- the ids that were given to posts, none of them twice -/
  ids : List Int64 := []
  /-- `users.role`, where it is not `user` -/
  roles : List (Int64 × String) := []
  /-- `claimed_at_uri`, by post -/
  claims : List (Int64 × String) := []
  /-- the survivor and the doomed post of each merge -/
  merges : List (Int64 × Int64) := []
  /-- the posts that `create_note` and `create_post_from_record` made -/
  made : List Int64 := []
  /-- the posts whose commit was asked for, in the request or by the deferred job -/
  commits : List Int64 := []
  /-- the posts with a record in the AT repository -/
  repo : List Int64 := []
deriving DecidableEq

namespace State

/-- `actor_role` -/
def role (s : State) (actorId : Int64) : String := (s.roles.lookup actorId).getD "user"

def hasPost (s : State) (id : Int64) : Bool := s.db.posts.any fun p => p.id == id

def noteUri (s : State) (id : Int64) : String :=
  "https://" ++ s.localDomain ++ "/notes/" ++ toString id.toInt

/-- The rows of posts after an `UPDATE` by id. -/
def updatePost (s : State) (id : Int64) (f : Post → Post) : State :=
  { s with db.posts := s.db.posts.map fun p => if p.id == id then f p else p }

/-- `insert_full`, of a post that one of the two ways makes -/
def insertFull (s : State) (p : Post) (recipients : List Int64) : State :=
  { s with
    db.posts := s.db.posts ++ [p]
    db.postRecipients := s.db.postRecipients ++ recipients.map (PostRecipient.mk p.id)
    ids := s.ids ++ [p.id]
    made := s.made ++ [p.id] }

/-- Asks for the commit of a post. -/
def askCommit (s : State) (id : Int64) : State := { s with commits := s.commits ++ [id] }

/-- `deliver_regular_post`, as far as the AT repository is concerned -/
def deliverRegularPost (s : State) (postId : Int64) (visibility : Visibility) (bsky : Bool) :
    State :=
  if visibility = .direct then s
  else if bsky && visibility != .followersOnly then s.askCommit postId
  else s

/-- `create_note` without a `renote_id` -/
def createNote (s : State) (actorId postId : Int64) (req : CreateNoteRequest) (admitted : Bool) :
    Option State :=
  match validateCreateRegularPostInput s.db s.role actorId req with
  | .error _ => none
  | .ok v =>
    if !admitted || s.ids.contains postId || !isLocalActor s.db actorId then none
    else
      let post : Post := {
        id := postId
        actorId
        visibility := v.visibility
        isLocal := true
        replyToPostId := v.replyToId
        threadRootPostId :=
          if v.visibility = .direct then some (v.replyCtx.parentThreadRootPostId.getD postId)
          else none
        apObjectId := some (s.noteUri postId)
        deliverFedi := v.deliverFedi
        deliverBsky := v.deliverBsky }
      some ((s.insertFull post v.recipientActorIds).deliverRegularPost postId v.visibility
        v.deliverBsky)

/-- `find_id_by_at_uri`, of deleted posts too -/
def findIdByAtUri (s : State) (uri : String) : Option Int64 :=
  (s.db.posts.find? fun p => p.atUri == some uri).map Post.id

/-- The post a record replies to, where it is known: of the context only the
author is used. -/
def recordReply (s : State) (actorId : Int64) (replyParentUri : Option String) :
    Except ApiError (Option Int64) :=
  match replyParentUri.bind s.findIdByAtUri with
  | none => .ok none
  | some rid => do
    let _ ← replyContext s.db rid actorId
    return some rid

/-- `create_post_from_record` -/
def createPostFromRecord (s : State) (actorId postId : Int64) (replyParentUri : Option String)
    (admitted : Bool) : Option State :=
  let visibility := (RoleRestriction.fromRole (s.role actorId)).capVisibility .pub
  match s.recordReply actorId replyParentUri with
  | .error _ => none
  | .ok replyToPostId =>
    if !admitted || s.ids.contains postId || !isLocalActor s.db actorId then none
    else
      let post : Post := {
        id := postId
        actorId
        visibility
        isLocal := true
        replyToPostId
        apObjectId := some (s.noteUri postId) }
      some ((s.insertFull post []).askCommit postId)

/-- A post that is made in another way (it comes in, it is a repost, it is migrated), with
what it claims to be on the other protocol. -/
def receive (s : State) (p : Post) (claimedAtUri : Option String) : Option State :=
  if s.ids.contains p.id || !p.replyToPostId.all s.hasPost then none
  else some { s with
    db.posts := s.db.posts ++ [p]
    ids := s.ids ++ [p.id]
    claims := s.claims ++ claimedAtUri.toList.map (Prod.mk p.id) }

/-- `claim_or_find_seiranpost_merge_target` without a target, of an `Update` whose sender is
the author -/
def claim (s : State) (postId : Int64) (uri : String) : Option State :=
  if s.db.posts.any fun p => p.id == postId && !isLocalActor s.db p.actorId && p.atUri.isNone then
    some { s with claims := s.claims ++ [(postId, uri)] }
  else none

/-- `insert_or_merge_bsky_post`, where it merges -/
def mergeBsky (s : State) (postId : Int64) (uri : String) : Option State :=
  if (postId, uri) ∈ s.claims then
    some { s.updatePost postId fun p => { p with atUri := some uri } with
      claims := s.claims.filter fun c => c.1 != postId }
  else none

/-- Posts that an `Update` of their author merges: one has the URI of one protocol, one that
of the other. -/
def isMergeTarget (s : State) (survivor doomed : Int64) (apObjectId atUri : String) : Bool :=
  s.db.posts.any fun p =>
    p.id == survivor && !isLocalActor s.db p.actorId && p.apObjectId == some apObjectId &&
      p.atUri.isNone && s.db.posts.any fun q =>
        q.id == doomed && q.actorId == p.actorId && q.atUri == some atUri

/-- `finalize_post_merge` -/
def finalizePostMerge (s : State) (survivor doomed : Int64) (apObjectId atUri : String) :
    Option State :=
  if s.isMergeTarget survivor doomed apObjectId atUri then
    some { (s.updatePost doomed fun p =>
        { p with apObjectId := none, atUri := none, deleted := true }).updatePost survivor fun p =>
        { p with apObjectId := some apObjectId, atUri := some atUri } with
      claims := s.claims.filter fun c => c.1 != survivor
      merges := s.merges ++ [(survivor, doomed)] }
  else none

/-- `cleanup_merged_post`: the replies move, if the survivor is there, and the row of the post
goes. -/
def cleanupMergedPost (s : State) (survivor doomed : Int64) : Option State :=
  if (survivor, doomed) ∈ s.merges then
    some { s with db.posts := (s.db.posts.filter fun p => p.id != doomed).map fun p =>
      if p.replyToPostId == some doomed then
        { p with replyToPostId := if s.hasPost survivor then some survivor else none }
      else p }
  else none

/-- `commit_post` or `commit_post_record`, in the request or in the deferred job -/
def commit (s : State) (postId : Int64) (uri : String) : Option State :=
  if postId ∈ s.commits then
    some { s.updatePost postId fun p => { p with atUri := some uri } with
      repo := s.repo ++ [postId] }
  else none

/-- Everything else that happens in the database; who is local stays so. -/
def world (s : State) (db : Tables) (roles : List (Int64 × String)) : Option State :=
  if s.db.actors.all fun a => !isLocalActor s.db a.id || isLocalActor db a.id then
    some { s with db := { db with posts := s.db.posts }, roles }
  else none

end State

inductive Action where
  | createNote (actorId postId : Int64) (req : CreateNoteRequest) (admitted : Bool)
  | createRecord (actorId postId : Int64) (replyParentUri : Option String) (admitted : Bool)
  | commit (postId : Int64) (uri : String)
  | receive (p : Post) (claimedAtUri : Option String)
  | claim (postId : Int64) (uri : String)
  | mergeBsky (postId : Int64) (uri : String)
  | finalizePostMerge (survivor doomed : Int64) (apObjectId atUri : String)
  | cleanupMergedPost (survivor doomed : Int64)
  | softDelete (postId : Int64)
  | world (db : Tables) (roles : List (Int64 × String))
deriving DecidableEq

def step (s : State) : Action → Option State
  | .createNote actorId postId req admitted => s.createNote actorId postId req admitted
  | .createRecord actorId postId uri admitted => s.createPostFromRecord actorId postId uri admitted
  | .commit postId uri => s.commit postId uri
  | .receive p claimed => s.receive p claimed
  | .claim postId uri => s.claim postId uri
  | .mergeBsky postId uri => s.mergeBsky postId uri
  | .finalizePostMerge survivor doomed ap uri => s.finalizePostMerge survivor doomed ap uri
  | .cleanupMergedPost survivor doomed => s.cleanupMergedPost survivor doomed
  | .softDelete postId => some (s.updatePost postId fun p => { p with deleted := true })
  | .world db roles => s.world db roles

def machine : Machine State Action := ⟨step⟩

end Seiran.Notes
