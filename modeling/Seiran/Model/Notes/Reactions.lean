import Mathlib.Logic.Function.Basic
import Seiran.Framework.Ledger
import Seiran.Framework.Run
import Seiran.Model.Atp.Revision

/-!
# Reactions and their Likes

`create_reaction`, `delete_reaction` (`handlers/notes/reactions.rs`) and
`ReactionRepository`, for one local account with a repository. A request writes
the row of its reaction in one transaction, once its checks are passed, and
spawns a task that commits to the repository later; the row of a post is unique
for the account. A task executes one statement or one commit at a time; a commit
that fails, with which a task ends, is left out.

The delivery by ActivityPub, the notifications and the answers are left out.
-/

namespace Seiran.Reactions

open Revision

/-- `PostDeliveryMeta`, of a post that is not deleted -/
structure PostMeta where
  atUri : Option String
  atCid : Option String
deriving DecidableEq

/-- What the account reacts to and the clock of `generate_tid` -/
structure Env where
  /-- The `at_did` of the account -/
  did : String
  /-- `find_delivery_meta` -/
  findDeliveryMeta : Int64 → Option PostMeta
  /-- The readings of the TIDs that are drawn, in their order -/
  clock : Nat → Reading

/-- The post that a Like is about -/
structure Target where
  uri : String
  cid : String
deriving DecidableEq

def Env.atUri (E : Env) (postId : Int64) : Option String :=
  (E.findDeliveryMeta postId).bind PostMeta.atUri

def Env.target (E : Env) (postId : Int64) : Option Target := do
  let post ← E.findDeliveryMeta postId
  let uri ← post.atUri
  let cid ← post.atCid
  return ⟨uri, cid⟩

def Env.tid (E : Env) (n : Nat) : String := generateTid (E.clock n)

/-- `at://{did}/app.bsky.feed.like/{rkey}` -/
def likeUri (did rkey : String) : String := "at://" ++ did ++ "/app.bsky.feed.like/" ++ rkey

/-- A row of `reactions` -/
structure Reaction where
  id : Int64
  content : String
  apActivityId : Option String
  atUri : Option String
  emojiUrl : Option String
deriving DecidableEq

/-- `u.rsplit('/').next()` -/
def lastSegment (uri : String) : String :=
  String.ofList (uri.toList.reverse.takeWhile (· ≠ '/')).reverse

/-- `StoredReaction::atp_rkey` -/
def Reaction.atpRkey (r : Reaction) : Option String := r.atUri.map lastSegment

structure NewReaction where
  id : Int64
  postId : Int64
  content : String
  apActivityId : Option String
  emojiUrl : Option String
deriving DecidableEq

/-- A record of `app.bsky.feed.like` -/
structure Like where
  subject : Target
  emoji : String
  reactionId : Int64
deriving DecidableEq

/-- What `deliver_reaction_to_atp` is called with -/
structure Delivery where
  postId : Int64
  content : String
  reactionId : Int64
  prevRkey : Option String
deriving DecidableEq

/-- A task that was spawned, before its next statement or commit -/
inductive Task where
  /-- `find_delivery_meta` -/
  | find (d : Delivery)
  /-- `delete_atp_like` of the reaction that was changed -/
  | replace (d : Delivery) (target : Target) (rkey : String)
  /-- The commit of `commit_like` -/
  | commit (d : Delivery) (target : Target)
  /-- `UPDATE reactions SET at_uri` -/
  | store (d : Delivery) (rkey : String)
  /-- `delete_atp_like` of a reaction that was removed -/
  | delete (rkey : String)
deriving DecidableEq

structure State where
  reactions : Int64 → Option Reaction
  likes : List (String × Like)
  tasks : Nat → Option Task
  /-- How many TIDs have been drawn -/
  drawn : Nat

def start : State := ⟨fun _ => none, [], fun _ => none, 0⟩

/-- `ReactionRepository::upsert`, for the row that is there -/
def upsert (previous : Option Reaction) (new : NewReaction) : Reaction where
  id := new.id
  content := new.content
  apActivityId := new.apActivityId
  -- `COALESCE($7, at_uri)`, with nothing in `$7`
  atUri := previous.bind Reaction.atUri
  emojiUrl := new.emojiUrl

def State.setTask (s : State) (i : Nat) (task : Option Task) : State :=
  { s with tasks := Function.update s.tasks i task }

def State.setReaction (s : State) (postId : Int64) (r : Option Reaction) : State :=
  { s with reactions := Function.update s.reactions postId r }

/-- The request adds the reaction or changes it; `i` is the task that is spawned. -/
def createReaction (s : State) (i : Nat) (new : NewReaction) : State :=
  let previous := s.reactions new.postId
  (s.setReaction new.postId (some (upsert previous new))).setTask i
    (some (.find
      { postId := new.postId
        content := new.content
        reactionId := new.id
        prevRkey := previous.bind Reaction.atpRkey }))

/-- `content = $3`, or any content -/
def matching (content : Option String) (r : Reaction) : Bool :=
  content.all fun c => r.content == c

/-- `delete_local` and `delete_reaction_from_atp` -/
def removeReaction (s : State) (i : Nat) (postId : Int64) (content : Option String) : State :=
  match (s.reactions postId).filter (matching content) with
  | none => s
  | some removed => (s.setReaction postId none).setTask i (removed.atpRkey.map .delete)

/-- The next statement of a task -/
def runTask (E : Env) (s : State) (i : Nat) : Task → State
  | .find d =>
    match E.target d.postId, d.prevRkey with
    | none, _ => s.setTask i none
    | some target, some rkey => s.setTask i (some (.replace d target rkey))
    | some target, none => s.setTask i (some (.commit d target))
  | .replace d target rkey =>
    { s with likes := Store.delete s.likes rkey }.setTask i (some (.commit d target))
  | .commit d target =>
    let rkey := E.tid s.drawn
    let like := { subject := target, emoji := d.content, reactionId := d.reactionId }
    { s with likes := Store.put s.likes rkey like, drawn := s.drawn + 1 }.setTask i
      (some (.store d rkey))
  | .store d rkey =>
    let stored := (s.reactions d.postId).map fun r => { r with atUri := some (likeUri E.did rkey) }
    (s.setReaction d.postId stored).setTask i none
  | .delete rkey => { s with likes := Store.delete s.likes rkey }.setTask i none

inductive Action where
  | react (i : Nat) (new : NewReaction)
  | unreact (i : Nat) (postId : Int64) (content : Option String)
  | run (i : Nat)
deriving DecidableEq

def step (E : Env) (s : State) : Action → Option State
  | .react i new => if s.tasks i = none then some (createReaction s i new) else none
  | .unreact i postId content =>
    if s.tasks i = none then some (removeReaction s i postId content) else none
  | .run i => (s.tasks i).map (runTask E s i)

def machine (E : Env) : Machine State Action := ⟨step E⟩

end Seiran.Reactions
