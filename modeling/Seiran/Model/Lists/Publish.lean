import Seiran.Framework.Ledger
import Seiran.Framework.Run
import Seiran.Framework.Sql.Table
import Seiran.Model.Atp.Revision
import Seiran.Model.Timeline.Database

/-!
# Lists and their records

`handlers/lists.rs` and `PgListRepository`, with the `Move` of `move_actor.rs`. A
public list is in the repository of its owner as a record of `app.bsky.graph.list`,
its members as records of `app.bsky.graph.listitem`; the rows store the rkeys. A
local account has a repository if it has a DID. An operation is complete before the
next one starts, and its statements and commits do not fail but for the unique
indexes, the foreign keys and the repositories that are not there.

The proxy follows, the answers, the times and the CIDs are left out.
-/

namespace Seiran.Lists

open Sql Revision
open Timeline (ActorType)

structure Actor where
  actorType : ActorType
  atDid : Option String
  /-- `withdrawn_at IS NOT NULL` -/
  withdrawn : Bool
deriving DecidableEq

structure Env where
  /-- The rows of `actors` -/
  actor : Int64 → Option Actor
  /-- `list_creation_max` -/
  listCreationMax : Int64 → Option Nat
  /-- `list_member_max` -/
  listMemberMax : Int64 → Option Nat

def Env.atDid (E : Env) (actorId : Int64) : Option String := (E.actor actorId).bind Actor.atDid

structure ListRow where
  id : Int64
  ownerActorId : Int64
  name : String
  isPublic : Bool
  atRkey : Option String := none
  atUri : Option String := none
deriving DecidableEq

structure MemberRow where
  listId : Int64
  actorId : Int64
  atRkey : Option String := none
  atUri : Option String := none
deriving DecidableEq

/-- `lists_pkey`, `UNIQUE (owner_actor_id, name)`, `UNIQUE (at_uri)` -/
inductive ListKey where
  | id (id : Int64)
  | name (ownerActorId : Int64) (name : String)
  | atUri (atUri : String)
deriving DecidableEq

def listSchema : Schema Int64 ListRow ListKey where
  id := ListRow.id
  keys l := .id l.id :: .name l.ownerActorId l.name :: (l.atUri.map .atUri).toList
  pkey := .id
  pkey_mem _ := List.mem_cons_self

/-- `UNIQUE (list_id, actor_id)`, `UNIQUE (at_uri)` -/
inductive MemberKey where
  | member (listId actorId : Int64)
  | atUri (atUri : String)
deriving DecidableEq

def memberSchema : Schema (Int64 × Int64) MemberRow MemberKey where
  id m := (m.listId, m.actorId)
  keys m := .member m.listId m.actorId :: (m.atUri.map .atUri).toList
  pkey i := .member i.1 i.2
  pkey_mem _ := List.mem_cons_self

/-- A record of `app.bsky.graph.listitem` -/
structure ListItem where
  list : String
  subject : String
deriving DecidableEq

/-- The records of all repositories have the account and the rkey as their key. -/
structure State where
  lists : List ListRow
  members : List MemberRow
  /-- The names of `app.bsky.graph.list` -/
  graphLists : List ((Int64 × String) × String)
  graphListitems : List ((Int64 × String) × ListItem)

def start : State := ⟨[], [], [], []⟩

/-- `at://{did}/app.bsky.graph.list/{rkey}` -/
def listUri (did rkey : String) : String := "at://" ++ did ++ "/app.bsky.graph.list/" ++ rkey

/-- `at://{did}/app.bsky.graph.listitem/{rkey}` -/
def listitemUri (did rkey : String) : String :=
  "at://" ++ did ++ "/app.bsky.graph.listitem/" ++ rkey

section Repository

variable (s : State)

/-- `ListRepository::find_by_id` -/
def State.findById (listId : Int64) : Option ListRow := s.lists.find? fun l => l.id == listId

def State.setList (listId : Int64) (f : ListRow → ListRow) : State :=
  { s with lists := (listSchema.update s.lists listId f).getD s.lists }

def State.setMember (listId actorId : Int64) (f : MemberRow → MemberRow) : State :=
  { s with members := (memberSchema.update s.members (listId, actorId) f).getD s.members }

def State.membersOf (listId : Int64) : List MemberRow :=
  s.members.filter fun m => m.listId == listId

/-- `ListRepository::members`, the last one added first -/
def State.memberIds (E : Env) (listId : Int64) : List Int64 :=
  ((s.membersOf listId).reverse.map MemberRow.actorId).filter fun a =>
    (E.actor a).any fun actor => !actor.withdrawn

/-- `ListRepository::members_with_atp_record` -/
def State.membersWithAtpRecord (listId : Int64) : List (Int64 × String) :=
  (s.membersOf listId).filterMap fun m => m.atRkey.map fun rkey => (m.actorId, rkey)

/-- `ListRepository::add_member`: `ON CONFLICT (list_id, actor_id) DO NOTHING` -/
def State.addMember (E : Env) (listId actorId : Int64) : State :=
  if (E.actor actorId).isSome then
    { s with members := (memberSchema.insert s.members { listId, actorId }).getD s.members }
  else s

/-- `ListRepository::remove_member` -/
def State.removeMember (listId actorId : Int64) : State :=
  { s with members := s.members.filter fun m => !(m.listId == listId && m.actorId == actorId) }

def State.deleteListitem (owner : Int64) (rkey : String) : State :=
  { s with graphListitems := Store.delete s.graphListitems (owner, rkey) }

def State.deleteGraphList (owner : Int64) (rkey : String) : State :=
  { s with graphLists := Store.delete s.graphLists (owner, rkey) }

end Repository

/-- `commit_graph_list` and `set_atp_list_record` -/
def publishListToAtp (E : Env) (s : State) (listId owner : Int64) (name : String) (r : Reading) :
    State :=
  match E.atDid owner with
  | none => s
  | some did =>
    let rkey := generateTid r
    { s with graphLists := Store.put s.graphLists (owner, rkey) name }.setList listId fun l =>
      { l with atRkey := some rkey, atUri := some (listUri did rkey) }

/-- The DID of an actor that Bluesky can see -/
def Env.subjectDid (E : Env) (actorId : Int64) : Option String :=
  (E.actor actorId).bind fun target => if target.actorType = .fedi then none else target.atDid

/-- `commit_graph_listitem` and `set_member_atp_record` -/
def maybePublishListitem (E : Env) (s : State) (listId : Int64) (listAtUri : Option String)
    (owner target : Int64) (r : Reading) : State :=
  match listAtUri, E.subjectDid target, E.atDid owner with
  | some list, some subject, some did =>
    let rkey := generateTid r
    let graphListitems := Store.put s.graphListitems (owner, rkey) { list, subject }
    { s with graphListitems }.setMember listId target fun m =>
      { m with atRkey := some rkey, atUri := some (listitemUri did rkey) }
  | _, _, _ => s

/-- The loop of `update_list`; `clock` has what would be read for each of the members. -/
def publishMembers (E : Env) (listId : Int64) (listAtUri : Option String) (owner : Int64) :
    List Int64 → (Nat → Reading) → State → State
  | [], _, s => s
  | a :: as, clock, s =>
    publishMembers E listId listAtUri owner as (fun n => clock (n + 1)) <|
      maybePublishListitem E s listId listAtUri owner a (clock 0)

/-- The loop of `unpublish_list_from_atp` -/
def unpublishMembers (listId owner : Int64) : List (Int64 × String) → State → State
  | [], s => s
  | (actorId, rkey) :: rest, s =>
    unpublishMembers listId owner rest <|
      (s.deleteListitem owner rkey).setMember listId actorId fun m =>
        { m with atRkey := none, atUri := none }

def unpublishListFromAtp (s : State) (listId owner : Int64) (listAtRkey : Option String) : State :=
  let s := unpublishMembers listId owner (s.membersWithAtpRecord listId) s
  let s := match listAtRkey with
    | none => s
    | some rkey => s.deleteGraphList owner rkey
  s.setList listId fun l => { l with atRkey := none, atUri := none }

/-- `char::is_whitespace` -/
def isWhitespace (c : Char) : Bool :=
  let n := c.toNat
  (9 ≤ n && n ≤ 13) || (0x2000 ≤ n && n ≤ 0x200A) ||
    [0x20, 0x85, 0xA0, 0x1680, 0x2028, 0x2029, 0x202F, 0x205F, 0x3000].contains n

def trim (text : String) : String :=
  String.ofList ((text.toList.dropWhile isWhitespace).reverse.dropWhile isWhitespace).reverse

/-- `リスト名は1〜100文字で入力してください` -/
def validName (name : String) : Bool := name.length ≠ 0 && name.length ≤ 100

/-- A limit that is reached -/
def reached (count : Nat) (max : Option Nat) : Bool := max.any fun max => max ≤ count

section Handlers

variable (E : Env) (s : State) (user : Int64)

def createList (id : Int64) (name : String) (isPublic : Bool) (r : Reading) : State :=
  let name := trim name
  if !validName name then s
  else if reached (s.lists.countP fun l => l.ownerActorId == user) (E.listCreationMax user) then s
  else match listSchema.insert s.lists { id, ownerActorId := user, name, isPublic } with
    | none => s
    | some lists =>
      if isPublic then publishListToAtp E { s with lists } id user name r else { s with lists }

def updateList (id : Int64) (name : String) (isPublic : Bool) (clock : Nat → Reading) : State :=
  let name := trim name
  if !validName name then s
  else match s.findById id with
    | none => s
    | some before =>
      if before.ownerActorId ≠ user then s
      else match listSchema.update s.lists id fun l => { l with name, isPublic } with
        | none => s
        | some lists =>
          let s := { s with lists }
          if !before.isPublic && isPublic then
            let s := publishListToAtp E s id user name (clock 0)
            match s.findById id with
            | none => s
            | some list =>
              publishMembers E id list.atUri user (s.memberIds E id) (fun n => clock (n + 1)) s
          else if before.isPublic && !isPublic then unpublishListFromAtp s id user before.atRkey
          -- the record of a public list keeps the name it had
          else s

def deleteList (id : Int64) : State :=
  match s.findById id with
  | none => s
  | some before =>
    if before.ownerActorId ≠ user then s
    else
      let memberAtpRecords := s.membersWithAtpRecord id
      let s := { s with
        lists := s.lists.filter fun l => l.id != id
        members := s.members.filter fun m => m.listId != id }
      if before.isPublic then
        let s := memberAtpRecords.foldl (fun s x => s.deleteListitem user x.2) s
        match before.atRkey with
        | none => s
        | some rkey => s.deleteGraphList user rkey
      else s

def addMember (id actorId : Int64) (r : Reading) : State :=
  match s.findById id with
  | none => s
  | some list =>
    if list.ownerActorId ≠ user then s
    else if reached (s.membersOf id).length (E.listMemberMax user) then s
    else if (E.actor actorId).isNone then s
    else
      let s := s.addMember E id actorId
      if list.isPublic then maybePublishListitem E s id list.atUri user actorId r else s

def removeMember (id actorId : Int64) : State :=
  match s.findById id with
  | none => s
  | some list =>
    if list.ownerActorId ≠ user then s
    else
      let atRkey := (s.members.find? fun m => m.listId == id && m.actorId == actorId).bind
        MemberRow.atRkey
      let s := s.removeMember id actorId
      match atRkey with
      | none => s
      | some rkey => s.deleteListitem user rkey

end Handlers

/-- The lists of `move_actor.rs`, from `list_ids_containing_actor` on -/
def moveActor (E : Env) (s : State) (oldActor newActor : Int64) : State :=
  if newActor = oldActor then s
  else
    let listIds := (s.members.filter fun m => m.actorId == oldActor).map MemberRow.listId
    listIds.foldl (fun s id => (s.removeMember id oldActor).addMember E id newActor) s

inductive Action where
  | createList (user id : Int64) (name : String) (isPublic : Bool) (r : Reading)
  | updateList (user id : Int64) (name : String) (isPublic : Bool) (clock : Nat → Reading)
  | deleteList (user id : Int64)
  | addMember (user id actorId : Int64) (r : Reading)
  | removeMember (user id actorId : Int64)
  | moveActor (oldActor newActor : Int64)

def step (E : Env) (s : State) : Action → Option State
  | .createList user id name isPublic r => some (createList E s user id name isPublic r)
  | .updateList user id name isPublic clock => some (updateList E s user id name isPublic clock)
  | .deleteList user id => some (deleteList s user id)
  | .addMember user id actorId r => some (addMember E s user id actorId r)
  | .removeMember user id actorId => some (removeMember s user id actorId)
  | .moveActor oldActor newActor => some (moveActor E s oldActor newActor)

def machine (E : Env) : Machine State Action := ⟨step E⟩

end Seiran.Lists
