import Seiran.Framework.Run
import Seiran.Framework.Sql.Table
import Seiran.Model.Posts.Arrivals

/-!
# The two sides of an actor as they are discovered

An actor of another seiran has an actor document of ActivityPub and a repository
of the AT Protocol, and each may declare the other (`seiranAtDid`,
`org.seiran.actor.declaration`). `seiran_actor_merge.rs` writes what it discovers
of either side to `actors`: into the row that is there, into the row of the other
side where the two name each other, or into a new row.

Every call is a process that executes one statement at a time, and again from its
first after a violation of a unique index (`unique_retry.rs`). A transaction has
one write, its last statement, which is there for the others with its commit. The
declarations change at any time; a call has the one that was read before it, or
none where none could be read.

The two functions are one with the side as its parameter. The rows are those of
remote actors, with the columns that are read or written, the times apart.
-/

namespace Seiran.Actors

open Sql

inductive Side where
  | fedi
  | bsky
deriving DecidableEq

def Side.other : Side → Side
  | .fedi => .bsky
  | .bsky => .fedi

inductive ActorType where
  | fedi
  | bsky
  | remoteSeiran
deriving DecidableEq

structure Actor where
  id : Int64
  actorType : ActorType
  apUri : Option String := none
  atDid : Option String := none
  claimedApUri : Option String := none
  claimedAtDid : Option String := none
  apInboxUrl : Option String := none
  username : String
  domain : String
  atHandle : Option String := none
  displayName : Option String := none
  avatarUrl : Option String := none
  bannerUrl : Option String := none
  bio : Option String := none
  emojiMap : List (String × String) := []
  profileFields : List (String × String) := []
deriving DecidableEq

namespace Actor

variable (a : Actor)

/-- `ap_uri`, `at_did` -/
def ident : Side → Option String
  | .fedi => a.apUri
  | .bsky => a.atDid

/-- `claimed_ap_uri`, `claimed_at_did`: the identifier of that side which the other declares -/
def claimed : Side → Option String
  | .fedi => a.claimedApUri
  | .bsky => a.claimedAtDid

end Actor

/-- `UNIQUE (ap_uri)`, `UNIQUE (at_did)`, `actors_mutual_claim_key` -/
inductive Key where
  | id (id : Int64)
  | ident (side : Side) (ident : String)
  | mutualClaim (apUri atDid : String)
deriving DecidableEq

/-- `(COALESCE(ap_uri, claimed_ap_uri), COALESCE(at_did, claimed_at_did))` -/
def Actor.mutualClaim (a : Actor) : Option (String × String) :=
  (a.apUri <|> a.claimedApUri).bind fun ap => (a.atDid <|> a.claimedAtDid).map fun did => (ap, did)

def Actor.keys (a : Actor) : List Key :=
  .id a.id :: ((a.apUri.map (.ident .fedi)).toList ++ (a.atDid.map (.ident .bsky)).toList ++
    (a.mutualClaim.map fun (ap, did) => .mutualClaim ap did).toList)

def schema : Schema Int64 Actor Key where
  id := Actor.id
  keys := Actor.keys
  pkey := .id
  pkey_mem _ := List.mem_cons_self

structure FediActorProfile where
  apUri : String
  apInboxUrl : String
  username : String
  domain : String
  displayName : String
  avatarUrl : Option String := none
  bannerUrl : Option String := none
  bio : Option String := none
  emojiMap : List (String × String) := []
  profileFields : List (String × String) := []
  claimedAtDid : Option String := none
deriving DecidableEq

/-- Its `banner_url` is not read here. -/
structure BskyActorProfile where
  atDid : String
  handle : String
  displayName : Option String := none
  avatarUrl : Option String := none
deriving DecidableEq

namespace FediActorProfile

variable (profile : FediActorProfile) (a : Actor)

/-- The `UPDATE` of a row that is there -/
def refresh : Actor :=
  { a with
    apInboxUrl := some profile.apInboxUrl
    displayName := some profile.displayName
    avatarUrl := profile.avatarUrl <|> a.avatarUrl
    bio := profile.bio <|> a.bio
    emojiMap := profile.emojiMap
    profileFields := profile.profileFields
    claimedAtDid := if a.actorType = .remoteSeiran then a.claimedAtDid
      else a.claimedAtDid <|> profile.claimedAtDid
    bannerUrl := profile.bannerUrl <|> a.bannerUrl }

/-- The `UPDATE` of the row of the other side -/
def marry : Actor :=
  { a with
    apUri := some profile.apUri
    apInboxUrl := some profile.apInboxUrl
    actorType := .remoteSeiran
    claimedApUri := none
    displayName := some profile.displayName
    avatarUrl := profile.avatarUrl <|> a.avatarUrl
    bio := profile.bio <|> a.bio
    emojiMap := profile.emojiMap
    profileFields := profile.profileFields
    bannerUrl := profile.bannerUrl <|> a.bannerUrl }

/-- The row that is inserted -/
def row (id : Int64) : Actor where
  id := id
  actorType := .fedi
  apUri := some profile.apUri
  apInboxUrl := some profile.apInboxUrl
  username := profile.username
  domain := profile.domain
  displayName := some profile.displayName
  avatarUrl := profile.avatarUrl
  bio := profile.bio
  emojiMap := profile.emojiMap
  profileFields := profile.profileFields
  claimedAtDid := profile.claimedAtDid
  bannerUrl := profile.bannerUrl

end FediActorProfile

namespace BskyActorProfile

variable (profile : BskyActorProfile) (claimedApUri : Option String) (a : Actor)

def refresh : Actor :=
  { a with
    username := if a.actorType = .remoteSeiran then a.username else profile.handle
    atHandle := some profile.handle
    displayName := profile.displayName <|> a.displayName
    avatarUrl := profile.avatarUrl <|> a.avatarUrl
    claimedApUri := if a.actorType = .remoteSeiran then a.claimedApUri
      else a.claimedApUri <|> claimedApUri }

def marry : Actor :=
  { a with
    atDid := some profile.atDid
    atHandle := some profile.handle
    actorType := .remoteSeiran
    claimedAtDid := none
    displayName := profile.displayName <|> a.displayName
    avatarUrl := profile.avatarUrl <|> a.avatarUrl }

def row (id : Int64) : Actor where
  id := id
  actorType := .bsky
  atDid := some profile.atDid
  username := profile.handle
  domain := ""
  displayName := profile.displayName
  avatarUrl := profile.avatarUrl
  atHandle := some profile.handle
  claimedApUri := claimedApUri

end BskyActorProfile

/-- What is discovered: by `discover_fedi_actor`, or by `discover_bsky_actor` -/
inductive Discovery where
  | fedi (profile : FediActorProfile)
  | bsky (profile : BskyActorProfile) (claimedApUri : Option String)
deriving DecidableEq

namespace Discovery

variable (d : Discovery)

def side : Side :=
  match d with
  | .fedi _ => .fedi
  | .bsky .. => .bsky

def ident : String :=
  match d with
  | .fedi profile => profile.apUri
  | .bsky profile _ => profile.atDid

/-- The identifier of the other side that it declares -/
def claim : Option String :=
  match d with
  | .fedi profile => profile.claimedAtDid
  | .bsky _ claimedApUri => claimedApUri

def refresh (a : Actor) : Actor :=
  match d with
  | .fedi profile => profile.refresh a
  | .bsky profile claimedApUri => profile.refresh claimedApUri a

def marry (a : Actor) : Actor :=
  match d with
  | .fedi profile => profile.marry a
  | .bsky profile _ => profile.marry a

def row (id : Int64) : Actor :=
  match d with
  | .fedi profile => profile.row id
  | .bsky profile claimedApUri => profile.row claimedApUri id

end Discovery

structure DiscoveryOutcome where
  actorId : Int64
  married : Bool
deriving DecidableEq

/-- The last statement of an attempt -/
inductive Write where
  | existing (id : Int64)
  | married (id : Int64)
  | insert
deriving DecidableEq

inductive Phase where
  /-- `SELECT id FROM actors WHERE ap_uri = $1`, or by `at_did` -/
  | search (attempt : Nat)
  /-- The row of the side that is declared, with what it claims -/
  | counterpart (attempt : Nat) (claim : String)
  | write (attempt : Nat) (write : Write)
  /-- The outcome, or the violation of the last attempt -/
  | ended (outcome : Option DiscoveryOutcome)
deriving DecidableEq

structure Call where
  discovery : Discovery
  /-- The row to insert -/
  id : Int64
  phase : Phase
deriving DecidableEq

def byIdent (actors : List Actor) (side : Side) (ident : String) : Option Actor :=
  actors.find? fun a => a.ident side == some ident

namespace Call

variable (c : Call) (actors : List Actor)

def setPhase (phase : Phase) : Call := { c with phase }

def search (attempt : Nat) : Call :=
  match byIdent actors c.discovery.side c.discovery.ident, c.discovery.claim with
  | some existing, _ => c.setPhase (.write attempt (.existing existing.id))
  | none, some claim => c.setPhase (.counterpart attempt claim)
  | none, none => c.setPhase (.write attempt .insert)

def counterpart (attempt : Nat) (claim : String) : Call :=
  match byIdent actors c.discovery.side.other claim with
  | some a =>
    if a.claimed c.discovery.side = some c.discovery.ident then
      c.setPhase (.write attempt (.married a.id))
    else c.setPhase (.write attempt .insert)
  | none => c.setPhase (.write attempt .insert)

def statement : Write → Option (List Actor)
  | .existing id => schema.update actors id c.discovery.refresh
  | .married id => schema.update actors id c.discovery.marry
  | .insert => schema.insert actors (c.discovery.row c.id)

/-- After the commit -/
def written : Write → Call
  | .existing id => c.setPhase (.ended (some ⟨id, false⟩))
  | .married id => c.setPhase (.ended (some ⟨id, true⟩))
  | .insert => c.setPhase (.ended (some ⟨c.id, false⟩))

/-- `retry_on_unique_violation` -/
def retry (attempt : Nat) : Call :=
  if attempt < Posts.Arrivals.maxUniqueViolationRetries then c.setPhase (.search (attempt + 1))
  else c.setPhase (.ended none)

end Call

structure State where
  actors : List Actor
  calls : Int64 → Option Call
  /-- What the actors declare now -/
  declared : Side → String → Option String

def start : State := ⟨[], fun _ => none, fun _ _ => none⟩

def State.setCall (s : State) (i : Int64) (actors : List Actor) (c : Call) : State :=
  { s with actors, calls := Function.update s.calls i (some c) }

/-- One statement of a call -/
def State.runCall (s : State) (i : Int64) (c : Call) : Option State :=
  match c.phase with
  | .search attempt => some (s.setCall i s.actors (c.search s.actors attempt))
  | .counterpart attempt claim => some (s.setCall i s.actors (c.counterpart s.actors attempt claim))
  | .write attempt write =>
    match c.statement s.actors write with
    | some actors => some (s.setCall i actors (c.written write))
    | none => some (s.setCall i s.actors (c.retry attempt))
  | .ended _ => none

inductive Action where
  /-- An actor declares another identifier of its other side, or none. -/
  | declare (side : Side) (ident : String) (claim : Option String)
  | discover (i : Int64) (discovery : Discovery)
  | run (i : Int64)
deriving DecidableEq

def step (s : State) : Action → Option State
  | .declare side ident claim =>
    some { s with
      declared := Function.update s.declared side (Function.update (s.declared side) ident claim) }
  -- a call draws an identifier of its own, and has read the declaration or failed to
  | .discover i d =>
    if s.calls i = none ∧ (∀ a ∈ s.actors, a.id ≠ i) ∧
        (d.claim = none ∨ d.claim = s.declared d.side d.ident) then
      some (s.setCall i s.actors ⟨d, i, .search 1⟩)
    else none
  | .run i => (s.calls i).bind (s.runCall i)

def machine : Machine State Action := ⟨step⟩

end Seiran.Actors
