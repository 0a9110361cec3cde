import Seiran.Framework.Json
import Seiran.Framework.Links

/-!
# Collections of other servers

`fetch_ap_collection_uris` (`ap/collection.rs`) and `fetch_ap_outbox_objects`
(`ap/outbox.rs`): the items of a collection, over as many pages as it has, up to a
number of them. Both read as `Links.Reader` does, where `collect` is `collect_uris`
and `collect_notes`. What is only logged is left out; the requests are counted.
-/

namespace Seiran.Collections

open Links (First Outcome Reader)

/-- What answers: `get` is `get_maybe_signed` of a URL where it gives a status of
success and JSON, `fetchActor` the `outbox` of an actor. `parseDate` is the parser of
`DateTime<Utc>`, in seconds. -/
structure Web (ε : Type) where
  get : String → Option Json
  fetchActor : String → Except ε (Option String)
  parseDate : String → Option Int
  now : Int

/-- `first`, as both functions take it -/
def firstOf (collection : Json) : First String Json :=
  match collection.lookup "first" with
  | some (.str url) => .url url
  | some (.obj entries) => .page (.obj entries)
  | _ => .none

/-! ## Actors -/

def extractUri : Json → Option String
  | .str s => some s
  | .obj entries => (Json.obj entries).getStr "id"
  | _ => none

def uriReader (get : String → Option Json) : Reader String Json Json String where
  get := get
  inline page := ((page.lookup "orderedItems").or (page.lookup "items")).bind Json.asArray
  first := firstOf
  next page := page.getStr "next"
  extract := extractUri
  isEnd _ := false

structure Fetched where
  uris : List String
  complete : Bool
  requests : Nat
deriving DecidableEq

/-- A collection that has neither items nor a `first` of a known form is complete too. -/
def Fetched.of (o : Outcome String) : Fetched :=
  { uris := o.taken, complete := o.ending = .last, requests := o.requests + 1 }

def fetchApCollectionUris (get : String → Option Json) (collectionUrl : String) (maxItems : Nat)
    (fuel : Nat) : Option Fetched :=
  match get collectionUrl with
  | none => some { uris := [], complete := false, requests := 1 }
  | some collection =>
    ((uriReader get).read maxItems fuel collection).map Fetched.of

/-! ## Notes -/

def extractCreateNote (value : Json) : Option Json := do
  let activityType ← value.getStr "type"
  if activityType ≠ "Create" then none
  let obj ← value.lookup "object"
  -- no `type` in a URL
  let objType ← obj.getStr "type"
  if objType ≠ "Note" ∧ objType ≠ "Article" then none
  return obj

def isOlder {ε : Type} (W : Web ε) (since : Int) (note : Json) : Bool :=
  match (note.getStr "published").bind W.parseDate with
  | some t => t < since
  | none => false

def noteReader {ε : Type} (W : Web ε) (since : Int) : Reader String Json Json Json where
  get := W.get
  inline page := (page.lookup "orderedItems").bind Json.asArray
  first := firstOf
  next page := page.getStr "next"
  extract := extractCreateNote
  isEnd := isOlder W since

/-- The notes, and the number of requests. -/
def fetchApOutboxObjects {ε : Type} (W : Web ε) (actorUri : String) (maxPosts : Nat)
    (maxDays : Int) (fuel : Nat) : Option (Except ε (List Json) × Nat) :=
  match W.fetchActor actorUri with
  | .error e => some (.error e, 1)
  | .ok none => some (.ok [], 1)
  | .ok (some outboxUrl) =>
    let since := W.now - maxDays * 86400
    match W.get outboxUrl with
    | none => some (.ok [], 2)
    | some collection =>
      ((noteReader W since).read maxPosts fuel collection).map fun o => (.ok o.taken, o.requests + 2)

end Seiran.Collections
