import Mathlib.Data.List.Basic
import Seiran.Framework.Run

/-!
# Search sessions

`search_notes` (`handlers/search.rs`) for one query that does not change while
it is searched: the pages of a session merge posts of the local database with
the AppView's, which are saved in the local database when they arrive.

* `Site` is what the two sides hold: the posts that the local search finds to
  begin with, what AppView answers to a cursor and a limit (in ids of the rows
  the posts are saved in), which of the saved posts the local search finds too,
  and which posts are bridge posts.
* `SearchStore` is `InMemorySearchStore` (`search.rs`); sessions do not expire
  between two pages.
* A page is the ids that `fetch_and_respond` is given.
-/

namespace Seiran.Search

structure SearchSession where
  /-- Ids fetched and not returned, newest first. -/
  buffer : List Int
  localUntilId : Option Int
  appviewCursor : Option String
  deriving DecidableEq

abbrev SearchStore := String → Option SearchSession

namespace SearchStore

def takeBuffer (store : SearchStore) (sessionId : String) :
    Option ((List Int × Option Int × Option String) × SearchStore) :=
  (store sessionId).map fun s =>
    ((s.buffer, s.localUntilId, s.appviewCursor),
      Function.update store sessionId (some { s with buffer := [] }))

def putBuffer (store : SearchStore) (sessionId : String) (buffer : List Int)
    (localUntilId : Option Int) (appviewCursor : Option String) : SearchStore :=
  match store sessionId with
  | some _ => Function.update store sessionId (some ⟨buffer, localUntilId, appviewCursor⟩)
  | none => store

def create (store : SearchStore) (sessionId : String) (buffer : List Int)
    (localUntilId : Option Int) (appviewCursor : Option String) : SearchStore :=
  Function.update store sessionId (some ⟨buffer, localUntilId, appviewCursor⟩)

end SearchStore

/-! ## The two sides -/

structure Site where
  localMatches : List Int
  appviewMatches : List Int
  appview : (cursor : Option String) → (limit : Nat) → List Int × Option String
  appview_mem : ∀ cursor limit, ∀ id ∈ (appview cursor limit).1, id ∈ appviewMatches
  /-- The condition of the local search, on a saved post. -/
  matchesLocally : Int → Bool
  bridgeOf : Int → Option Int
  isBridge : Int → Bool

/-- `Vec::dedup` -/
def dedup : List Int → List Int
  | [] => []
  | [x] => [x]
  | x :: y :: ids => if x = y then dedup (y :: ids) else x :: dedup (y :: ids)

/-- `sort_by(|a, b| b.cmp(a))` and `dedup` -/
def sortDedup (ids : List Int) : List Int :=
  dedup (ids.mergeSort fun a b => decide (b ≤ a))

def mergeSortDedupAndSplit (ids : List Int) (limit : Nat) : List Int × List Int :=
  ((sortDedup ids).take limit, (sortDedup ids).drop limit)

/-- `AND p.id < $n`, where there is a bound. -/
def olderThan (untilId : Option Int) (id : Int) : Bool :=
  match untilId with
  | some uid => decide (id < uid)
  | none => true

namespace Site

variable (site : Site)

/-- The rows that the local search finds below the bound, newest first, once the posts
`saved` have come in. -/
def localBelow (saved : List Int) (untilId : Option Int) : List Int :=
  sortDedup ((site.localMatches ++ saved.filter site.matchesLocally).filter (olderThan untilId))

def searchLocalDb (saved : List Int) (fetchLimit : Nat) (untilId : Option Int) : List Int :=
  (site.localBelow saved untilId).take fetchLimit

def resolveBridgeId (id : Int) : Option Int :=
  match site.bridgeOf id, site.isBridge id with
  | some original, _ => some original
  | none, true => none
  | none, false => some id

def resolveBridgeIdsForSearch (ids : List Int) : List Int :=
  ids.filterMap site.resolveBridgeId

end Site

/-! ## A request -/

structure SearchQuery where
  limit : Option Int
  sessionId : Option String

structure State where
  store : SearchStore
  /-- The AppView posts saved since the session began. -/
  saved : List Int

/-- `q.limit.unwrap_or(30).clamp(1, 100) as usize` -/
def pageLimit (limit : Option Int) : Nat := (max 1 (min 100 (limit.getD 30))).toNat

/-- The first request: both sides from the top. -/
def searchFirst (site : Site) (limit : Nat) (uuid : String) (st : State) :
    (List Int × String) × State :=
  let localIds := site.searchLocalDb st.saved limit none
  let (avIds, appviewCursor) := site.appview none limit
  let localUntilId := localIds.getLast?
  let allIds := site.resolveBridgeIdsForSearch (localIds ++ avIds)
  let (returnIds, remaining) := mergeSortDedupAndSplit allIds limit
  ((returnIds, uuid),
    ⟨st.store.create uuid remaining localUntilId appviewCursor, st.saved ++ avIds⟩)

/-- The ids of a page with the id of its session; `uuid` is what `Uuid::new_v4` gives. -/
def searchNotes (site : Site) (q : SearchQuery) (uuid : String) (st : State) :
    (List Int × String) × State :=
  let limit := pageLimit q.limit
  match q.sessionId with
  | none => searchFirst site limit uuid st
  | some sid =>
    match st.store.takeBuffer sid with
    | none => searchFirst site limit uuid st
    | some ((buf, localUntilId, appviewCursor), store) =>
      if limit ≤ buf.length then
        ((buf.take limit, sid),
          { st with store := store.putBuffer sid (buf.drop limit) localUntilId appviewCursor })
      else
        let extraLocal := site.searchLocalDb st.saved limit localUntilId
        let newLocalUntil := extraLocal.getLast?
        let (avIds, newAppviewCursor) :=
          match appviewCursor with
          | some cursor => site.appview (some cursor) limit
          | none => ([], none)
        let buf := site.resolveBridgeIdsForSearch (buf ++ extraLocal ++ avIds)
        let (ids, remaining) := mergeSortDedupAndSplit buf limit
        ((ids, sid),
          ⟨store.putBuffer sid remaining newLocalUntil newAppviewCursor, st.saved ++ avIds⟩)

/-! ## A session -/

/-- Who pages through a search: the session of the last page, and the pages so far. -/
structure Reader where
  sessionId : Option String
  pages : List (List Int)
  st : State

/-- The ids returned so far. -/
def Reader.returned (r : Reader) : List Int := r.pages.flatten

/-- The next page: the limit asked for, and the uuid that is drawn if it is the first. -/
def sessions (site : Site) : Machine Reader (Option Int × String) where
  step r a :=
    let (page, st) := searchNotes site ⟨a.1, r.sessionId⟩ a.2 r.st
    some ⟨some page.2, r.pages ++ [page.1], st⟩

/-- Before the first page. -/
def Reader.start (store : SearchStore) : Reader := ⟨none, [], ⟨store, []⟩⟩

end Seiran.Search
