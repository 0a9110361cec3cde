import Mathlib.Data.List.Infix
import Mathlib.Logic.Function.Basic
import Seiran.Framework.Run

/-!
# The timelines on the home page

`HomePage.tsx` with the hook `useCursorPagination`: the notes on the page, the tab they are of,
the tabs' cache, and the requests under way, over the timelines as the server has them.

What the code reads from a ref is what was rendered last; what it hands to a setter is applied
at the next render, after what was handed to it before. The state has both. A promise and its
`finally` are settled at once, and so are the effects of a change of tabs and the render that
they ask for. Notes are known by their ids, which grow; the server leaves out what the visitor
may not see, so `filterTimelineNotes` has nothing to do.
-/

namespace Seiran.HomePage

/-- `PAGE_SIZE` -/
def pageSize : Nat := 30

/-- `FeedCacheEntry`, but for the scroll position -/
structure CacheEntry where
  notes : List Nat
  hasMore : Bool
  gapBeforeIds : List Nat
deriving DecidableEq

/-- What a request is for. -/
inductive Kind where
  /-- the first page of a tab that is not in the cache, of the effect of this generation -/
  | first (generation : Nat)
  /-- the next page -/
  | more (generation untilId : Nat)
  /-- `mergeHeadIntoTimeline` -/
  | head
deriving DecidableEq

/-- A request; `rows` is what the server found, once it did. -/
structure Request where
  key : String
  kind : Kind
  rows : Option (List Nat)
deriving DecidableEq

structure State where
  /-- the timelines on the server, by `feedKey` -/
  server : String → List Nat
  nextId : Nat
  currentFeedKey : String
  generation : Nat
  notes : List Nat
  notesFeedKey : Option String
  gapBeforeIds : List Nat
  hasMore : Bool
  loading : Bool
  notesRef : List Nat
  notesFeedKeyRef : Option String
  loadingRef : Bool
  loadingGeneration : Option Nat
  cache : String → Option CacheEntry
  requests : Nat → Option Request
  nextRequest : Nat

def request (s : State) (key : String) (kind : Kind) : State :=
  { s with
    requests := Function.update s.requests s.nextRequest (some { key, kind, rows := none })
    nextRequest := s.nextRequest + 1 }

/-- The page is opened. -/
def init (key : String) : State :=
  request
    { server := fun _ => [], nextId := 0, currentFeedKey := key, generation := 0, notes := []
      notesFeedKey := none, gapBeforeIds := [], hasMore := true, loading := true, notesRef := []
      notesFeedKeyRef := none, loadingRef := true, loadingGeneration := none
      cache := fun _ => none, requests := fun _ => none, nextRequest := 0 } key (.first 0)

inductive Action where
  /-- a note is posted, to these timelines -/
  | post (keys : List String)
  | switchTab (key : String)
  | render
  /-- the end of the list comes into view -/
  | loadMore
  /-- the WebSocket is connected again -/
  | onResync
  /-- a note comes over the WebSocket, or from the composer -/
  | prepend (id : Nat)
  | scroll
  /-- the server looks up what a request asks for -/
  | serve (i : Nat)
  | resolve (i : Nat)
  | reject (i : Nat)
deriving DecidableEq

/-- What the server finds -/
def rowsFor (timeline : List Nat) : Kind → List Nat
  | .first _ | .head => timeline.take pageSize
  | .more _ untilId => (timeline.filter fun x => decide (x < untilId)).take pageSize

/-- `mergeHeadIntoTimeline`, when the page is there -/
def mergeHead (s : State) (fetched : List Nat) : State :=
  match fetched, s.notesRef with
  | [], _ => s
  | _, [] => { s with notes := fetched }
  | _, first :: rest =>
    match fetched.findIdx? (· ∈ first :: rest) with
    | none => { s with gapBeforeIds := first :: s.gapBeforeIds, notes := fetched ++ s.notes }
    | some overlapIndex => { s with notes := fetched.take overlapIndex ++ s.notes }

/-- `finally` of `loadMore` -/
def settle (s : State) (generation : Nat) : State :=
  if s.loadingGeneration = some generation then { s with loadingGeneration := none } else s

def resolved (s : State) (key : String) (rows : List Nat) : Kind → State
  | .first generation =>
    if generation = s.generation then
      { s with
        notes := rows, notesFeedKey := some key, hasMore := decide (pageSize ≤ rows.length)
        loading := false }
    else s
  | .more generation _ =>
    settle (if generation = s.generation then
      { s with
        notes := s.notes ++ rows.filter fun x => decide (x ∉ s.notes)
        hasMore := decide (pageSize ≤ rows.length) }
    else s) generation
  | .head =>
    if s.currentFeedKey = key ∧ s.notesFeedKeyRef = some key then mergeHead s rows else s

def rejected (s : State) : Kind → State
  | .first generation => if generation = s.generation then { s with loading := false } else s
  | .more generation _ => settle s generation
  | .head => s

def setRequest (s : State) (i : Nat) (r : Option Request) : State :=
  { s with requests := Function.update s.requests i r }

def setCache (s : State) (entry : CacheEntry) : State :=
  { s with cache := Function.update s.cache s.currentFeedKey (some entry) }

/-- `setCache` with the scroll position only -/
def cachedScroll (s : State) : CacheEntry :=
  (s.cache s.currentFeedKey).getD { notes := [], hasMore := true, gapBeforeIds := [] }

/-- What the refs are set to while the page is rendered -/
def rendered (s : State) : State :=
  { s with notesRef := s.notes, notesFeedKeyRef := s.notesFeedKey, loadingRef := s.loading }

/-- The effect of a tab, and what it asks for -/
def showTab (s : State) (key : String) : State :=
  match s.cache key with
  | some cached =>
    rendered (request { s with
      notes := cached.notes, notesFeedKey := some key, hasMore := cached.hasMore
      gapBeforeIds := cached.gapBeforeIds, loading := false } key .head)
  | none =>
    rendered (request { s with hasMore := true, gapBeforeIds := [], loading := true } key
      (.first s.generation))

def step (s : State) : Action → Option State
  | .post keys =>
    some { s with
      server := fun key => if key ∈ keys then s.nextId :: s.server key else s.server key
      nextId := s.nextId + 1 }
  | .switchTab key =>
    if key = s.currentFeedKey then none
    else some (showTab { s with currentFeedKey := key, generation := s.generation + 1 } key)
  | .render =>
    if s.loading = false ∧ s.notesFeedKey = some s.currentFeedKey then
      some (setCache (rendered s) {
        notes := s.notes, hasMore := s.hasMore, gapBeforeIds := s.gapBeforeIds })
    else some (rendered s)
  | .loadMore =>
    if s.notesFeedKeyRef = some s.currentFeedKey ∧ s.loadingGeneration ≠ some s.generation then
      match s.notesRef.getLast? with
      | some untilId =>
        some { request s s.currentFeedKey (.more s.generation untilId) with
          loadingGeneration := some s.generation }
      | none => none
    else none
  | .onResync =>
    if s.loadingRef = true then none else some (request s s.currentFeedKey .head)
  | .prepend id => some (if id ∈ s.notes then s else { s with notes := id :: s.notes })
  | .scroll => some (setCache s (cachedScroll s))
  | .serve i => (s.requests i).bind fun r =>
    if r.rows = none then
      some (setRequest s i (some { r with rows := some (rowsFor (s.server r.key) r.kind) }))
    else none
  | .resolve i => (s.requests i).bind fun r =>
    r.rows.map fun rows => resolved (setRequest s i none) r.key rows r.kind
  | .reject i => (s.requests i).map fun r => rejected (setRequest s i none) r.kind

def machine : Machine State Action := ⟨step⟩

/-! ## What the page is to show -/

/-- The generation whose page is asked for -/
def Kind.generation : Kind → Option Nat
  | .first g => some g
  | .more g _ => some g
  | .head => none

/-- The notes on the page are those of the tab. -/
def Shown (s : State) : Prop := s.notesFeedKey = some s.currentFeedKey

instance (s : State) : Decidable (Shown s) := inferInstanceAs (Decidable (_ = _))

/-- A note that comes in follows the newest one on the page; the newest page that comes in is
not older than the newest note on the page, which has been rendered; and a tab is left only
after its notes were rendered. -/
def Orderly (s : State) : Action → Prop
  | .prepend id => Shown s → id ∈ s.notes ∨ (id ∈ s.server s.currentFeedKey ∧
      ∀ first ∈ s.notes.head?, [id, first] <:+: s.server s.currentFeedKey)
  | .resolve i => ∀ r ∈ s.requests i, r.kind = .head → r.key = s.currentFeedKey →
      s.notesFeedKeyRef = some r.key → s.notesRef = s.notes ∧
        ∀ first ∈ s.notes.head?, ∀ rows ∈ r.rows, ∀ newest ∈ rows.head?, first ≤ newest
  | .switchTab key => s.cache key = none → s.notesFeedKey ≠ some key
  | _ => True

instance (s : State) (a : Action) : Decidable (Orderly s a) := by
  cases a <;> simp only [Orderly] <;> infer_instance

end Seiran.HomePage
