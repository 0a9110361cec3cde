import Seiran.Framework.Run

/-!
# Polling the followers of an account

`bsky_follower_poll.rs`, for one local account: what the AppView lists as its followers, the
rows of `follows` it is the target of, and `poll_user`, which a process at a time runs.

The AppView lists the newest follower first, by pages: a cursor says from where the list goes
on, and a page without one is the last. The list changes while a poll reads it. Rows come and
go by other ways, too: a local user follows by the API, and a follow arrives by ActivityPub.
-/

namespace Seiran.FollowerPoll

/-- A follower in the list of the AppView, with the number of the follow. -/
structure Entry where
  since : Nat
  follower : Nat
deriving DecidableEq

/-- `PAGE_LIMIT` -/
def pageLimit : Nat := 100

/-- `STEADY_STATE_MAX_PAGES` and `HARD_MAX_PAGES` -/
def maxPages (isBaselineDone : Bool) : Nat := if isBaselineDone then 20 else 1000

/-- `poll_user`, in the loop over the pages -/
structure Poll where
  isBaselineDone : Bool
  knownFollowerIds : List Nat
  pages : Nat
  cursor : Option Nat
  /-- what is left of the page -/
  followers : List Entry
  /-- there is no page after this one -/
  atEnd : Bool
  /-- the number of the next follow when the poll began -/
  start : Nat
deriving DecidableEq

structure State where
  /-- the list of the AppView -/
  feed : List Entry
  /-- the number of the next follow -/
  next : Nat
  /-- the rows of `follows` with the account as `target_actor_id` -/
  follows : List Nat
  /-- `bsky_followers_baseline_done_at` is set -/
  baselineDone : Bool
  poll : Option Poll
  /-- the followers that were notified -/
  notified : List Entry
  /-- `start` of the poll that set the baseline -/
  seeded : Option Nat

def init : State :=
  { feed := [], next := 0, follows := [], baselineDone := false, poll := none, notified := [],
    seeded := none }

inductive Action where
  /-- a follow of the account reaches the AppView -/
  | follow (f : Nat)
  | unfollow (f : Nat)
  /-- `INSERT INTO follows`, not by the poll -/
  | addRow (f : Nat)
  | deleteRow (f : Nat)
  /-- the baseline and the rows are read -/
  | start
  /-- `fetch_bsky_followers`; the page has `n` followers, and a cursor or not -/
  | fetch (n : Nat) (last : Bool)
  /-- the next follower of the page -/
  | next
  /-- the next follower of the page, where `find_by_did` is an error -/
  | skip
  /-- the end of the loop over the pages -/
  | finish
  /-- an error or the end of the process -/
  | fail
deriving DecidableEq

/-- The list from the cursor on -/
def older (feed : List Entry) (cursor : Option Nat) : List Entry :=
  feed.filter fun e => cursor.all (e.since < ·)

/-- `insert_accepted`: `ON CONFLICT DO NOTHING` -/
def insertRow (follows : List Nat) (f : Nat) : List Nat :=
  if f ∈ follows then follows else f :: follows

/-- After the loop: `mark_bsky_followers_baseline_done` -/
def ended (s : State) (p : Poll) : State :=
  if p.isBaselineDone then { s with poll := none }
  else { s with poll := none, baselineDone := true, seeded := some p.start }

def setPoll (s : State) (p : Poll) : State := { s with poll := some p }

def onPoll (s : State) (f : Poll → Option State) : Option State := s.poll.bind f

def step (s : State) : Action → Option State
  | .follow f =>
    if ∃ e ∈ s.feed, e.follower = f then none
    else some { s with feed := { since := s.next, follower := f } :: s.feed, next := s.next + 1 }
  | .unfollow f => some { s with feed := s.feed.filter (·.follower ≠ f) }
  | .addRow f => some { s with follows := insertRow s.follows f }
  | .deleteRow f => some { s with follows := s.follows.filter (· ≠ f) }
  | .start =>
    if s.poll = none then
      some (setPoll s {
        isBaselineDone := s.baselineDone, knownFollowerIds := s.follows, pages := 0,
        cursor := none, followers := [], atEnd := false, start := s.next })
    else none
  | .fetch n last => onPoll s fun p =>
    let rest := older s.feed p.cursor
    -- what the AppView may answer: a page is empty or without a cursor only where the list ends
    if p.followers = [] ∧ p.atEnd = false ∧ p.pages < maxPages p.isBaselineDone ∧
        n ≤ pageLimit ∧ (rest ≠ [] → 0 < n) ∧ (last = true → rest.length ≤ n) then
      let page := rest.take n
      some (setPoll s { p with
        pages := p.pages + 1
        cursor := (page.getLast?.map (·.since)).or p.cursor
        followers := page
        atEnd := last || page.isEmpty })
    else none
  | .next => onPoll s fun p =>
    match p.followers with
    | [] => none
    | f :: rest =>
      if f.follower ∈ p.knownFollowerIds then
        if p.isBaselineDone then some (ended s p)
        else some (setPoll s { p with followers := rest })
      else
        some (setPoll { s with
          follows := insertRow s.follows f.follower
          notified := if p.isBaselineDone then f :: s.notified else s.notified }
          { p with followers := rest })
  | .skip => onPoll s fun p =>
    match p.followers with
    | [] => none
    | _ :: rest => some (setPoll s { p with followers := rest })
  | .finish => onPoll s fun p =>
    if p.followers = [] ∧ (p.atEnd = true ∨ p.pages = maxPages p.isBaselineDone) then
      some (ended s p)
    else none
  | .fail => onPoll s fun _ => some { s with poll := none }

def machine : Machine State Action := ⟨step⟩

/-! ## What the polls are to find -/

def Recorded (s : State) (e : Entry) : Prop := e.follower ∈ s.follows

instance (s : State) (e : Entry) : Decidable (Recorded s e) :=
  inferInstanceAs (Decidable (_ ∈ _))

/-- No follower that has no row follows since before one that has. -/
def Gapless (s : State) : Prop :=
  ∀ x ∈ s.feed, ∀ y ∈ s.feed, x.since < y.since → Recorded s y → Recorded s x

instance (s : State) : Decidable (Gapless s) :=
  inferInstanceAs (Decidable (∀ x ∈ _, ∀ y ∈ _, _ → _ → _))

/-- There is a list of followers to keep up with, or one that is read for the first time. -/
def Watching (s : State) : Prop := s.baselineDone = true ∨ s.poll.isSome = true

instance (s : State) : Decidable (Watching s) := inferInstanceAs (Decidable (_ ∨ _))

/-- No step leaves a gap: a follower that has a row, or is on the page of a poll, is new in the
list only when all others have rows, no other way adds a row ahead of a follower without one, the
row of a follower stays, and a poll passes over no follower without a row, nor stops before one
after it added another. -/
def Orderly (s : State) : Action → Prop
  | .follow f => Watching s →
      (f ∈ s.follows ∨ ∃ p ∈ s.poll, ∃ e ∈ p.followers, e.follower = f) →
        ∀ x ∈ s.feed, Recorded s x
  | .addRow f => Watching s →
      ∀ y ∈ s.feed, y.follower = f → ∀ x ∈ s.feed, x.since < y.since → Recorded s x
  | .deleteRow f => Watching s →
      (∀ x ∈ s.feed, x.follower ≠ f) ∧ ∀ p ∈ s.poll, f ∉ p.knownFollowerIds
  | .skip => ∀ p ∈ s.poll, ∀ e ∈ p.followers.head?, Recorded s e
  | .finish => ∀ p ∈ s.poll, p.atEnd = true ∨
      ∀ x ∈ older s.feed p.cursor, Recorded s x
  | .fail => s.baselineDone = true → Gapless s
  | _ => True

instance (s : State) (f : Nat) :
    Decidable (f ∈ s.follows ∨ ∃ p ∈ s.poll, ∃ e ∈ p.followers, e.follower = f) :=
  inferInstanceAs (Decidable (_ ∨ _))

instance (s : State) (a : Action) : Decidable (Orderly s a) := by
  cases a <;> simp only [Orderly] <;> infer_instance

/-- `x` and `y` go on to follow, the row of `y` stays and no other way adds one of `x`, and no
poll passes over `y`. -/
def Undisturbed (x y : Entry) (s : State) : Action → Prop
  | .unfollow f => f ≠ x.follower ∧ f ≠ y.follower
  | .addRow f => f ≠ x.follower
  | .deleteRow f => f ≠ y.follower
  | .skip => ∀ p ∈ s.poll, p.followers.head? ≠ some y
  | _ => True

instance (x y : Entry) (s : State) (a : Action) : Decidable (Undisturbed x y s a) := by
  cases a <;> simp only [Undisturbed] <;> infer_instance

/-- The account has a follower when it is polled first, and gets another. -/
def twoPolls : List Action :=
  [.addRow 7, .follow 1, .start, .fetch 1 true, .next, .finish, .follow 2, .start, .fetch 1 false,
    .next, .fetch 1 true, .next]

/-- A local user follows the account after a remote one. -/
def overtaken : List Action :=
  [.follow 1, .start, .fetch 1 true, .next, .finish, .follow 2, .addRow 3, .follow 3]

/-- Polls that come to nothing -/
def twoMore : List Action := [.start, .fetch 3 true, .next, .start, .fetch 3 true, .next]

end Seiran.FollowerPoll
