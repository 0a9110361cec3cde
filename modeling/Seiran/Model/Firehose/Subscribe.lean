import Mathlib.Data.List.Sort
import Seiran.Framework.Run

/-!
# The subscribeRepos stream

The event log (`atp_repo_events`), the bus that commits are published on, and
one connection of `handle_subscribe_repos` (`sync.rs`), for a client that
connects again and again. An event is its id: a serial number, taken inside a
transaction that commits later (`try_apply_write`), and the `seq` of its frame.

The receiver of a connection is a `tokio` broadcast receiver: what is published
after it subscribed waits in its queue, and of more than
`ATP_EVENTS_CAPACITY` waiting events the oldest are dropped.
-/

namespace Seiran.Firehose

def ATP_EVENTS_CAPACITY : Nat := 1024

def BACKFILL_PAGE_SIZE : Nat := 500

/-- Where the handler is: before a page query, sending the rows of a page
(`final` if the page was not full), or forwarding the bus. -/
inductive Phase where
  | fetching
  | sending (rows : List Nat) (final : Bool)
  | live
deriving DecidableEq

structure Conn where
  /-- the cursor the client has connected with -/
  start : Nat
  /-- the id of the last row sent, or `start` -/
  cursor : Nat
  /-- the bus events that wait in the receiver -/
  queue : List Nat
  phase : Phase
  /-- the `seq`s of the frames sent, oldest first -/
  sent : List Nat
deriving DecidableEq

structure State where
  nextId : Nat
  /-- the ids of the open transactions -/
  inflight : List Nat
  /-- the rows of `atp_repo_events`, by id -/
  committed : List Nat
  /-- the committed events that are not published yet -/
  unpublished : List Nat
  /-- the cursor the client connects with next: the last `seq` it saw -/
  seen : Nat
  /-- the frames the client saw on connections that are closed -/
  received : List Nat
  conn : Option Conn
deriving DecidableEq

inductive Action where
  | begin
  | commit (i : Nat)
  | abort (i : Nat)
  | publish (i : Nat)
  | connect
  | fetchPage
  | fetchFails
  | sendRow
  | endPage
  | recv
  /-- the client saw the first `k` frames of the connection -/
  | disconnect (k : Nat)
deriving DecidableEq

/-- No event yet, and a client whose cursor is `cursor`. -/
def init (cursor : Nat) : State :=
  { nextId := 1, inflight := [], committed := [], unpublished := [], seen := cursor, received := [],
    conn := none }

/-- `find_events_after` -/
def findEventsAfter (committed : List Nat) (cursor limit : Nat) : List Nat :=
  (committed.filter (cursor < ·)).take limit

/-- A published event reaches the receiver. -/
def Conn.push (i : Nat) (c : Conn) : Conn :=
  let queue := c.queue ++ [i]
  { c with queue := queue.drop (queue.length - ATP_EVENTS_CAPACITY) }

/-- A subscription, before anything is sent. -/
def Conn.new (cursor : Nat) : Conn :=
  { start := cursor, cursor, queue := [], phase := .fetching, sent := [] }

/-- One page query of the backfill loop. -/
def Conn.fetchPage (committed : List Nat) (c : Conn) : Option Conn :=
  match c.phase with
  | .fetching =>
    let events := findEventsAfter committed c.cursor BACKFILL_PAGE_SIZE
    some { c with phase := .sending events (events.length < BACKFILL_PAGE_SIZE) }
  | _ => none

/-- A query that fails counts as an empty page (`unwrap_or_default`). -/
def Conn.fetchFails (c : Conn) : Option Conn :=
  match c.phase with
  | .fetching => some { c with phase := .sending [] true }
  | _ => none

def Conn.sendRow (c : Conn) : Option Conn :=
  match c.phase with
  | .sending (i :: rows) final =>
    some { c with cursor := i, phase := .sending rows final, sent := c.sent ++ [i] }
  | _ => none

/-- After the rows of a page: the next page, or the bus. -/
def Conn.endPage (c : Conn) : Option Conn :=
  match c.phase with
  | .sending [] final => some { c with phase := if final then .live else .fetching }
  | _ => none

/-- `rx.recv()`: the event is forwarded, whatever its `seq`. -/
def Conn.recv (c : Conn) : Option Conn :=
  match c.phase, c.queue with
  | .live, i :: queue => some { c with queue, sent := c.sent ++ [i] }
  | _, _ => none

/-- A step of the handler of the open connection. -/
def onConn (s : State) (f : Conn → Option Conn) : Option State :=
  s.conn.bind fun c => (f c).map fun c' => { s with conn := some c' }

def step (s : State) : Action → Option State
  | .begin => some { s with nextId := s.nextId + 1, inflight := s.nextId :: s.inflight }
  | .commit i =>
    if i ∈ s.inflight then
      some { s with
        inflight := s.inflight.filter (· ≠ i)
        committed := s.committed.orderedInsert (· ≤ ·) i
        unpublished := s.unpublished ++ [i] }
    else none
  | .abort i =>
    if i ∈ s.inflight then some { s with inflight := s.inflight.filter (· ≠ i) } else none
  | .publish i =>
    if i ∈ s.unpublished then
      some { s with
        unpublished := s.unpublished.filter (· ≠ i)
        conn := s.conn.map (Conn.push i) }
    else none
  | .connect => if s.conn = none then some { s with conn := some (Conn.new s.seen) } else none
  | .fetchPage => onConn s (Conn.fetchPage s.committed)
  | .fetchFails => onConn s Conn.fetchFails
  | .sendRow => onConn s Conn.sendRow
  | .endPage => onConn s Conn.endPage
  | .recv => onConn s Conn.recv
  | .disconnect k =>
    s.conn.map fun c =>
      { s with
        seen := ((c.sent.take k).getLast?).getD s.seen
        received := s.received ++ c.sent.take k
        conn := none }

def machine : Machine State Action := ⟨step⟩

/-! ## What a client is to get -/

/-- The `seq`s on the open connection increase. -/
def Increasing (s : State) : Prop := ∀ c ∈ s.conn, c.sent.Pairwise (· < ·)

/-- Every frame sent to the client, as far as it saw the closed connections. -/
def State.delivered (s : State) : List Nat := s.received ++ (s.conn.elim [] Conn.sent)

/-- The client connects anew, after it saw the first `k` frames of a connection
that is open. -/
def reconnect (s : State) (k : Nat) : List Action :=
  match s.conn with
  | none => [.connect]
  | some _ => [.disconnect k, .connect]

def Action.isBackfill : Action → Bool
  | .fetchPage | .sendRow | .endPage => true
  | _ => false

/-- Whenever the client connects anew, the backfill ends with every event
above `cursor` delivered that is committed now. -/
def CatchesUp (cursor : Nat) (s : State) : Prop :=
  ∀ k, ∃ as t, (∀ a ∈ as, a.isBackfill = true) ∧ machine.run s (reconnect s k ++ as) = some t ∧
    (∀ c ∈ t.conn, c.phase = .live) ∧ ∀ i ∈ s.committed, cursor < i → i ∈ t.delivered

/-- No id that is below `i`, or that is `i`, is still to come: neither taken by
an open transaction, nor committed and not published, nor waiting in the queue. -/
def Settled (s : State) (queue : List Nat) (i : Nat) : Prop :=
  (∀ j ∈ s.inflight, i < j) ∧ (∀ j ∈ s.unpublished, i < j) ∧ ∀ j ∈ queue, i < j

instance (s : State) (queue : List Nat) (i : Nat) : Decidable (Settled s queue i) :=
  inferInstanceAs (Decidable (_ ∧ _ ∧ _))

/-- A frame is sent only when it is settled; no query fails; and nothing is
published to a receiver whose queue is full. -/
def Conn.orderly (s : State) (c : Conn) : Action → Prop
  | .sendRow =>
    match c.phase with
    | .sending (i :: _) _ => Settled s c.queue i
    | _ => True
  | .recv =>
    match c.queue with
    | i :: queue => Settled s queue i
    | [] => True
  | .fetchFails => False
  | .publish _ => c.queue.length < ATP_EVENTS_CAPACITY
  | _ => True

instance (s : State) (c : Conn) (a : Action) : Decidable (c.orderly s a) := by
  cases a <;> simp only [Conn.orderly] <;> (try split) <;> infer_instance

def Orderly (s : State) (a : Action) : Prop := ∀ c ∈ s.conn, c.orderly s a

instance (s : State) (a : Action) : Decidable (Orderly s a) :=
  match h : s.conn with
  | none => .isTrue (by simp [Orderly, h])
  | some c => decidable_of_iff (c.orderly s a) (by simp [Orderly, h])

end Seiran.Firehose
