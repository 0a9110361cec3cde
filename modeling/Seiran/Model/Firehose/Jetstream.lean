import Seiran.Framework.Run

/-!
# The Jetstream consumer

`seiran-atp-repo/src/firehose.rs` and `jetstream_control.rs`: the cursor, the authors
that are wanted with the marker of their changes, and the connection, one statement at a
time. The events stand in the order of their `time_us`, and an event is its place there.
The service sends what follows the cursor, with or without the event at the cursor
itself, as long as it is of an author the connection asked for.
-/

namespace Seiran.Jetstream

variable {Did : Type} [DecidableEq Did]

/-- `wantedDids` of a connection; an empty list asks for everybody. -/
def asksFor (wantedDids : List Did) (did : Did) : Bool := wantedDids.isEmpty || wantedDids.contains did

/-- An open connection in the loop of `connect_and_process` -/
structure Connection (Did : Type) where
  wantedDids : List Did
  touchAtConnect : Option Nat
  /-- The next event that the service looks at -/
  position : Nat
  /-- The event whose message is processed -/
  current : Option Nat := none
  lastTime : Option Nat := none
deriving DecidableEq

/-- How far `connect_and_process` has come -/
inductive Phase (Did : Type) where
  | down
  | loadedCursor (cursor : Option Nat)
  | loadedWanted (cursor : Option Nat) (wantedDids : List Did)
  | loadedTouch (cursor : Option Nat) (wantedDids : List Did) (touch : Option Nat)
  | connected (conn : Connection Did)
deriving DecidableEq

structure State (Did : Type) where
  /-- The authors of the events -/
  events : List Did := []
  /-- The answer of `wanted_dids` -/
  wanted : List Did := []
  /-- `jetstream_wanted_dids_touch` -/
  touch : Option Nat := none
  /-- Who was wanted when that was written -/
  wantedAtTouch : List Did := []
  /-- `jetstream_cursor` -/
  cursor : Option Nat := none
  phase : Phase Did := .down
  /-- The spawned tasks, of which each saves one event -/
  tasks : List Nat := []
  /-- The events that are fully processed -/
  processed : List Nat := []
  /-- The events whose author was wanted then and is ever since -/
  owed : List Nat := []
deriving DecidableEq

inductive Action (Did : Type) where
  | emit (did : Did)
  /-- A relation that makes an author wanted, or the end of the last one -/
  | want (did : Did)
  | unwant (did : Did)
  /-- `touch_jetstream_wanted_dids` -/
  | touch
  | loadCursor (ok : Bool)
  | loadWanted (ok : Bool)
  | loadTouch (ok : Bool)
  | connect
  /-- The service passes over an event that the connection did not ask for. -/
  | passOver
  /-- A message arrives; the cursor is saved if the interval is over. -/
  | receive (save : Bool)
  /-- `process_message` comes to an end, with a task or without, or with an error. -/
  | processed
  | spawned
  | failed
  | endTask (event : Nat)
  | failTask (event : Nat)
  /-- The poll of the marker -/
  | poll
  /-- The connection breaks. -/
  | disconnect
  | stop
  | crash
deriving DecidableEq

section Steps

variable (inclusive : Bool)

/-- The first event that is sent from the cursor on: the one at the cursor, if the service
is `inclusive`, or the one after it -/
def resendFrom (cursor : Nat) : Nat := if inclusive then cursor else cursor + 1

/-- The connection, if no message is being processed -/
def State.idle (s : State Did) : Option (Connection Did) :=
  match s.phase with
  | .connected conn => if conn.current = none then some conn else none
  | _ => none

/-- The connection, and the event that is being processed -/
def State.busy (s : State Did) : Option (Connection Did × Nat) :=
  match s.phase with
  | .connected conn => conn.current.map fun event => (conn, event)
  | _ => none

/-- The end of `process_message` -/
def State.endMessage (s : State Did) (conn : Connection Did) (event : Nat) : State Did :=
  { s with phase := .connected { conn with current := none, lastTime := some event } }

def step (s : State Did) : Action Did → Option (State Did)
  | .emit did => some { s with
      events := s.events ++ [did]
      owed := if s.wanted.contains did then s.owed ++ [s.events.length] else s.owed }
  | .want did => some { s with wanted := s.wanted ++ [did] }
  | .unwant did => some { s with
      wanted := s.wanted.filter (· ≠ did)
      owed := s.owed.filter fun i => s.events[i]? ≠ some did }
  | .touch => some { s with
      touch := some (s.touch.elim 0 (· + 1))
      wantedAtTouch := s.wanted }
  | .loadCursor ok =>
    if s.phase = .down then some { s with phase := .loadedCursor (if ok then s.cursor else none) }
    else none
  | .loadWanted ok =>
    match s.phase with
    | .loadedCursor cursor =>
      some { s with phase := .loadedWanted cursor (if ok then s.wanted else []) }
    | _ => none
  | .loadTouch ok =>
    match s.phase with
    | .loadedWanted cursor wantedDids =>
      some { s with phase := .loadedTouch cursor wantedDids (if ok then s.touch else none) }
    | _ => none
  | .connect =>
    match s.phase with
    | .loadedTouch cursor wantedDids touch => some { s with
        phase := .connected {
          wantedDids
          touchAtConnect := touch
          position := cursor.elim s.events.length (resendFrom inclusive) } }
    | _ => none
  | .passOver => do
    let conn ← s.idle
    let did ← s.events[conn.position]?
    if asksFor conn.wantedDids did then none
    else some { s with phase := .connected { conn with position := conn.position + 1 } }
  | .receive save => do
    let conn ← s.idle
    let did ← s.events[conn.position]?
    if asksFor conn.wantedDids did then some { s with
      cursor := if save then some conn.position else s.cursor
      phase := .connected
        { conn with position := conn.position + 1, current := some conn.position } }
    else none
  | .processed => s.busy.map fun (conn, event) =>
      { s.endMessage conn event with processed := s.processed ++ [event] }
  | .spawned => s.busy.map fun (conn, event) =>
      { s.endMessage conn event with tasks := s.tasks ++ [event] }
  | .failed => s.busy.map fun (conn, event) => s.endMessage conn event
  | .endTask event =>
    if event ∈ s.tasks then
      some { s with tasks := s.tasks.erase event, processed := s.processed ++ [event] }
    else none
  | .failTask event =>
    if event ∈ s.tasks then some { s with tasks := s.tasks.erase event } else none
  | .poll => s.idle.map fun conn =>
      if conn.touchAtConnect = s.touch then s else { s with phase := .down }
  | .disconnect => s.idle.map fun _ => { s with phase := .down }
  | .stop => s.idle.map fun conn =>
      { s with cursor := conn.lastTime <|> s.cursor, phase := .down }
  | .crash => some { s with phase := .down, tasks := [] }

end Steps

def machine (inclusive : Bool) : Machine (State Did) (Action Did) := ⟨step inclusive⟩

end Seiran.Jetstream
