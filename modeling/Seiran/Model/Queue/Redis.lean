import Seiran.Framework.Binary64
import Seiran.Framework.ZSet

/-!
# The Redis job queue

`RedisJobQueue` (`queue/redis.rs`) at the granularity of the commands and
scripts it sends, each of which is atomic. Scores are the integers that the
binary64 numbers stand for; every score that occurs is one.
-/

namespace Seiran.Queue

open Binary64

/-- Priorities (`queue/worker.rs`). -/
def CRITICAL : Int := 100
def HIGH : Int := 50
def NORMAL : Int := 10
def LOW : Int := 1

structure Envelope (J : Type) where
  seq : Nat
  priority : Int
  attempt : Nat
  job : J
deriving DecidableEq

/-- The JSON of a job, and the readers of an envelope: `serde_json::from_str`,
and `cjson.decode` with the priority and the sequence number it finds. -/
structure Codec (J : Type) where
  encodeJob : J → String
  fromStr : String → Option (Envelope J)
  cjsonDecode : String → Option (Int × Nat)

section

variable {J : Type} (C : Codec J)

/-- `serde_json::to_string` of the envelope. -/
def Codec.member (e : Envelope J) : String :=
  "\x7b\"seq\":" ++ toString e.seq ++ ",\"priority\":" ++ toString e.priority ++ ",\"attempt\":" ++
    toString e.attempt ++ ",\"job\":" ++ C.encodeJob e.job ++ "\x7d"

/-- Both readers read what is written. -/
structure Codec.Lawful : Prop where
  fromStr_member : ∀ e, C.fromStr (C.member e) = some e
  cjsonDecode_member : ∀ e, C.cjsonDecode (C.member e) = some (e.priority, e.seq)

end

/-- `-(priority as f64) * 1e15 + seq as f64`, here and in the script. -/
def readyScore (priority : Int) (seq : Nat) : Int :=
  roundInt (roundInt (-priority * 10 ^ 15) + roundInt seq)

/-- `PROMOTE_BATCH_LIMIT` -/
def promoteBatchLimit : Nat := 200

structure State where
  ready : ZSet
  delayed : ZSet
  seq : Nat

/-- `INCR`, with the error at the end of the 64-bit integers. -/
def nextSeq (s : State) : Option (Nat × State) :=
  if s.seq + 1 < 2 ^ 63 then some (s.seq + 1, { s with seq := s.seq + 1 }) else none

section

variable {J : Type} (C : Codec J)

/-- The `ZADD` of `push_ready`. -/
def addReady (e : Envelope J) (s : State) : State :=
  { s with ready := s.ready.zadd (readyScore e.priority e.seq) (C.member e) }

/-- The `ZADD` of `push_delayed`. -/
def addDelayed (e : Envelope J) (readyAtMs : Int) (s : State) : State :=
  { s with delayed := s.delayed.zadd (roundInt readyAtMs) (C.member e) }

/-- One round of the script; what does not decode ends it with an error. -/
def promoteMember (member : String) (s : State) : Option Unit × State :=
  match s.delayed.zrem member with
  | (false, delayed) => (some (), { s with delayed })
  | (true, delayed) =>
    match C.cjsonDecode member with
    | none => (none, { s with delayed })
    | some (priority, seq) =>
      (some (), { s with delayed, ready := s.ready.zadd (readyScore priority seq) member })

def promoteMembers : List ZEntry → State → State
  | [], s => s
  | x :: due, s =>
    match promoteMember C x.member s with
    | (none, s') => s'
    | (some (), s') => promoteMembers due s'

/-- `PROMOTE_DUE_LUA` -/
def promoteDue (nowMs : Int) (s : State) : State :=
  promoteMembers C (s.delayed.upTo nowMs promoteBatchLimit) s

/-- `push_ready` without anything in between. -/
def pushReady (job : J) (priority : Int) (attempt : Nat) (s : State) : State :=
  match nextSeq s with
  | none => s
  | some (seq, s') => addReady C { seq, priority, attempt, job } s'

/-- `BZPOPMIN` on the ready set; `none` if it times out. -/
def popReady (s : State) : Option (ZEntry × State) :=
  s.ready.popMin.map fun (x, ready) => (x, { s with ready })

/-- What `dequeue` returns, call after call, when nothing is added: a member
that does not decode is discarded. -/
def dequeued : Nat → State → List (Envelope J)
  | 0, _ => []
  | n + 1, s =>
    match popReady s with
    | none => []
    | some (x, s') =>
      match C.fromStr x.member with
      | some e => e :: dequeued n s'
      | none => dequeued n s'

/-- A queue without jobs, whose sequence has come to `seq`. -/
def State.start (seq : Nat) : State := ⟨.empty, .empty, seq⟩

/-- `enqueue` of each job in turn. -/
def enqueueAll (jobs : List (J × Int)) (s : State) : State :=
  jobs.foldl (fun s j => pushReady C j.1 j.2 0 s) s

end

end Seiran.Queue
