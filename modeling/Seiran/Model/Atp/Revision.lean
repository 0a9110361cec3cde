import Seiran.Framework.Digits
import Seiran.Framework.Run
import Seiran.Model.Atp.ApplyWrite

/-!
# Revisions

`generate_tid` (`atp/repo.rs`) makes the `rev` of each commit from a reading of
the clock and ten random bits. `machine` is the machine of concurrent commits
with a clock that never goes back and does not have to move between two
readings.
-/

namespace Seiran.Revision

open ApplyWrite

/-- `S32_CHARS` -/
def S32_CHARS : List Char := "234567abcdefghijklmnopqrstuvwxyz".toList

/-- What `generate_tid` reads: microseconds, and a random number of 32 bits. -/
structure Reading where
  tsUs : Nat
  random : Nat
deriving DecidableEq

def Reading.clockId (r : Reading) : Nat := r.random &&& 0x3FF

/-- `(ts_us << 10) | clock_id`, in a `u64` -/
def Reading.value (r : Reading) : Nat := ((r.tsUs <<< 10) % 2 ^ 64) ||| r.clockId

/-- The loop of `generate_tid`, which fills the characters from the last one. -/
def tidChars : (count : Nat) → (v : Nat) → List Char
  | 0, _ => []
  | count + 1, v => tidChars count (v >>> 5) ++ [S32_CHARS.getD (v &&& 0x1F) '2']

def generateTid (r : Reading) : String := String.ofList (tidChars 13 r.value)

structure State where
  repo : ApplyWrite.State
  /-- the clock, in microseconds -/
  now : Nat

inductive Action where
  | tick (us : Nat)
  | write (i : Nat) (random : Nat)
  | other (a : ApplyWrite.Action)

/-- The steps of `try_apply_write` that make a commit: they read the clock. -/
def isWrite : ApplyWrite.Action → Bool
  | .on _ (.write _) => true
  | _ => false

def step (E : Env) (s : State) : Action → Option State
  | .tick us => some { s with now := s.now + us }
  | .write i random =>
    ((ApplyWrite.step E s.repo (.on i (.write (generateTid ⟨s.now, random⟩))))).map
      fun repo => { s with repo }
  | .other a =>
    if isWrite a then none else (ApplyWrite.step E s.repo a).map fun repo => { s with repo }

def machine (E : Env) : Machine State Action := ⟨step E⟩

end Seiran.Revision
