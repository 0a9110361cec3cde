import Mathlib.Algebra.Group.Nat.Defs
import Mathlib.Data.List.Basic

/-!
# SHA-256

The hash function of FIPS 180-4 on a list of bytes. Words are numbers below
`2 ^ 32`; the last sixteen words of the message schedule are its window.
-/

namespace Seiran.Sha256

def W : Nat := 2 ^ 32

def rotr (x n : Nat) : Nat := x >>> n ||| (x <<< (32 - n)) % W

def smallSigma0 (x : Nat) : Nat := rotr x 7 ^^^ rotr x 18 ^^^ x >>> 3
def smallSigma1 (x : Nat) : Nat := rotr x 17 ^^^ rotr x 19 ^^^ x >>> 10
def bigSigma0 (x : Nat) : Nat := rotr x 2 ^^^ rotr x 13 ^^^ rotr x 22
def bigSigma1 (x : Nat) : Nat := rotr x 6 ^^^ rotr x 11 ^^^ rotr x 25

def ch (x y z : Nat) : Nat := (x &&& y) ^^^ ((W - 1 - x) &&& z)
def maj (x y z : Nat) : Nat := (x &&& y) ^^^ (x &&& z) ^^^ (y &&& z)

structure Regs where
  a : Nat
  b : Nat
  c : Nat
  d : Nat
  e : Nat
  f : Nat
  g : Nat
  h : Nat

def Regs.init : Regs :=
  ⟨0x6a09e667, 0xbb67ae85, 0x3c6ef372, 0xa54ff53a, 0x510e527f, 0x9b05688c, 0x1f83d9ab,
    0x5be0cd19⟩

def Regs.add (r s : Regs) : Regs :=
  ⟨(r.a + s.a) % W, (r.b + s.b) % W, (r.c + s.c) % W, (r.d + s.d) % W, (r.e + s.e) % W,
    (r.f + s.f) % W, (r.g + s.g) % W, (r.h + s.h) % W⟩

def Regs.words (r : Regs) : List Nat := [r.a, r.b, r.c, r.d, r.e, r.f, r.g, r.h]

def K : List Nat :=
  [0x428a2f98, 0x71374491, 0xb5c0fbcf, 0xe9b5dba5, 0x3956c25b, 0x59f111f1, 0x923f82a4, 0xab1c5ed5,
    0xd807aa98, 0x12835b01, 0x243185be, 0x550c7dc3, 0x72be5d74, 0x80deb1fe, 0x9bdc06a7, 0xc19bf174,
    0xe49b69c1, 0xefbe4786, 0x0fc19dc6, 0x240ca1cc, 0x2de92c6f, 0x4a7484aa, 0x5cb0a9dc, 0x76f988da,
    0x983e5152, 0xa831c66d, 0xb00327c8, 0xbf597fc7, 0xc6e00bf3, 0xd5a79147, 0x06ca6351, 0x14292967,
    0x27b70a85, 0x2e1b2138, 0x4d2c6dfc, 0x53380d13, 0x650a7354, 0x766a0abb, 0x81c2c92e, 0x92722c85,
    0xa2bfe8a1, 0xa81a664b, 0xc24b8b70, 0xc76c51a3, 0xd192e819, 0xd6990624, 0xf40e3585, 0x106aa070,
    0x19a4c116, 0x1e376c08, 0x2748774c, 0x34b0bcb5, 0x391c0cb3, 0x4ed8aa4a, 0x5b9cca4f, 0x682e6ff3,
    0x748f82ee, 0x78a5636f, 0x84c87814, 0x8cc70208, 0x90befffa, 0xa4506ceb, 0xbef9a3f7, 0xc67178f2]

/-- The window without its first word, and with the word after its last. -/
def slide (w : List Nat) : List Nat :=
  w.tail ++
    [(smallSigma1 (w.getD 14 0) + w.getD 9 0 + smallSigma0 (w.getD 1 0) + w.getD 0 0) % W]

def round (r : Regs) (k w : Nat) : Regs :=
  let t1 := r.h + bigSigma1 r.e + ch r.e r.f r.g + k + w
  let t2 := bigSigma0 r.a + maj r.a r.b r.c
  ⟨(t1 + t2) % W, r.a, r.b, r.c, (r.d + t1) % W, r.e, r.f, r.g⟩

def rounds : List Nat → Regs → List Nat → Regs
  | [], r, _ => r
  | k :: ks, r, w => rounds ks (round r k (w.getD 0 0)) (slide w)

def compress (r : Regs) (block : List Nat) : Regs := r.add (rounds K r block)

def word : List UInt8 → Nat
  | bytes => bytes.foldl (fun n b => n * 256 + b.toNat) 0

/-- The first `n` groups of `k` elements. -/
def groups {α : Type} (k : Nat) : Nat → List α → List (List α)
  | 0, _ => []
  | n + 1, xs => xs.take k :: groups k n (xs.drop k)

def bigEndian (len n : Nat) : List UInt8 :=
  ((List.range len).map fun i => UInt8.ofNat (n >>> (8 * i))).reverse

def pad (bytes : List UInt8) : List UInt8 :=
  bytes ++ 0x80 :: List.replicate ((119 - bytes.length % 64) % 64) 0 ++
    bigEndian 8 (8 * bytes.length)

def sha256 (bytes : List UInt8) : Vector UInt8 32 :=
  let padded := pad bytes
  let words := (groups 4 (padded.length / 4) padded).map word
  let r := (groups 16 (words.length / 16) words).foldl compress .init
  let out := r.words.flatMap (bigEndian 4)
  Vector.ofFn fun i => out.getD i 0

example : (sha256 [97, 98, 99]).toList =
    [186, 120, 22, 191, 143, 1, 207, 234, 65, 65, 64, 222, 93, 174, 34, 35, 176, 3, 97, 163, 150,
      23, 122, 156, 180, 16, 255, 97, 242, 0, 21, 173] := by decide

end Seiran.Sha256
