import Mathlib.Data.List.Sort
import Seiran.Framework.Digits
import Seiran.Framework.Sha256
import Seiran.Proof.Atp.Car

/-!
# The formats in which values are written

Concrete functions for what `Codec` and the text of CIDs and bytes leave open,
for the examples: DAG-CBOR as it is written (no floats), SHA-256, CIDs in
base 32 and bytes in base 64.

* `base64Decode_base64Encode`, `cidFromStr_cidToString`: what is read back from
  its text.
-/

namespace Seiran.Atp

/-! ## DAG-CBOR -/

/-- The first bytes of an item: its major type and its argument. -/
def cborHead (major n : Nat) : Bytes :=
  let initial (info : Nat) : UInt8 := UInt8.ofNat (32 * major + info)
  if n < 24 then [initial n]
  else if n < 2 ^ 8 then initial 24 :: Sha256.bigEndian 1 n
  else if n < 2 ^ 16 then initial 25 :: Sha256.bigEndian 2 n
  else if n < 2 ^ 32 then initial 26 :: Sha256.bigEndian 4 n
  else initial 27 :: Sha256.bigEndian 8 n

/-- Shorter keys first, keys of one length in their order. -/
def keyLe (x y : String × Bytes) : Prop :=
  (asBytes x.1).length < (asBytes y.1).length ∨
    (asBytes x.1).length = (asBytes y.1).length ∧ x.1 ≤ y.1

instance : DecidableRel keyLe := fun _ _ => inferInstanceAs (Decidable (_ ∨ _))

def cborString (s : String) : Bytes := cborHead 3 (asBytes s).length ++ asBytes s

/-- The entries of a map in the order of their keys. -/
def cborEntries (entries : List (String × Bytes)) : Bytes :=
  cborHead 5 entries.length ++
    (entries.insertionSort keyLe).flatMap fun x => cborString x.1 ++ x.2

mutual

def dagCbor : Ipld → Except String Bytes
  | .null => .ok [0xf6]
  | .bool b => .ok [if b then 0xf5 else 0xf4]
  | .integer i =>
    if 0 ≤ i then
      if i < 2 ^ 64 then .ok (cborHead 0 i.toNat) else .error "integer out of range"
    else if -2 ^ 64 ≤ i then .ok (cborHead 1 (-1 - i).toNat)
    else .error "integer out of range"
  | .float _ => .error "float"
  | .string s => .ok (cborString s)
  | .bytes b => .ok (cborHead 2 b.length ++ b)
  | .list items => (dagCborItems items).map fun bs => cborHead 4 bs.length ++ bs.flatten
  | .map entries => (dagCborEntries entries).map cborEntries
  | .link cid =>
    let bytes := 0 :: plainCidCodec.toBytes cid
    .ok (0xd8 :: 42 :: cborHead 2 bytes.length ++ bytes)

def dagCborItems : List Ipld → Except String (List Bytes)
  | [] => .ok []
  | x :: xs => do return (← dagCbor x) :: (← dagCborItems xs)

def dagCborEntries : List (String × Ipld) → Except String (List (String × Bytes))
  | [] => .ok []
  | (k, v) :: xs => do return (k, ← dagCbor v) :: (← dagCborEntries xs)

end

example : dagCbor (carHeader (sampleCid (List.replicate 32 7))) =
    .ok ([162, 101, 114, 111, 111, 116, 115, 129, 216, 42, 88, 37, 0, 1, 113, 18, 32] ++
      List.replicate 32 7 ++ [103, 118, 101, 114, 115, 105, 111, 110, 1]) := by decide

/-- A codec that reads nothing. -/
def writer : Codec where
  sha256 := Sha256.sha256
  toVec := dagCbor
  fromSlice _ := .error "unsupported"

/-! ## Bytes as text -/

def base32 : List Char := "abcdefghijklmnopqrstuvwxyz234567".toList

/-- The alphabet of base 64 that is safe in URLs. -/
def base64 : List Char :=
  "ABCDEFGHIJKLMNOPQRSTUVWXYZabcdefghijklmnopqrstuvwxyz0123456789-_".toList

theorem idxOf_base32 (d : Nat) (h : d < 2 ^ 5) : base32.idxOf (letter base32 d) = d := by
  have hall : ∀ i : Fin (2 ^ 5), base32.idxOf (letter base32 i) = i := by decide
  exact hall ⟨d, h⟩

set_option maxRecDepth 1000 in
theorem idxOf_base64 (d : Nat) (h : d < 2 ^ 6) : base64.idxOf (letter base64 d) = d := by
  have hall : ∀ i : Fin (2 ^ 6), base64.idxOf (letter base64 i) = i := by decide
  exact hall ⟨d, h⟩

def base64Encode (bytes : Bytes) : String := String.ofList (encodeBits 6 base64 bytes)

def base64Decode (s : String) : Bytes := decodeBits 6 base64 s.toList

theorem base64Decode_base64Encode (bytes : Bytes) : base64Decode (base64Encode bytes) = bytes := by
  rw [base64Decode, base64Encode, String.toList_ofList,
    decodeBits_encodeBits (by decide) (by decide) idxOf_base64]

/-- `b` and the bytes of the CID in base 32. -/
def cidToString (cid : Cid) : String :=
  String.ofList ('b' :: encodeBits 5 base32 (plainCidCodec.toBytes cid))

def cidFromStr (s : String) : Option Cid :=
  match s.toList with
  | 'b' :: text =>
    let bytes := decodeBits 5 base32 text
    match plainCidCodec.readBytes bytes with
    | .ok (cid, read) => if read = bytes.length then some cid else none
    | .error _ => none
  | _ => none

theorem cidFromStr_cidToString {cid : Cid} (h : ReadsBack plainCidCodec cid) :
    cidFromStr (cidToString cid) = some cid := by
  have hread := h []
  rw [List.append_nil] at hread
  unfold cidToString cidFromStr
  simp only [String.toList_ofList,
    decodeBits_encodeBits (by decide : 0 < 5) (by decide) idxOf_base32, hread, ↓reduceIte]

theorem readsBack_cidFromDagcbor (C : Codec) (cbor : Bytes) :
    ReadsBack plainCidCodec (cidFromDagcbor C cbor) :=
  readsBack_plainCidCodec (by simp [cidFromDagcbor]) (by simp [cidFromDagcbor])
    (by simp [cidFromDagcbor]) (by simp [cidFromDagcbor])

end Seiran.Atp
