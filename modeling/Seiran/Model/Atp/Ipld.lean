import Mathlib.Data.List.Basic

/-!
# IPLD values, CIDs and DAG-CBOR

The data model of `ipld_core`, and what the repository code takes from
third-party crates: SHA-256 (`sha2`) and the DAG-CBOR encoder and decoder
(`serde_ipld_dagcbor`). Those are the fields of `Codec`; what a result needs of
them is a hypothesis of that result.
-/

namespace Seiran.Atp

abbrev Bytes := List UInt8

/-- A CID: its version, the codec of its content, and a multihash (the code of
the hash function and the digest). -/
structure Cid where
  version : Nat
  codec : Nat
  hashCode : Nat
  digest : Bytes
deriving DecidableEq, Repr

/-- An IPLD value. A map is the list of its entries (in the source a
`BTreeMap`), a float its 64 bits. -/
inductive Ipld where
  | null
  | bool (b : Bool)
  | integer (i : Int)
  | float (bits : UInt64)
  | string (s : String)
  | bytes (b : Bytes)
  | list (items : List Ipld)
  | map (entries : List (String × Ipld))
  | link (cid : Cid)

/-- The third-party code the repository is built on. -/
structure Codec where
  sha256 : Bytes → Vector UInt8 32
  toVec : Ipld → Except String Bytes
  fromSlice : Bytes → Except String Ipld

inductive RepoError where
  | cbor (message : String)
  | key (message : String)
  | cidParse (message : String)
deriving DecidableEq, Repr

/-- CIDv1 (codec `dag-cbor`, hash `sha2-256`) of a DAG-CBOR block. -/
def cidFromDagcbor (C : Codec) (cbor : Bytes) : Cid :=
  { version := 1, codec := 0x71, hashCode := 0x12, digest := (C.sha256 cbor).toList }

/-- The UTF-8 bytes of a string (`str::as_bytes`). -/
def asBytes (s : String) : Bytes := s.toByteArray.data.toList

/-- `String::from_utf8`. -/
def fromUtf8 (b : Bytes) : Option String := String.fromUTF8? ⟨b.toArray⟩

@[simp] theorem fromUtf8_asBytes (s : String) : fromUtf8 (asBytes s) = some s := by
  have h : (⟨(asBytes s).toArray⟩ : ByteArray) = s.toByteArray := by simp [asBytes]
  have hv : (⟨(asBytes s).toArray⟩ : ByteArray).IsValidUTF8 := h ▸ s.isValidUTF8
  simp only [fromUtf8, String.fromUTF8?, hv, ↓reduceDIte, Option.some.injEq]
  exact String.toByteArray_inj.mp h

end Seiran.Atp
