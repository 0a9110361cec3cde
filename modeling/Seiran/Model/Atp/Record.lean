import Seiran.Framework.Binary64
import Seiran.Framework.Json
import Seiran.Model.Atp.Ipld

/-!
# Records as JSON

`ipld_to_json`, `json_to_ipld`, `decode_dagcbor_to_json` and
`encode_generic_record` (`atp/repo.rs`). A record that is taken over from
another PDS is decoded to JSON and encoded again
(`import_staged_record`, `jobs/at_migration.rs`).
-/

namespace Seiran.Record

open Atp

/-- Third-party code: DAG-CBOR, CIDs as text, and base 64 (URL-safe, no padding). -/
structure Env where
  codec : Codec
  cidToString : Cid → String
  cidFromStr : String → Except String Cid
  base64Encode : Bytes → String
  base64Decode : String → Except String Bytes

variable (E : Env)

/-! ## IPLD to JSON -/

/-- `json!(f)`: a number that is not finite is written as `null`. -/
def floatToJson (bits : UInt64) : Json :=
  if Binary64.isFinite bits then .num (.float bits) else .null

mutual

/-- `none` if it panics: `json!(i)` unwraps. -/
def ipldToJson : Ipld → Option Json
  | .null => some .null
  | .bool b => some (.bool b)
  | .integer i => (Number.ofInt i).map .num
  | .float bits => some (floatToJson bits)
  | .string s => some (.str s)
  | .bytes b => some (.obj [("$bytes", .str (E.base64Encode b))])
  | .list items => (ipldItemsToJson items).map .arr
  | .map entries => (ipldEntriesToJson entries).map .obj
  | .link cid => some (.obj [("$link", .str (E.cidToString cid))])

def ipldItemsToJson : List Ipld → Option (List Json)
  | [] => some []
  | x :: xs => do
    let j ← ipldToJson x
    let js ← ipldItemsToJson xs
    return j :: js

def ipldEntriesToJson : List (String × Ipld) → Option (List (String × Json))
  | [] => some []
  | (k, x) :: xs => do
    let j ← ipldToJson x
    let js ← ipldEntriesToJson xs
    return (k, j) :: js

end

/-! ## JSON to IPLD -/

/-- A number outside `i64` is read as `f64`. -/
def numberToIpld (n : Number) : Ipld :=
  match n.asI64 with
  | some i => .integer i
  | none =>
    match n with
    | .posInt n => .float (Binary64.ofNat64 n)
    -- an `i64` has been read above
    | .negInt i => .integer i
    | .float bits => .float bits

/-- `o.get(key)` is a string, and there is no other entry. -/
def sentinel {α : Type} (key : String) (asStr : α → Option String) (o : List (String × α)) :
    Option String :=
  match o with
  | [(k, v)] => if k = key then asStr v else none
  | _ => none

def Json.asStr : Json → Option String
  | .str s => some s
  | _ => none

mutual

def jsonToIpld : Json → Except RepoError Ipld
  | .null => .ok .null
  | .bool b => .ok (.bool b)
  | .num n => .ok (numberToIpld n)
  | .str s => .ok (.string s)
  | .arr items => (jsonItemsToIpld items).map .list
  | .obj o =>
    match sentinel "$link" Json.asStr o with
    | some link =>
      match E.cidFromStr link with
      | .ok cid => .ok (.link cid)
      | .error e => .error (.cidParse e)
    | none =>
      match sentinel "$bytes" Json.asStr o with
      | some b64 =>
        match E.base64Decode b64 with
        | .ok b => .ok (.bytes b)
        | .error e => .error (.cbor ("$bytes デコード失敗: " ++ e))
      | none => (jsonEntriesToIpld o).map fun entries => .map (SortedMap.ofEntries entries)

def jsonItemsToIpld : List Json → Except RepoError (List Ipld)
  | [] => .ok []
  | x :: xs => do
    let v ← jsonToIpld x
    let vs ← jsonItemsToIpld xs
    return v :: vs

def jsonEntriesToIpld : List (String × Json) → Except RepoError (List (String × Ipld))
  | [] => .ok []
  | (k, x) :: xs => do
    let v ← jsonToIpld x
    let vs ← jsonEntriesToIpld xs
    return (k, v) :: vs

end

/-! ## Records -/

/-- `none` if it panics. -/
def decodeDagcborToJson (cbor : Bytes) : Option (Except RepoError Json) :=
  match E.codec.fromSlice cbor with
  | .ok ipld => (ipldToJson E ipld).map .ok
  | .error e => some (.error (.cbor e))

def encodeGenericRecord (value : Json) : Except RepoError (Bytes × Cid) := do
  let ipld ← jsonToIpld E value
  match E.codec.toVec ipld with
  | .ok cbor => return (cbor, cidFromDagcbor E.codec cbor)
  | .error e => throw (.cbor e)

/-- A record is decoded and encoded again; `none` if that panics. -/
def reencode (cbor : Bytes) : Option (Except RepoError (Bytes × Cid)) :=
  (decodeDagcborToJson E cbor).map fun
    | .ok value => encodeGenericRecord E value
    | .error e => .error e

end Seiran.Record
