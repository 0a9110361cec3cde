import Seiran.Model.Atp.Mst

/-!
# CAR files and commit blocks

`create_commit`, `encode_car` (`atp/repo.rs`), `decode_car` (`atp/car.rs`) and
`decode_repo_records` (`atp/mst_walk.rs`). Reading consumes its input, so the
bytes that are left stand for `data` and `pos`.
-/

namespace Seiran.Atp

/-- The bytes of a CID (`cid` crate). `readBytes` also gives the number of
bytes it has read. -/
structure CidCodec where
  toBytes : Cid → Bytes
  readBytes : Bytes → Except String (Cid × Nat)

/-! ## Commits -/

structure SignedCommit where
  data : Cid
  did : String
  prev : Option Cid
  rev : String
  sig : Bytes
  version : Nat
deriving DecidableEq

/-- The `UnsignedCommit` with the same fields. -/
def SignedCommit.unsigned (c : SignedCommit) : Ipld :=
  .map [("data", .link c.data), ("did", .string c.did), ("prev", linkOrNull c.prev),
    ("rev", .string c.rev), ("version", .integer c.version)]

def SignedCommit.toIpld (c : SignedCommit) : Ipld :=
  .map [("data", .link c.data), ("did", .string c.did), ("prev", linkOrNull c.prev),
    ("rev", .string c.rev), ("sig", .bytes c.sig), ("version", .integer c.version)]

/-- `serde_ipld_dagcbor::to_vec` with its error mapped. -/
def toCbor (C : Codec) (v : Ipld) : Except RepoError Bytes :=
  match C.toVec v with
  | .error e => .error (.cbor e)
  | .ok cbor => .ok cbor

/-- `sign` is the low-S P-256 signature with the key of the actor. -/
def createCommit (C : Codec) (sign : Bytes → Bytes) (did rev : String) (mstRoot : Cid)
    (prev : Option Cid) : Except RepoError (Cid × Bytes) := do
  let commit : SignedCommit := { data := mstRoot, did, prev, rev, sig := [], version := 3 }
  let unsignedCbor ← toCbor C commit.unsigned
  let commitCbor ← toCbor C { commit with sig := sign unsignedCbor }.toIpld
  return (cidFromDagcbor C commitCbor, commitCbor)

/-! ## Writing a CAR file -/

/-- The loop of `encode_uvarint`; a `u64` takes at most ten rounds. -/
def encodeUvarintLoop : Nat → Nat → Bytes
  | 0, _ => []
  | rounds + 1, n =>
    let byte := n % 128
    let n := n / 128
    if n = 0 then [UInt8.ofNat byte]
    else UInt8.ofNat (byte + 128) :: encodeUvarintLoop rounds n

def encodeUvarint (n : Nat) : Bytes := encodeUvarintLoop 10 n

def carHeader (rootCid : Cid) : Ipld :=
  .map [("roots", .list [.link rootCid]), ("version", .integer 1)]

/-- `varint(cid_len + block_len) + cid_raw_bytes + block_bytes` -/
def carSection (B : CidCodec) (block : Cid × Bytes) : Bytes :=
  let cidBytes := B.toBytes block.1
  encodeUvarint (cidBytes.length + block.2.length) ++ cidBytes ++ block.2

def encodeCar (C : Codec) (B : CidCodec) (rootCid : Cid) (blocks : Blocks) :
    Except RepoError Bytes := do
  let headerCbor ← toCbor C (carHeader rootCid)
  return encodeUvarint headerCbor.length ++ headerCbor ++ blocks.flatMap (carSection B)

/-! ## Reading it -/

def MAX_CAR_SIZE : Nat := 512 * 1024 * 1024
def MAX_BLOCK_SIZE : Nat := 16 * 1024 * 1024
def MAX_HEADER_SIZE : Nat := 1024 * 1024

structure CarFile where
  roots : List Cid
  blocks : Blocks
deriving DecidableEq

/-- The loop of `read_uvarint`. -/
def readUvarintLoop (result shift : Nat) : Bytes → Except CarError (Nat × Bytes)
  | [] => .error .truncated
  | byte :: rest =>
    -- `((byte & 0x7F) as u64) << shift`
    let result := result ||| ((byte.toNat % 128) <<< shift) % 2 ^ 64
    if byte.toNat < 128 then .ok (result, rest)
    else if 64 ≤ shift + 7 then .error .invalidVarint
    else readUvarintLoop result (shift + 7) rest

def readUvarint (data : Bytes) : Except CarError (Nat × Bytes) := readUvarintLoop 0 0 data

/-- `data.get(pos..pos + len)`, and what comes after it. -/
def getBytes (data : Bytes) (len : Nat) : Except CarError (Bytes × Bytes) :=
  if len ≤ data.length then .ok (data.take len, data.drop len) else .error .truncated

def rootOf : Ipld → Except CarError Cid
  | .link cid => .ok cid
  | _ => .error (.header "roots要素がCIDリンクではありません")

def extractRoots : Ipld → Except CarError (List Cid)
  | .map map =>
    match map.lookup "roots" with
    | some (.list items) => items.mapM rootOf
    | _ => .error (.header "rootsフィールドがありません")
  | _ => .error (.header "ヘッダーがMap型ではありません")

/-- One section of the file: its block, and the bytes after it. -/
def readSection (B : CidCodec) (data : Bytes) : Except CarError ((Cid × Bytes) × Bytes) := do
  let (entryLen, data) ← readUvarint data
  if MAX_BLOCK_SIZE < entryLen then throw (.blockTooLarge MAX_BLOCK_SIZE)
  let (entryBytes, data) ← getBytes data entryLen
  let (cid, cidLen) ← match B.readBytes entryBytes with
    | .ok r => Except.ok r
    | .error e => .error (.cid e)
  if entryBytes.length < cidLen then throw .truncated
  return ((cid, entryBytes.drop cidLen), data)

/-- The sections up to the end of the file; each takes at least one byte, so
the length of the input is enough rounds. -/
def readSections (B : CidCodec) : Nat → Bytes → Except CarError Blocks
  | 0, _ => .ok []
  | rounds + 1, data =>
    if data.isEmpty then .ok []
    else do
      let (block, data) ← readSection B data
      return block :: (← readSections B rounds data)

def decodeCar (C : Codec) (B : CidCodec) (data : Bytes) : Except CarError CarFile := do
  if MAX_CAR_SIZE < data.length then throw (.tooLarge MAX_CAR_SIZE)
  if data.isEmpty then throw .empty
  let (headerLen, data) ← readUvarint data
  if MAX_HEADER_SIZE < headerLen then throw (.blockTooLarge MAX_HEADER_SIZE)
  let (headerBytes, data) ← getBytes data headerLen
  let headerIpld ← match C.fromSlice headerBytes with
    | .ok v => Except.ok v
    | .error e => .error (.header e)
  let roots ← extractRoots headerIpld
  let blocks ← readSections B data.length data
  return { roots, blocks }

/-! ## The records of a repository -/

/-- `split_once('/')` -/
def splitOnceSlash : List Char → Option (List Char × List Char)
  | [] => none
  | c :: cs => if c = '/' then some ([], cs) else (splitOnceSlash cs).map fun p => (c :: p.1, p.2)

def splitRecordKey (key : String) : Except CarError (String × String) :=
  match splitOnceSlash key.toList with
  | some (collection, rkey) => .ok (String.ofList collection, String.ofList rkey)
  | none => .error (.malformedKey key)

structure DecodedRecord where
  collection : String
  rkey : String
  cid : Cid
  bytes : Bytes
deriving DecidableEq

def decodedRecord (leaf : MstLeaf) : Except CarError DecodedRecord := do
  let (collection, rkey) ← splitRecordKey leaf.key
  return { collection, rkey, cid := leaf.cid, bytes := leaf.bytes }

/-- The root of the tree of a commit block. -/
def commitData (C : Codec) (commitBytes : Bytes) : Except CarError Cid := do
  let commit ← match C.fromSlice commitBytes with
    | .ok v => Except.ok v
    | .error e => .error (.node e)
  let commitMap ← ipldMap commit "commit"
  match commitMap.lookup "data" with
  | some (.link cid) => return cid
  | _ => throw (.node "commitにdataフィールドがありません")

def decodeRepoRecords (C : Codec) (B : CidCodec) (carBytes : Bytes) :
    Except CarError (List DecodedRecord) := do
  let car ← decodeCar C B carBytes
  let root ← match car.roots with
    | root :: _ => Except.ok root
    | [] => .error .empty
  let blocks := blocksToMap car.blocks
  let commitBytes ← getBlock blocks root
  let mstRoot ← commitData C commitBytes
  let leaves ← walkMst C blocks mstRoot
  leaves.mapM decodedRecord

end Seiran.Atp
