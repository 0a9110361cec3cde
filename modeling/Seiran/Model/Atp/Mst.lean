import Mathlib.Algebra.Group.Nat.Defs
import Seiran.Framework.CommonPrefix
import Seiran.Model.Atp.Ipld

/-!
# The Merkle search tree of a repository

`buildMst` (`atp/repo.rs`) builds the tree of a key list, `walkMst`
(`atp/mst_walk.rs`) lists the records of a tree given by its blocks. The height
of a key is the number of leading `a`s of the base32 text of its SHA-256; the
keys of the highest layer are in the root node, those between two of them in
the subtree between them.
-/

namespace Seiran.Atp

/-! ## The layer of a key -/

/-- The bits of a byte, most significant first. -/
def bitsOf (b : UInt8) : List Bool := (List.range 8).map fun i => b.toNat.testBit (7 - i)

/-- The value of a bit list, most significant first. -/
def bitsValue (bits : List Bool) : Nat := bits.foldl (fun n b => 2 * n + b.toNat) 0

/-- The 5-bit groups of a bit list, the last one filled up with zeros. -/
def base32Groups : List Bool → List Nat
  | [] => []
  | a :: b :: c :: d :: e :: rest => bitsValue [a, b, c, d, e] :: base32Groups rest
  | short => [bitsValue (short ++ List.replicate (5 - short.length) false)]

def rfc4648Alphabet : List Char := "ABCDEFGHIJKLMNOPQRSTUVWXYZ234567".toList

/-- `base32::encode` with the RFC 4648 alphabet, without padding. -/
def base32Encode (bytes : Bytes) : List Char :=
  (base32Groups (bytes.flatMap bitsOf)).map fun g => rfc4648Alphabet.getD g '='

def leadingZerosOnHash (C : Codec) (key : String) : Nat :=
  (((base32Encode (C.sha256 (asBytes key)).toList).map Char.toLower).takeWhile (· = 'a')).length

theorem length_base32Groups (bits : List Bool) :
    (base32Groups bits).length = (bits.length + 4) / 5 := by
  fun_induction base32Groups bits with
  | case1 => rfl
  | case2 a b c d e rest ih => simp only [List.length_cons, ih]; omega
  | case3 short h₁ h₂ =>
    match short, h₁, h₂ with
    | [_], _, _ | [_, _], _, _ | [_, _, _], _, _ | [_, _, _, _], _, _ => simp
    | [], h, _ => exact absurd rfl h
    | a :: b :: c :: d :: e :: rest, _, h => exact absurd rfl (h a b c d e rest)

/-- A SHA-256 digest has 52 base32 digits, so no layer is above 52. -/
theorem leadingZerosOnHash_le (C : Codec) (key : String) : leadingZerosOnHash C key ≤ 52 :=
  calc leadingZerosOnHash C key
    _ ≤ ((base32Encode (C.sha256 (asBytes key)).toList).map Char.toLower).length :=
        (List.takeWhile_sublist _).length_le
    _ = 52 := by simp [base32Encode, length_base32Groups, bitsOf]

/-! ## Nodes -/

/-- An entry of a node: the key without the prefix it shares with the key
before it in the node, the length of that prefix (a `u32`), the subtree right
of it, and the record. -/
structure MstEntry where
  k : Bytes
  p : Nat
  t : Option Cid
  v : Cid
deriving DecidableEq, Repr

structure MstNode where
  e : List MstEntry
  l : Option Cid
deriving DecidableEq, Repr

def linkOrNull : Option Cid → Ipld
  | none => .null
  | some c => .link c

def MstEntry.toIpld (x : MstEntry) : Ipld :=
  .map [("k", .bytes x.k), ("p", .integer x.p), ("t", linkOrNull x.t), ("v", .link x.v)]

def MstNode.toIpld (n : MstNode) : Ipld :=
  .map [("e", .list (n.e.map MstEntry.toIpld)), ("l", linkOrNull n.l)]

abbrev Blocks := List (Cid × Bytes)

/-- The block of a node and its CID. -/
def writeNode (C : Codec) (node : MstNode) : Except RepoError (Cid × Bytes) :=
  match C.toVec node.toIpld with
  | .error e => .error (.cbor e)
  | .ok cbor => .ok (cidFromDagcbor C cbor, cbor)

/-! ## Building -/

/-- The variables of the loop of `build_layer`. -/
structure LayerState where
  blocks : Blocks := []
  nodeEntries : List MstEntry := []
  subtreeBuf : List (String × Cid) := []
  leftSubtree : Option Cid := none
  prevKeyBytes : Bytes := []

/-- `node_entries.last_mut().unwrap().t = sc` -/
def setLastT (sc : Option Cid) : List MstEntry → List MstEntry
  | [] => []
  | [x] => [{ x with t := sc }]
  | x :: y :: rest => x :: setLastT sc (y :: rest)

/-- A subtree goes right of the last entry, or left of all of them. -/
def LayerState.attach (st : LayerState) (sc : Option Cid) : LayerState :=
  if st.nodeEntries.isEmpty then { st with leftSubtree := sc }
  else { st with nodeEntries := setLastT sc st.nodeEntries }

section Build

variable (C : Codec)

/-- The subtree of the buffered keys, if there are any. -/
def flushSubtree (sub : List (String × Cid) → Except RepoError (Cid × Blocks)) (st : LayerState) :
    Except RepoError (LayerState × Option Cid) :=
  if st.subtreeBuf.isEmpty then .ok (st, none)
  else do
    let (sc, sb) ← sub st.subtreeBuf
    return ({ st with blocks := st.blocks ++ sb, subtreeBuf := [] }, some sc)

/-- One key of the loop of `build_layer`. -/
def layerStep (sub : List (String × Cid) → Except RepoError (Cid × Blocks)) (layer : Nat)
    (st : LayerState) (entry : String × Cid) : Except RepoError LayerState :=
  if leadingZerosOnHash C entry.1 < layer then
    .ok { st with subtreeBuf := st.subtreeBuf ++ [entry] }
  else do
    let (st, sc) ← flushSubtree sub st
    let st := st.attach sc
    let keyBytes := asBytes entry.1
    let prefixLen := commonPrefixLen st.prevKeyBytes keyBytes
    return { st with
      prevKeyBytes := keyBytes
      nodeEntries := st.nodeEntries ++
        -- `prefix_len as u32`
        [{ p := prefixLen % 2 ^ 32, k := keyBytes.drop prefixLen, v := entry.2, t := none }] }

/-- The keys that are left in the buffer after the loop. -/
def flushLast (sub : List (String × Cid) → Except RepoError (Cid × Blocks)) (st : LayerState) :
    Except RepoError LayerState :=
  if st.subtreeBuf.isEmpty then .ok st
  else do
    let (sc, sb) ← sub st.subtreeBuf
    return { st with blocks := st.blocks ++ sb }.attach (some sc)

/-- The body of `build_layer`, over the function that builds a subtree. -/
def layerBody (sub : List (String × Cid) → Except RepoError (Cid × Blocks)) (layer : Nat)
    (entries : List (String × Cid)) : Except RepoError (Cid × Blocks) := do
  let st ← entries.foldlM (layerStep C sub layer) {}
  let st ← flushLast sub st
  let (cid, cbor) ← writeNode C { e := st.nodeEntries, l := st.leftSubtree }
  return (cid, st.blocks ++ [(cid, cbor)])

/-- `build_layer`. No key is below layer 0, so there nothing is ever buffered
and no subtree is built (`layerBody_zero`). -/
def buildLayer : Nat → List (String × Cid) → Except RepoError (Cid × Blocks)
  | 0 => layerBody C (fun _ => .error (.cbor "")) 0
  | layer + 1 => layerBody C (buildLayer layer) (layer + 1)

def buildMst (entries : List (String × Cid)) : Except RepoError (Cid × Blocks) :=
  if entries.isEmpty then do
    let (cid, cbor) ← writeNode C { e := [], l := none }
    return (cid, [(cid, cbor)])
  else
    let layer := (entries.map fun x => leadingZerosOnHash C x.1).foldl max 0
    buildLayer C layer entries

end Build

/-! ## Walking -/

inductive CarError where
  | empty
  | invalidVarint
  | truncated
  | tooLarge (limit : Nat)
  | blockTooLarge (limit : Nat)
  | header (message : String)
  | cid (message : String)
  | node (message : String)
  | missingBlock (cid : Cid)
  | tooDeep (limit : Nat)
  | invalidKey
  | malformedKey (key : String)
deriving DecidableEq, Repr

def MAX_MST_DEPTH : Nat := 128

/-- A block map (`HashMap<Cid, Vec<u8>>`): what each CID leads to. -/
abbrev BlockMap := Cid → Option Bytes

/-- `HashMap` from a list of pairs: of two pairs with one CID, the later one
stays. -/
def blocksToMap (blocks : Blocks) : BlockMap := fun c =>
  (blocks.reverse.find? fun b => b.1 = c).map Prod.snd

structure MstLeaf where
  key : String
  cid : Cid
  bytes : Bytes
deriving DecidableEq, Repr

def ipldMap (ipld : Ipld) (what : String) : Except CarError (List (String × Ipld)) :=
  match ipld with
  | .map m => .ok m
  | _ => .error (.node (what ++ "がMap型ではありません"))

def optionalLink (map : List (String × Ipld)) (key : String) : Except CarError (Option Cid) :=
  match map.lookup key with
  | none | some .null => .ok none
  | some (.link cid) => .ok (some cid)
  | _ => .error (.node (key ++ "フィールドがCIDリンクでもnullでもありません"))

section Walk

variable (C : Codec) (blocks : BlockMap)

def getBlock (cid : Cid) : Except CarError Bytes :=
  match blocks cid with
  | some bytes => .ok bytes
  | none => .error (.missingBlock cid)

/-- An optional subtree. -/
def walkLink (walk : Cid → List MstLeaf → Except CarError (List MstLeaf)) (link : Option Cid)
    (leaves : List MstLeaf) : Except CarError (List MstLeaf) :=
  match link with
  | none => .ok leaves
  | some cid => walk cid leaves

/-- The key and the record of an entry. -/
def readLeaf (prevKey : Bytes) (entryMap : List (String × Ipld)) :
    Except CarError (Bytes × MstLeaf) := do
  let p ← match entryMap.lookup "p" with
    | some (.integer n) =>
      -- `*n as usize`
      if 0 ≤ n then Except.ok (n.toNat % 2 ^ 64) else .error (.node "pフィールドが不正です")
    | _ => .error (.node "pフィールドが不正です")
  let kSuffix ← match entryMap.lookup "k" with
    | some (.bytes b) => Except.ok b
    | _ => .error (.node "kフィールドが不正です")
  if prevKey.length < p then
    throw (.node "pが直前キーの長さを超えています（不正なMST）")
  let fullKey := prevKey.take p ++ kSuffix
  let vCid ← match entryMap.lookup "v" with
    | some (.link c) => Except.ok c
    | _ => .error (.node "vフィールドが不正です")
  let key ← match fromUtf8 fullKey with
    | some key => Except.ok key
    | none => .error .invalidKey
  let recordBytes ← getBlock blocks vCid
  return (fullKey, { key, cid := vCid, bytes := recordBytes })

/-- What `walk_node` reads of an entry: its key, its record and the subtree
right of it. -/
def readEntry (prevKey : Bytes) (entry : Ipld) :
    Except CarError (Bytes × MstLeaf × Option Cid) := do
  let entryMap ← ipldMap entry "MSTエントリ"
  let (fullKey, leaf) ← readLeaf blocks prevKey entryMap
  let right ← optionalLink entryMap "t"
  return (fullKey, leaf, right)

/-- One entry of the loop of `walk_node`, from the key before it and the
leaves so far. -/
def walkEntry (walk : Cid → List MstLeaf → Except CarError (List MstLeaf))
    (st : Bytes × List MstLeaf) (entry : Ipld) : Except CarError (Bytes × List MstLeaf) := do
  let (fullKey, leaf, right) ← readEntry blocks st.1 entry
  let leaves ← walkLink walk right (st.2 ++ [leaf])
  return (fullKey, leaves)

/-- The body of `walk_node`, over the function that walks a subtree. -/
def nodeBody (walk : Cid → List MstLeaf → Except CarError (List MstLeaf)) (cid : Cid)
    (leaves : List MstLeaf) : Except CarError (List MstLeaf) := do
  let bytes ← getBlock blocks cid
  let node ← match C.fromSlice bytes with
    | .ok node => Except.ok node
    | .error e => .error (.node e)
  let map ← ipldMap node "MSTノード"
  let left ← optionalLink map "l"
  let leaves ← walkLink walk left leaves
  let entries ← match map.lookup "e" with
    | some (.list entries) => Except.ok entries
    | _ => .error (.node "eフィールドがありません")
  let (_, leaves) ← entries.foldlM (walkEntry blocks walk) ([], leaves)
  return leaves

/-- `walk_node`, by the number of levels that are left: `depth` is
`MAX_MST_DEPTH + 1` less it, and at 0 the depth is above the limit. -/
def walkNode : Nat → Cid → List MstLeaf → Except CarError (List MstLeaf)
  | 0 => fun _ _ => .error (.tooDeep MAX_MST_DEPTH)
  | levels + 1 => nodeBody C blocks (walkNode levels)

def walkMst (root : Cid) : Except CarError (List MstLeaf) :=
  walkNode C blocks (MAX_MST_DEPTH + 1) root []

end Walk

end Seiran.Atp
