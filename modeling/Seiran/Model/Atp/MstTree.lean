import Mathlib.Algebra.GroupWithZero.Nat
import Seiran.Model.Atp.Car

/-!
# The tree that a walk goes through

`readNode` is `walk_node` with a tree instead of the leaves, and with the number of its
calls, whether it comes to an end or fails. A tree of blocks has an order if each key lies
between those around it.
-/

namespace Seiran.Atp

/-! ## Panics -/

/-- `prev_key[..p]`, which panics beyond the end. -/
def sliceTo (prevKey : Bytes) (p : Nat) : Option Bytes :=
  if p ≤ prevKey.length then some (prevKey.take p) else none

/-- `readLeaf` with `none` for a panic. -/
def readLeafChecked (blocks : BlockMap) (prevKey : Bytes) (entryMap : List (String × Ipld)) :
    ExceptT CarError Option (Bytes × MstLeaf) := do
  let p ← match entryMap.lookup "p" with
    | some (.integer n) =>
      if 0 ≤ n then pure (n.toNat % 2 ^ 64) else throw (.node "pフィールドが不正です")
    | _ => throw (.node "pフィールドが不正です")
  let kSuffix ← match entryMap.lookup "k" with
    | some (.bytes b) => pure b
    | _ => throw (.node "kフィールドが不正です")
  if prevKey.length < p then
    throw (.node "pが直前キーの長さを超えています（不正なMST）")
  let keyPrefix ← ExceptT.lift (sliceTo prevKey p)
  let fullKey := keyPrefix ++ kSuffix
  let vCid ← match entryMap.lookup "v" with
    | some (.link c) => pure c
    | _ => throw (.node "vフィールドが不正です")
  let key ← match fromUtf8 fullKey with
    | some key => pure key
    | none => throw .invalidKey
  let recordBytes ← ExceptT.mk (some (getBlock blocks vCid))
  return (fullKey, { key, cid := vCid, bytes := recordBytes })

/-! ## Trees -/

/-- The content of a node, read from left to right: its left subtree, and then entries,
each with the subtree right of it. -/
inductive MstTree where
  /-- There is no subtree. -/
  | nothing
  | first (left : MstTree)
  | entry (before : MstTree) (leaf : MstLeaf) (right : MstTree)

namespace MstTree

/-- The leaves, depth first. -/
def listing : MstTree → List MstLeaf
  | nothing => []
  | first left => left.listing
  | entry before leaf right => before.listing ++ leaf :: right.listing

/-- Each key is between the one before and the one after its entry or its subtree, and
all are between the two bounds. -/
def Within : Option Bytes → Option Bytes → MstTree → Prop
  | _, _, nothing => True
  | lower, upper, first left => left.Within lower upper
  | lower, upper, entry before leaf right =>
    before.Within lower (some (asBytes leaf.key)) ∧ right.Within (some (asBytes leaf.key)) upper ∧
      (∀ key ∈ lower, key < asBytes leaf.key) ∧ ∀ key ∈ upper, asBytes leaf.key < key

end MstTree

/-- The keys are strictly ascending in byte order. -/
def Ascending (leaves : List MstLeaf) : Prop :=
  leaves.Pairwise fun x y => asBytes x.key < asBytes y.key

/-! ## Calls -/

/-- What comes out of calls of `walk_node`, and how many there are. -/
structure Counted (α : Type) where
  calls : Nat
  result : Except CarError α

namespace Counted

variable {α β : Type}

def lift (x : Except CarError α) : Counted α := ⟨0, x⟩

def bind (x : Counted α) (f : α → Counted β) : Counted β :=
  match x.result with
  | .error e => ⟨x.calls, .error e⟩
  | .ok a => ⟨x.calls + (f a).calls, (f a).result⟩

instance : Monad Counted where
  pure a := lift (.ok a)
  bind := bind

end Counted

section Read

variable (C : Codec) (blocks : BlockMap)

def readLink (read : Cid → Counted MstTree) : Option Cid → Counted MstTree
  | none => pure .nothing
  | some cid => read cid

def readTreeEntry (read : Cid → Counted MstTree) (st : Bytes × MstTree) (entry : Ipld) :
    Counted (Bytes × MstTree) := do
  let (fullKey, leaf, right) ← Counted.lift (readEntry blocks st.1 entry)
  let right ← readLink read right
  return (fullKey, .entry st.2 leaf right)

/-- The links and the entries of a node. -/
def readMap (cid : Cid) : Except CarError (Option Cid × List (String × Ipld)) := do
  let bytes ← getBlock blocks cid
  let node ← match C.fromSlice bytes with
    | .ok node => Except.ok node
    | .error e => .error (.node e)
  let map ← ipldMap node "MSTノード"
  let left ← optionalLink map "l"
  return (left, map)

def entriesOf (map : List (String × Ipld)) : Except CarError (List Ipld) :=
  match map.lookup "e" with
  | some (.list entries) => .ok entries
  | _ => .error (.node "eフィールドがありません")

def readBody (read : Cid → Counted MstTree) (cid : Cid) : Counted MstTree := do
  let (left, map) ← Counted.lift (readMap C blocks cid)
  let left ← readLink read left
  let entries ← Counted.lift (entriesOf map)
  let (_, tree) ← entries.foldlM (readTreeEntry blocks read) ([], .first left)
  return tree

/-- `walk_node` by the levels that are left, with the call itself counted. -/
def readNode : Nat → Cid → Counted MstTree
  | 0 => fun _ => ⟨1, .error (.tooDeep MAX_MST_DEPTH)⟩
  | levels + 1 => fun cid =>
    ⟨1 + (readBody C blocks (readNode levels) cid).calls,
      (readBody C blocks (readNode levels) cid).result⟩

def readMst (root : Cid) : Counted MstTree := readNode C blocks (MAX_MST_DEPTH + 1) root

/-- One link on the left, and one for each entry. -/
def linksOf (map : List (String × Ipld)) : Nat :=
  match entriesOf map with
  | .ok entries => 1 + entries.length
  | .error _ => 1

/-- No node has more than `n` links. -/
def LinksAtMost (n : Nat) : Prop :=
  ∀ cid left map, readMap C blocks cid = .ok (left, map) → linksOf map ≤ n

/-- The nodes of a tree with `n` links each that has so many levels. -/
def maxCalls (n levels : Nat) : Nat := ((List.range (levels + 1)).map (n ^ ·)).sum

end Read

end Seiran.Atp
