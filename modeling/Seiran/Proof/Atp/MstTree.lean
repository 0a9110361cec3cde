import Mathlib.Algebra.BigOperators.Ring.List
import Mathlib.Algebra.Ring.Nat
import Mathlib.Data.List.Nodup
import Seiran.Model.Atp.MstTree
import Seiran.Proof.Atp.Car

/-!
# Walking a tree that nobody has checked

Blocks come from another server, so a walk may meet any tree.

* `readLeafChecked_eq`: no entry makes it panic;
* `walkNode_eq`: it lists the tree that `readNode` reads;
* `calls_readNode_le`: how many calls it takes;
* `within_iff`: the list is ascending exactly when the tree has an order;
* `nodup_decodedRecords`: a record key then occurs once.
-/

namespace Seiran.Atp

/-! ## No panic -/

theorem sliceTo_of_le {prevKey : Bytes} {p : Nat} (h : p ≤ prevKey.length) :
    sliceTo prevKey p = some (prevKey.take p) :=
  if_pos h

theorem lift_some_bind {α β : Type} (a : α) (f : α → ExceptT CarError Option β) :
    (ExceptT.lift (some a) >>= f) = f a :=
  rfl

/-- The length of a prefix has been compared before the key is cut. -/
theorem readLeafChecked_eq (blocks : BlockMap) (prevKey : Bytes)
    (entryMap : List (String × Ipld)) :
    (readLeafChecked blocks prevKey entryMap).run = some (readLeaf blocks prevKey entryMap) := by
  unfold readLeafChecked readLeaf
  generalize entryMap.lookup "p" = p, entryMap.lookup "k" = k, entryMap.lookup "v" = v
  cases p with
  | none => rfl
  | some p =>
    cases p with
    | integer n =>
      by_cases hn : 0 ≤ n
      · simp only [if_pos hn]
        cases k with
        | none => rfl
        | some k =>
          cases k with
          | bytes b =>
            simp only [pure_bind, ok_bind]
            by_cases hp : prevKey.length < n.toNat % 2 ^ 64
            · simp only [if_pos hp]
              rfl
            · simp only [if_neg hp, sliceTo_of_le (Nat.not_lt.mp hp), lift_some_bind]
              cases v with
              | none => rfl
              | some v =>
                cases v with
                | link c =>
                  dsimp only
                  cases fromUtf8 (prevKey.take (n.toNat % 2 ^ 64) ++ b) with
                  | none => rfl
                  | some key => cases getBlock blocks c <;> rfl
                | _ => rfl
          | _ => rfl
      · simp only [if_neg hn]
        rfl
    | _ => rfl

/-! ## The tree that is read -/

namespace Counted

variable {α β : Type}

@[simp] theorem result_lift (x : Except CarError α) : (lift x).result = x := rfl

@[simp] theorem result_pure (a : α) : (pure a : Counted α).result = .ok a := rfl

@[simp] theorem result_bind (x : Counted α) (f : α → Counted β) :
    (x >>= f).result = x.result >>= fun a => (f a).result := by
  show (bind x f).result = _
  rw [bind]
  cases x.result <;> rfl

@[simp] theorem calls_pure (a : α) : (pure a : Counted α).calls = 0 := rfl

theorem calls_bind_le {x : Counted α} {f : α → Counted β} {m n : Nat} (hx : x.calls ≤ m)
    (hf : ∀ a, x.result = .ok a → (f a).calls ≤ n) : (x >>= f).calls ≤ m + n := by
  show (bind x f).calls ≤ _
  rw [bind]
  cases h : x.result with
  | error e => exact Nat.le_add_right_of_le hx
  | ok a => exact Nat.add_le_add hx (hf a h)

theorem calls_lift_bind_le {x : Except CarError α} {f : α → Counted β} {n : Nat}
    (hf : ∀ a, x = .ok a → (f a).calls ≤ n) : (lift x >>= f).calls ≤ n := by
  rw [← Nat.zero_add n]
  exact calls_bind_le (Nat.le_refl 0) hf

theorem calls_bind_pure_le {x : Counted α} {f : α → β} {m : Nat} (hx : x.calls ≤ m) :
    (x >>= fun a => pure (f a)).calls ≤ m :=
  calls_bind_le (n := 0) hx fun _ _ => Nat.le_refl 0

end Counted

section Read

variable {C : Codec} {blocks : BlockMap}
variable {walk : Cid → List MstLeaf → Except CarError (List MstLeaf)}
variable {read : Cid → Counted MstTree}

/-- The walk lists the tree that is read, whether there is one or an error. -/
def Listing (walk : Walk) (read : Cid → Counted MstTree) : Prop :=
  ∀ cid leaves, walk cid leaves = (read cid).result.map (leaves ++ ·.listing)

theorem walkLink_eq (h : Listing walk read) (link : Option Cid) (leaves : List MstLeaf) :
    walkLink walk link leaves = (readLink read link).result.map (leaves ++ ·.listing) := by
  cases link with
  | none => simp [walkLink, readLink, MstTree.listing, Except.map]
  | some cid => exact h cid leaves

theorem walkEntry_eq (h : Listing walk read) (leaves : List MstLeaf) (st : Bytes × MstTree)
    (entry : Ipld) :
    walkEntry blocks walk (st.1, leaves ++ st.2.listing) entry =
      (readTreeEntry blocks read st entry).result.map fun r => (r.1, leaves ++ r.2.listing) := by
  rw [walkEntry, readTreeEntry]
  simp only [Counted.result_bind, Counted.result_lift]
  cases readEntry blocks st.1 entry with
  | error e => rfl
  | ok r =>
    show (walkLink walk r.2.2 _ >>= _) = _
    rw [walkLink_eq h]
    simp only [Except.map, bind, Except.bind]
    cases (readLink read r.2.2).result with
    | error e => rfl
    | ok right => simp [MstTree.listing, pure, Except.pure]

theorem walkEntries_eq (h : Listing walk read) (leaves : List MstLeaf) (entries : List Ipld)
    (st : Bytes × MstTree) :
    entries.foldlM (walkEntry blocks walk) (st.1, leaves ++ st.2.listing) =
      (entries.foldlM (readTreeEntry blocks read) st).result.map
        fun r => (r.1, leaves ++ r.2.listing) := by
  induction entries generalizing st with
  | nil => rfl
  | cons entry entries ih =>
    rw [List.foldlM_cons, List.foldlM_cons, walkEntry_eq h, Counted.result_bind]
    cases (readTreeEntry blocks read st entry).result with
    | error e => rfl
    | ok st => exact ih st

/-- The body of `walk_node` in the steps of `readBody`. -/
theorem nodeBody_readMap (cid : Cid) (leaves : List MstLeaf) :
    nodeBody C blocks walk cid leaves = (do
      let r ← readMap C blocks cid
      let leaves ← walkLink walk r.1 leaves
      let entries ← entriesOf r.2
      let st ← entries.foldlM (walkEntry blocks walk) ([], leaves)
      return st.2) := by
  unfold nodeBody readMap entriesOf
  cases getBlock blocks cid with
  | error e => rfl
  | ok bytes =>
    dsimp only [bind, Except.bind]
    cases C.fromSlice bytes with
    | error e => rfl
    | ok node =>
      dsimp only
      cases ipldMap node "MSTノード" with
      | error e => rfl
      | ok map =>
        dsimp only
        cases optionalLink map "l" with
        | error e => rfl
        | ok left =>
          dsimp only [pure, Except.pure]
          cases walkLink walk left leaves with
          | error e => rfl
          | ok leaves =>
            dsimp only
            generalize map.lookup "e" = entries
            cases entries with
            | none => rfl
            | some v => cases v <;> rfl

theorem nodeBody_eq (h : Listing walk read) :
    Listing (nodeBody C blocks walk) (readBody C blocks read) := by
  intro cid leaves
  rw [nodeBody_readMap, readBody]
  simp only [Counted.result_bind, Counted.result_lift]
  cases readMap C blocks cid with
  | error e => rfl
  | ok r =>
    show (walkLink walk r.1 leaves >>= _) = _
    rw [walkLink_eq h]
    simp only [Except.map, bind, Except.bind]
    cases (readLink read r.1).result with
    | error e => rfl
    | ok left =>
      dsimp only
      cases entriesOf r.2 with
      | error e => rfl
      | ok entries =>
        have hloop : entries.foldlM (walkEntry blocks walk)
            ([], leaves ++ (MstTree.first left).listing) = _ :=
          walkEntries_eq h leaves entries ([], .first left)
        dsimp only
        rw [show left.listing = (MstTree.first left).listing from rfl, hloop]
        cases (entries.foldlM (readTreeEntry blocks read) ([], .first left)).result <;> rfl

theorem walkNode_eq (levels : Nat) :
    Listing (walkNode C blocks levels) (readNode C blocks levels) := by
  induction levels with
  | zero => exact fun _ _ => rfl
  | succ levels ih => exact nodeBody_eq ih

/-! ## How many calls -/

theorem calls_readLink_le {m : Nat} (h : ∀ cid, (read cid).calls ≤ m) (link : Option Cid) :
    (readLink read link).calls ≤ m := by
  cases link with
  | none => exact Nat.zero_le m
  | some cid => exact h cid

theorem calls_readTreeEntry_le {m : Nat} (h : ∀ cid, (read cid).calls ≤ m)
    (st : Bytes × MstTree) (entry : Ipld) : (readTreeEntry blocks read st entry).calls ≤ m :=
  Counted.calls_lift_bind_le fun r _ => Counted.calls_bind_pure_le (calls_readLink_le h r.2.2)

theorem calls_readEntries_le {m : Nat} (h : ∀ cid, (read cid).calls ≤ m) (entries : List Ipld)
    (st : Bytes × MstTree) :
    (entries.foldlM (readTreeEntry blocks read) st).calls ≤ entries.length * m := by
  induction entries generalizing st with
  | nil => simp
  | cons entry entries ih =>
    rw [List.foldlM_cons, List.length_cons, Nat.succ_mul, Nat.add_comm]
    exact Counted.calls_bind_le (calls_readTreeEntry_le h st entry) fun st _ => ih st

theorem one_le_linksOf (map : List (String × Ipld)) : 1 ≤ linksOf map := by
  unfold linksOf
  split <;> omega

theorem linksOf_of_entries {map : List (String × Ipld)} {entries : List Ipld}
    (h : entriesOf map = .ok entries) : linksOf map = 1 + entries.length := by
  rw [linksOf, h]

/-- One subtree for each link. -/
theorem calls_readBody_le {m n : Nat} (hn : LinksAtMost C blocks n)
    (h : ∀ cid, (read cid).calls ≤ m) (cid : Cid) :
    (readBody C blocks read cid).calls ≤ n * m := by
  refine Counted.calls_lift_bind_le fun r hr => ?_
  have hlinks := hn cid r.1 r.2 hr
  obtain ⟨count, rfl⟩ := Nat.exists_eq_add_of_le (Nat.le_trans (one_le_linksOf r.2) hlinks)
  rw [one_add_mul]
  refine Counted.calls_bind_le (calls_readLink_le h r.1) fun left _ => ?_
  refine Counted.calls_lift_bind_le fun entries hentries => ?_
  rw [linksOf_of_entries hentries] at hlinks
  have hle := Nat.mul_le_mul_right m (Nat.le_of_add_le_add_left hlinks)
  exact Counted.calls_bind_pure_le (Nat.le_trans (calls_readEntries_le h entries _) hle)

theorem maxCalls_succ (n levels : Nat) : maxCalls n (levels + 1) = 1 + n * maxCalls n levels := by
  rw [maxCalls, List.range_succ_eq_map, List.map_cons, List.sum_cons, Nat.pow_zero, maxCalls,
    List.map_map, ← List.sum_map_mul_left]
  congr 3
  funext i
  exact Nat.pow_succ'

/-- With so many links to a node, a walk makes no more calls than a tree with all of them
has nodes on its levels. -/
theorem calls_readNode_le {n : Nat} (hn : LinksAtMost C blocks n) (levels : Nat) (cid : Cid) :
    (readNode C blocks levels cid).calls ≤ maxCalls n levels := by
  induction levels generalizing cid with
  | zero => exact Nat.le_refl 1
  | succ levels ih =>
    rw [maxCalls_succ]
    exact Nat.add_le_add_left (calls_readBody_le hn ih cid) 1

end Read

/-! ## Order -/

theorem ascending_append_cons {before right : List MstLeaf} {leaf : MstLeaf} :
    Ascending (before ++ leaf :: right) ↔ Ascending before ∧ Ascending right ∧
      (∀ x ∈ before, asBytes x.key < asBytes leaf.key) ∧
      ∀ y ∈ right, asBytes leaf.key < asBytes y.key := by
  rw [Ascending, List.pairwise_append, List.pairwise_cons]
  constructor
  · rintro ⟨hb, ⟨hl, hr⟩, hbr⟩
    exact ⟨hb, hr, fun x hx => hbr x hx leaf List.mem_cons_self, hl⟩
  · rintro ⟨hb, hr, hbl, hl⟩
    refine ⟨hb, ⟨hl, hr⟩, fun x hx y hy => ?_⟩
    rcases List.mem_cons.mp hy with rfl | hy
    · exact hbl x hx
    · exact List.lt_trans (hbl x hx) (hl y hy)

theorem within_iff (t : MstTree) (lower upper : Option Bytes) :
    t.Within lower upper ↔ Ascending t.listing ∧ ∀ leaf ∈ t.listing,
      (∀ key ∈ lower, key < asBytes leaf.key) ∧ ∀ key ∈ upper, asBytes leaf.key < key := by
  induction t generalizing lower upper with
  | nothing => simp [MstTree.Within, MstTree.listing, Ascending]
  | first left ih => exact ih lower upper
  | entry before leaf right ihb ihr =>
    rw [MstTree.Within, ihb, ihr, MstTree.listing, ascending_append_cons]
    simp only [List.mem_append, List.mem_cons, Option.mem_some_iff, forall_eq']
    constructor
    · rintro ⟨⟨hb, hbefore⟩, ⟨hr, hright⟩, hlower, hupper⟩
      refine ⟨⟨hb, hr, fun x hx => (hbefore x hx).2, fun y hy => (hright y hy).1⟩, ?_⟩
      rintro x (hx | rfl | hx)
      · exact ⟨(hbefore x hx).1, fun key hkey =>
          List.lt_trans (hbefore x hx).2 (hupper key hkey)⟩
      · exact ⟨hlower, hupper⟩
      · exact ⟨fun key hkey => List.lt_trans (hlower key hkey) (hright x hx).1,
          (hright x hx).2⟩
    · rintro ⟨⟨hb, hr, hbefore, hright⟩, hall⟩
      refine ⟨⟨hb, fun x hx => ⟨(hall x (.inl hx)).1, hbefore x hx⟩⟩,
        ⟨hr, fun y hy => ⟨hright y hy, (hall y (.inr (.inr hy))).2⟩⟩, ?_⟩
      exact hall leaf (.inr (.inl rfl))

/-- A list of a tree is ascending exactly when each key of the tree lies between those
around it. -/
theorem ascending_listing_iff (t : MstTree) : Ascending t.listing ↔ t.Within none none := by
  rw [within_iff]
  simp

/-! ## Records -/

theorem eq_of_splitOnceSlash {cs a b : List Char} (h : splitOnceSlash cs = some (a, b)) :
    cs = a ++ '/' :: b := by
  induction cs generalizing a with
  | nil => cases h
  | cons c cs ih =>
    rw [splitOnceSlash] at h
    split at h
    · rename_i hc
      cases h
      rw [hc, List.nil_append]
    · obtain ⟨p, hp, heq⟩ := Option.map_eq_some_iff.mp h
      cases heq
      rw [ih hp, List.cons_append]

/-- The collection and the record key give the key of the leaf back. -/
theorem key_decodedRecord {leaf : MstLeaf} {r : DecodedRecord} (h : decodedRecord leaf = .ok r) :
    r.key = leaf.key := by
  obtain ⟨⟨collection, rkey⟩, hsplit, heq⟩ := bind_eq_ok.mp h
  cases heq
  rw [splitRecordKey] at hsplit
  split at hsplit
  · rename_i a b hab
    cases hsplit
    rw [DecodedRecord.key]
    refine String.toList_inj.mp ?_
    simp [eq_of_splitOnceSlash hab]
  · cases hsplit

theorem map_key_decodedRecord {leaves : List MstLeaf} {records : List DecodedRecord}
    (h : leaves.mapM decodedRecord = .ok records) :
    records.map DecodedRecord.key = leaves.map MstLeaf.key := by
  induction leaves generalizing records with
  | nil =>
    cases h
    rfl
  | cons leaf leaves ih =>
    obtain ⟨r, records, hleaf, hleaves, rfl⟩ := mapM_cons_ok h
    rw [List.map_cons, List.map_cons, key_decodedRecord hleaf, ih hleaves]

theorem nodup_keys {leaves : List MstLeaf} (h : Ascending leaves) :
    (leaves.map MstLeaf.key).Nodup := by
  rw [List.Nodup, List.pairwise_map]
  refine h.imp fun hlt heq => ?_
  rw [heq] at hlt
  exact List.lt_irrefl _ hlt

theorem nodup_decodedRecords {leaves : List MstLeaf} {records : List DecodedRecord}
    (h : Ascending leaves) (hr : leaves.mapM decodedRecord = .ok records) :
    (records.map fun r => (r.collection, r.rkey)).Nodup := by
  have hpairs : records.map DecodedRecord.key =
      (records.map fun r => (r.collection, r.rkey)).map fun p => p.1 ++ "/" ++ p.2 := by
    rw [List.map_map]
    rfl
  have hkeys := nodup_keys h
  rw [← map_key_decodedRecord hr, hpairs] at hkeys
  exact List.Nodup.of_map _ hkeys

/-! ## The walk -/

theorem readMap_ok {C : Codec} {blocks : BlockMap} {cid : Cid} {left : Option Cid}
    {map : List (String × Ipld)} (h : readMap C blocks cid = .ok (left, map)) :
    ∃ bytes, blocks cid = some bytes ∧ C.fromSlice bytes = .ok (.map map) := by
  unfold readMap getBlock at h
  cases hbytes : blocks cid with
  | none =>
    rw [hbytes] at h
    cases h
  | some bytes =>
    simp only [hbytes, ok_bind] at h
    cases hnode : C.fromSlice bytes with
    | error e =>
      rw [hnode] at h
      cases h
    | ok node =>
      simp only [hnode] at h
      obtain ⟨map', hmap, h⟩ := bind_eq_ok.mp h
      obtain ⟨left', -, heq⟩ := bind_eq_ok.mp h
      cases heq
      refine ⟨bytes, rfl, ?_⟩
      cases node with
      | map m =>
        cases hmap
        exact hnode
      | _ => cases hmap

/-- A finite number of blocks has a limit to the links of a node. -/
theorem linksAtMost_blocksToMap (C : Codec) (bs : Blocks) :
    ∃ n, LinksAtMost C (blocksToMap bs) n := by
  obtain ⟨n, hn⟩ : ∃ n, ∀ b ∈ bs, ∀ m, C.fromSlice b.2 = .ok (.map m) → linksOf m ≤ n := by
    induction bs with
    | nil => exact ⟨0, by simp⟩
    | cons b bs ih =>
      obtain ⟨n, hn⟩ := ih
      obtain ⟨k, hk⟩ : ∃ k, ∀ m, C.fromSlice b.2 = .ok (.map m) → linksOf m ≤ k := by
        cases C.fromSlice b.2 with
        | error e => exact ⟨0, by simp⟩
        | ok v =>
          cases v with
          | map m => exact ⟨linksOf m, by simp⟩
          | _ => exact ⟨0, by simp⟩
      refine ⟨max k n, fun x hx m hm => ?_⟩
      rcases List.mem_cons.mp hx with rfl | hx
      · exact Nat.le_trans (hk m hm) (Nat.le_max_left k n)
      · exact Nat.le_trans (hn x hx m hm) (Nat.le_max_right k n)
  refine ⟨n, fun cid left map h => ?_⟩
  obtain ⟨bytes, hbytes, hmap⟩ := readMap_ok h
  obtain ⟨b, hb, rfl⟩ := Option.map_eq_some_iff.mp hbytes
  exact hn b (List.mem_reverse.mp (List.mem_of_find?_eq_some hb)) map hmap

/-- A walk does not panic, and goes down as many levels as its limit allows. Whatever tree
it lists, depth first, the list is ascending exactly when the tree has an order, and then no
record is in it twice. -/
theorem walkMst_listing (C : Codec) (blocks : BlockMap) (root : Cid) :
    (∀ prevKey entryMap, (readLeafChecked blocks prevKey entryMap).run =
      some (readLeaf blocks prevKey entryMap)) ∧
    (∀ n, LinksAtMost C blocks n →
      (readMst C blocks root).calls ≤ maxCalls n (MAX_MST_DEPTH + 1)) ∧
    walkMst C blocks root = (readMst C blocks root).result.map MstTree.listing ∧
    ∀ tree, (readMst C blocks root).result = .ok tree →
      (Ascending tree.listing ↔ tree.Within none none) ∧
      (Ascending tree.listing → (tree.listing.map MstLeaf.key).Nodup ∧
        ∀ records, tree.listing.mapM decodedRecord = .ok records →
          (records.map fun r => (r.collection, r.rkey)).Nodup) := by
  refine ⟨readLeafChecked_eq blocks, fun n hn => calls_readNode_le hn _ root, ?_,
    fun tree _ => ⟨ascending_listing_iff tree, fun h => ⟨nodup_keys h, fun records hr =>
      nodup_decodedRecords h hr⟩⟩⟩
  have hlisting : Listing (walkNode C blocks (MAX_MST_DEPTH + 1))
      (readNode C blocks (MAX_MST_DEPTH + 1)) := walkNode_eq _
  have hwalk := hlisting root []
  simp only [List.nil_append] at hwalk
  exact hwalk

/-! Nothing checks the order, nor that a key is there once: the second entry of this node has
the whole key of the first. -/

def twiceNode : MstNode :=
  { e := [{ k := asBytes "a", p := 0, t := none, v := postCid },
      { k := [], p := 1, t := none, v := postCid }], l := none }

def twiceCodec : Codec := oneNodeCodec (fun _ => Vector.replicate 32 255) twiceNode [0]

def twiceRoot : Cid := cidFromDagcbor twiceCodec [0]

def twiceBlocks : BlockMap := blocksToMap [(twiceRoot, [0]), (postCid, postBytes)]

theorem walkMst_listing_counterexample :
    ∃ leaves, walkMst twiceCodec twiceBlocks twiceRoot = .ok leaves ∧
      ¬ Ascending leaves ∧ ¬ (leaves.map MstLeaf.key).Nodup := by
  refine ⟨[⟨"a", postCid, postBytes⟩, ⟨"a", postCid, postBytes⟩], by decide, fun h => ?_,
    by decide⟩
  exact absurd (nodup_keys h) (by decide)

end Seiran.Atp
