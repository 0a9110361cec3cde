import Seiran.Framework.Except
import Seiran.Model.Atp.Mst

/-!
# Building a tree and walking it

`walkMst` lists the keys of a tree that `buildMst` has built, in the order
they were given, whatever layers the hash of the keys puts them in.

* `NodeLists`: what reading the entries of a node from left to right lists;
* `LayerInv`: the invariant of the loop of `build_layer`: the node read so far
  lists the keys the loop has passed, up to those that wait for a subtree;
* `layerBody_lists`, `buildLayer_lists`: a layer lists its keys, if the layers
  below it do.
-/

namespace Seiran.Atp

/-! ## What a walk lists -/

def leafOf (bm : BlockMap) (x : String × Cid) : MstLeaf :=
  { key := x.1, cid := x.2, bytes := (bm x.2).getD [] }

/-- The block map holds the blocks. -/
def Holds (bm : BlockMap) (bs : Blocks) : Prop := ∀ c b, (c, b) ∈ bs → bm c = some b

theorem holds_append {bm : BlockMap} {bs bs' : Blocks} :
    Holds bm (bs ++ bs') ↔ Holds bm bs ∧ Holds bm bs' := by
  simp only [Holds, List.mem_append]
  exact ⟨fun h => ⟨fun c b m => h c b (.inl m), fun c b m => h c b (.inr m)⟩,
    fun h c b m => m.elim (h.1 c b) (h.2 c b)⟩

theorem holds_blocksToMap {bs : Blocks}
    (hcid : ∀ x ∈ bs, ∀ y ∈ bs, x.1 = y.1 → x.2 = y.2) : Holds (blocksToMap bs) bs := by
  intro c b hb
  have hs : (bs.reverse.find? fun x => x.1 = c).isSome :=
    List.find?_isSome.mpr ⟨(c, b), List.mem_reverse.mpr hb, by simp⟩
  obtain ⟨y, hy⟩ := Option.isSome_iff_exists.mp hs
  have hyc : y.1 = c := by simpa using List.find?_some hy
  have hym : y ∈ bs := List.mem_reverse.mp (List.mem_of_find?_eq_some hy)
  simp only [blocksToMap, hy, Option.map_some, Option.some.injEq]
  exact hcid y hym (c, b) hb hyc

/-- What the walk needs of a key list: the blocks of the records, and prefixes
whose length fits a `u32`. -/
structure Listable (bm : BlockMap) (xs : List (String × Cid)) : Prop where
  records : ∀ x ∈ xs, ∃ b, bm x.2 = some b
  prefixes : xs.Pairwise fun x y => commonPrefixLen (asBytes x.1) (asBytes y.1) < 2 ^ 32

theorem Listable.sublist {bm : BlockMap} {xs ys : List (String × Cid)} (h : Listable bm ys)
    (hs : xs.Sublist ys) : Listable bm xs :=
  ⟨fun x hx => h.records x (hs.subset hx), h.prefixes.sublist hs⟩

abbrev Walk := Cid → List MstLeaf → Except CarError (List MstLeaf)

section Lists

variable (bm : BlockMap) (walk : Walk)

/-- The walk from `cid` lists `xs`. -/
def Lists (cid : Cid) (xs : List (String × Cid)) : Prop :=
  ∀ leaves, walk cid leaves = .ok (leaves ++ xs.map (leafOf bm))

def LinkLists (link : Option Cid) (xs : List (String × Cid)) : Prop :=
  ∀ leaves, walkLink walk link leaves = .ok (leaves ++ xs.map (leafOf bm))

/-- The left subtree and the entries of a node list `xs`, and `prev` is the
last key read. -/
def NodeLists (l : Option Cid) (es : List MstEntry) (xs : List (String × Cid))
    (prev : Bytes) : Prop :=
  ∀ leaves, (do
      let leaves ← walkLink walk l leaves
      (es.map MstEntry.toIpld).foldlM (walkEntry bm walk) ([], leaves)) =
    .ok (prev, leaves ++ xs.map (leafOf bm))

variable {bm walk}

theorem linkLists_none : LinkLists bm walk none [] := fun leaves => by simp [walkLink]

theorem linkLists_some {cid : Cid} {xs : List (String × Cid)} (h : Lists bm walk cid xs) :
    LinkLists bm walk (some cid) xs := h

theorem NodeLists.nil {l : Option Cid} {xs : List (String × Cid)} (h : LinkLists bm walk l xs) :
    NodeLists bm walk l [] xs [] := fun leaves => by
  simp only [h leaves, List.map_nil, List.foldlM_nil]
  rfl

theorem NodeLists.of_nil {xs : List (String × Cid)} {prev : Bytes}
    (h : NodeLists bm walk none [] xs prev) : xs = [] ∧ prev = [] := by
  have h := h []
  simp only [walkLink, List.map_nil, List.foldlM_nil, bind, Except.bind, pure, Except.pure,
    List.nil_append, Except.ok.injEq, Prod.mk.injEq] at h
  exact ⟨List.map_eq_nil_iff.mp h.2.symm, h.1.symm⟩

end Lists

/-! ## Reading an entry -/

section Entry

variable {bm : BlockMap} {walk : Walk}

/-- The map of an entry, up to its subtree. -/
abbrev entryMap (x : MstEntry) (t : Ipld) : List (String × Ipld) :=
  [("k", .bytes x.k), ("p", .integer x.p), ("t", t), ("v", .link x.v)]

theorem optionalLink_entryMap (x : MstEntry) (t : Option Cid) :
    optionalLink (entryMap x (linkOrNull t)) "t" = .ok t := by
  cases t <;> simp [optionalLink, linkOrNull, List.lookup_cons]

@[simp] theorem ipldMap_map (m : List (String × Ipld)) (what : String) :
    ipldMap (.map m) what = .ok m := rfl

/-- The subtree right of an entry has no part in how its key is read. -/
theorem readLeaf_entryMap (prev : Bytes) (x : MstEntry) (t : Ipld) :
    readLeaf bm prev (entryMap x t) = readLeaf bm prev (entryMap x .null) := by
  simp [readLeaf, List.lookup_cons]

theorem readEntry_toIpld (prev : Bytes) (x : MstEntry) :
    readEntry bm prev x.toIpld =
      (readLeaf bm prev (entryMap x .null)).map fun r => (r.1, r.2, x.t) := by
  rw [← readLeaf_entryMap prev x (linkOrNull x.t)]
  simp only [readEntry, MstEntry.toIpld, ipldMap_map, optionalLink_entryMap, bind, Except.bind]
  cases readLeaf bm prev (entryMap x (linkOrNull x.t)) <;> rfl

theorem walkEntry_toIpld {st st' : Bytes × List MstLeaf} {x : MstEntry} :
    walkEntry bm walk st x.toIpld = .ok st' ↔
      ∃ r, readLeaf bm st.1 (entryMap x .null) = .ok r ∧ r.1 = st'.1 ∧
        walkLink walk x.t (st.2 ++ [r.2]) = .ok st'.2 := by
  simp only [walkEntry, readEntry_toIpld]
  cases readLeaf bm st.1 (entryMap x .null) with
  | error e => simp [bind, Except.bind, Except.map]
  | ok r =>
    cases h : walkLink walk x.t (st.2 ++ [r.2]) <;>
      simp [bind, Except.bind, Except.map, pure, Except.pure, h, Prod.ext_iff]

theorem readLeaf_ok {prev : Bytes} {x : String × Cid} {e : MstEntry} (hp : e.p ≤ prev.length)
    (h64 : e.p < 2 ^ 64) (hkey : prev.take e.p ++ e.k = asBytes x.1) (hv : e.v = x.2)
    (hb : ∃ b, bm x.2 = some b) :
    readLeaf bm prev (entryMap e .null) = .ok (asBytes x.1, leafOf bm x) := by
  obtain ⟨b, hb⟩ := hb
  simp only [readLeaf, List.lookup_cons, String.reduceBEq, BEq.rfl, hv, getBlock, hb,
    Int.natCast_nonneg, ↓reduceIte, Int.toNat_natCast, Nat.mod_eq_of_lt h64, Nat.not_lt.mpr hp,
    hkey, fromUtf8_asBytes, bind, Except.bind, pure, Except.pure, leafOf, Option.getD_some]

/-- A key that was cut off at the prefix it shares with the key before it is
read back. -/
theorem readLeaf_commonPrefix {prev : Bytes} {x : String × Cid} {e : MstEntry}
    (hlen : commonPrefixLen prev (asBytes x.1) < 2 ^ 32)
    (hp : e.p = commonPrefixLen prev (asBytes x.1))
    (hk : e.k = (asBytes x.1).drop (commonPrefixLen prev (asBytes x.1))) (hv : e.v = x.2)
    (hb : ∃ b, bm x.2 = some b) :
    readLeaf bm prev (entryMap e .null) = .ok (asBytes x.1, leafOf bm x) :=
  readLeaf_ok (hp ▸ commonPrefixLen_le_left _ _) (by omega)
    (by rw [hp, hk, take_commonPrefixLen]) hv hb

/-! ## The entries of a node -/

theorem NodeLists.append {l : Option Cid} {es : List MstEntry} {e : MstEntry}
    {xs ys : List (String × Cid)} {x : String × Cid} {prev : Bytes}
    (h : NodeLists bm walk l es xs prev)
    (hr : readLeaf bm prev (entryMap e .null) = .ok (asBytes x.1, leafOf bm x))
    (ht : LinkLists bm walk e.t ys) :
    NodeLists bm walk l (es ++ [e]) (xs ++ x :: ys) (asBytes x.1) := by
  intro leaves
  obtain ⟨ls, hl, hf⟩ := bind_eq_ok.mp (h leaves)
  refine bind_eq_ok.mpr ⟨ls, hl, ?_⟩
  rw [List.map_append, List.foldlM_append]
  refine bind_eq_ok.mpr ⟨_, hf, ?_⟩
  rw [List.map_singleton, List.foldlM_cons]
  have hx : walkEntry bm walk (prev, leaves ++ xs.map (leafOf bm)) e.toIpld =
      .ok (asBytes x.1, leaves ++ xs.map (leafOf bm) ++ [leafOf bm x] ++ ys.map (leafOf bm)) :=
    walkEntry_toIpld.mpr ⟨_, hr, rfl, ht _⟩
  refine bind_eq_ok.mpr ⟨_, hx, ?_⟩
  simp [pure, Except.pure]

/-- A subtree that is hung on the last entry is listed after it. -/
theorem NodeLists.setLast {l sc : Option Cid} {es : List MstEntry} {e : MstEntry}
    {xs ys : List (String × Cid)} {prev : Bytes} (h : NodeLists bm walk l (es ++ [e]) xs prev)
    (he : e.t = none) (hs : LinkLists bm walk sc ys) :
    NodeLists bm walk l (es ++ [{ e with t := sc }]) (xs ++ ys) prev := by
  intro leaves
  obtain ⟨ls, hl, hf⟩ := bind_eq_ok.mp (h leaves)
  refine bind_eq_ok.mpr ⟨ls, hl, ?_⟩
  rw [List.map_append, List.foldlM_append] at hf ⊢
  obtain ⟨st, hst, hlast⟩ := bind_eq_ok.mp hf
  refine bind_eq_ok.mpr ⟨st, hst, ?_⟩
  rw [List.map_singleton, List.foldlM_cons] at hlast ⊢
  obtain ⟨st', hst', heq⟩ := bind_eq_ok.mp hlast
  cases heq
  obtain ⟨r, hr, hprev, hleaves⟩ := walkEntry_toIpld.mp hst'
  simp only [he, walkLink, Except.ok.injEq] at hleaves
  have hsc := hs (st.2 ++ [r.2])
  rw [hleaves, List.append_assoc, ← List.map_append] at hsc
  refine bind_eq_ok.mpr ⟨(prev, leaves ++ (xs ++ ys).map (leafOf bm)), ?_, rfl⟩
  exact walkEntry_toIpld.mpr ⟨r, hr, hprev, hleaves ▸ hsc⟩

end Entry

/-- A block that holds a node lists what the node lists. -/
theorem lists_nodeBody {C : Codec} {bm : BlockMap} {walk : Walk} {cid : Cid} {cbor prev : Bytes}
    {node : MstNode} {xs : List (String × Cid)} (hb : bm cid = some cbor)
    (hd : C.fromSlice cbor = .ok node.toIpld) (h : NodeLists bm walk node.l node.e xs prev) :
    Lists bm (nodeBody C bm walk) cid xs := by
  intro leaves
  obtain ⟨ls, hl, hf⟩ := bind_eq_ok.mp (h leaves)
  have hleft : optionalLink [("e", .list (node.e.map MstEntry.toIpld)), ("l", linkOrNull node.l)]
      "l" = .ok node.l := by
    cases node.l <;> simp [optionalLink, linkOrNull, List.lookup_cons]
  simp only [nodeBody, getBlock, hb, hd, MstNode.toIpld, ipldMap_map, hleft, bind, Except.bind, hl,
    List.lookup_cons, BEq.rfl, hf]
  rfl

/-! ## The loop of `build_layer` -/

section Layer

variable (C : Codec) (bm : BlockMap) (walk : Walk)

/-- The invariant of the loop, after the keys `done`: the node read so far
lists them, up to those that wait for a subtree. -/
structure LayerInv (st : LayerState) (done : List (String × Cid)) : Prop where
  node : ∃ flat, done = flat ++ st.subtreeBuf ∧
    NodeLists bm walk st.leftSubtree st.nodeEntries flat st.prevKeyBytes
  prev : st.prevKeyBytes = [] ∨ ∃ x ∈ done, st.prevKeyBytes = asBytes x.1
  last : ∀ e ∈ st.nodeEntries.getLast?, e.t = none
  left : st.nodeEntries = [] → st.leftSubtree = none

/-- The trees that `sub` builds list their keys. -/
def SubLists (sub : List (String × Cid) → Except RepoError (Cid × Blocks)) : Prop :=
  ∀ xs cid bs, sub xs = .ok (cid, bs) → Holds bm bs → Listable bm xs → Lists bm walk cid xs

variable {C bm walk} {sub : List (String × Cid) → Except RepoError (Cid × Blocks)} {layer : Nat}

theorem layerInv_init : LayerInv bm walk {} [] where
  node := ⟨[], rfl, .nil linkLists_none⟩
  prev := .inl rfl
  last := by simp
  left := fun _ => rfl

theorem setLastT_append (sc : Option Cid) (es : List MstEntry) (e : MstEntry) :
    setLastT sc (es ++ [e]) = es ++ [{ e with t := sc }] := by
  fun_induction setLastT sc es with
  | case1 => rfl
  | case2 x => rfl
  | case3 x y rest ih => simpa [setLastT] using ih

@[simp] theorem attach_blocks (st : LayerState) (sc : Option Cid) :
    (st.attach sc).blocks = st.blocks := by
  unfold LayerState.attach
  split <;> rfl

@[simp] theorem attach_subtreeBuf (st : LayerState) (sc : Option Cid) :
    (st.attach sc).subtreeBuf = st.subtreeBuf := by
  unfold LayerState.attach
  split <;> rfl

@[simp] theorem attach_prevKeyBytes (st : LayerState) (sc : Option Cid) :
    (st.attach sc).prevKeyBytes = st.prevKeyBytes := by
  unfold LayerState.attach
  split <;> rfl

@[simp] theorem attach_leftSubtree (st : LayerState) (sc : Option Cid) (bs : Blocks)
    (buf : List (String × Cid)) :
    (({ st with blocks := bs, subtreeBuf := buf } : LayerState).attach sc).leftSubtree =
      (st.attach sc).leftSubtree := by
  unfold LayerState.attach
  split <;> rfl

@[simp] theorem attach_nodeEntries (st : LayerState) (sc : Option Cid) (bs : Blocks)
    (buf : List (String × Cid)) :
    (({ st with blocks := bs, subtreeBuf := buf } : LayerState).attach sc).nodeEntries =
      (st.attach sc).nodeEntries := by
  unfold LayerState.attach
  split <;> rfl

/-- Once the waiting keys hang below the node, it lists all the keys passed. -/
theorem LayerInv.attach {st : LayerState} {done : List (String × Cid)} {sc : Option Cid}
    (h : LayerInv bm walk st done) (hs : LinkLists bm walk sc st.subtreeBuf) :
    NodeLists bm walk (st.attach sc).leftSubtree (st.attach sc).nodeEntries done
      st.prevKeyBytes := by
  obtain ⟨flat, rfl, hnode⟩ := h.node
  rcases List.eq_nil_or_concat st.nodeEntries with hnil | ⟨es, e, hes⟩
  · rw [hnil, h.left hnil] at hnode
    obtain ⟨rfl, hprev⟩ := hnode.of_nil
    simp only [LayerState.attach, hnil, List.isEmpty_nil, ↓reduceIte, List.nil_append, hprev]
    exact .nil hs
  · have he : e.t = none := h.last e (by simp [hes])
    rw [hes, List.concat_eq_append] at hnode
    have hne : (es ++ [e]).isEmpty = false := by simp
    simp only [LayerState.attach, hes, List.concat_eq_append, hne, Bool.false_eq_true, ↓reduceIte,
      setLastT_append]
    exact hnode.setLast he hs

/-- What flushing the buffer does: nothing if it is empty, else the blocks of
its subtree are added. -/
theorem flushSubtree_cases {st st' : LayerState} {sc : Option Cid}
    (hf : flushSubtree sub st = .ok (st', sc)) :
    (st.subtreeBuf = [] ∧ st' = st ∧ sc = none) ∨
    ∃ cid bs, sub st.subtreeBuf = .ok (cid, bs) ∧ sc = some cid ∧
      st' = { st with blocks := st.blocks ++ bs, subtreeBuf := [] } := by
  unfold flushSubtree at hf
  split at hf
  · rename_i hempty
    cases hf
    exact .inl ⟨List.isEmpty_iff.mp hempty, rfl, rfl⟩
  · obtain ⟨⟨cid, bs⟩, hb, heq⟩ := bind_eq_ok.mp hf
    cases heq
    exact .inr ⟨cid, bs, hb, rfl, rfl⟩

theorem flushSubtree_holds {st st' : LayerState} {sc : Option Cid}
    (hf : flushSubtree sub st = .ok (st', sc)) (hold : Holds bm st'.blocks) :
    Holds bm st.blocks := by
  rcases flushSubtree_cases hf with ⟨-, rfl, -⟩ | ⟨cid, bs, -, -, rfl⟩
  · exact hold
  · exact (holds_append.mp hold).1

theorem flushSubtree_lists (hsub : SubLists bm walk sub) {st st' : LayerState} {sc : Option Cid}
    (hf : flushSubtree sub st = .ok (st', sc)) (hlist : Listable bm st.subtreeBuf)
    (hold : Holds bm st'.blocks) :
    LinkLists bm walk sc st.subtreeBuf ∧ st' = { st with blocks := st'.blocks, subtreeBuf := [] } := by
  rcases flushSubtree_cases hf with ⟨hnil, rfl, rfl⟩ | ⟨cid, bs, hb, rfl, rfl⟩
  · exact ⟨hnil ▸ linkLists_none, by rw [← hnil]⟩
  · exact ⟨linkLists_some (hsub _ _ _ hb (holds_append.mp hold).2 hlist), rfl⟩

/-! ## One key of the loop -/

theorem layerStep_holds {st st' : LayerState} {x : String × Cid}
    (hs : layerStep C sub layer st x = .ok st') (hold : Holds bm st'.blocks) :
    Holds bm st.blocks := by
  unfold layerStep at hs
  split at hs
  · cases hs
    exact hold
  · obtain ⟨⟨st₁, sc⟩, hf, heq⟩ := bind_eq_ok.mp hs
    cases heq
    simp only [attach_blocks] at hold
    exact flushSubtree_holds hf hold

theorem LayerInv.listable_subtreeBuf {st : LayerState} {done : List (String × Cid)}
    (h : LayerInv bm walk st done) (hlist : Listable bm done) : Listable bm st.subtreeBuf := by
  obtain ⟨flat, rfl, -⟩ := h.node
  exact hlist.sublist (List.sublist_append_right _ _)

theorem LayerInv.prefix_lt {st : LayerState} {done : List (String × Cid)} {x : String × Cid}
    (h : LayerInv bm walk st done) (hlist : Listable bm (done ++ [x])) :
    commonPrefixLen st.prevKeyBytes (asBytes x.1) < 2 ^ 32 := by
  rcases h.prev with hnil | ⟨y, hy, hprev⟩
  · simp [hnil]
  · rw [hprev]
    exact (List.pairwise_append.mp hlist.prefixes).2.2 y hy x (by simp)

theorem LayerInv.buffer {st : LayerState} {done : List (String × Cid)} {x : String × Cid}
    (h : LayerInv bm walk st done) :
    LayerInv bm walk { st with subtreeBuf := st.subtreeBuf ++ [x] } (done ++ [x]) where
  node := by
    obtain ⟨flat, rfl, hnode⟩ := h.node
    exact ⟨flat, by simp, hnode⟩
  prev := h.prev.imp_right fun ⟨y, hy, hprev⟩ => ⟨y, by simp [hy], hprev⟩
  last := h.last
  left := h.left

theorem layerStep_inv (hsub : SubLists bm walk sub) {st st' : LayerState}
    {done : List (String × Cid)} {x : String × Cid} (hlist : Listable bm (done ++ [x]))
    (h : LayerInv bm walk st done) (hs : layerStep C sub layer st x = .ok st')
    (hold : Holds bm st'.blocks) : LayerInv bm walk st' (done ++ [x]) := by
  unfold layerStep at hs
  split at hs
  · cases hs
    exact h.buffer
  · obtain ⟨⟨st₁, sc⟩, hf, heq⟩ := bind_eq_ok.mp hs
    cases heq
    have hbuf := h.listable_subtreeBuf (hlist.sublist (List.sublist_append_left _ _))
    simp only [attach_blocks] at hold
    obtain ⟨hsc, hst₁⟩ := flushSubtree_lists hsub hf hbuf hold
    have hprev : st₁.prevKeyBytes = st.prevKeyBytes := by rw [hst₁]
    have hnode := h.attach hsc
    have hatt : NodeLists bm walk (st₁.attach sc).leftSubtree (st₁.attach sc).nodeEntries done
        st.prevKeyBytes := by
      rw [hst₁, attach_leftSubtree, attach_nodeEntries]
      exact hnode
    refine ⟨⟨done ++ [x], by rw [attach_subtreeBuf, hst₁]; simp, ?_⟩, ?_, by simp, by simp⟩
    · simp only [attach_prevKeyBytes, hprev]
      have hlt := h.prefix_lt hlist
      refine hatt.append (readLeaf_commonPrefix hlt (Nat.mod_eq_of_lt hlt) rfl rfl ?_)
        linkLists_none
      exact hlist.records x (by simp)
    · exact .inr ⟨x, by simp, rfl⟩

/-! ## A layer -/

theorem layerLoop_inv (hsub : SubLists bm walk sub) {st : LayerState}
    {entries : List (String × Cid)} (hlist : Listable bm entries)
    (hs : entries.foldlM (layerStep C sub layer) {} = .ok st) (hold : Holds bm st.blocks) :
    LayerInv bm walk st entries := by
  refine foldlM_inv (I := fun st done => Holds bm st.blocks → LayerInv bm walk st done)
    (fun {st₁ st₂ done x rest} hxs ih hx hold => ?_) (fun _ => layerInv_init) hs hold
  have hdone : Listable bm (done ++ [x]) := by
    have hsplit : entries = (done ++ [x]) ++ rest := by simp [hxs]
    exact hlist.sublist (hsplit ▸ List.sublist_append_left _ _)
  exact layerStep_inv hsub hdone (ih (layerStep_holds hx hold)) hx hold

/-- A layer lists its keys if the layers below it do. -/
theorem layerBody_lists (hsub : SubLists bm walk sub)
    (hdec : ∀ (node : MstNode) cbor, C.toVec node.toIpld = .ok cbor →
      C.fromSlice cbor = .ok node.toIpld) :
    SubLists bm (nodeBody C bm walk) (layerBody C sub layer) := by
  intro entries cid bs hb hold hlist
  obtain ⟨st, hloop, hb⟩ := bind_eq_ok.mp hb
  obtain ⟨st', hfin, hb⟩ := bind_eq_ok.mp hb
  obtain ⟨⟨cid', cbor⟩, hw, heq⟩ := bind_eq_ok.mp hb
  cases heq
  obtain ⟨hst', hnew⟩ := holds_append.mp hold
  suffices hnode : NodeLists bm walk st'.leftSubtree st'.nodeEntries entries st'.prevKeyBytes by
    unfold writeNode at hw
    split at hw
    · cases hw
    · rename_i cbor' hvec
      cases hw
      exact lists_nodeBody (hnew _ _ (by simp)) (hdec _ _ hvec) hnode
  unfold flushLast at hfin
  split at hfin
  · rename_i hempty
    cases hfin
    obtain ⟨flat, hflat, hnode⟩ := (layerLoop_inv hsub hlist hloop hst').node
    rw [List.isEmpty_iff.mp hempty, List.append_nil] at hflat
    exact hflat ▸ hnode
  · obtain ⟨⟨sc, sb⟩, hsb, heq⟩ := bind_eq_ok.mp hfin
    cases heq
    rw [attach_blocks] at hst'
    obtain ⟨hst, hsbh⟩ := holds_append.mp hst'
    have hinv := layerLoop_inv hsub hlist hloop hst
    have hsc := hsub _ _ _ hsb hsbh (hinv.listable_subtreeBuf hlist)
    rw [attach_leftSubtree, attach_nodeEntries, attach_prevKeyBytes]
    exact hinv.attach (linkLists_some hsc)

theorem layerStep_zero {st : LayerState} (h : st.subtreeBuf = []) (x : String × Cid) :
    ∃ st', st'.subtreeBuf = [] ∧ ∀ sub, layerStep C sub 0 st x = .ok st' := by
  refine ⟨?_, ?_, fun sub => ?_⟩
  rotate_left 2
  · simp only [layerStep, Nat.not_lt_zero, ↓reduceIte, flushSubtree, h, List.isEmpty_nil]
    rfl
  · rw [attach_subtreeBuf, h]

/-- At layer 0 no key waits for a subtree, so none is built. -/
theorem layerBody_zero (sub' : List (String × Cid) → Except RepoError (Cid × Blocks))
    (entries : List (String × Cid)) : layerBody C sub 0 entries = layerBody C sub' 0 entries := by
  have hloop : ∀ st : LayerState, st.subtreeBuf = [] →
      ∃ st', st'.subtreeBuf = [] ∧ ∀ sub, entries.foldlM (layerStep C sub 0) st = .ok st' := by
    induction entries with
    | nil => exact fun st h => ⟨st, h, fun sub => rfl⟩
    | cons x entries ih =>
      intro st h
      obtain ⟨st₁, hnil, hstep⟩ := layerStep_zero (C := C) h x
      obtain ⟨st', hnil', hrest⟩ := ih st₁ hnil
      refine ⟨st', hnil', fun sub => ?_⟩
      rw [List.foldlM_cons, hstep sub]
      exact hrest sub
  obtain ⟨st', hnil, h⟩ := hloop {} rfl
  simp only [layerBody, h, bind, Except.bind, flushLast, hnil, List.isEmpty_nil, ↓reduceIte]

end Layer

/-! ## The tree -/

theorem buildLayer_lists {C : Codec} {bm : BlockMap}
    (hdec : ∀ (node : MstNode) cbor, C.toVec node.toIpld = .ok cbor →
      C.fromSlice cbor = .ok node.toIpld) (layer : Nat) :
    ∀ levels, layer < levels → SubLists bm (walkNode C bm levels) (buildLayer C layer) := by
  induction layer with
  | zero =>
    rintro (_ | levels) hlt
    · omega
    · exact layerBody_lists (fun _ _ _ h => by cases h) hdec
  | succ layer ih =>
    rintro (_ | levels) hlt
    · omega
    · exact layerBody_lists (ih levels (by omega)) hdec

theorem foldl_max_le {xs : List Nat} {a n : Nat} (ha : a ≤ n) (h : ∀ x ∈ xs, x ≤ n) :
    xs.foldl max a ≤ n := by
  induction xs generalizing a with
  | nil => exact ha
  | cons x xs ih => exact ih (Nat.max_le.mpr ⟨ha, h x (by simp)⟩) fun y hy => h y (by simp [hy])

/-- The walk lists the keys the tree was built of. -/
theorem buildMst_lists {C : Codec} {bm : BlockMap}
    (hdec : ∀ (node : MstNode) cbor, C.toVec node.toIpld = .ok cbor →
      C.fromSlice cbor = .ok node.toIpld)
    {entries : List (String × Cid)} {root : Cid} {bs : Blocks}
    (hb : buildMst C entries = .ok (root, bs)) (hold : Holds bm bs) (hlist : Listable bm entries) :
    walkMst C bm root = .ok (entries.map (leafOf bm)) := by
  have hlists : Lists bm (walkNode C bm (MAX_MST_DEPTH + 1)) root entries := by
    unfold buildMst at hb
    split at hb
    · rename_i hempty
      obtain ⟨⟨cid, cbor⟩, hw, heq⟩ := bind_eq_ok.mp hb
      cases heq
      unfold writeNode at hw
      split at hw
      · cases hw
      · rename_i cbor' hvec
        cases hw
        rw [List.isEmpty_iff.mp hempty]
        exact lists_nodeBody (hold _ _ (by simp)) (hdec _ _ hvec) (.nil linkLists_none)
    · refine buildLayer_lists hdec _ _ ?_ _ _ _ hb hold hlist
      refine Nat.lt_of_le_of_lt (foldl_max_le (Nat.zero_le 52) ?_) (by decide)
      simp only [List.mem_map, forall_exists_index, and_imp]
      rintro _ x - rfl
      exact leadingZerosOnHash_le C x.1
  simpa [walkMst] using hlists []

section Total

variable {C : Codec} (henc : ∀ node : MstNode, ∃ cbor, C.toVec node.toIpld = .ok cbor)
include henc

theorem writeNode_ok (node : MstNode) : ∃ r, writeNode C node = .ok r := by
  obtain ⟨cbor, h⟩ := henc node
  exact ⟨(cidFromDagcbor C cbor, cbor), by simp only [writeNode, h]⟩

theorem layerBody_ok {sub : List (String × Cid) → Except RepoError (Cid × Blocks)}
    (hsub : ∀ xs, ∃ r, sub xs = .ok r) (layer : Nat) (entries : List (String × Cid)) :
    ∃ r, layerBody C sub layer entries = .ok r := by
  have hflush : ∀ st, ∃ r, flushSubtree sub st = .ok r := by
    intro st
    obtain ⟨r, hr⟩ := hsub st.subtreeBuf
    unfold flushSubtree
    split
    · exact ⟨_, rfl⟩
    · exact ⟨_, bind_eq_ok.mpr ⟨r, hr, rfl⟩⟩
  have hlast : ∀ st, ∃ r, flushLast sub st = .ok r := by
    intro st
    obtain ⟨r, hr⟩ := hsub st.subtreeBuf
    unfold flushLast
    split
    · exact ⟨_, rfl⟩
    · exact ⟨_, bind_eq_ok.mpr ⟨r, hr, rfl⟩⟩
  have hstep : ∀ st x, ∃ st', layerStep C sub layer st x = .ok st' := by
    intro st x
    obtain ⟨r, hr⟩ := hflush st
    unfold layerStep
    split
    · exact ⟨_, rfl⟩
    · exact ⟨_, bind_eq_ok.mpr ⟨r, hr, rfl⟩⟩
  have hloop : ∀ st, ∃ st', entries.foldlM (layerStep C sub layer) st = .ok st' := by
    induction entries with
    | nil => exact fun st => ⟨st, rfl⟩
    | cons x entries ih =>
      intro st
      obtain ⟨st₁, h₁⟩ := hstep st x
      obtain ⟨st', h⟩ := ih st₁
      refine ⟨st', ?_⟩
      rw [List.foldlM_cons]
      exact bind_eq_ok.mpr ⟨st₁, h₁, h⟩
  obtain ⟨st, h⟩ := hloop {}
  obtain ⟨st', h'⟩ := hlast st
  obtain ⟨r, hw⟩ := writeNode_ok henc { e := st'.nodeEntries, l := st'.leftSubtree }
  exact ⟨_, bind_eq_ok.mpr ⟨st, h, bind_eq_ok.mpr ⟨st', h', bind_eq_ok.mpr ⟨r, hw, rfl⟩⟩⟩⟩

theorem buildLayer_ok (layer : Nat) (entries : List (String × Cid)) :
    ∃ r, buildLayer C layer entries = .ok r := by
  induction layer generalizing entries with
  | zero =>
    rw [buildLayer, layerBody_zero fun _ => .ok (⟨0, 0, 0, []⟩, [])]
    exact layerBody_ok henc (fun _ => ⟨_, rfl⟩) 0 entries
  | succ layer ih => exact layerBody_ok henc ih (layer + 1) entries

/-- Every list has a tree, if the encoder encodes every node. -/
theorem buildMst_ok (entries : List (String × Cid)) : ∃ r, buildMst C entries = .ok r := by
  unfold buildMst
  split
  · obtain ⟨r, hw⟩ := writeNode_ok henc { e := [], l := none }
    exact ⟨_, bind_eq_ok.mpr ⟨r, hw, rfl⟩⟩
  · exact buildLayer_ok henc _ entries

end Total

/-! ## The round trip -/

section OneNode

/-- The entry a map spells. -/
def entryOfIpld : Ipld → Option MstEntry
  | .map [(_, .bytes k), (_, .integer p), (_, .null), (_, .link v)] => some ⟨k, p.toNat, none, v⟩
  | .map [(_, .bytes k), (_, .integer p), (_, .link t), (_, .link v)] =>
      some ⟨k, p.toNat, some t, v⟩
  | _ => none

/-- The node a map spells. -/
def nodeOfIpld : Ipld → Option MstNode
  | .map [(_, .list es), (_, .null)] => (es.mapM entryOfIpld).map fun e => ⟨e, none⟩
  | .map [(_, .list es), (_, .link l)] => (es.mapM entryOfIpld).map fun e => ⟨e, some l⟩
  | _ => none

theorem entryOfIpld_toIpld (x : MstEntry) : entryOfIpld x.toIpld = some x := by
  obtain ⟨k, p, t, v⟩ := x
  cases t <;> simp [MstEntry.toIpld, entryOfIpld, linkOrNull]

theorem nodeOfIpld_toIpld (node : MstNode) : nodeOfIpld node.toIpld = some node := by
  have hes : (node.e.map MstEntry.toIpld).mapM entryOfIpld = some node.e := by
    induction node.e with
    | nil => rfl
    | cons x es ih => simp [List.mapM_cons, entryOfIpld_toIpld, ih]
  obtain ⟨es, l⟩ := node
  cases l <;> simp [MstNode.toIpld, nodeOfIpld, linkOrNull, hes]

/-- A codec that knows one node and its encoding. -/
def oneNodeCodec (sha256 : Bytes → Vector UInt8 32) (node : MstNode) (cbor : Bytes) : Codec where
  sha256 := sha256
  toVec ipld := if nodeOfIpld ipld = some node then .ok cbor else .error "unsupported"
  fromSlice bytes := if bytes = cbor then .ok node.toIpld else .error "invalid"

theorem oneNodeCodec_dec (sha256 : Bytes → Vector UInt8 32) (node : MstNode) (cbor : Bytes) :
    ∀ (n : MstNode) b, (oneNodeCodec sha256 node cbor).toVec n.toIpld = .ok b →
      (oneNodeCodec sha256 node cbor).fromSlice b = .ok n.toIpld := by
  intro n b h
  simp only [oneNodeCodec, nodeOfIpld_toIpld, Option.some.injEq] at h ⊢
  split at h
  · rename_i hn
    cases h
    simp [hn]
  · cases h

/-- The record `{"text": "hi", "$type": "app.bsky.feed.post"}` in DAG-CBOR. -/
def postBytes : Bytes :=
  [162, 100, 116, 101, 120, 116, 98, 104, 105, 101, 36, 116, 121, 112, 101, 114, 97, 112, 112,
   46, 98, 115, 107, 121, 46, 102, 101, 101, 100, 46, 112, 111, 115, 116]

def postDigest : Bytes :=
  [140, 9, 248, 37, 85, 241, 99, 38, 18, 85, 21, 40, 193, 30, 121, 30, 13, 91, 155, 42, 137,
   109, 42, 232, 181, 233, 174, 120, 196, 141, 128, 33]

def postCid : Cid := { version := 1, codec := 0x71, hashCode := 0x12, digest := postDigest }

def postKey : String := "app.bsky.feed.post/3jzfcijpj2z2a"

/-- The node of the tree that holds this record alone. -/
def postNode : MstNode :=
  { e := [{ k := asBytes postKey, p := 0, t := none, v := postCid }], l := none }

/-- `postNode` in DAG-CBOR. -/
def postNodeBytes : Bytes :=
  [162, 97, 101, 129, 164, 97, 107, 88, 32, 97, 112, 112, 46, 98, 115, 107, 121, 46, 102, 101,
   101, 100, 46, 112, 111, 115, 116, 47, 51, 106, 122, 102, 99, 105, 106, 112, 106, 50, 122,
   50, 97, 97, 112, 0, 97, 116, 246, 97, 118, 216, 42, 88, 37, 0, 1, 113, 18, 32, 140, 9, 248,
   37, 85, 241, 99, 38, 18, 85, 21, 40, 193, 30, 121, 30, 13, 91, 155, 42, 137, 109, 42, 232,
   181, 233, 174, 120, 196, 141, 128, 33, 97, 108, 246]

/-- SHA-256 of `postNodeBytes`. -/
def postNodeDigest : Vector UInt8 32 :=
  #v[237, 116, 23, 11, 42, 203, 179, 122, 55, 170, 24, 173, 116, 146, 247, 58, 80, 230, 214, 1,
   132, 148, 241, 185, 172, 62, 20, 241, 126, 3, 104, 136]

/-- SHA-256 of `postKey`. -/
def postKeyDigest : Vector UInt8 32 :=
  #v[184, 129, 240, 162, 242, 201, 67, 232, 135, 109, 191, 209, 37, 218, 139, 153, 215, 95, 96,
   138, 156, 171, 132, 28, 128, 246, 103, 13, 233, 190, 38, 125]

def postSha256 (bytes : Bytes) : Vector UInt8 32 :=
  if bytes = postNodeBytes then postNodeDigest else postKeyDigest

def postCodec : Codec := oneNodeCodec postSha256 postNode postNodeBytes

def postNodeCid : Cid := cidFromDagcbor postCodec postNodeBytes

theorem asBytes_append (s t : String) : asBytes (s ++ t) = asBytes s ++ asBytes t := by
  simp [asBytes]

theorem asBytes_a : asBytes "a" = [97] := by decide

theorem asBytes_b : asBytes "b" = [98] := by decide

section LongPrefix

variable (s : String)

def longEntries : List (String × Cid) := [(s ++ "a", postCid), (s ++ "b", postCid)]

/-- The node of two keys that share the bytes of `s`, when there are 2³² of
them: they are cut off the second key, and their number wraps to 0. -/
def longNode : MstNode :=
  { e := [{ k := asBytes (s ++ "a"), p := 0, t := none, v := postCid },
      { k := asBytes "b", p := 0, t := none, v := postCid }], l := none }

def longCodec : Codec := oneNodeCodec (fun _ => Vector.replicate 32 255) (longNode s) [0]

def longRoot : Cid := cidFromDagcbor (longCodec s) [0]

variable {s}

theorem leadingZerosOnHash_long (key : String) : leadingZerosOnHash (longCodec s) key = 0 := by
  have h : (((base32Encode (Vector.replicate 32 255).toList).map Char.toLower).takeWhile
      (· = 'a')).length = 0 := by decide
  exact h

theorem commonPrefixLen_long :
    commonPrefixLen (asBytes (s ++ "a")) (asBytes (s ++ "b")) = (asBytes s).length := by
  have hab : commonPrefixLen (asBytes "a") (asBytes "b") = 0 := by
    rw [asBytes_a, asBytes_b, commonPrefixLen_cons_ne (by decide)]
  rw [asBytes_append, asBytes_append, commonPrefixLen_append_left, hab, Nat.add_zero]

theorem writeNode_long : writeNode (longCodec s) (longNode s) = .ok (longRoot s, [0]) := by
  simp [writeNode, longCodec, oneNodeCodec, nodeOfIpld_toIpld, longRoot]

theorem buildMst_long (hs : (asBytes s).length = 2 ^ 32) :
    buildMst (longCodec s) (longEntries s) = .ok (longRoot s, [(longRoot s, [0])]) := by
  have hdrop : (asBytes (s ++ "b")).drop (2 ^ 32) = asBytes "b" := by
    rw [← hs, asBytes_append, List.drop_left]
  have hnode : (⟨[⟨asBytes (s ++ "a"), 0, none, postCid⟩,
      ⟨(asBytes (s ++ "b")).drop (2 ^ 32), 0, none, postCid⟩], none⟩ : MstNode) = longNode s := by
    rw [hdrop, longNode]
  simp only [buildMst, longEntries, List.isEmpty_cons, Bool.false_eq_true, ↓reduceIte,
    List.map_cons, List.map_nil, leadingZerosOnHash_long, List.foldl_cons, List.foldl_nil,
    Nat.max_self, buildLayer, layerBody, List.foldlM_cons, List.foldlM_nil, layerStep,
    Nat.lt_irrefl, flushSubtree, List.isEmpty_nil, bind, Except.bind, pure, Except.pure,
    LayerState.attach, List.nil_append, setLastT, commonPrefixLen_nil_left, commonPrefixLen_long,
    hs, Nat.mod_self, Nat.zero_mod, List.drop_zero, List.cons_append, flushLast, hnode,
    writeNode_long]

theorem walkMst_long :
    walkMst (longCodec s) (blocksToMap ([(longRoot s, [0])] ++ [(postCid, postBytes)]))
      (longRoot s) = .ok [⟨s ++ "a", postCid, postBytes⟩, ⟨"b", postCid, postBytes⟩] := by
  have hne : longRoot s ≠ postCid := by
    have h : (Vector.replicate 32 255).toList ≠ postDigest := by decide
    exact fun heq => h (congrArg Cid.digest heq)
  have hpost : blocksToMap ([(longRoot s, [0])] ++ [(postCid, postBytes)]) postCid =
      some postBytes := by simp [blocksToMap]
  have hroot : blocksToMap ([(longRoot s, [0])] ++ [(postCid, postBytes)]) (longRoot s) =
      some [0] := by simp [blocksToMap, hne.symm]
  have hdec : (longCodec s).fromSlice [0] = .ok (longNode s).toIpld := by
    simp [longCodec, oneNodeCodec]
  generalize blocksToMap ([(longRoot s, [0])] ++ [(postCid, postBytes)]) = bm at *
  have hleaf : ∀ key, leafOf bm (key, postCid) = ⟨key, postCid, postBytes⟩ := fun key => by
    simp [leafOf, hpost]
  have hread : ∀ prev key, readLeaf bm prev (entryMap ⟨asBytes key, 0, none, postCid⟩ .null) =
      .ok (asBytes key, leafOf bm (key, postCid)) := fun prev key =>
    readLeaf_ok (x := (key, postCid)) (Nat.zero_le _) (Nat.two_pow_pos 64) rfl rfl ⟨_, hpost⟩
  have hfirst : NodeLists bm (walkNode (longCodec s) bm MAX_MST_DEPTH) none
      ([] ++ [⟨asBytes (s ++ "a"), 0, none, postCid⟩]) ([] ++ [(s ++ "a", postCid)])
      (asBytes (s ++ "a")) := .append (.nil linkLists_none) (hread _ _) linkLists_none
  have hnode : NodeLists bm (walkNode (longCodec s) bm MAX_MST_DEPTH) none (longNode s).e
      ([] ++ [(s ++ "a", postCid)] ++ [("b", postCid)]) (asBytes "b") :=
    .append hfirst (hread _ _) linkLists_none
  have hlists := lists_nodeBody hroot hdec hnode []
  simpa [hleaf, walkMst, walkNode] using hlists

end LongPrefix

theorem length_asBytes_replicate (n : Nat) :
    (asBytes (String.ofList (List.replicate n 'a'))).length = n := by
  induction n with
  | zero => decide
  | succ n ih =>
    have h : String.ofList (List.replicate (n + 1) 'a') =
        "a" ++ String.ofList (List.replicate n 'a') := by
      simp [List.replicate_succ, String.ofList_cons]
    rw [h, asBytes_append, List.length_append, ih, asBytes_a, List.length_singleton, Nat.add_comm]

end OneNode

end Seiran.Atp
