import Seiran.Model.Atp.Car
import Seiran.Proof.Atp.Mst
import Seiran.Proof.Atp.Varint

/-!
# Reading a CAR file back

* `readSection_carSection`, `readSections_flatMap`: a block is read back, and so
  are all the blocks, if none is above the limit;
* `decodeCar_of_encodeCar`: the file;
* `splitRecordKey_entryKey`: the key of a record;
* `decodeRepoRecords_encodeCar`: the records of a repository.
-/

namespace Seiran.Atp

/-! ## Lengths -/

theorem encodeUvarint_ne_nil (n : Nat) : encodeUvarint n ≠ [] := by
  simp only [encodeUvarint, encodeUvarintLoop]
  split <;> simp

@[simp] theorem getBytes_append (a b : Bytes) : getBytes (a ++ b) a.length = .ok (a, b) := by
  simp [getBytes]

/-! ## Blocks -/

section Sections

variable {B : CidCodec}

/-- Reading inverts writing for a CID. -/
def ReadsBack (B : CidCodec) (cid : Cid) : Prop :=
  ∀ rest, B.readBytes (B.toBytes cid ++ rest) = .ok (cid, (B.toBytes cid).length)

/-- The length a section announces. -/
def sectionLength (B : CidCodec) (block : Cid × Bytes) : Nat :=
  (B.toBytes block.1).length + block.2.length

theorem carSection_ne_nil (B : CidCodec) (block : Cid × Bytes) : carSection B block ≠ [] := by
  simp [carSection, encodeUvarint_ne_nil]

theorem readSection_carSection {block : Cid × Bytes} (hcid : ReadsBack B block.1)
    (hlen : sectionLength B block ≤ MAX_BLOCK_SIZE) (rest : Bytes) :
    readSection B (carSection B block ++ rest) = .ok (block, rest) := by
  have hlen' : (B.toBytes block.1 ++ block.2).length = sectionLength B block := by
    simp [sectionLength]
  have h64 : sectionLength B block < 2 ^ 64 := Nat.lt_of_le_of_lt hlen (by decide)
  have hget : getBytes (B.toBytes block.1 ++ block.2 ++ rest) (sectionLength B block) =
      .ok (B.toBytes block.1 ++ block.2, rest) := by
    rw [← hlen', getBytes_append]
  simp only [carSection, readSection, List.append_assoc]
  rw [readUvarint_encodeUvarint (by simpa [sectionLength] using h64)]
  simp only [List.append_assoc, sectionLength] at hget hlen
  simp [bind, Except.bind, pure, Except.pure, hget, Nat.not_lt.mpr hlen, hcid block.2]

theorem readSection_tooLarge {block : Cid × Bytes} (hlen : MAX_BLOCK_SIZE < sectionLength B block)
    (h64 : sectionLength B block < 2 ^ 64) (rest : Bytes) :
    readSection B (carSection B block ++ rest) = .error (.blockTooLarge MAX_BLOCK_SIZE) := by
  simp only [carSection, readSection, List.append_assoc]
  rw [readUvarint_encodeUvarint (by simpa [sectionLength] using h64)]
  unfold sectionLength at hlen
  simp only [bind, Except.bind]
  rw [if_pos hlen]
  rfl

theorem length_le_length_flatMap (blocks : Blocks) :
    blocks.length ≤ (blocks.flatMap (carSection B)).length := by
  induction blocks with
  | nil => simp
  | cons block blocks ih =>
    have := List.length_pos_iff.mpr (carSection_ne_nil B block)
    simp only [List.flatMap_cons, List.length_cons, List.length_append]
    omega

/-- The sections are read up to the bytes that come after them. -/
theorem readSections_append {blocks : Blocks} (hcid : ∀ x ∈ blocks, ReadsBack B x.1)
    (hlen : ∀ x ∈ blocks, sectionLength B x ≤ MAX_BLOCK_SIZE) (rounds : Nat) (rest : Bytes) :
    readSections B (blocks.length + rounds) (blocks.flatMap (carSection B) ++ rest) =
      (readSections B rounds rest).map fun more => blocks ++ more := by
  induction blocks with
  | nil =>
    simp only [List.length_nil, Nat.zero_add, List.flatMap_nil, List.nil_append]
    cases readSections B rounds rest <;> rfl
  | cons block blocks ih =>
    have hne : (carSection B block ++ (blocks.flatMap (carSection B) ++ rest)).isEmpty = false := by
      simp [carSection_ne_nil]
    rw [List.flatMap_cons, List.append_assoc, List.length_cons,
      show blocks.length + 1 + rounds = blocks.length + rounds + 1 by omega, readSections, hne,
      readSection_carSection (hcid _ (by simp)) (hlen _ (by simp))]
    simp only [Bool.false_eq_true, ↓reduceIte, bind, Except.bind]
    rw [ih (fun x hx => hcid x (by simp [hx])) fun x hx => hlen x (by simp [hx])]
    cases readSections B rounds rest <;> rfl

theorem readSections_flatMap {blocks : Blocks} (hcid : ∀ x ∈ blocks, ReadsBack B x.1)
    (hlen : ∀ x ∈ blocks, sectionLength B x ≤ MAX_BLOCK_SIZE) {rounds : Nat}
    (hr : blocks.length ≤ rounds) :
    readSections B rounds (blocks.flatMap (carSection B)) = .ok blocks := by
  obtain ⟨extra, rfl⟩ := Nat.exists_eq_add_of_le hr
  have h := readSections_append hcid hlen extra []
  have hnil : readSections B extra [] = .ok [] := by cases extra <;> rfl
  rw [List.append_nil, hnil] at h
  simpa [Except.map] using h

end Sections

/-! ## The file -/

section File

variable {C : Codec} {B : CidCodec}

theorem extractRoots_carHeader (root : Cid) : extractRoots (carHeader root) = .ok [root] := rfl

/-- What the decoder allows of a file with these blocks. -/
structure Fits (C : Codec) (B : CidCodec) (root : Cid) (blocks : Blocks) (car : Bytes) : Prop where
  header : ∀ h, C.toVec (carHeader root) = .ok h → h.length ≤ MAX_HEADER_SIZE
  sections : ∀ x ∈ blocks, sectionLength B x ≤ MAX_BLOCK_SIZE
  car : car.length ≤ MAX_CAR_SIZE

theorem encodeCar_eq_ok {root : Cid} {blocks : Blocks} {car : Bytes}
    (h : encodeCar C B root blocks = .ok car) :
    ∃ header, C.toVec (carHeader root) = .ok header ∧
      car = encodeUvarint header.length ++ (header ++ blocks.flatMap (carSection B)) := by
  obtain ⟨header, hh, h⟩ := bind_eq_ok.mp h
  unfold toCbor at hh
  split at hh
  · cases hh
  · rename_i cbor hvec
    cases hh
    cases h
    exact ⟨header, hvec, by simp⟩

/-- Up to the blocks, a file is read whatever comes after its header. -/
theorem decodeCar_header {root : Cid} {header : Bytes} {rest : Bytes}
    (hheader : C.fromSlice header = .ok (carHeader root)) (hlen : header.length ≤ MAX_HEADER_SIZE)
    (hcar : (encodeUvarint header.length ++ (header ++ rest)).length ≤ MAX_CAR_SIZE) :
    decodeCar C B (encodeUvarint header.length ++ (header ++ rest)) =
      (readSections B rest.length rest).map fun blocks => { roots := [root], blocks } := by
  have hne : (encodeUvarint header.length ++ (header ++ rest)).isEmpty = false := by
    simp [encodeUvarint_ne_nil]
  have h64 : header.length < 2 ^ 64 := Nat.lt_of_le_of_lt hlen (by decide)
  unfold decodeCar
  rw [if_neg (Nat.not_lt.mpr hcar), hne, readUvarint_encodeUvarint h64]
  simp only [pure, Except.pure, bind, Except.bind, Bool.false_eq_true, ↓reduceIte,
    if_neg (Nat.not_lt.mpr hlen), getBytes_append, hheader, extractRoots_carHeader]
  cases readSections B rest.length rest <;> rfl

/-- The file of a root and blocks within the limits is read back. -/
theorem decodeCar_of_encodeCar {root : Cid} {blocks : Blocks} {car : Bytes}
    (hheader : ∀ h, C.toVec (carHeader root) = .ok h → C.fromSlice h = .ok (carHeader root))
    (hcid : ∀ x ∈ blocks, ReadsBack B x.1) (hcar : encodeCar C B root blocks = .ok car)
    (hfits : Fits C B root blocks car) :
    decodeCar C B car = .ok { roots := [root], blocks } := by
  obtain ⟨header, hvec, rfl⟩ := encodeCar_eq_ok hcar
  rw [decodeCar_header (hheader _ hvec) (hfits.header _ hvec) hfits.car,
    readSections_flatMap hcid hfits.sections (length_le_length_flatMap blocks)]
  rfl

end File

/-! ## The key of a record -/

theorem splitOnceSlash_append {collection rkey : List Char} (h : '/' ∉ collection) :
    splitOnceSlash (collection ++ '/' :: rkey) = some (collection, rkey) := by
  induction collection with
  | nil => rfl
  | cons c collection ih =>
    have hc : c ≠ '/' := fun hc => h (by simp [hc])
    rw [List.cons_append, splitOnceSlash, if_neg hc, ih fun hmem => h (by simp [hmem])]
    rfl

theorem splitRecordKey_append {collection rkey : String} (h : '/' ∉ collection.toList) :
    splitRecordKey (collection ++ "/" ++ rkey) = .ok (collection, rkey) := by
  have hkey : (collection ++ "/" ++ rkey).toList = collection.toList ++ '/' :: rkey.toList := by
    simp
  rw [splitRecordKey, hkey, splitOnceSlash_append h]
  simp

/-! ## The records of a repository -/

/-- `collection/rkey` -/
def DecodedRecord.key (r : DecodedRecord) : String := r.collection ++ "/" ++ r.rkey

theorem mapM_decodedRecord {bm : BlockMap} {records : List DecodedRecord}
    (hkey : ∀ r ∈ records, '/' ∉ r.collection.toList)
    (hbm : ∀ r ∈ records, bm r.cid = some r.bytes) :
    ((records.map fun r => (r.key, r.cid)).map (leafOf bm)).mapM decodedRecord = .ok records := by
  induction records with
  | nil => rfl
  | cons r records ih =>
    have hr : decodedRecord (leafOf bm (r.key, r.cid)) = .ok r := by
      simp [decodedRecord, leafOf, DecodedRecord.key, splitRecordKey_append (hkey r (by simp)),
        hbm r (by simp), bind, Except.bind, pure, Except.pure]
    simp only [List.map_cons, List.mapM_cons, hr, bind, Except.bind,
      ih (fun x hx => hkey x (by simp [hx])) fun x hx => hbm x (by simp [hx]), pure, Except.pure]

/-- The blocks of a repository: its commit, its tree and its records. -/
def repoBlocks (commit : Cid × Bytes) (mst : Blocks) (records : List DecodedRecord) : Blocks :=
  commit :: (mst ++ records.map fun r => (r.cid, r.bytes))

/-- What is taken from the crates that read and write DAG-CBOR and CIDs: the
nodes of a tree, the header of the file and the CIDs of its blocks are read
back. -/
structure Inverts (C : Codec) (B : CidCodec) (root : Cid) (blocks : Blocks) : Prop where
  node : ∀ (node : MstNode) cbor, C.toVec node.toIpld = .ok cbor →
    C.fromSlice cbor = .ok node.toIpld
  header : ∀ h, C.toVec (carHeader root) = .ok h → C.fromSlice h = .ok (carHeader root)
  cid : ∀ x ∈ blocks, ReadsBack B x.1

/-- The blocks of one CID are equal. -/
def Consistent (blocks : Blocks) : Prop := ∀ x ∈ blocks, ∀ y ∈ blocks, x.1 = y.1 → x.2 = y.2

/-- The records of a repository whose file is within the limits are read back,
and so is every such file. -/
theorem decodeRepoRecords_encodeCar (C : Codec) (B : CidCodec) {root : Cid} {blocks : Blocks}
    {car : Bytes} (hinv : Inverts C B root blocks) (hcar : encodeCar C B root blocks = .ok car)
    (hfits : Fits C B root blocks car) :
    decodeCar C B car = .ok { roots := [root], blocks } ∧
      ∀ commitBytes mstRoot mst (records : List DecodedRecord),
        commitData C commitBytes = .ok mstRoot →
        buildMst C (records.map fun r => (r.key, r.cid)) = .ok (mstRoot, mst) →
        (∀ r ∈ records, '/' ∉ r.collection.toList) →
        records.Pairwise (fun r s =>
          commonPrefixLen (asBytes r.key) (asBytes s.key) < 2 ^ 32) →
        blocks.Perm (repoBlocks (root, commitBytes) mst records) → Consistent blocks →
        decodeRepoRecords C B car = .ok records := by
  have hdecode := decodeCar_of_encodeCar hinv.header hinv.cid hcar hfits
  refine ⟨hdecode, fun commitBytes mstRoot mst records hcommit hmst hkey hlen hperm hcons => ?_⟩
  have hold : Holds (blocksToMap blocks) (repoBlocks (root, commitBytes) mst records) :=
    fun c b hmem => holds_blocksToMap hcons c b (hperm.mem_iff.mpr hmem)
  obtain ⟨holdRoot, hold'⟩ := holds_append.mp (show Holds _ ([(root, commitBytes)] ++ _) from hold)
  obtain ⟨holdMst, holdRec⟩ := holds_append.mp hold'
  have hbytes : ∀ r ∈ records, blocksToMap blocks r.cid = some r.bytes :=
    fun r hr => holdRec _ _ (List.mem_map.mpr ⟨r, hr, rfl⟩)
  have hlist : Listable (blocksToMap blocks) (records.map fun r => (r.key, r.cid)) := by
    refine ⟨fun x hx => ?_, List.pairwise_map.mpr hlen⟩
    obtain ⟨r, hr, rfl⟩ := List.mem_map.mp hx
    exact ⟨r.bytes, hbytes r hr⟩
  have hroot : getBlock (blocksToMap blocks) root = .ok commitBytes := by
    simp [getBlock, holdRoot root commitBytes (by simp)]
  have hwalk := buildMst_lists hinv.node hmst holdMst hlist
  unfold decodeRepoRecords
  rw [hdecode]
  simp only [bind, Except.bind, hroot, hcommit, hwalk]
  exact mapM_decodedRecord hkey hbytes

/-! ## A repository of one record -/

section OneRecord

/-- CIDs whose version, codec, hash and length are one byte each. -/
def plainCidCodec : CidCodec where
  toBytes c := [c.version, c.codec, c.hashCode, c.digest.length].map UInt8.ofNat ++ c.digest
  readBytes
    | v :: k :: h :: n :: rest =>
      if n.toNat ≤ rest.length then
        .ok (⟨v.toNat, k.toNat, h.toNat, rest.take n.toNat⟩, n.toNat + 4)
      else .error "unexpected EOF"
    | _ => .error "unexpected EOF"

theorem readsBack_plainCidCodec {c : Cid} (hv : c.version < 256) (hk : c.codec < 256)
    (hh : c.hashCode < 256) (hn : c.digest.length < 256) : ReadsBack plainCidCodec c := by
  have hnat : ∀ {n : Nat}, n < 256 → (UInt8.ofNat n).toNat = n := fun h => by
    rw [UInt8.toNat_ofNat']
    omega
  intro rest
  simp [plainCidCodec, hnat hv, hnat hk, hnat hh, hnat hn]

def sampleKey : String := "app.bsky.feed.post/3jzfcijpj2z2a"

def sampleCid (digest : Bytes) : Cid := { version := 1, codec := 0x71, hashCode := 0x12, digest }

/-- The digests of a record, of the tree that holds it at `sampleKey` and of
the commit of that tree. -/
structure Sample where
  record : Bytes
  node : Vector UInt8 32
  commit : Vector UInt8 32

namespace Sample

variable (S : Sample)

def mstNode : MstNode :=
  { e := [{ k := asBytes sampleKey, p := 0, t := none, v := sampleCid S.record }], l := none }

def commitIpld : Ipld :=
  SignedCommit.toIpld
    { data := sampleCid S.node.toList, did := "did:plc:abc", prev := none, rev := "3jzfcijpj2z2b",
      sig := List.replicate 64 7, version := 3 }

/-- `mstNode` in DAG-CBOR. -/
def nodeBytes : Bytes :=
  [162, 97, 101, 129, 164, 97, 107, 88, 32] ++ asBytes sampleKey ++
    [97, 112, 0, 97, 116, 246, 97, 118, 216, 42, 88, 37, 0, 1, 113, 18, 32] ++ S.record ++
    [97, 108, 246]

/-- `commitIpld` in DAG-CBOR. -/
def commitBytes : Bytes :=
  [166, 99, 100, 105, 100, 107] ++ asBytes "did:plc:abc" ++ [99, 114, 101, 118, 109] ++
    asBytes "3jzfcijpj2z2b" ++ [99, 115, 105, 103, 88, 64] ++ List.replicate 64 7 ++
    [100, 100, 97, 116, 97, 216, 42, 88, 37, 0, 1, 113, 18, 32] ++ S.node.toList ++
    [100, 112, 114, 101, 118, 246, 103, 118, 101, 114, 115, 105, 111, 110, 3]

def rootCid : Cid := sampleCid S.commit.toList

/-- `carHeader rootCid` in DAG-CBOR. -/
def headerBytes : Bytes :=
  [162, 101, 114, 111, 111, 116, 115, 129, 216, 42, 88, 37, 0, 1, 113, 18, 32] ++
    S.commit.toList ++ [103, 118, 101, 114, 115, 105, 111, 110, 1]

/-- The CID a CAR header names. -/
def headerRoot : Ipld → Option Cid
  | .map [("roots", .list [.link cid]), ("version", .integer 1)] => some cid
  | _ => none

/-- DAG-CBOR and SHA-256 of the values above. -/
def codec : Codec where
  sha256 bytes :=
    if bytes = S.nodeBytes then S.node
    else if bytes = S.commitBytes then S.commit
    else postKeyDigest
  toVec ipld :=
    if nodeOfIpld ipld = some S.mstNode then .ok S.nodeBytes
    else if headerRoot ipld = some S.rootCid then .ok S.headerBytes
    else .error "unsupported"
  fromSlice bytes :=
    if bytes = S.nodeBytes then .ok S.mstNode.toIpld
    else if bytes = S.headerBytes then .ok (carHeader S.rootCid)
    else if bytes = S.commitBytes then .ok S.commitIpld
    else .error "invalid"

def blocks (bytes : Bytes) : Blocks :=
  repoBlocks (S.rootCid, S.commitBytes) [(sampleCid S.node.toList, S.nodeBytes)]
    [⟨"app.bsky.feed.post", "3jzfcijpj2z2a", sampleCid S.record, bytes⟩]

theorem headerRoot_toIpld (node : MstNode) : headerRoot node.toIpld = none := rfl

theorem headerBytes_ne : S.headerBytes ≠ S.nodeBytes := by
  simp [headerBytes, nodeBytes]

theorem inverts {bytes : Bytes} (hlen : S.record.length = 32) :
    Inverts S.codec plainCidCodec S.rootCid (S.blocks bytes) where
  node node cbor h := by
    simp only [codec, nodeOfIpld_toIpld, Option.some.injEq, headerRoot_toIpld] at h ⊢
    split at h
    · rename_i hn
      cases h
      simp [hn]
    · simp at h
  header cbor h := by
    simp only [codec, carHeader, headerRoot, ↓reduceIte] at h
    cases h
    simp [codec, S.headerBytes_ne]
  cid x hx := by
    simp only [blocks, repoBlocks, List.map_cons, List.map_nil, List.cons_append, List.nil_append,
      List.mem_cons, List.not_mem_nil, or_false] at hx
    rcases hx with rfl | rfl | rfl <;>
      exact readsBack_plainCidCodec (by simp [rootCid, sampleCid]) (by simp [rootCid, sampleCid])
        (by simp [rootCid, sampleCid]) (by simp [rootCid, sampleCid, hlen])

def car (bytes : Bytes) : Bytes :=
  encodeUvarint S.headerBytes.length ++
    (S.headerBytes ++ (S.blocks bytes).flatMap (carSection plainCidCodec))

theorem encodeCar_car (bytes : Bytes) :
    encodeCar S.codec plainCidCodec S.rootCid (S.blocks bytes) = .ok (S.car bytes) := by
  have hvec : S.codec.toVec (carHeader S.rootCid) = .ok S.headerBytes := by
    simp [codec, carHeader, headerRoot, nodeOfIpld]
  simp [encodeCar, toCbor, hvec, bind, Except.bind, pure, Except.pure, car]

end Sample

/-- The record `postBytes`. -/
def postSample : Sample where
  record := postDigest
  node := postNodeDigest
  commit :=
    #v[157, 126, 226, 57, 6, 227, 88, 152, 181, 80, 52, 124, 70, 254, 230, 202, 72, 24, 99, 29,
      79, 219, 17, 120, 8, 187, 13, 142, 197, 168, 154, 94]

set_option maxRecDepth 2000 in
theorem decodeRepoRecords_encodeCar_post :
    decodeCar postSample.codec plainCidCodec (postSample.car postBytes) =
        .ok { roots := [postSample.rootCid], blocks := postSample.blocks postBytes } ∧
      decodeRepoRecords postSample.codec plainCidCodec (postSample.car postBytes) =
        .ok [⟨"app.bsky.feed.post", "3jzfcijpj2z2a", sampleCid postDigest, postBytes⟩] := by
  have h := decodeRepoRecords_encodeCar postSample.codec plainCidCodec
    (postSample.inverts (by decide)) (postSample.encodeCar_car postBytes)
    ⟨fun h hh => by
        simp only [Sample.codec, carHeader, Sample.headerRoot, nodeOfIpld] at hh
        cases hh
        decide,
      by decide, by decide⟩
  exact ⟨h.1, h.2 postSample.commitBytes (sampleCid postSample.node.toList)
    [(sampleCid postSample.node.toList, postSample.nodeBytes)] _ (by decide)
    (by decide) (by decide) (by simp) (List.Perm.refl _)
    (by unfold Consistent; decide)⟩

/-- A record of 16 MiB of zeros. -/
def bigBytes : Bytes := List.replicate MAX_BLOCK_SIZE 0

def bigSample : Sample where
  record :=
    [8, 10, 207, 53, 165, 7, 172, 152, 73, 207, 203, 164, 125, 194, 173, 131, 224, 27, 117, 102,
      58, 81, 98, 121, 200, 185, 210, 67, 183, 25, 100, 62]
  node :=
    #v[181, 239, 210, 19, 194, 63, 72, 202, 69, 108, 102, 91, 205, 213, 139, 41, 35, 13, 246,
      161, 72, 45, 186, 15, 181, 27, 16, 160, 141, 97, 145, 221]
  commit :=
    #v[201, 11, 226, 217, 23, 152, 77, 64, 103, 87, 44, 121, 214, 146, 238, 69, 25, 77, 172, 67,
      51, 115, 157, 158, 160, 96, 58, 222, 10, 174, 171, 87]

/-- The file up to the record. -/
def bigPrefix : Blocks :=
  [(bigSample.rootCid, bigSample.commitBytes),
    (sampleCid bigSample.node.toList, bigSample.nodeBytes)]

set_option maxRecDepth 2000 in
theorem decodeCar_big {bytes : Bytes} (hbig : bytes.length = MAX_BLOCK_SIZE) :
    decodeCar bigSample.codec plainCidCodec (bigSample.car bytes) =
      .error (.blockTooLarge MAX_BLOCK_SIZE) := by
  have hcid := (@Sample.inverts bigSample bytes (by decide)).cid
  have hsub : ∀ x ∈ bigPrefix, x ∈ bigSample.blocks bytes := fun x hx =>
    List.mem_append_left [(sampleCid bigSample.record, bytes)] hx
  have hsection : sectionLength plainCidCodec (sampleCid bigSample.record, bytes) =
      36 + MAX_BLOCK_SIZE := by
    rw [sectionLength, hbig]
    rfl
  have hflat : (bigSample.blocks bytes).flatMap (carSection plainCidCodec) =
      bigPrefix.flatMap (carSection plainCidCodec) ++
        (carSection plainCidCodec (sampleCid bigSample.record, bytes) ++ []) := by
    rw [show bigSample.blocks bytes = bigPrefix ++ [(sampleCid bigSample.record, bytes)]
      from rfl, List.flatMap_append, List.flatMap_cons, List.flatMap_nil]
  have hheader : (encodeUvarint bigSample.headerBytes.length).length +
      bigSample.headerBytes.length = 59 := by decide
  have hprefix : (bigPrefix.flatMap (carSection plainCidCodec)).length ≤ 400 := by
    decide
  have huvarint : (encodeUvarint (36 + MAX_BLOCK_SIZE)).length = 4 := by decide
  have hlast : (carSection plainCidCodec (sampleCid bigSample.record, bytes)).length =
      4 + (36 + MAX_BLOCK_SIZE) := by
    simp only [sectionLength] at hsection
    simp only [carSection, List.length_append, hsection, huvarint]
    omega
  have hcar : (bigSample.car bytes).length ≤ MAX_CAR_SIZE := by
    simp only [Sample.car, hflat, List.length_append, List.append_nil, hlast]
    have : 1000 + MAX_BLOCK_SIZE ≤ MAX_CAR_SIZE := by decide
    omega
  unfold Sample.car at hcar ⊢
  have hread : bigSample.codec.fromSlice bigSample.headerBytes =
      .ok (carHeader bigSample.rootCid) := by
    simp [Sample.codec, bigSample.headerBytes_ne]
  rw [decodeCar_header hread (by decide) hcar, hflat]
  obtain ⟨extra, hextra⟩ : ∃ extra, (bigPrefix.flatMap (carSection plainCidCodec) ++
      (carSection plainCidCodec (sampleCid bigSample.record, bytes) ++ [])).length =
        bigPrefix.length + (extra + 1) := by
    have hmore := @length_le_length_flatMap plainCidCodec bigPrefix
    rw [List.length_append, List.append_nil, hlast]
    exact ⟨(bigPrefix.flatMap (carSection plainCidCodec)).length +
      (4 + (36 + MAX_BLOCK_SIZE)) - bigPrefix.length - 1, by omega⟩
  rw [hextra, readSections_append (fun x hx => hcid x (hsub x hx)) (by decide),
    readSections, if_neg (by simp [carSection_ne_nil]),
    readSection_tooLarge (by omega) (by rw [hsection]; decide)]
  rfl

set_option maxRecDepth 2000 in
/-- Without the limits the records do not come back. -/
theorem decodeRepoRecords_encodeCar_counterexample :
    Inverts bigSample.codec plainCidCodec bigSample.rootCid (bigSample.blocks bigBytes) ∧
      commitData bigSample.codec bigSample.commitBytes = .ok (sampleCid bigSample.node.toList) ∧
      buildMst bigSample.codec [(sampleKey, sampleCid bigSample.record)] =
        .ok (sampleCid bigSample.node.toList,
          [(sampleCid bigSample.node.toList, bigSample.nodeBytes)]) ∧
      encodeCar bigSample.codec plainCidCodec bigSample.rootCid (bigSample.blocks bigBytes) =
        .ok (bigSample.car bigBytes) ∧
      decodeRepoRecords bigSample.codec plainCidCodec (bigSample.car bigBytes) =
        .error (.blockTooLarge MAX_BLOCK_SIZE) := by
  refine ⟨bigSample.inverts (by decide), by decide, by decide,
    bigSample.encodeCar_car bigBytes, ?_⟩
  have hbig : bigBytes.length = MAX_BLOCK_SIZE := by rw [bigBytes, List.length_replicate]
  rw [decodeRepoRecords, decodeCar_big hbig]
  rfl

end OneRecord

end Seiran.Atp
