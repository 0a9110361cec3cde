import Mathlib.Data.List.Forall2
import Seiran.Framework.Except
import Seiran.Model.Atp.Record
import Seiran.Proof.Atp.Formats

/-!
# A record that is encoded again

* `Ipld.induction`: induction over IPLD values;
* `exists_back`: a value without the two kinds of parts that JSON does not keep
  comes back;
* `faithful_of_back`: no other value does;
* `reencode_eq_iff`: so the bytes are the same exactly for those values.
-/

namespace Seiran.Atp

/-! ## Parts of a value -/

mutual

/-- `P` holds of the value and of every value in it. -/
def Ipld.All (P : Ipld → Prop) : Ipld → Prop
  | .list items => P (.list items) ∧ Ipld.AllItems P items
  | .map entries => P (.map entries) ∧ Ipld.AllEntries P entries
  | v => P v

def Ipld.AllItems (P : Ipld → Prop) : List Ipld → Prop
  | [] => True
  | x :: xs => Ipld.All P x ∧ Ipld.AllItems P xs

def Ipld.AllEntries (P : Ipld → Prop) : List (String × Ipld) → Prop
  | [] => True
  | (_, x) :: xs => Ipld.All P x ∧ Ipld.AllEntries P xs

end

namespace Ipld

variable {P : Ipld → Prop}

theorem allItems_iff {items : List Ipld} : AllItems P items ↔ ∀ x ∈ items, x.All P := by
  induction items with
  | nil => simp [AllItems]
  | cons x xs ih => simp [AllItems, ih]

theorem allEntries_iff {entries : List (String × Ipld)} :
    AllEntries P entries ↔ ∀ x ∈ entries, x.2.All P := by
  induction entries with
  | nil => simp [AllEntries]
  | cons x xs ih => simp [AllEntries, ih]

theorem all_list {items : List Ipld} :
    (list items).All P ↔ P (list items) ∧ ∀ x ∈ items, x.All P := by
  rw [All, allItems_iff]

theorem all_map {entries : List (String × Ipld)} :
    (map entries).All P ↔ P (map entries) ∧ ∀ x ∈ entries, x.2.All P := by
  rw [All, allEntries_iff]

/-- Induction over a value and the values in it. -/
theorem induction {motive : Ipld → Prop}
    (atom : ∀ v, (∀ items, v ≠ list items) → (∀ entries, v ≠ map entries) → motive v)
    (list : ∀ items, (∀ x ∈ items, motive x) → motive (list items))
    (map : ∀ entries, (∀ x ∈ entries, motive x.2) → motive (map entries)) (v : Ipld) :
    motive v := by
  refine @Ipld.rec motive (fun items => ∀ x ∈ items, motive x)
    (fun entries => ∀ x ∈ entries, motive x.2) (fun x => motive x.2) ?_ ?_ ?_ ?_ ?_ ?_ list map ?_
    ?_ ?_ ?_ ?_ ?_ v
  · exact atom .null (by simp) (by simp)
  · exact fun b => atom (.bool b) (by simp) (by simp)
  · exact fun i => atom (.integer i) (by simp) (by simp)
  · exact fun bits => atom (.float bits) (by simp) (by simp)
  · exact fun s => atom (.string s) (by simp) (by simp)
  · exact fun b => atom (.bytes b) (by simp) (by simp)
  · exact fun cid => atom (.link cid) (by simp) (by simp)
  · simp
  · exact fun x xs hx hxs y hy => (List.mem_cons.mp hy).elim (fun heq => heq ▸ hx) (hxs y)
  · simp
  · exact fun x xs hx hxs y hy => (List.mem_cons.mp hy).elim (fun heq => heq ▸ hx) (hxs y)
  · exact fun k x hx => hx

theorem All.mono {Q : Ipld → Prop} (hPQ : ∀ v, P v → Q v) {v : Ipld} (h : v.All P) : v.All Q := by
  induction v using Ipld.induction with
  | atom v hlist hmap =>
    cases v with
    | list items => exact absurd rfl (hlist items)
    | map entries => exact absurd rfl (hmap entries)
    | _ => exact hPQ _ h
  | list items ih =>
    obtain ⟨hP, h⟩ := all_list.mp h
    exact all_list.mpr ⟨hPQ _ hP, fun x hx => ih x hx (h x hx)⟩
  | map entries ih =>
    obtain ⟨hP, h⟩ := all_map.mp h
    exact all_map.mpr ⟨hPQ _ hP, fun x hx => ih x hx (h x hx)⟩

end Ipld

end Seiran.Atp

namespace Seiran.Record

open Atp

/-! ## Values that come back -/

/-- The keys of a map increase. -/
def KeysSorted : Ipld → Prop
  | .map entries => SortedMap.Sorted entries
  | _ => True

/-- What decoding returns, without floats: maps with increasing keys, and CIDs
that can be read from their text. -/
def Decoded (E : Env) : Ipld → Prop
  | .map entries => SortedMap.Sorted entries
  | .float _ => False
  | .link cid => E.cidFromStr (E.cidToString cid) = .ok cid
  | _ => True

/-- An integer in the range of `i64`, and a map that is not taken for a link or
for bytes. -/
def Kept : Ipld → Prop
  | .integer i => -2 ^ 63 ≤ i ∧ i < 2 ^ 63
  | .map entries => ∀ s, entries ≠ [("$link", .string s)] ∧ entries ≠ [("$bytes", .string s)]
  | _ => True

section Parts

variable {E : Env}

theorem numberToIpld_posInt (n : Nat) : numberToIpld (.posInt n) =
    if n < 2 ^ 63 then .integer n else .float (Binary64.ofNat64 n) := by
  unfold numberToIpld Number.asI64
  by_cases hn : n < 2 ^ 63
  · simp only [if_pos hn]
  · simp only [if_neg hn]

theorem numberToIpld_of_ofInt {i : Int} {n : Number} (h : Number.ofInt i = some n) :
    numberToIpld n = .integer i ↔ i < 2 ^ 63 := by
  unfold Number.ofInt at h
  split at h
  · split at h
    · cases h
      rw [numberToIpld_posInt]
      split
      · have hi : ((i.toNat : Nat) : Int) = i := by omega
        rw [hi]
        exact ⟨fun _ => by omega, fun _ => rfl⟩
      · exact ⟨fun h => by simp at h, fun _ => by omega⟩
    · cases h
  · split at h
    · cases h
      exact ⟨fun _ => by omega, fun _ => rfl⟩
    · cases h

theorem exists_ofInt {i : Int} (h : -2 ^ 63 ≤ i ∧ i < 2 ^ 63) :
    ∃ n, Number.ofInt i = some n := by
  unfold Number.ofInt
  split
  · rw [if_pos (by omega)]
    exact ⟨_, rfl⟩
  · rw [if_pos h.1]
    exact ⟨_, rfl⟩

def Ipld.asStr : Ipld → Option String
  | .string s => some s
  | _ => none

theorem asStr_ipldToJson {x : Ipld} {j : Json} (h : ipldToJson E x = some j) :
    Json.asStr j = Ipld.asStr x := by
  cases x with
  | integer i =>
    obtain ⟨n, -, rfl⟩ := Option.map_eq_some_iff.mp h
    rfl
  | float bits =>
    cases h
    unfold floatToJson
    split <;> rfl
  | list items =>
    obtain ⟨js, -, rfl⟩ := Option.map_eq_some_iff.mp h
    rfl
  | map entries =>
    obtain ⟨js, -, rfl⟩ := Option.map_eq_some_iff.mp h
    rfl
  | _ =>
    cases h
    rfl

theorem sentinel_ipldEntriesToJson {key : String} {entries : List (String × Ipld)}
    {js : List (String × Json)} (h : ipldEntriesToJson E entries = some js) :
    sentinel key Json.asStr js = sentinel key Ipld.asStr entries := by
  match entries with
  | [] =>
    cases h
    rfl
  | [(k, x)] =>
    obtain ⟨j, hj, h⟩ := Option.bind_eq_some_iff.mp h
    cases h
    simp only [sentinel, asStr_ipldToJson hj]
  | (k, x) :: y :: rest =>
    obtain ⟨j, -, h⟩ := Option.bind_eq_some_iff.mp h
    obtain ⟨js', hjs, h⟩ := Option.bind_eq_some_iff.mp h
    obtain ⟨j', -, hjs⟩ := Option.bind_eq_some_iff.mp hjs
    obtain ⟨js'', -, hjs⟩ := Option.bind_eq_some_iff.mp hjs
    cases hjs
    cases h
    rfl

theorem sentinel_eq_some {key s : String} {entries : List (String × Ipld)} :
    sentinel key Ipld.asStr entries = some s ↔ entries = [(key, .string s)] := by
  unfold sentinel
  split
  · rename_i k v
    constructor
    · intro h
      split at h
      · rename_i hk
        cases v with
        | string s' =>
          cases h
          rw [hk]
        | _ => cases h
      · cases h
    · intro h
      cases h
      rw [if_pos rfl]
      rfl
  · rename_i hne
    exact ⟨fun h => (by cases h), fun h => absurd h (hne _ _)⟩

theorem kept_map {entries : List (String × Ipld)} :
    Kept (.map entries) ↔ sentinel "$link" Ipld.asStr entries = none ∧
      sentinel "$bytes" Ipld.asStr entries = none := by
  simp only [Option.eq_none_iff_forall_ne_some, ne_eq, sentinel_eq_some]
  exact ⟨fun h => ⟨fun s => (h s).1, fun s => (h s).2⟩, fun h s => ⟨h.1 s, h.2 s⟩⟩

end Parts

/-! ## Lists of values -/

section Lists

variable {E : Env}

theorem exists_items_back {items : List Ipld}
    (h : ∀ x ∈ items, ∃ j, ipldToJson E x = some j ∧ jsonToIpld E j = .ok x) :
    ∃ js, ipldItemsToJson E items = some js ∧ jsonItemsToIpld E js = .ok items := by
  induction items with
  | nil => exact ⟨[], rfl, rfl⟩
  | cons x xs ih =>
    obtain ⟨j, hj, hx⟩ := h x (by simp)
    obtain ⟨js, hjs, hxs⟩ := ih fun y hy => h y (by simp [hy])
    refine ⟨j :: js, ?_, ?_⟩
    · simp only [ipldItemsToJson, hj, hjs, Option.bind_eq_bind, Option.bind_some, pure]
    · simp only [jsonItemsToIpld, hx, hxs, bind, Except.bind, pure, Except.pure]

theorem exists_entries_back {entries : List (String × Ipld)}
    (h : ∀ x ∈ entries, ∃ j, ipldToJson E x.2 = some j ∧ jsonToIpld E j = .ok x.2) :
    ∃ js, ipldEntriesToJson E entries = some js ∧ jsonEntriesToIpld E js = .ok entries := by
  induction entries with
  | nil => exact ⟨[], rfl, rfl⟩
  | cons x xs ih =>
    obtain ⟨j, hj, hx⟩ := h x (by simp)
    obtain ⟨js, hjs, hxs⟩ := ih fun y hy => h y (by simp [hy])
    refine ⟨(x.1, j) :: js, ?_, ?_⟩
    · simp only [ipldEntriesToJson, hj, hjs, Option.bind_eq_bind, Option.bind_some, pure]
    · simp only [jsonEntriesToIpld, hx, hxs, bind, Except.bind, pure, Except.pure]

/-- What holds of each item and of what it comes back as. -/
theorem forall₂_items_back {Q : Ipld → Ipld → Prop} {items : List Ipld}
    (h : ∀ x ∈ items, ∀ j w, ipldToJson E x = some j → jsonToIpld E j = .ok w → Q x w)
    {js : List Json} {ws : List Ipld} (hjs : ipldItemsToJson E items = some js)
    (hws : jsonItemsToIpld E js = .ok ws) : List.Forall₂ Q items ws := by
  induction items generalizing js ws with
  | nil =>
    cases hjs
    cases hws
    exact .nil
  | cons x xs ih =>
    obtain ⟨j, hj, hjs⟩ := Option.bind_eq_some_iff.mp hjs
    obtain ⟨js', hjs', hjs⟩ := Option.bind_eq_some_iff.mp hjs
    cases hjs
    obtain ⟨w, hw, hws⟩ := bind_eq_ok.mp hws
    obtain ⟨ws', hws', hws⟩ := bind_eq_ok.mp hws
    cases hws
    exact .cons (h x (by simp) j w hj hw) (ih (fun y hy => h y (by simp [hy])) hjs' hws')

theorem forall₂_entries_back {Q : Ipld → Ipld → Prop} {entries : List (String × Ipld)}
    (h : ∀ x ∈ entries, ∀ j w, ipldToJson E x.2 = some j → jsonToIpld E j = .ok w → Q x.2 w)
    {js : List (String × Json)} {ws : List (String × Ipld)}
    (hjs : ipldEntriesToJson E entries = some js) (hws : jsonEntriesToIpld E js = .ok ws) :
    List.Forall₂ (fun x y => x.1 = y.1 ∧ Q x.2 y.2) entries ws := by
  induction entries generalizing js ws with
  | nil =>
    cases hjs
    cases hws
    exact .nil
  | cons x xs ih =>
    obtain ⟨j, hj, hjs⟩ := Option.bind_eq_some_iff.mp hjs
    obtain ⟨js', hjs', hjs⟩ := Option.bind_eq_some_iff.mp hjs
    cases hjs
    obtain ⟨w, hw, hws⟩ := bind_eq_ok.mp hws
    obtain ⟨ws', hws', hws⟩ := bind_eq_ok.mp hws
    cases hws
    exact .cons ⟨rfl, h x (by simp) j w hj hw⟩ (ih (fun y hy => h y (by simp [hy])) hjs' hws')

theorem forall_right {α β : Type} {R : α → β → Prop} {P : β → Prop} {xs : List α} {ys : List β}
    (h : List.Forall₂ R xs ys) (hP : ∀ x y, R x y → P y) : ∀ y ∈ ys, P y := by
  induction h with
  | nil => simp
  | cons hxy _ ih =>
    intro y hy
    rcases List.mem_cons.mp hy with rfl | hy
    · exact hP _ _ hxy
    · exact ih y hy

theorem sorted_of_forall₂ {R : String × Ipld → String × Ipld → Prop}
    {entries ws : List (String × Ipld)} (h : List.Forall₂ R entries ws)
    (hR : ∀ x y, R x y → x.1 = y.1) (hs : SortedMap.Sorted entries) : SortedMap.Sorted ws := by
  have hkeys : entries.map Prod.fst = ws.map Prod.fst := by
    induction h with
    | nil => rfl
    | cons hxy _ ih =>
      have hs' := (List.pairwise_cons.mp hs).2
      rw [List.map_cons, List.map_cons, hR _ _ hxy, ih hs']
  have hpair : ∀ xs : List (String × Ipld),
      SortedMap.Sorted xs ↔ (xs.map Prod.fst).Pairwise (· < ·) := fun xs => List.pairwise_map.symm
  rw [hpair, ← hkeys, ← hpair]
  exact hs

end Lists

/-! ## The whole value -/

section Value

variable {E : Env}

theorem jsonToIpld_obj {o : List (String × Json)} (hlink : sentinel "$link" Json.asStr o = none)
    (hbytes : sentinel "$bytes" Json.asStr o = none) :
    jsonToIpld E (.obj o) =
      (jsonEntriesToIpld E o).map fun entries => .map (SortedMap.ofEntries entries) := by
  rw [jsonToIpld, hlink, hbytes]

theorem jsonToIpld_link (link : String) : jsonToIpld E (.obj [("$link", .str link)]) =
    match E.cidFromStr link with
    | .ok cid => .ok (.link cid)
    | .error e => .error (.cidParse e) := rfl

theorem jsonToIpld_bytes (b64 : String) : jsonToIpld E (.obj [("$bytes", .str b64)]) =
    match E.base64Decode b64 with
    | .ok b => .ok (.bytes b)
    | .error e => .error (.cbor ("$bytes デコード失敗: " ++ e)) := rfl

theorem exists_back (hbase : ∀ b, E.base64Decode (E.base64Encode b) = .ok b) {v : Ipld}
    (hd : v.All (Decoded E)) (hk : v.All Kept) :
    ∃ j, ipldToJson E v = some j ∧ jsonToIpld E j = .ok v := by
  induction v using Ipld.induction with
  | atom v hlist hmap =>
    cases v with
    | integer i =>
      obtain ⟨n, hn⟩ := exists_ofInt hk
      refine ⟨.num n, by rw [ipldToJson, hn]; rfl, ?_⟩
      rw [jsonToIpld, (numberToIpld_of_ofInt hn).mpr hk.2]
    | float bits => exact absurd hd id
    | bytes b => exact ⟨_, rfl, by rw [jsonToIpld_bytes, hbase]⟩
    | link cid =>
      have hcid : E.cidFromStr (E.cidToString cid) = .ok cid := hd
      exact ⟨_, rfl, by rw [jsonToIpld_link, hcid]⟩
    | list items => exact absurd rfl (hlist items)
    | map entries => exact absurd rfl (hmap entries)
    | _ => exact ⟨_, rfl, rfl⟩
  | list items ih =>
    have hd' := (Ipld.all_list.mp hd).2
    have hk' := (Ipld.all_list.mp hk).2
    obtain ⟨js, hjs, hback⟩ := exists_items_back fun x hx => ih x hx (hd' x hx) (hk' x hx)
    refine ⟨.arr js, by rw [ipldToJson, hjs]; rfl, ?_⟩
    rw [jsonToIpld, hback]
    rfl
  | map entries ih =>
    obtain ⟨hsorted, hd'⟩ := Ipld.all_map.mp hd
    obtain ⟨hkept, hk'⟩ := Ipld.all_map.mp hk
    obtain ⟨hlink, hbytes⟩ := kept_map.mp hkept
    obtain ⟨js, hjs, hback⟩ := exists_entries_back fun x hx => ih x hx (hd' x hx) (hk' x hx)
    refine ⟨.obj js, by rw [ipldToJson, hjs]; rfl, ?_⟩
    rw [jsonToIpld_obj (by rw [sentinel_ipldEntriesToJson hjs, hlink])
      (by rw [sentinel_ipldEntriesToJson hjs, hbytes]), hback]
    show Except.ok (Ipld.map (SortedMap.ofEntries entries)) = _
    rw [SortedMap.ofEntries_eq_self hsorted]

/-- What a value comes back as, and when that is the value itself. -/
theorem back_spec {v : Ipld} (hd : v.All (Decoded E)) {j : Json} {w : Ipld}
    (hj : ipldToJson E v = some j) (hw : jsonToIpld E j = .ok w) :
    w.All KeysSorted ∧ (w = v → v.All Kept) := by
  induction v using Ipld.induction generalizing j w with
  | atom v hlist hmap =>
    cases v with
    | integer i =>
      obtain ⟨n, hn, rfl⟩ := Option.map_eq_some_iff.mp hj
      cases hw
      refine ⟨?_, fun heq => ?_⟩
      · unfold numberToIpld
        split
        · trivial
        · split <;> trivial
      · have hlt := (numberToIpld_of_ofInt hn).mp heq
        unfold Number.ofInt at hn
        split at hn
        · exact ⟨by omega, hlt⟩
        · split at hn
          · exact ⟨by assumption, hlt⟩
          · cases hn
    | float bits => exact absurd hd id
    | bytes b =>
      cases hj
      rw [jsonToIpld_bytes] at hw
      split at hw
      · cases hw
        exact ⟨trivial, fun _ => trivial⟩
      · cases hw
    | link cid =>
      cases hj
      rw [jsonToIpld_link] at hw
      split at hw
      · cases hw
        exact ⟨trivial, fun _ => trivial⟩
      · cases hw
    | list items => exact absurd rfl (hlist items)
    | map entries => exact absurd rfl (hmap entries)
    | _ =>
      cases hj
      cases hw
      exact ⟨trivial, fun _ => trivial⟩
  | list items ih =>
    obtain ⟨js, hjs, rfl⟩ := Option.map_eq_some_iff.mp hj
    rw [jsonToIpld] at hw
    obtain ⟨ws, hws, hw⟩ := bind_eq_ok.mp hw
    cases hw
    have hall := forall₂_items_back
      (fun x hx j w => ih x hx ((Ipld.all_list.mp hd).2 x hx) (j := j) (w := w)) hjs hws
    refine ⟨Ipld.all_list.mpr ⟨trivial, forall_right hall fun _ _ h => h.1⟩, fun heq => ?_⟩
    rw [Ipld.list.inj heq] at hall
    exact Ipld.all_list.mpr ⟨trivial, fun x hx => (List.forall₂_same.mp hall x hx).2 rfl⟩
  | map entries ih =>
    obtain ⟨js, hjs, rfl⟩ := Option.map_eq_some_iff.mp hj
    cases hlink : sentinel "$link" Json.asStr js with
    | some s =>
      rw [sentinel_ipldEntriesToJson hjs, sentinel_eq_some] at hlink
      subst hlink
      cases hjs
      rw [jsonToIpld_link] at hw
      split at hw
      · cases hw
        exact ⟨trivial, fun heq => by simp at heq⟩
      · cases hw
    | none =>
      cases hbytes : sentinel "$bytes" Json.asStr js with
      | some s =>
        rw [sentinel_ipldEntriesToJson hjs, sentinel_eq_some] at hbytes
        subst hbytes
        cases hjs
        rw [jsonToIpld_bytes] at hw
        split at hw
        · cases hw
          exact ⟨trivial, fun heq => by simp at heq⟩
        · cases hw
      | none =>
        rw [jsonToIpld_obj hlink hbytes] at hw
        obtain ⟨ws, hws, hw⟩ := bind_eq_ok.mp hw
        cases hw
        obtain ⟨hsorted, hd'⟩ := Ipld.all_map.mp hd
        have hall := @forall₂_entries_back E (fun x w => w.All KeysSorted ∧ (w = x → x.All Kept))
          entries (fun x hx j w => ih x hx (hd' x hx) (j := j) (w := w)) js ws hjs hws
        have hws' := sorted_of_forall₂ hall (fun _ _ h => h.1) hsorted
        show (Ipld.map (SortedMap.ofEntries ws)).All KeysSorted ∧
          (Ipld.map (SortedMap.ofEntries ws) = Ipld.map entries → _)
        rw [SortedMap.ofEntries_eq_self hws']
        refine ⟨Ipld.all_map.mpr ⟨hws', forall_right hall fun _ _ h => h.2.1⟩, fun heq => ?_⟩
        rw [Ipld.map.inj heq] at hall
        refine Ipld.all_map.mpr ⟨kept_map.mpr ?_, fun x hx =>
          (List.forall₂_same.mp hall x hx).2.2 rfl⟩
        rw [← sentinel_ipldEntriesToJson hjs, ← sentinel_ipldEntriesToJson hjs]
        exact ⟨hlink, hbytes⟩

end Value

/-! ## The bytes -/

theorem reencode_eq {E : Env} {v : Ipld} {cbor : Bytes} (h : E.codec.fromSlice cbor = .ok v) :
    reencode E cbor = (ipldToJson E v).map (encodeGenericRecord E) := by
  unfold reencode decodeDagcborToJson
  rw [h, Option.map_map]
  rfl

/-- A decoded record without floats is written with the same bytes again
exactly if JSON keeps all of its parts. -/
theorem reencode_eq_iff (E : Env)
    (hcodec : ∀ w cbor, w.All KeysSorted → E.codec.toVec w = .ok cbor →
      E.codec.fromSlice cbor = .ok w)
    (hbase : ∀ b, E.base64Decode (E.base64Encode b) = .ok b) {v : Ipld} (hd : v.All (Decoded E))
    {cbor : Bytes} (hvec : E.codec.toVec v = .ok cbor) :
    reencode E cbor = some (.ok (cbor, cidFromDagcbor E.codec cbor)) ↔ v.All Kept := by
  have hsorted : v.All KeysSorted := hd.mono fun x hx => by cases x <;> first | exact hx | trivial
  have hslice := hcodec v cbor hsorted hvec
  rw [reencode_eq hslice]
  constructor
  · intro h
    obtain ⟨j, hj, h⟩ := Option.map_eq_some_iff.mp h
    obtain ⟨w, hw, h⟩ := bind_eq_ok.mp h
    obtain ⟨hsorted, hkept⟩ := back_spec hd hj hw
    split at h
    · rename_i cbor' hvec'
      cases h
      have hback := hcodec w cbor hsorted hvec'
      rw [hslice, Except.ok.injEq] at hback
      exact hkept hback.symm
    · cases h
  · intro hk
    obtain ⟨j, hj, hw⟩ := exists_back hbase hd hk
    rw [hj, Option.map_some, encodeGenericRecord, hw]
    simp only [bind, Except.bind, hvec]
    rfl

/-! ## Some records -/

section Samples

def sampleType : String := "app.bsky.embed.file"

def sampleRecord : Ipld :=
  .map [("$type", .string sampleType), ("sha", .bytes [1, 2, 255]), ("size", .integer 2048)]

def sampleBytes : Bytes :=
  [0xa3] ++ cborString "sha" ++ [0x43, 1, 2, 255] ++ cborString "size" ++ [0x19, 8, 0] ++
    cborString "$type" ++ cborString sampleType

/-- A record with one field, an integer or a float: its first byte and the eight that follow. -/
def sizeBytes (initial : UInt8) (argument : Nat) : Bytes :=
  [0xa1] ++ cborString "size" ++ initial :: Sha256.bigEndian 8 argument

/-- Integers out of the range of `i64`, above and below. -/
def hugeRecord : Ipld := .map [("size", .integer (2 ^ 63))]
def negativeRecord : Ipld := .map [("size", .integer (-2 ^ 63 - 1))]

def sampleToVec : Ipld → Except String Bytes
  | .map [(k, .string t), (l, .bytes b), (m, .integer i)] =>
    if (k, t, l, b, m, i) = ("$type", sampleType, "sha", [1, 2, 255], "size", 2048) then
      .ok sampleBytes
    else .error "unsupported"
  | .map [(k, .integer i)] =>
    if (k, i) = ("size", 2 ^ 63) then .ok (sizeBytes 0x1b (2 ^ 63))
    else if (k, i) = ("size", -2 ^ 63 - 1) then .ok (sizeBytes 0x3b (2 ^ 63))
    else .error "unsupported"
  | .map [(k, .float bits)] =>
    if (k, bits) = ("size", 0x43e0000000000000) then .ok (sizeBytes 0xfb 0x43e0000000000000)
    else .error "unsupported"
  | _ => .error "unsupported"

def sampleFromSlice (bytes : Bytes) : Except String Ipld :=
  if bytes = sampleBytes then .ok sampleRecord
  else if bytes = sizeBytes 0x1b (2 ^ 63) then .ok hugeRecord
  else if bytes = sizeBytes 0x3b (2 ^ 63) then .ok negativeRecord
  else if bytes = sizeBytes 0xfb 0x43e0000000000000 then
    .ok (.map [("size", .float 0x43e0000000000000)])
  else .error "unsupported"

def sampleEnv : Env where
  codec := { sha256 := Sha256.sha256, toVec := sampleToVec, fromSlice := sampleFromSlice }
  cidToString := Atp.cidToString
  cidFromStr s :=
    match Atp.cidFromStr s with
    | some cid => .ok cid
    | none => .error "unsupported"
  base64Encode := Atp.base64Encode
  base64Decode s := .ok (Atp.base64Decode s)

theorem sampleFromSlice_sampleToVec {w : Ipld} {cbor : Bytes} (h : sampleToVec w = .ok cbor) :
    sampleFromSlice cbor = .ok w := by
  have hhuge : sizeBytes 0x1b (2 ^ 63) ≠ sampleBytes := by decide
  have hneg : sizeBytes 0x3b (2 ^ 63) ≠ sampleBytes ∧
      sizeBytes 0x3b (2 ^ 63) ≠ sizeBytes 0x1b (2 ^ 63) := by decide
  have hfloat : sizeBytes 0xfb 0x43e0000000000000 ≠ sampleBytes ∧
      sizeBytes 0xfb 0x43e0000000000000 ≠ sizeBytes 0x1b (2 ^ 63) ∧
      sizeBytes 0xfb 0x43e0000000000000 ≠ sizeBytes 0x3b (2 ^ 63) := by decide
  unfold sampleToVec at h
  split at h
  · split at h
    · rename_i heq
      cases h
      cases heq
      rfl
    · cases h
  · split at h
    · rename_i heq
      cases h
      cases heq
      rw [sampleFromSlice, if_neg hhuge, if_pos rfl]
      rfl
    · split at h
      · rename_i heq
        cases h
        cases heq
        rw [sampleFromSlice, if_neg hneg.1, if_neg hneg.2, if_pos rfl]
        rfl
      · cases h
  · split at h
    · rename_i heq
      cases h
      cases heq
      rw [sampleFromSlice, if_neg hfloat.1, if_neg hfloat.2.1, if_neg hfloat.2.2, if_pos rfl]
    · cases h
  · cases h

theorem reencode_eq_iff_sample :
    (reencode sampleEnv sampleBytes =
      some (.ok (sampleBytes, cidFromDagcbor sampleEnv.codec sampleBytes)) ↔
        sampleRecord.All Kept) ∧
    reencode sampleEnv sampleBytes =
      some (.ok (sampleBytes, cidFromDagcbor sampleEnv.codec sampleBytes)) := by
  have hdecoded : sampleRecord.All (Decoded sampleEnv) := by
    simp only [sampleRecord, Ipld.all_map, List.mem_cons, List.not_mem_nil, or_false,
      forall_eq_or_imp, forall_eq]
    have hsorted : SortedMap.Sorted [("$type", Ipld.string sampleType), ("sha", .bytes [1, 2, 255]),
        ("size", .integer 2048)] := by
      unfold SortedMap.Sorted
      decide
    exact ⟨hsorted, trivial, trivial, trivial⟩
  have hvec : sampleEnv.codec.toVec sampleRecord = .ok sampleBytes := rfl
  have hiff := reencode_eq_iff sampleEnv (fun _ _ _ h => sampleFromSlice_sampleToVec h)
    (fun b => congrArg Except.ok (base64Decode_base64Encode b)) hdecoded hvec
  refine ⟨hiff, hiff.mpr ?_⟩
  simp only [sampleRecord, Ipld.all_map, List.mem_cons, List.not_mem_nil, or_false,
    forall_eq_or_imp, forall_eq]
  exact ⟨fun s => by simp, trivial, trivial, show Kept (.integer 2048) by simp [Kept]⟩

/-- The integer `2 ^ 63` comes back as a float, and `-2 ^ 63 - 1` panics. -/
theorem reencode_counterexample :
    hugeRecord.All (Decoded sampleEnv) ∧
      sampleEnv.codec.toVec hugeRecord = .ok (sizeBytes 0x1b (2 ^ 63)) ∧
      (∃ cid, reencode sampleEnv (sizeBytes 0x1b (2 ^ 63)) =
        some (.ok (sizeBytes 0xfb 0x43e0000000000000, cid))) ∧
      sizeBytes 0xfb 0x43e0000000000000 ≠ sizeBytes 0x1b (2 ^ 63) ∧
      negativeRecord.All (Decoded sampleEnv) ∧
      sampleEnv.codec.toVec negativeRecord = .ok (sizeBytes 0x3b (2 ^ 63)) ∧
      reencode sampleEnv (sizeBytes 0x3b (2 ^ 63)) = none := by
  have hdecoded : ∀ i, (Ipld.map [("size", .integer i)]).All (Decoded sampleEnv) := fun i =>
    Ipld.all_map.mpr ⟨List.pairwise_singleton _ _, by simp [Ipld.All, Decoded]⟩
  have hhuge : sampleToVec hugeRecord = .ok (sizeBytes 0x1b (2 ^ 63)) := rfl
  have hnegative : sampleToVec negativeRecord = .ok (sizeBytes 0x3b (2 ^ 63)) := rfl
  refine ⟨hdecoded _, hhuge,
    ⟨cidFromDagcbor sampleEnv.codec (sizeBytes 0xfb 0x43e0000000000000), ?_⟩, by decide,
    hdecoded _, hnegative, ?_⟩
  · rw [@reencode_eq sampleEnv _ _ (sampleFromSlice_sampleToVec hhuge)]
    rfl
  · rw [@reencode_eq sampleEnv _ _ (sampleFromSlice_sampleToVec hnegative)]
    rfl

end Samples

end Seiran.Record
