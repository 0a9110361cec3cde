import Seiran.Model.Lists.Publish

/-!
# Rows of lists and their records

What the statements and commits of the list operations keep:

* `HoldsList`, `HoldsItem`: which row has the rkey of which record;
* `Core`: each record has one row, and each row that stores an rkey has its record
  with what it is to say;
* `core_publishList`, `core_publishItem`, `core_unpublishItem`, …: one lemma for each
  of the writes.
-/

namespace Seiran.Lists

open Sql Revision

variable {E : Env} {s s' : State} {i a o : Int64} {l : ListRow} {m : MemberRow} {r : Reading}
  {k : Int64 × String} {did rkey : String}

section Uris

theorem length_tidChars (count v : Nat) : (tidChars count v).length = count := by
  induction count generalizing v with
  | zero => rfl
  | succ count ih => simp [tidChars, ih]

theorem append_tid_inj {pre pre' : String} {r r' : Reading}
    (h : pre ++ generateTid r = pre' ++ generateTid r') :
    pre = pre' ∧ generateTid r = generateTid r' := by
  have hchars := congrArg String.toList h
  simp only [String.toList_append] at hchars
  have hlength : (generateTid r).toList.length = (generateTid r').toList.length := by
    simp only [generateTid, String.toList_ofList, length_tidChars]
  obtain ⟨hpre, htid⟩ := List.append_inj' hchars hlength
  exact ⟨String.toList_inj.mp hpre, String.toList_inj.mp htid⟩

theorem uri_inj {did did' scheme path : String} {r r' : Reading}
    (h : scheme ++ did ++ path ++ generateTid r = scheme ++ did' ++ path ++ generateTid r') :
    did = did' ∧ generateTid r = generateTid r' := by
  obtain ⟨hpre, htid⟩ := append_tid_inj h
  have hchars := congrArg String.toList hpre
  simp only [String.toList_append, List.append_assoc] at hchars
  exact ⟨String.toList_inj.mp (List.append_cancel_right (List.append_cancel_left hchars)), htid⟩

end Uris

section Holders

/-- The list `i` is there, and its owner is `o`. -/
def Owns (s : State) (o i : Int64) : Prop := ∃ l ∈ s.lists, l.id = i ∧ l.ownerActorId = o

/-- The list `i` stores the rkey of the record. -/
def HoldsList (s : State) (i : Int64) (k : Int64 × String) : Prop :=
  ∃ l ∈ s.lists, l.id = i ∧ l.ownerActorId = k.1 ∧ l.atRkey = some k.2

/-- The member of the list stores the rkey of the record. -/
def HoldsItem (s : State) (h : Int64 × Int64) (k : Int64 × String) : Prop :=
  Owns s k.1 h.1 ∧ ∃ m ∈ s.members, (m.listId, m.actorId) = h ∧ m.atRkey = some k.2

/-- What a list stores -/
def ListOk (E : Env) (l : ListRow) : Prop :=
  l.atRkey = none ∧ l.atUri = none ∨ ∃ did r, E.atDid l.ownerActorId = some did ∧
    l.atRkey = some (generateTid r) ∧ l.atUri = some (listUri did (generateTid r))

/-- What a member of a list stores, and the record -/
def MemberOk (E : Env) (items : List ((Int64 × String) × ListItem)) (l : ListRow) (m : MemberRow) :
    Prop :=
  m.atRkey = none ∧ m.atUri = none ∨ ∃ did r list subject, E.atDid l.ownerActorId = some did ∧
    m.atRkey = some (generateTid r) ∧ m.atUri = some (listitemUri did (generateTid r)) ∧
    l.atUri = some list ∧ E.subjectDid m.actorId = some subject ∧
    ((l.ownerActorId, generateTid r), { list, subject }) ∈ items

structure Core (E : Env) (s : State) : Prop where
  listKeys : listSchema.Unique s.lists
  memberKeys : memberSchema.Unique s.members
  /-- `list_members.list_id` -/
  listed : ∀ m ∈ s.members, ∃ l ∈ s.lists, l.id = m.listId
  graphLists : Ledger (HoldsList s) (s.graphLists.map Prod.fst)
  graphListitems : Ledger (HoldsItem s) (s.graphListitems.map Prod.fst)
  lists : ∀ l ∈ s.lists, ListOk E l
  members : ∀ l ∈ s.lists, ∀ m ∈ s.members, l.id = m.listId → MemberOk E s.graphListitems l m

theorem Core.list_eq (h : Core E s) {l' : ListRow} (hl : l ∈ s.lists) (hl' : l' ∈ s.lists)
    (hid : l.id = l'.id) : l = l' :=
  h.listKeys.eq_of_id hl hl' hid

theorem Core.member_eq (h : Core E s) {m' : MemberRow} (hm : m ∈ s.members) (hm' : m' ∈ s.members)
    (hlist : m.listId = m'.listId) (hactor : m.actorId = m'.actorId) : m = m' :=
  h.memberKeys.eq_of_id hm hm' (Prod.ext hlist hactor)

theorem findById_eq_some (h : Core E s) : s.findById i = some l ↔ l ∈ s.lists ∧ l.id = i := by
  constructor
  · intro hf
    exact ⟨List.mem_of_find?_eq_some hf, by simpa using List.find?_some hf⟩
  · rintro ⟨hl, rfl⟩
    refine h.listKeys.find?_eq (k := .id l.id) hl (by simp) fun q _ hq => ?_
    rw [beq_iff_eq] at hq
    rw [← hq]
    exact List.mem_cons_self

theorem owns_self (hl : l ∈ s.lists) : Owns s l.ownerActorId l.id := ⟨l, hl, rfl, rfl⟩

theorem Core.owner_eq (h : Core E s) (hl : l ∈ s.lists) (ho : Owns s o l.id) :
    l.ownerActorId = o := by
  obtain ⟨l', hl', hid, rfl⟩ := ho
  rw [h.list_eq hl hl' hid.symm]

/-- A list that stores nothing has no member that does. -/
theorem Core.member_none (h : Core E s) (hl : l ∈ s.lists) (hnone : l.atRkey = none)
    (hm : m ∈ s.members) (hid : m.listId = l.id) : m.atRkey = none := by
  rcases h.members l hl m hm hid.symm with ⟨hk, -⟩ | ⟨did, r, list, subject, -, -, -, huri, -⟩
  · exact hk
  · rcases h.lists l hl with ⟨-, hno⟩ | ⟨did, r, -, hk, -⟩
    · rw [hno] at huri
      cases huri
    · rw [hnone] at hk
      cases hk

theorem Core.atUri_none (h : Core E s) (hl : l ∈ s.lists) (hnone : l.atRkey = none) :
    l.atUri = none := by
  rcases h.lists l hl with ⟨-, huri⟩ | ⟨did, r, -, hk, -⟩
  · exact huri
  · rw [hnone] at hk
    cases hk

theorem Core.member_atUri_none (h : Core E s) (hm : m ∈ s.members) (hnone : m.atRkey = none) :
    m.atUri = none := by
  obtain ⟨l, hl, hid⟩ := h.listed m hm
  rcases h.members l hl m hm hid with ⟨-, huri⟩ | ⟨did, r, list, subject, -, hk, -⟩
  · exact huri
  · rw [hnone] at hk
    cases hk

/-- The lists keep their owners and the members what they store. -/
theorem holdsItem_congr (howns : ∀ o i, Owns s' o i ↔ Owns s o i)
    (hmembers : s'.members = s.members) (h : Int64 × Int64) (k : Int64 × String) :
    HoldsItem s' h k ↔ HoldsItem s h k := by
  simp only [HoldsItem, howns, hmembers]

end Holders

section Lists

theorem listSchema_nodup (l : ListRow) : (listSchema.keys l).Nodup := by
  cases h : l.atUri <;> simp [listSchema, h]

section Set

variable {f : ListRow → ListRow} (hid : ∀ l, (f l).id = l.id)
  (howner : ∀ l, (f l).ownerActorId = l.ownerActorId)

include hid howner

/-- A change of what a list says keeps its owner. -/
theorem owns_set {graphLists : List ((Int64 × String) × String)} (j : Int64) :
    Owns { s with lists := listSchema.set s.lists i f, graphLists } o j ↔ Owns s o j := by
  constructor
  · rintro ⟨l, hl, rfl, rfl⟩
    rcases Schema.mem_set_iff.mp hl with ⟨hl, -⟩ | ⟨q, hq, -, rfl⟩
    · exact owns_self hl
    · exact ⟨q, hq, (hid q).symm, (howner q).symm⟩
  · rintro ⟨l, hl, rfl, rfl⟩
    by_cases heq : l.id = i
    · exact ⟨f l, Schema.mem_set_of_eq hl heq, hid l, howner l⟩
    · exact ⟨l, Schema.mem_set_of_ne hl heq, rfl, rfl⟩

theorem holdsList_set {graphLists : List ((Int64 × String) × String)} {j : Int64} :
    HoldsList { s with lists := listSchema.set s.lists i f, graphLists } j k ↔
      (if j = i then ∃ l ∈ s.lists, l.id = i ∧ l.ownerActorId = k.1 ∧ (f l).atRkey = some k.2
        else HoldsList s j k) := by
  split
  · rename_i hj
    subst hj
    constructor
    · rintro ⟨l, hl, hli, ho, hk⟩
      rcases Schema.mem_set_iff.mp hl with ⟨-, hne⟩ | ⟨q, hq, hqi, rfl⟩
      · exact absurd hli hne
      · exact ⟨q, hq, hqi, (howner q).symm.trans ho, hk⟩
    · rintro ⟨l, hl, hli, ho, hk⟩
      exact ⟨f l, Schema.mem_set_of_eq hl hli, (hid l).trans hli, (howner l).trans ho, hk⟩
  · rename_i hj
    constructor
    · rintro ⟨l, hl, hli, ho, hk⟩
      rcases Schema.mem_set_iff.mp hl with ⟨hl, -⟩ | ⟨q, -, hqi, rfl⟩
      · exact ⟨l, hl, hli, ho, hk⟩
      · exact absurd (hli.symm.trans ((hid q).trans hqi)) hj
    · rintro ⟨l, hl, hli, ho, hk⟩
      have hne : l.id ≠ i := fun heq => hj (hli.symm.trans heq)
      exact ⟨l, Schema.mem_set_of_ne hl hne, hli, ho, hk⟩

/-- A change of what a list says, with the records of the lists -/
theorem core_setList (h : Core E s) {graphLists : List ((Int64 × String) × String)}
    (hunique : listSchema.Unique (listSchema.set s.lists i f))
    (hledger : Ledger (fun j k => if j = i then
        ∃ l ∈ s.lists, l.id = i ∧ l.ownerActorId = k.1 ∧ (f l).atRkey = some k.2
        else HoldsList s j k) (graphLists.map Prod.fst))
    (hok : ∀ l ∈ s.lists, l.id = i → ListOk E (f l) ∧
      ∀ m ∈ s.members, l.id = m.listId → MemberOk E s.graphListitems (f l) m) :
    Core E { s with lists := listSchema.set s.lists i f, graphLists } where
  listKeys := hunique
  memberKeys := h.memberKeys
  listed m hm := by
    obtain ⟨l, hl, hlm⟩ := h.listed m hm
    by_cases hli : l.id = i
    · exact ⟨f l, Schema.mem_set_of_eq hl hli, (hid l).trans hlm⟩
    · exact ⟨l, Schema.mem_set_of_ne hl hli, hlm⟩
  graphLists := hledger.congr fun j k => holdsList_set hid howner
  graphListitems := h.graphListitems.congr
    (holdsItem_congr (fun o j => owns_set hid howner j) rfl)
  lists l hl := by
    rcases Schema.mem_set_iff.mp hl with ⟨hl, -⟩ | ⟨q, hq, hqi, rfl⟩
    · exact h.lists l hl
    · exact (hok q hq hqi).1
  members l hl m hm hlm := by
    rcases Schema.mem_set_iff.mp hl with ⟨hl, -⟩ | ⟨q, hq, hqi, rfl⟩
    · exact h.members l hl m hm hlm
    · exact (hok q hq hqi).2 m hm ((hid q).symm.trans hlm)

end Set

/-- A row of `lists` without a record -/
theorem core_insertList (h : Core E s) {lists : List ListRow}
    (hins : listSchema.insert s.lists l = some lists) (hk : l.atRkey = none)
    (huri : l.atUri = none) : Core E { s with lists } := by
  obtain ⟨hunique, rfl⟩ := Schema.insert_eq_some.mp hins
  have hnew : ∀ q ∈ s.lists, q.id ≠ l.id := by
    intro q hq heq
    have hpair := (Schema.unique_iff.mp hunique).2
    rw [List.pairwise_append] at hpair
    have hdisj := hpair.2.2 q hq l (List.mem_singleton.mpr rfl)
    refine hdisj (a := .id q.id) List.mem_cons_self ?_
    rw [heq]
    exact List.mem_cons_self
  have hmem : ∀ {q}, q ∈ s.lists ++ [l] → q ∈ s.lists ∨ q = l := by simp
  have howns : ∀ {o j}, (∃ m ∈ s.members, m.listId = j) →
      (Owns { s with lists := s.lists ++ [l] } o j ↔ Owns s o j) := by
    rintro o j ⟨m, hm, rfl⟩
    obtain ⟨q, hq, hid⟩ := h.listed m hm
    constructor
    · rintro ⟨l', hl', hid', ho⟩
      rcases hmem hl' with hl' | rfl
      · exact ⟨l', hl', hid', ho⟩
      · exact absurd (hid.trans hid'.symm) (hnew q hq)
    · rintro ⟨l', hl', hid', ho⟩
      exact ⟨l', List.mem_append_left _ hl', hid', ho⟩
  refine ⟨hunique, h.memberKeys, fun m hm => ?_, h.graphLists.congr fun j k => ?_,
    h.graphListitems.congr fun x k => ?_, fun q hq => ?_, fun q hq m hm hid => ?_⟩
  · obtain ⟨q, hq, hid⟩ := h.listed m hm
    exact ⟨q, List.mem_append_left _ hq, hid⟩
  · constructor
    · rintro ⟨q, hq, hid, ho, hqk⟩
      rcases hmem hq with hq | rfl
      · exact ⟨q, hq, hid, ho, hqk⟩
      · rw [hk] at hqk
        cases hqk
    · rintro ⟨q, hq, hid, ho, hqk⟩
      exact ⟨q, List.mem_append_left _ hq, hid, ho, hqk⟩
  · constructor
    · rintro ⟨ho, m, hm, hx, hmk⟩
      exact ⟨(howns ⟨m, hm, congrArg Prod.fst hx⟩).mp ho, m, hm, hx, hmk⟩
    · rintro ⟨ho, m, hm, hx, hmk⟩
      exact ⟨(howns ⟨m, hm, congrArg Prod.fst hx⟩).mpr ho, m, hm, hx, hmk⟩
  · rcases hmem hq with hq | rfl
    · exact h.lists q hq
    · exact .inl ⟨hk, huri⟩
  · rcases hmem hq with hq | rfl
    · exact h.members q hq m hm hid
    · obtain ⟨q', hq', hid'⟩ := h.listed m hm
      exact absurd (hid'.trans hid.symm) (hnew q' hq')

/-- The name of a list, and whether it is public -/
theorem core_updateList (h : Core E s) {name : String} {isPublic : Bool} {lists : List ListRow}
    (hup : listSchema.update s.lists i (fun l => { l with name, isPublic }) = some lists) :
    Core E { s with lists } := by
  obtain ⟨hunique, rfl⟩ := Schema.update_eq_some.mp hup
  refine core_setList (f := fun l => { l with name, isPublic }) (fun _ => rfl) (fun _ => rfl) h
    hunique (h.graphLists.congr fun j k => ?_) fun l hl _ => ⟨h.lists l hl, h.members l hl⟩
  split
  · rename_i hj
    rw [hj]
    exact Iff.rfl
  · exact Iff.rfl

/-- DIDs are unique among the accounts. -/
def UniqueDids (E : Env) : Prop :=
  ∀ a b did, E.atDid a = some did → E.atDid b = some did → a = b

/-- The row with the rkey and the URI of its record -/
def ListRow.store (rkey uri : String) (l : ListRow) : ListRow :=
  { l with atRkey := some rkey, atUri := some uri }

/-- The URI of a new record is not that of another list. -/
theorem update_store (hdids : UniqueDids E) (h : Core E s) (hl : l ∈ s.lists)
    (hdid : E.atDid l.ownerActorId = some did)
    (hnew : (l.ownerActorId, generateTid r) ∉ s.graphLists.map Prod.fst) :
    ∃ lists, listSchema.update s.lists l.id
      (ListRow.store (generateTid r) (listUri did (generateTid r))) = some lists := by
  by_contra hnot
  have hfail := Option.eq_none_iff_forall_ne_some.mpr fun lists heq => hnot ⟨lists, heq⟩
  obtain ⟨q, hq, hqid, q', hq', hqid', key, hkey, hkey'⟩ :=
    Schema.update_eq_none h.listKeys (fun _ => listSchema_nodup _) hfail
  have hql : q = l := h.list_eq hq hl hqid
  subst hql
  rcases List.mem_cons.mp hkey with rfl | hkey
  · exact hqid' (congrArg ListRow.id (h.listKeys.eq_of_key hq' hq hkey' List.mem_cons_self))
  · rcases List.mem_cons.mp hkey with rfl | hkey
    · refine hqid' (congrArg ListRow.id (h.listKeys.eq_of_key hq' hq hkey' ?_))
      exact List.mem_cons_of_mem _ List.mem_cons_self
    · have hkey : key = .atUri (listUri did (generateTid r)) := by simpa [ListRow.store] using hkey
      subst hkey
      have huri : q'.atUri = some (listUri did (generateTid r)) := by
        simpa [listSchema] using hkey'
      rcases h.lists q' hq' with ⟨-, hnone⟩ | ⟨did', r', hdid', hk', huri'⟩
      · rw [hnone] at huri
        cases huri
      · rw [huri', Option.some.injEq] at huri
        obtain ⟨rfl, htid⟩ := uri_inj huri
        have hholds : HoldsList s q'.id (q.ownerActorId, generateTid r) :=
          ⟨q', hq', rfl, hdids _ _ _ hdid' hdid, htid ▸ hk'⟩
        exact hnew (h.graphLists.backed hholds)

/-- The list gets its record. -/
theorem publishListToAtp_eq (hdids : UniqueDids E) (h : Core E s) (hl : l ∈ s.lists)
    (hdid : E.atDid l.ownerActorId = some did)
    (hnew : (l.ownerActorId, generateTid r) ∉ s.graphLists.map Prod.fst) (name : String) :
    publishListToAtp E s l.id l.ownerActorId name r =
      { s with
        graphLists := s.graphLists ++ [((l.ownerActorId, generateTid r), name)]
        lists := listSchema.set s.lists l.id
          (ListRow.store (generateTid r) (listUri did (generateTid r))) } := by
  obtain ⟨lists, hup⟩ := update_store hdids h hl hdid hnew
  have hset := (Schema.update_eq_some.mp hup).2
  rw [publishListToAtp, hdid]
  show State.mk ((listSchema.update s.lists l.id (ListRow.store _ _)).getD _) _ _ _ = _
  rw [hup, ← hset, Store.put_of_new hnew]
  rfl

theorem core_publishList (hdids : UniqueDids E) (h : Core E s) (hl : l ∈ s.lists)
    (hnone : l.atRkey = none) (hdid : E.atDid l.ownerActorId = some did)
    (hnew : (l.ownerActorId, generateTid r) ∉ s.graphLists.map Prod.fst) (name : String) :
    Core E (publishListToAtp E s l.id l.ownerActorId name r) := by
  obtain ⟨lists, hup⟩ := update_store hdids h hl hdid hnew
  obtain ⟨hunique, rfl⟩ := Schema.update_eq_some.mp hup
  rw [publishListToAtp_eq hdids h hl hdid hnew]
  refine core_setList (f := ListRow.store _ _) (fun _ => rfl) (fun _ => rfl) h hunique ?_
    fun q hq hqid => ?_
  · rw [List.map_append]
    refine h.graphLists.add l.id hnew fun j k => ?_
    split
    · rename_i hj
      subst hj
      constructor
      · rintro ⟨q, hq, hqid, ho, hk⟩
        have hql := h.list_eq hq hl hqid
        subst hql
        exact .inr ⟨rfl, Prod.ext ho.symm (Option.some.inj hk).symm⟩
      · rintro (⟨q, hq, hqid, -, hk⟩ | ⟨-, rfl⟩)
        · rw [h.list_eq hq hl hqid, hnone] at hk
          cases hk
        · exact ⟨l, hl, rfl, rfl, rfl⟩
    · rename_i hj
      simp [hj]
  · have hql := h.list_eq hq hl hqid
    subst hql
    refine ⟨.inr ⟨did, r, hdid, rfl, rfl⟩, fun m hm hlm => .inl ?_⟩
    have hmk := h.member_none hq hnone hm hlm.symm
    exact ⟨hmk, h.member_atUri_none hm hmk⟩

/-- The row without a record -/
def ListRow.clear (l : ListRow) : ListRow := { l with atRkey := none, atUri := none }

theorem setList_clear (h : Core E s) :
    s.setList i ListRow.clear = { s with lists := listSchema.set s.lists i ListRow.clear } ∧
    listSchema.Unique (listSchema.set s.lists i ListRow.clear) := by
  obtain ⟨hup, hunique⟩ := Schema.update_of_subset (i := i) (f := ListRow.clear) h.listKeys
    (fun _ => listSchema_nodup _) fun q _ _ => by simp [listSchema, ListRow.clear]
  rw [State.setList, hup]
  exact ⟨rfl, hunique⟩

/-- A list none of whose members has a record gives up its own. -/
theorem core_unpublishList (h : Core E s) (hl : l ∈ s.lists) (hk : l.atRkey = some rkey)
    (hnone : ∀ m ∈ s.members, m.listId = l.id → m.atRkey = none) :
    Core E { s with
      graphLists := Store.delete s.graphLists (l.ownerActorId, rkey)
      lists := listSchema.set s.lists l.id ListRow.clear } := by
  have hunique := (setList_clear h (i := l.id)).2
  refine core_setList (f := ListRow.clear) (fun _ => rfl) (fun _ => rfl) h hunique ?_
    fun q hq hqid => ?_
  · rw [Store.map_delete]
    refine h.graphLists.drop fun j k => ?_
    have hholds : HoldsList s l.id (l.ownerActorId, rkey) := ⟨l, hl, rfl, rfl, hk⟩
    split
    · rename_i hj
      subst hj
      constructor
      · rintro ⟨q, -, -, -, hclear⟩
        cases hclear
      · rintro ⟨⟨q, hq, hqid, ho, hqk⟩, hne⟩
        rw [h.list_eq hq hl hqid] at ho hqk
        exact absurd (Prod.ext ho.symm (Option.some.inj (hqk.symm.trans hk))) hne
    · rename_i hj
      refine ⟨fun hh => ⟨hh, ?_⟩, fun hh => hh.1⟩
      rintro rfl
      exact hj (h.graphLists.unique hh hholds)
  · have hql := h.list_eq hq hl hqid
    subst hql
    refine ⟨.inl ⟨rfl, rfl⟩, fun m hm hlm => .inl ?_⟩
    have hmk := hnone m hm hlm.symm
    exact ⟨hmk, h.member_atUri_none hm hmk⟩

end Lists

section Members

theorem memberSchema_nodup (m : MemberRow) : (memberSchema.keys m).Nodup := by
  cases h : m.atUri <;> simp [memberSchema, h]

section Set

variable {x : Int64 × Int64} {f : MemberRow → MemberRow} {items : List ((Int64 × String) × ListItem)}

theorem holdsItem_set (hid : ∀ m, memberSchema.id (f m) = memberSchema.id m) {y : Int64 × Int64} :
    HoldsItem { s with members := memberSchema.set s.members x f, graphListitems := items } y k ↔
      (if y = x then Owns s k.1 x.1 ∧ ∃ m ∈ s.members, memberSchema.id m = x ∧
        (f m).atRkey = some k.2 else HoldsItem s y k) := by
  split
  · rename_i hy
    subst hy
    refine and_congr_right fun _ => ⟨?_, ?_⟩
    · rintro ⟨m, hm, hmx, hk⟩
      rcases Schema.mem_set_iff.mp hm with ⟨-, hne⟩ | ⟨q, hq, hqx, rfl⟩
      · exact absurd hmx hne
      · exact ⟨q, hq, hqx, hk⟩
    · rintro ⟨m, hm, hmx, hk⟩
      exact ⟨f m, Schema.mem_set_of_eq hm hmx, (hid m).trans hmx, hk⟩
  · rename_i hy
    refine and_congr_right fun _ => ⟨?_, ?_⟩
    · rintro ⟨m, hm, hmy, hk⟩
      rcases Schema.mem_set_iff.mp hm with ⟨hm, -⟩ | ⟨q, -, hqx, rfl⟩
      · exact ⟨m, hm, hmy, hk⟩
      · exact absurd (hmy.symm.trans ((hid q).trans hqx)) hy
    · rintro ⟨m, hm, hmy, hk⟩
      have hne : memberSchema.id m ≠ x := fun heq => hy (hmy.symm.trans heq)
      exact ⟨m, Schema.mem_set_of_ne hm hne, hmy, hk⟩

/-- A change of what a member stores, with the records of the members -/
theorem core_setMember (hid : ∀ m, memberSchema.id (f m) = memberSchema.id m) (h : Core E s)
    (hunique : memberSchema.Unique (memberSchema.set s.members x f))
    (hledger : Ledger (fun y k => if y = x then Owns s k.1 x.1 ∧ ∃ m ∈ s.members,
        memberSchema.id m = x ∧ (f m).atRkey = some k.2 else HoldsItem s y k)
      (items.map Prod.fst))
    (hok : ∀ l ∈ s.lists, ∀ m ∈ s.members, l.id = m.listId →
      (memberSchema.id m = x → MemberOk E items l (f m)) ∧
        (memberSchema.id m ≠ x → MemberOk E items l m)) :
    Core E { s with members := memberSchema.set s.members x f, graphListitems := items } where
  listKeys := h.listKeys
  memberKeys := hunique
  listed m hm := by
    rcases Schema.mem_set_iff.mp hm with ⟨hm, -⟩ | ⟨q, hq, -, rfl⟩
    · exact h.listed m hm
    · obtain ⟨l, hl, hlm⟩ := h.listed q hq
      exact ⟨l, hl, hlm.trans (congrArg Prod.fst (hid q)).symm⟩
  graphLists := h.graphLists
  graphListitems := hledger.congr fun y k => holdsItem_set hid
  lists := h.lists
  members l hl m hm hlm := by
    rcases Schema.mem_set_iff.mp hm with ⟨hm, hne⟩ | ⟨q, hq, hqx, rfl⟩
    · exact (hok l hl m hm hlm).2 hne
    · exact (hok l hl q hq (hlm.trans (congrArg Prod.fst (hid q)))).1 hqx

end Set

/-- The row with the rkey and the URI of its record -/
def MemberRow.store (rkey uri : String) (m : MemberRow) : MemberRow :=
  { m with atRkey := some rkey, atUri := some uri }

/-- The row without a record -/
def MemberRow.clear (m : MemberRow) : MemberRow := { m with atRkey := none, atUri := none }

theorem holdsItem_of_mem (hl : l ∈ s.lists) (hm : m ∈ s.members) (hid : m.listId = l.id)
    (hk : m.atRkey = some rkey) :
    HoldsItem s (m.listId, m.actorId) (l.ownerActorId, rkey) :=
  ⟨⟨l, hl, hid.symm, rfl⟩, m, hm, rfl, hk⟩

/-- The URI of a new record is not that of another member. -/
theorem update_member_store (hdids : UniqueDids E) (h : Core E s)
    (hdid : E.atDid l.ownerActorId = some did)
    (hnew : (l.ownerActorId, generateTid r) ∉ s.graphListitems.map Prod.fst) :
    ∃ members, memberSchema.update s.members (m.listId, m.actorId)
      (MemberRow.store (generateTid r) (listitemUri did (generateTid r))) = some members := by
  by_contra hnot
  have hfail := Option.eq_none_iff_forall_ne_some.mpr fun members heq => hnot ⟨members, heq⟩
  obtain ⟨q, hq, hqid, q', hq', hqid', key, hkey, hkey'⟩ :=
    Schema.update_eq_none h.memberKeys (fun _ => memberSchema_nodup _) hfail
  rcases List.mem_cons.mp hkey with rfl | hkey
  · have heq : q' = q := h.memberKeys.eq_of_key hq' hq hkey' List.mem_cons_self
    exact hqid' (heq ▸ hqid)
  · have hkey : key = .atUri (listitemUri did (generateTid r)) := by
      simpa [MemberRow.store] using hkey
    subst hkey
    have huri : q'.atUri = some (listitemUri did (generateTid r)) := by
      simpa [memberSchema] using hkey'
    obtain ⟨l', hl', hlq⟩ := h.listed q' hq'
    rcases h.members l' hl' q' hq' hlq with ⟨-, hnone⟩ | ⟨did', r', _, _, hdid', hk', huri', -⟩
    · rw [hnone] at huri
      cases huri
    · rw [huri', Option.some.injEq] at huri
      obtain ⟨rfl, htid⟩ := uri_inj huri
      have hholds := holdsItem_of_mem hl' hq' hlq.symm (htid ▸ hk')
      rw [hdids _ _ _ hdid' hdid] at hholds
      exact hnew (h.graphListitems.backed hholds)

/-- The member gets its record. -/
theorem core_publishItem (hdids : UniqueDids E) (h : Core E s) (hl : l ∈ s.lists)
    (hm : m ∈ s.members) (hid : m.listId = l.id) (hnone : m.atRkey = none) {list subject : String}
    (hdid : E.atDid l.ownerActorId = some did) (huri : l.atUri = some list)
    (hsubject : E.subjectDid m.actorId = some subject)
    (hnew : (l.ownerActorId, generateTid r) ∉ s.graphListitems.map Prod.fst) :
    maybePublishListitem E s m.listId l.atUri l.ownerActorId m.actorId r =
      { s with
        graphListitems := s.graphListitems ++
          [((l.ownerActorId, generateTid r), { list, subject })]
        members := memberSchema.set s.members (m.listId, m.actorId)
          (MemberRow.store (generateTid r) (listitemUri did (generateTid r))) } ∧
    Core E (maybePublishListitem E s m.listId l.atUri l.ownerActorId m.actorId r) := by
  obtain ⟨members, hup⟩ := update_member_store (m := m) hdids h hdid hnew
  obtain ⟨hunique, rfl⟩ := Schema.update_eq_some.mp hup
  have heq : maybePublishListitem E s m.listId l.atUri l.ownerActorId m.actorId r =
      { s with
        graphListitems := s.graphListitems ++
          [((l.ownerActorId, generateTid r), { list, subject })]
        members := memberSchema.set s.members (m.listId, m.actorId)
          (MemberRow.store (generateTid r) (listitemUri did (generateTid r))) } := by
    simp only [maybePublishListitem, huri, hsubject, hdid]
    show State.mk _ ((memberSchema.update s.members _ (MemberRow.store _ _)).getD _) _ _ = _
    rw [hup, Store.put_of_new hnew]
    rfl
  refine ⟨heq, ?_⟩
  rw [heq]
  refine core_setMember (f := MemberRow.store _ _) (fun _ => rfl) h hunique ?_
    fun l' hl' q hq hlq => ⟨fun hqm => ?_, fun _ => ?_⟩
  · rw [List.map_append]
    refine h.graphListitems.add (m.listId, m.actorId) hnew fun y k => ?_
    split
    · rename_i hy
      subst hy
      constructor
      · rintro ⟨ho, q, -, -, hk⟩
        rw [hid] at ho
        exact .inr ⟨rfl, Prod.ext (h.owner_eq hl ho).symm (Option.some.inj hk).symm⟩
      · rintro (⟨-, q, hq, hqm, hk⟩ | ⟨-, rfl⟩)
        · rw [h.memberKeys.eq_of_id hq hm hqm, hnone] at hk
          cases hk
        · exact ⟨⟨l, hl, hid.symm, rfl⟩, m, hm, rfl, rfl⟩
    · rename_i hy
      simp [hy]
  · have hqm' := h.memberKeys.eq_of_id hq hm hqm
    subst hqm'
    have hll' := h.list_eq hl' hl (hlq.trans hid)
    subst hll'
    exact .inr ⟨did, r, list, subject, hdid, rfl, rfl, huri, hsubject, by simp⟩
  · rcases h.members l' hl' q hq hlq with hnone | ⟨_, _, _, _, hdid, hk, hu, hlu, hs, hitem⟩
    · exact .inl hnone
    · exact .inr ⟨_, _, _, _, hdid, hk, hu, hlu, hs, List.mem_append_left _ hitem⟩

/-- The records of others, once that of a member is deleted -/
theorem memberOk_delete (h : Core E s) (hl : l ∈ s.lists) (hm : m ∈ s.members)
    (hid : m.listId = l.id) (hk : m.atRkey = some rkey) {l' : ListRow} {q : MemberRow}
    (hl' : l' ∈ s.lists) (hq : q ∈ s.members) (hlq : l'.id = q.listId)
    (hne : (q.listId, q.actorId) ≠ (m.listId, m.actorId)) :
    MemberOk E (Store.delete s.graphListitems (l.ownerActorId, rkey)) l' q := by
  rcases h.members l' hl' q hq hlq with hnone | ⟨_, _, _, _, hdid, hqk, hu, hlu, hs, hitem⟩
  · exact .inl hnone
  · refine .inr ⟨_, _, _, _, hdid, hqk, hu, hlu, hs, Store.mem_delete.mpr ⟨hitem, fun heq => hne ?_⟩⟩
    have hholds := holdsItem_of_mem hl' hq hlq.symm hqk
    have heq : (l'.ownerActorId, _) = (l.ownerActorId, rkey) := heq
    rw [heq] at hholds
    exact h.graphListitems.unique hholds (holdsItem_of_mem hl hm hid hk)

/-- The member gives up its record. -/
theorem core_unpublishItem (h : Core E s) (hl : l ∈ s.lists) (hm : m ∈ s.members)
    (hid : m.listId = l.id) (hk : m.atRkey = some rkey) :
    (s.deleteListitem l.ownerActorId rkey).setMember m.listId m.actorId MemberRow.clear =
      { s with
        graphListitems := Store.delete s.graphListitems (l.ownerActorId, rkey)
        members := memberSchema.set s.members (m.listId, m.actorId) MemberRow.clear } ∧
    Core E ((s.deleteListitem l.ownerActorId rkey).setMember m.listId m.actorId
      MemberRow.clear) := by
  obtain ⟨hup, hunique⟩ := Schema.update_of_subset (i := (m.listId, m.actorId))
    (f := MemberRow.clear) h.memberKeys (fun _ => memberSchema_nodup _) fun q _ _ => by
      simp [memberSchema, MemberRow.clear]
  have heq : (s.deleteListitem l.ownerActorId rkey).setMember m.listId m.actorId MemberRow.clear =
      { s with
        graphListitems := Store.delete s.graphListitems (l.ownerActorId, rkey)
        members := memberSchema.set s.members (m.listId, m.actorId) MemberRow.clear } := by
    rw [State.setMember, State.deleteListitem, hup]
    rfl
  refine ⟨heq, ?_⟩
  rw [heq]
  have hholds := holdsItem_of_mem hl hm hid hk
  refine core_setMember (f := MemberRow.clear) (fun _ => rfl) h hunique ?_
    fun l' hl' q hq hlq => ⟨fun _ => .inl ⟨rfl, rfl⟩, memberOk_delete h hl hm hid hk hl' hq hlq⟩
  rw [Store.map_delete]
  refine h.graphListitems.drop fun y k => ?_
  split
  · rename_i hy
    subst hy
    constructor
    · rintro ⟨-, q, -, -, hclear⟩
      cases hclear
    · rintro ⟨⟨ho, q, hq, hqm, hqk⟩, hne⟩
      rw [h.memberKeys.eq_of_id hq hm hqm, hk] at hqk
      rw [hid] at ho
      exact absurd (Prod.ext (h.owner_eq hl ho).symm (Option.some.inj hqk).symm) hne
  · rename_i hy
    refine ⟨fun hh => ⟨hh, ?_⟩, fun hh => hh.1⟩
    rintro rfl
    exact hy (h.graphListitems.unique hh hholds)

/-- A member without a record -/
theorem core_insertMember (h : Core E s) {members : List MemberRow}
    (hins : memberSchema.insert s.members m = some members) (hk : m.atRkey = none)
    (huri : m.atUri = none) (hl : l ∈ s.lists) (hid : l.id = m.listId) :
    Core E { s with members } := by
  obtain ⟨hunique, rfl⟩ := Schema.insert_eq_some.mp hins
  have hmem : ∀ {q}, q ∈ s.members ++ [m] → q ∈ s.members ∨ q = m := by simp
  refine ⟨h.listKeys, hunique, fun q hq => ?_, h.graphLists, h.graphListitems.congr fun y k => ?_,
    h.lists, fun l' hl' q hq hlq => ?_⟩
  · rcases hmem hq with hq | rfl
    · exact h.listed q hq
    · exact ⟨l, hl, hid⟩
  · refine and_congr_right fun _ => ⟨?_, ?_⟩
    · rintro ⟨q, hq, hqy, hqk⟩
      rcases hmem hq with hq | rfl
      · exact ⟨q, hq, hqy, hqk⟩
      · rw [hk] at hqk
        cases hqk
    · rintro ⟨q, hq, hqy, hqk⟩
      exact ⟨q, List.mem_append_left _ hq, hqy, hqk⟩
  · rcases hmem hq with hq | rfl
    · exact h.members l' hl' q hq hlq
    · exact .inl ⟨hk, huri⟩

/-- Rows without records are deleted. -/
theorem core_filter (h : Core E s) {p : ListRow → Bool} {q : MemberRow → Bool}
    (hp : ∀ l ∈ s.lists, p l = false → l.atRkey = none ∧ ∀ m ∈ s.members, l.id = m.listId →
      q m = false)
    (hq : ∀ m ∈ s.members, q m = false → m.atRkey = none) :
    Core E { s with lists := s.lists.filter p, members := s.members.filter q } := by
  have hkeep : ∀ {l m}, l ∈ s.lists → m ∈ s.members → l.id = m.listId → q m = true →
      p l = true := by
    intro l m hl hm hlm hqm
    cases hpl : p l with
    | true => rfl
    | false =>
      rw [(hp l hl hpl).2 m hm hlm] at hqm
      cases hqm
  refine ⟨h.listKeys.filter p, h.memberKeys.filter q, fun m hm => ?_,
    h.graphLists.congr fun j k => ?_, h.graphListitems.congr fun y k => ?_, fun l hl => ?_,
    fun l hl m hm hlm => ?_⟩
  · obtain ⟨hm, hqm⟩ := List.mem_filter.mp hm
    obtain ⟨l, hl, hlm⟩ := h.listed m hm
    exact ⟨l, List.mem_filter.mpr ⟨hl, hkeep hl hm hlm hqm⟩, hlm⟩
  · constructor
    · rintro ⟨l, hl, hlj⟩
      exact ⟨l, (List.mem_filter.mp hl).1, hlj⟩
    · rintro ⟨l, hl, hlj, ho, hk⟩
      refine ⟨l, List.mem_filter.mpr ⟨hl, ?_⟩, hlj, ho, hk⟩
      by_contra hpl
      rw [(hp l hl (Bool.eq_false_iff.mpr hpl)).1] at hk
      cases hk
  · constructor
    · rintro ⟨⟨l, hl, hlo⟩, m, hm, hmy⟩
      exact ⟨⟨l, (List.mem_filter.mp hl).1, hlo⟩, m, (List.mem_filter.mp hm).1, hmy⟩
    · rintro ⟨⟨l, hl, hli, ho⟩, m, hm, hmy, hk⟩
      have hqm : q m = true := by
        by_contra hqm
        rw [hq m hm (Bool.eq_false_iff.mpr hqm)] at hk
        cases hk
      have hlm : l.id = m.listId := hli.trans (congrArg Prod.fst hmy).symm
      exact ⟨⟨l, List.mem_filter.mpr ⟨hl, hkeep hl hm hlm hqm⟩, hli, ho⟩, m,
        List.mem_filter.mpr ⟨hm, hqm⟩, hmy, hk⟩
  · exact h.lists l (List.mem_filter.mp hl).1
  · exact h.members l (List.mem_filter.mp hl).1 m (List.mem_filter.mp hm).1 hlm

end Members

end Seiran.Lists
