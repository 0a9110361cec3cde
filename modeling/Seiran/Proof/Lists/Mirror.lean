import Seiran.Proof.Lists.Rows

/-!
# Public lists are in the repositories

* `Careful`: no member of a public list is added again, moved or left out for being
  withdrawn, and no TID is that of another record;
* `Settled`: the rows of a list and of its members store rkeys where they are to;
* `inv_step`: a careful operation leaves all lists settled;
* `lists_mirror`: in every state that is reached the records are those of the
  public lists and of their members.
-/

namespace Seiran.Lists

open Sql Revision

variable {E : Env} {s s' t : State} {i a o user : Int64} {l : ListRow} {m : MemberRow} {r : Reading}
  {act : Action} {as : List Action} {did rkey : String}

section Conditions

/-- A list that has a record -/
def Published (E : Env) (l : ListRow) : Prop :=
  l.isPublic = true ∧ (E.atDid l.ownerActorId).isSome = true

/-- The TIDs that are read are new. -/
def Fresh (keys : List (Int64 × String)) (owner : Int64) (clock : Nat → Reading) (n : Nat) : Prop :=
  ∀ j < n, (owner, generateTid (clock j)) ∉ keys ∧
    ∀ j' < j, generateTid (clock j') ≠ generateTid (clock j)

/-- The condition on a step -/
def Careful (E : Env) (s : State) : Action → Prop
  | .createList user _ _ isPublic r => isPublic = true → (E.atDid user).isSome = true →
      (user, generateTid r) ∉ s.graphLists.map Prod.fst
  | .updateList user id _ isPublic clock => isPublic = true → (E.atDid user).isSome = true →
      ∀ l ∈ s.lists, l.id = id → l.ownerActorId = user → l.isPublic = false →
        (user, generateTid (clock 0)) ∉ s.graphLists.map Prod.fst ∧
        Fresh (s.graphListitems.map Prod.fst) user (fun n => clock (n + 1))
          (s.membersOf id).length ∧
        ∀ m ∈ s.membersOf id, (E.actor m.actorId).any Actor.withdrawn = true →
          E.subjectDid m.actorId = none
  | .addMember user id actorId r => ∀ l ∈ s.lists, l.id = id → l.ownerActorId = user →
      Published E l → (user, generateTid r) ∉ s.graphListitems.map Prod.fst ∧
        ∀ m ∈ s.membersOf id, m.actorId = actorId → E.subjectDid actorId = none
  | .moveActor oldActor newActor => oldActor ≠ newActor → ∀ l ∈ s.lists, Published E l →
      ∀ m ∈ s.membersOf l.id, m.actorId = oldActor → E.subjectDid oldActor = none ∧
        (E.subjectDid newActor = none ∨ ∃ m' ∈ s.membersOf l.id, m'.actorId = newActor)
  | .deleteList _ _ => True
  | .removeMember _ _ _ => True

/-- The rows of the list store rkeys where they are to. -/
structure Settled (E : Env) (members : List MemberRow) (l : ListRow) : Prop where
  list : l.atRkey.isSome = true ↔ Published E l
  members : ∀ m ∈ members, m.listId = l.id →
    (m.atRkey.isSome = true ↔ Published E l ∧ (E.subjectDid m.actorId).isSome = true)

structure Inv (E : Env) (s : State) : Prop extends Core E s where
  settled : ∀ l ∈ s.lists, Settled E s.members l

theorem mem_membersOf : m ∈ s.membersOf i ↔ m ∈ s.members ∧ m.listId = i := by
  simp [State.membersOf]

end Conditions

section Publish

/-- Each row of `t` is one of `s`, with an rkey that it may have got. -/
def Gets (P : MemberRow → Prop) (s t : State) : Prop :=
  ∀ m ∈ t.members, ∃ q ∈ s.members, q.listId = m.listId ∧ q.actorId = m.actorId ∧
    (P q ∧ m.atRkey.isSome = true ∨ ¬ P q ∧ m.atRkey = q.atRkey)

theorem fresh_tail {keys : List (Int64 × String)} {clock : Nat → Reading} {n : Nat}
    (h : Fresh keys o clock (n + 1)) : Fresh keys o (fun n => clock (n + 1)) n := fun j hj =>
  ⟨(h (j + 1) (by omega)).1, fun j' hj' => (h (j + 1) (by omega)).2 (j' + 1) (by omega)⟩

theorem fresh_append {keys : List (Int64 × String)} {clock : Nat → Reading} {n : Nat}
    (h : Fresh keys o clock (n + 1)) :
    Fresh (keys ++ [(o, generateTid (clock 0))]) o (fun n => clock (n + 1)) n := by
  intro j hj
  refine ⟨fun hmem => ?_, (fresh_tail h j hj).2⟩
  rcases List.mem_append.mp hmem with hmem | hmem
  · exact (fresh_tail h j hj).1 hmem
  · have heq := congrArg Prod.snd (List.mem_singleton.mp hmem)
    exact (h (j + 1) (by omega)).2 0 (by omega) heq.symm

theorem publishMembers_spec (hdids : UniqueDids E) {list : String} {ids : List Int64}
    (h : Core E s) (hl : l ∈ s.lists) (hdid : E.atDid l.ownerActorId = some did)
    (huri : l.atUri = some list) (hnodup : ids.Nodup)
    (hids : ∀ a ∈ ids, ∃ m ∈ s.members, m.listId = l.id ∧ m.actorId = a ∧ m.atRkey = none)
    {clock : Nat → Reading}
    (hfresh : Fresh (s.graphListitems.map Prod.fst) l.ownerActorId clock ids.length) :
    Core E (publishMembers E l.id l.atUri l.ownerActorId ids clock s) ∧
    (publishMembers E l.id l.atUri l.ownerActorId ids clock s).lists = s.lists ∧
    Gets (fun q => q.listId = l.id ∧ q.actorId ∈ ids ∧ (E.subjectDid q.actorId).isSome = true) s
      (publishMembers E l.id l.atUri l.ownerActorId ids clock s) := by
  induction ids generalizing s clock with
  | nil => exact ⟨h, rfl, fun m hm => ⟨m, hm, rfl, rfl, .inr ⟨by simp, rfl⟩⟩⟩
  | cons a ids ih =>
    obtain ⟨ha, hids'⟩ := List.nodup_cons.mp hnodup
    rw [publishMembers]
    cases hsubject : E.subjectDid a with
    | none =>
      have hself : maybePublishListitem E s l.id l.atUri l.ownerActorId a (clock 0) = s := by
        simp only [maybePublishListitem, hsubject, huri]
      rw [hself]
      obtain ⟨hcore, hlists, hgets⟩ := ih h hl hids'
        (fun b hb => hids b (List.mem_cons_of_mem _ hb)) (fresh_tail hfresh)
      refine ⟨hcore, hlists, fun m hm => ?_⟩
      obtain ⟨q, hq, hlist, hactor, hcase⟩ := hgets m hm
      refine ⟨q, hq, hlist, hactor, hcase.imp (And.imp_left ?_) (And.imp_left (mt ?_))⟩
      · rintro ⟨hql, hqa, hs⟩
        exact ⟨hql, List.mem_cons_of_mem _ hqa, hs⟩
      · rintro ⟨hql, hqa, hs⟩
        rcases List.mem_cons.mp hqa with rfl | hqa
        · rw [hsubject] at hs
          cases hs
        · exact ⟨hql, hqa, hs⟩
    | some subject =>
      obtain ⟨m₀, hm₀, hm₀l, rfl, hnone⟩ := hids a List.mem_cons_self
      obtain ⟨heq, hcore⟩ := core_publishItem hdids h hl hm₀ hm₀l hnone hdid huri hsubject
        (hfresh 0 (by simp)).1
      rw [hm₀l] at heq hcore
      rw [heq] at hcore ⊢
      have hne : ∀ b ∈ ids, ∀ m : MemberRow, m.actorId = b →
          memberSchema.id m ≠ (l.id, m₀.actorId) := by
        rintro b hb m rfl hid
        have hactor : m.actorId = m₀.actorId := congrArg Prod.snd hid
        exact ha (hactor ▸ hb)
      obtain ⟨hcore, hlists, hgets⟩ := ih hcore hl hids' (fun b hb => by
          obtain ⟨m, hm, hml, hmb, hmk⟩ := hids b (List.mem_cons_of_mem _ hb)
          exact ⟨m, Schema.mem_set_of_ne hm (hne b hb m hmb), hml, hmb, hmk⟩)
        (by rw [List.map_append]; exact fresh_append hfresh)
      refine ⟨hcore, hlists, fun m hm => ?_⟩
      obtain ⟨q, hq, hlist, hactor, hcase⟩ := hgets m hm
      rcases Schema.mem_set_iff.mp hq with ⟨hq, hqid⟩ | ⟨q, hold, hqid, rfl⟩
      · refine ⟨q, hq, hlist, hactor, hcase.imp (And.imp_left ?_) (And.imp_left (mt ?_))⟩
        · rintro ⟨hql, hqa, hs⟩
          exact ⟨hql, List.mem_cons_of_mem _ hqa, hs⟩
        · rintro ⟨hql, hqa, hs⟩
          rcases List.mem_cons.mp hqa with hqa | hqa
          · exact absurd (Prod.ext hql hqa) hqid
          · exact ⟨hql, hqa, hs⟩
      · have hqa : q.actorId = m₀.actorId := congrArg Prod.snd hqid
        refine ⟨q, hold, hlist, hactor, .inl ⟨⟨congrArg Prod.fst hqid, by simp [hqa], ?_⟩, ?_⟩⟩
        · rw [hqa, hsubject]
          rfl
        · rcases hcase with ⟨-, hsome⟩ | ⟨-, heq⟩
          · exact hsome
          · rw [heq]
            rfl

end Publish

section Unpublish

/-- The records of the members that are deleted -/
def deleteItems (items : List ((Int64 × String) × ListItem)) (owner : Int64)
    (members : List (Int64 × String)) : List ((Int64 × String) × ListItem) :=
  members.foldl (fun items x => Store.delete items (owner, x.2)) items

/-- What is left once the members in the list have given up their records -/
structure Unpublished (E : Env) (s : State) (l : ListRow) (members : List (Int64 × String))
    (t : State) : Prop where
  core : Core E t
  lists : t.lists = s.lists
  graphLists : t.graphLists = s.graphLists
  graphListitems : t.graphListitems = deleteItems s.graphListitems l.ownerActorId members
  others : (t.members.filter fun m => m.listId != l.id) =
    s.members.filter fun m => m.listId != l.id
  cleared : ∀ m ∈ t.members, ∃ q ∈ s.members, q.listId = m.listId ∧ q.actorId = m.actorId ∧
    (m.atRkey = none ∨ m.atRkey = q.atRkey ∧ (q.listId = l.id → q.actorId ∉ members.map Prod.fst))

theorem unpublishMembers_spec {members : List (Int64 × String)} (h : Core E s) (hl : l ∈ s.lists)
    (hnodup : (members.map Prod.fst).Nodup)
    (hmembers : ∀ x ∈ members, ∃ m ∈ s.members, m.listId = l.id ∧ m.actorId = x.1 ∧
      m.atRkey = some x.2) :
    Unpublished E s l members (unpublishMembers l.id l.ownerActorId members s) := by
  induction members generalizing s with
  | nil => exact ⟨h, rfl, rfl, rfl, rfl, fun m hm => ⟨m, hm, rfl, rfl, .inr ⟨rfl, by simp⟩⟩⟩
  | cons x members ih =>
    obtain ⟨actorId, rkey⟩ := x
    rw [List.map_cons, List.nodup_cons] at hnodup
    obtain ⟨hx, hnodup⟩ := hnodup
    obtain ⟨m₀, hm₀, hm₀l, hactor, hk⟩ := hmembers _ List.mem_cons_self
    have hactor : m₀.actorId = actorId := hactor
    subst hactor
    obtain ⟨heq, hcore⟩ := core_unpublishItem h hl hm₀ hm₀l hk
    rw [hm₀l] at heq hcore
    rw [heq] at hcore
    have hne : ∀ y ∈ members, ∀ m : MemberRow, m.actorId = y.1 →
        memberSchema.id m ≠ (l.id, m₀.actorId) := by
      intro y hy m hmy hid
      have hmm : m.actorId = m₀.actorId := congrArg Prod.snd hid
      have hy₁ : y.1 ∈ members.map Prod.fst := List.mem_map_of_mem hy
      rw [← hmy, hmm] at hy₁
      exact hx hy₁
    have hrest := ih hcore hl hnodup fun y hy => by
      obtain ⟨m, hm, hml, hmy, hmk⟩ := hmembers y (List.mem_cons_of_mem _ hy)
      exact ⟨m, Schema.mem_set_of_ne hm (hne y hy m hmy), hml, hmy, hmk⟩
    have hstep : unpublishMembers l.id l.ownerActorId ((m₀.actorId, rkey) :: members) s =
        unpublishMembers l.id l.ownerActorId members
          ((s.deleteListitem l.ownerActorId rkey).setMember l.id m₀.actorId MemberRow.clear) := rfl
    rw [hstep, heq]
    refine ⟨hrest.core, hrest.lists, hrest.graphLists, hrest.graphListitems, ?_, fun m hm => ?_⟩
    · rw [hrest.others]
      refine Schema.filter_set (fun m hm => ?_) fun _ => rfl
      have hml : m.listId = l.id := congrArg Prod.fst hm
      simp [hml]
    · obtain ⟨q, hq, hlist, hactor, hcase⟩ := hrest.cleared m hm
      rcases Schema.mem_set_iff.mp hq with ⟨hold, hqid⟩ | ⟨q, hold, hqid, rfl⟩
      · refine ⟨q, hold, hlist, hactor, hcase.imp_right (And.imp_right fun hno hql => ?_)⟩
        rw [List.map_cons, List.mem_cons, not_or]
        exact ⟨fun hqa => hqid (Prod.ext hql hqa), hno hql⟩
      · refine ⟨q, hold, hlist, hactor, .inl ?_⟩
        rcases hcase with hnone | ⟨hsame, -⟩
        · exact hnone
        · exact hsame

theorem mem_membersWithAtpRecord {x : Int64 × String} : x ∈ s.membersWithAtpRecord i ↔
    ∃ m ∈ s.members, m.listId = i ∧ m.actorId = x.1 ∧ m.atRkey = some x.2 := by
  rw [State.membersWithAtpRecord, List.mem_filterMap]
  constructor
  · rintro ⟨m, hm, hx⟩
    obtain ⟨rkey, hk, rfl⟩ := Option.map_eq_some_iff.mp hx
    obtain ⟨hm, hml⟩ := mem_membersOf.mp hm
    exact ⟨m, hm, hml, rfl, hk⟩
  · rintro ⟨m, hm, hml, hmx, hk⟩
    refine ⟨m, mem_membersOf.mpr ⟨hm, hml⟩, ?_⟩
    rw [hk, hmx]
    rfl

theorem nodup_actorIds (h : Core E s) : ((s.membersOf i).map MemberRow.actorId).Nodup := by
  have hpair := (Schema.unique_iff.mp h.memberKeys).2
  refine List.pairwise_map.mpr ((hpair.filter _).imp_of_mem fun {m q} hm hq hd heq => ?_)
  have hml := (mem_membersOf.mp hm).2
  have hql := (mem_membersOf.mp hq).2
  refine hd (a := .member m.listId m.actorId) List.mem_cons_self ?_
  rw [heq, hml, ← hql]
  exact List.mem_cons_self

theorem nodup_membersWithAtpRecord (h : Core E s) :
    ((s.membersWithAtpRecord i).map Prod.fst).Nodup := by
  have hpair := List.pairwise_map.mp (nodup_actorIds h (i := i))
  refine List.pairwise_map.mpr (hpair.filterMap _ fun m q hne x hx y hy => ?_)
  obtain ⟨_, -, rfl⟩ := Option.map_eq_some_iff.mp hx
  obtain ⟨_, -, rfl⟩ := Option.map_eq_some_iff.mp hy
  exact hne

/-- The list without its record, and its members without theirs -/
theorem unpublishListFromAtp_spec (h : Core E s) (hl : l ∈ s.lists) :
    ∃ t, unpublishListFromAtp s l.id l.ownerActorId l.atRkey = t ∧ Core E t ∧
      t.lists = listSchema.set s.lists l.id ListRow.clear ∧
      t.graphLists = (match l.atRkey with
        | none => s.graphLists
        | some rkey => Store.delete s.graphLists (l.ownerActorId, rkey)) ∧
      t.graphListitems = deleteItems s.graphListitems l.ownerActorId (s.membersWithAtpRecord l.id) ∧
      (t.members.filter fun m => m.listId != l.id) =
        (s.members.filter fun m => m.listId != l.id) ∧
      ∀ m ∈ t.members, (m.listId = l.id → m.atRkey = none) ∧
        (m.listId ≠ l.id → m ∈ s.members) := by
  have hspec := unpublishMembers_spec h hl (nodup_membersWithAtpRecord h)
    fun x hx => mem_membersWithAtpRecord.mp hx
  have hcleared : ∀ m ∈ (unpublishMembers l.id l.ownerActorId (s.membersWithAtpRecord l.id)
      s).members, (m.listId = l.id → m.atRkey = none) ∧ (m.listId ≠ l.id → m ∈ s.members) := by
    intro m hm
    refine ⟨fun hml => ?_, fun hml => ?_⟩
    · obtain ⟨q, hq, hlist, hactor, hcase⟩ := hspec.cleared m hm
      rcases hcase with hnone | ⟨hsame, hno⟩
      · exact hnone
      · cases hk : q.atRkey with
        | none => exact hsame.trans hk
        | some rkey =>
          have hmem : (q.actorId, rkey) ∈ s.membersWithAtpRecord l.id :=
            mem_membersWithAtpRecord.mpr ⟨q, hq, hlist.trans hml, rfl, hk⟩
          exact absurd (List.mem_map_of_mem hmem) (hno (hlist.trans hml))
    · have hfilter : m ∈ s.members.filter fun m => m.listId != l.id := by
        rw [← hspec.others]
        exact List.mem_filter.mpr ⟨hm, by simpa using hml⟩
      exact (List.mem_filter.mp hfilter).1
  have hdef : unpublishListFromAtp s l.id l.ownerActorId l.atRkey = (match l.atRkey with
      | none => unpublishMembers l.id l.ownerActorId (s.membersWithAtpRecord l.id) s
      | some rkey => (unpublishMembers l.id l.ownerActorId (s.membersWithAtpRecord l.id)
          s).deleteGraphList l.ownerActorId rkey).setList l.id ListRow.clear := rfl
  rw [hdef]
  generalize unpublishMembers l.id l.ownerActorId (s.membersWithAtpRecord l.id) s = u at *
  cases hk : l.atRkey with
  | none =>
    have hsame : listSchema.set s.lists l.id ListRow.clear = s.lists := by
      refine Schema.set_of_fixed fun q hq hid => ?_
      have huri := h.atUri_none hl hk
      rw [h.list_eq hq hl hid]
      cases l
      cases hk
      cases huri
      rfl
    refine ⟨u, ?_, hspec.core, ?_⟩
    · show u.setList l.id ListRow.clear = u
      rw [(setList_clear hspec.core).1, hspec.lists, hsame, ← hspec.lists]
    · rw [hsame]
      exact ⟨hspec.lists, hspec.graphLists, hspec.graphListitems, hspec.others, hcleared⟩
  | some rkey =>
    have hl' : l ∈ u.lists := hspec.lists ▸ hl
    have hcore := core_unpublishList hspec.core hl' hk fun m hm hml => (hcleared m hm).1 hml
    refine ⟨_, ?_, hcore, congrArg (listSchema.set · _ _) hspec.lists,
      congrArg (Store.delete · _) hspec.graphLists, hspec.graphListitems, hspec.others, hcleared⟩
    have hset := (setList_clear hspec.core (i := l.id)).1
    rw [State.setList] at hset
    rw [State.mk.injEq] at hset
    show State.mk ((listSchema.update u.lists l.id ListRow.clear).getD u.lists) _ _ _ = _
    rw [hset.1]
    rfl

end Unpublish

section Operations

theorem Settled.congr (h : Settled E s.members l) (hm : ∀ m ∈ t.members, m.listId = l.id →
    ∃ q ∈ s.members, q.listId = m.listId ∧ q.actorId = m.actorId ∧ m.atRkey = q.atRkey) :
    Settled E t.members l := by
  refine ⟨h.list, fun m hmt hml => ?_⟩
  obtain ⟨q, hq, hlist, hactor, hk⟩ := hm m hmt hml
  rw [hk, ← hactor]
  exact h.members q hq (hlist.trans hml)

theorem atUri_none_of_did (h : Core E s) (hl : l ∈ s.lists)
    (hdid : E.atDid l.ownerActorId = none) : l.atUri = none := by
  rcases h.lists l hl with ⟨-, huri⟩ | ⟨did, r, hsome, -⟩
  · exact huri
  · rw [hdid] at hsome
    cases hsome

theorem not_published (hdid : E.atDid l.ownerActorId = none) : ¬ Published E l := by
  rintro ⟨-, hsome⟩
  rw [hdid] at hsome
  cases hsome

theorem maybePublishListitem_none : maybePublishListitem E s i none o a r = s := rfl

theorem publishMembers_none {ids : List Int64} {clock : Nat → Reading} :
    publishMembers E i none o ids clock s = s := by
  induction ids generalizing clock with
  | nil => rfl
  | cons a ids ih =>
    rw [publishMembers, maybePublishListitem_none]
    exact ih

theorem maybePublishListitem_noSubject (hsubject : E.subjectDid a = none) {list : Option String} :
    maybePublishListitem E s i list o a r = s := by
  cases list <;> simp only [maybePublishListitem, hsubject]

/-- A new list, or one that becomes public -/
theorem inv_publishList (hdids : UniqueDids E) (h : Core E s) (hl : l ∈ s.lists)
    (hpublic : l.isPublic = true) (hnone : l.atRkey = none)
    (hsettled : ∀ q ∈ s.lists, q.id ≠ l.id → Settled E s.members q) (name : String)
    (hnew : (E.atDid l.ownerActorId).isSome = true →
      (l.ownerActorId, generateTid r) ∉ s.graphLists.map Prod.fst) :
    ∃ l' ∈ (publishListToAtp E s l.id l.ownerActorId name r).lists, l'.id = l.id ∧
      l'.ownerActorId = l.ownerActorId ∧ l'.isPublic = true ∧
      (l'.atRkey.isSome = true ↔ Published E l') ∧
      Core E (publishListToAtp E s l.id l.ownerActorId name r) ∧
      (publishListToAtp E s l.id l.ownerActorId name r).members = s.members ∧
      (publishListToAtp E s l.id l.ownerActorId name r).graphListitems = s.graphListitems ∧
      ∀ q ∈ (publishListToAtp E s l.id l.ownerActorId name r).lists, q.id ≠ l.id →
        Settled E s.members q := by
  cases hdid : E.atDid l.ownerActorId with
  | none =>
    have hself : publishListToAtp E s l.id l.ownerActorId name r = s := by
      simp only [publishListToAtp, hdid]
    rw [hself]
    refine ⟨l, hl, rfl, rfl, hpublic, ?_, h, rfl, rfl, hsettled⟩
    simp [hnone, not_published hdid]
  | some did =>
    have hnew := hnew (by rw [hdid]; rfl)
    have hcore := core_publishList hdids h hl hnone hdid hnew name
    rw [publishListToAtp_eq hdids h hl hdid hnew] at hcore ⊢
    refine ⟨_, Schema.mem_set_of_eq hl rfl, rfl, rfl, hpublic, ?_, hcore, rfl, rfl, fun q hq hne => ?_⟩
    · simp [ListRow.store, Published, hpublic, hdid]
    · rcases Schema.mem_set_iff.mp hq with ⟨hq, -⟩ | ⟨q, -, hqid, rfl⟩
      · exact hsettled q hq hne
      · exact absurd hqid hne

theorem inv_createList (hdids : UniqueDids E) (h : Inv E s) {name : String} {isPublic : Bool}
    (hact : Careful E s (.createList user i name isPublic r)) :
    Inv E (createList E s user i name isPublic r) := by
  simp only [createList]
  split
  · exact h
  split
  · exact h
  split
  · exact h
  · rename_i lists hins
    have hcore := core_insertList h.toCore hins rfl rfl
    obtain ⟨hunique, rfl⟩ := Schema.insert_eq_some.mp hins
    have hnomember : ∀ m ∈ s.members, m.listId ≠ i := by
      intro m hm hmi
      obtain ⟨q, hq, hqm⟩ := h.listed m hm
      have hpair := (List.pairwise_append.mp (Schema.unique_iff.mp hunique).2).2.2
      have hdisj := hpair q hq _ (List.mem_singleton.mpr rfl)
      refine hdisj (a := .id i) ?_ List.mem_cons_self
      rw [← hmi, ← hqm]
      exact List.mem_cons_self
    have hold : ∀ q ∈ s.lists ++ [{ id := i, ownerActorId := user, name := trim name, isPublic }],
        q.id ≠ i → Settled E s.members q := by
      intro q hq hne
      rcases List.mem_append.mp hq with hq | hq
      · exact h.settled q hq
      · exact absurd (congrArg ListRow.id (List.mem_singleton.mp hq)) hne
    split
    · rename_i hpublic
      obtain ⟨l', hl', hid', -, -, hlist, hcore', hmembers, -, hothers⟩ :=
        inv_publishList hdids hcore (List.mem_append_right _ (List.mem_singleton.mpr rfl)) hpublic rfl
          (fun q hq hne => hold q hq hne) (trim name) (hact hpublic)
      refine ⟨hcore', fun q hq => ?_⟩
      by_cases hqi : q.id = i
      · have hql := hcore'.list_eq hq hl' (hqi.trans hid'.symm)
        subst hql
        refine ⟨hlist, fun m hm hmq => ?_⟩
        rw [hmembers] at hm
        exact absurd (hmq.trans hqi) (hnomember m hm)
      · exact (hothers q hq hqi).congr fun m hm _ => ⟨m, hmembers ▸ hm, rfl, rfl, rfl⟩
    · rename_i hprivate
      refine ⟨hcore, fun q hq => ?_⟩
      by_cases hqi : q.id = i
      · rcases List.mem_append.mp hq with hq | hq
        · exact h.settled q hq
        · cases List.mem_singleton.mp hq
          refine ⟨by simp [Published, hprivate], fun m hm hmq => ?_⟩
          exact absurd hmq (hnomember m hm)
      · exact hold q hq hqi

/-- A member that the loop of `update_list` leaves out has nothing to publish. -/
theorem subjectDid_of_left_out (hm : m ∈ s.members) (hml : m.listId = i)
    (hwithdrawn : (E.actor m.actorId).any Actor.withdrawn = true → E.subjectDid m.actorId = none)
    (hout : m.actorId ∉ s.memberIds E i) : E.subjectDid m.actorId = none := by
  cases hactor : E.actor m.actorId with
  | none => rw [Env.subjectDid, hactor]; rfl
  | some actor =>
    refine hwithdrawn ?_
    rw [hactor]
    by_contra hnot
    refine hout (List.mem_filter.mpr ⟨?_, ?_⟩)
    · exact List.mem_map.mpr ⟨m, List.mem_reverse.mpr (mem_membersOf.mpr ⟨hm, hml⟩), rfl⟩
    · rw [hactor]
      simpa using hnot

theorem nodup_memberIds (h : Core E s) : (s.memberIds E i).Nodup := by
  refine List.Nodup.filter _ ?_
  rw [List.map_reverse, List.nodup_reverse]
  exact nodup_actorIds h

theorem length_memberIds : (s.memberIds E i).length ≤ (s.membersOf i).length := by
  refine (List.length_filter_le _ _).trans ?_
  rw [List.length_map, List.length_reverse]

theorem fresh_mono {keys : List (Int64 × String)} {clock : Nat → Reading} {n n' : Nat}
    (h : Fresh keys o clock n) (hn : n' ≤ n) : Fresh keys o clock n' :=
  fun j hj => h j (by omega)

/-- The list becomes public. -/
theorem inv_publish (hdids : UniqueDids E) (h : Core E s) (hl : l ∈ s.lists)
    (hpublic : l.isPublic = true) (hnone : l.atRkey = none)
    (hsettled : ∀ q ∈ s.lists, q.id ≠ l.id → Settled E s.members q) (name : String)
    {clock : Nat → Reading}
    (hact : (E.atDid l.ownerActorId).isSome = true →
      (l.ownerActorId, generateTid (clock 0)) ∉ s.graphLists.map Prod.fst ∧
        Fresh (s.graphListitems.map Prod.fst) l.ownerActorId (fun n => clock (n + 1))
          (s.membersOf l.id).length ∧
        ∀ m ∈ s.membersOf l.id, (E.actor m.actorId).any Actor.withdrawn = true →
          E.subjectDid m.actorId = none) :
    Inv E (
      let s := publishListToAtp E s l.id l.ownerActorId name (clock 0)
      match s.findById l.id with
      | none => s
      | some list => publishMembers E l.id list.atUri l.ownerActorId (s.memberIds E l.id)
          (fun n => clock (n + 1)) s) := by
  obtain ⟨l', hl', hid, howner, hpub, hlist, hcore, hmembers, hitems, hothers⟩ :=
    inv_publishList hdids h hl hpublic hnone hsettled name fun hsome => (hact hsome).1
  generalize publishListToAtp E s l.id l.ownerActorId name (clock 0) = u at *
  have hfind : u.findById l.id = some l' := (findById_eq_some hcore).mpr ⟨hl', hid⟩
  have hmk : ∀ m ∈ u.members, m.listId = l.id → m.atRkey = none := fun m hm hml =>
    h.member_none hl hnone (hmembers ▸ hm) hml
  simp only [hfind]
  cases hdid : E.atDid l.ownerActorId with
  | none =>
    have huri : l'.atUri = none := atUri_none_of_did hcore hl' (howner ▸ hdid)
    rw [huri, publishMembers_none]
    refine ⟨hcore, fun q hq => ?_⟩
    by_cases hql : q.id = l.id
    · have hqeq := hcore.list_eq hq hl' (hql.trans hid.symm)
      subst hqeq
      refine ⟨hlist, fun m hm hmq => ?_⟩
      simp [hmk m hm (hmq.trans hql), not_published (howner ▸ hdid : E.atDid q.ownerActorId = none)]
    · rw [hmembers]
      exact hothers q hq hql
  | some did =>
    obtain ⟨-, hfresh, hwithdrawn⟩ := hact (by rw [hdid]; rfl)
    have hdid' : E.atDid l'.ownerActorId = some did := howner ▸ hdid
    have hpublished : Published E l' := ⟨hpub, by rw [hdid']; rfl⟩
    have huri : ∃ list, l'.atUri = some list := by
      rcases hcore.lists l' hl' with ⟨hno, -⟩ | ⟨_, _, -, -, huri⟩
      · have hsome := hlist.mpr hpublished
        rw [hno] at hsome
        cases hsome
      · exact ⟨_, huri⟩
    obtain ⟨list, huri⟩ := huri
    have hsame : u.membersOf l.id = s.membersOf l.id := by simp [State.membersOf, hmembers]
    obtain ⟨hcore', hlists, hgets⟩ := publishMembers_spec hdids hcore hl' hdid' huri
      (nodup_memberIds (E := E) hcore (i := l.id)) (fun a ha => by
        obtain ⟨m, hm, rfl⟩ := List.mem_map.mp (List.mem_filter.mp ha).1
        obtain ⟨hm, hml⟩ := mem_membersOf.mp (List.mem_reverse.mp hm)
        exact ⟨m, hm, hml.trans hid.symm, rfl, hmk m hm hml⟩)
      (by
        rw [hitems, howner]
        exact fresh_mono hfresh (hsame ▸ length_memberIds))
    rw [hid, howner] at hcore' hlists hgets
    refine ⟨hcore', fun q hq => ?_⟩
    rw [hlists] at hq
    by_cases hql : q.id = l.id
    · have hqeq := hcore.list_eq hq hl' (hql.trans hid.symm)
      subst hqeq
      refine ⟨hlist, fun m hm hmq => ?_⟩
      obtain ⟨m₀, hm₀, hlist₀, hactor₀, hcase⟩ := hgets m hm
      have hm₀l : m₀.listId = l.id := hlist₀.trans (hmq.trans hql)
      rcases hcase with ⟨⟨-, -, hsubject⟩, hsome⟩ | ⟨hnot, hsame'⟩
      · simp [hsome, hpublished, ← hactor₀, hsubject]
      · rw [hsame', hmk m₀ hm₀ hm₀l]
        refine ⟨fun hsome => (by cases hsome), fun hsubject => absurd ?_ hnot⟩
        rw [← hactor₀] at hsubject
        refine ⟨hm₀l, ?_, hsubject.2⟩
        by_contra hout
        have hw : (E.actor m₀.actorId).any Actor.withdrawn = true → E.subjectDid m₀.actorId = none :=
          hwithdrawn m₀ (hsame ▸ mem_membersOf.mpr ⟨hm₀, hm₀l⟩)
        have hno := subjectDid_of_left_out hm₀ hm₀l hw hout
        rw [hno] at hsubject
        cases hsubject.2
    · refine (hothers q hq hql).congr fun m hm hmq => ?_
      obtain ⟨m₀, hm₀, hlist₀, hactor₀, hcase⟩ := hgets m hm
      refine ⟨m₀, hmembers ▸ hm₀, hlist₀, hactor₀, ?_⟩
      rcases hcase with ⟨⟨hm₀l, -⟩, -⟩ | ⟨-, hsame'⟩
      · exact absurd (hmq.symm.trans (hlist₀.symm.trans hm₀l)) hql
      · exact hsame'

/-- The list is not public, and its members have no records. -/
theorem Settled.none (h : Settled E s.members l) (hnot : ¬ Published E l) :
    l.atRkey = none ∧ ∀ m ∈ s.members, m.listId = l.id → m.atRkey = none := by
  refine ⟨?_, fun m hm hml => ?_⟩
  · by_contra hne
    exact hnot (h.list.mp (Option.isSome_iff_ne_none.mpr hne))
  · by_contra hne
    exact hnot ((h.members m hm hml).mp (Option.isSome_iff_ne_none.mpr hne)).1

/-- The list does not stay public. -/
theorem inv_unpublish (h : Core E s) (hl : l ∈ s.lists) (hpublic : l.isPublic = false)
    (hsettled : ∀ q ∈ s.lists, q.id ≠ l.id → Settled E s.members q) :
    Inv E (unpublishListFromAtp s l.id l.ownerActorId l.atRkey) := by
  obtain ⟨t, heq, hcore, hlists, -, -, -, hcleared⟩ := unpublishListFromAtp_spec h hl
  rw [heq]
  refine ⟨hcore, fun q hq => ?_⟩
  rw [hlists] at hq
  rcases Schema.mem_set_iff.mp hq with ⟨hq, hne⟩ | ⟨q, hold, hid, rfl⟩
  · refine (hsettled q hq hne).congr fun m hm hmq => ⟨m, (hcleared m hm).2 ?_, rfl, rfl, rfl⟩
    exact fun hml => hne (hmq.symm.trans hml)
  · have hql := h.list_eq hold hl hid
    subst hql
    refine ⟨by simp [ListRow.clear, Published, hpublic], fun m hm hmq => ?_⟩
    simp [(hcleared m hm).1 hmq, Published, ListRow.clear, hpublic]

theorem inv_updateList (hdids : UniqueDids E) (h : Inv E s) {name : String} {isPublic : Bool}
    {clock : Nat → Reading} (hact : Careful E s (.updateList user i name isPublic clock)) :
    Inv E (updateList E s user i name isPublic clock) := by
  simp only [updateList]
  split
  · exact h
  split
  · exact h
  rename_i before hfind
  obtain ⟨hbefore, hid⟩ := (findById_eq_some h.toCore).mp hfind
  split
  · exact h
  rename_i howner
  rw [ne_eq, not_not] at howner
  split
  · exact h
  rename_i lists hup
  have hcore := core_updateList h.toCore hup
  obtain ⟨-, rfl⟩ := Schema.update_eq_some.mp hup
  subst hid howner
  -- the row once it is written
  have hl : { before with name := trim name, isPublic } ∈
      listSchema.set s.lists before.id fun l => { l with name := trim name, isPublic } :=
    Schema.mem_set_of_eq hbefore rfl
  have hold := h.settled before hbefore
  have hothers : ∀ q ∈ listSchema.set s.lists before.id fun l => { l with name := trim name, isPublic },
      q.id ≠ before.id → Settled E s.members q := by
    intro q hq hne
    rcases Schema.mem_set_iff.mp hq with ⟨hq, -⟩ | ⟨q, -, hqid, rfl⟩
    · exact h.settled q hq
    · exact absurd hqid hne
  split
  · rename_i hpublish
    simp only [Bool.and_eq_true, Bool.not_eq_eq_eq_not, Bool.not_true] at hpublish
    have hnone := (hold.none fun hp => by rw [hp.1] at hpublish; cases hpublish.1).1
    exact inv_publish hdids hcore hl hpublish.2 hnone hothers (trim name) fun hsome =>
      hact hpublish.2 hsome before hbefore rfl rfl hpublish.1
  split
  · rename_i hunpublish
    simp only [Bool.and_eq_true, Bool.not_eq_eq_eq_not, Bool.not_true] at hunpublish
    have hinv := inv_unpublish hcore hl hunpublish.2 hothers
    exact hinv
  · rename_i hpublish hunpublish
    have hsame : isPublic = before.isPublic := by
      cases isPublic <;> cases hb : before.isPublic <;> simp_all
    refine ⟨hcore, fun q hq => ?_⟩
    by_cases hqid : q.id = before.id
    · have hql := hcore.list_eq hq hl hqid
      subst hql
      refine ⟨?_, fun m hm hmq => ?_⟩
      · simpa [Published, hsame] using hold.list
      · simpa [Published, hsame] using hold.members m hm hmq
    · exact hothers q hq hqid

/-- A member that has nothing to publish, or is there already -/
theorem inv_addMember_plain (h : Inv E s) (hl : l ∈ s.lists)
    (hno : Published E l → E.subjectDid a = none ∨ ∃ m ∈ s.membersOf l.id, m.actorId = a) :
    Inv E (s.addMember E l.id a) := by
  rw [State.addMember]
  split
  · cases hins : memberSchema.insert s.members { listId := l.id, actorId := a } with
    | none => exact h
    | some members =>
      have hcore := core_insertMember h.toCore hins rfl rfl hl rfl
      obtain ⟨hunique, rfl⟩ := Schema.insert_eq_some.mp hins
      refine ⟨hcore, fun q hq => ⟨(h.settled q hq).list, fun m hm hmq => ?_⟩⟩
      rcases List.mem_append.mp hm with hmem | hmem
      · exact (h.settled q hq).members m hmem hmq
      · rw [List.mem_singleton] at hmem
        subst hmem
        have hql := h.list_eq hq hl hmq.symm
        subst hql
        refine ⟨fun hsome => (by cases hsome), fun hp => ?_⟩
        rcases hno hp.1 with hnone | ⟨m', hm', hactor⟩
        · rw [hnone] at hp
          cases hp.2
        · obtain ⟨hm', hlist⟩ := mem_membersOf.mp hm'
          have hpair := (List.pairwise_append.mp (Schema.unique_iff.mp hunique).2).2.2
          have hdisj := hpair m' hm' _ (List.mem_singleton.mpr rfl)
          refine absurd List.mem_cons_self (hdisj (a := .member q.id a) ?_)
          rw [← hlist, ← hactor]
          exact List.mem_cons_self
  · exact h

theorem inv_addMember (hdids : UniqueDids E) (h : Inv E s)
    (hact : Careful E s (.addMember user i a r)) : Inv E (addMember E s user i a r) := by
  simp only [addMember]
  split
  · exact h
  rename_i l hfind
  obtain ⟨hl, rfl⟩ := (findById_eq_some h.toCore).mp hfind
  split
  · exact h
  rename_i howner
  rw [ne_eq, not_not] at howner
  subst howner
  split
  · exact h
  split
  · exact h
  rename_i hactor
  have hsettled := h.settled l hl
  have hactor : (E.actor a).isSome = true := by
    rw [Option.isSome_iff_ne_none]
    exact fun hnone => hactor (by rw [hnone]; rfl)
  rw [State.addMember, if_pos hactor]
  cases hins : memberSchema.insert s.members { listId := l.id, actorId := a } with
  | none =>
    -- the actor is a member of the list already
    obtain ⟨q, hq, key, hkey, hkey'⟩ := Schema.insert_eq_none h.memberKeys
      (memberSchema_nodup _) hins
    have hq' : q.listId = l.id ∧ q.actorId = a := by
      have hkey : key = .member l.id a := by simpa [memberSchema] using hkey
      subst hkey
      simpa [memberSchema, eq_comm] using hkey'
    show Inv E (if l.isPublic = true then maybePublishListitem E s l.id l.atUri l.ownerActorId a r
      else s)
    split
    · rename_i hpublic
      cases hdid : E.atDid l.ownerActorId with
      | none =>
        rw [atUri_none_of_did h.toCore hl hdid]
        exact h
      | some did =>
        have hnone := (hact l hl rfl rfl ⟨hpublic, by rw [hdid]; rfl⟩).2 q
          (mem_membersOf.mpr ⟨hq, hq'.1⟩) hq'.2
        rw [maybePublishListitem_noSubject hnone]
        exact h
    · exact h
  | some members =>
    have hcore := core_insertMember h.toCore hins rfl rfl hl rfl
    obtain ⟨hunique, rfl⟩ := Schema.insert_eq_some.mp hins
    have hmem : ∀ {q}, q ∈ s.members ++ [{ listId := l.id, actorId := a }] →
        q ∈ s.members ∨ q = { listId := l.id, actorId := a } := by simp
    have hothers : ∀ q ∈ s.lists, q.id ≠ l.id → Settled E (s.members ++
        [{ listId := l.id, actorId := a }]) q := by
      intro q hq hne
      refine ⟨(h.settled q hq).list, fun m hm hmq => ?_⟩
      rcases hmem hm with hm | rfl
      · exact (h.settled q hq).members m hm hmq
      · exact absurd hmq.symm hne
    have hplain : (Published E l → E.subjectDid a = none) →
        Inv E { s with members := s.members ++ [{ listId := l.id, actorId := a }] } := by
      intro hno
      have hinv := inv_addMember_plain h hl fun hp => .inl (hno hp)
      rwa [State.addMember, if_pos hactor, hins] at hinv
    show Inv E (if l.isPublic = true then maybePublishListitem E
      { s with members := s.members ++ [{ listId := l.id, actorId := a }] } l.id l.atUri
        l.ownerActorId a r else { s with members := s.members ++ [{ listId := l.id, actorId := a }] })
    split
    · rename_i hpublic
      cases hsubject : E.subjectDid a with
      | none =>
        rw [maybePublishListitem_noSubject hsubject]
        exact hplain fun _ => hsubject
      | some subject =>
        cases hdid : E.atDid l.ownerActorId with
        | none =>
          rw [atUri_none_of_did h.toCore hl hdid]
          exact hplain fun hp => absurd hp (not_published hdid)
        | some did =>
          have hpublished : Published E l := ⟨hpublic, by rw [hdid]; rfl⟩
          obtain ⟨list, huri⟩ : ∃ list, l.atUri = some list := by
            rcases h.lists l hl with ⟨hno, -⟩ | ⟨_, _, -, -, huri⟩
            · have hsome := hsettled.list.mpr hpublished
              rw [hno] at hsome
              cases hsome
            · exact ⟨_, huri⟩
          obtain ⟨heq, hcore'⟩ := core_publishItem hdids hcore hl
            (List.mem_append_right _ (List.mem_singleton.mpr rfl)) rfl rfl hdid huri hsubject
            (hact l hl rfl rfl hpublished).1
          refine ⟨hcore', fun q hq => ?_⟩
          rw [heq] at hq ⊢
          by_cases hql : q.id = l.id
          · have hqeq := h.list_eq hq hl hql
            subst hqeq
            refine ⟨hsettled.list, fun m hm hmq => ?_⟩
            rcases Schema.mem_set_iff.mp hm with ⟨hm, hne⟩ | ⟨m, -, hid, rfl⟩
            · rcases hmem hm with hm | rfl
              · exact hsettled.members m hm hmq
              · exact absurd rfl hne
            · have hma : m.actorId = a := congrArg Prod.snd hid
              simp [MemberRow.store, hpublished, hma, hsubject]
          · refine ⟨(hothers q hq hql).list, fun m hm hmq => ?_⟩
            rcases Schema.mem_set_iff.mp hm with ⟨hm, -⟩ | ⟨m, -, hid, rfl⟩
            · exact (hothers q hq hql).members m hm hmq
            · exact absurd (hmq.symm.trans (congrArg Prod.fst hid)) hql
    · rename_i hprivate
      exact hplain fun hp => absurd hp.1 hprivate

/-- A member without a record is removed. -/
theorem core_removeMember (h : Core E s)
    (hnone : ∀ m ∈ s.members, m.listId = i → m.actorId = a → m.atRkey = none) :
    Core E (s.removeMember i a) := by
  have hcore := core_filter h (p := fun _ => true)
    (q := fun m => !(m.listId == i && m.actorId == a)) (fun _ _ hp => by cases hp)
    fun m hm hq => by
      simp only [Bool.not_eq_eq_eq_not, Bool.not_false, Bool.and_eq_true, beq_iff_eq] at hq
      exact hnone m hm hq.1 hq.2
  rwa [List.filter_true] at hcore

theorem mem_removeMember : m ∈ (s.removeMember i a).members ↔
    m ∈ s.members ∧ ¬ (m.listId = i ∧ m.actorId = a) := by
  simp [State.removeMember, imp_iff_not_or]

theorem inv_removeMember (h : Inv E s) : Inv E (removeMember s user i a) := by
  simp only [removeMember]
  split
  · exact h
  rename_i l hfind
  obtain ⟨hl, rfl⟩ := (findById_eq_some h.toCore).mp hfind
  split
  · exact h
  rename_i howner
  rw [ne_eq, not_not] at howner
  subst howner
  cases hrow : s.members.find? fun m => m.listId == l.id && m.actorId == a with
  | none =>
    have hno := List.find?_eq_none.mp hrow
    have hself : s.removeMember l.id a = s := by
      have hfilter : s.members.filter (fun m => !(m.listId == l.id && m.actorId == a)) =
          s.members := List.filter_eq_self.mpr fun m hm => by
          simpa [imp_iff_not_or] using hno m hm
      rw [State.removeMember, hfilter]
    simp only [Option.bind_none]
    rw [hself]
    exact h
  | some m₀ =>
    have hm₀ := List.mem_of_find?_eq_some hrow
    have hcond := List.find?_some hrow
    obtain ⟨hm₀l, rfl⟩ : m₀.listId = l.id ∧ m₀.actorId = a := by simpa using hcond
    have honly : ∀ m ∈ s.members, m.listId = l.id → m.actorId = m₀.actorId → m = m₀ :=
      fun m hm hml hma => h.member_eq hm hm₀ (hml.trans hm₀l.symm) hma
    have hsettled : ∀ q ∈ s.lists, Settled E (s.removeMember l.id m₀.actorId).members q :=
      fun q hq => (h.settled q hq).congr (t := s.removeMember l.id m₀.actorId)
        fun m hm _ => ⟨m, (mem_removeMember.mp hm).1, rfl, rfl, rfl⟩
    simp only [Option.bind_some]
    cases hk : m₀.atRkey with
    | none =>
      refine ⟨core_removeMember h.toCore fun m hm hml hma => ?_, hsettled⟩
      rw [honly m hm hml hma]
      exact hk
    | some rkey =>
      obtain ⟨heq, hcore⟩ := core_unpublishItem h.toCore hl hm₀ hm₀l hk
      rw [heq] at hcore
      have hclear : (memberSchema.set s.members (m₀.listId, m₀.actorId) MemberRow.clear).filter
          (fun m => !(m.listId == l.id && m.actorId == m₀.actorId)) =
          s.members.filter fun m => !(m.listId == l.id && m.actorId == m₀.actorId) := by
        refine Schema.filter_set (fun m hm => ?_) fun _ => rfl
        have hml : m.listId = m₀.listId := congrArg Prod.fst hm
        have hma : m.actorId = m₀.actorId := congrArg Prod.snd hm
        simp [hml, hma, hm₀l]
      have hcore := core_removeMember hcore (i := l.id) (a := m₀.actorId) fun m hm hml hma => by
        rcases Schema.mem_set_iff.mp hm with ⟨-, hne⟩ | ⟨q, -, -, rfl⟩
        · exact absurd (Prod.ext (hml.trans hm₀l.symm) hma) hne
        · rfl
      rw [State.removeMember, hclear] at hcore
      exact ⟨hcore, hsettled⟩

theorem deleteListitems_eq (members : List (Int64 × String)) :
    members.foldl (fun s x => s.deleteListitem o x.2) s =
      { s with graphListitems := deleteItems s.graphListitems o members } := by
  induction members generalizing s with
  | nil => rfl
  | cons x members ih =>
    rw [List.foldl_cons, ih]
    rfl

theorem inv_deleteList (h : Inv E s) : Inv E (deleteList s user i) := by
  simp only [deleteList]
  split
  · exact h
  rename_i l hfind
  obtain ⟨hl, rfl⟩ := (findById_eq_some h.toCore).mp hfind
  split
  · exact h
  rename_i howner
  rw [ne_eq, not_not] at howner
  subst howner
  obtain ⟨t, -, hcore, hlists, hgraphLists, hitems, hothers, hcleared⟩ :=
    unpublishListFromAtp_spec h.toCore hl
  have hcore := core_filter hcore (p := fun q => q.id != l.id) (q := fun m => m.listId != l.id)
    (fun q hq hp => ?_) fun m hm hq => ?_
  rotate_left
  · have hid : q.id = l.id := by simpa using hp
    refine ⟨?_, fun m _ hqm => by simpa [← hqm] using hid⟩
    rw [hlists] at hq
    rcases Schema.mem_set_iff.mp hq with ⟨-, hne⟩ | ⟨_, -, -, rfl⟩
    · exact absurd hid hne
    · rfl
  · exact (hcleared m hm).1 (by simpa using hq)
  have hfilter : (listSchema.set s.lists l.id ListRow.clear).filter (fun q => q.id != l.id) =
      s.lists.filter fun q => q.id != l.id := by
    refine Schema.filter_set (fun q hq => ?_) fun _ => rfl
    have hid : q.id = l.id := hq
    simp [hid]
  have hsettled : ∀ q ∈ s.lists.filter fun q => q.id != l.id,
      Settled E (s.members.filter fun m => m.listId != l.id) q := by
    intro q hq
    obtain ⟨hq, -⟩ := List.mem_filter.mp hq
    exact ⟨(h.settled q hq).list, fun m hm => (h.settled q hq).members m (List.mem_filter.mp hm).1⟩
  have hstate : Inv E { s with
      lists := s.lists.filter fun q => q.id != l.id
      members := s.members.filter fun m => m.listId != l.id
      graphLists := (match l.atRkey with
        | none => s.graphLists
        | some rkey => Store.delete s.graphLists (l.ownerActorId, rkey))
      graphListitems := deleteItems s.graphListitems l.ownerActorId
        (s.membersWithAtpRecord l.id) } := by
    refine ⟨?_, hsettled⟩
    rw [hlists, hfilter, hothers] at hcore
    rw [← hgraphLists, ← hitems]
    exact hcore
  split
  · rw [deleteListitems_eq]
    cases hk : l.atRkey with
    | none =>
      rw [hk] at hstate
      exact hstate
    | some rkey =>
      rw [hk] at hstate
      exact hstate
  · rename_i hprivate
    obtain ⟨hk, hnone⟩ := (h.settled l hl).none fun hp => hprivate hp.1
    have hempty : s.membersWithAtpRecord l.id = [] := by
      refine List.eq_nil_iff_forall_not_mem.mpr fun x hx => ?_
      obtain ⟨m, hm, hml, -, hmk⟩ := mem_membersWithAtpRecord.mp hx
      rw [hnone m hm hml] at hmk
      cases hmk
    rw [hk, hempty] at hstate
    exact hstate

/-- A list in which one actor takes the place of the other -/
theorem inv_moveOne {b : Int64} (h : Inv E s) (hl : l ∈ s.lists) (hab : a ≠ b)
    (hno : Published E l → E.subjectDid a = none ∧
      (E.subjectDid b = none ∨ ∃ m ∈ s.membersOf l.id, m.actorId = b)) :
    Inv E ((s.removeMember l.id a).addMember E l.id b) := by
  have hsettled := h.settled l hl
  have hremoved : Inv E (s.removeMember l.id a) := by
    refine ⟨core_removeMember h.toCore fun m hm hml hma => ?_, fun q hq => ?_⟩
    · by_contra hne
      have hp := (hsettled.members m hm hml).mp (Option.isSome_iff_ne_none.mpr hne)
      rw [hma, (hno hp.1).1] at hp
      cases hp.2
    · exact (h.settled q hq).congr (t := s.removeMember l.id a)
        fun m hm _ => ⟨m, (mem_removeMember.mp hm).1, rfl, rfl, rfl⟩
  refine inv_addMember_plain hremoved hl fun hp => (hno hp).2.imp_right ?_
  rintro ⟨m, hm, hmb⟩
  obtain ⟨hm, hml⟩ := mem_membersOf.mp hm
  refine ⟨m, mem_membersOf.mpr ⟨mem_removeMember.mpr ⟨hm, fun heq => ?_⟩, hml⟩, hmb⟩
  exact hab (heq.2.symm.trans hmb)

theorem mem_addMember (hm : m ∈ s.members) : m ∈ (s.addMember E i a).members := by
  rw [State.addMember]
  split
  · cases hins : memberSchema.insert s.members { listId := i, actorId := a } with
    | none => exact hm
    | some members =>
      obtain ⟨-, rfl⟩ := Schema.insert_eq_some.mp hins
      exact List.mem_append_left _ hm
  · exact hm

theorem lists_addMember : (s.addMember E i a).lists = s.lists := by
  rw [State.addMember]
  split <;> rfl

theorem inv_moveLists {b : Int64} {ids : List Int64} (hab : a ≠ b) (h : Inv E s)
    (hlisted : ∀ i ∈ ids, ∃ l ∈ s.lists, l.id = i)
    (hno : ∀ l ∈ s.lists, l.id ∈ ids → Published E l → E.subjectDid a = none ∧
      (E.subjectDid b = none ∨ ∃ m ∈ s.membersOf l.id, m.actorId = b)) :
    Inv E (ids.foldl (fun s id => (s.removeMember id a).addMember E id b) s) := by
  induction ids generalizing s with
  | nil => exact h
  | cons i ids ih =>
    obtain ⟨l, hl, rfl⟩ := hlisted i List.mem_cons_self
    have hlists : ((s.removeMember l.id a).addMember E l.id b).lists = s.lists := lists_addMember
    refine ih (inv_moveOne h hl hab (hno l hl List.mem_cons_self)) (fun j hj => ?_)
      fun q hq hqi hp => ?_
    · rw [hlists]
      exact hlisted j (List.mem_cons_of_mem _ hj)
    · rw [hlists] at hq
      obtain ⟨hold, hnew⟩ := hno q hq (List.mem_cons_of_mem _ hqi) hp
      refine ⟨hold, hnew.imp_right ?_⟩
      rintro ⟨m, hm, hmb⟩
      obtain ⟨hm, hml⟩ := mem_membersOf.mp hm
      refine ⟨m, mem_membersOf.mpr ⟨mem_addMember (mem_removeMember.mpr ⟨hm, ?_⟩), hml⟩, hmb⟩
      exact fun heq => hab (heq.2.symm.trans hmb)

theorem inv_moveActor {b : Int64} (h : Inv E s) (hact : Careful E s (.moveActor a b)) :
    Inv E (moveActor E s a b) := by
  simp only [moveActor]
  split
  · exact h
  rename_i hne
  have hab : a ≠ b := fun heq => hne heq.symm
  have hmem : ∀ i ∈ (s.members.filter fun m => m.actorId == a).map MemberRow.listId,
      ∃ m ∈ s.membersOf i, m.actorId = a := by
    intro i hi
    obtain ⟨m, hm, rfl⟩ := List.mem_map.mp hi
    obtain ⟨hm, hma⟩ := List.mem_filter.mp hm
    exact ⟨m, mem_membersOf.mpr ⟨hm, rfl⟩, by simpa using hma⟩
  refine inv_moveLists hab h (fun i hi => ?_) fun l hl hli hp => ?_
  · obtain ⟨m, hm, -⟩ := hmem i hi
    obtain ⟨hm, hmi⟩ := mem_membersOf.mp hm
    obtain ⟨l, hl, hid⟩ := h.listed m hm
    exact ⟨l, hl, hid.trans hmi⟩
  · obtain ⟨m, hm, hma⟩ := hmem l.id hli
    exact hact hab l hl hp m hm hma

end Operations

section Mirrors

theorem inv_start (E : Env) : Inv E start where
  listKeys := List.nodup_nil
  memberKeys := List.nodup_nil
  listed m hm := absurd hm List.not_mem_nil
  graphLists := Ledger.empty fun _ _ h => by
    obtain ⟨l, hl, -⟩ := h
    cases hl
  graphListitems := Ledger.empty fun _ _ h => by
    obtain ⟨⟨l, hl, -⟩, -⟩ := h
    cases hl
  lists l hl := absurd hl List.not_mem_nil
  members l hl := absurd hl List.not_mem_nil
  settled l hl := absurd hl List.not_mem_nil

theorem inv_step (hdids : UniqueDids E) (h : Inv E s) (hact : Careful E s act)
    (hs : (machine E).step s act = some t) : Inv E t := by
  cases act with
  | createList user id name isPublic r =>
    rw [← Option.some.inj hs]
    exact inv_createList hdids h hact
  | updateList user id name isPublic clock =>
    rw [← Option.some.inj hs]
    exact inv_updateList hdids h hact
  | deleteList user id =>
    rw [← Option.some.inj hs]
    exact inv_deleteList h
  | addMember user id actorId r =>
    rw [← Option.some.inj hs]
    exact inv_addMember hdids h hact
  | removeMember user id actorId =>
    rw [← Option.some.inj hs]
    exact inv_removeMember h
  | moveActor oldActor newActor =>
    rw [← Option.some.inj hs]
    exact inv_moveActor h hact

/-- The records of public lists and their members, and the repositories of the
accounts that have one -/
structure Mirrors (E : Env) (s : State) : Prop where
  /-- A repository has no record twice. -/
  keys : (s.graphLists.map Prod.fst).Nodup ∧ (s.graphListitems.map Prod.fst).Nodup
  /-- There is a record for a list if and only if the list is public. -/
  list : ∀ l ∈ s.lists, (E.atDid l.ownerActorId).isSome = true → (l.isPublic = true ↔
    ∃ rkey ∈ l.atRkey, (l.ownerActorId, rkey) ∈ s.graphLists.map Prod.fst)
  /-- There are no other records of lists. -/
  noList : ∀ x ∈ s.graphLists, ∃ l ∈ s.lists, l.isPublic = true ∧ l.ownerActorId = x.1.1 ∧
    l.atRkey = some x.1.2
  /-- There is one record for each member with a DID, under the rkey that is stored. -/
  item : ∀ l ∈ s.lists, l.isPublic = true → (E.atDid l.ownerActorId).isSome = true →
    ∀ m ∈ s.membersOf l.id, ∀ did ∈ E.atDid m.actorId, ∃ rkey uri, m.atRkey = some rkey ∧
      l.atUri = some uri ∧ ∀ x, x ∈ s.graphListitems ∧ x.2 = { list := uri, subject := did } ↔
        x = ((l.ownerActorId, rkey), { list := uri, subject := did })
  /-- There are no other records of members. -/
  noItem : ∀ x ∈ s.graphListitems, ∃ l ∈ s.lists, ∃ m ∈ s.membersOf l.id, l.isPublic = true ∧
    l.ownerActorId = x.1.1 ∧ m.atRkey = some x.1.2 ∧ l.atUri = some x.2.list ∧
    E.atDid m.actorId = some x.2.subject

/-- No actor that is only on the Fediverse has a DID. -/
def FediOnly (E : Env) : Prop :=
  ∀ a actor, E.actor a = some actor → actor.actorType = .fedi → actor.atDid = none

theorem subjectDid_eq (hfedi : FediOnly E) (a : Int64) : E.subjectDid a = E.atDid a := by
  rw [Env.subjectDid, Env.atDid]
  refine Option.bind_congr fun actor hactor => ?_
  split
  · rename_i htype
    exact (hfedi a actor hactor htype).symm
  · rfl

/-- The row of each record of a member -/
theorem Inv.row_of_item (h : Inv E s) {x : (Int64 × String) × ListItem}
    (hx : x ∈ s.graphListitems) : ∃ l ∈ s.lists, ∃ m ∈ s.membersOf l.id, Published E l ∧
      l.ownerActorId = x.1.1 ∧ m.atRkey = some x.1.2 ∧ l.atUri = some x.2.list ∧
      E.subjectDid m.actorId = some x.2.subject := by
  obtain ⟨⟨i, a⟩, ⟨l, hl, hid, howner⟩, m, hm, hma, hk⟩ :=
    h.graphListitems.held (List.mem_map_of_mem hx)
  have hml : m.listId = l.id := (congrArg Prod.fst hma).trans hid.symm
  have hp := ((h.settled l hl).members m hm hml).mp (by rw [hk]; rfl)
  rcases h.members l hl m hm hml.symm with ⟨hno, -⟩ | ⟨_, r, list, subject, -, hk', -, huri, hs, hitem⟩
  · rw [hno] at hk
    cases hk
  · have hrkey : generateTid r = x.1.2 := Option.some.inj (hk'.symm.trans hk)
    have heq : x = ((l.ownerActorId, generateTid r), { list, subject }) :=
      List.inj_on_of_nodup_map h.graphListitems.nodup hx hitem
        (Prod.ext howner.symm hrkey.symm)
    subst heq
    exact ⟨l, hl, m, mem_membersOf.mpr ⟨hm, hml⟩, hp.1, rfl, hk, huri, hs⟩

theorem mirrors_of_inv (hdids : UniqueDids E) (hfedi : FediOnly E) (h : Inv E s) : Mirrors E s where
  keys := ⟨h.graphLists.nodup, h.graphListitems.nodup⟩
  list l hl hdid := by
    refine ⟨fun hpublic => ?_, ?_⟩
    · obtain ⟨rkey, hk⟩ := Option.isSome_iff_exists.mp ((h.settled l hl).list.mpr ⟨hpublic, hdid⟩)
      exact ⟨rkey, hk, h.graphLists.backed ⟨l, hl, rfl, rfl, hk⟩⟩
    · rintro ⟨rkey, hk, -⟩
      have hk : l.atRkey = some rkey := hk
      exact ((h.settled l hl).list.mp (by rw [hk]; rfl)).1
  noList x hx := by
    obtain ⟨i, l, hl, -, howner, hk⟩ := h.graphLists.held (List.mem_map_of_mem hx)
    exact ⟨l, hl, ((h.settled l hl).list.mp (by rw [hk]; rfl)).1, howner, hk⟩
  item l hl hpublic howner m hm did hdid := by
    obtain ⟨hmem, hml⟩ := mem_membersOf.mp hm
    have hdid : E.atDid m.actorId = some did := hdid
    have hsome := ((h.settled l hl).members m hmem hml).mpr
      ⟨⟨hpublic, howner⟩, by rw [subjectDid_eq hfedi, hdid]; rfl⟩
    rcases h.members l hl m hmem hml.symm with ⟨hno, -⟩ |
      ⟨_, r, uri, subject, -, hk, -, huri, hs, hitem⟩
    · rw [hno] at hsome
      cases hsome
    · rw [subjectDid_eq hfedi, hdid, Option.some.injEq] at hs
      subst hs
      refine ⟨generateTid r, uri, hk, huri, fun x => ⟨fun hx => ?_, ?_⟩⟩
      · obtain ⟨l', hl', m', hm', -, howner', hk', huri', hs'⟩ := h.row_of_item hx.1
        obtain ⟨hm', hml'⟩ := mem_membersOf.mp hm'
        rw [hx.2] at huri' hs'
        have hll : l' = l := h.listKeys.eq_of_key (k := .atUri uri) hl' hl
          (by simp [listSchema, huri']) (by simp [listSchema, huri])
        subst hll
        have hmm : m' = m := h.member_eq hm' hmem (hml'.trans hml.symm)
          (hdids _ _ _ ((subjectDid_eq hfedi _).symm.trans hs') hdid)
        subst hmm
        exact Prod.ext (Prod.ext howner'.symm (Option.some.inj (hk'.symm.trans hk))) hx.2
      · rintro rfl
        exact ⟨hitem, rfl⟩
  noItem x hx := by
    obtain ⟨l, hl, m, hm, hp, howner, hk, huri, hs⟩ := h.row_of_item hx
    exact ⟨l, hl, m, hm, hp.1, howner, hk, huri, (subjectDid_eq hfedi _).symm.trans hs⟩

/-- An account with a repository, an actor of Bluesky and two of the Fediverse -/
def four : Env where
  actor a :=
    if a = 1 then some ⟨.localUser, some "did:plc:me", false⟩
    else if a = 2 then some ⟨.bsky, some "did:plc:you", false⟩
    else if a = 3 ∨ a = 4 then some ⟨.fedi, none, false⟩
    else none
  listCreationMax _ := some 5
  listMemberMax _ := some 50

theorem four_actor {actor : Actor} (h : four.actor a = some actor) :
    a = 1 ∧ actor = ⟨.localUser, some "did:plc:me", false⟩ ∨
      a = 2 ∧ actor = ⟨.bsky, some "did:plc:you", false⟩ ∨ actor = ⟨.fedi, none, false⟩ := by
  simp only [four] at h
  split at h
  · rename_i ha
    exact .inl ⟨ha, (Option.some.inj h).symm⟩
  split at h
  · rename_i ha
    exact .inr (.inl ⟨ha, (Option.some.inj h).symm⟩)
  split at h
  · exact .inr (.inr (Option.some.inj h).symm)
  · cases h

theorem uniqueDids_four : UniqueDids four := by
  have howner : ∀ a did, four.atDid a = some did → a = if did = "did:plc:me" then 1 else 2 := by
    intro a did ha
    obtain ⟨actor, hactor, ha⟩ := Option.bind_eq_some_iff.mp ha
    rcases four_actor hactor with ⟨rfl, rfl⟩ | ⟨rfl, rfl⟩ | rfl
    · cases ha
      rfl
    · cases ha
      rfl
    · cases ha
  intro a b did ha hb
  rw [howner a did ha, howner b did hb]

theorem fediOnly_four : FediOnly four := by
  intro a actor ha htype
  rcases four_actor ha with ⟨rfl, rfl⟩ | ⟨rfl, rfl⟩ | rfl
  · cases htype
  · cases htype
  · rfl

instance (keys : List (Int64 × String)) (o : Int64) (clock : Nat → Reading) (n : Nat) :
    Decidable (Fresh keys o clock n) :=
  inferInstanceAs (Decidable (∀ j < n, _ ∧ ∀ j' < j, _))

instance (E : Env) (l : ListRow) : Decidable (Published E l) :=
  inferInstanceAs (Decidable (_ ∧ _))

instance (E : Env) (s : State) (act : Action) : Decidable (Careful E s act) := by
  cases act with
  | updateList =>
    refine @instDecidableForall _ _ _ (@instDecidableForall _ _ _ (@List.decidableBAll _ _ ?_ _))
    intro l
    exact @instDecidableForall _ _ _ (@instDecidableForall _ _ _ (@instDecidableForall _ _ _
      inferInstance))
  | _ => dsimp only [Careful]; infer_instance

/-- A public list with two members that is private for a while -/
def toggled : List Action :=
  [.createList 1 10 " friends " true ⟨0, 0⟩, .addMember 1 10 2 ⟨1, 0⟩, .addMember 1 10 3 ⟨2, 0⟩,
    .updateList 1 10 "friends" false fun n => ⟨3 + n, 0⟩,
    .updateList 1 10 "friends" true fun n => ⟨3 + n, 0⟩, .moveActor 3 4]

/-- A member that is added again has two records. -/
def repeated : List Action :=
  [.createList 1 10 "friends" true ⟨0, 0⟩, .addMember 1 10 2 ⟨1, 0⟩, .addMember 1 10 2 ⟨2, 0⟩]

end Mirrors

end Seiran.Lists
