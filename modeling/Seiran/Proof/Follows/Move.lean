import Seiran.Model.Follows.Move
import Seiran.Model.Follows.Write

/-!
# A Move carries everybody over

* `lookup_delete`, `mem_removeMember`, …: the relations after a statement;
* `Inv`: nobody is lost but the one in hand, and those who are not left are moved;
* `Careful`: no attempt stops between the two writes of a follower or a list, and the one
  that completes has skipped none;
* `carried_over`: careful runs that complete have moved all of them.
-/

namespace Seiran.Move

open Follows (Follow FollowTable Statement lookup_write)

variable {E : Env} {s₀ s t : State}

section Tables

theorem lookup_delete (follows : FollowTable) (f a : Int64) (k : Int64 × Int64) :
    (follows.write (.deleteByActors f a)).lookup k = if k = (f, a) then none else follows.lookup k := by
  rw [lookup_write]
  show (if k = (f, a) then _ else _) = _
  split
  · cases hrow : follows.lookup (Statement.deleteByActors f a).key with
    | none => rfl
    | some row => rfl
  · rfl

theorem lookup_upsertPending (follows : FollowTable) (f a : Int64) (k : Int64 × Int64) :
    (follows.write (.upsertPending f a)).lookup k = if k = (f, a) then
      some ((follows.lookup (f, a)).getD { followerActorId := f, targetActorId := a, status := .pending })
      else follows.lookup k := by
  rw [lookup_write]
  show (if k = (f, a) then _ else _) = _
  split
  · show (Statement.change _ (follows.lookup (f, a))).getD (follows.lookup (f, a)) = _
    cases follows.lookup (f, a) with
    | none => rfl
    | some row => rfl
  · rfl

theorem mem_removeMember {listId a : Int64} {m : Int64 × Int64} :
    m ∈ (s.removeMember listId a).members ↔ m ∈ s.members ∧ m ≠ (listId, a) := by
  simp [State.removeMember]

theorem mem_addMember {listId a : Int64} {m : Int64 × Int64} :
    m ∈ (s.addMember listId a).members ↔ m ∈ s.members ∨ m = (listId, a) := by
  rw [State.addMember]
  split
  · rename_i h
    constructor
    · exact .inl
    · rintro (hm | rfl)
      · exact hm
      · exact h
  · simp

theorem mem_localFollowers {follows : FollowTable} {f a : Int64} :
    f ∈ localFollowers E follows a ↔ (follows.lookup (f, a)).isSome = true ∧ E.isLocal f = true := by
  simp [localFollowers, AList.lookup_isSome, ← AList.mem_keys, and_assoc]

theorem mem_listIdsContainingActor {members : List (Int64 × Int64)} {l a : Int64} :
    l ∈ listIdsContainingActor members a ↔ (l, a) ∈ members := by
  simp [listIdsContainingActor]

end Tables

section Invariant

/-- The follower has a follow of the new account in place of the old one. -/
def Migrated (E : Env) (s : State) (f : Int64) : Prop :=
  (s.follows.lookup (f, E.newActor)).isSome = true ∧ s.follows.lookup (f, E.oldActor) = none

/-- The list has the new account in place of the old one. -/
def Swapped (E : Env) (s : State) (l : Int64) : Prop :=
  (l, E.newActor) ∈ s.members ∧ (l, E.oldActor) ∉ s.members

/-- The followers that an attempt still has to take, once it has read them -/
def Phase.followersLeft : Phase → Option (List Int64)
  | .queued => none
  | .followers left => some left
  | .found f _ left | .sent f left | .deleted f left => some (f :: left)
  | .lists _ | .removed _ _ | .completed => some []

/-- The lists that an attempt still has to take, once it has read them -/
def Phase.listsLeft : Phase → Option (List Int64)
  | .lists left => some left
  | .removed l left => some (l :: left)
  | .completed => some []
  | _ => none

/-- What a Move leaves of the relations of before -/
structure Untouched (E : Env) (s₀ s : State) : Prop where
  follows : ∀ f a, a ≠ E.oldActor → a ≠ E.newActor →
    s.follows.lookup (f, a) = s₀.follows.lookup (f, a)
  /-- A follow of the new account stays what it was. -/
  newFollows : ∀ f row, s₀.follows.lookup (f, E.newActor) = some row →
    s.follows.lookup (f, E.newActor) = some row
  members : ∀ l a, a ≠ E.oldActor → a ≠ E.newActor → ((l, a) ∈ s.members ↔ (l, a) ∈ s₀.members)

structure Inv (E : Env) (s₀ s : State) : Prop where
  untouched : Untouched E s₀ s
  follower : ∀ f ∈ localFollowers E s₀.follows E.oldActor,
    (s.follows.lookup (f, E.oldActor)).isSome = true ∨ Migrated E s f ∨
      ∃ left, s.phase = .deleted f left
  list : ∀ l, (l, E.oldActor) ∈ s₀.members → (l, E.oldActor) ∈ s.members ∨ Swapped E s l ∨
    ∃ left, s.phase = .removed l left
  found : ∀ f left, s.phase = .found f true left →
    (s.follows.lookup (f, E.newActor)).isSome = true
  deleted : ∀ f left, s.phase = .deleted f left → s.follows.lookup (f, E.oldActor) = none
  removed : ∀ l left, s.phase = .removed l left → (l, E.oldActor) ∉ s.members
  migrated : s.skipped = false → ∀ left, s.phase.followersLeft = some left →
    ∀ f ∈ localFollowers E s₀.follows E.oldActor, f ∉ left → Migrated E s f
  swapped : s.skipped = false → ∀ left, s.phase.listsLeft = some left →
    ∀ l, (l, E.oldActor) ∈ s₀.members → l ∉ left → Swapped E s l

/-- Between the two writes of a follower, or of a list -/
def Phase.betweenWrites : Phase → Bool
  | .deleted _ _ | .removed _ _ => true
  | _ => false

/-- The target is fetched, nothing stops between the two writes of a follower or a list, and
an attempt that has skipped one does not come to its end. -/
def Careful (s : State) : Action → Prop
  | .start fetched => fetched = true
  | .next ok => (s.phase.betweenWrites = true → ok = true) ∧ (s.phase = .lists [] → s.skipped = false)
  | .crash => s.phase.betweenWrites = false

/-- A Move to another account, which is no follower of the old one here -/
structure Proper (E : Env) (s₀ : State) : Prop where
  ne : E.oldActor ≠ E.newActor
  notFollower : E.newActor ∉ localFollowers E s₀.follows E.oldActor

/-- Only the phase changes, to one that is not between two writes. -/
theorem Inv.goto (h : Inv E s₀ s) {phase : Phase} {skipped : Bool}
    (hfrom : s.phase.betweenWrites = false)
    (hfound : ∀ f left, phase = .found f true left → (s.follows.lookup (f, E.newActor)).isSome = true)
    (hto : phase.betweenWrites = false)
    (hmigrated : skipped = false → ∀ left, phase.followersLeft = some left →
      ∀ f ∈ localFollowers E s₀.follows E.oldActor, f ∉ left → Migrated E s f)
    (hswapped : skipped = false → ∀ left, phase.listsLeft = some left →
      ∀ l, (l, E.oldActor) ∈ s₀.members → l ∉ left → Swapped E s l) :
    Inv E s₀ { s with phase, skipped } := by
  refine ⟨⟨h.untouched.follows, h.untouched.newFollows, h.untouched.members⟩, ?_, ?_, hfound, ?_, ?_,
    hmigrated, hswapped⟩
  · intro f hf
    rcases h.follower f hf with hold | hnew | ⟨left, hphase⟩
    · exact .inl hold
    · exact .inr (.inl hnew)
    · rw [hphase] at hfrom
      cases hfrom
  · intro l hl
    rcases h.list l hl with hold | hnew | ⟨left, hphase⟩
    · exact .inl hold
    · exact .inr (.inl hnew)
    · rw [hphase] at hfrom
      cases hfrom
  · rintro f left rfl
    cases hto
  · rintro l left rfl
    cases hto

/-- The follow of the old account is deleted. -/
theorem Inv.deleteOld (h : Inv E s₀ s) (hp : Proper E s₀) {f : Int64} {left : List Int64} {phase : Phase}
    (hfrom : s.phase.betweenWrites = false) (hleft : s.phase.followersLeft = some (f :: left))
    (hto : (phase = .followers left ∧ (s.follows.lookup (f, E.newActor)).isSome = true) ∨
      phase = .deleted f left) :
    Inv E s₀ ((s.write (.deleteByActors f E.oldActor)).goto phase) := by
  have hlookup : ∀ k, ((s.write (.deleteByActors f E.oldActor)).goto phase).follows.lookup k =
      if k = (f, E.oldActor) then none else s.follows.lookup k := lookup_delete s.follows f E.oldActor
  have hnew : ∀ g, ((s.write (.deleteByActors f E.oldActor)).goto phase).follows.lookup (g, E.newActor) =
      s.follows.lookup (g, E.newActor) := by
    intro g
    rw [hlookup, if_neg]
    intro heq
    exact hp.ne (Prod.mk.inj heq).2.symm
  have hgone : ((s.write (.deleteByActors f E.oldActor)).goto phase).follows.lookup (f, E.oldActor) =
      none := by
    rw [hlookup, if_pos rfl]
  have hkeep : ∀ g, Migrated E s g → Migrated E ((s.write (.deleteByActors f E.oldActor)).goto phase) g := by
    rintro g ⟨hg, hnone⟩
    refine ⟨by rw [hnew]; exact hg, ?_⟩
    rw [hlookup]
    split
    · rfl
    · exact hnone
  have hlists : phase.listsLeft = none ∧ ∀ l ls, phase ≠ .removed l ls := by
    rcases hto with ⟨rfl, -⟩ | rfl <;> exact ⟨rfl, nofun⟩
  constructor
  case untouched =>
    refine ⟨fun g a hold hnew' => ?_, fun g row hrow => ?_, h.untouched.members⟩
    · rw [hlookup, if_neg, h.untouched.follows g a hold hnew']
      intro heq
      exact hold (Prod.mk.inj heq).2
    · rw [hnew]
      exact h.untouched.newFollows g row hrow
  case follower =>
    intro g hg
    by_cases hgf : g = f
    · subst hgf
      rcases hto with ⟨rfl, hsome⟩ | rfl
      · exact .inr (.inl ⟨by rw [hnew]; exact hsome, hgone⟩)
      · exact .inr (.inr ⟨left, rfl⟩)
    · rcases h.follower g hg with hold | hm | ⟨left', hphase⟩
      · refine .inl ?_
        rw [hlookup, if_neg]
        · exact hold
        · intro heq
          exact hgf (Prod.mk.inj heq).1
      · exact .inr (.inl (hkeep g hm))
      · rw [hphase] at hfrom
        cases hfrom
  case list =>
    intro l hl
    rcases h.list l hl with hold | hs | ⟨left', hphase⟩
    · exact .inl hold
    · exact .inr (.inl hs)
    · rw [hphase] at hfrom
      cases hfrom
  case found =>
    intro g left' hphase
    rcases hto with ⟨rfl, -⟩ | rfl <;> cases hphase
  case deleted =>
    intro g left' hphase
    rcases hto with ⟨rfl, -⟩ | rfl
    · cases hphase
    · cases hphase
      exact hgone
  case removed =>
    intro l left' hphase
    exact absurd hphase (hlists.2 l left')
  case migrated =>
    intro hskipped left' hleft' g hg hnot
    have hother : g ≠ f → g ∉ left → Migrated E ((s.write (.deleteByActors f E.oldActor)).goto phase) g := by
      intro hgf hgl
      refine hkeep g (h.migrated hskipped _ hleft g hg ?_)
      simp [hgf, hgl]
    rcases hto with ⟨rfl, hsome⟩ | rfl
    · cases hleft'
      by_cases hgf : g = f
      · subst hgf
        exact ⟨by rw [hnew]; exact hsome, hgone⟩
      · exact hother hgf hnot
    · cases hleft'
      exact hother (fun heq => hnot (heq ▸ List.mem_cons_self)) fun hmem =>
        hnot (List.mem_cons_of_mem _ hmem)
  case swapped =>
    intro _ left' hleft'
    rw [show ((s.write (.deleteByActors f E.oldActor)).goto phase).phase = phase from rfl, hlists.1] at hleft'
    cases hleft'

/-- The follow of the new account is there. -/
theorem Inv.insertNew (h : Inv E s₀ s) (hp : Proper E s₀) {f : Int64} {left : List Int64}
    (hphase : s.phase = .deleted f left) :
    Inv E s₀ ((s.write (.upsertPending f E.newActor)).goto (.followers left)) := by
  have hlookup := lookup_upsertPending s.follows f E.newActor
  have hold : ∀ g, (s.follows.write (.upsertPending f E.newActor)).lookup (g, E.oldActor) =
      s.follows.lookup (g, E.oldActor) := by
    intro g
    rw [hlookup, if_neg]
    intro heq
    exact hp.ne (Prod.mk.inj heq).2
  have hkeep : ∀ g, (s.follows.lookup (g, E.newActor)).isSome = true →
      (s.follows.write (.upsertPending f E.newActor)).lookup (g, E.newActor) =
        s.follows.lookup (g, E.newActor) := by
    intro g hg
    obtain ⟨row, hrow⟩ := Option.isSome_iff_exists.mp hg
    rw [hlookup]
    split
    · rename_i heq
      cases heq
      rw [hrow]
      rfl
    · rfl
  have hmigrated : ∀ g, Migrated E s g →
      Migrated E ((s.write (.upsertPending f E.newActor)).goto (.followers left)) g := by
    rintro g ⟨hg, hnone⟩
    exact ⟨(congrArg Option.isSome (hkeep g hg)).trans hg, (hold g).trans hnone⟩
  have hthis : Migrated E ((s.write (.upsertPending f E.newActor)).goto (.followers left)) f := by
    refine ⟨?_, (hold f).trans (h.deleted f left hphase)⟩
    show ((s.follows.write (.upsertPending f E.newActor)).lookup (f, E.newActor)).isSome = true
    rw [hlookup, if_pos rfl]
    rfl
  constructor
  case untouched =>
    refine ⟨fun g a ha ha' => ?_, fun g row hrow => ?_, h.untouched.members⟩
    · refine Eq.trans ?_ (h.untouched.follows g a ha ha')
      refine (hlookup (g, a)).trans (if_neg fun heq => ?_)
      exact ha' (Prod.mk.inj heq).2
    · have hrow' := h.untouched.newFollows g row hrow
      exact (hkeep g (by rw [hrow']; rfl)).trans hrow'
  case follower =>
    intro g hg
    rcases h.follower g hg with hsome | hm | ⟨left', hphase'⟩
    · exact .inl ((congrArg Option.isSome (hold g)).trans hsome)
    · exact .inr (.inl (hmigrated g hm))
    · rw [hphase] at hphase'
      cases hphase'
      exact .inr (.inl hthis)
  case list =>
    intro l hl
    rcases h.list l hl with hl | hs | ⟨left', hphase'⟩
    · exact .inl hl
    · exact .inr (.inl hs)
    · rw [hphase] at hphase'
      cases hphase'
  case found => exact nofun
  case deleted => exact nofun
  case removed => exact nofun
  case migrated =>
    intro hskipped left' hleft' g hg hnot
    cases hleft'
    by_cases hgf : g = f
    · exact hgf ▸ hthis
    · refine hmigrated g (h.migrated hskipped _ (by rw [hphase]; rfl) g hg ?_)
      simp [hgf, hnot]
  case swapped => exact nofun

/-- The old account is no member of the list any more. -/
theorem Inv.removeOld (h : Inv E s₀ s) (hp : Proper E s₀) {l : Int64} {left : List Int64}
    (hphase : s.phase = .lists (l :: left)) :
    Inv E s₀ ((s.removeMember l E.oldActor).goto (.removed l left)) := by
  have hmem : ∀ m, m ∈ ((s.removeMember l E.oldActor).goto (.removed l left)).members ↔
      m ∈ s.members ∧ m ≠ (l, E.oldActor) := fun _ => mem_removeMember
  have hkeep : ∀ k, Swapped E s k →
      Swapped E ((s.removeMember l E.oldActor).goto (.removed l left)) k := by
    rintro k ⟨hnew, hold⟩
    refine ⟨(hmem _).mpr ⟨hnew, fun heq => hp.ne (Prod.mk.inj heq).2.symm⟩, ?_⟩
    exact fun hk => hold ((hmem _).mp hk).1
  constructor
  case untouched =>
    refine ⟨h.untouched.follows, h.untouched.newFollows, fun k a ha ha' => ?_⟩
    rw [hmem, h.untouched.members k a ha ha']
    exact and_iff_left fun heq => ha (Prod.mk.inj heq).2
  case follower =>
    intro f hf
    rcases h.follower f hf with hold | hnew | ⟨left', hphase'⟩
    · exact .inl hold
    · exact .inr (.inl hnew)
    · rw [hphase] at hphase'
      cases hphase'
  case list =>
    intro k hk
    by_cases hkl : k = l
    · exact .inr (.inr ⟨left, hkl ▸ rfl⟩)
    · rcases h.list k hk with hold | hs | ⟨left', hphase'⟩
      · exact .inl ((hmem _).mpr ⟨hold, fun heq => hkl (Prod.mk.inj heq).1⟩)
      · exact .inr (.inl (hkeep k hs))
      · rw [hphase] at hphase'
        cases hphase'
  case found => exact nofun
  case deleted => exact nofun
  case removed =>
    rintro k left' hphase'
    cases hphase'
    exact fun hk => ((hmem _).mp hk).2 rfl
  case migrated =>
    intro hskipped left' hleft' f hf hnot
    exact h.migrated hskipped left' (by rw [hphase]; exact hleft') f hf hnot
  case swapped =>
    intro hskipped left' hleft' k hk hnot
    cases hleft'
    exact hkeep k (h.swapped hskipped _ (by rw [hphase]; rfl) k hk hnot)

/-- The new account is a member of the list. -/
theorem Inv.addNew (h : Inv E s₀ s) (hp : Proper E s₀) {l : Int64} {left : List Int64}
    (hphase : s.phase = .removed l left) :
    Inv E s₀ ((s.addMember l E.newActor).goto (.lists left)) := by
  have hmem : ∀ m, m ∈ ((s.addMember l E.newActor).goto (.lists left)).members ↔
      m ∈ s.members ∨ m = (l, E.newActor) := fun _ => mem_addMember
  have hold : ∀ k, (k, E.oldActor) ∈ ((s.addMember l E.newActor).goto (.lists left)).members ↔
      (k, E.oldActor) ∈ s.members := by
    intro k
    rw [hmem]
    exact or_iff_left fun heq => hp.ne (Prod.mk.inj heq).2
  have hkeep : ∀ k, Swapped E s k → Swapped E ((s.addMember l E.newActor).goto (.lists left)) k := by
    rintro k ⟨hnew, hnot⟩
    exact ⟨(hmem _).mpr (.inl hnew), fun hk => hnot ((hold k).mp hk)⟩
  have hthis : Swapped E ((s.addMember l E.newActor).goto (.lists left)) l :=
    ⟨(hmem _).mpr (.inr rfl), fun hk => h.removed l left hphase ((hold l).mp hk)⟩
  constructor
  case untouched =>
    refine ⟨h.untouched.follows, h.untouched.newFollows, fun k a ha ha' => ?_⟩
    rw [hmem, h.untouched.members k a ha ha']
    exact or_iff_left fun heq => ha' (Prod.mk.inj heq).2
  case follower =>
    intro f hf
    rcases h.follower f hf with hsome | hnew | ⟨left', hphase'⟩
    · exact .inl hsome
    · exact .inr (.inl hnew)
    · rw [hphase] at hphase'
      cases hphase'
  case list =>
    intro k hk
    rcases h.list k hk with hk | hs | ⟨left', hphase'⟩
    · exact .inl ((hold k).mpr hk)
    · exact .inr (.inl (hkeep k hs))
    · rw [hphase] at hphase'
      cases hphase'
      exact .inr (.inl hthis)
  case found => exact nofun
  case deleted => exact nofun
  case removed => exact nofun
  case migrated =>
    intro hskipped left' hleft' f hf hnot
    exact h.migrated hskipped left' (by rw [hphase]; exact hleft') f hf hnot
  case swapped =>
    intro hskipped left' hleft' k hk hnot
    cases hleft'
    by_cases hkl : k = l
    · exact hkl ▸ hthis
    · refine hkeep k (h.swapped hskipped _ (by rw [hphase]; rfl) k hk ?_)
      simp [hkl, hnot]

/-- An error passes over the follower or the list in hand, not between two writes. -/
theorem Inv.skip (h : Inv E s₀ s) {phase : Phase} (hfrom : s.phase.betweenWrites = false)
    (hto : phase.betweenWrites = false) (hfound : ∀ f left, phase ≠ .found f true left) :
    Inv E s₀ (s.skip phase) :=
  h.goto hfrom (fun f left hphase => absurd hphase (hfound f left)) hto nofun nofun

/-- The attempt is over, and the job starts again. -/
theorem Inv.requeue (h : Inv E s₀ s) (hfrom : s.phase.betweenWrites = false) :
    Inv E s₀ (s.goto .queued) :=
  h.goto hfrom nofun rfl nofun nofun

/-- Going on with the followers that are left keeps what the attempt has reached. -/
theorem Inv.advance (h : Inv E s₀ s) {phase : Phase} {left : List Int64}
    (hfrom : s.phase.betweenWrites = false) (hto : phase.betweenWrites = false)
    (hleft : s.phase.followersLeft = some left) (hphase : phase.followersLeft = some left)
    (hlists : phase.listsLeft = none)
    (hfound : ∀ f left, phase = .found f true left →
      (s.follows.lookup (f, E.newActor)).isSome = true) :
    Inv E s₀ (s.goto phase) := by
  refine h.goto hfrom hfound hto (fun hskipped left' hleft' => ?_) fun _ left' hleft' => ?_
  · rw [hphase] at hleft'
    cases hleft'
    exact h.migrated hskipped left hleft
  · rw [hlists] at hleft'
    cases hleft'

theorem inv_next (h : Inv E s₀ s) (hp : Proper E s₀) {ok : Bool} (hcareful : Careful s (.next ok))
    (hs : next E s ok = some t) : Inv E s₀ t := by
  obtain ⟨hbetween, hend⟩ := hcareful
  cases hphase : s.phase with
  | queued =>
    simp [next, hphase] at hs
  | completed =>
    simp [next, hphase] at hs
  | followers left =>
    have hfrom : s.phase.betweenWrites = false := by rw [hphase]; rfl
    have hleft : s.phase.followersLeft = some left := by rw [hphase]; rfl
    cases left with
    | nil =>
      simp only [next, hphase, Option.some.injEq] at hs
      subst hs
      split
      · refine h.goto hfrom nofun rfl (fun hskipped left' hleft' => ?_) fun _ left' hleft' => ?_
        · cases hleft'
          exact h.migrated hskipped [] hleft
        · cases hleft'
          intro l hl hnot
          rcases h.list l hl with hold | hswapped | ⟨left', hphase'⟩
          · exact absurd (mem_listIdsContainingActor.mpr hold) hnot
          · exact hswapped
          · rw [hphase] at hphase'
            cases hphase'
      · exact h.requeue hfrom
    | cons f left =>
      simp only [next, hphase, Option.some.injEq] at hs
      subst hs
      split
      · rename_i hf
        refine h.goto hfrom nofun rfl (fun hskipped left' hleft' g hg hnot => ?_) fun _ _ hleft' => ?_
        · cases hleft'
          refine h.migrated hskipped _ hleft g hg ?_
          rintro (_ | ⟨_, hmem⟩)
          · exact hp.notFollower (hf ▸ hg)
          · exact hnot hmem
        · cases hleft'
      · split
        · exact h.advance hfrom rfl hleft rfl rfl fun g left' hphase' => by
            obtain ⟨rfl, hsome, -⟩ := Phase.found.inj hphase'
            exact hsome
        · exact h.skip hfrom rfl nofun
  | found f already left =>
    have hfrom : s.phase.betweenWrites = false := by rw [hphase]; rfl
    have hleft : s.phase.followersLeft = some (f :: left) := by rw [hphase]; rfl
    cases already with
    | true =>
      simp only [next, hphase, Option.some.injEq] at hs
      subst hs
      split
      · exact h.deleteOld hp hfrom hleft (.inl ⟨rfl, h.found f left hphase⟩)
      · exact h.skip hfrom rfl nofun
    | false =>
      simp only [next, hphase, Option.some.injEq] at hs
      subst hs
      split
      · exact h.advance hfrom rfl hleft rfl rfl nofun
      · exact h.skip hfrom rfl nofun
  | sent f left =>
    have hfrom : s.phase.betweenWrites = false := by rw [hphase]; rfl
    simp only [next, hphase, Option.some.injEq] at hs
    subst hs
    split
    · exact h.deleteOld hp hfrom (by rw [hphase]; rfl) (.inr rfl)
    · exact h.skip hfrom rfl nofun
  | deleted f left =>
    have hok : ok = true := hbetween (by rw [hphase]; rfl)
    simp only [next, hphase, hok, Option.some.injEq, if_true] at hs
    subst hs
    exact h.insertNew hp hphase
  | lists left =>
    have hfrom : s.phase.betweenWrites = false := by rw [hphase]; rfl
    cases left with
    | nil =>
      simp only [next, hphase, Option.some.injEq] at hs
      subst hs
      refine h.goto hfrom nofun rfl (fun hskipped left' hleft' => ?_) fun hskipped left' hleft' => ?_
      · cases hleft'
        exact h.migrated hskipped [] (by rw [hphase]; rfl)
      · cases hleft'
        exact h.swapped hskipped [] (by rw [hphase]; rfl)
    | cons l left =>
      simp only [next, hphase, Option.some.injEq] at hs
      subst hs
      split
      · exact h.removeOld hp hphase
      · exact h.skip hfrom rfl nofun
  | removed l left =>
    have hok : ok = true := hbetween (by rw [hphase]; rfl)
    simp only [next, hphase, hok, Option.some.injEq, if_true] at hs
    subst hs
    exact h.addNew hp hphase

theorem inv_step (hp : Proper E s₀) {act : Action} (h : Inv E s₀ s) (hcareful : Careful s act)
    (hs : (machine E).step s act = some t) : Inv E s₀ t := by
  cases act with
  | next ok => exact inv_next h hp hcareful hs
  | start fetched =>
    simp only [machine, step, Option.ite_none_right_eq_some, Option.some.injEq] at hs
    obtain ⟨hphase, rfl⟩ := hs
    have hfetched : fetched = true := hcareful
    subst hfetched
    refine h.goto (by rw [hphase]; rfl) nofun rfl (fun _ left hleft f hf hnot => ?_) nofun
    cases hleft
    rcases h.follower f hf with hold | hm | ⟨left', hphase'⟩
    · exact absurd (mem_localFollowers.mpr ⟨hold, (mem_localFollowers.mp hf).2⟩) hnot
    · exact hm
    · rw [hphase] at hphase'
      cases hphase'
  | crash =>
    simp only [machine, step] at hs
    split at hs
    · cases hs
    · cases hs
      exact h.requeue hcareful

theorem inv_start (hphase : s.phase = .queued) : Inv E s s := by
  refine ⟨⟨fun _ _ _ _ => rfl, fun _ _ hrow => hrow, fun _ _ _ _ => Iff.rfl⟩, ?_, ?_, ?_, ?_, ?_, ?_, ?_⟩
  · intro f hf
    exact .inl (mem_localFollowers.mp hf).1
  · intro l hl
    exact .inl hl
  · intro f left h
    rw [hphase] at h
    cases h
  · intro f left h
    rw [hphase] at h
    cases h
  · intro l left h
    rw [hphase] at h
    cases h
  · intro _ left h
    rw [hphase] at h
    cases h
  · intro _ left h
    rw [hphase] at h
    cases h

end Invariant

section Runs

variable {acts : List Action}

/-- The followers follow the new account in place of the old one, the lists have it in place
of the old one, and nothing else has changed. -/
structure Moved (E : Env) (s₀ s : State) : Prop where
  followers : ∀ f ∈ localFollowers E s₀.follows E.oldActor, Migrated E s f
  lists : ∀ l, (l, E.oldActor) ∈ s₀.members → Swapped E s l
  untouched : Untouched E s₀ s

theorem Inv.moved (h : Inv E s₀ s) (hphase : s.phase = .completed) (hskipped : s.skipped = false) :
    Moved E s₀ s where
  followers := fun f hf => h.migrated hskipped [] (by rw [hphase]; rfl) f hf List.not_mem_nil
  lists := fun l hl => h.swapped hskipped [] (by rw [hphase]; rfl) l hl List.not_mem_nil
  untouched := h.untouched

/-- A careful attempt that is completed has skipped nobody. -/
def EndsWhole (s : State) : Prop := s.phase = .completed → s.skipped = false

theorem next_phase_completed {ok : Bool} (hs : next E s ok = some t) (ht : t.phase = .completed) :
    s.phase = .lists [] ∧ t.skipped = s.skipped := by
  rw [next.eq_def] at hs
  split at hs
  case h_8 hphase =>
    cases hs
    exact ⟨hphase, rfl⟩
  all_goals
    cases hs
    try (split_ifs at ht <;> cases ht)

theorem endsWhole_step {act : Action} (hcareful : Careful s act)
    (hs : (machine E).step s act = some t) : EndsWhole t := by
  intro ht
  cases act with
  | start fetched =>
    simp only [machine, step, Option.ite_none_right_eq_some, Option.some.injEq] at hs
    obtain ⟨-, rfl⟩ := hs
    rfl
  | next ok =>
    obtain ⟨hphase, hskipped⟩ := next_phase_completed hs ht
    rw [hskipped]
    exact hcareful.2 hphase
  | crash =>
    simp only [machine, step] at hs
    split at hs
    · cases hs
    · cases hs
      cases ht

/-- Where the attempts are careful, a Move that completes has carried everybody over. -/
theorem carried_over (hr : (machine E).run s₀ acts = some t) (hstart : s₀.phase = .queued)
    (hp : Proper E s₀) (hcareful : (machine E).Along Careful s₀ acts)
    (hdone : t.phase = .completed) : Moved E s₀ t := by
  have h : Inv E s₀ t ∧ EndsWhole t := by
    refine (machine E).run_inv_along (I := fun s => Inv E s₀ s ∧ EndsWhole s)
      (fun hI hc hs => ⟨inv_step hp hI.1 hc hs, endsWhole_step hc hs⟩) ?_ hcareful hr
    refine ⟨inv_start hstart, fun h => ?_⟩
    rw [hstart] at h
    cases h
  exact h.1.moved hdone (h.2 hdone)

instance (s : State) (act : Action) : Decidable (Careful s act) := by
  cases act <;> dsimp only [Careful] <;> infer_instance

/-- Accounts 1 and 2 here follow the account 10, which moves to 11. -/
def accounts : Env := ⟨fun a => a < 10, 10, 11⟩

/-- 1 follows the old account, 2 both, and the list 7 has the old one. -/
def before : State where
  follows := ((∅ : FollowTable).write (.upsertPending 1 10)).write (.insertAccepted 2 10)
    |>.write (.insertAccepted 2 11)
  members := [(7, 10), (7, 12)]

/-- The first attempt is cut off after the Follow of 1, the second one goes to the end. -/
theorem carried_over_retried : ∃ t, (machine accounts).run before
    ([.start true, .next true, .next true, .next true, .next true, .crash, .start true] ++
      List.replicate 8 (.next true)) = some t ∧
    t.phase = .completed ∧ Moved accounts before t := by
  have hr : (machine accounts).run before
    ([.start true, .next true, .next true, .next true, .next true, .crash, .start true] ++
      List.replicate 8 (.next true)) = some _ := rfl
  exact ⟨_, hr, rfl, carried_over hr rfl ⟨by decide, by decide⟩ (by decide) rfl⟩

/-- The attempt is cut off when the follow of the old account is deleted. The next one does not
find the follower any more, and completes. -/
theorem carried_over_counterexample : ∃ t, (machine accounts).run
    { follows := (∅ : FollowTable).write (.insertAccepted 1 10), members := [] }
    [.start true, .next true, .next true, .next true, .crash, .start true, .next true, .next true] =
      some t ∧
    t.phase = .completed ∧ t.skipped = false ∧ t.follows.keys = [] ∧
    ¬ Moved accounts { follows := (∅ : FollowTable).write (.insertAccepted 1 10), members := [] } t := by
  refine ⟨_, rfl, rfl, rfl, rfl, fun h => ?_⟩
  exact absurd (h.followers 1 (by decide)).1 (by decide)

end Runs

end Seiran.Move
