import Seiran.Proof.Actors.Discovery

/-!
# The two sides of an actor become one row

* `Together`: no call makes a row of its own beside that of the other side, unless
  the two name each other and the index is to turn it away;
* `Progress`: a second attempt knows the row that the first one met, and a third
  knows the row of its own side;
* `pair_step`: the rows of the two sides are never two, and no call for them fails;
* `marriage_converges`: once both sides are discovered, one row carries both;
* `apart_for_good`: two rows stay two.
-/

namespace Seiran.Actors

open Sql

variable {actors actors' : List Actor} {a b : Actor} {c : Call} {d : Discovery} {i : Int64}
  {n : Nat} {w : Write} {f : Actor → Actor} {phase : Phase} {s s' t : State} {act : Action}
  {as : List Action} {side : Side} {x : Side → String}

/-- The row is of one of the two sides. -/
def Of (x : Side → String) (a : Actor) : Prop := ∃ side, a.ident side = some (x side)

/-- The sides declare nobody but each other. -/
def Courts (x : Side → String) (d : Discovery) : Prop :=
  d.claim = none ∨ d.claim = some (x d.side.other)

/-- The next statement is the `INSERT`. -/
def Phase.inserts : Phase → Bool
  | .write _ .insert => true
  | _ => false

/-- The condition on a step -/
def Together (x : Side → String) (s : State) : Action → Prop
  | .declare .. => True
  | .discover _ d => d.ident = x d.side → Courts x d
  | .run i => ∀ c ∈ s.calls i, c.phase.inserts = true →
      c.discovery.ident = x c.discovery.side → ∀ a ∈ s.actors,
        a.ident c.discovery.side.other = some (x c.discovery.side.other) →
          c.discovery.claim = some (x c.discovery.side.other) ∧
              a.claimed c.discovery.side = some (x c.discovery.side) ∨
            a.ident c.discovery.side = some (x c.discovery.side)

instance decidableTogether (x : Side → String) (s : State) : ∀ act, Decidable (Together x s act)
  | .declare .. => inferInstanceAs (Decidable True)
  | .discover _ _ => inferInstanceAs (Decidable (_ = _ → _ ∨ _))
  | .run i => inferInstanceAs (Decidable (∀ c ∈ s.calls i, _ → _ → ∀ a ∈ s.actors, _ → _ ∧ _ ∨ _))

/-- The row of the side is there. -/
def Has (actors : List Actor) (d : Discovery) : Prop := ∃ a ∈ actors, a.ident d.side = some d.ident

/-- The row of the side is there, or that of the other one, which it names and is named by. -/
def Awaited (actors : List Actor) (d : Discovery) : Prop :=
  Has actors d ∨ ∃ z, d.claim = some z ∧ ∃ a ∈ actors, a.ident d.side.other = some z ∧
    a.claimed d.side = some d.ident

def Progress (actors : List Actor) (d : Discovery) : Phase → Prop
  | .search n => n = 1 ∨ n = 2 ∧ Awaited actors d ∨ n = 3 ∧ Has actors d
  | .counterpart n _ => n = 1 ∨ n = 2 ∧ Awaited actors d
  | .write n .insert => n = 1 ∨ n = 2 ∧ Has actors d
  | .write _ _ => True
  | .ended o => o ≠ none

/-- The other side of a row is the other of the two. -/
def Faithful (x : Side → String) (a : Actor) : Prop :=
  ∀ side, a.ident side = some (x side) → ∀ z,
    a.ident side.other = some z ∨ a.claimed side.other = some z → z = x side.other

structure Pair (x : Side → String) (s : State) : Prop where
  one : ∀ a ∈ s.actors, ∀ b ∈ s.actors, Of x a → Of x b → a = b
  faithful : ∀ a ∈ s.actors, Faithful x a
  courts : ∀ i c, s.calls i = some c → c.discovery.ident = x c.discovery.side →
    Courts x c.discovery ∧ Progress s.actors c.discovery c.phase

section Persistence

variable (hl : Later i actors actors')

include hl

theorem Later.keep_has (h : Has actors d) : Has actors' d := by
  obtain ⟨a, ha, hy⟩ := h
  obtain ⟨a', ha', hg⟩ := hl.grown a ha
  exact ⟨a', ha', hg.ident _ _ hy⟩

theorem Later.keep_awaited (h : Awaited actors d) : Awaited actors' d := by
  rcases h with h | ⟨z, hz, a, ha, hident, hcl⟩
  · exact .inl (hl.keep_has h)
  · obtain ⟨a', ha', hg⟩ := hl.grown a ha
    rcases hg.claimed _ _ hcl with hcl | hy
    · exact .inr ⟨z, hz, a', ha', hg.ident _ _ hident, hcl⟩
    · exact .inl ⟨a', ha', hy⟩

theorem Later.keep_progress (h : Progress actors d phase) : Progress actors' d phase := by
  cases phase with
  | search n =>
    rcases h with h | ⟨h, ha⟩ | ⟨h, hh⟩
    · exact .inl h
    · exact .inr (.inl ⟨h, hl.keep_awaited ha⟩)
    · exact .inr (.inr ⟨h, hl.keep_has hh⟩)
  | counterpart n z => exact h.imp_right fun ⟨h, ha⟩ => ⟨h, hl.keep_awaited ha⟩
  | write n w =>
    cases w with
    | insert => exact h.imp_right fun ⟨h, hh⟩ => ⟨h, hl.keep_has hh⟩
    | _ => trivial
  | ended o => exact h

end Persistence

section Lookups

variable (hu : schema.Unique actors)

theorem progress_search (h : Progress actors c.discovery (.search n)) :
    Progress actors c.discovery (c.search actors n).phase := by
  unfold Call.search
  split
  · trivial
  · rename_i z hnone hz
    have hnot : ¬ Has actors c.discovery := fun ⟨a, ha, hy⟩ => byIdent_eq_none hnone a ha hy
    rcases h with h | h | ⟨-, h⟩
    · exact .inl h
    · exact .inr h
    · exact absurd h hnot
  · rename_i hnone hz
    have hnot : ¬ Has actors c.discovery := fun ⟨a, ha, hy⟩ => byIdent_eq_none hnone a ha hy
    rcases h with h | ⟨-, h | ⟨z, hz', -⟩⟩ | ⟨-, h⟩
    · exact .inl h
    · exact absurd h hnot
    · rw [hz] at hz'
      cases hz'
    · exact absurd h hnot

include hu

theorem progress_counterpart {z : String} (hz : c.discovery.claim = some z)
    (h : Progress actors c.discovery (.counterpart n z)) :
    Progress actors c.discovery (c.counterpart actors n z).phase := by
  unfold Call.counterpart
  split
  · rename_i a hs
    obtain ⟨ha, hident⟩ := byIdent_eq_some hs
    split
    · trivial
    · rename_i hcl
      rcases h with h | ⟨h, hh | ⟨z', hz', b, hb, hidentb, hclb⟩⟩
      · exact .inl h
      · exact .inr ⟨h, hh⟩
      · rw [hz, Option.some.injEq] at hz'
        subst hz'
        rw [eq_of_ident hu ha hb hident hidentb] at hcl
        exact absurd hclb hcl
  · rename_i hnone
    rcases h with h | ⟨h, hh | ⟨z', hz', b, hb, hidentb, -⟩⟩
    · exact .inl h
    · exact .inr ⟨h, hh⟩
    · rw [hz, Option.some.injEq] at hz'
      subst hz'
      exact absurd hidentb (byIdent_eq_none hnone b hb)

end Lookups

section Writes

variable {D : Side → String → String → Prop} (hu : schema.Unique actors)
  (hrows : ∀ a ∈ actors, RowOk D a)
  (hone : ∀ a ∈ actors, ∀ b ∈ actors, Of x a → Of x b → a = b)
  (hfaithful : ∀ a ∈ actors, Faithful x a)

/-- A row that names both sides is of one of them. -/
theorem RowOk.of_names (h : RowOk D a) {x' : Side → String} (hx : Names a x')
    (heq : ∀ side, x' side = x side) : Of x a := by
  obtain ⟨side, hs⟩ := h.ident_of_names hx
  exact ⟨side, heq side ▸ hs⟩

/-- A row of a side names no others. -/
theorem Faithful.eq_of_names (h : Faithful x a) (hs : a.ident side = some (x side))
    {x' : Side → String} (hx : Names a x') : ∀ side, x' side = x side := by
  intro t
  rcases eq_or_eq_other side t with rfl | rfl
  · have ht := hx t
    rw [hs] at ht
    exact (Option.some.inj ht).symm
  · have ht := hx side.other
    apply h side hs
    cases hy : a.ident side.other with
    | none =>
      rw [hy] at ht
      exact .inr ht
    | some y =>
      rw [hy] at ht
      exact .inl ht

theorem Courts.eq (h : Courts x d) {z : String} (hz : d.claim = some z) : z = x d.side.other := by
  rcases h with h | h
  · rw [h] at hz
    cases hz
  · rw [h] at hz
    exact (Option.some.inj hz).symm

/-- The row that is changed was of the two sides if it is then. -/
theorem Target.of (hc : d.ident = x d.side → Courts x d) (ht : Target actors d w a f)
    (h : Of x (f a)) : Of x a := by
  obtain ⟨side, hs⟩ := h
  cases ht with
  | existing ha hy =>
    rw [ident_refresh] at hs
    exact ⟨side, hs⟩
  | married ha z hz he =>
    rcases eq_or_eq_other d.side side with rfl | rfl
    · rw [ident_marry, Option.some.injEq] at hs
      exact ⟨d.side.other, (hc hs).eq hz ▸ he.1⟩
    · rw [ident_other_marry] at hs
      exact ⟨d.side.other, hs⟩

include hrows in
theorem Target.faithful (hc : d.ident = x d.side → Courts x d) (ht : Target actors d w a f)
    (h : Faithful x a) : Faithful x (f a) := by
  intro side hs z hz
  cases ht with
  | existing ha hy =>
    rw [ident_refresh] at hs hz
    rcases eq_or_eq_other d.side side with rfl | rfl
    · rw [claimed_other_refresh] at hz
      rw [hs, Option.some.injEq] at hy
      split at hz
      · exact h d.side hs z hz
      · cases hcl : a.claimed d.side.other with
        | some z' =>
          rw [hcl] at hz
          exact h d.side hs z (hcl ▸ hz)
        | none =>
          rw [hcl] at hz
          rcases hz with hz | hz
          · exact h d.side hs z (.inl hz)
          · exact (hc hy.symm).eq hz
    · rw [other_other, claimed_refresh] at hz
      apply h d.side.other hs
      rw [other_other]
      exact hz
  | married ha z' hz' he =>
    have hnone : a.claimed d.side.other = none := (hrows a ha).claimed_eq_none he.1
    rcases eq_or_eq_other d.side side with rfl | rfl
    · rw [ident_marry, Option.some.injEq] at hs
      rw [ident_other_marry, claimed_other_marry, he.1, hnone] at hz
      rcases hz with hz | hz
      · cases hz
        exact (hc hs).eq hz'
      · cases hz
    · rw [ident_other_marry] at hs
      rw [other_other, ident_marry, claimed_marry] at hz
      rcases hz with hz | hz
      · cases hz
        apply h d.side.other hs
        rw [other_other]
        exact he.2.symm
      · cases hz

include hu hone in
/-- Where the row that is changed was of the two, it is still the only one. -/
theorem one_set (ha : a ∈ actors) (hof : Of x (f a) → Of x a) :
    ∀ b ∈ schema.set actors a.id f, ∀ b' ∈ schema.set actors a.id f, Of x b → Of x b' → b = b' := by
  intro b hb b' hb' hx hx'
  rcases (mem_set_iff hu ha).mp hb with rfl | ⟨hb, hne⟩ <;>
    rcases (mem_set_iff hu ha).mp hb' with rfl | ⟨hb', hne'⟩
  · rfl
  · exact absurd (congrArg Actor.id (hone b' hb' a ha hx' (hof hx))) hne'
  · exact absurd (congrArg Actor.id (hone b hb a ha hx (hof hx'))) hne
  · exact hone b hb b' hb' hx hx'

include hu hrows hone hfaithful in
/-- The `UPDATE` of a call for the two sides is not turned away. -/
theorem Target.succeeds (hx : d.ident = x d.side) (hc : Courts x d) (ht : Target actors d w a f) :
    schema.update actors a.id f ≠ none := by
  intro hs
  have ha : a ∈ actors := ht.mem
  have hof : Of x a := ht.of (fun _ => hc) ⟨d.side, hx ▸ ht.ident⟩
  have hnot : ∀ q ∈ actors, q.id ≠ a.id → ¬ Of x q := fun q hq hne hofq =>
    hne (congrArg Actor.id (hone q hq a ha hofq hof))
  obtain ⟨r, hr, hrid, q, hq, hqid, k, hk, hkq⟩ := Schema.update_eq_none hu (fun _ => nodup_keys _) hs
  have hra : r = a := eq_of_id hu hr ha hrid
  subst hra
  rcases shared_key hk hkq with hid | ⟨side, y, hy, hyq⟩ | ⟨x', hx', hxq⟩
  · exact hqid (hid.symm.trans (ht.grown hrows).id)
  · have hold : r.ident side = some y ∨ y = x side := by
      cases ht with
      | existing => exact .inl ((ident_refresh d r side).symm.trans hy)
      | married _ z hz he =>
        rcases eq_or_eq_other d.side side with rfl | rfl
        · rw [ident_marry, Option.some.injEq] at hy
          exact .inr (hy.symm.trans hx)
        · exact .inl ((ident_other_marry d r).symm.trans hy)
    rcases hold with hold | rfl
    · exact hqid (congrArg Actor.id (eq_of_ident hu hq hr hyq hold))
    · exact hnot q hq hqid ⟨side, hyq⟩
  · have hnew : (f r).ident d.side = some (x d.side) := hx ▸ ht.ident
    have hf : Faithful x (f r) := ht.faithful hrows (fun _ => hc) (hfaithful r hr)
    exact hnot q hq hqid ((hrows q hq).of_names hxq (hf.eq_of_names hnew hx'))

theorem faithful_row (hc : d.ident = x d.side → Courts x d) : Faithful x (d.row i) := by
  intro side hs z hz
  rcases eq_or_eq_other d.side side with rfl | rfl
  · rw [ident_row, Option.some.injEq] at hs
    rw [ident_other_row, claimed_other_row] at hz
    rcases hz with hz | hz
    · cases hz
    · exact (hc hs).eq hz
  · rw [ident_other_row] at hs
    cases hs

include hu hrows in
/-- An `INSERT` is turned away by the row of its side, or by that of the other one. -/
theorem awaited_of_insert (hx : d.ident = x d.side) (hc : Courts x d) (hf : Fresh actors i)
    (hs : schema.insert actors (d.row i) = none) : Awaited actors d := by
  obtain ⟨q, hq, k, hk, hkq⟩ := Schema.insert_eq_none hu (nodup_keys _) hs
  rcases shared_key hk hkq with hid | ⟨side, y, hy, hyq⟩ | ⟨x', hx', hxq⟩
  · exact absurd (hid.symm.trans (id_row d i)) (hf q hq)
  · rcases eq_or_eq_other d.side side with rfl | rfl
    · rw [ident_row] at hy
      cases hy
      exact .inl ⟨q, hq, hyq⟩
    · rw [ident_other_row] at hy
      cases hy
  · have hside : (d.row i).ident d.side = some (x d.side) := hx ▸ ident_row d i
    have heq := (faithful_row (fun _ => hc)).eq_of_names hside hx'
    have hclaim := hx' d.side.other
    rw [ident_other_row, claimed_other_row] at hclaim
    have hclaim : d.claim = some (x' d.side.other) := hclaim
    have hqside := hxq d.side
    rw [heq, ← hx] at hqside
    cases hy : q.ident d.side with
    | some y =>
      rw [hy] at hqside
      exact .inl ⟨q, hq, hy.trans hqside⟩
    | none =>
      rw [hy] at hqside
      have hcl : q.claimed d.side = some d.ident := hqside
      obtain ⟨-, z, hz, -⟩ := (hrows q hq).of_claimed hcl
      have hother := hxq d.side.other
      rw [hz] at hother
      exact .inr ⟨_, hclaim, q, hq, hz.trans hother, hcl⟩

end Writes

section Steps

/-- What a write that is committed leaves of the two sides -/
structure Paired (x : Side → String) (i : Int64) (actors actors' : List Actor) (c : Call) :
    Prop where
  later : Later i actors actors'
  one : ∀ a ∈ actors', ∀ b ∈ actors', Of x a → Of x b → a = b
  faithful : ∀ a ∈ actors', Faithful x a
  courts : c.discovery.ident = x c.discovery.side →
    Courts x c.discovery ∧ Progress actors' c.discovery c.phase

theorem Pair.setCall (h : Pair x s) (hp : Paired x i s.actors actors c) :
    Pair x (s.setCall i actors c) where
  one := hp.one
  faithful := hp.faithful
  courts j c' hj hx := by
    have hj : Function.update s.calls i (some c) j = some c' := hj
    by_cases hij : j = i
    · subst hij
      rw [Function.update_self] at hj
      cases hj
      exact hp.courts hx
    · rw [Function.update_of_ne hij] at hj
      obtain ⟨hc, hprogress⟩ := h.courts j c' hj hx
      exact ⟨hc, hp.later.keep_progress hprogress⟩

/-- A call that reads the rows, or whose write is turned away -/
theorem Pair.read (h : Pair x s) (hc : c.discovery.ident = x c.discovery.side →
    Courts x c.discovery ∧ Progress s.actors c.discovery c.phase) : Paired x i s.actors s.actors c :=
  ⟨.refl i s.actors, h.one, h.faithful, hc⟩

variable {D : Side → String → String → Prop}

theorem paired_written (hi : Inv D s) (h : Pair x s) (hc : s.calls i = some c)
    (htogether : Together x s (.run i)) (hph : c.phase = .write n w)
    (hs : c.statement s.actors w = some actors) : Paired x i s.actors actors (c.written w) := by
  have hok := hi.calls i c hc
  have hknown : Known s.actors i c.discovery (.write n w) := hph ▸ hok.known
  have hcourts : c.discovery.ident = x c.discovery.side → Courts x c.discovery := fun hx =>
    (h.courts i c hc hx).1
  obtain ⟨hu', hrows', hlater, -⟩ := written_ok hi.unique hi.rows hok hph hs
  have hended : Progress actors c.discovery (c.written w).phase := by
    cases w <;> simp [Call.written, Call.setPhase, Progress]
  refine ⟨hlater, ?_, ?_, fun hx => ?_⟩
  · rcases hknown.2.target with rfl | ⟨a, f, ht⟩
    · obtain ⟨-, rfl⟩ := Schema.insert_eq_some.mp hs
      -- the row would share a key with that of the other side
      have hnew : Of x (c.discovery.row c.id) → ∀ b ∈ s.actors, ¬ Of x b := by
        rintro ⟨side, hside⟩ b hb ⟨side', hb'⟩
        have hrow : c.discovery.row c.id ∈ s.actors ++ [c.discovery.row c.id] := by simp
        have hmem : b ∈ s.actors ++ [c.discovery.row c.id] := List.mem_append_left _ hb
        have hne : b ≠ c.discovery.row c.id := by
          intro heq
          apply hknown.1 b hb
          rw [heq, id_row, hok.id]
        rcases eq_or_eq_other c.discovery.side side with rfl | rfl
        · rw [ident_row, Option.some.injEq] at hside
          rcases eq_or_eq_other c.discovery.side side' with rfl | rfl
          · exact hne (eq_of_ident hu' hmem hrow hb' (hside ▸ ident_row _ _))
          · rcases htogether c hc (by rw [hph]; rfl) hside b hb hb' with ⟨hclaim, hcl⟩ | hb''
            · refine hne (eq_of_names hu' hmem hrow (x := x) ?_ ?_)
              · intro t
                rcases eq_or_eq_other c.discovery.side t with rfl | rfl
                · rw [((hi.rows b hb).of_claimed hcl).1, hcl]
                  rfl
                · rw [hb']
                  rfl
              · intro t
                rcases eq_or_eq_other c.discovery.side t with rfl | rfl
                · rw [ident_row, hside]
                  rfl
                · rw [ident_other_row, claimed_other_row, hclaim]
                  rfl
            · exact hne (eq_of_ident hu' hmem hrow hb'' (hside ▸ ident_row _ _))
        · rw [ident_other_row] at hside
          cases hside
      intro a ha b hb hxa hxb
      rcases List.mem_append.mp ha with ha | ha <;> rcases List.mem_append.mp hb with hb | hb
      · exact h.one a ha b hb hxa hxb
      · exact absurd hxa (hnew (List.mem_singleton.mp hb ▸ hxb) a ha)
      · exact absurd hxb (hnew (List.mem_singleton.mp ha ▸ hxa) b hb)
      · rw [List.mem_singleton.mp ha, List.mem_singleton.mp hb]
    · rw [ht.statement] at hs
      obtain ⟨-, rfl⟩ := Schema.update_eq_some.mp hs
      exact one_set hi.unique h.one ht.mem (ht.of hcourts)
  · rcases hknown.2.target with rfl | ⟨a, f, ht⟩
    · obtain ⟨-, rfl⟩ := Schema.insert_eq_some.mp hs
      intro b hb
      rcases List.mem_append.mp hb with hb | hb
      · exact h.faithful b hb
      · rw [List.mem_singleton.mp hb]
        exact faithful_row hcourts
    · rw [ht.statement] at hs
      obtain ⟨-, rfl⟩ := Schema.update_eq_some.mp hs
      intro b hb
      rcases (mem_set_iff hi.unique ht.mem).mp hb with rfl | ⟨hb, -⟩
      · exact ht.faithful hi.rows hcourts (h.faithful a ht.mem)
      · exact h.faithful b hb
  · rw [discovery_written] at hx ⊢
    exact ⟨hcourts hx, hended⟩

/-- An attempt that is turned away leaves two more at most. -/
theorem progress_retry (hi : Inv D s) (h : Pair x s) (hc : s.calls i = some c)
    (hx : c.discovery.ident = x c.discovery.side) (hph : c.phase = .write n w)
    (hs : c.statement s.actors w = none) : Progress s.actors c.discovery (c.retry n).phase := by
  have hok := hi.calls i c hc
  have hknown : Known s.actors i c.discovery (.write n w) := hph ▸ hok.known
  obtain ⟨hcourts, hprogress⟩ := h.courts i c hc hx
  rw [hph] at hprogress
  rcases hknown.2.target with rfl | ⟨a, f, ht⟩
  · have hfresh : Fresh s.actors c.id := hok.id ▸ hknown.1
    have hawaited := awaited_of_insert hi.unique hi.rows hx hcourts hfresh hs
    rcases hprogress with rfl | ⟨rfl, hhas⟩
    · exact .inr (.inl ⟨rfl, hawaited⟩)
    · exact .inr (.inr ⟨rfl, hhas⟩)
  · rw [ht.statement] at hs
    exact absurd hs (ht.succeeds hi.unique hi.rows h.one h.faithful hx hcourts)

theorem pair_step (hi : Inv D s) (h : Pair x s) (hact : Together x s act)
    (hs : machine.step s act = some s') : Pair x s' := by
  cases act with
  | declare =>
    cases hs
    exact ⟨h.one, h.faithful, h.courts⟩
  | discover i d =>
    simp only [machine, step] at hs
    split at hs
    · cases hs
      exact h.setCall (h.read fun hx => ⟨hact hx, .inl rfl⟩)
    · cases hs
  | run i =>
    obtain ⟨c, hc, hrun⟩ := Option.bind_eq_some_iff.mp hs
    have hknown := (hi.calls i c hc).known
    cases runCall_eq_some hrun with
    | search n hph =>
      apply h.setCall (h.read fun hx => ?_)
      rw [discovery_search] at hx ⊢
      obtain ⟨hcourts, hprogress⟩ := h.courts i c hc hx
      exact ⟨hcourts, progress_search (hph ▸ hprogress)⟩
    | counterpart n z hph =>
      apply h.setCall (h.read fun hx => ?_)
      rw [discovery_counterpart] at hx ⊢
      obtain ⟨hcourts, hprogress⟩ := h.courts i c hc hx
      rw [hph] at hknown hprogress
      exact ⟨hcourts, progress_counterpart hi.unique hknown.2 hprogress⟩
    | written n w actors hph hst => exact h.setCall (paired_written hi h hc hact hph hst)
    | retry n w hph hst =>
      apply h.setCall (h.read fun hx => ?_)
      rw [discovery_retry] at hx ⊢
      exact ⟨(h.courts i c hc hx).1, progress_retry hi h hc hx hph hst⟩

end Steps

section Runs

/-- A bound on the statements that are left to a call -/
def Phase.left : Phase → Nat
  | .search n => 3 * (Posts.Arrivals.maxUniqueViolationRetries - n) + 3
  | .counterpart n _ => 3 * (Posts.Arrivals.maxUniqueViolationRetries - n) + 2
  | .write n _ => 3 * (Posts.Arrivals.maxUniqueViolationRetries - n) + 1
  | .ended _ => 0

theorem left_search : (c.search actors n).phase.left < (Phase.search n).left := by
  unfold Call.search
  split <;> (show 3 * _ + _ < 3 * _ + 3; omega)

theorem left_counterpart {z : String} :
    (c.counterpart actors n z).phase.left < (Phase.counterpart n z).left := by
  unfold Call.counterpart
  split
  · split <;> exact Nat.lt_succ_self _
  · exact Nat.lt_succ_self _

theorem left_written : (c.written w).phase.left < (Phase.write n w).left := by
  cases w <;> exact Nat.succ_pos _

theorem left_retry : (c.retry n).phase.left < (Phase.write n w).left := by
  unfold Call.retry
  split
  · rename_i hn
    show 3 * (Posts.Arrivals.maxUniqueViolationRetries - (n + 1)) + 3 <
      3 * (Posts.Arrivals.maxUniqueViolationRetries - n) + 1
    omega
  · exact Nat.succ_pos _

/-- A call that has not ended can execute its next statement. -/
theorem step_left (hc : s.calls i = some c) (hne : ∀ o, c.phase ≠ .ended o) :
    ∃ s' c', step s (.run i) = some s' ∧ s'.calls i = some c' ∧ c'.phase.left < c.phase.left := by
  have hrun : step s (.run i) = s.runCall i c := by
    show (s.calls i).bind (s.runCall i) = _
    rw [hc]
    rfl
  have hself : ∀ actors c', (s.setCall i actors c').calls i = some c' := fun _ _ =>
    Function.update_self ..
  rw [hrun]
  cases hph : c.phase with
  | search n =>
    simp only [State.runCall, hph]
    exact ⟨_, _, rfl, hself _ _, left_search⟩
  | counterpart n z =>
    simp only [State.runCall, hph]
    exact ⟨_, _, rfl, hself _ _, left_counterpart⟩
  | write n w =>
    simp only [State.runCall, hph]
    split
    · exact ⟨_, _, rfl, hself _ _, left_written⟩
    · exact ⟨_, _, rfl, hself _ _, left_retry⟩
  | ended o => exact absurd hph (hne o)

/-- The rows that carry both identifiers -/
def carriers (x : Side → String) (s : State) : Nat :=
  s.actors.countP fun a => a.apUri == some (x .fedi) && a.atDid == some (x .bsky)

/-- What the calls come to -/
structure Converges (x : Side → String) (s : State) : Prop where
  /-- No call for the two sides has failed. -/
  succeeds : ∀ i c, s.calls i = some c → c.discovery.ident = x c.discovery.side →
    c.phase ≠ .ended none
  /-- Every call ends within a number of its own statements. -/
  proceeds : ∀ i c, s.calls i = some c → (∀ o, c.phase ≠ .ended o) →
    ∃ s' c', step s (.run i) = some s' ∧ s'.calls i = some c' ∧ c'.phase.left < c.phase.left
  /-- Once a call for either side has ended, one row carries both. -/
  married : ∀ i j c c' o o', s.calls i = some c → s.calls j = some c' →
    c.discovery.side = .fedi → c'.discovery.side = .bsky →
    c.discovery.ident = x .fedi → c'.discovery.ident = x .bsky →
    c.phase = .ended o → c'.phase = .ended o' → carriers x s = 1

variable {D : Side → String → String → Prop}

theorem Pair.converges (hi : Inv D s) (h : Pair x s) : Converges x s where
  succeeds i c hc hx hph := by
    obtain ⟨-, hprogress⟩ := h.courts i c hc hx
    rw [hph] at hprogress
    exact hprogress rfl
  proceeds i c hc hne := step_left hc hne
  married i j c c' o o' hc hc' hside hside' hx hx' hph hph' := by
    have howned : ∀ i c o, s.calls i = some c → c.discovery.ident = x c.discovery.side →
        c.phase = .ended o → ∃ a ∈ s.actors, a.ident c.discovery.side = some (x c.discovery.side) := by
      intro i c o hc hx hph
      have hknown := (hi.calls i c hc).known
      obtain ⟨-, hprogress⟩ := h.courts i c hc hx
      rw [hph] at hknown hprogress
      cases o with
      | none => exact absurd rfl hprogress
      | some o =>
        obtain ⟨a, ha, -, hy⟩ := hknown
        exact ⟨a, ha, hx ▸ hy⟩
    obtain ⟨a, ha, hap⟩ := howned i c o hc (by rw [hside, hx]) hph
    obtain ⟨b, hb, hdid⟩ := howned j c' o' hc' (by rw [hside', hx']) hph'
    rw [hside] at hap
    rw [hside'] at hdid
    have hab : a = b := h.one a ha b hb ⟨_, hap⟩ ⟨_, hdid⟩
    subst hab
    refine hi.unique.countP_eq_one ha ?_ (k := .ident .fedi (x .fedi)) fun q _ hq => ?_
    · have hap : a.apUri = some (x .fedi) := hap
      have hdid : a.atDid = some (x .bsky) := hdid
      simp [hap, hdid]
    · rw [Bool.and_eq_true, beq_iff_eq, beq_iff_eq] at hq
      exact ident_mem_keys.mpr hq.1

theorem pair_start : Pair x start where
  one a ha := absurd ha List.not_mem_nil
  faithful a ha := absurd ha List.not_mem_nil
  courts i c hc := by cases hc

/-- In every run in which the two sides declare nobody but each other, and no row of one is made
beside that of the other unless the two name each other, the calls for them succeed and the two
become one row. -/
theorem marriage_converges (hr : machine.run start as = some t)
    (has : machine.Along (Together x) start as) : Converges x t := by
  have hstep : ∀ {s act s'}, Inv (fun _ _ _ => True) s ∧ Pair x s → Together x s act →
      machine.step s act = some s' → Inv (fun _ _ _ => True) s' ∧ Pair x s' := by
    rintro s act s' ⟨hi, h⟩ hact hs
    refine ⟨inv_step hi ?_ hs, pair_step hi h hact hs⟩
    cases act <;> simp [Reads]
  obtain ⟨hi, h⟩ := machine.run_inv_along hstep ⟨inv_start, pair_start⟩ has hr
  exact h.converges hi

/-- Both calls look for the other side before it is there, and the second to write is turned away
once. -/
def racing : List Action :=
  [.declare .fedi "u" (some "v"), .declare .bsky "v" (some "u"), .discover 1 (document (some "v")),
    .discover 2 (repository (some "u")), .run 1, .run 2, .run 1, .run 2, .run 1, .run 2, .run 2,
    .run 2, .run 2]

theorem marriage_converges_racing :
    ∃ t, machine.run start racing = some t ∧ Converges (couple (document none) "v") t ∧
      t.calls 2 = some ⟨repository (some "u"), 2, .ended (some ⟨1, true⟩)⟩ := by
  obtain ⟨t, ht⟩ : ∃ t, machine.run start racing = some t :=
    Option.isSome_iff_exists.mp (by decide)
  have hcall : (machine.run start racing).bind (fun t => t.calls 2) =
      some ⟨repository (some "u"), 2, .ended (some ⟨1, true⟩)⟩ := by decide
  rw [ht] at hcall
  exact ⟨t, ht, marriage_converges ht (by decide), hcall⟩

/-- The document is discovered before it declares anything, and the repository after it has. -/
def apart : List Action :=
  [.discover 1 (document none), .run 1, .run 1,
    .declare .bsky "v" (some "u"), .discover 2 (repository (some "u")), .run 2, .run 2, .run 2,
    .declare .fedi "u" (some "v"), .discover 3 (document (some "v")), .run 3, .run 3, .run 3,
    .run 3, .run 3, .run 3, .run 3, .run 3, .run 3, .run 3]

theorem marriage_converges_counterexample :
    ∃ t, machine.run start apart = some t ∧ t.declared .fedi "u" = some "v" ∧
      t.declared .bsky "v" = some "u" ∧
      t.calls 3 = some ⟨document (some "v"), 3, .ended none⟩ ∧
      carriers (couple (document none) "v") t = 0 :=
  ⟨_, rfl, rfl, rfl, rfl, rfl⟩

/-- Two rows of the two sides stay two. -/
theorem apart_for_good {bs : List Action} (hr : machine.run start as = some s)
    (hr' : machine.run s bs = some t) (ha : a ∈ s.actors) (hb : b ∈ s.actors)
    (hap : a.ident .fedi = some (x .fedi)) (hdid : b.ident .bsky = some (x .bsky)) (hne : a ≠ b) :
    carriers x t = 0 := by
  have hinv := inv_run hr
  have hu : schema.Unique t.actors := by
    have hrun : machine.run start (as ++ bs) = some t := by
      rw [machine.run_append, hr]
      exact hr'
    exact (inv_run hrun).unique
  obtain ⟨a', ha', hga⟩ := run_grown hr hr' ha
  obtain ⟨b', hb', hgb⟩ := run_grown hr hr' hb
  apply List.countP_eq_zero.mpr
  intro q hq hcond
  rw [Bool.and_eq_true, beq_iff_eq, beq_iff_eq] at hcond
  have hqa : q = a' := eq_of_ident hu hq ha' (s := .fedi) hcond.1 (hga.ident _ _ hap)
  have hqb : q = b' := eq_of_ident hu hq hb' (s := .bsky) hcond.2 (hgb.ident _ _ hdid)
  apply hne
  apply eq_of_id hinv.unique ha hb
  rw [← hga.id, ← hgb.id, ← hqa, ← hqb]

end Runs

end Seiran.Actors
