import Mathlib.Data.List.Induction
import Seiran.Proof.Actors.Rows

/-!
# Every run of discovery calls

* `Known`: what a call knows at each of its statements, whatever the others do;
* `inv_step`: every call, of honest and of hostile actors, leaves rows that have
  one side or are married, by declarations that were read;
* `married_step`: the only write that gives a row both sides;
* `marriages_sound`: whose declarations a marriage rests on, and that a row keeps
  its two sides.
-/

namespace Seiran.Actors

open Sql

variable {D : Side → String → String → Prop} {actors actors' : List Actor} {a b : Actor}
  {c : Call} {d : Discovery} {i j k : Int64} {n : Nat} {w : Write} {phase : Phase} {s s' t : State}
  {act : Action} {as : List Action} {x : Side → String}

/-- No row has the identifier yet. -/
def Fresh (actors : List Actor) (i : Int64) : Prop := ∀ a ∈ actors, a.id ≠ i

/-- The row `k` is that of the side. -/
def Owned (actors : List Actor) (d : Discovery) (k : Int64) : Prop :=
  ∃ a ∈ actors, a.id = k ∧ a.ident d.side = some d.ident

def Found (actors : List Actor) (d : Discovery) : Write → Prop
  | .existing k => Owned actors d k
  | .married k => ∃ z, d.claim = some z ∧ ∃ a ∈ actors, a.id = k ∧ Engaged a d z
  | .insert => True

def Known (actors : List Actor) (i : Int64) (d : Discovery) : Phase → Prop
  | .search _ => Fresh actors i
  | .counterpart _ z => Fresh actors i ∧ d.claim = some z
  | .write _ w => Fresh actors i ∧ Found actors d w
  | .ended (some o) => Owned actors d o.actorId
  | .ended none => True

structure CallOk (D : Side → String → String → Prop) (actors : List Actor) (i : Int64) (c : Call) :
    Prop where
  id : c.id = i
  claim : ∀ z, c.discovery.claim = some z → D c.discovery.side c.discovery.ident z
  known : Known actors i c.discovery c.phase

structure Inv (D : Side → String → String → Prop) (s : State) : Prop where
  unique : schema.Unique s.actors
  rows : ∀ a ∈ s.actors, RowOk D a
  calls : ∀ i c, s.calls i = some c → CallOk D s.actors i c

section Persistence

variable (hl : Later i actors actors')

include hl

theorem Later.keep_fresh (hij : i ≠ j) (h : Fresh actors j) : Fresh actors' j := by
  intro a' ha' hid
  rcases hl.fresh a' ha' with hi | ⟨a, ha, haid⟩
  · exact hij (hi.symm.trans hid)
  · exact h a ha (haid.trans hid)

theorem Later.keep_owned (h : Owned actors d k) : Owned actors' d k := by
  obtain ⟨a, ha, hid, hy⟩ := h
  obtain ⟨a', ha', hg⟩ := hl.grown a ha
  exact ⟨a', ha', hg.id.trans hid, hg.ident _ _ hy⟩

theorem Later.keep_found (h : Found actors d w) : Found actors' d w := by
  cases w with
  | existing k => exact hl.keep_owned h
  | married k =>
    obtain ⟨z, hz, a, ha, hid, hident, hy⟩ := h
    obtain ⟨a', ha', hg⟩ := hl.grown a ha
    refine ⟨z, hz, a', ha', hg.id.trans hid, hg.ident _ _ hident, ?_⟩
    rcases hy with hy | hy
    · exact hg.claimed _ _ hy
    · exact .inr (hg.ident _ _ hy)
  | insert => trivial

theorem Later.keep (hij : i ≠ j) (h : Known actors j d phase) : Known actors' j d phase := by
  cases phase with
  | search n => exact hl.keep_fresh hij h
  | counterpart n z => exact ⟨hl.keep_fresh hij h.1, h.2⟩
  | write n w => exact ⟨hl.keep_fresh hij h.1, hl.keep_found h.2⟩
  | ended o =>
    cases o with
    | none => trivial
    | some o => exact hl.keep_owned h

end Persistence

section Lookups

theorem known_search (h : Fresh actors i) : Known actors i c.discovery (c.search actors n).phase := by
  unfold Call.search
  split
  · rename_i a hs
    obtain ⟨ha, hy⟩ := byIdent_eq_some hs
    exact ⟨h, a, ha, rfl, hy⟩
  · rename_i z _ hz
    exact ⟨h, hz⟩
  · exact ⟨h, trivial⟩

theorem known_counterpart {z : String} (h : Fresh actors i) (hz : c.discovery.claim = some z) :
    Known actors i c.discovery (c.counterpart actors n z).phase := by
  unfold Call.counterpart
  split
  · rename_i a hs
    obtain ⟨ha, hy⟩ := byIdent_eq_some hs
    split
    · rename_i hcl
      exact ⟨h, z, hz, a, ha, rfl, hy, .inl hcl⟩
    · exact ⟨h, trivial⟩
  · exact ⟨h, trivial⟩

theorem known_retry (h : Fresh actors i) : Known actors i c.discovery (c.retry n).phase := by
  unfold Call.retry
  split
  · exact h
  · trivial

@[simp] theorem discovery_search : (c.search actors n).discovery = c.discovery := by
  unfold Call.search
  split <;> rfl

@[simp] theorem id_search : (c.search actors n).id = c.id := by
  unfold Call.search
  split <;> rfl

@[simp] theorem discovery_counterpart {z : String} :
    (c.counterpart actors n z).discovery = c.discovery := by
  unfold Call.counterpart
  split
  · split <;> rfl
  · rfl

@[simp] theorem id_counterpart {z : String} : (c.counterpart actors n z).id = c.id := by
  unfold Call.counterpart
  split
  · split <;> rfl
  · rfl

@[simp] theorem discovery_retry : (c.retry n).discovery = c.discovery := by
  unfold Call.retry
  split <;> rfl

@[simp] theorem id_retry : (c.retry n).id = c.id := by
  unfold Call.retry
  split <;> rfl

@[simp] theorem discovery_written : (c.written w).discovery = c.discovery := by
  cases w <;> rfl

@[simp] theorem id_written : (c.written w).id = c.id := by
  cases w <;> rfl

end Lookups

section Writes

variable {f : Actor → Actor}

/-- The row that an `UPDATE` is about, and what it makes of it -/
inductive Target (actors : List Actor) (d : Discovery) : Write → Actor → (Actor → Actor) → Prop where
  | existing {a : Actor} (ha : a ∈ actors) (hy : a.ident d.side = some d.ident) :
    Target actors d (.existing a.id) a d.refresh
  | married {a : Actor} (ha : a ∈ actors) (z : String) (hz : d.claim = some z)
    (he : Engaged a d z) : Target actors d (.married a.id) a d.marry

theorem Found.target (h : Found actors d w) : w = .insert ∨ ∃ a f, Target actors d w a f := by
  cases w with
  | existing k =>
    obtain ⟨a, ha, rfl, hy⟩ := h
    exact .inr ⟨a, _, .existing ha hy⟩
  | married k =>
    obtain ⟨z, hz, a, ha, rfl, he⟩ := h
    exact .inr ⟨a, _, .married ha z hz he⟩
  | insert => exact .inl rfl

namespace Target

theorem mem (h : Target actors d w a f) : a ∈ actors := by
  cases h with
  | existing ha => exact ha
  | married ha => exact ha

theorem statement (h : Target actors c.discovery w a f) :
    c.statement actors w = schema.update actors a.id f := by
  cases h <;> rfl

theorem written (h : Target actors c.discovery w a f) :
    ∃ m, c.written w = c.setPhase (.ended (some ⟨a.id, m⟩)) := by
  cases h with
  | existing => exact ⟨false, rfl⟩
  | married => exact ⟨true, rfl⟩

theorem grown (hrows : ∀ a ∈ actors, RowOk D a) (h : Target actors d w a f) : Grown a (f a) := by
  cases h with
  | existing => exact grown_refresh a d
  | married ha z hz he => exact (hrows a ha).grown_marry he

theorem rowOk (hrows : ∀ a ∈ actors, RowOk D a) (hd : ∀ z, d.claim = some z → D d.side d.ident z)
    (h : Target actors d w a f) : RowOk D (f a) := by
  cases h with
  | existing ha hy => exact (hrows a ha).refresh hy hd
  | married ha z hz he => exact (hrows a ha).marry he (hd z hz)

theorem ident (h : Target actors d w a f) : (f a).ident d.side = some d.ident := by
  cases h with
  | existing ha hy => rw [ident_refresh, hy]
  | married => exact ident_marry d a

end Target

/-- What a write that is committed leaves to its call and to the others -/
structure Written (D : Side → String → String → Prop) (i : Int64) (actors actors' : List Actor)
    (c : Call) : Prop where
  unique : schema.Unique actors'
  rows : ∀ a ∈ actors', RowOk D a
  later : Later i actors actors'
  call : CallOk D actors' i c

theorem written_ok (hu : schema.Unique actors) (hrows : ∀ a ∈ actors, RowOk D a)
    (hc : CallOk D actors i c) (hph : c.phase = .write n w)
    (hs : c.statement actors w = some actors') : Written D i actors actors' (c.written w) := by
  have hknown : Known actors i c.discovery (.write n w) := hph ▸ hc.known
  rcases hknown.2.target with rfl | ⟨a, f, ht⟩
  · obtain ⟨hu', rfl⟩ := Schema.insert_eq_some.mp hs
    have hid : (c.discovery.row c.id).id = i := (id_row _ _).trans hc.id
    refine ⟨hu', fun a ha => ?_, .append hid, hc.id, hc.claim, c.discovery.row c.id, ?_, ?_, ?_⟩
    · rcases List.mem_append.mp ha with ha | ha
      · exact hrows a ha
      · rw [List.mem_singleton.mp ha]
        exact rowOk_row hc.claim c.id
    · simp
    · simp
    · simp [Call.written, Call.setPhase]
  · rw [ht.statement] at hs
    obtain ⟨hu', rfl⟩ := Schema.update_eq_some.mp hs
    obtain ⟨m, hm⟩ := ht.written
    have hmem : f a ∈ schema.set actors a.id f := (mem_set_iff hu ht.mem).mpr (.inl rfl)
    refine ⟨hu', fun b hb => ?_, .set hu ht.mem (ht.grown hrows), ?_⟩
    · rcases (mem_set_iff hu ht.mem).mp hb with rfl | ⟨hb, -⟩
      · exact ht.rowOk hrows hc.claim
      · exact hrows b hb
    · rw [hm]
      exact ⟨hc.id, hc.claim, f a, hmem, (ht.grown hrows).id, ht.ident⟩

end Writes

section Steps

/-- What a statement of a call does -/
inductive Ran (s : State) (i : Int64) (c : Call) : State → Prop where
  | search (n : Nat) (hph : c.phase = .search n) :
    Ran s i c (s.setCall i s.actors (c.search s.actors n))
  | counterpart (n : Nat) (z : String) (hph : c.phase = .counterpart n z) :
    Ran s i c (s.setCall i s.actors (c.counterpart s.actors n z))
  | written (n : Nat) (w : Write) (actors : List Actor) (hph : c.phase = .write n w)
    (hs : c.statement s.actors w = some actors) : Ran s i c (s.setCall i actors (c.written w))
  | retry (n : Nat) (w : Write) (hph : c.phase = .write n w)
    (hs : c.statement s.actors w = none) : Ran s i c (s.setCall i s.actors (c.retry n))

theorem runCall_eq_some (hs : s.runCall i c = some s') : Ran s i c s' := by
  unfold State.runCall at hs
  split at hs
  · rename_i n hph
    cases hs
    exact .search n hph
  · rename_i n z hph
    cases hs
    exact .counterpart n z hph
  · rename_i n w hph
    split at hs
    · rename_i actors hst
      cases hs
      exact .written n w actors hph hst
    · rename_i hst
      cases hs
      exact .retry n w hph hst
  · cases hs

/-- The calls after a write of the call `i` -/
theorem Inv.setCall (h : Inv D s) (hw : Written D i s.actors actors c) :
    Inv D (s.setCall i actors c) where
  unique := hw.unique
  rows := hw.rows
  calls j c' hj := by
    have hj : Function.update s.calls i (some c) j = some c' := hj
    by_cases hij : j = i
    · subst hij
      rw [Function.update_self] at hj
      cases hj
      exact hw.call
    · rw [Function.update_of_ne hij] at hj
      obtain ⟨hid, hclaim, hknown⟩ := h.calls j c' hj
      exact ⟨hid, hclaim, hw.later.keep (Ne.symm hij) hknown⟩

/-- A call that reads the rows, or whose write is turned away -/
theorem Inv.written (h : Inv D s) (hc : CallOk D s.actors i c) : Written D i s.actors s.actors c :=
  ⟨h.unique, h.rows, .refl i s.actors, hc⟩

theorem Inv.ran (h : Inv D s) (hc : s.calls i = some c) (hs : Ran s i c s') : Inv D s' := by
  have hok := h.calls i c hc
  have hknown := hok.known
  have hid := hok.id
  have hclaim := hok.claim
  cases hs with
  | search n hph =>
    rw [hph] at hknown
    apply h.setCall (h.written ⟨?_, ?_, ?_⟩)
    · simp [hid]
    · simpa using hclaim
    · rw [discovery_search]
      exact known_search hknown
  | counterpart n z hph =>
    rw [hph] at hknown
    apply h.setCall (h.written ⟨?_, ?_, ?_⟩)
    · simp [hid]
    · simpa using hclaim
    · rw [discovery_counterpart]
      exact known_counterpart hknown.1 hknown.2
  | written n w actors hph hst => exact h.setCall (written_ok h.unique h.rows hok hph hst)
  | retry n w hph =>
    rw [hph] at hknown
    apply h.setCall (h.written ⟨?_, ?_, ?_⟩)
    · simp [hid]
    · simpa using hclaim
    · rw [discovery_retry]
      exact known_retry hknown.1

/-- The declarations that the calls have read are in `D`. -/
def Reads (D : Side → String → String → Prop) (s : State) : Action → Prop
  | .discover _ d => ∀ z, d.claim = some z → s.declared d.side d.ident = some z →
      D d.side d.ident z
  | _ => True

theorem inv_step (h : Inv D s) (hact : Reads D s act) (hs : machine.step s act = some s') :
    Inv D s' := by
  cases act with
  | declare side y claim =>
    cases hs
    exact ⟨h.unique, h.rows, h.calls⟩
  | discover i d =>
    simp only [machine, step] at hs
    split at hs
    · rename_i hg
      cases hs
      refine h.setCall (h.written ⟨rfl, fun z hz => ?_, hg.2.1⟩)
      rcases hg.2.2 with hnone | hd
      · rw [hnone] at hz
        cases hz
      · exact hact z hz (hd ▸ hz)
    · cases hs
  | run i =>
    obtain ⟨c, hc, hrun⟩ := Option.bind_eq_some_iff.mp hs
    exact h.ran hc (runCall_eq_some hrun)

theorem inv_start : Inv D start where
  unique := List.nodup_nil
  rows a ha := absurd ha List.not_mem_nil
  calls i c hc := by cases hc

end Steps

section Marriages

/-- A call has read that `y` declares `z`, and so it did. -/
def ReadIn (as : List Action) (side : Side) (y z : String) : Prop :=
  ∃ bs i d cs s, as = bs ++ .discover i d :: cs ∧ machine.run start bs = some s ∧
    d.side = side ∧ d.ident = y ∧ d.claim = some z ∧ s.declared side y = some z

theorem inv_run (hr : machine.run start as = some s) : Inv (ReadIn as) s := by
  refine machine.run_inv_along (P := Reads (ReadIn as)) inv_step inv_start ?_ hr
  apply machine.along_of_splits
  intro bs act cs u heq hu
  cases act with
  | discover i d => exact fun z hz hd => ⟨bs, i, d, cs, u, heq, hu, rfl, rfl, hz, hd⟩
  | _ => trivial

/-- Every step leaves the rows with their sides. -/
theorem step_later (h : Inv D s) (hs : machine.step s act = some s') :
    ∃ i, Later i s.actors s'.actors := by
  cases act with
  | declare =>
    cases hs
    exact ⟨0, .refl 0 _⟩
  | discover i d =>
    simp only [machine, step] at hs
    split at hs
    · cases hs
      exact ⟨i, .refl i _⟩
    · cases hs
  | run i =>
    obtain ⟨c, hc, hrun⟩ := Option.bind_eq_some_iff.mp hs
    refine ⟨i, ?_⟩
    cases runCall_eq_some hrun with
    | written n w actors hph hst => exact (written_ok h.unique h.rows (h.calls i c hc) hph hst).later
    | _ => exact .refl i _

/-- A row stays, with its sides. -/
theorem run_grown (hr : machine.run start as = some s) {bs : List Action}
    (hr' : machine.run s bs = some t) (ha : a ∈ s.actors) : ∃ b ∈ t.actors, Grown a b := by
  have htrivial : ∀ {s act s'}, Inv (fun _ _ _ => True) s → machine.step s act = some s' →
      Inv (fun _ _ _ => True) s' := by
    intro s act s' h hs
    refine inv_step h ?_ hs
    cases act <;> simp [Reads]
  have hstep : ∀ {s act s'}, Inv (fun _ _ _ => True) s ∧ (∃ b ∈ s.actors, Grown a b) →
      machine.step s act = some s' → Inv (fun _ _ _ => True) s' ∧ ∃ b ∈ s'.actors, Grown a b := by
    rintro s act s' ⟨h, b, hb, hg⟩ hs
    obtain ⟨i, hl⟩ := step_later h hs
    obtain ⟨c, hc, hg'⟩ := hl.grown b hb
    exact ⟨htrivial h hs, c, hc, hg.trans hg'⟩
  have hinv : Inv (fun _ _ _ => True) s := machine.run_inv htrivial inv_start hr
  exact (machine.run_inv hstep ⟨hinv, a, ha, .refl a⟩ hr').2

/-- The row has both sides. -/
def Carries (a : Actor) (x : Side → String) : Prop := ∀ s, a.ident s = some (x s)

/-- The statement of the call that gives the row its other side: the call declares the side of the
row, and the row has the claim of the call. -/
def Marries (s : State) (i k : Int64) (x : Side → String) : Prop :=
  ∃ c n, s.calls i = some c ∧ c.phase = .write n (.married k) ∧
    c.discovery.ident = x c.discovery.side ∧
    c.discovery.claim = some (x c.discovery.side.other) ∧
    ∃ a ∈ s.actors, a.id = k ∧ a.ident c.discovery.side = none ∧
      a.ident c.discovery.side.other = some (x c.discovery.side.other) ∧
      a.claimed c.discovery.side = some (x c.discovery.side)

/-- A row that has both sides after a step had them before, or is married by it. -/
theorem married_step (h : Inv D s) (hs : machine.step s act = some s') (ha : a ∈ s'.actors)
    (hx : Carries a x) : (∃ b ∈ s.actors, b.id = a.id ∧ Carries b x) ∨
      ∃ i, act = .run i ∧ Marries s i a.id x := by
  cases act with
  | declare =>
    cases hs
    exact .inl ⟨a, ha, rfl, hx⟩
  | discover i d =>
    simp only [machine, step] at hs
    split at hs
    · cases hs
      exact .inl ⟨a, ha, rfl, hx⟩
    · cases hs
  | run i =>
    obtain ⟨c, hc, hrun⟩ := Option.bind_eq_some_iff.mp hs
    cases runCall_eq_some hrun with
    | written n w actors hph hst =>
      have hknown : Known s.actors i c.discovery (.write n w) := hph ▸ (h.calls i c hc).known
      have ha : a ∈ actors := ha
      rcases hknown.2.target with rfl | ⟨b, f, ht⟩
      · obtain ⟨-, rfl⟩ := Schema.insert_eq_some.mp hst
        rcases List.mem_append.mp ha with ha | ha
        · exact .inl ⟨a, ha, rfl, hx⟩
        · have hother := hx c.discovery.side.other
          rw [List.mem_singleton.mp ha, ident_other_row] at hother
          cases hother
      · rw [ht.statement] at hst
        obtain ⟨-, rfl⟩ := Schema.update_eq_some.mp hst
        rcases (mem_set_iff h.unique ht.mem).mp ha with rfl | ⟨ha, -⟩
        · cases ht with
          | existing hb hy =>
            refine .inl ⟨b, hb, (id_refresh _ b).symm, fun s => ?_⟩
            rw [← hx s, ident_refresh]
          | married hb z hz he =>
            have hside := hx c.discovery.side
            have hother := hx c.discovery.side.other
            rw [ident_marry, Option.some.injEq] at hside
            rw [ident_other_marry] at hother
            have hclaim : c.discovery.claim = some (x c.discovery.side.other) := by
              rw [hz, ← hother, he.1]
            rw [id_marry]
            rcases he.2 with hcl | hy
            · refine .inr ⟨i, rfl, c, n, hc, hph, hside, hclaim, b, hb, rfl, ?_, hother, ?_⟩
              · exact ((h.rows b hb).of_claimed hcl).1
              · rw [hcl, hside]
            · refine .inl ⟨b, hb, rfl, fun s => ?_⟩
              rcases eq_or_eq_other c.discovery.side s with rfl | rfl
              · rw [hy, hside]
              · exact hother
        · exact .inl ⟨a, ha, rfl, hx⟩
    | _ => exact .inl ⟨a, ha, rfl, hx⟩

/-- Both sides named each other when calls read what they declare, and the second was read by the
call that married them. -/
theorem carries_of_run (hr : machine.run start as = some t) (ha : a ∈ t.actors)
    (hx : Carries a x) : ∃ bs i cs s, as = bs ++ .run i :: cs ∧ machine.run start bs = some s ∧
      Marries s i a.id x ∧ ∀ side, ReadIn bs side (x side) (x side.other) := by
  induction as using List.reverseRecOn generalizing t a with
  | nil =>
    cases hr
    cases ha
  | append_singleton bs act ih =>
    obtain ⟨s, hs, hr⟩ := (machine.run_append_eq_some).mp hr
    obtain ⟨s', hs', hr⟩ := machine.run_cons_eq_some.mp hr
    cases hr
    have hinv : Inv (ReadIn bs) s := inv_run hs
    rcases married_step hinv hs' ha hx with ⟨b, hb, hid, hxb⟩ | ⟨i, rfl, hm⟩
    · obtain ⟨bs', i, cs, u, rfl, hu, hm, hread⟩ := ih hs hb hxb
      rw [hid] at hm
      exact ⟨bs', i, cs ++ [act], u, by simp, hu, hm, hread⟩
    · have hinv' : Inv (ReadIn bs) t :=
        inv_step hinv (show Reads (ReadIn bs) s (.run i) from trivial) hs'
      exact ⟨bs, i, [], s, rfl, hs, hm, ((hinv'.rows a ha).of_both hx).2.2⟩

/-- A row has both sides by a marriage, of sides that have declared each other, and for good. -/
theorem marriages_sound (hr : machine.run start as = some t) (ha : a ∈ t.actors)
    (hx : Carries a x) :
    (∃ bs i cs s, as = bs ++ .run i :: cs ∧ machine.run start bs = some s ∧ Marries s i a.id x ∧
      ∀ side, ReadIn bs side (x side) (x side.other)) ∧
    ∀ bs u, machine.run t bs = some u → ∃ b ∈ u.actors, b.id = a.id ∧ Carries b x := by
  refine ⟨carries_of_run hr ha hx, fun bs u hu => ?_⟩
  obtain ⟨b, hb, hg⟩ := run_grown hr hu ha
  exact ⟨b, hb, hg.id, fun s => hg.ident s _ (hx s)⟩

/-- The document of an actor, with what it declares -/
def document (claimedAtDid : Option String) : Discovery :=
  .fedi
    { apUri := "u"
      apInboxUrl := "inbox"
      username := "name"
      domain := "host"
      displayName := "name"
      claimedAtDid }

/-- The repository of an actor, with what it declares -/
def repository (claimedApUri : Option String) : Discovery :=
  .bsky { atDid := "v", handle := "handle" } claimedApUri

/-- Each side is discovered after it has declared the other. -/
def courting : List Action :=
  [.declare .fedi "u" (some "v"), .discover 1 (document (some "v")), .run 1, .run 1, .run 1,
    .declare .bsky "v" (some "u"), .discover 2 (repository (some "u")), .run 2, .run 2, .run 2]

theorem marriages_sound_courting :
    ∃ t, machine.run start courting = some t ∧ ∃ a ∈ t.actors, a.id = 1 ∧
      (∃ bs i cs s, courting = bs ++ .run i :: cs ∧ machine.run start bs = some s ∧
        Marries s i a.id (couple (document none) "v") ∧
        ∀ side, ReadIn bs side (couple (document none) "v" side)
          (couple (document none) "v" side.other)) ∧
      ∀ bs u, machine.run t bs = some u →
        ∃ b ∈ u.actors, b.id = a.id ∧ Carries b (couple (document none) "v") := by
  obtain ⟨t, ht⟩ : ∃ t, machine.run start courting = some t :=
    Option.isSome_iff_exists.mp (by decide)
  have hall : ((machine.run start courting).map fun t => t.actors.any fun a =>
      a.id = 1 ∧ a.ident .fedi = some "u" ∧ a.ident .bsky = some "v") = some true := by decide
  rw [ht, Option.map_some, Option.some.injEq, List.any_eq_true] at hall
  obtain ⟨a, ha, hcond⟩ := hall
  obtain ⟨hid, hap, hdid⟩ := of_decide_eq_true hcond
  refine ⟨t, ht, a, ha, hid, marriages_sound ht ha fun s => ?_⟩
  cases s
  · exact hap
  · exact hdid

/-- The repository withdraws what it declared when it was discovered. -/
def withdrawn : List Action :=
  [.declare .bsky "v" (some "u"), .discover 1 (repository (some "u")), .run 1, .run 1, .run 1,
    .declare .bsky "v" none, .declare .fedi "u" (some "v"), .discover 2 (document (some "v")),
    .run 2, .run 2]

theorem marriages_sound_counterexample :
    ∃ s t, machine.run start withdrawn = some s ∧ step s (.run 2) = some t ∧
      s.actors.map (fun a => (a.id, a.apUri, a.atDid)) = [(1, none, some "v")] ∧
      t.actors.map (fun a => (a.id, a.apUri, a.atDid)) = [(1, some "u", some "v")] ∧
      s.declared .bsky "v" = none :=
  ⟨_, _, rfl, rfl, rfl, rfl, rfl⟩

end Marriages

end Seiran.Actors
