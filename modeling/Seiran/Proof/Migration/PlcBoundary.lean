import Seiran.Proof.Migration.Request

/-!
# The boundary at PLC

After PLC has accepted the operation, a request is safe as long as a processor
waits for the answer or has recorded it (`Waited`). When the answer is lost, the
request is lost with it (`Doomed`): the operation is not accepted a second time,
and nothing else leads to `mark_plc_submitted`.
-/

namespace Seiran.Migration

/-- The operation whose acceptance the processor is to record. -/
def Proc.answered : Proc → Option PlcOperation
  | .submitting op (some true) | .submitted op => some op
  | _ => none

def State.answered (s : State) (p : Nat) : Option PlcOperation := (s.procs p).bind Proc.answered

section Rows

variable {row : Row} {account : Option PlcOperation} {op : PlcOperation} {pr : Proc}

theorem RowOk.sealed (h : RowOk row account) (hsub : row.plcSubmittedAt = true)
    (hstaged : row.staged = some op) : Sealed row account op := by
  rcases h.phase with hplain | ⟨op', hs⟩
  · rw [hplain.submitted] at hsub
    cases hsub
  · rw [hs.staged, Option.some.injEq] at hstaged
    rwa [hstaged] at hs

theorem RowOk.notSealed (h : RowOk row account) (hsub : row.plcSubmittedAt = false) :
    Plain row account := by
  rcases h.phase with hplain | ⟨op, hs⟩
  · exact hplain
  · rw [hs.submitted] at hsub
    cases hsub

theorem Proc.inSubmit_of_answered (h : pr.answered = some op) : pr.inSubmit = true := by
  unfold answered at h
  split at h
  · rfl
  · rfl
  · cases h

theorem ProcOk.of_answered (h : ProcOk row account pr) (hpr : pr.answered = some op) :
    row.staged = some op ∧ row.status = .submittingPlc ∧ Plain row account := by
  unfold Proc.answered at hpr
  split at hpr
  · cases hpr
    exact h
  · cases hpr
    exact h
  · cases hpr

end Rows

variable {s s' s₁ t : State} {p q : Nat} {op : PlcOperation} {a : Action}

theorem Inv.of_answered (h : Inv s) (hp : s.answered p = some op) :
    s.row.staged = some op ∧ s.row.status = .submittingPlc ∧ Plain s.row s.account := by
  obtain ⟨pr, hpr, hans⟩ := Option.bind_eq_some_iff.mp hp
  exact (h.procs p pr hpr).of_answered hans

/-- Nobody else is answered while one submits. -/
theorem Inv.answered_unique {pr : Proc} (h : Inv s) (hp : s.procs p = some pr)
    (hsub : pr.inSubmit = true) (hq : s.answered q = some op) : q = p := by
  obtain ⟨pr', hpr', hans⟩ := Option.bind_eq_some_iff.mp hq
  exact h.single q p pr' pr hpr' hp (Proc.inSubmit_of_answered hans) hsub

/-! ## What a step can do -/

/-- What a step does to the operations and to those who wait for an answer. -/
structure Effect (s : State) (a : Action) (s' : State) : Prop where
  staged : ∀ op, s.row.staged = some op → s'.row.staged = some op
  submitted : s.row.plcSubmittedAt = true → s'.row.plcSubmittedAt = true
  seals : s'.row.plcSubmittedAt = true → s.row.plcSubmittedAt = true ∨
    ∃ p op, s.answered p = some op
  inFlight : ∀ op ∈ s'.inFlight, op ∈ s.inFlight ∨ s.row.staged = some op
  accepted : ∀ op ∈ s.accepted, op ∈ s'.accepted
  accepts : ∀ op ∈ s'.accepted, op ∈ s.accepted ∨ a = .plcAcceptsLate op ∧ op ∈ s.inFlight ∨
    s.row.staged = some op ∧ (NameKept s a → s.usernameTaken = false) ∧
      ∃ p, s'.answered p = some op
  answered : ∀ p op, s'.answered p = some op → s.answered p = some op ∨
    op ∈ s'.accepted ∧ op ∉ s.accepted
  waits : Answered s a → ∀ p op, s.answered p = some op → s'.answered p = some op ∨
    s'.row.plcSubmittedAt = true
  taken : s.usernameTaken = true → s'.usernameTaken = true ∧ s'.account = s.account
  takes : s'.usernameTaken = true → s.usernameTaken = true ∨ a = .takeUsername

theorem answered_setProc_self {x : Option Proc} :
    (setProc s p x).answered p = x.bind Proc.answered := by
  rw [State.answered, setProc_self]

theorem answered_setProc_ne {x : Option Proc} (h : q ≠ p) :
    (setProc s p x).answered q = s.answered q := by
  rw [State.answered, State.answered, setProc_ne h]

theorem answered_setProc {x : Option Proc} (h : s.answered p = x.bind Proc.answered) (q : Nat) :
    (setProc s p x).answered q = s.answered q := by
  by_cases heq : q = p
  · rw [heq, answered_setProc_self, h]
  · exact answered_setProc_ne heq

/-- A step that is not about the answer. -/
theorem Effect.quiet {x : Option Proc} (hp : s.answered p = x.bind Proc.answered)
    (hprocs : s₁.procs = s.procs) (hstaged : s₁.row.staged = s.row.staged)
    (hsub : s₁.row.plcSubmittedAt = s.row.plcSubmittedAt) (hacc : s₁.accepted = s.accepted)
    (hfly : s₁.inFlight = s.inFlight) (htaken : s₁.usernameTaken = s.usernameTaken)
    (hmade : s.usernameTaken = true → s₁.account = s.account) : Effect s a (setProc s₁ p x) := by
  have hans : ∀ q, (setProc s₁ p x).answered q = s.answered q := by
    intro q
    have hs₁ : ∀ q, s₁.answered q = s.answered q := fun q => by
      rw [State.answered, State.answered, hprocs]
    rw [answered_setProc ((hs₁ p).trans hp), hs₁]
  exact {
    staged := fun op hop => hstaged.trans hop
    submitted := fun h => hsub.trans h
    seals := fun h => .inl (hsub.symm.trans h)
    inFlight := fun op hop => .inl (by rwa [← hfly])
    accepted := fun op hop => by rwa [← hacc] at hop
    accepts := fun op hop => .inl (by rwa [← hacc])
    answered := fun q op hq => .inl ((hans q).symm.trans hq)
    waits := fun _ q op hq => .inl ((hans q).trans hq)
    taken := fun h => ⟨htaken.trans h, hmade h⟩
    takes := fun h => .inl (htaken.symm.trans h) }

theorem answered_of_procs {pr : Proc} (hp : s.procs p = some pr) : s.answered p = pr.answered := by
  rw [State.answered, hp]
  rfl

theorem answered_of_none (hp : s.procs p = none) : s.answered p = none := by
  rw [State.answered, hp]
  rfl

theorem effect_startJob {pr : Proc} {status : Status} (hpr : pr.answered = none)
    (hs : startJob s p pr status = some s') : Effect s a s' := by
  simp only [startJob, Option.ite_none_right_eq_some, Option.some.injEq] at hs
  obtain ⟨⟨hp, -⟩, rfl⟩ := hs
  exact .quiet ((answered_of_none hp).trans hpr.symm) rfl rfl rfl rfl rfl rfl fun _ => rfl

/-- One whose answer is lost, or who was not answered, leaves. -/
theorem Effect.leave {pr : Proc} (hp : s.procs p = some pr) (hprocs : s₁.procs = s.procs)
    (hstaged : s₁.row.staged = s.row.staged) (hsub : s₁.row.plcSubmittedAt = s.row.plcSubmittedAt)
    (hacc : s₁.accepted = s.accepted)
    (hfly : ∀ op ∈ s₁.inFlight, op ∈ s.inFlight ∨ s.row.staged = some op)
    (hlost : Answered s a → pr.answered = none) (htaken : s₁.usernameTaken = s.usernameTaken)
    (hmade : s₁.account = s.account) : Effect s a (endProc s₁ p) := by
  have hself : (endProc s₁ p).answered p = none := answered_setProc_self
  have hne : ∀ q, q ≠ p → (endProc s₁ p).answered q = s.answered q := fun q hq => by
    rw [State.answered, State.answered, endProc, setProc_ne hq]
    exact congrArg (fun procs => (procs q).bind Proc.answered) hprocs
  exact {
    staged := fun op hop => hstaged.trans hop
    submitted := fun h => hsub.trans h
    seals := fun h => .inl (hsub.symm.trans h)
    inFlight := hfly
    accepted := fun op hop => by rwa [← hacc] at hop
    accepts := fun op hop => .inl (by rwa [← hacc])
    answered := fun q op hq => by
      by_cases heq : q = p
      · rw [heq, hself] at hq
        cases hq
      · exact .inl ((hne q heq).symm.trans hq)
    waits := fun ha q op hq => by
      by_cases heq : q = p
      · rw [heq, answered_of_procs hp, hlost ha] at hq
        cases hq
      · exact .inl ((hne q heq).trans hq)
    taken := fun h => ⟨htaken.trans h, hmade⟩
    takes := fun h => .inl (htaken.symm.trans h) }

theorem effect_plcAccepts (h : Inv s) (hs : step s (.plcAccepts p) = some s') :
    Effect s (.plcAccepts p) s' := by
  simp only [step] at hs
  split at hs
  · rename_i op hp
    simp only [Option.ite_none_right_eq_some, Option.some.injEq] at hs
    obtain ⟨hnew, rfl⟩ := hs
    have hnone : ∀ q, s.answered q = none := by
      intro q
      by_contra hne
      obtain ⟨op', hop'⟩ := Option.ne_none_iff_exists'.mp hne
      rw [h.answered_unique hp rfl hop', answered_of_procs hp] at hop'
      cases hop'
    exact {
      staged := fun _ hop => hop
      submitted := fun h => h
      seals := fun h => .inl h
      inFlight := fun _ hop => .inl hop
      accepted := fun _ hop => List.mem_cons_of_mem _ hop
      accepts := fun op' hop' => by
        rcases List.mem_cons.mp hop' with rfl | hop'
        · exact .inr (.inr ⟨(h.procs p _ hp).1, fun hn => hn, p, answered_setProc_self⟩)
        · exact .inl hop'
      answered := fun q op' hq => by
        by_cases heq : q = p
        · subst heq
          rw [answered_setProc_self] at hq
          cases hq
          exact .inr ⟨List.mem_cons_self .., hnew⟩
        · exact .inl ((answered_setProc_ne heq).symm.trans hq)
      waits := fun _ q op' hq => by
        rw [hnone q] at hq
        cases hq
      taken := fun h => ⟨h, rfl⟩
      takes := fun h => .inl h }
  · cases hs

theorem effect_markPlcSubmitted (hs : step s (.markPlcSubmitted p) = some s') :
    Effect s (.markPlcSubmitted p) s' := by
  simp only [step] at hs
  split at hs
  · rename_i op hp
    cases hs
    have hans : s.answered p = some op := answered_of_procs hp
    exact {
      staged := fun _ hop => hop
      submitted := fun _ => rfl
      seals := fun _ => .inr ⟨p, op, hans⟩
      inFlight := fun _ hop => .inl hop
      accepted := fun _ hop => hop
      accepts := fun _ hop => .inl hop
      answered := fun q op' hq => by
        by_cases heq : q = p
        · rw [heq, answered_setProc_self] at hq
          cases hq
        · exact .inl ((answered_setProc_ne heq).symm.trans hq)
      waits := fun _ _ _ _ => .inr rfl
      taken := fun h => ⟨h, rfl⟩
      takes := fun h => .inl h }
  · cases hs

theorem effect_stagePlcOperation (h : Inv s) (hs : step s (.stagePlcOperation p op) = some s') :
    Effect s (.stagePlcOperation p op) s' := by
  simp only [step] at hs
  split at hs
  · rename_i hp
    split at hs <;> cases hs
    · rename_i hstatus
      have hstaged := h.row.unstaged (by rw [hstatus]; rfl)
      have hans : ∀ q, (endProc { s with
          row := { s.row with status := .awaitingDnsTxt, staged := some op } } p).answered q =
          s.answered q := answered_setProc (answered_of_procs hp)
      exact {
        staged := fun op' hop' => by
          rw [hstaged] at hop'
          cases hop'
        submitted := fun h => h
        seals := fun h => .inl h
        inFlight := fun _ hop => .inl hop
        accepted := fun _ hop => hop
        accepts := fun _ hop => .inl hop
        answered := fun q _ hq => .inl ((hans q).symm.trans hq)
        waits := fun _ q _ hq => .inl ((hans q).trans hq)
        taken := fun h => ⟨h, rfl⟩
        takes := fun h => .inl h }
    · exact .quiet (answered_of_procs hp) rfl rfl rfl rfl rfl rfl fun _ => rfl
  · cases hs

theorem effect_materialize {keys : PlcOperation} (hp : s.answered p = none)
    (hs : (if s.usernameTaken then some (endProc s p)
      else some (setProc { s with account := some keys } p (some .materialized))) = some s') :
    Effect s a s' := by
  split at hs <;> cases hs
  · exact .quiet hp rfl rfl rfl rfl rfl rfl fun _ => rfl
  · rename_i hfree
    exact .quiet hp rfl rfl rfl rfl rfl rfl fun h => absurd h hfree

theorem step_effect (h : Inv s) (hs : step s a = some s') : Effect s a s' := by
  cases a with
  | fetchRepo p | requestSignature p | importProcess p => exact effect_startJob rfl hs
  | fetched p | fetchFailed p | signatureRequested p | confirmAccountCreated p | importRecord p
  | finishImport p | deactivated p | releaseDnsWait p | plcRejects p =>
    simp only [step] at hs
    split at hs <;> cases hs
    rename_i hp
    exact .quiet (answered_of_procs hp) rfl rfl rfl rfl rfl rfl fun _ => rfl
  | submitToken p =>
    simp only [step] at hs
    split at hs
    · rename_i hp
      split at hs <;> split at hs <;> cases hs
      · exact .quiet (answered_of_none hp) rfl rfl rfl rfl rfl rfl fun _ => rfl
      · exact .quiet (answered_of_none hp) rfl rfl rfl rfl rfl rfl fun _ => rfl
    · cases hs
  | stagePlcOperation p op => exact effect_stagePlcOperation h hs
  | claimDnsWait p =>
    simp only [step, Option.ite_none_right_eq_some] at hs
    obtain ⟨⟨hp, -⟩, hs⟩ := hs
    obtain ⟨op, -, rfl⟩ := Option.map_eq_some_iff.mp hs
    exact .quiet (answered_of_none hp) rfl rfl rfl rfl rfl rfl fun _ => rfl
  | leaseExpires =>
    cases hs
    exact ⟨fun _ h => h, fun h => h, fun h => .inl h, fun _ h => .inl h, fun _ h => h,
      fun _ h => .inl h, fun _ _ h => .inl h, fun _ _ _ h => .inl h, fun h => ⟨h, rfl⟩,
      fun h => .inl h⟩
  | beginSubmit p =>
    simp only [step] at hs
    split at hs
    · rename_i op hp
      split at hs <;> cases hs
      · exact .quiet (answered_of_procs hp) rfl rfl rfl rfl rfl rfl fun _ => rfl
      · exact .quiet (answered_of_procs hp) rfl rfl rfl rfl rfl rfl fun _ => rfl
    · cases hs
  | plcAccepts p => exact effect_plcAccepts h hs
  | plcAcceptsLate op =>
    simp only [step, Option.ite_none_right_eq_some, Option.some.injEq] at hs
    obtain ⟨⟨hfly, -⟩, rfl⟩ := hs
    refine ⟨fun _ h => h, fun h => h, fun h => .inl h, fun _ h => .inl h,
      fun _ h => List.mem_cons_of_mem _ h, fun op' hop' => ?_, fun _ _ h => .inl h,
      fun ha => ha.elim, fun h => ⟨h, rfl⟩, fun h => .inl h⟩
    rcases List.mem_cons.mp hop' with rfl | hop'
    · exact .inr (.inl ⟨rfl, hfly⟩)
    · exact .inl hop'
  | reply p =>
    simp only [step] at hs
    split at hs
    · rename_i hp
      cases hs
      exact .quiet (answered_of_procs hp) rfl rfl rfl rfl rfl rfl fun _ => rfl
    · rename_i hp
      cases hs
      exact .quiet (answered_of_procs hp) rfl rfl rfl rfl rfl rfl fun _ => rfl
    · cases hs
  | replyLost p =>
    simp only [step] at hs
    split at hs
    · rename_i op answer hp
      obtain ⟨hstaged, hstatus, -⟩ := h.procs p _ hp
      rw [if_pos hstatus] at hs
      cases hs
      refine .leave hp rfl rfl rfl rfl (fun op' hop' => ?_) (fun ha => ?_) rfl rfl
      · change op' ∈ (if answer = none then op :: s.inFlight else s.inFlight) at hop'
        split at hop'
        · rcases List.mem_cons.mp hop' with rfl | hop'
          · exact .inr hstaged
          · exact .inl hop'
        · exact .inl hop'
      · rw [Answered, hp] at ha
        cases answer with
        | none => rfl
        | some answer =>
          cases answer with
          | false => rfl
          | true => exact ha.elim
    · cases hs
  | markPlcSubmitted p => exact effect_markPlcSubmitted hs
  | takeUsername =>
    simp only [step, Option.ite_none_right_eq_some, Option.some.injEq] at hs
    obtain ⟨-, rfl⟩ := hs
    exact ⟨fun _ h => h, fun h => h, fun h => .inl h, fun _ h => .inl h, fun _ h => h,
      fun _ h => .inl h, fun _ _ h => .inl h, fun _ _ _ h => .inl h, fun _ => ⟨rfl, rfl⟩,
      fun _ => .inr rfl⟩
  | materializeAccount p =>
    simp only [step] at hs
    split at hs
    · rename_i hp
      exact effect_materialize (answered_of_procs hp) hs
    · rename_i hp
      exact effect_materialize (answered_of_procs hp) hs
    · cases hs
  | deactivateSource p =>
    simp only [step, Option.ite_none_right_eq_some, Option.some.injEq] at hs
    obtain ⟨⟨hp, -⟩, rfl⟩ := hs
    exact .quiet (answered_of_none hp) rfl rfl rfl rfl rfl rfl fun _ => rfl
  | readForAbandon p =>
    simp only [step, Option.ite_none_right_eq_some, Option.some.injEq] at hs
    obtain ⟨⟨hp, -⟩, rfl⟩ := hs
    exact .quiet (answered_of_none hp) rfl rfl rfl rfl rfl rfl fun _ => rfl
  | abandon p =>
    simp only [step] at hs
    split at hs
    · rename_i hp
      split at hs <;> cases hs
      · exact .quiet (answered_of_procs hp) rfl rfl rfl rfl rfl rfl fun _ => rfl
      · exact .quiet (answered_of_procs hp) rfl rfl rfl rfl rfl rfl fun _ => rfl
    · cases hs
  | stop p =>
    obtain ⟨pr, hp, rfl⟩ := Option.map_eq_some_iff.mp hs
    split
    · rename_i op
      refine .leave hp rfl rfl rfl rfl (fun op' hop' => ?_) (fun _ => rfl) rfl rfl
      rcases List.mem_cons.mp hop' with rfl | hop'
      · exact .inr (h.procs p _ hp).1
      · exact .inl hop'
    · refine .leave hp rfl rfl rfl rfl (fun _ hop => .inl hop) (fun ha => ?_) rfl rfl
      rw [Answered, hp] at ha
      unfold Proc.answered
      split
      · exact ha.elim
      · exact ha.elim
      · rfl

/-! ## Which operations are accepted -/

/-- There is one operation, the staged one, and what counts as accepted is. -/
structure Ops (s : State) : Prop where
  answered : ∀ p op, s.answered p = some op → op ∈ s.accepted
  sealed : ∀ op, Sealed s.row s.account op → op ∈ s.accepted
  inFlight : ∀ op ∈ s.inFlight, s.row.staged = some op

theorem ops_init : Ops init := ⟨nofun, fun _ hs => (inv_init.row.notSealed rfl).not_sealed hs |>.elim, nofun⟩

theorem ops_step (h : Inv s) (ho : Ops s) (hs : step s a = some s') : Ops s' := by
  have he := step_effect h hs
  refine ⟨fun p op hp => ?_, fun op hsealed => ?_, fun op hop => ?_⟩
  · rcases he.answered p op hp with hp | ⟨hop, -⟩
    · exact he.accepted op (ho.answered p op hp)
    · exact hop
  · -- it was sealed before, or has just been
    have hold : ∀ op', s.row.staged = some op' → op' ∈ s.accepted → op ∈ s'.accepted := by
      intro op' hst hop'
      have heq := (he.staged op' hst).symm.trans hsealed.staged
      rw [Option.some.injEq] at heq
      exact he.accepted op (heq ▸ hop')
    rcases he.seals hsealed.submitted with hsub | ⟨p, op', hp⟩
    · rcases h.row.phase with hplain | ⟨op', hs'⟩
      · rw [hplain.submitted] at hsub
        cases hsub
      · exact hold op' hs'.staged (ho.sealed op' hs')
    · exact hold op' (h.of_answered hp).1 (ho.answered p op' hp)
  · rcases he.inFlight op hop with hop | hop
    · exact he.staged op (ho.inFlight op hop)
    · exact he.staged op hop

theorem inv_and_ops_step (h : Inv s ∧ Ops s) (hs : step s a = some s') : Inv s' ∧ Ops s' :=
  ⟨inv_step h.1 hs, ops_step h.1 h.2 hs⟩

/-- The acceptance is recorded, or somebody is to record it, and the name of the
account is free. -/
structure Waited (s : State) : Prop where
  recorded : ∀ op ∈ s.accepted, Sealed s.row s.account op ∨ ∃ p, s.answered p = some op
  free : s.accepted ≠ [] → s.usernameTaken = false

theorem waited_step (h : Inv s) (hw : Waited s) (ha : Answered s a) (hn : NameKept s a)
    (hs : step s a = some s') : Waited s' := by
  have he := step_effect h hs
  have h' := inv_step h hs
  refine ⟨fun op hop => ?_, fun hne => ?_⟩
  · rcases he.accepts op hop with hop | ⟨rfl, -⟩ | ⟨-, -, hp⟩
    · rcases hw.recorded op hop with hsealed | ⟨p, hp⟩
      · exact .inl (h'.row.sealed (he.submitted hsealed.submitted) (he.staged op hsealed.staged))
      · rcases he.waits ha p op hp with hp' | hsub
        · exact .inr ⟨p, hp'⟩
        · exact .inl (h'.row.sealed hsub (he.staged op (h.of_answered hp).1))
    · exact ha.elim
    · exact .inr hp
  · by_contra htaken
    rcases he.takes (by simpa using htaken) with htaken | rfl
    · obtain ⟨op, hop⟩ := List.exists_mem_of_ne_nil _ hne
      rcases he.accepts op hop with hop | ⟨rfl, -⟩ | ⟨-, hfree, -⟩
      · rw [hw.free (List.ne_nil_of_mem hop)] at htaken
        cases htaken
      · exact ha
      · rw [hfree hn] at htaken
        cases htaken
    · simp only [step, Option.ite_none_right_eq_some, Option.some.injEq] at hs
      obtain ⟨-, rfl⟩ := hs
      exact hne hn

/-- The operation was accepted, and nobody is going to record it. -/
structure Doomed (s : State) (op : PlcOperation) : Prop where
  accepted : op ∈ s.accepted
  staged : s.row.staged = some op
  submitted : s.row.plcSubmittedAt = false
  nobody : ∀ p, s.answered p = none

theorem doomed_step (h : Inv s) (ho : Ops s) (hd : Doomed s op) (hs : step s a = some s') :
    Doomed s' op := by
  have he := step_effect h hs
  -- there is no other operation that PLC could still accept
  have hone : ∀ op', s.row.staged = some op' → op' ∈ s.accepted := by
    intro op' hst
    rw [hd.staged, Option.some.injEq] at hst
    exact hst ▸ hd.accepted
  refine ⟨he.accepted op hd.accepted, he.staged op hd.staged, ?_, fun p => ?_⟩
  · by_contra hsub
    rcases he.seals (by simpa using hsub) with hsub | ⟨p, op', hp⟩
    · rw [hd.submitted] at hsub
      cases hsub
    · rw [hd.nobody p] at hp
      cases hp
  · by_contra hne
    obtain ⟨op', hp⟩ := Option.ne_none_iff_exists'.mp hne
    rcases he.answered p op' hp with hp | ⟨hop', hnew⟩
    · rw [hd.nobody p] at hp
      cases hp
    · rcases he.accepts op' hop' with hop | ⟨-, hfly⟩ | ⟨hst, -⟩
      · exact hnew hop
      · exact hnew (hone op' (ho.inFlight op' hfly))
      · exact hnew (hone op' hst)

/-- Nobody is answered once the one who was has left. -/
theorem nobody_endProc {pr : Proc} (h : Inv s) (hp : s.procs p = some pr)
    (hsub : pr.inSubmit = true) (hprocs : s₁.procs = s.procs) (q : Nat) :
    (endProc s₁ p).answered q = none := by
  by_contra hne
  obtain ⟨op, hq⟩ := Option.ne_none_iff_exists'.mp hne
  by_cases heq : q = p
  · rw [heq] at hq
    cases answered_setProc_self.symm.trans hq
  · have hold : s.answered q = some op := by
      rw [← hq, endProc, answered_setProc_ne heq, State.answered, State.answered]
      exact congrArg (fun procs => (procs q).bind Proc.answered) hprocs.symm
    exact heq (h.answered_unique hp hsub hold)

theorem doomed_of_not_answered (h : Inv s) (ho : Ops s) (ha : ¬ Answered s a)
    (hs : step s a = some s') : ∃ op, Doomed s' op := by
  cases a with
  | plcAcceptsLate op =>
    simp only [step, Option.ite_none_right_eq_some, Option.some.injEq] at hs
    obtain ⟨⟨hfly, hnew⟩, rfl⟩ := hs
    have hstaged := ho.inFlight op hfly
    refine ⟨op, List.mem_cons_self .., hstaged, ?_, fun p => ?_⟩
    · by_contra hsub
      exact hnew (ho.sealed op (h.row.sealed (by simpa using hsub) hstaged))
    · by_contra hne
      obtain ⟨op', hp⟩ := Option.ne_none_iff_exists'.mp hne
      have heq := (h.of_answered hp).1.symm.trans hstaged
      rw [Option.some.injEq] at heq
      exact hnew (heq ▸ ho.answered p op' hp)
  | replyLost p =>
    simp only [Answered] at ha
    split at ha
    · rename_i op hp
      obtain ⟨hstaged, hstatus, hplain⟩ := h.procs p _ hp
      simp only [step, hp, if_pos hstatus] at hs
      cases hs
      exact ⟨op, ho.answered p op (answered_of_procs hp), hstaged, hplain.submitted,
        nobody_endProc h hp rfl rfl⟩
    · exact absurd trivial ha
  | stop p =>
    simp only [Answered] at ha
    split at ha
    · rename_i op hp
      obtain ⟨hstaged, hstatus, hplain⟩ := h.procs p _ hp
      simp only [step, hp, Option.map_some] at hs
      cases hs
      exact ⟨op, ho.answered p op (answered_of_procs hp), hstaged, hplain.submitted,
        nobody_endProc h hp rfl rfl⟩
    · rename_i op hp
      obtain ⟨hstaged, hstatus, hplain⟩ := h.procs p _ hp
      simp only [step, hp, Option.map_some] at hs
      cases hs
      exact ⟨op, ho.answered p op (answered_of_procs hp), hstaged, hplain.submitted,
        nobody_endProc h hp rfl rfl⟩
    · exact absurd trivial ha
  | _ => exact absurd trivial ha

/-! ## Safety -/

/-- A doomed request never gets its account. -/
theorem Doomed.not_safe (h : Inv s) (ho : Ops s) (hd : Doomed s op) : ¬ Safe s := by
  intro hsafe
  obtain ⟨bs, t, -, hr, hacc⟩ := hsafe.live op hd.accepted
  have hall : (Inv t ∧ Ops t) ∧ Doomed t op := by
    refine requests.run_inv (I := fun t => (Inv t ∧ Ops t) ∧ Doomed t op) ?_ ⟨⟨h, ho⟩, hd⟩ hr
    intro u a u' ⟨hu, hdoomed⟩ hs
    exact ⟨inv_and_ops_step hu hs, doomed_step hu.1 hu.2 hdoomed hs⟩
  obtain ⟨⟨hinv, -⟩, hdoomed⟩ := hall
  rw [(hinv.row.notSealed hdoomed.submitted).uncreated] at hacc
  cases hacc

/-- What the server and the user do leads to the account for `op`. -/
def Leads (s : State) (op : PlcOperation) : Prop :=
  ∃ bs t, (∀ b ∈ bs, b.own = true) ∧ requests.run s bs = some t ∧ t.account = some op

theorem Leads.step (ha : a.own = true) (hs : step s a = some s') (h : Leads s' op) : Leads s op := by
  obtain ⟨bs, t, hown, hr, hacc⟩ := h
  refine ⟨a :: bs, t, fun b hb => ?_, requests.run_cons_eq_some.mpr ⟨s', hs, hr⟩, hacc⟩
  rcases List.mem_cons.mp hb with rfl | hb
  · exact ha
  · exact hown b hb

theorem leads_of_materialize (hfree : s.usernameTaken = false)
    (hp : s.procs p = some (.marked op) ∨ s.procs p = some (.recreating op)) : Leads s op := by
  have hs : step s (.materializeAccount p) =
      some (setProc { s with account := some op } p (some .materialized)) := by
    rcases hp with hp | hp
    · simp only [Migration.step, hp, hfree, Bool.false_eq_true, if_false]
    · simp only [Migration.step, hp, hfree, Bool.false_eq_true, if_false]
  exact .step rfl hs ⟨[], _, nofun, rfl, rfl⟩

theorem leads_of_submitted (hfree : s.usernameTaken = false)
    (hp : s.procs p = some (.submitted op)) : Leads s op := by
  have hs : ∃ s', step s (.markPlcSubmitted p) = some s' ∧ s'.usernameTaken = false ∧
      s'.procs p = some (.marked op) := by
    simp only [Migration.step, hp]
    exact ⟨_, rfl, hfree, setProc_self⟩
  obtain ⟨s', hs, hfree', hp'⟩ := hs
  exact .step rfl hs (leads_of_materialize hfree' (.inl hp'))

theorem leads_of_answered (hfree : s.usernameTaken = false) (hp : s.answered p = some op) :
    Leads s op := by
  obtain ⟨pr, hpr, hans⟩ := Option.bind_eq_some_iff.mp hp
  unfold Proc.answered at hans
  split at hans
  · cases hans
    have hs : step s (.reply p) = some (setProc s p (some (.submitted op))) := by
      simp only [Migration.step, hpr]
    exact .step rfl hs (leads_of_submitted hfree setProc_self)
  · cases hans
    exact leads_of_submitted hfree hpr
  · cases hans

/-- `submit_plc_token` takes up the account creation. -/
theorem leads_of_sealed (h : Inv s) (hfree : s.usernameTaken = false)
    (hs : Sealed s.row s.account op) : Leads s op := by
  rcases hs.created with hnone | hmade
  · have hstatus : s.row.status = .submittingPlc := by
      by_contra hne
      rw [hs.confirmed hne] at hnone
      cases hnone
    obtain ⟨n, hn⟩ := h.bounded
    have hstep : step s (.submitToken n) = some (setProc s n (some (.recreating op))) := by
      simp only [Migration.step, hn n (Nat.le_refl n), hs.signing, hs.rotation, hstatus, if_true]
    exact .step rfl hstep (leads_of_materialize hfree (.inr setProc_self))
  · exact ⟨[], s, nofun, rfl, hmade⟩

theorem safe_of_waited (h : Inv s) (hw : Waited s) : Safe s := by
  have hstatus : ∀ op ∈ s.accepted, s.row.status.late = true := by
    intro op hop
    rcases hw.recorded op hop with hsealed | ⟨p, hp⟩
    · exact hsealed.status
    · rw [(h.of_answered hp).2.1]
      rfl
  refine ⟨fun op hop hfailed => ?_, fun op hop => ?_, fun op hop => ?_, fun op hop => ?_⟩
  · have hlate := hstatus op hop
    rw [hfailed] at hlate
    cases hlate
  · rcases hw.recorded op hop with hsealed | ⟨p, hp⟩
    · rw [canAbandon, hsealed.submitted]
      rfl
    · rw [canAbandon, (h.of_answered hp).2.1]
      simp
  · rcases hw.recorded op hop with hsealed | ⟨p, hp⟩
    · exact .inr ⟨hsealed.signing, hsealed.rotation⟩
    · exact .inl (h.of_answered hp).1
  · have hfree := hw.free (List.ne_nil_of_mem hop)
    rcases hw.recorded op hop with hsealed | ⟨p, hp⟩
    · exact leads_of_sealed h hfree hsealed
    · exact leads_of_answered hfree hp

theorem not_safe_of_taken (h : Inv s) (htaken : s.usernameTaken = true) (hnone : s.account = none)
    (hop : op ∈ s.accepted) : ¬ Safe s := by
  intro hsafe
  obtain ⟨bs, t, -, hr, hacc⟩ := hsafe.live op hop
  have hall : Inv t ∧ t.usernameTaken = true ∧ t.account = none := by
    refine requests.run_inv (I := fun t => Inv t ∧ t.usernameTaken = true ∧ t.account = none) ?_
      ⟨h, htaken, hnone⟩ hr
    intro u a u' ⟨hinv, htaken, hnone⟩ hs
    obtain ⟨htaken', hacc'⟩ := (step_effect hinv hs).taken htaken
    exact ⟨inv_step hinv hs, htaken', hacc'.trans hnone⟩
  rw [hall.2.2] at hacc
  cases hacc

theorem not_safe_of_not_kept (h : Inv s) (hn : ¬ NameKept s a) (hs : step s a = some s') :
    ¬ Safe s' := by
  have h' := inv_step h hs
  cases a with
  | takeUsername =>
    obtain ⟨op, hop⟩ := List.exists_mem_of_ne_nil _ hn
    simp only [step, Option.ite_none_right_eq_some, Option.some.injEq] at hs
    obtain ⟨hnone, rfl⟩ := hs
    exact not_safe_of_taken h' rfl hnone hop
  | plcAccepts p =>
    simp only [step] at hs
    split at hs
    · rename_i op hp
      simp only [Option.ite_none_right_eq_some, Option.some.injEq] at hs
      obtain ⟨-, rfl⟩ := hs
      have hnone : s.account = none := (h.procs p _ hp).2.2.uncreated
      have htaken : s.usernameTaken = true := by simpa [NameKept] using hn
      exact not_safe_of_taken h' htaken hnone (List.mem_cons_self ..)
    · cases hs
  | _ => exact absurd trivial hn

theorem safe_iff_answered {as : List Action} (hr : requests.run init as = some t) :
    (∀ bs cs s, as = bs ++ cs → requests.run init bs = some s → Safe s) ↔
      requests.Along (fun s a => Answered s a ∧ NameKept s a) init as := by
  refine ⟨fun h => ?_, fun ha bs cs s heq hrs => ?_⟩
  · refine requests.along_of_prefixes (I := fun s => Inv s ∧ Ops s) inv_and_ops_step
      (fun hu ha hs => ?_) ⟨inv_init, ops_init⟩ hr h
    rcases Classical.not_and_iff_not_or_not.mp ha with ha | hn
    · obtain ⟨op, hdoomed⟩ := doomed_of_not_answered hu.1 hu.2 ha hs
      have hnext := inv_and_ops_step hu hs
      exact hdoomed.not_safe hnext.1 hnext.2
    · exact not_safe_of_not_kept hu.1 hn hs
  · have hall : Inv s ∧ Waited s := by
      refine requests.run_inv_along (I := fun s => Inv s ∧ Waited s) ?_
        ⟨inv_init, nofun, fun _ => rfl⟩ (requests.along_append_left (heq ▸ ha)) hrs
      intro u a u' ⟨hinv, hwaited⟩ hua hs
      exact ⟨inv_step hinv hs, waited_step hinv hwaited hua.1 hua.2 hs⟩
    exact safe_of_waited hall.1 hall.2

/-- The process stops after `mark_plc_submitted`, and the user submits again. -/
def answeredRun : List Action :=
  [.fetchRepo 0, .fetched 0, .requestSignature 1, .signatureRequested 1, .submitToken 2,
    .stagePlcOperation 2 ⟨1, 2⟩, .claimDnsWait 3, .beginSubmit 3, .plcAccepts 3, .reply 3,
    .markPlcSubmitted 3, .stop 3, .submitToken 4, .materializeAccount 4]

theorem safe_iff_answered_example :
    ∃ t, requests.run init answeredRun = some t ∧ t.accepted = [⟨1, 2⟩] ∧
      ∀ bs cs s, answeredRun = bs ++ cs → requests.run init bs = some s → Safe s :=
  ⟨_, rfl, rfl, (@safe_iff_answered _ answeredRun rfl).mpr (by decide)⟩

/-! ## Requests that are lost -/

/-- The answer of PLC is lost. -/
def lostRun : List Action :=
  [.fetchRepo 0, .fetched 0, .requestSignature 1, .signatureRequested 1, .submitToken 2,
    .stagePlcOperation 2 ⟨1, 2⟩, .claimDnsWait 3, .beginSubmit 3, .plcAccepts 3, .replyLost 3]

/-- The operation is sent again, and PLC refuses it. -/
def resentRun : List Action := lostRun ++ [.claimDnsWait 4, .beginSubmit 4, .plcRejects 4, .reply 4]

theorem safe_counterexample :
    (∃ s, requests.run init lostRun = some s ∧ s.accepted = [⟨1, 2⟩] ∧ canAbandon s.row = true ∧
      ¬ Safe s) ∧
    ∃ s, requests.run init resentRun = some s ∧ s.accepted = [⟨1, 2⟩] ∧ s.row.status = .failed ∧
      ¬ Safe s := by
  refine ⟨⟨_, rfl, rfl, rfl, fun h => ?_⟩, ⟨_, rfl, rfl, rfl, fun h => ?_⟩⟩
  · cases h.notAbandonable ⟨1, 2⟩ (List.mem_singleton_self _)
  · exact h.notFailed ⟨1, 2⟩ (List.mem_singleton_self _) rfl

end Seiran.Migration
