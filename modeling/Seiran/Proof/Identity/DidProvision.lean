import Seiran.Model.Identity.DidProvision

/-!
# The DID an account ends up with

* `Inv`: the rows and the processors' copies are consistent, and what a
  processor is about to confirm has been accepted by PLC. Every step keeps it
  (`inv_step`), so the DID and the keys of an account are always sound;
* `atDid_run`: the DID, once there, never changes;
* `Kept`: no DID that has lost a TXT record is the account's, or can become it.
  Careful steps keep it (`kept_step`).
-/

namespace Seiran.DidProvision

/-- The row's DID and keys are those of its genesis operation. -/
structure PendingDidRow.Ok (row : PendingDidRow) : Prop where
  did : row.atDid = ⟨row.genesisOp⟩
  signing : row.atSigningKey = row.genesisOp.signingKey
  rotation : row.atRotationKey = row.genesisOp.rotationKey

theorem prepare_ok (op : GenesisOp) : (prepare op).Ok := ⟨rfl, rfl, rfl⟩

structure Proc.Ok (accepted : List GenesisOp) (pr : Proc) : Prop where
  row : pr.row.Ok
  finalizing : pr.phase = .finalizing → pr.row.genesisOp ∈ accepted

structure Inv (s : State) : Prop where
  pending : ∀ row, s.pending = some row → row.Ok
  procs : ∀ p pr, s.procs p = some pr → pr.Ok s.accepted
  account : ∀ did, s.atDid = some did → did.genesis ∈ s.accepted ∧
    s.atSigningKey = some did.genesis.signingKey ∧ s.atRotationKey = some did.genesis.rotationKey

theorem inv_init (op : GenesisOp) : Inv (init op) where
  pending := by
    rintro _ ⟨⟩
    exact prepare_ok op
  procs := by simp [init]
  account := by simp [init]

section Steps

variable {s s' : State} {p : Nat} {pr : Proc}

theorem onProc_eq_some {f : Proc → Option State} :
    onProc s p f = some s' ↔ ∃ pr, s.procs p = some pr ∧ f pr = some s' :=
  Option.bind_eq_some_iff

theorem procs_setProc {q : Nat} {pr' : Proc} {x : Option Proc}
    (h : (setProc s p x).procs q = some pr') :
    (q = p ∧ x = some pr') ∨ (q ≠ p ∧ s.procs q = some pr') := by
  by_cases hq : q = p
  · subst hq
    simp only [setProc, Function.update_self] at h
    exact .inl ⟨rfl, h⟩
  · simp only [setProc, Function.update_of_ne hq] at h
    exact .inr ⟨hq, h⟩

theorem Inv.setProc (h : Inv s) {x : Option Proc} (hx : ∀ pr, x = some pr → pr.Ok s.accepted) :
    Inv (setProc s p x) where
  pending := h.pending
  procs := fun q pr' hq => by
    rcases procs_setProc hq with ⟨-, hx'⟩ | ⟨-, hq⟩
    · exact hx pr' hx'
    · exact h.procs q pr' hq
  account := h.account

theorem Inv.setPhase (h : Inv s) (hpr : pr.Ok s.accepted) {phase : Phase}
    (hphase : phase = .finalizing → pr.row.genesisOp ∈ s.accepted) :
    Inv (setPhase s p pr phase) :=
  h.setProc fun _ hpr' => by
    cases hpr'
    exact ⟨hpr.row, hphase⟩

theorem Inv.leave (h : Inv s) {phase : Phase} (hpr : pr.Ok s.accepted)
    (hphase : phase ≠ .finalizing) : Inv (DidProvision.setPhase s p pr phase) :=
  h.setPhase hpr fun heq => absurd heq hphase

/-- The row, if there is one, gets new values outside its DID. -/
theorem Inv.mapPending (h : Inv s) {f : PendingDidRow → PendingDidRow}
    (hf : ∀ row, row.Ok → (f row).Ok) : Inv { s with pending := s.pending.map f } where
  pending := fun row hrow => by
    obtain ⟨row', hrow', rfl⟩ := Option.map_eq_some_iff.mp hrow
    exact hf row' (h.pending row' hrow')
  procs := h.procs
  account := h.account

theorem inv_claim (h : Inv s) (hs : step s (.claim p) = some s') : Inv s' := by
  simp only [step] at hs
  split at hs
  · rename_i row _ hrow
    split at hs
    · cases hs
    · cases hs
      refine Inv.setProc (s := { s with locked := true }) ⟨h.pending, h.procs, h.account⟩ ?_
      rintro _ ⟨⟩
      exact ⟨h.pending row hrow, by simp⟩
  · cases hs

theorem inv_plcAccepts {op : GenesisOp} (h : Inv s) (hs : step s (.plcAccepts op) = some s') :
    Inv s' := by
  simp only [step, Option.ite_none_right_eq_some, Option.some.injEq] at hs
  obtain ⟨-, rfl⟩ := hs
  refine ⟨h.pending, fun q pr hq => ?_, fun did hdid => ?_⟩
  · obtain ⟨hrow, hfin⟩ := h.procs q pr hq
    exact ⟨hrow, fun hphase => List.mem_cons_of_mem _ (hfin hphase)⟩
  · obtain ⟨hacc, hkeys⟩ := h.account did hdid
    exact ⟨List.mem_cons_of_mem _ hacc, hkeys⟩

theorem inv_finalize (h : Inv s) (hs : step s (.finalize p) = some s') : Inv s' := by
  obtain ⟨pr, hp, hs⟩ := onProc_eq_some.mp hs
  have hpr := h.procs p pr hp
  simp only [Option.ite_none_right_eq_some] at hs
  obtain ⟨hphase, hs⟩ := hs
  split at hs <;> cases hs
  · apply Inv.leave
    rotate_left
    · exact hpr
    · simp
    refine ⟨nofun, h.procs, ?_⟩
    rintro _ ⟨⟩
    obtain ⟨hdid, hsig, hrot⟩ := hpr.row
    simp only [hdid, hsig, hrot, and_self, and_true]
    exact hpr.finalizing hphase
  · apply Inv.leave
    · exact ⟨nofun, h.procs, h.account⟩
    · exact hpr
    · simp

theorem inv_step {a : Action} (h : Inv s) (hs : step s a = some s') : Inv s' := by
  cases a with
  | leaseExpires =>
    cases hs
    exact ⟨h.pending, h.procs, h.account⟩
  | claim p => exact inv_claim h hs
  | createTxt p =>
    obtain ⟨pr, hp, hs⟩ := onProc_eq_some.mp hs
    simp only [Option.ite_none_right_eq_some, Option.some.injEq] at hs
    obtain ⟨-, rfl⟩ := hs
    apply Inv.leave
    · exact ⟨h.pending, h.procs, h.account⟩
    · exact h.procs p pr hp
    · simp
  | setTxtRecordId p =>
    obtain ⟨pr, hp, hs⟩ := onProc_eq_some.mp hs
    split at hs <;> cases hs
    apply Inv.leave
    · exact (h.mapPending fun row hrow => ⟨hrow.did, hrow.signing, hrow.rotation⟩)
    · exact h.procs p pr hp
    · simp
  | seeTxt p | wait p =>
    obtain ⟨pr, hp, hs⟩ := onProc_eq_some.mp hs
    simp only [Option.ite_none_right_eq_some, Option.some.injEq] at hs
    obtain ⟨-, rfl⟩ := hs
    exact h.leave (h.procs p pr hp) (by simp)
  | markTxtVisible p =>
    obtain ⟨pr, hp, hs⟩ := onProc_eq_some.mp hs
    simp only [Option.ite_none_right_eq_some, Option.some.injEq] at hs
    obtain ⟨-, rfl⟩ := hs
    apply Inv.leave
    · exact (h.mapPending fun row hrow => ⟨hrow.did, hrow.signing, hrow.rotation⟩)
    · exact h.procs p pr hp
    · simp
  | ready p cf =>
    obtain ⟨pr, hp, hs⟩ := onProc_eq_some.mp hs
    simp only [Option.ite_none_right_eq_some, Option.some.injEq] at hs
    obtain ⟨-, rfl⟩ := hs
    exact h.leave (h.procs p pr hp) (by simp)
  | plcDidExists p =>
    obtain ⟨pr, hp, hs⟩ := onProc_eq_some.mp hs
    have hpr := h.procs p pr hp
    split at hs <;> cases hs
    refine h.setPhase hpr fun hphase => ?_
    split at hphase
    · rename_i hacc
      rwa [hpr.row.did] at hacc
    · cases hphase
  | submit p =>
    obtain ⟨pr, hp, hs⟩ := onProc_eq_some.mp hs
    split at hs <;> cases hs
    apply Inv.leave
    · exact ⟨h.pending, h.procs, h.account⟩
    · exact h.procs p pr hp
    · simp
  | plcAccepts op => exact inv_plcAccepts h hs
  | reply p ok =>
    obtain ⟨pr, hp, hs⟩ := onProc_eq_some.mp hs
    split at hs
    · split at hs
      · simp only [Option.ite_none_right_eq_some, Option.some.injEq] at hs
        obtain ⟨hacc, rfl⟩ := hs
        exact h.setPhase (h.procs p pr hp) fun _ => hacc
      · cases hs
        exact h.leave (h.procs p pr hp) (by simp)
    · cases hs
  | deleteTxt p done =>
    obtain ⟨pr, hp, hs⟩ := onProc_eq_some.mp hs
    split at hs
    · split at hs
      · split at hs <;> cases hs
        · apply Inv.leave
          · exact ⟨h.pending, h.procs, h.account⟩
          · exact h.procs p pr hp
          · simp
        · exact h.leave (h.procs p pr hp) (by simp)
      · cases hs
        exact h.leave (h.procs p pr hp) (by simp)
    · cases hs
  | replaceGenesis p op =>
    obtain ⟨pr, hp, hs⟩ := onProc_eq_some.mp hs
    simp only [Option.ite_none_right_eq_some, Option.some.injEq] at hs
    obtain ⟨-, rfl⟩ := hs
    apply Inv.leave
    · exact (h.mapPending fun _ _ => prepare_ok op)
    · exact h.procs p pr hp
    · simp
  | finalize p => exact inv_finalize h hs
  | fail p =>
    obtain ⟨pr, hp, hs⟩ := onProc_eq_some.mp hs
    split at hs <;> cases hs
    exact h.leave (h.procs p pr hp) (by simp)
  | release p =>
    obtain ⟨pr, hp, hs⟩ := onProc_eq_some.mp hs
    simp only [Option.ite_none_right_eq_some, Option.some.injEq] at hs
    obtain ⟨-, rfl⟩ := hs
    exact Inv.setProc (s := { s with locked := false }) ⟨h.pending, h.procs, h.account⟩ (by simp)
  | crash p =>
    obtain ⟨pr, hp, hs⟩ := onProc_eq_some.mp hs
    cases hs
    exact h.setProc (by simp)

/-! ## What a step can do to the DID and the TXT records -/

/-- The DID is set only by a processor that is about to confirm it; a TXT
record is deleted only by a processor that makes its row anew; and a processor
that can still confirm a DID could before, or has just claimed its row. -/
structure Effect (s : State) (a : Action) (s' : State) : Prop where
  atDid : s'.atDid = s.atDid ∨ s.atDid = none ∧ ∃ p pr, s.procs p = some pr ∧
    pr.phase = .finalizing ∧ s'.atDid = some pr.row.atDid
  deleted : s'.deleted = s.deleted ∨ ∃ p pr r, a = .deleteTxt p true ∧ s.procs p = some pr ∧
    pr.phase = .regenerating true ∧ pr.row.cfTxtRecordId = some r ∧
    s'.deleted = (r, pr.row.atDid) :: s.deleted ∧ s'.atDid = s.atDid ∧
    s'.procs p = some { pr with phase := .replacing }
  procs : ∀ q pr', s'.procs q = some pr' → pr'.phase.mayFinalize = true →
    (∃ pr, s.procs q = some pr ∧ pr.row = pr'.row ∧ pr.phase.mayFinalize = true) ∨
      (a = .claim q ∧ s.pending = some pr'.row)

/-- A processor goes on, and nothing happens to the DID and the deleted records. -/
theorem effect_setPhase {s₁ : State} {a : Action} {phase : Phase} (hp : s.procs p = some pr)
    (hdid : s₁.atDid = s.atDid) (hdel : s₁.deleted = s.deleted) (hprocs : s₁.procs = s.procs)
    (hphase : phase.mayFinalize = true → pr.phase.mayFinalize = true) :
    Effect s a (setPhase s₁ p pr phase) where
  atDid := .inl hdid
  deleted := .inl hdel
  procs := fun q pr' hq hmay => by
    rcases procs_setProc hq with ⟨rfl, hpr'⟩ | ⟨-, hq⟩
    · cases hpr'
      exact .inl ⟨pr, hp, rfl, hphase hmay⟩
    · exact .inl ⟨pr', hprocs ▸ hq, rfl, hmay⟩

theorem effect_stop {s₁ : State} {a : Action} (hdid : s₁.atDid = s.atDid)
    (hdel : s₁.deleted = s.deleted) (hprocs : s₁.procs = s.procs) :
    Effect s a (setProc s₁ p none) where
  atDid := .inl hdid
  deleted := .inl hdel
  procs := fun q pr' hq hmay => by
    rcases procs_setProc hq with ⟨-, hpr'⟩ | ⟨-, hq⟩
    · cases hpr'
    · exact .inl ⟨pr', hprocs ▸ hq, rfl, hmay⟩

theorem effect_claim (hs : step s (.claim p) = some s') : Effect s (.claim p) s' := by
  simp only [step] at hs
  split at hs
  · rename_i row _ hrow
    split at hs <;> cases hs
    refine ⟨.inl rfl, .inl rfl, fun q pr' hq hmay => ?_⟩
    rcases procs_setProc hq with ⟨rfl, hpr'⟩ | ⟨-, hq⟩
    · cases hpr'
      exact .inr ⟨rfl, hrow⟩
    · exact .inl ⟨pr', hq, rfl, hmay⟩
  · cases hs

theorem effect_deleteTxt {done : Bool} (hs : step s (.deleteTxt p done) = some s') :
    Effect s (.deleteTxt p done) s' := by
  obtain ⟨pr, hp, hs⟩ := onProc_eq_some.mp hs
  split at hs
  · rename_i cf hphase
    split at hs
    · rename_i r hr
      split at hs <;> cases hs
      · rename_i hdone
        subst hdone
        refine ⟨.inl rfl, .inr ⟨p, pr, r, rfl, hp, hphase, hr, rfl, rfl, ?_⟩, fun q pr' hq hmay => ?_⟩
        · simp only [setPhase, setProc, Function.update_self]
        · rcases procs_setProc hq with ⟨-, hpr'⟩ | ⟨-, hq⟩
          · cases hpr'
            cases hmay
          · exact .inl ⟨pr', hq, rfl, hmay⟩
      · exact effect_setPhase hp rfl rfl rfl (by simp [Phase.mayFinalize])
    · cases hs
      exact effect_setPhase hp rfl rfl rfl (by simp [Phase.mayFinalize])
  · cases hs

theorem effect_finalize (hs : step s (.finalize p) = some s') : Effect s (.finalize p) s' := by
  obtain ⟨pr, hp, hs⟩ := onProc_eq_some.mp hs
  simp only [Option.ite_none_right_eq_some] at hs
  obtain ⟨hphase, hs⟩ := hs
  split at hs <;> cases hs
  · rename_i hnone
    have h : Effect s (.finalize p) (setPhase s p pr .releasing) :=
      effect_setPhase hp rfl rfl rfl (by simp [Phase.mayFinalize])
    exact ⟨.inr ⟨hnone, p, pr, hp, hphase, rfl⟩, .inl rfl, h.procs⟩
  · exact effect_setPhase hp rfl rfl rfl (by simp [Phase.mayFinalize])

theorem step_effect {a : Action} (hs : step s a = some s') : Effect s a s' := by
  cases a with
  | leaseExpires | plcAccepts op =>
    simp only [step, Option.ite_none_right_eq_some, Option.some.injEq] at hs
    first
    | subst hs
      exact ⟨.inl rfl, .inl rfl, fun q pr' hq hmay => .inl ⟨pr', hq, rfl, hmay⟩⟩
    | obtain ⟨-, rfl⟩ := hs
      exact ⟨.inl rfl, .inl rfl, fun q pr' hq hmay => .inl ⟨pr', hq, rfl, hmay⟩⟩
  | claim p => exact effect_claim hs
  | createTxt p | seeTxt p | wait p | markTxtVisible p | ready p cf | replaceGenesis p op =>
    obtain ⟨pr, hp, hs⟩ := onProc_eq_some.mp hs
    simp only [Option.ite_none_right_eq_some, Option.some.injEq] at hs
    obtain ⟨hphase, rfl⟩ := hs
    exact effect_setPhase hp rfl rfl rfl (by simp [Phase.mayFinalize, hphase])
  | setTxtRecordId p | plcDidExists p | submit p =>
    obtain ⟨pr, hp, hs⟩ := onProc_eq_some.mp hs
    split at hs <;> cases hs
    rename_i hphase
    exact effect_setPhase hp rfl rfl rfl (by simp [Phase.mayFinalize, hphase])
  | fail p =>
    obtain ⟨pr, hp, hs⟩ := onProc_eq_some.mp hs
    split at hs <;> cases hs
    exact effect_setPhase hp rfl rfl rfl (by simp [Phase.mayFinalize])
  | reply p ok =>
    obtain ⟨pr, hp, hs⟩ := onProc_eq_some.mp hs
    split at hs
    · rename_i cf hphase
      split at hs
      · simp only [Option.ite_none_right_eq_some, Option.some.injEq] at hs
        obtain ⟨-, rfl⟩ := hs
        exact effect_setPhase hp rfl rfl rfl (by simp [Phase.mayFinalize, hphase])
      · cases hs
        exact effect_setPhase hp rfl rfl rfl (by simp [Phase.mayFinalize])
    · cases hs
  | deleteTxt p done => exact effect_deleteTxt hs
  | finalize p => exact effect_finalize hs
  | release p =>
    obtain ⟨pr, hp, hs⟩ := onProc_eq_some.mp hs
    simp only [Option.ite_none_right_eq_some, Option.some.injEq] at hs
    obtain ⟨-, rfl⟩ := hs
    exact effect_stop rfl rfl rfl
  | crash p =>
    obtain ⟨pr, hp, hs⟩ := onProc_eq_some.mp hs
    cases hs
    exact effect_stop rfl rfl rfl

end Steps

/-- The DID of an account, once it is there, never changes. -/
theorem atDid_run {s t : State} {as : List Action} {did : Did} (hs : s.atDid = some did)
    (hr : machine.run s as = some t) : t.atDid = some did := by
  refine machine.run_inv (I := fun s => s.atDid = some did) (fun {s a s'} h hstep => ?_) hs hr
  rcases (step_effect hstep).atDid with heq | ⟨hnone, -⟩
  · exact heq.trans h
  · rw [h] at hnone
    cases hnone

/-! ## DIDs that have lost a TXT record -/

structure Kept (s : State) : Prop where
  account : ∀ r did, (r, did) ∈ s.deleted → s.atDid ≠ some did
  procs : ∀ r did, (r, did) ∈ s.deleted → ∀ q pr, s.procs q = some pr →
    pr.phase.mayFinalize = true → pr.row.atDid ≠ did

theorem kept_init (op : GenesisOp) : Kept (init op) :=
  ⟨by simp [init], by simp [init]⟩

theorem kept_step {s s' : State} {a : Action} (h : Kept s) (hc : Careful s a)
    (hs : step s a = some s') : Kept s' := by
  have he := step_effect hs
  rcases he.deleted with hdel | ⟨p, pr, r₀, rfl, hp, hphase, hr₀, hdel, hdid, hp'⟩
  · refine ⟨fun r did hr => ?_, fun r did hr q pr' hq hmay => ?_⟩
    · rw [hdel] at hr
      rcases he.atDid with heq | ⟨-, p, pr, hp, hphase, heq⟩
      · exact heq ▸ h.account r did hr
      · rw [heq]
        exact fun hd => h.procs r did hr p pr hp (by simp [hphase, Phase.mayFinalize])
          (Option.some.inj hd)
    · rw [hdel] at hr
      rcases he.procs q pr' hq hmay with ⟨pr, hp, hrow, hmay'⟩ | ⟨rfl, hrow⟩
      · exact hrow ▸ h.procs r did hr q pr hp hmay'
      · rintro rfl
        exact hc _ hrow r hr
  · obtain ⟨hne, hothers⟩ := hc pr hp hphase (by simp [hr₀])
    have hnew : ∀ q pr', s'.procs q = some pr' → pr'.phase.mayFinalize = true →
        pr'.row.atDid ≠ pr.row.atDid := by
      intro q pr' hq hmay
      by_cases hqp : q = p
      · subst hqp
        rw [hp'] at hq
        cases hq
        cases hmay
      · rcases he.procs q pr' hq hmay with ⟨pr₁, hp₁, hrow, hmay'⟩ | ⟨ha, -⟩
        · exact hrow ▸ hothers q pr₁ hqp hp₁ hmay'
        · cases ha
    refine ⟨fun r did hr => ?_, fun r did hr q pr' hq hmay => ?_⟩
    · rw [hdid]
      rw [hdel] at hr
      rcases List.mem_cons.mp hr with heq | hr
      · cases heq
        exact hne
      · exact h.account r did hr
    · rw [hdel] at hr
      rcases List.mem_cons.mp hr with heq | hr
      · cases heq
        exact hnew q pr' hq hmay
      · rcases he.procs q pr' hq hmay with ⟨pr₁, hp₁, hrow, hmay'⟩ | ⟨ha, -⟩
        · exact hrow ▸ h.procs r did hr q pr₁ hp₁ hmay'
        · cases ha

def exampleOp : GenesisOp := { signingKey := 1, rotationKey := 2 }

/-- A processor that nothing interrupts, on a server without Cloudflare. -/
def plainRun : List Action :=
  [.claim 0, .ready 0 false, .plcDidExists 0, .submit 0, .plcAccepts exampleOp, .reply 0 true,
    .finalize 0, .release 0]

/-- The TXT record is created, seen and saved. -/
def txtRun : List Action :=
  [.claim 0, .createTxt 0, .setTxtRecordId 0, .release 0, .claim 0, .seeTxt 0, .markTxtVisible 0,
    .release 0]

/-- The lease of processor 0 runs out while it is inside
`submit_plc_genesis_op`. Processor 1 sends the same operation again, gets an
error, and deletes the TXT record. -/
def leaseRun : List Action :=
  txtRun ++ [.claim 0, .ready 0 true, .plcDidExists 0, .submit 0, .leaseExpires, .claim 1,
    .ready 1 true, .plcDidExists 1, .submit 1, .plcAccepts exampleOp, .reply 1 false,
    .deleteTxt 1 true, .reply 0 true, .finalize 0]

/-- PLC accepts the operation but its answer is lost. The processor deletes the
TXT record and stops before it replaces the row. -/
def crashRun : List Action :=
  txtRun ++ [.claim 0, .ready 0 true, .plcDidExists 0, .submit 0, .plcAccepts exampleOp,
    .reply 0 false, .deleteTxt 0 true, .crash 0, .leaseExpires, .claim 1, .ready 1 true,
    .plcDidExists 1, .finalize 1]

end Seiran.DidProvision
