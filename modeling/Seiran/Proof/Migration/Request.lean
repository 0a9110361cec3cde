import Seiran.Model.Migration.Request

/-!
# What every reachable state of a migration request looks like

* `Plain`, `Sealed`: before and after `mark_plc_submitted`. A sealed row keeps
  its keys and never leaves the statuses from `submitting_plc` on;
* `ProcOk`: what a job, request or processor may rely on, while the others go on;
* `Inv`: all of it. Every step keeps it (`inv_step`).
-/

namespace Seiran.Migration

/-- The statuses in which no operation is staged. -/
def Status.early : Status → Bool
  | .fetchingRepo | .requestingPlcSignature | .awaitingPlcToken => true
  | _ => false

/-- The statuses from `submitting_plc` on. -/
def Status.late : Status → Bool
  | .submittingPlc | .importingData | .deactivatingSource | .completed => true
  | _ => false

/-- Nothing has happened yet that cannot be undone. -/
structure Plain (row : Row) (account : Option PlcOperation) : Prop where
  signing : row.newSigningKey = none
  rotation : row.newRotationKey = none
  submitted : row.plcSubmittedAt = false
  uncreated : account = none
  status : row.status.late = true → row.status = .submittingPlc

/-- The row after `mark_plc_submitted` for `op`. -/
structure Sealed (row : Row) (account : Option PlcOperation) (op : PlcOperation) : Prop where
  signing : row.newSigningKey = some op.signingKey
  rotation : row.newRotationKey = some op.rotationKey
  submitted : row.plcSubmittedAt = true
  staged : row.staged = some op
  status : row.status.late = true
  created : account = none ∨ account = some op
  confirmed : row.status ≠ .submittingPlc → account = some op

structure RowOk (row : Row) (account : Option PlcOperation) : Prop where
  phase : Plain row account ∨ ∃ op, Sealed row account op
  staged : ∀ op, row.staged = some op → row.status.early = false

def ProcOk (row : Row) (account : Option PlcOperation) : Proc → Prop
  | .fetching => (row.status = .fetchingRepo ∨ row.status = .abandoned) ∧ row.staged = none
  | .requesting => (row.status = .requestingPlcSignature ∨ row.status = .abandoned) ∧
      row.staged = none
  | .signing => True
  | .waiting op => row.staged = some op
  | .submitting op _ | .submitted op =>
    row.staged = some op ∧ row.status = .submittingPlc ∧ Plain row account
  | .marked op | .recreating op => Sealed row account op
  | .materialized | .importing | .deactivating => ∃ op, Sealed row account op ∧ account = some op
  | .abandoning status => status.late = false

/-- It holds the advisory lock. -/
def Proc.isJob : Proc → Bool
  | .fetching | .requesting | .importing => true
  | _ => false

/-- It is between `transition_status` to `submitting_plc` and `mark_plc_submitted`. -/
def Proc.inSubmit : Proc → Bool
  | .submitting _ _ | .submitted _ => true
  | _ => false

structure Inv (s : State) : Prop where
  row : RowOk s.row s.account
  procs : ∀ p pr, s.procs p = some pr → ProcOk s.row s.account pr
  holds : ∀ p pr, s.procs p = some pr → pr.isJob = true → s.lock = some p
  single : ∀ p q pr pr', s.procs p = some pr → s.procs q = some pr' → pr.inSubmit = true →
    pr'.inSubmit = true → p = q
  bounded : ∃ n, ∀ p, n ≤ p → s.procs p = none

theorem inv_init : Inv init where
  row := ⟨.inl ⟨rfl, rfl, rfl, rfl, nofun⟩, nofun⟩
  procs := nofun
  holds := nofun
  single := nofun
  bounded := ⟨0, fun _ _ => rfl⟩

section Rows

variable {row row' : Row} {account account' : Option PlcOperation} {op : PlcOperation} {pr : Proc}

theorem Plain.not_sealed (h : Plain row account) : ¬ Sealed row account op := by
  intro hs
  have hsub := hs.submitted
  rw [h.submitted] at hsub
  cases hsub

/-- While no operation is staged, nobody but the jobs depends on the row. -/
theorem ProcOk.unstaged (h : ProcOk row account pr) (hstaged : row.staged = none)
    (hjob : pr.isJob = false) : ProcOk row' account' pr := by
  cases pr with
  | fetching | requesting => cases hjob
  | signing => trivial
  | waiting op =>
    rw [ProcOk, hstaged] at h
    cases h
  | submitting op answer | submitted op =>
    rw [ProcOk, hstaged] at h
    cases h.1
  | marked op | recreating op =>
    have hs := h.staged
    rw [hstaged] at hs
    cases hs
  | materialized | importing | deactivating =>
    obtain ⟨op, hs, -⟩ := h
    have hs := hs.staged
    rw [hstaged] at hs
    cases hs
  | abandoning status => exact h

/-- A row that is not sealed changes its status, its keys or the account. -/
theorem ProcOk.plain (h : ProcOk row account pr) (hplain : Plain row account)
    (hstaged : row'.staged = row.staged) (hsub : pr.inSubmit = false)
    (hearly : row.staged = none → pr = .fetching ∨ pr = .requesting → ProcOk row' account' pr) :
    ProcOk row' account' pr := by
  cases pr with
  | fetching => exact hearly h.2 (.inl rfl)
  | requesting => exact hearly h.2 (.inr rfl)
  | signing => trivial
  | waiting op => exact hstaged.trans h
  | submitting op answer | submitted op => cases hsub
  | marked op | recreating op => exact absurd h hplain.not_sealed
  | materialized | importing | deactivating => exact absurd h.choose_spec.1 hplain.not_sealed
  | abandoning status => exact h

/-- A sealed row goes on. -/
theorem ProcOk.sealed (h : ProcOk row account pr) (hs : Sealed row account op)
    (hs' : Sealed row' account' op) (hacc : account = some op → account' = some op) :
    ProcOk row' account' pr := by
  -- the row names one operation
  have huniq : ∀ op', Sealed row account op' → op' = op := fun op' h' =>
    Option.some.inj (h'.staged.symm.trans hs.staged)
  cases pr with
  | fetching | requesting =>
    have hnone := h.2
    rw [hs.staged] at hnone
    cases hnone
  | signing => trivial
  | waiting op' => exact hs'.staged.trans (hs.staged.symm.trans h)
  | submitting op' answer | submitted op' => exact absurd hs h.2.2.not_sealed
  | marked op' | recreating op' =>
    rw [huniq op' h]
    exact hs'
  | materialized | importing | deactivating =>
    obtain ⟨op', hop', hmade⟩ := h
    rw [huniq op' hop'] at hmade
    exact ⟨op, hs', hacc hmade⟩
  | abandoning status => exact h

/-- A row that is not sealed gets a status outside the late ones. -/
theorem Plain.setStatus {status : Status} (h : Plain row account) (hlate : status.late = false) :
    Plain { row with status } account :=
  ⟨h.signing, h.rotation, h.submitted, h.uncreated, fun h' => by rw [hlate] at h'; cases h'⟩

theorem Sealed.setStatus {status : Status} (h : Sealed row account op) (hlate : status.late = true)
    (hacc : account = some op) : Sealed { row with status } account op :=
  ⟨h.signing, h.rotation, h.submitted, h.staged, hlate, h.created, fun _ => hacc⟩

theorem Sealed.rowOk (h : Sealed row account op) : RowOk row account where
  phase := .inr ⟨op, h⟩
  staged := fun _ _ => by
    have hlate := h.status
    revert hlate
    cases row.status <;> decide

theorem RowOk.plain (h : RowOk row account) (hlate : row.status.late = false) :
    Plain row account := by
  rcases h.phase with hplain | ⟨op, hs⟩
  · exact hplain
  · have hstatus := hs.status
    rw [hlate] at hstatus
    cases hstatus

/-- In an early status no operation is staged. -/
theorem RowOk.unstaged (h : RowOk row account) (hearly : row.status.early = true) :
    row.staged = none := by
  cases hst : row.staged with
  | none => rfl
  | some op =>
    have hnot := h.staged op hst
    rw [hearly] at hnot
    cases hnot

end Rows

section Updates

variable {s s' s₁ : State} {p : Nat} {pr : Proc}

/-- A step of `p`: its own next phase is in order, and the row it writes is in
order for the others. -/
theorem Inv.update (h : Inv s) (hprocs : ∀ q, q ≠ p → s'.procs q = s.procs q)
    (hrow : RowOk s'.row s'.account)
    (hself : ∀ pr, s'.procs p = some pr → ProcOk s'.row s'.account pr ∧
      (pr.isJob = true → s'.lock = some p) ∧
      (pr.inSubmit = true → ∀ q pr', q ≠ p → s.procs q = some pr' → pr'.inSubmit = false))
    (hothers : ∀ q pr, q ≠ p → s.procs q = some pr → ProcOk s'.row s'.account pr)
    (hlock : ∀ q, q ≠ p → s.lock = some q → s'.lock = some q) : Inv s' where
  row := hrow
  procs := fun q pr hq => by
    by_cases heq : q = p
    · subst heq
      exact (hself pr hq).1
    · rw [hprocs q heq] at hq
      exact hothers q pr heq hq
  holds := fun q pr hq hjob => by
    by_cases heq : q = p
    · subst heq
      exact (hself pr hq).2.1 hjob
    · rw [hprocs q heq] at hq
      exact hlock q heq (h.holds q pr hq hjob)
  single := fun q q' pr pr' hq hq' hsub hsub' => by
    by_cases heq : q = p <;> by_cases heq' : q' = p
    · rw [heq, heq']
    · subst heq
      rw [hprocs q' heq'] at hq'
      have hnot := (hself pr hq).2.2 hsub q' pr' heq' hq'
      rw [hsub'] at hnot
      cases hnot
    · subst heq'
      rw [hprocs q heq] at hq
      have hnot := (hself pr' hq').2.2 hsub' q pr heq hq
      rw [hsub] at hnot
      cases hnot
    · rw [hprocs q heq] at hq
      rw [hprocs q' heq'] at hq'
      exact h.single q q' pr pr' hq hq' hsub hsub'
  bounded := by
    obtain ⟨n, hn⟩ := h.bounded
    refine ⟨max n (p + 1), fun q hq => ?_⟩
    have hlt : p < q := by omega
    rw [hprocs q (by omega)]
    exact hn q (by omega)

theorem setProc_self {x : Option Proc} : (setProc s p x).procs p = x := Function.update_self ..

theorem setProc_ne {q : Nat} {x : Option Proc} (h : q ≠ p) :
    (setProc s p x).procs q = s.procs q := Function.update_of_ne h ..

/-- `p` ends, after it has perhaps written the row. -/
theorem Inv.endProc (h : Inv s) (hprocs : s₁.procs = s.procs) (hlock : s₁.lock = s.lock)
    (hrow : RowOk s₁.row s₁.account)
    (hothers : ∀ q pr, q ≠ p → s.procs q = some pr → ProcOk s₁.row s₁.account pr) :
    Inv (endProc s₁ p) := by
  refine h.update (p := p) (fun q hq => ?_) hrow (fun pr hpr => ?_) hothers (fun q hq hheld => ?_)
  · rw [Migration.endProc, setProc_ne hq]
    exact congrFun hprocs q
  · rw [Migration.endProc, setProc_self] at hpr
    cases hpr
  · show (if s₁.lock = some p then none else s₁.lock) = some q
    rw [hlock, hheld, if_neg (by simpa using hq)]

/-- `p` goes on to a phase that does not take the lock. -/
theorem Inv.setProc (h : Inv s) (hprocs : s₁.procs = s.procs) (hlock : s₁.lock = s.lock)
    (hrow : RowOk s₁.row s₁.account) (hpr : ProcOk s₁.row s₁.account pr) (hjob : pr.isJob = false)
    (hsub : pr.inSubmit = true → ∀ q pr', q ≠ p → s.procs q = some pr' → pr'.inSubmit = false)
    (hothers : ∀ q pr, q ≠ p → s.procs q = some pr → ProcOk s₁.row s₁.account pr) :
    Inv (setProc s₁ p (some pr)) := by
  refine h.update (p := p) (fun q hq => ?_) hrow (fun pr' hpr' => ?_) hothers (fun q hq hheld => ?_)
  · rw [setProc_ne hq]
    exact congrFun hprocs q
  · rw [setProc_self] at hpr'
    cases hpr'
    refine ⟨hpr, fun hjob' => ?_, hsub⟩
    rw [hjob] at hjob'
    cases hjob'
  · exact hlock.trans hheld

/-- `p` ends without a write to the row. -/
theorem Inv.leave (h : Inv s) (hprocs : s₁.procs = s.procs) (hlock : s₁.lock = s.lock)
    (hrow : s₁.row = s.row) (hacc : s₁.account = s.account) : Inv (Migration.endProc s₁ p) := by
  refine h.endProc hprocs hlock ?_ fun q pr _ hq => ?_
  · rw [hrow, hacc]
    exact h.row
  · rw [hrow, hacc]
    exact h.procs q pr hq

/-- `p` goes on, without a write to the row. -/
theorem Inv.goOn (h : Inv s) (hprocs : s₁.procs = s.procs) (hlock : s₁.lock = s.lock)
    (hrow : s₁.row = s.row) (hacc : s₁.account = s.account) (hpr : ProcOk s.row s.account pr)
    (hjob : pr.isJob = false)
    (hsub : pr.inSubmit = true → ∀ q pr', q ≠ p → s.procs q = some pr' → pr'.inSubmit = false) :
    Inv (Migration.setProc s₁ p (some pr)) := by
  refine h.setProc hprocs hlock ?_ ?_ hjob hsub fun q pr _ hq => ?_
  · rw [hrow, hacc]
    exact h.row
  · rw [hrow, hacc]
    exact hpr
  · rw [hrow, hacc]
    exact h.procs q pr hq

theorem inv_startJob {status : Status} (h : Inv s) (hpr : s.row.status = status →
    ProcOk s.row s.account pr) (hsub : pr.inSubmit = false)
    (hs : startJob s p pr status = some s') : Inv s' := by
  simp only [startJob, Option.ite_none_right_eq_some, Option.some.injEq] at hs
  obtain ⟨⟨-, hlock, hstatus⟩, rfl⟩ := hs
  refine h.update (p := p) (fun q hq => setProc_ne hq) h.row (fun pr' hpr' => ?_)
    (fun q pr' _ hq => h.procs q pr' hq) (fun q _ hheld => ?_)
  · rw [setProc_self] at hpr'
    cases hpr'
    refine ⟨hpr hstatus, fun _ => rfl, fun hsub' => ?_⟩
    rw [hsub] at hsub'
    cases hsub'
  · rw [hlock] at hheld
    cases hheld

/-- No other process holds the lock. -/
theorem Inv.notJob (h : Inv s) (hp : s.procs p = some pr) (hjob : pr.isJob = true) {q : Nat}
    {pr' : Proc} (hq : q ≠ p) (hq' : s.procs q = some pr') : pr'.isJob = false := by
  by_contra hne
  have hlock := h.holds q pr' hq' (by simpa using hne)
  rw [h.holds p pr hp hjob] at hlock
  exact hq (Option.some.inj hlock).symm

/-- No other process submits. -/
theorem Inv.notInSubmit (h : Inv s) (hp : s.procs p = some pr) (hsub : pr.inSubmit = true) {q : Nat}
    {pr' : Proc} (hq : q ≠ p) (hq' : s.procs q = some pr') : pr'.inSubmit = false := by
  by_contra hne
  exact hq (h.single q p pr' pr hq' hp (by simpa using hne) hsub)

/-- A job writes its status to a request for which no operation is staged. -/
theorem Inv.jobWrites {status : Status} (h : Inv s) (hp : s.procs p = some pr)
    (hjob : pr.isJob = true) (hstaged : s.row.staged = none) (hlate : status.late = false) :
    Inv (Migration.endProc (setStatus s status) p) := by
  have hplain : Plain s.row s.account := by
    rcases h.row.phase with hplain | ⟨op, hs⟩
    · exact hplain
    · have hst := hs.staged
      rw [hstaged] at hst
      cases hst
  refine h.endProc rfl rfl ⟨.inl (hplain.setStatus hlate), fun op hop => ?_⟩ fun q pr' hq hq' => ?_
  · rw [setStatus, hstaged] at hop
    cases hop
  · exact (h.procs q pr' hq').unstaged hstaged (h.notJob hp hjob hq hq')

/-- A processor that submits goes back or fails. -/
theorem Inv.leaveSubmit {status : Status} (h : Inv s) (hp : s.procs p = some pr)
    (hsub : pr.inSubmit = true) (hlate : status.late = false) (hearly : status.early = false)
    (hprocs : s₁.procs = s.procs) (hlock : s₁.lock = s.lock)
    (hrow : s₁.row = { s.row with status }) (hacc : s₁.account = s.account) :
    Inv (Migration.endProc s₁ p) := by
  have hok : ∃ op, s.row.staged = some op ∧ Plain s.row s.account := by
    have hpr := h.procs p pr hp
    cases pr with
    | submitting op answer | submitted op => exact ⟨op, hpr.1, hpr.2.2⟩
    | _ => cases hsub
  obtain ⟨op, hstaged, hplain⟩ := hok
  refine h.endProc hprocs hlock ?_ fun q pr' hq hq' => ?_
  · rw [hrow, hacc]
    exact ⟨.inl (hplain.setStatus hlate), fun _ _ => hearly⟩
  · rw [hrow, hacc]
    refine (h.procs q pr' hq').plain hplain rfl (h.notInSubmit hp hsub hq hq') fun hnone => ?_
    rw [hstaged] at hnone
    cases hnone

/-- A sealed request gets its next status. -/
theorem Inv.sealedWrites {status : Status} (h : Inv s) (hlate : status.late = true)
    (hs : ∃ op, Sealed s.row s.account op ∧ s.account = some op) :
    Inv (Migration.endProc (setStatus s status) p) := by
  obtain ⟨op, hs, hacc⟩ := hs
  have hs' : Sealed { s.row with status } s.account op := hs.setStatus hlate hacc
  exact h.endProc rfl rfl hs'.rowOk fun q pr _ hq => (h.procs q pr hq).sealed hs hs' fun hacc => hacc

attribute [local simp] step in
theorem inv_stagePlcOperation {op : PlcOperation} (h : Inv s)
    (hs : step s (.stagePlcOperation p op) = some s') : Inv s' := by
  simp only [step] at hs
  split at hs
  · rename_i hp
    split at hs <;> cases hs
    · rename_i hstatus
      have hstaged := h.row.unstaged (by rw [hstatus]; rfl)
      have hplain := h.row.plain (by rw [hstatus]; rfl)
      refine h.endProc rfl rfl ⟨.inl ?_, fun _ _ => rfl⟩ fun q pr _ hq => ?_
      · exact ⟨hplain.signing, hplain.rotation, hplain.submitted, hplain.uncreated, nofun⟩
      · have hok := h.procs q pr hq
        refine hok.unstaged hstaged ?_
        cases pr with
        | fetching | requesting =>
          rw [ProcOk, hstatus] at hok
          simp at hok
        | importing => exact absurd hok.choose_spec.1 hplain.not_sealed
        | _ => rfl
    · exact h.leave rfl rfl rfl rfl
  · cases hs

theorem inv_beginSubmit (h : Inv s) (hs : step s (.beginSubmit p) = some s') : Inv s' := by
  simp only [step] at hs
  split at hs
  · rename_i op hp
    have hstaged : s.row.staged = some op := h.procs p _ hp
    split at hs <;> cases hs
    · rename_i hstatus
      have hplain := h.row.plain (by rw [hstatus]; rfl)
      have hplain' : Plain { s.row with status := .submittingPlc } s.account :=
        ⟨hplain.signing, hplain.rotation, hplain.submitted, hplain.uncreated, fun _ => rfl⟩
      -- whoever submits has set the status before
      have hnone : ∀ q pr, s.procs q = some pr → pr.inSubmit = false := by
        intro q pr hq
        have hok := h.procs q pr hq
        cases pr with
        | submitting op' answer | submitted op' =>
          have hsub := hok.2.1
          rw [hstatus] at hsub
          cases hsub
        | _ => rfl
      refine h.setProc rfl rfl ⟨.inl hplain', fun _ _ => rfl⟩ ⟨hstaged, rfl, hplain'⟩ rfl
        (fun _ q pr' _ hq => hnone q pr' hq) fun q pr _ hq => ?_
      refine (h.procs q pr hq).plain hplain rfl (hnone q pr hq) fun hst => ?_
      rw [hstaged] at hst
      cases hst
    · exact h.leave rfl rfl rfl rfl
  · cases hs

theorem inv_reply (h : Inv s) (hs : step s (.reply p) = some s') : Inv s' := by
  simp only [step] at hs
  split at hs
  · rename_i op hp
    cases hs
    have hok : ProcOk s.row s.account (.submitted op) :=
      h.procs p (.submitting op (some true)) hp
    exact h.goOn rfl rfl rfl rfl hok rfl fun _ q pr' hq hq' => h.notInSubmit hp rfl hq hq'
  · rename_i op hp
    cases hs
    exact h.leaveSubmit hp rfl rfl rfl rfl rfl rfl rfl
  · cases hs

theorem inv_replyLost (h : Inv s) (hs : step s (.replyLost p) = some s') : Inv s' := by
  simp only [step] at hs
  split at hs
  · rename_i op answer hp
    have hstatus : s.row.status = .submittingPlc := (h.procs p _ hp).2.1
    rw [if_pos hstatus] at hs
    cases hs
    have hlate : Status.late .awaitingDnsTxt = false := rfl
    exact h.leaveSubmit hp rfl hlate rfl rfl rfl rfl rfl
  · cases hs

theorem inv_markPlcSubmitted (h : Inv s) (hs : step s (.markPlcSubmitted p) = some s') :
    Inv s' := by
  simp only [step] at hs
  split at hs
  · rename_i op hp
    cases hs
    obtain ⟨hstaged, -, hplain⟩ := h.procs p _ hp
    have hs' : Sealed { s.row with
        status := .submittingPlc
        newSigningKey := some op.signingKey
        newRotationKey := some op.rotationKey
        plcSubmittedAt := true } s.account op :=
      ⟨rfl, rfl, rfl, hstaged, rfl, .inl hplain.uncreated, fun hne => absurd rfl hne⟩
    refine h.setProc rfl rfl hs'.rowOk hs' rfl nofun fun q pr hq hq' => ?_
    refine (h.procs q pr hq').plain hplain rfl (h.notInSubmit hp rfl hq hq') fun hnone => ?_
    rw [hstaged] at hnone
    cases hnone
  · cases hs

theorem inv_materialize {keys : PlcOperation} (h : Inv s) (hsealed : Sealed s.row s.account keys)
    (hs : (if s.usernameTaken then some (Migration.endProc s p)
      else some (Migration.setProc { s with account := some keys } p (some .materialized))) =
        some s') : Inv s' := by
  split at hs <;> cases hs
  · exact h.leave rfl rfl rfl rfl
  · have hsealed' : Sealed s.row (some keys) keys :=
      ⟨hsealed.signing, hsealed.rotation, hsealed.submitted, hsealed.staged, hsealed.status,
        .inr rfl, fun _ => rfl⟩
    exact h.setProc rfl rfl hsealed'.rowOk ⟨keys, hsealed', rfl⟩ rfl nofun fun q pr _ hq =>
      (h.procs q pr hq).sealed hsealed hsealed' fun _ => rfl

theorem inv_submitToken (h : Inv s) (hs : step s (.submitToken p) = some s') : Inv s' := by
  simp only [step] at hs
  split at hs
  · split at hs
    · rename_i signingKey rotationKey hsigning hrotation
      split at hs <;> cases hs
      -- only a sealed row has keys
      rcases h.row.phase with hplain | ⟨op, hsealed⟩
      · rw [hplain.signing] at hsigning
        cases hsigning
      · rw [hsealed.signing, Option.some.injEq] at hsigning
        rw [hsealed.rotation, Option.some.injEq] at hrotation
        subst hsigning hrotation
        exact h.goOn rfl rfl rfl rfl hsealed rfl nofun
    · split at hs <;> cases hs
      exact h.goOn rfl rfl rfl rfl trivial rfl nofun
  · cases hs

theorem inv_readForAbandon (h : Inv s) (hs : step s (.readForAbandon p) = some s') : Inv s' := by
  simp only [step, Option.ite_none_right_eq_some, Option.some.injEq] at hs
  obtain ⟨⟨-, hcan⟩, rfl⟩ := hs
  simp only [canAbandon, Bool.and_eq_true, Bool.not_eq_true', bne_iff_ne] at hcan
  have hlate : s.row.status.late = false := by
    rcases h.row.phase with hplain | ⟨op, hsealed⟩
    · by_contra hne
      exact hcan.2 (hplain.status (by simpa using hne))
    · rw [hsealed.submitted] at hcan
      cases hcan.1
  exact h.goOn rfl rfl rfl rfl hlate rfl nofun

theorem inv_abandon (h : Inv s) (hs : step s (.abandon p) = some s') : Inv s' := by
  simp only [step] at hs
  split at hs
  · rename_i status hp
    have hlate : status.late = false := h.procs p _ hp
    split at hs <;> cases hs
    · rename_i hstatus
      have hplain := h.row.plain (by rwa [hstatus])
      refine h.endProc rfl rfl ⟨.inl (hplain.setStatus rfl), fun _ _ => rfl⟩ fun q pr _ hq => ?_
      have hok := h.procs q pr hq
      refine hok.plain hplain rfl ?_ fun hnone hjob => ?_
      · cases pr with
        | submitting op answer | submitted op =>
          have hsub := hok.2.1
          rw [hstatus] at hsub
          rw [hsub] at hlate
          cases hlate
        | _ => rfl
      · rcases hjob with rfl | rfl
        · exact ⟨.inr rfl, hnone⟩
        · exact ⟨.inr rfl, hnone⟩
    · exact h.leave rfl rfl rfl rfl
  · cases hs

theorem inv_step {a : Action} (h : Inv s) (hs : step s a = some s') : Inv s' := by
  cases a with
  | fetchRepo p =>
    have hok (hst : s.row.status = .fetchingRepo) : ProcOk s.row s.account .fetching :=
      ⟨.inl hst, h.row.unstaged (by rw [hst]; rfl)⟩
    exact inv_startJob h hok rfl hs
  | fetched p =>
    simp only [step] at hs
    split at hs <;> cases hs
    rename_i hp
    exact h.jobWrites hp rfl (h.procs p _ hp).2 rfl
  | fetchFailed p =>
    simp only [step] at hs
    split at hs <;> cases hs
    rename_i hp
    exact h.jobWrites hp rfl (h.procs p _ hp).2 rfl
  | requestSignature p =>
    have hok (hst : s.row.status = .requestingPlcSignature) : ProcOk s.row s.account .requesting :=
      ⟨.inl hst, h.row.unstaged (by rw [hst]; rfl)⟩
    exact inv_startJob h hok rfl hs
  | signatureRequested p =>
    simp only [step] at hs
    split at hs <;> cases hs
    rename_i hp
    exact h.jobWrites hp rfl (h.procs p _ hp).2 rfl
  | submitToken p => exact inv_submitToken h hs
  | stagePlcOperation p op => exact inv_stagePlcOperation h hs
  | claimDnsWait p =>
    simp only [step, Option.ite_none_right_eq_some] at hs
    obtain ⟨-, hs⟩ := hs
    obtain ⟨op, hop, rfl⟩ := Option.map_eq_some_iff.mp hs
    exact h.goOn rfl rfl rfl rfl hop rfl nofun
  | leaseExpires =>
    cases hs
    exact ⟨h.row, h.procs, h.holds, h.single, h.bounded⟩
  | releaseDnsWait p =>
    simp only [step] at hs
    split at hs <;> cases hs
    exact h.leave rfl rfl rfl rfl
  | beginSubmit p => exact inv_beginSubmit h hs
  | plcAccepts p =>
    simp only [step] at hs
    split at hs
    · rename_i op hp
      split at hs <;> cases hs
      have hok : ProcOk s.row s.account (.submitting op (some true)) :=
        h.procs p (.submitting op none) hp
      exact h.goOn rfl rfl rfl rfl hok rfl fun _ q pr' hq hq' => h.notInSubmit hp rfl hq hq'
    · cases hs
  | plcRejects p =>
    simp only [step] at hs
    split at hs <;> cases hs
    rename_i op hp
    have hok : ProcOk s.row s.account (.submitting op (some false)) :=
      h.procs p (.submitting op none) hp
    exact h.goOn rfl rfl rfl rfl hok rfl fun _ q pr' hq hq' => h.notInSubmit hp rfl hq hq'
  | plcAcceptsLate op =>
    simp only [step, Option.ite_none_right_eq_some, Option.some.injEq] at hs
    obtain ⟨-, rfl⟩ := hs
    exact ⟨h.row, h.procs, h.holds, h.single, h.bounded⟩
  | reply p => exact inv_reply h hs
  | replyLost p => exact inv_replyLost h hs
  | markPlcSubmitted p => exact inv_markPlcSubmitted h hs
  | takeUsername =>
    simp only [step, Option.ite_none_right_eq_some, Option.some.injEq] at hs
    obtain ⟨-, rfl⟩ := hs
    exact ⟨h.row, h.procs, h.holds, h.single, h.bounded⟩
  | materializeAccount p =>
    simp only [step] at hs
    split at hs
    · rename_i keys hp
      exact inv_materialize h (h.procs p _ hp) hs
    · rename_i keys hp
      exact inv_materialize h (h.procs p _ hp) hs
    · cases hs
  | confirmAccountCreated p =>
    simp only [step] at hs
    split at hs <;> cases hs
    rename_i hp
    exact h.sealedWrites rfl (h.procs p _ hp)
  | importProcess p =>
    refine inv_startJob h (fun hst => ?_) rfl hs
    rcases h.row.phase with hplain | ⟨op, hsealed⟩
    · have hsub := hplain.status (by rw [hst]; rfl)
      rw [hst] at hsub
      cases hsub
    · exact ⟨op, hsealed, hsealed.confirmed (by rw [hst]; decide)⟩
  | importRecord p =>
    simp only [step] at hs
    split at hs <;> cases hs
    exact h.leave rfl rfl rfl rfl
  | finishImport p =>
    simp only [step] at hs
    split at hs <;> cases hs
    rename_i hp
    exact h.sealedWrites rfl (h.procs p _ hp)
  | deactivateSource p =>
    simp only [step, Option.ite_none_right_eq_some, Option.some.injEq] at hs
    obtain ⟨⟨-, hst⟩, rfl⟩ := hs
    refine h.goOn rfl rfl rfl rfl ?_ rfl nofun
    rcases h.row.phase with hplain | ⟨op, hsealed⟩
    · have hsub := hplain.status (by rw [hst]; rfl)
      rw [hst] at hsub
      cases hsub
    · exact ⟨op, hsealed, hsealed.confirmed (by rw [hst]; decide)⟩
  | deactivated p =>
    simp only [step] at hs
    split at hs <;> cases hs
    rename_i hp
    exact h.sealedWrites rfl (h.procs p _ hp)
  | readForAbandon p => exact inv_readForAbandon h hs
  | abandon p => exact inv_abandon h hs
  | stop p =>
    obtain ⟨pr, -, rfl⟩ := Option.map_eq_some_iff.mp hs
    split
    · exact h.leave rfl rfl rfl rfl
    · exact h.leave rfl rfl rfl rfl

end Updates

end Seiran.Migration
