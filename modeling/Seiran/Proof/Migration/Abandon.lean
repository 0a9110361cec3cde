import Seiran.Proof.Migration.Request

/-!
# Abandonment

An abandoned request stays so, without an account and without imports, until
the fetch job or the job that requests the signature writes its status: both
write it whatever the status is by then. The other steps are excluded by the
invariant (`ProcOk.notBegun`) or look at the status themselves
(`stagePlcOperation`, `beginSubmit`, `abandon`).
-/

namespace Seiran.Migration

/-- It is past `transition_status` to `submitting_plc`. -/
def Proc.begun : Proc → Bool
  | .submitting _ _ | .submitted _ | .marked _ | .recreating _ | .materialized | .importing
  | .deactivating => true
  | _ => false

/-- Whoever has begun to submit holds the request in a late status. -/
theorem ProcOk.notBegun {row : Row} {account : Option PlcOperation} {pr : Proc}
    (h : ProcOk row account pr) (hlate : row.status.late = false) : pr.begun = false := by
  have hnot : ∀ {op}, ¬ Sealed row account op := by
    intro op hs
    have hstatus := hs.status
    rw [hlate] at hstatus
    cases hstatus
  cases pr with
  | submitting op answer | submitted op =>
    rw [h.2.1] at hlate
    cases hlate
  | marked op | recreating op => exact absurd h hnot
  | materialized | importing | deactivating => exact absurd h.choose_spec.1 hnot
  | _ => rfl

section Steps

variable {s t : State} {p : Nat} {pr : Proc} {a : Action}

theorem Inv.notBegun (h : Inv s) (hst : s.row.status = .abandoned) (hp : s.procs p = some pr) :
    pr.begun = false :=
  (h.procs p pr hp).notBegun (by rw [hst]; rfl)

theorem startJob_abandoned {status : Status} (hst : s.row.status = .abandoned)
    (hne : status ≠ .abandoned) : startJob s p pr status = none := by
  rw [startJob, if_neg]
  rintro ⟨-, -, heq⟩
  exact hne (heq.symm.trans hst)

theorem ended_step (h : Inv s) (hst : s.row.status = .abandoned) (hu : Undisturbed s a)
    (hs : step s a = some t) : Ended s t := by
  -- none of the later phases exists
  have hbegun : ∀ {p pr}, pr.begun = true → s.procs p ≠ some pr := by
    intro p pr hpr hp
    rw [h.notBegun hst hp] at hpr
    cases hpr
  cases a with
  | fetched p | fetchFailed p | signatureRequested p => exact absurd hst hu
  | fetchRepo p | requestSignature p | importProcess p =>
    rw [step, startJob_abandoned hst (by decide)] at hs
    cases hs
  | plcAccepts p | plcRejects p | reply p | replyLost p | markPlcSubmitted p
  | materializeAccount p | confirmAccountCreated p | importRecord p | finishImport p
  | deactivated p =>
    simp only [step] at hs
    split at hs
    any_goals exact absurd ‹_› (hbegun rfl)
    cases hs
  | submitToken p =>
    simp only [step, hst, reduceCtorEq, if_false] at hs
    split at hs
    · split at hs <;> cases hs
    · cases hs
  | stagePlcOperation p op =>
    simp only [step, hst, reduceCtorEq, if_false] at hs
    split at hs <;> cases hs
    exact ⟨hst, rfl, rfl⟩
  | claimDnsWait p =>
    simp only [step, hst, reduceCtorEq, false_and, and_false, if_false] at hs
  | leaseExpires =>
    cases hs
    exact ⟨hst, rfl, rfl⟩
  | releaseDnsWait p =>
    simp only [step] at hs
    split at hs <;> cases hs
    exact ⟨hst, rfl, rfl⟩
  | beginSubmit p =>
    simp only [step, hst, reduceCtorEq, if_false] at hs
    split at hs <;> cases hs
    exact ⟨hst, rfl, rfl⟩
  | takeUsername | plcAcceptsLate op =>
    simp only [step, Option.ite_none_right_eq_some, Option.some.injEq] at hs
    obtain ⟨-, rfl⟩ := hs
    exact ⟨hst, rfl, rfl⟩
  | deactivateSource p =>
    simp only [step, hst, reduceCtorEq, and_false, if_false] at hs
  | readForAbandon p =>
    simp only [step, Option.ite_none_right_eq_some, Option.some.injEq] at hs
    obtain ⟨-, rfl⟩ := hs
    exact ⟨hst, rfl, rfl⟩
  | abandon p =>
    simp only [step] at hs
    split at hs
    · split at hs <;> cases hs
      · exact ⟨rfl, rfl, rfl⟩
      · exact ⟨hst, rfl, rfl⟩
    · cases hs
  | stop p =>
    obtain ⟨pr, -, rfl⟩ := Option.map_eq_some_iff.mp hs
    split <;> exact ⟨hst, rfl, rfl⟩

/-- A job that writes its status undoes the abandonment. -/
theorem not_ended_of_disturbed (hu : ¬ Undisturbed s a) (hs : step s a = some t) :
    t.row.status ≠ .abandoned := by
  cases a with
  | fetched p | fetchFailed p | signatureRequested p =>
    simp only [step] at hs
    split at hs <;> cases hs
    simp [endProc, setProc, setStatus]
  | _ => exact absurd trivial hu

end Steps

theorem inv_run {as : List Action} {s : State} (hr : requests.run init as = some s) : Inv s :=
  requests.run_inv inv_step inv_init hr

theorem Ended.trans {s t u : State} (h : Ended s t) (h' : Ended t u) : Ended s u :=
  ⟨h'.status, h'.account.trans h.account, h'.imported.trans h.imported⟩

theorem ended_run {s t : State} {bs : List Action} (h : Inv s) (hst : s.row.status = .abandoned)
    (hu : requests.Along Undisturbed s bs) (hr : requests.run s bs = some t) : Ended s t := by
  have hall : Inv t ∧ Ended s t := by
    refine requests.run_inv_along (I := fun t => Inv t ∧ Ended s t) ?_ ⟨h, hst, rfl, rfl⟩ hu hr
    intro u a u' ⟨hinv, hended⟩ hua hs
    exact ⟨inv_step hinv hs, hended.trans (ended_step hinv hended.status hua hs)⟩
  exact hall.2

theorem abandoned_final {as bs : List Action} {s t : State} (hr : requests.run init as = some s)
    (hst : s.row.status = .abandoned) (hr' : requests.run s bs = some t) :
    (∀ cs ds u, bs = cs ++ ds → requests.run s cs = some u → Ended s u) ↔
      requests.Along Undisturbed s bs := by
  refine ⟨fun h => ?_, fun hu cs ds u heq hru => ?_⟩
  · refine requests.along_of_prefixes inv_step (fun _ hu hs hended => ?_) (inv_run hr) hr' h
    exact not_ended_of_disturbed hu hs hended.status
  · subst heq
    exact ended_run (inv_run hr) hst (requests.along_append_left hu) hru

/-- The request is abandoned while the job fetches the repository. -/
def abandonRun : List Action := [.fetchRepo 0, .readForAbandon 1, .abandon 1]

/-- The fetch job ends without its write; the request is abandoned once more. -/
def quietRun : List Action := [.stop 0, .readForAbandon 2, .abandon 2]

theorem abandoned_final_example :
    ∃ s t, requests.run init abandonRun = some s ∧ s.row.status = .abandoned ∧
      requests.run s quietRun = some t ∧
      ∀ cs ds u, quietRun = cs ++ ds → requests.run s cs = some u → Ended s u :=
  ⟨_, _, rfl, rfl, rfl, (@abandoned_final abandonRun quietRun _ _ rfl rfl rfl).mpr (by decide)⟩

/-- The fetch job ends after the abandonment, and the migration goes on. -/
def revivedRun : List Action :=
  [.fetched 0, .requestSignature 2, .signatureRequested 2, .submitToken 3,
    .stagePlcOperation 3 ⟨1, 2⟩, .claimDnsWait 4, .beginSubmit 4, .plcAccepts 4, .reply 4,
    .markPlcSubmitted 4, .materializeAccount 4, .confirmAccountCreated 4, .importProcess 5,
    .importRecord 5]

theorem abandoned_final_counterexample :
    ∃ s t, requests.run init abandonRun = some s ∧ s.row.status = .abandoned ∧
      requests.run s revivedRun = some t ∧ t.row.status = .importingData ∧
      s.account = none ∧ t.account = some ⟨1, 2⟩ ∧ s.imported = 0 ∧ t.imported = 1 :=
  ⟨_, _, rfl, rfl, rfl, rfl, rfl, rfl, rfl, rfl⟩

end Seiran.Migration
