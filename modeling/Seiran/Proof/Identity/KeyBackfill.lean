import Mathlib.Data.List.Nodup
import Seiran.Model.Identity.KeyBackfill

/-!
# The keys after a backfill

* `Inv`: whatever is signed for a DID keeps the key of the server and the rest of the document.
  Every step keeps it (`inv_step`), so a run can always be made up for (`recoverable`);
* `Kept`: of the operations of a run that was alone, the one that was accepted is the last, and no
  request is on its way that the directory would take after it. Exclusive steps keep it
  (`kept_step`), so a stored key is the first one of its DID.
-/

namespace Seiran.KeyBackfill

/-- The document of the DID as it was made -/
def doc? (log : Nat → List Op) (id : Nat) : Option Doc := (log id).getLast?.map (·.doc)

/-- An operation as a run makes it -/
structure Op.Ok (log : Nat → List Op) (nextCid id : Nat) (op : Op) : Prop where
  keys : ∃ key, op.rotationKeys = [key, sharedKey]
  doc : doc? log id = some op.doc
  signer : op.signer = sharedKey
  cid : op.cid < nextCid
  prev : ∃ p, op.prev = some p ∧ p < op.cid

def Phase.Ok (log : Nat → List Op) (nextCid : Nat) : Phase → Prop
  | .scanning | .candidate _ => True
  | .data id currentData => doc? log id = some currentData
  | .prepared id op | .submitting id op | .submitted id op => op.Ok log nextCid id

/-- The accounts a run has counted, but not yet as done -/
def Phase.open : Phase → Nat
  | .scanning => 0
  | _ => 1

structure Inv (s : State) : Prop where
  log : ∀ {id op}, op ∈ s.log id →
    sharedKey ∈ op.rotationKeys ∧ doc? s.log id = some op.doc ∧ op.cid < s.nextCid
  flight : ∀ {id op}, (id, op) ∈ s.inFlight → op.Ok s.log s.nextCid id
  phase : ∀ {r run}, s.runs r = some run → run.phase.Ok s.log s.nextCid
  live : ∀ {r}, (s.runs r).isSome = true → r ∈ s.live
  rows : ∀ row ∈ s.rows, s.log row.id ≠ []
  count : ∀ {r run}, s.runs r = some run →
    run.processed = run.succeeded + run.failed + run.phase.open
  reports : ∀ run ∈ s.reports, run.processed = run.succeeded + run.failed

theorem inv_init (accounts : List (Nat × Bool)) (doc : Nat → Doc) : Inv (init accounts doc) where
  log := fun {id op} hop => by
    simp only [init] at hop
    split at hop
    · rename_i hid
      obtain rfl := List.mem_singleton.mp hop
      refine ⟨List.mem_singleton_self _, ?_, Nat.one_pos⟩
      simp only [doc?, init, if_pos hid, genesis, List.getLast?_singleton, Option.map_some]
    · cases hop
  flight := by simp [init]
  phase := by simp [init]
  live := by simp [init]
  rows := fun row hrow => by
    obtain ⟨a, ha, rfl⟩ := List.mem_map.mp hrow
    simp only [init]
    rw [if_pos (List.mem_map_of_mem ha)]
    simp
  count := by simp [init]
  reports := by simp [init]

section Steps

variable {s s' : State} {r q : Nat} {run : Run} {id : Nat} {op : Op}

theorem onRun_eq_some {f : Run → Option State} :
    onRun s r f = some s' ↔ ∃ run, s.runs r = some run ∧ f run = some s' :=
  Option.bind_eq_some_iff

theorem runs_setRun : (setRun s r run).runs q = if q = r then some run else s.runs q :=
  Function.update_apply ..

theorem runs_dropRun : (dropRun s r).runs q = if q = r then none else s.runs q :=
  Function.update_apply ..

section Growth

variable {log log' : Nat → List Op} {nextCid nextCid' : Nat}

theorem Op.Ok.mono (h : op.Ok log nextCid id)
    (hdoc : ∀ d, doc? log id = some d → doc? log' id = some d) (hcid : nextCid ≤ nextCid') :
    op.Ok log' nextCid' id :=
  ⟨h.keys, hdoc _ h.doc, h.signer, Nat.lt_of_lt_of_le h.cid hcid, h.prev⟩

theorem Phase.Ok.mono {phase : Phase} (h : phase.Ok log nextCid)
    (hdoc : ∀ id d, doc? log id = some d → doc? log' id = some d) (hcid : nextCid ≤ nextCid') :
    phase.Ok log' nextCid' := by
  cases phase with
  | scanning | candidate _ => trivial
  | data id d => exact hdoc id d h
  | prepared id op | submitting id op | submitted id op => exact Op.Ok.mono h (hdoc id) hcid

end Growth

/-- A run goes on. -/
theorem Inv.setRun (h : Inv s) (hr : s.runs r ≠ none) (hphase : run.phase.Ok s.log s.nextCid)
    (hcount : run.processed = run.succeeded + run.failed + run.phase.open) :
    Inv (setRun s r run) where
  log := h.log
  flight := h.flight
  phase := fun {q run'} hq => by
    rw [runs_setRun] at hq
    split at hq
    · cases hq
      exact hphase
    · exact h.phase hq
  live := fun {q} hq => by
    rw [runs_setRun] at hq
    split at hq
    · rename_i heq
      rw [heq]
      exact h.live (Option.isSome_iff_ne_none.mpr hr)
    · exact h.live hq
  rows := h.rows
  count := fun {q run'} hq => by
    rw [runs_setRun] at hq
    split at hq
    · cases hq
      exact hcount
    · exact h.count hq
  reports := h.reports

theorem Inv.dropRun (h : Inv s) : Inv (dropRun s r) where
  log := h.log
  flight := h.flight
  phase := fun hq => by
    rw [runs_dropRun] at hq
    split at hq
    · cases hq
    · exact h.phase hq
  live := fun {q} hq => by
    rw [runs_dropRun] at hq
    split at hq
    · cases hq
    · rename_i hne
      exact List.mem_filter.mpr ⟨h.live hq, decide_eq_true hne⟩
  rows := h.rows
  count := fun hq => by
    rw [runs_dropRun] at hq
    split at hq
    · cases hq
    · exact h.count hq
  reports := h.reports

theorem Inv.endRun (h : Inv s) (hr : s.runs r = some run) (hphase : run.phase = .scanning) :
    Inv (endRun s r run) := by
  have hd := h.dropRun (r := r)
  refine ⟨hd.log, hd.flight, hd.phase, hd.live, hd.rows, hd.count, fun run' hrun' => ?_⟩
  rcases List.mem_cons.mp hrun' with rfl | hrun'
  · have hcount := h.count hr
    rwa [hphase] at hcount
  · exact h.reports run' hrun'

theorem Inv.scanOn (h : Inv s) (hr : s.runs r = some run) (hopen : run.phase.open = 1) :
    Inv (succeed s r run) ∧ Inv (failOne s r run) := by
  have hcount := h.count hr
  rw [hopen] at hcount
  have hne : s.runs r ≠ none := by simp [hr]
  refine ⟨h.setRun hne trivial ?_, h.setRun hne trivial ?_⟩
  · simp only [Phase.open, hcount]
    omega
  · simp only [Phase.open, hcount]
    omega

theorem Inv.setPhase {phase : Phase} (h : Inv s) (hr : s.runs r = some run)
    (hphase : phase.Ok s.log s.nextCid) (hopen : phase.open = run.phase.open) : Inv (setPhase s r run phase) := by
  refine h.setRun (by simp [hr]) hphase ?_
  change run.processed = run.succeeded + run.failed + phase.open
  rw [hopen]
  exact h.count hr

/-- What all runs see of a state grows. -/
theorem Inv.grow (h : Inv s) (hruns : s'.runs = s.runs) (hlive : s'.live = s.live)
    (hreports : s'.reports = s.reports) (hcid : s.nextCid ≤ s'.nextCid)
    (hdoc : ∀ id d, doc? s.log id = some d → doc? s'.log id = some d)
    (hlog : ∀ {id op}, op ∈ s'.log id → op ∈ s.log id ∨
      (sharedKey ∈ op.rotationKeys ∧ doc? s'.log id = some op.doc ∧ op.cid < s'.nextCid))
    (hflight : ∀ {id op}, (id, op) ∈ s'.inFlight → (id, op) ∈ s.inFlight ∨ op.Ok s'.log s'.nextCid id)
    (hrows : ∀ row ∈ s'.rows, s'.log row.id ≠ []) : Inv s' where
  log := fun hop => by
    rcases hlog hop with hop | hop
    · obtain ⟨hkey, hd, hc⟩ := h.log hop
      exact ⟨hkey, hdoc _ _ hd, Nat.lt_of_lt_of_le hc hcid⟩
    · exact hop
  flight := fun hop => by
    rcases hflight hop with hop | hop
    · exact (h.flight hop).mono (hdoc _) hcid
    · exact hop
  phase := fun hr => by
    rw [hruns] at hr
    exact (h.phase hr).mono hdoc hcid
  live := fun hr => by
    rw [hruns] at hr
    rw [hlive]
    exact h.live hr
  rows := hrows
  count := fun hr => by
    rw [hruns] at hr
    exact h.count hr
  reports := fun run hrun => by
    rw [hreports] at hrun
    exact h.reports run hrun

theorem valid_iff {log : List Op} :
    valid log op = true ↔ ∃ last, log.head? = some last ∧ op.prev = some last.cid ∧
      op.signer ∈ last.rotationKeys := by
  cases log with
  | nil => simp [valid]
  | cons last log => simp [valid]

/-- The state after the directory took an operation -/
def accepted (s : State) (id : Nat) (op : Op) : State :=
  { s with log := Function.update s.log id (op :: s.log id) }

theorem log_accepted {id' : Nat} :
    (accepted s id op).log id' = if id' = id then op :: s.log id else s.log id' :=
  Function.update_apply ..

theorem doc?_accepted (op : Op) (hne : s.log id ≠ []) (id' : Nat) :
    doc? (accepted s id op).log id' = doc? s.log id' := by
  simp only [doc?, log_accepted]
  split
  · rename_i heq
    rw [heq, List.getLast?_cons, List.getLast?_eq_some_getLast hne]
    rfl
  · rfl

theorem arrive_eq_some : step s (.arrive id op) = some s' ↔ (id, op) ∈ s.inFlight ∧
    s' = { (if valid (s.log id) op = true then accepted s id op else s) with
      inFlight := s.inFlight.erase (id, op) } := by
  simp only [step, Option.ite_none_right_eq_some, Option.some.injEq]
  refine and_congr_right fun _ => ?_
  rw [eq_comm]
  split <;> rfl

theorem inv_arrive (h : Inv s) (hs : step s (.arrive id op) = some s') : Inv s' := by
  obtain ⟨hmem, rfl⟩ := arrive_eq_some.mp hs
  have hop := h.flight hmem
  split
  · rename_i hvalid
    obtain ⟨last, hlast, -⟩ := valid_iff.mp hvalid
    have hne : s.log id ≠ [] := by
      intro hnil
      rw [hnil] at hlast
      cases hlast
    have hdoc := doc?_accepted op hne
    refine h.grow rfl rfl rfl (Nat.le_refl _) (fun id' d hd => (hdoc id').trans hd)
      (fun {id' op'} hop' => ?_) (fun hop' => .inl (List.mem_of_mem_erase hop')) fun row hrow => ?_
    · change op' ∈ (accepted s id op).log id' at hop'
      rw [log_accepted] at hop'
      split at hop'
      · subst_vars
        rcases List.mem_cons.mp hop' with rfl | hop'
        · obtain ⟨key, hkey⟩ := hop.keys
          refine .inr ⟨?_, (hdoc _).trans hop.doc, hop.cid⟩
          rw [hkey]
          simp
        · exact .inl hop'
      · exact .inl hop'
    · change (accepted s id op).log row.id ≠ []
      rw [log_accepted]
      split
      · simp
      · exact h.rows row hrow
  · exact h.grow rfl rfl rfl (Nat.le_refl _) (fun _ _ hd => hd) (fun hop' => .inl hop')
      (fun hop' => .inl (List.mem_of_mem_erase hop')) h.rows

theorem inv_register {doc : Doc} (h : Inv s) (hs : step s (.register id doc) = some s') :
    Inv s' := by
  simp only [step, Option.ite_none_right_eq_some, Option.some.injEq] at hs
  obtain ⟨⟨hnil, hnew⟩, rfl⟩ := hs
  have hlog : ∀ id', Function.update s.log id [genesis s.nextCid [s.nextKey, sharedKey] doc] id' =
      if id' = id then [genesis s.nextCid [s.nextKey, sharedKey] doc] else s.log id' :=
    fun id' => Function.update_apply ..
  refine h.grow rfl rfl rfl (Nat.le_succ _) (fun id' d hd => ?_) (fun {id' op} hop => ?_)
    (fun hop => .inl hop) fun row hrow => ?_
  · simp only [doc?, hlog]
    split
    · subst_vars
      simp [doc?, hnil] at hd
    · exact hd
  · simp only [hlog] at hop
    split at hop
    · subst_vars
      obtain rfl := List.mem_singleton.mp hop
      refine .inr ⟨by simp [genesis], ?_, Nat.lt_succ_self _⟩
      simp [doc?, genesis]
    · exact .inl hop
  · simp only [hlog]
    split
    · simp
    · rename_i hne
      rcases List.mem_append.mp hrow with hrow | hrow
      · exact h.rows row hrow
      · rw [List.mem_singleton.mp hrow] at hne
        exact absurd rfl hne

theorem Inv.doc_of_head (h : Inv s) {last : Op} (hlast : (s.log id).head? = some last) :
    doc? s.log id = some last.doc := (h.log (List.mem_of_head? hlast)).2.1

/-- The operation a run makes for an account -/
def made (s : State) (d : Doc) (last : Op) : Op :=
  preparePlcRotationUpdate s.nextCid d last.cid [s.nextKey, sharedKey] none none none sharedKey

/-- The keys and hashes that are used up -/
def withMade (s : State) : State := { s with nextKey := s.nextKey + 1, nextCid := s.nextCid + 1 }

theorem getAudit_eq_some : step s (.getAudit r) = some s' ↔ ∃ run, s.runs r = some run ∧
    ∃ id d last, run.phase = .data id d ∧ (s.log id).head? = some last ∧
      s' = setPhase (withMade s) r run (.prepared id (made s d last)) := by
  simp only [step, onRun_eq_some]
  refine exists_congr fun run => and_congr_right fun _ => ?_
  constructor
  · intro h
    split at h
    · rename_i id d hphase
      obtain ⟨last, hlast, rfl⟩ := Option.map_eq_some_iff.mp h
      exact ⟨id, d, last, hphase, hlast, rfl⟩
    · cases h
  · rintro ⟨id, d, last, hphase, hlast, rfl⟩
    rw [hphase]
    exact Option.map_eq_some_iff.mpr ⟨last, hlast, rfl⟩

theorem Inv.made (h : Inv s) {d : Doc} {last : Op} (hd : doc? s.log id = some d)
    (hlast : (s.log id).head? = some last) : (made s d last).Ok s.log (s.nextCid + 1) id where
  keys := ⟨s.nextKey, rfl⟩
  doc := hd
  signer := rfl
  cid := Nat.lt_succ_self _
  prev := ⟨last.cid, rfl, (h.log (List.mem_of_head? hlast)).2.2⟩

theorem Inv.withMade (h : Inv s) : Inv (withMade s) :=
  h.grow rfl rfl rfl (Nat.le_succ _) (fun _ _ hd => hd) (fun hop => .inl hop) (fun hop => .inl hop)
    h.rows

theorem inv_step {a : Action} (h : Inv s) (hs : step s a = some s') : Inv s' := by
  cases a with
  | start r dryRun =>
    simp only [step] at hs
    split at hs <;> cases hs
    rename_i hnone
    refine ⟨h.log, h.flight, fun {q run} hq => ?_, fun {q} hq => ?_, h.rows, fun {q run} hq => ?_,
      h.reports⟩
    · rw [runs_setRun] at hq
      split at hq
      · cases hq
        trivial
      · exact h.phase hq
    · rw [runs_setRun] at hq
      split at hq
      · rename_i heq
        rw [heq]
        exact List.mem_cons_self
      · exact List.mem_cons_of_mem _ (h.live hq)
    · rw [runs_setRun] at hq
      split at hq
      · cases hq
        rfl
      · exact h.count hq
  | candidate r =>
    obtain ⟨run, hr, hs⟩ := onRun_eq_some.mp hs
    simp only [Option.ite_none_right_eq_some] at hs
    obtain ⟨hphase, hs⟩ := hs
    split at hs <;> cases hs
    · refine h.setRun (by simp [hr]) trivial ?_
      have hcount := h.count hr
      rw [hphase] at hcount
      simp only [Phase.open] at hcount ⊢
      omega
    · exact h.endRun hr hphase
  | scanFails r =>
    obtain ⟨run, hr, hs⟩ := onRun_eq_some.mp hs
    simp only [Option.ite_none_right_eq_some, Option.some.injEq] at hs
    obtain ⟨hphase, rfl⟩ := hs
    exact h.endRun hr hphase
  | getData r =>
    obtain ⟨run, hr, hs⟩ := onRun_eq_some.mp hs
    split at hs
    · rename_i id hphase
      obtain ⟨last, hlast, rfl⟩ := Option.map_eq_some_iff.mp hs
      exact h.setPhase hr (h.doc_of_head hlast) (by rw [hphase]; rfl)
    · cases hs
  | getAudit r =>
    obtain ⟨run, hr, id, d, last, hphase, hlast, rfl⟩ := getAudit_eq_some.mp hs
    have hd : doc? s.log id = some d := by
      have := h.phase hr
      rwa [hphase] at this
    exact h.withMade.setPhase hr (h.made hd hlast) (by rw [hphase]; rfl)
  | fetchFails r =>
    obtain ⟨run, hr, hs⟩ := onRun_eq_some.mp hs
    split at hs <;> cases hs
    · exact (h.scanOn hr (by simp [*, Phase.open])).2
    · exact (h.scanOn hr (by simp [*, Phase.open])).2
  | logOnly r =>
    obtain ⟨run, hr, hs⟩ := onRun_eq_some.mp hs
    split at hs
    · simp only [Option.ite_none_right_eq_some, Option.some.injEq] at hs
      obtain ⟨-, rfl⟩ := hs
      exact (h.scanOn hr (by simp [*, Phase.open])).1
    · cases hs
  | submit r =>
    obtain ⟨run, hr, hs⟩ := onRun_eq_some.mp hs
    split at hs
    · rename_i id op hphase
      split at hs <;> cases hs
      have hop : op.Ok s.log s.nextCid id := by
        have := h.phase hr
        rwa [hphase] at this
      have hsent : Inv { s with inFlight := (id, op) :: s.inFlight } := by
        refine h.grow rfl rfl rfl (Nat.le_refl _) (fun _ _ hd => hd) (fun hop => .inl hop)
          (fun hop' => ?_) h.rows
        rcases List.mem_cons.mp hop' with heq | hop'
        · cases heq
          exact .inr hop
        · exact .inl hop'
      exact hsent.setPhase hr hop (by rw [hphase]; rfl)
    · cases hs
  | arrive id op => exact inv_arrive h hs
  | reply r ok =>
    obtain ⟨run, hr, hs⟩ := onRun_eq_some.mp hs
    split at hs
    · rename_i id op hphase
      have hop : op.Ok s.log s.nextCid id := by
        have := h.phase hr
        rwa [hphase] at this
      split at hs
      · simp only [Option.ite_none_right_eq_some, Option.some.injEq] at hs
        obtain ⟨-, rfl⟩ := hs
        exact h.setPhase hr hop (by rw [hphase]; rfl)
      · cases hs
        exact (h.scanOn hr (by rw [hphase]; rfl)).2
    · cases hs
  | mark r ok =>
    obtain ⟨run, hr, hs⟩ := onRun_eq_some.mp hs
    split at hs
    · rename_i id op hphase
      split at hs <;> cases hs
      · have hrows : Inv { s with rows := markBackfilled s.rows id (op.rotationKeys.headD sharedKey) } := by
          refine h.grow rfl rfl rfl (Nat.le_refl _) (fun _ _ hd => hd) (fun hop => .inl hop)
            (fun hop => .inl hop) fun row hrow => ?_
          obtain ⟨row', hrow', rfl⟩ := List.mem_map.mp hrow
          have hne := h.rows row' hrow'
          split
          · exact hne
          · exact hne
        exact (hrows.scanOn hr (by rw [hphase]; rfl)).1
      · exact (h.scanOn hr (by rw [hphase]; rfl)).2
    · cases hs
  | crash r =>
    obtain ⟨run, hr, hs⟩ := onRun_eq_some.mp hs
    cases hs
    exact h.dropRun
  | register id doc => exact inv_register h hs
  | withdraw id =>
    cases hs
    refine h.grow rfl rfl rfl (Nat.le_refl _) (fun _ _ hd => hd) (fun hop => .inl hop)
      (fun hop => .inl hop) fun row hrow => ?_
    obtain ⟨row', hrow', rfl⟩ := List.mem_map.mp hrow
    have hne := h.rows row' hrow'
    split
    · exact hne
    · exact hne

end Steps

/-! ## Runs that are alone -/

/-- The account a run is at -/
def Phase.id? : Phase → Option Nat
  | .scanning => none
  | .candidate id | .data id _ | .prepared id _ | .submitting id _ | .submitted id _ => some id

/-- The operation a run has made -/
def Phase.op? : Phase → Option (Nat × Op)
  | .prepared id op | .submitting id op | .submitted id op => some (id, op)
  | _ => none

/-- No request is on its way that the directory would take after the operation. -/
def Undisputed (inFlight : List (Nat × Op)) (id : Nat) (op : Op) : Prop :=
  ∀ op', (id, op') ∈ inFlight → op'.prev ≠ some op.cid

structure Kept (s : State) : Prop where
  alone : ∀ {r q}, s.runs r ≠ none → s.runs q ≠ none → r = q
  nodup : (s.rows.map (·.id)).Nodup
  known : ∀ {r run id}, s.runs r = some run → run.phase.id? = some id → id ∈ s.rows.map (·.id)
  made : ∀ {r run id op}, s.runs r = some run → run.phase.op? = some (id, op) →
    Undisputed s.inFlight id op ∧ (op ∈ s.log id → (s.log id).head? = some op)
  done : ∀ {r run id op}, s.runs r = some run → run.phase = .submitted id op →
    (s.log id).head? = some op
  stored : ∀ {row key}, row ∈ s.rows → row.atRotationKeyPem = some key →
    ∃ last, (s.log row.id).head? = some last ∧ last.rotationKeys = [key, sharedKey] ∧
      Undisputed s.inFlight row.id last
  idle : ∀ {r run row key}, s.runs r = some run → row ∈ s.rows →
    row.atRotationKeyPem = some key → run.phase.id? ≠ some row.id

theorem kept_init {accounts : List (Nat × Bool)} {doc : Nat → Doc}
    (hids : (accounts.map (·.1)).Nodup) : Kept (init accounts doc) where
  alone := by simp [init]
  nodup := by
    simp only [init, List.map_map]
    exact hids
  known := by simp [init]
  made := by simp [init]
  done := by simp [init]
  stored := fun hrow hkey => by
    obtain ⟨a, -, rfl⟩ := List.mem_map.mp hrow
    cases hkey
  idle := by simp [init]

section KeptSteps

variable {s s' : State} {r q : Nat} {run run' : Run} {id : Nat} {op : Op}

/-- The only run goes on, with the account it is at. -/
theorem Kept.setRun (h : Kept s) (hr : s.runs r ≠ none)
    (hknown : ∀ id, run.phase.id? = some id → id ∈ s.rows.map (·.id))
    (hmade : ∀ id op, run.phase.op? = some (id, op) →
      Undisputed s.inFlight id op ∧ (op ∈ s.log id → (s.log id).head? = some op))
    (hdone : ∀ id op, run.phase = .submitted id op → (s.log id).head? = some op)
    (hidle : ∀ row ∈ s.rows, ∀ key, row.atRotationKeyPem = some key →
      run.phase.id? ≠ some row.id) : Kept (setRun s r run) := by
  have hrun : ∀ {q run'}, (KeyBackfill.setRun s r run).runs q = some run' → run' = run := by
    intro q run' hq
    rw [runs_setRun] at hq
    split at hq
    · cases hq
      rfl
    · rename_i hne
      exact absurd (h.alone (by simp [hq]) hr) hne
  have honly : ∀ {q}, (KeyBackfill.setRun s r run).runs q ≠ none → q = r := by
    intro q hq
    rw [runs_setRun] at hq
    split at hq
    · assumption
    · exact h.alone hq hr
  refine ⟨fun hq hq' => (honly hq).trans (honly hq').symm, h.nodup, fun hq hid => ?_,
    fun hq hop => ?_, fun hq hphase => ?_, h.stored, fun hq hrow hkey => ?_⟩
  · rw [hrun hq] at hid
    exact hknown _ hid
  · rw [hrun hq] at hop
    exact hmade _ _ hop
  · rw [hrun hq] at hphase
    exact hdone _ _ hphase
  · rw [hrun hq]
    exact hidle _ hrow _ hkey

/-- The only run leaves its account. -/
theorem Kept.scanOn (h : Kept s) (hr : s.runs r ≠ none) (hphase : run.phase = .scanning) :
    Kept (KeyBackfill.setRun s r run) := by
  refine h.setRun hr ?_ ?_ ?_ ?_ <;> simp [hphase, Phase.id?, Phase.op?]

theorem Kept.dropRun (h : Kept s) : Kept (dropRun s r) := by
  have hsub : ∀ {q run'}, (KeyBackfill.dropRun s r).runs q = some run' → s.runs q = some run' := by
    intro q run' hq
    rw [runs_dropRun] at hq
    split at hq
    · cases hq
    · exact hq
  have hne : ∀ {q}, (KeyBackfill.dropRun s r).runs q ≠ none → s.runs q ≠ none := by
    intro q hq heq
    rw [runs_dropRun, heq] at hq
    split at hq <;> exact hq rfl
  exact ⟨fun hq hq' => h.alone (hne hq) (hne hq'), h.nodup, fun hq => h.known (hsub hq),
    fun hq => h.made (hsub hq), fun hq => h.done (hsub hq), h.stored, fun hq => h.idle (hsub hq)⟩

theorem kept_arrive (h : Kept s) (hs : step s (.arrive id op) = some s') : Kept s' := by
  obtain ⟨hmem, rfl⟩ := arrive_eq_some.mp hs
  have hless : ∀ {id' last}, Undisputed s.inFlight id' last →
      Undisputed (s.inFlight.erase (id, op)) id' last := fun hu op' hop' =>
    hu op' (List.mem_of_mem_erase hop')
  split
  · rename_i hvalid
    obtain ⟨last, hlast, hprev, -⟩ := valid_iff.mp hvalid
    -- the last operation of the DID is one that nobody waits for
    have hnew : ∀ {op'}, (s.log id).head? = some op' → ¬ Undisputed s.inFlight id op' := by
      intro op' hop' hu
      rw [hlast, Option.some.injEq] at hop'
      subst hop'
      exact hu op hmem hprev
    refine ⟨h.alone, h.nodup, h.known, fun {q run id' op'} hq hop' => ?_,
      fun {q run id' op'} hq hphase => ?_, fun {row key} hrow hkey => ?_, h.idle⟩
    · obtain ⟨hu, hhead⟩ := h.made hq hop'
      refine ⟨hless hu, fun hin => ?_⟩
      change op' ∈ (accepted s id op).log id' at hin
      change ((accepted s id op).log id').head? = some op'
      rw [log_accepted] at hin ⊢
      split at hin
      · subst_vars
        rw [if_pos rfl]
        rcases List.mem_cons.mp hin with rfl | hin
        · rfl
        · exact absurd hu (hnew (hhead hin))
      · rename_i hne
        rw [if_neg hne]
        exact hhead hin
    · have hhead := h.done hq hphase
      change ((accepted s id op).log id').head? = some op'
      rw [log_accepted]
      split
      · subst_vars
        exact absurd (h.made hq (by rw [hphase]; rfl)).1 (hnew hhead)
      · exact hhead
    · obtain ⟨last', hhead, hkeys, hu⟩ := h.stored hrow hkey
      refine ⟨last', ?_, hkeys, hless hu⟩
      change ((accepted s id op).log row.id).head? = some last'
      rw [log_accepted]
      split
      · rename_i heq
        rw [heq] at hhead hu
        exact absurd hu (hnew hhead)
      · exact hhead
  · refine ⟨h.alone, h.nodup, h.known, fun hq hop' => ?_, h.done, fun hrow hkey => ?_, h.idle⟩
    · obtain ⟨hu, hhead⟩ := h.made hq hop'
      exact ⟨hless hu, hhead⟩
    · obtain ⟨last', hhead, hkeys, hu⟩ := h.stored hrow hkey
      exact ⟨last', hhead, hkeys, hless hu⟩

theorem kept_candidate (h : Kept s) (hr : s.runs r = some run)
    (hid : nextCandidate s.rows run.afterId = some id) (hphase : run'.phase = .candidate id) :
    Kept (setRun s r run') := by
  obtain ⟨row, hrow, rfl⟩ := List.mem_map.mp (List.min?_mem hid)
  obtain ⟨hrow, hcond⟩ := List.mem_filter.mp hrow
  refine h.setRun (by simp [hr]) ?_ ?_ ?_ ?_
  · rw [hphase]
    rintro _ ⟨⟩
    exact List.mem_map_of_mem hrow
  · simp [hphase, Phase.op?]
  · simp [hphase]
  · intro row' hrow' key hkey
    rw [hphase]
    simp only [Phase.id?, ne_eq, Option.some.injEq]
    intro heq
    rw [← List.inj_on_of_nodup_map h.nodup hrow hrow' heq] at hkey
    simp [Row.isCandidate, hkey] at hcond

theorem kept_getAudit (hinv : Inv s) (h : Kept s) (hs : step s (.getAudit r) = some s') :
    Kept s' := by
  obtain ⟨run, hr, id, d, last, hphase, hlast, rfl⟩ := getAudit_eq_some.mp hs
  have hw : Kept (withMade s) :=
    ⟨h.alone, h.nodup, h.known, h.made, h.done, h.stored, h.idle⟩
  have hid : run.phase.id? = some id := by rw [hphase]; rfl
  refine hw.setRun (by simp [withMade, hr]) ?_ ?_ (by simp) fun row hrow key hkey => ?_
  · rintro _ ⟨⟩
    exact h.known hr hid
  · rintro _ _ ⟨⟩
    refine ⟨fun op' hop' heq => ?_, fun hin => ?_⟩
    · obtain ⟨p, hp, hlt⟩ := (hinv.flight hop').prev
      rw [hp, Option.some.injEq] at heq
      subst heq
      exact absurd (Nat.lt_trans hlt (hinv.flight hop').cid) (Nat.lt_irrefl _)
    · exact absurd (hinv.log hin).2.2 (Nat.lt_irrefl _)
  · have := h.idle hr hrow hkey
    rwa [hid] at this

theorem kept_submit (hinv : Inv s) (h : Kept s) (hr : s.runs r = some run)
    (hphase : run.phase = .prepared id op) :
    Kept (setPhase { s with inFlight := (id, op) :: s.inFlight } r run (.submitting id op)) := by
  have hid : run.phase.id? = some id := by rw [hphase]; rfl
  have hop : op.Ok s.log s.nextCid id := by
    have := hinv.phase hr
    rwa [hphase] at this
  obtain ⟨hu, hhead⟩ := h.made hr (by rw [hphase]; rfl)
  have hsent : ∀ {id' last}, Undisputed s.inFlight id' last → (id' = id → last = op) →
      Undisputed ((id, op) :: s.inFlight) id' last := by
    intro id' last hu' hlast op' hop'
    rcases List.mem_cons.mp hop' with heq | hop'
    · cases heq
      rw [hlast rfl]
      obtain ⟨p, hp, hlt⟩ := hop.prev
      rw [hp]
      simpa using Nat.ne_of_lt hlt
    · exact hu' op' hop'
  have halone : ∀ {q run'}, s.runs q = some run' → run' = run := by
    intro q run' hq
    rw [h.alone (r := q) (q := r) (by simp [hq]) (by simp [hr]), hr, Option.some.injEq] at hq
    exact hq.symm
  have hbase : Kept { s with inFlight := (id, op) :: s.inFlight } := by
    refine ⟨h.alone, h.nodup, h.known, fun {q run' id' op'} hq hop' => ?_, h.done,
      fun {row key} hrow hkey => ?_, h.idle⟩
    · obtain ⟨hu', hhead'⟩ := h.made hq hop'
      refine ⟨hsent hu' fun _ => ?_, hhead'⟩
      rw [halone hq, hphase] at hop'
      cases hop'
      rfl
    · obtain ⟨last, hlast, hkeys, hu'⟩ := h.stored hrow hkey
      refine ⟨last, hlast, hkeys, hsent hu' fun heq => ?_⟩
      exact absurd (hid.trans (congrArg some heq.symm)) (h.idle hr hrow hkey)
  refine hbase.setRun (by simp [hr]) ?_ ?_ (by simp) ?_
  · rintro _ ⟨⟩
    exact h.known hr hid
  · rintro _ _ ⟨⟩
    exact ⟨hsent hu fun _ => rfl, hhead⟩
  · intro row hrow key hkey
    have := h.idle hr hrow hkey
    rwa [hid] at this

theorem kept_mark (hinv : Inv s) (h : Kept s) (hr : s.runs r = some run)
    (hphase : run.phase = .submitted id op) :
    Kept (succeed { s with
      rows := markBackfilled s.rows id (op.rotationKeys.headD sharedKey) } r run) := by
  have hids : (markBackfilled s.rows id (op.rotationKeys.headD sharedKey)).map (·.id) =
      s.rows.map (·.id) := by
    simp only [markBackfilled, List.map_map]
    refine List.map_congr_left fun row _ => ?_
    simp only [Function.comp_apply]
    split <;> rfl
  have hop : op.Ok s.log s.nextCid id := by
    have := hinv.phase hr
    rwa [hphase] at this
  obtain ⟨newKey, hkeys⟩ := hop.keys
  have hscan : Kept (succeed s r run) := h.scanOn (by simp [hr]) rfl
  refine ⟨hscan.alone, hids ▸ h.nodup, fun hq hid => hids ▸ hscan.known hq hid, hscan.made,
    hscan.done, fun {row key} hrow hkey => ?_, fun {q run' row key} hq hrow hkey => ?_⟩
  · obtain ⟨row', hrow', rfl⟩ := List.mem_map.mp hrow
    split at hkey
    · rename_i heq
      rw [if_pos heq]
      cases hkey
      subst heq
      refine ⟨op, h.done hr hphase, ?_, (h.made hr (by rw [hphase]; rfl)).1⟩
      rw [hkeys]
      rfl
    · rename_i hne
      rw [if_neg hne]
      exact h.stored hrow' hkey
  · have hq' : (succeed s r run).runs q = some run' := hq
    have hr' : (succeed s r run).runs r ≠ none := by simp [succeed, runs_setRun]
    obtain rfl : q = r := hscan.alone (by simp [hq']) hr'
    rw [succeed, runs_setRun, if_pos rfl, Option.some.injEq] at hq'
    subst hq'
    simp [Phase.id?]

theorem kept_register {doc : Doc} (hinv : Inv s) (h : Kept s)
    (hs : step s (.register id doc) = some s') : Kept s' := by
  simp only [step, Option.ite_none_right_eq_some, Option.some.injEq] at hs
  obtain ⟨⟨hnil, hnew⟩, rfl⟩ := hs
  have hmem : ∀ {row}, row ∈ s.rows ++ [{ id, eligible := true, atRotationKeyPem := some s.nextKey }] →
      row ∈ s.rows ∨ row = { id, eligible := true, atRotationKeyPem := some s.nextKey } := by
    intro row hrow
    exact (List.mem_append.mp hrow).imp_right List.mem_singleton.mp
  have hlog : ∀ {id'}, id' ≠ id →
      Function.update s.log id [genesis s.nextCid [s.nextKey, sharedKey] doc] id' = s.log id' :=
    fun hne => Function.update_of_ne hne ..
  have hrun : ∀ {q run' id'}, s.runs q = some run' → run'.phase.id? = some id' → id' ≠ id := by
    rintro q run' _ hq hid rfl
    obtain ⟨row, hrow, hrow'⟩ := List.mem_map.mp (h.known hq hid)
    exact hnew row hrow hrow'
  have hop? : ∀ {phase : Phase} {id' op}, phase.op? = some (id', op) → phase.id? = some id' := by
    intro phase id' op hop
    cases phase <;> simp_all [Phase.op?, Phase.id?]
  refine ⟨h.alone, ?_, fun hq hid => ?_, fun hq hop => ?_, fun {q run' id' op} hq hphase => ?_,
    fun hrow hkey => ?_, fun hq hrow hkey => ?_⟩
  · rw [List.map_append]
    refine List.nodup_append.mpr ⟨h.nodup, List.nodup_singleton _, ?_⟩
    rintro _ hid' _ hid rfl
    obtain ⟨row, hrow, hrow'⟩ := List.mem_map.mp hid'
    exact hnew row hrow (hrow'.trans (List.mem_singleton.mp hid))
  · rw [List.map_append]
    exact List.mem_append_left _ (h.known hq hid)
  · simp only [hlog (hrun hq (hop? hop))]
    exact h.made hq hop
  · have hid : run'.phase.id? = some id' := by rw [hphase]; rfl
    simp only [hlog (hrun hq hid)]
    exact h.done hq hphase
  · rcases hmem hrow with hrow | rfl
    · simp only [hlog (hnew _ hrow)]
      exact h.stored hrow hkey
    · cases hkey
      refine ⟨genesis s.nextCid [s.nextKey, sharedKey] doc, by simp, rfl, fun op' hop' => ?_⟩
      have hdoc := (hinv.flight hop').doc
      simp [doc?, hnil] at hdoc
  · rcases hmem hrow with hrow | rfl
    · exact h.idle hq hrow hkey
    · exact fun hid => hrun hq hid rfl

theorem kept_step {a : Action} (hinv : Inv s) (h : Kept s) (he : Exclusive s a)
    (hs : step s a = some s') : Kept s' := by
  cases a with
  | start r dryRun =>
    simp only [step] at hs
    split at hs <;> cases hs
    rename_i hnone
    have hno : ∀ q, s.runs q = none := by
      intro q
      by_contra hq
      have hlive := hinv.live (Option.isSome_iff_ne_none.mpr hq)
      rw [show s.live = [] from he] at hlive
      cases hlive
    have honly : ∀ {q run}, (KeyBackfill.setRun { s with live := r :: s.live } r {
        dryRun, afterId := none, processed := 0, succeeded := 0, failed := 0,
        phase := .scanning }).runs q = some run → q = r ∧ run.phase = .scanning := by
      intro q run hq
      rw [runs_setRun] at hq
      split at hq
      · cases hq
        exact ⟨by assumption, rfl⟩
      · change s.runs q = some run at hq
        rw [hno q] at hq
        cases hq
    have hne : ∀ {q}, (KeyBackfill.setRun { s with live := r :: s.live } r {
        dryRun, afterId := none, processed := 0, succeeded := 0, failed := 0,
        phase := .scanning }).runs q ≠ none → q = r := fun hq => by
      obtain ⟨run, hrun⟩ := Option.ne_none_iff_exists'.mp hq
      exact (honly hrun).1
    refine ⟨fun hq hq' => (hne hq).trans (hne hq').symm, h.nodup, fun hq hid => ?_,
      fun hq hop => ?_, fun hq hphase => ?_, h.stored, fun hq _ _ => ?_⟩
    · simp [(honly hq).2, Phase.id?] at hid
    · simp [(honly hq).2, Phase.op?] at hop
    · simp [(honly hq).2] at hphase
    · simp [(honly hq).2, Phase.id?]
  | candidate r =>
    obtain ⟨run, hr, hs⟩ := onRun_eq_some.mp hs
    simp only [Option.ite_none_right_eq_some] at hs
    obtain ⟨-, hs⟩ := hs
    split at hs <;> cases hs
    · exact kept_candidate h hr (by assumption) rfl
    · have hd := h.dropRun (r := r)
      exact ⟨hd.alone, hd.nodup, hd.known, hd.made, hd.done, hd.stored, hd.idle⟩
  | scanFails r =>
    obtain ⟨run, hr, hs⟩ := onRun_eq_some.mp hs
    simp only [Option.ite_none_right_eq_some, Option.some.injEq] at hs
    obtain ⟨-, rfl⟩ := hs
    have hd := h.dropRun (r := r)
    exact ⟨hd.alone, hd.nodup, hd.known, hd.made, hd.done, hd.stored, hd.idle⟩
  | getData r =>
    obtain ⟨run, hr, hs⟩ := onRun_eq_some.mp hs
    split at hs
    · rename_i id hphase
      obtain ⟨last, hlast, rfl⟩ := Option.map_eq_some_iff.mp hs
      have hid : run.phase.id? = some id := by rw [hphase]; rfl
      refine h.setRun (by simp [hr]) ?_ (by simp [Phase.op?]) (by simp) fun row hrow key hkey => ?_
      · rintro _ ⟨⟩
        exact h.known hr hid
      · have := h.idle hr hrow hkey
        rwa [hid] at this
    · cases hs
  | getAudit r => exact kept_getAudit hinv h hs
  | fetchFails r =>
    obtain ⟨run, hr, hs⟩ := onRun_eq_some.mp hs
    split at hs <;> cases hs
    · exact h.scanOn (by simp [hr]) rfl
    · exact h.scanOn (by simp [hr]) rfl
  | logOnly r =>
    obtain ⟨run, hr, hs⟩ := onRun_eq_some.mp hs
    split at hs
    · simp only [Option.ite_none_right_eq_some, Option.some.injEq] at hs
      obtain ⟨-, rfl⟩ := hs
      exact h.scanOn (by simp [hr]) rfl
    · cases hs
  | submit r =>
    obtain ⟨run, hr, hs⟩ := onRun_eq_some.mp hs
    split at hs
    · split at hs <;> cases hs
      exact kept_submit hinv h hr (by assumption)
    · cases hs
  | arrive id op => exact kept_arrive h hs
  | reply r ok =>
    obtain ⟨run, hr, hs⟩ := onRun_eq_some.mp hs
    split at hs
    · rename_i id op hphase
      have hid : run.phase.id? = some id := by rw [hphase]; rfl
      obtain ⟨hu, hhead⟩ := h.made hr (by rw [hphase]; rfl)
      split at hs
      · simp only [Option.ite_none_right_eq_some, Option.some.injEq] at hs
        obtain ⟨hin, rfl⟩ := hs
        refine h.setRun (by simp [hr]) ?_ ?_ ?_ fun row hrow key hkey => ?_
        · rintro _ ⟨⟩
          exact h.known hr hid
        · rintro _ _ ⟨⟩
          exact ⟨hu, hhead⟩
        · rintro _ _ ⟨⟩
          exact hhead hin
        · have := h.idle hr hrow hkey
          rwa [hid] at this
      · cases hs
        exact h.scanOn (by simp [hr]) rfl
    · cases hs
  | mark r ok =>
    obtain ⟨run, hr, hs⟩ := onRun_eq_some.mp hs
    split at hs
    · split at hs <;> cases hs
      · exact kept_mark hinv h hr (by assumption)
      · exact h.scanOn (by simp [hr]) rfl
    · cases hs
  | crash r =>
    obtain ⟨run, hr, hs⟩ := onRun_eq_some.mp hs
    cases hs
    exact h.dropRun
  | register id doc => exact kept_register hinv h hs
  | withdraw id =>
    cases hs
    have hids : (s.rows.map fun row => if row.id = id then { row with eligible := false } else row).map
        (·.id) = s.rows.map (·.id) := by
      rw [List.map_map]
      refine List.map_congr_left fun row _ => ?_
      simp only [Function.comp_apply]
      split <;> rfl
    have hrow' : ∀ {row key}, row ∈ (s.rows.map fun row =>
        if row.id = id then { row with eligible := false } else row) →
        row.atRotationKeyPem = some key →
        ∃ row' ∈ s.rows, row'.id = row.id ∧ row'.atRotationKeyPem = some key := by
      intro row key hrow hkey
      obtain ⟨row', hrow', rfl⟩ := List.mem_map.mp hrow
      refine ⟨row', hrow', ?_, ?_⟩
      · split <;> rfl
      · split at hkey <;> exact hkey
    refine ⟨h.alone, hids ▸ h.nodup, fun hq hid => hids ▸ h.known hq hid, h.made, h.done,
      fun hrow hkey => ?_, fun hq hrow hkey => ?_⟩
    · obtain ⟨row', hmem, hid, hkey'⟩ := hrow' hrow hkey
      rw [← hid]
      exact h.stored hmem hkey'
    · obtain ⟨row', hmem, hid, hkey'⟩ := hrow' hrow hkey
      rw [← hid]
      exact h.idle hq hmem hkey'

end KeptSteps

section Runs

variable {accounts : List (Nat × Bool)} {doc : Nat → Doc} {as : List Action} {s : State}

theorem inv_run (hr : machine.run (init accounts doc) as = some s) : Inv s :=
  machine.run_inv (fun h hs => inv_step h hs) (inv_init accounts doc) hr

/-- The state in which a run has sent its first operation -/
def firstSent (s : State) (r id : Nat) (op : Op) : State :=
  setRun { withMade s with live := r :: s.live, inFlight := (id, op) :: s.inFlight } r
    { dryRun := false, afterId := some id, processed := 1, succeeded := 0, failed := 0,
      phase := .submitting id op }

theorem run_firstSent {r id : Nat} {last : Op} {log : List Op} (hr : s.runs r = none)
    (hid : nextCandidate s.rows none = some id) (hlog : s.log id = last :: log) :
    machine.run s [.start r false, .candidate r, .getData r, .getAudit r, .submit r] =
      some (firstSent s r id (made s last.doc last)) := by
  simp only [machine, Machine.run_cons, Machine.run_nil, step, onRun, setRun, setPhase, hr, hid, hlog,
    Function.update_self, Option.bind_some, if_true, List.head?_cons, Option.map_some, made, withMade,
    Bool.false_eq_true, if_false, Function.update_idem, Nat.zero_add, firstSent]

theorem run_marked {r id : Nat} {op : Op} (hvalid : valid (s.log id) op = true) :
    (machine.run (firstSent s r id op) [.arrive id op, .reply r true, .mark r true]).map
      (fun t => (t.log id, t.rows)) =
        some (op :: s.log id, markBackfilled s.rows id (op.rotationKeys.headD sharedKey)) := by
  simp only [machine, Machine.run_cons, Machine.run_nil, step, onRun, firstSent, setRun, setPhase,
    withMade, Function.update_self, Option.bind_some, List.mem_cons_self, if_true, hvalid, succeed,
    Option.map_some]

/-- Another run can give the next account its key, whatever happened before. -/
theorem recoverable {r id : Nat} (h : Inv s) (hr : s.runs r = none)
    (hid : nextCandidate s.rows none = some id) :
    ∃ as t key, machine.run s as = some t ∧ Controls t id key ∧
      ∀ row ∈ t.rows, row.id = id → row.atRotationKeyPem = some key := by
  obtain ⟨row, hrow, hrowid⟩ := List.mem_map.mp (List.min?_mem hid)
  have hne : s.log id ≠ [] := hrowid ▸ h.rows row (List.mem_filter.mp hrow).1
  obtain ⟨last, log, hlog⟩ := List.exists_cons_of_ne_nil hne
  have hvalid : valid (s.log id) (made s last.doc last) = true :=
    valid_iff.mpr ⟨last, by rw [hlog]; rfl, rfl, (h.log (hlog ▸ List.mem_cons_self)).1⟩
  obtain ⟨t, ht, heq⟩ := Option.map_eq_some_iff.mp (run_marked (r := r) hvalid)
  obtain ⟨hlogt, hrows⟩ := Prod.mk.inj heq
  refine ⟨_, t, s.nextKey, machine.run_append_eq_some.mpr ⟨_, run_firstSent hr hid hlog, ht⟩,
    ⟨made s last.doc last, ?_, rfl⟩, fun row hrow hid => ?_⟩
  · rw [hlogt]
    rfl
  · rw [hrows] at hrow
    obtain ⟨row', -, rfl⟩ := List.mem_map.mp hrow
    split at hid
    · rename_i heq
      rw [if_pos heq]
      rfl
    · rename_i hne
      exact absurd hid hne

theorem kept_run (hids : (accounts.map (·.1)).Nodup)
    (hr : machine.run (init accounts doc) as = some s)
    (he : machine.Along Exclusive (init accounts doc) as) : Kept s :=
  (machine.run_inv_along (I := fun s => Inv s ∧ Kept s)
    (fun ⟨hinv, h⟩ he hs => ⟨inv_step hinv hs, kept_step hinv h he hs⟩)
    ⟨inv_init accounts doc, kept_init hids⟩ he hr).2

/-- A key that is stored is the first one of its DID. -/
theorem stored_key_controls (hids : (accounts.map (·.1)).Nodup)
    (hr : machine.run (init accounts doc) as = some s)
    (he : machine.Along Exclusive (init accounts doc) as) {row : Row} {key : Nat}
    (hrow : row ∈ s.rows) (hkey : row.atRotationKeyPem = some key) : Controls s row.id key := by
  obtain ⟨last, hlast, hkeys, -⟩ := (kept_run hids hr he).stored hrow hkey
  exact ⟨last, hlast, hkeys⟩

end Runs

section Retried

def oldDoc : Doc :=
  { alsoKnownAs := ["at://a.example"], verificationMethods := [("atproto", "did:key:z")]
    services := [("atproto_pds", { type := "AtprotoPersonalDataServer", endpoint := "https://example" })] }

theorem stored_key_controls_retried : ∃ s,
    machine.run (init [(7, true)] fun _ => oldDoc) (retried oldDoc) = some s ∧ Controls s 7 2 := by
  obtain ⟨s, hs⟩ : ∃ s, machine.run (init [(7, true)] fun _ => oldDoc) (retried oldDoc) = some s :=
    Option.isSome_iff_exists.mp (by decide)
  have he : machine.Along Exclusive (init [(7, true)] fun _ => oldDoc) (retried oldDoc) := by decide
  have hrow : ∀ s ∈ machine.run (init [(7, true)] fun _ => oldDoc) (retried oldDoc),
      { id := 7, eligible := true, atRotationKeyPem := some 2 } ∈ s.rows := by decide
  exact ⟨s, hs, stored_key_controls (by decide) hs he (hrow s hs) rfl⟩

end Retried

end Seiran.KeyBackfill
