import Mathlib.Data.List.Nodup
import Seiran.Framework.Counting
import Seiran.Model.Daemon.Leader

/-!
# At most one process runs a resident task

* `Inv`: a connection has one owner, the lock of a task belongs to the session of a worker that
  leads, stops or closes, or to one whose connection is given up; and a task that was not
  aborted has its worker. Every step keeps it (`inv_step`);
* `attended_unique`: of the tasks of a kind at most one is attended;
* `leader_exclusive`: in an orderly run at most one task of a kind runs at a time;
* `lock_not_leaked`: who can have a lock, and that the next try gets a lock that none of them has.
-/

namespace Seiran.Leader

theorem key_injective {which which' : LeaderTask} (h : which.key = which'.key) : which = which' := by
  cases which <;> cases which' <;> simp [LeaderTask.key] at h ⊢

/-- The connection a call of `run_as_leader` has -/
def Phase.conn : Phase → Option Nat
  | .trying c | .leading c _ | .stopping c _ | .closing c => some c
  | .waiting | .ended => none

/-- The worker waits for the task. -/
def Phase.awaits (phase : Phase) (t : Task) : Prop :=
  phase = .leading t.conn t.handle ∨ phase = .stopping t.conn t.handle

theorem Phase.conn_of_hasLock {phase : Phase} {c : Nat} (h : phase.hasLock c) :
    phase.conn = some c := by
  cases phase <;> simp_all [Phase.hasLock, Phase.conn]

theorem Phase.hasLock_of_awaits {phase : Phase} {t : Task} (h : phase.awaits t) :
    phase.hasLock t.conn := by
  rcases h with rfl | rfl <;> simp [Phase.hasLock]

structure Inv (s : State) : Prop where
  valid : s.locks.Valid
  fresh : ∀ {c}, s.nextConn ≤ c → s.locks.isOpen c = false ∧ s.owner c = .none
  conn : ∀ {w c}, (s.phase w).conn = some c → s.owner c = .worker w
  holder : ∀ {k c}, s.locks.holder k = some c →
    (∃ w, (s.phase w).hasLock c ∧ k = w.which.key) ∨ s.owner c = .none
  held : ∀ {w c}, (s.phase w).hasLock c → s.locks.isOpen c = true →
    s.locks.holder w.which.key = some c
  awaited : ∀ {t}, t ∈ s.tasks → t.aborted = false → (s.phase t.worker).awaits t
  handles : (s.tasks.map (·.handle)).Nodup
  lt_next : ∀ {t}, t ∈ s.tasks → t.handle < s.nextHandle

theorem inv_init : Inv init where
  valid := SessionLocks.valid_empty
  fresh := fun _ => ⟨rfl, rfl⟩
  conn := by simp [init, Phase.conn]
  holder := by simp [init, SessionLocks.empty]
  held := by simp [init, Phase.hasLock]
  awaited := by simp [init]
  handles := by simp [init]
  lt_next := by simp [init]

section Steps

variable {s s' : State} {w w' : Worker} {c d : Nat} {phase : Phase} {o : Owner}

theorem phase_setPhase :
    (setPhase s w phase).phase w' = if w' = w then phase else s.phase w' :=
  Function.update_apply ..

theorem owner_setOwner : (setOwner s c o).owner d = if d = c then o else s.owner d :=
  Function.update_apply ..

/-- A connection that is being tried has no lock. -/
theorem Inv.not_holder_of_trying (h : Inv s) (hw : s.phase w = .trying c) (k : Int × Int) :
    s.locks.holder k ≠ some c := by
  intro hk
  have howner : s.owner c = .worker w := h.conn (by rw [hw]; rfl)
  rcases h.holder hk with ⟨w', hlock, -⟩ | hnone
  · have howner' := h.conn (Phase.conn_of_hasLock hlock)
    rw [howner, Owner.worker.injEq] at howner'
    subst howner'
    rw [hw] at hlock
    exact hlock
  · rw [howner] at hnone
    cases hnone

/-- A worker goes on with what it has. -/
theorem Inv.move (h : Inv s) (hconn : ∀ c, phase.conn = some c → (s.phase w).conn = some c)
    (hlock : ∀ c, phase.hasLock c ↔ (s.phase w).hasLock c)
    (htasks : ∀ t ∈ s.tasks, t.aborted = false → t.worker = w → phase.awaits t) :
    Inv (setPhase s w phase) where
  valid := h.valid
  fresh := h.fresh
  conn := fun {w' c} hc => by
    rw [phase_setPhase] at hc
    split at hc
    · subst_vars
      exact h.conn (hconn c hc)
    · exact h.conn hc
  holder := fun hk => by
    refine (h.holder hk).imp_left fun ⟨w', hw', hk⟩ => ⟨w', ?_, hk⟩
    rw [phase_setPhase]
    split
    · subst_vars
      exact (hlock _).mpr hw'
    · exact hw'
  held := fun {w' c} hw' => by
    rw [phase_setPhase] at hw'
    split at hw'
    · subst_vars
      exact h.held ((hlock _).mp hw')
    · exact h.held hw'
  awaited := fun {t} ht ha => by
    rw [phase_setPhase]
    split
    · rename_i hw
      exact htasks t ht ha hw
    · exact h.awaited ht ha
  handles := h.handles
  lt_next := h.lt_next

/-- A worker without a connection gets one, which has no lock. -/
theorem Inv.take (h : Inv s) (hw : (s.phase w).conn = none)
    (hc : ∀ w', s.owner c ≠ .worker w') (hfree : ∀ k, s.locks.holder k ≠ some c)
    (hlt : c < s.nextConn) : Inv (setPhase (setOwner s c (.worker w)) w (.trying c)) where
  valid := h.valid
  fresh := fun {d} hd => by
    refine ⟨(h.fresh hd).1, ?_⟩
    change (setOwner s c (.worker w)).owner d = .none
    rw [owner_setOwner, if_neg (by rintro rfl; exact absurd hlt (Nat.not_lt.mpr hd))]
    exact (h.fresh hd).2
  conn := fun {w' d} hd => by
    change (setOwner s c (.worker w)).owner d = _
    rw [phase_setPhase] at hd
    rw [owner_setOwner]
    split at hd
    · cases hd
      rw [if_pos rfl]
      subst_vars
      rfl
    · have howner : s.owner d = .worker w' := h.conn hd
      rw [if_neg (by rintro rfl; exact hc w' howner)]
      exact howner
  holder := fun {k d} hk => by
    change (∃ w', ((setPhase _ w (.trying c)).phase w').hasLock d ∧ _) ∨
      (setOwner s c (.worker w)).owner d = .none
    have hne : d ≠ c := by
      rintro rfl
      exact hfree k hk
    rw [owner_setOwner, if_neg hne]
    refine (h.holder hk).imp_left fun ⟨w', hw', hk⟩ => ⟨w', ?_, hk⟩
    rw [phase_setPhase, if_neg]
    · exact hw'
    · rintro rfl
      rw [Phase.conn_of_hasLock hw'] at hw
      cases hw
  held := fun {w' d} hw' => by
    rw [phase_setPhase] at hw'
    split at hw'
    · exact hw'.elim
    · exact h.held hw'
  awaited := fun {t} ht ha => by
    have hold := h.awaited ht ha
    rw [phase_setPhase, if_neg]
    · exact hold
    · intro htw
      rw [← htw, Phase.conn_of_hasLock (Phase.hasLock_of_awaits hold)] at hw
      cases hw
  handles := h.handles
  lt_next := h.lt_next

/-- A worker that awaits no task gives its connection up, or back if it has no lock. -/
theorem Inv.release (h : Inv s) (hw : s.phase w = .trying c ∨ s.phase w = .closing c)
    (ho : ∀ w', o ≠ .worker w') (hfree : o = .none ∨ ∀ k, s.locks.holder k ≠ some c) :
    Inv (setPhase (setOwner s c o) w .waiting) := by
  have hconn : (s.phase w).conn = some c := by rcases hw with hw | hw <;> rw [hw] <;> rfl
  have howner := h.conn hconn
  have hother : ∀ {w' d}, w' ≠ w → s.owner d = .worker w' → d ≠ c := by
    rintro w' _ hne hd rfl
    rw [howner, Owner.worker.injEq] at hd
    exact hne hd.symm
  refine ⟨h.valid, fun {d} hd => ⟨(h.fresh hd).1, ?_⟩, fun {w' d} hd => ?_, fun {k d} hk => ?_,
    fun {w' d} hw' => ?_, fun {t} ht ha => ?_, h.handles, h.lt_next⟩
  · change (setOwner s c o).owner d = .none
    have hnone := (h.fresh hd).2
    rw [owner_setOwner, if_neg]
    · exact hnone
    · rintro rfl
      rw [howner] at hnone
      cases hnone
  · change (setOwner s c o).owner d = _
    rw [phase_setPhase] at hd
    split at hd
    · cases hd
    · rename_i hne
      have hd := h.conn hd
      rw [owner_setOwner, if_neg (hother hne hd)]
      exact hd
  · change (∃ w', ((setPhase _ w .waiting).phase w').hasLock d ∧ _) ∨
      (setOwner s c o).owner d = .none
    rw [owner_setOwner]
    split
    · subst_vars
      rcases hfree with rfl | hfree
      · exact .inr rfl
      · exact absurd hk (hfree k)
    · rename_i hne
      refine (h.holder hk).imp_left fun ⟨w', hw', hk⟩ => ⟨w', ?_, hk⟩
      rw [phase_setPhase, if_neg]
      · exact hw'
      · rintro rfl
        rw [Phase.conn_of_hasLock hw', Option.some.injEq] at hconn
        exact hne hconn
  · rw [phase_setPhase] at hw'
    split at hw'
    · exact hw'.elim
    · exact h.held hw'
  · have hold := h.awaited ht ha
    rw [phase_setPhase, if_neg]
    · exact hold
    · intro htw
      rw [htw] at hold
      rcases hw with hw | hw <;> simp [hw, Phase.awaits] at hold

/-- The locks change on the server. -/
theorem Inv.withLocks (h : Inv s) {locks : SessionLocks (Int × Int) Nat} (hvalid : locks.Valid)
    (hopen : ∀ c, locks.isOpen c = true → s.locks.isOpen c = true)
    (hholder : ∀ {k c}, locks.holder k = some c → s.locks.holder k = some c ∨ s.owner c = .none)
    (hheld : ∀ {k c}, locks.isOpen c = true → s.locks.holder k = some c →
      locks.holder k = some c) : Inv { s with locks } where
  valid := hvalid
  fresh := fun {c} hc => by
    refine ⟨?_, (h.fresh hc).2⟩
    by_contra hne
    have := (h.fresh hc).1
    rw [hopen c (by simpa using hne)] at this
    cases this
  conn := h.conn
  holder := fun hk => (hholder hk).elim h.holder .inr
  held := fun hw hc => hheld hc (h.held hw (hopen _ hc))
  awaited := h.awaited
  handles := h.handles
  lt_next := h.lt_next

/-- Tasks end, or are aborted by workers that do not wait for them. -/
theorem Inv.withTasks (h : Inv s) {tasks : List Task} (hsub : (tasks.map (·.handle)).Sublist
      (s.tasks.map (·.handle)))
    (hmem : ∀ t ∈ tasks, t.aborted = false → t ∈ s.tasks) : Inv { s with tasks } where
  valid := h.valid
  fresh := h.fresh
  conn := h.conn
  holder := h.holder
  held := h.held
  awaited := fun ht ha => h.awaited (hmem _ ht ha) ha
  handles := h.handles.sublist hsub
  lt_next := fun {t} ht => by
    obtain ⟨t', ht', heq⟩ := List.mem_map.mp (hsub.subset (List.mem_map_of_mem ht))
    have hlt := h.lt_next ht'
    rw [heq] at hlt
    exact hlt

theorem inv_tryLock (h : Inv s) (hs : step s (.tryLock w) = some s') : Inv s' := by
  simp only [step] at hs
  split at hs
  · rename_i c hw
    have hno := h.not_holder_of_trying hw
    have hconn : s.owner c = .worker w := h.conn (by rw [hw]; rfl)
    split at hs
    · rename_i hopen
      split at hs <;> cases hs
      · rename_i locks hlocks
        have hfree : s.locks.holder w.which.key = none :=
          (SessionLocks.free_of_tryLock hlocks).resolve_right (hno _)
        have hholder := SessionLocks.holder_of_tryLock hlocks
        have hisOpen := SessionLocks.isOpen_of_tryLock hlocks
        refine ⟨h.valid.tryLock hopen hlocks, fun {d} hd => ?_, fun {w' d} hd => ?_,
          fun {k d} hk => ?_, fun {w' d} hw' hd => ?_, fun {t} ht ha => ?_, ?_, fun {t} ht => ?_⟩
        · refine ⟨?_, (h.fresh hd).2⟩
          rw [← (h.fresh hd).1]
          exact congrFun hisOpen d
        · rw [phase_setPhase] at hd
          split at hd
          · cases hd
            subst_vars
            exact hconn
          · exact h.conn hd
        · change locks.holder k = some d at hk
          rw [hholder] at hk
          split at hk
          · cases hk
            refine .inl ⟨w, ?_, by assumption⟩
            rw [phase_setPhase, if_pos rfl]
            rfl
          · refine (h.holder hk).imp_left fun ⟨w', hw', hk⟩ => ⟨w', ?_, hk⟩
            rw [phase_setPhase, if_neg]
            · exact hw'
            · rintro rfl
              rw [hw] at hw'
              exact hw'
        · change locks.holder _ = some d
          change locks.isOpen d = true at hd
          rw [hisOpen] at hd
          rw [phase_setPhase] at hw'
          split at hw'
          · cases hw'
            subst_vars
            rw [hholder, if_pos rfl]
          · have hheld := h.held hw' hd
            rw [hholder, if_neg]
            · exact hheld
            · intro heq
              rw [heq, hfree] at hheld
              cases hheld
        · rw [phase_setPhase]
          rcases List.mem_cons.mp ht with rfl | ht
          · rw [if_pos rfl]
            exact .inl rfl
          · have hold := h.awaited ht ha
            rw [if_neg]
            · exact hold
            · intro htw
              rw [htw, hw] at hold
              simp [Phase.awaits] at hold
        · refine List.nodup_cons.mpr ⟨fun hmem => ?_, h.handles⟩
          obtain ⟨t, ht, heq⟩ := List.mem_map.mp hmem
          exact absurd (h.lt_next ht) (by rw [heq]; exact Nat.lt_irrefl _)
        · rcases List.mem_cons.mp ht with rfl | ht
          · exact Nat.lt_succ_self _
          · exact Nat.lt_succ_of_lt (h.lt_next ht)
      · exact h.release (.inl hw) (by simp) (.inr hno)
    · cases hs
  · cases hs

theorem inv_tryLockFails {asked : Bool} (h : Inv s)
    (hs : step s (.tryLockFails w asked) = some s') : Inv s' := by
  simp only [step] at hs
  split at hs
  · rename_i c hw
    have hno := h.not_holder_of_trying hw
    have hgiven : Inv (setPhase (setOwner s c .none) w .waiting) :=
      h.release (.inl hw) (by simp) (.inl rfl)
    split at hs <;> cases hs
    · rename_i hasked
      cases hlocks : s.locks.tryLock w.which.key c with
      | none => exact hgiven
      | some locks =>
        have hholder := SessionLocks.holder_of_tryLock hlocks
        refine hgiven.withLocks (h.valid.tryLock hasked.2 hlocks) (fun d hd => ?_)
          (fun {k d} hk => ?_) fun {k d} _ hk => ?_
        · change locks.isOpen d = true at hd
          rwa [SessionLocks.isOpen_of_tryLock hlocks] at hd
        · change locks.holder k = some d at hk
          rw [hholder] at hk
          split at hk
          · cases hk
            exact .inr (owner_setOwner.trans (if_pos rfl))
          · exact .inl hk
        · change s.locks.holder k = some d at hk
          change locks.holder k = some d
          rw [hholder, if_neg]
          · exact hk
          · rintro rfl
            rcases SessionLocks.free_of_tryLock hlocks with hfree | hfree
            · rw [hfree] at hk
              cases hk
            · exact hno _ hfree
    · exact hgiven
  · cases hs

theorem Inv.join (h : Inv s) {handle : Nat}
    (hw : s.phase w = .leading c handle ∨ s.phase w = .stopping c handle)
    (hended : ∀ t ∈ s.tasks, t.handle ≠ handle) : Inv (setPhase s w (.closing c)) := by
  refine h.move ?_ ?_ fun t ht ha htw => ?_
  · rcases hw with hw | hw <;> simp [hw, Phase.conn]
  · rcases hw with hw | hw <;> simp [hw, Phase.hasLock]
  · have hold := h.awaited ht ha
    rw [htw] at hold
    have hne := hended t ht
    rcases hw with hw | hw <;> simp [hw, Phase.awaits] at hold <;> exact absurd hold.2.symm hne

theorem Inv.stop (h : Inv s) {handle : Nat} (hw : s.phase w = .leading c handle) :
    Inv (setPhase s w (.stopping c handle)) := by
  refine h.move (by simp [hw, Phase.conn]) (by simp [hw, Phase.hasLock]) fun t ht ha htw => ?_
  have hold := h.awaited ht ha
  rw [htw, hw] at hold
  simpa [Phase.awaits] using hold

theorem Inv.abort (h : Inv s) {handle : Nat} (hw : s.phase w = .stopping c handle) :
    Inv (setPhase (abortTask s handle) w (.closing c)) := by
  have hmem : ∀ t ∈ (abortTask s handle).tasks, t.aborted = false →
      t ∈ s.tasks ∧ t.handle ≠ handle := by
    intro t ht ha
    obtain ⟨t', ht', rfl⟩ := List.mem_map.mp ht
    split at ha
    · cases ha
    · rename_i hne
      rw [if_neg hne]
      exact ⟨ht', hne⟩
  have hhandles : (abortTask s handle).tasks.map (·.handle) = s.tasks.map (·.handle) := by
    simp only [abortTask, List.map_map]
    refine List.map_congr_left fun t _ => ?_
    simp only [Function.comp_apply]
    split <;> rfl
  have htasks : Inv (abortTask s handle) :=
    h.withTasks (hhandles ▸ List.Sublist.refl _) fun t ht ha => (hmem t ht ha).1
  refine htasks.move ?_ ?_ fun t ht ha htw => ?_
  · change ∀ d, _ → (s.phase w).conn = some d
    simp [hw, Phase.conn]
  · change ∀ d, _ ↔ (s.phase w).hasLock d
    simp [hw, Phase.hasLock]
  · obtain ⟨ht', hne⟩ := hmem t ht ha
    have hold := h.awaited ht' ha
    rw [htw, hw] at hold
    simp only [Phase.awaits, reduceCtorEq, false_or, Phase.stopping.injEq] at hold
    exact absurd hold.2.symm hne

theorem inv_dead (h : Inv s) (p : Nat) : Inv (dead s p) := by
  have howner : ∀ {w' d}, w'.pool ≠ p → s.owner d = .worker w' → (dead s p).owner d = .worker w' := by
    intro w' d hne hd
    simp only [dead, hd]
    exact if_neg hne
  refine ⟨h.valid, fun hd => ⟨(h.fresh hd).1, ?_⟩, fun {w' d} hd => ?_, fun {k d} hk => ?_,
    fun {w' d} hw' hd => ?_, fun {t} ht ha => ?_, ?_, fun ht => h.lt_next (List.mem_of_mem_filter ht)⟩
  · simp only [dead, (h.fresh hd).2]
  · simp only [dead] at hd
    split at hd
    · cases hd
    · exact howner (by assumption) (h.conn hd)
  · rcases h.holder hk with ⟨w', hw', rfl⟩ | hnone
    · have hd := h.conn (Phase.conn_of_hasLock hw')
      by_cases hp : w'.pool = p
      · refine .inr ?_
        simp only [dead, hd]
        exact if_pos hp
      · refine .inl ⟨w', ?_, rfl⟩
        simp only [dead, if_neg hp]
        exact hw'
    · refine .inr ?_
      simp only [dead, hnone]
  · simp only [dead] at hw'
    split at hw'
    · exact hw'.elim
    · exact h.held hw' hd
  · obtain ⟨ht, hp⟩ := List.mem_filter.mp ht
    simp only [dead, if_neg (of_decide_eq_true hp)]
    exact h.awaited ht ha
  · exact h.handles.sublist (List.filter_sublist.map _)

theorem inv_step {a : Action} (h : Inv s) (hs : step s a = some s') : Inv s' := by
  cases a with
  | connect w =>
    simp only [step, Option.ite_none_right_eq_some, Option.some.injEq] at hs
    obtain ⟨⟨hw, -⟩, rfl⟩ := hs
    obtain ⟨hclosed, hnone⟩ := h.fresh (Nat.le_refl s.nextConn)
    have hs : Inv { s with locks := s.locks.connect s.nextConn, nextConn := s.nextConn + 1 } := by
      refine ⟨h.valid.connect, fun {c} hc => ?_, h.conn, h.holder, fun {w' c} hw' hc => ?_,
        h.awaited, h.handles, h.lt_next⟩
      · obtain ⟨hc', ho⟩ := h.fresh (Nat.le_of_succ_le hc)
        refine ⟨?_, ho⟩
        rw [← Bool.not_eq_true, SessionLocks.isOpen_connect, hc']
        simpa using Nat.ne_of_gt hc
      · rcases SessionLocks.isOpen_connect.mp hc with rfl | hc
        · have howner := h.conn (Phase.conn_of_hasLock hw')
          rw [hnone] at howner
          cases howner
        · exact h.held hw' hc
    refine hs.take (by rw [hw]; rfl) (fun w' => ?_) (fun k hk => ?_) (Nat.lt_succ_self _)
    · rw [hnone]
      simp
    · have := h.valid.isOpen hk
      rw [hclosed] at this
      cases this
  | reuse w c =>
    simp only [step, Option.ite_none_right_eq_some, Option.some.injEq] at hs
    obtain ⟨⟨hw, -, ho⟩, rfl⟩ := hs
    refine h.take (by rw [hw]; rfl) (fun w' => by rw [ho]; simp) (fun k hk => ?_) ?_
    · rcases h.holder hk with ⟨w', hw', -⟩ | hnone
      · rw [h.conn (Phase.conn_of_hasLock hw')] at ho
        cases ho
      · rw [hnone] at ho
        cases ho
    · by_contra hlt
      rw [(h.fresh (Nat.le_of_not_lt hlt)).2] at ho
      cases ho
  | tryLock w => exact inv_tryLock h hs
  | tryLockFails w asked => exact inv_tryLockFails h hs
  | taskEnds handle =>
    simp only [step, Option.ite_none_right_eq_some, Option.some.injEq] at hs
    obtain ⟨-, rfl⟩ := hs
    exact h.withTasks (List.filter_sublist.map _) fun t ht _ => List.mem_of_mem_filter ht
  | join w =>
    simp only [step] at hs
    split at hs
    · simp only [Option.ite_none_right_eq_some, Option.some.injEq] at hs
      obtain ⟨hended, rfl⟩ := hs
      exact h.join (.inl (by assumption)) hended
    · simp only [Option.ite_none_right_eq_some, Option.some.injEq] at hs
      obtain ⟨hended, rfl⟩ := hs
      exact h.join (.inr (by assumption)) hended
    · cases hs
  | pingFails w =>
    simp only [step] at hs
    split at hs <;> cases hs
    exact h.stop (by assumption)
  | cancel w =>
    cases hs
    exact ⟨h.valid, h.fresh, h.conn, h.holder, h.held, h.awaited, h.handles, h.lt_next⟩
  | seeShutdown w =>
    simp only [step] at hs
    split at hs
    · simp only [Option.ite_none_right_eq_some, Option.some.injEq] at hs
      obtain ⟨-, rfl⟩ := hs
      exact h.stop (by assumption)
    · cases hs
  | abort w =>
    simp only [step] at hs
    split at hs <;> cases hs
    exact h.abort (by assumption)
  | close w =>
    simp only [step] at hs
    split at hs <;> cases hs
    rename_i hw
    exact h.release (.inr hw) (by simp) (.inl rfl)
  | leave w =>
    simp only [step, Option.ite_none_right_eq_some, Option.some.injEq] at hs
    obtain ⟨⟨hw, -⟩, rfl⟩ := hs
    refine h.move (by simp [Phase.conn]) (by simp [hw, Phase.hasLock]) fun t ht ha htw => ?_
    have hold := h.awaited ht ha
    rw [htw, hw] at hold
    simp [Phase.awaits] at hold
  | sessionEnds c =>
    simp only [step, Option.ite_none_right_eq_some, Option.some.injEq] at hs
    obtain ⟨-, rfl⟩ := hs
    refine h.withLocks h.valid.finish (fun d hd => (SessionLocks.isOpen_finish.mp hd).2)
      (fun hk => .inl (SessionLocks.holder_finish.mp hk).2) fun hd hk => ?_
    exact SessionLocks.holder_finish.mpr ⟨(SessionLocks.isOpen_finish.mp hd).1, hk⟩
  | crash p =>
    cases hs
    exact inv_dead h p

theorem inv_run {as : List Action} (hr : machine.run init as = some s) : Inv s :=
  machine.run_inv (fun h hs => inv_step h hs) inv_init hr

end Steps

section Tasks

variable {as : List Action} {s s' : State} {t u : Task} {which : LeaderTask}

theorem mem_running : t ∈ running s which ↔ t ∈ s.tasks ∧ t.worker.which = which := by
  simp [running]

theorem attended_iff : attended s t = true ↔ s.locks.isOpen t.conn = true ∧ t.aborted = false := by
  simp [attended]

/-- The session of an attended task has the lock. -/
theorem Inv.holder_of_attended (h : Inv s) (ht : t ∈ s.tasks) (ha : attended s t = true) :
    s.locks.holder t.worker.which.key = some t.conn := by
  obtain ⟨hopen, hna⟩ := attended_iff.mp ha
  exact h.held (Phase.hasLock_of_awaits (h.awaited ht hna)) hopen

theorem Phase.handle_eq {phase : Phase} (ht : phase.awaits t) (hu : phase.awaits u) :
    t.handle = u.handle := by
  rcases ht with rfl | rfl <;> simp [Phase.awaits] at hu <;> exact hu.2

theorem Inv.eq_of_attended (h : Inv s) (ht : t ∈ s.tasks) (hu : u ∈ s.tasks)
    (hwhich : t.worker.which = u.worker.which) (hat : attended s t = true)
    (hau : attended s u = true) : t = u := by
  have hwt := h.awaited ht (attended_iff.mp hat).2
  have hwu := h.awaited hu (attended_iff.mp hau).2
  have hconn : t.conn = u.conn := by
    have hlock := h.holder_of_attended ht hat
    rw [hwhich, h.holder_of_attended hu hau, Option.some.injEq] at hlock
    exact hlock.symm
  have hworker : t.worker = u.worker := by
    have htw := h.conn (Phase.conn_of_hasLock (Phase.hasLock_of_awaits hwt))
    rw [hconn, h.conn (Phase.conn_of_hasLock (Phase.hasLock_of_awaits hwu)),
      Owner.worker.injEq] at htw
    exact htw.symm
  rw [hworker] at hwt
  exact List.inj_on_of_nodup_map h.handles ht hu (Phase.handle_eq hwt hwu)

theorem attended_unique (hr : machine.run init as = some s) :
    ((running s which).filter (attended s)).length ≤ 1 := by
  have h := inv_run hr
  have hmem : ∀ {x}, x ∈ (running s which).filter (attended s) →
      (x ∈ s.tasks ∧ x.worker.which = which) ∧ attended s x = true := by
    intro x hx
    rw [List.mem_filter, mem_running] at hx
    exact hx
  refine length_le_one ((h.handles.of_map _).sublist
    (List.filter_sublist.trans List.filter_sublist)) fun t ht u hu => ?_
  obtain ⟨⟨ht, hwt⟩, hat⟩ := hmem ht
  obtain ⟨⟨hu, hwu⟩, hau⟩ := hmem hu
  exact h.eq_of_attended ht hu (hwt.trans hwu.symm) hat hau

/-- All tasks are attended. -/
def AllAttended (s : State) : Prop := ∀ t ∈ s.tasks, attended s t = true

theorem AllAttended.mono (h : AllAttended s) (htasks : ∀ t ∈ s'.tasks, t ∈ s.tasks)
    (hopen : ∀ t ∈ s'.tasks, s.locks.isOpen t.conn = true → s'.locks.isOpen t.conn = true) :
    AllAttended s' := by
  intro t ht
  obtain ⟨hc, ha⟩ := attended_iff.mp (h t (htasks t ht))
  exact attended_iff.mpr ⟨hopen t ht hc, ha⟩

theorem allAttended_tryLock {w : Worker} (h : AllAttended s)
    (hs : step s (.tryLock w) = some s') : AllAttended s' := by
  simp only [step] at hs
  split at hs
  · split at hs
    · rename_i c _ hc
      split at hs <;> cases hs
      · rename_i locks hlocks
        intro t ht
        have hopen : locks.isOpen = s.locks.isOpen := SessionLocks.isOpen_of_tryLock hlocks
        refine attended_iff.mpr ?_
        change locks.isOpen t.conn = true ∧ _
        rw [hopen]
        rcases List.mem_cons.mp ht with rfl | ht
        · exact ⟨hc, rfl⟩
        · exact attended_iff.mp (h t ht)
      · exact h.mono (fun _ ht => ht) fun _ _ hc => hc
    · cases hs
  · cases hs

theorem allAttended_step {a : Action} (h : AllAttended s) (ho : Orderly s a)
    (hs : step s a = some s') : AllAttended s' := by
  cases a with
  | connect w =>
    simp only [step, Option.ite_none_right_eq_some, Option.some.injEq] at hs
    obtain ⟨-, rfl⟩ := hs
    exact h.mono (fun _ ht => ht) fun _ _ hc => SessionLocks.isOpen_connect.mpr (.inr hc)
  | reuse w c =>
    simp only [step, Option.ite_none_right_eq_some, Option.some.injEq] at hs
    obtain ⟨-, rfl⟩ := hs
    exact h.mono (fun _ ht => ht) fun _ _ hc => hc
  | tryLock w => exact allAttended_tryLock h hs
  | tryLockFails w asked =>
    simp only [step] at hs
    split at hs
    · split at hs <;> cases hs
      · rename_i c _ _
        refine h.mono (fun _ ht => ht) fun t _ hc => ?_
        cases hlocks : s.locks.tryLock w.which.key c with
        | none => exact hc
        | some locks =>
          change locks.isOpen t.conn = true
          rwa [SessionLocks.isOpen_of_tryLock hlocks]
      · exact h.mono (fun _ ht => ht) fun _ _ hc => hc
    · cases hs
  | taskEnds handle =>
    simp only [step, Option.ite_none_right_eq_some, Option.some.injEq] at hs
    obtain ⟨-, rfl⟩ := hs
    exact h.mono (fun _ ht => List.mem_of_mem_filter ht) fun _ _ hc => hc
  | join w =>
    simp only [step] at hs
    split at hs
    · simp only [Option.ite_none_right_eq_some, Option.some.injEq] at hs
      obtain ⟨-, rfl⟩ := hs
      exact h.mono (fun _ ht => ht) fun _ _ hc => hc
    · simp only [Option.ite_none_right_eq_some, Option.some.injEq] at hs
      obtain ⟨-, rfl⟩ := hs
      exact h.mono (fun _ ht => ht) fun _ _ hc => hc
    · cases hs
  | pingFails w | close w =>
    simp only [step] at hs
    split at hs <;> cases hs
    exact h.mono (fun _ ht => ht) fun _ _ hc => hc
  | cancel w =>
    cases hs
    exact h.mono (fun _ ht => ht) fun _ _ hc => hc
  | seeShutdown w =>
    simp only [step] at hs
    split at hs
    · simp only [Option.ite_none_right_eq_some, Option.some.injEq] at hs
      obtain ⟨-, rfl⟩ := hs
      exact h.mono (fun _ ht => ht) fun _ _ hc => hc
    · cases hs
  | abort w =>
    simp only [step] at hs
    split at hs <;> cases hs
    rename_i c handle hw
    simp only [Orderly, hw, Phase.handle, ne_eq, Option.some.injEq] at ho
    intro t ht
    obtain ⟨t', ht', rfl⟩ := List.mem_map.mp ht
    rw [if_neg fun heq => ho t' ht' heq.symm]
    exact h t' ht'
  | leave w =>
    simp only [step, Option.ite_none_right_eq_some, Option.some.injEq] at hs
    obtain ⟨-, rfl⟩ := hs
    exact h.mono (fun _ ht => ht) fun _ _ hc => hc
  | sessionEnds c =>
    simp only [step, Option.ite_none_right_eq_some, Option.some.injEq] at hs
    obtain ⟨-, rfl⟩ := hs
    exact h.mono (fun _ ht => ht) fun t ht hc => SessionLocks.isOpen_finish.mpr ⟨ho t ht, hc⟩
  | crash p =>
    cases hs
    exact h.mono (fun _ ht => List.mem_of_mem_filter ht) fun _ _ hc => hc

theorem leader_exclusive (hr : machine.run init as = some s) (which : LeaderTask) :
    ((running s which).filter (attended s)).length ≤ 1 ∧
      (machine.Along Orderly init as → (running s which).length ≤ 1) := by
  refine ⟨attended_unique hr, fun ho => ?_⟩
  have hall : AllAttended s :=
    machine.run_inv_along (fun h ho hs => allAttended_step h ho hs) (by simp [AllAttended, init]) ho hr
  have hfilter : (running s which).filter (attended s) = running s which :=
    List.filter_eq_self.mpr fun t ht => hall t (mem_running.mp ht).1
  rw [← hfilter]
  exact attended_unique hr

theorem leader_exclusive_handover : ∃ s,
    machine.run init handover = some s ∧ machine.Along Orderly init handover ∧
      0 < (running s .jetstream).length ∧ (running s .jetstream).length ≤ 1 := by
  obtain ⟨s, hs⟩ : ∃ s, machine.run init handover = some s :=
    Option.isSome_iff_exists.mp (by decide)
  have ho : machine.Along Orderly init handover := by decide
  have hcount : ∀ s ∈ machine.run init handover, 0 < (running s .jetstream).length := by decide
  exact ⟨s, hs, ho, hcount s hs, (leader_exclusive hs .jetstream).2 ho⟩

end Tasks

/-- A worker leads as soon as the lock is free. -/
theorem takeover {s : State} {w : Worker} (hw : s.phase w = .waiting)
    (hshut : s.shutdown w = false) (hfree : s.locks.holder w.which.key = none) :
    ∃ s', machine.run s [.connect w, .tryLock w] = some s' ∧
      s'.phase w = .leading s.nextConn s.nextHandle := by
  obtain ⟨s₁, hs₁, hphase, hlocks, hhandle⟩ : ∃ s₁, step s (.connect w) = some s₁ ∧
      s₁.phase w = .trying s.nextConn ∧ s₁.locks = s.locks.connect s.nextConn ∧
        s₁.nextHandle = s.nextHandle := by
    refine ⟨_, if_pos ⟨hw, hshut⟩, ?_, rfl, rfl⟩
    rw [phase_setPhase, if_pos rfl]
  have hopen : s₁.locks.isOpen s.nextConn = true := by
    rw [hlocks]
    exact SessionLocks.isOpen_connect.mpr (.inl rfl)
  obtain ⟨locks, hgot⟩ : ∃ locks, s₁.locks.tryLock w.which.key s.nextConn = some locks := by
    refine ⟨_, if_pos (.inl ?_)⟩
    rw [hlocks, SessionLocks.holder_connect]
    exact hfree
  obtain ⟨s₂, hs₂, hlead⟩ : ∃ s₂, step s₁ (.tryLock w) = some s₂ ∧
      s₂.phase w = .leading s.nextConn s₁.nextHandle := by
    simp only [step, hphase, hopen, hgot, if_true]
    refine ⟨_, rfl, ?_⟩
    rw [phase_setPhase, if_pos rfl]
  rw [hhandle] at hlead
  exact ⟨s₂, machine.run_cons_eq_some.mpr ⟨s₁, hs₁, machine.run_cons_eq_some.mpr ⟨s₂, hs₂, rfl⟩⟩,
    hlead⟩

/-- Only a worker that leads the task, or has led it, has its lock, or nobody. -/
theorem lock_not_leaked {as : List Action} {s : State} (hr : machine.run init as = some s) :
    (∀ {k c}, s.locks.holder k = some c → s.locks.isOpen c = true ∧
      ((∃ w, (s.phase w).hasLock c ∧ k = w.which.key) ∨ s.owner c = .none)) ∧
    (∀ {w c locks}, s.phase w = .trying c → s.locks.tryLock w.which.key c = some locks →
      s.locks.holder w.which.key = none) ∧
    ∀ {w}, s.phase w = .waiting → s.shutdown w = false →
      (∀ w' c, w'.which = w.which → ¬ (s.phase w').hasLock c) →
      (∀ c, s.owner c = .none → s.locks.isOpen c = false) →
      ∃ s', machine.run s [.connect w, .tryLock w] = some s' ∧
        s'.phase w = .leading s.nextConn s.nextHandle := by
  have h := inv_run hr
  refine ⟨fun hk => ⟨h.valid.isOpen hk, h.holder hk⟩, fun hw hlocks => ?_,
    fun {w} hw hshut hlead hended => ?_⟩
  · exact (SessionLocks.free_of_tryLock hlocks).resolve_right (h.not_holder_of_trying hw _)
  · refine takeover hw hshut (Option.eq_none_iff_forall_ne_some.mpr fun c hk => ?_)
    rcases h.holder hk with ⟨w', hw', hkey⟩ | hnone
    · exact hlead w' c (key_injective hkey.symm) hw'
    · have hopen := h.valid.isOpen hk
      rw [hended c hnone] at hopen
      cases hopen

theorem lock_not_leaked_handover : ∃ s, machine.run init handover = some s ∧
    s.locks.holder (lockClass, 1) = some 1 ∧ s.locks.isOpen 1 = true := by
  obtain ⟨s, hs⟩ : ∃ s, machine.run init handover = some s :=
    Option.isSome_iff_exists.mp (by decide)
  have hheld : ∀ s ∈ machine.run init handover, s.locks.holder (lockClass, 1) = some 1 := by decide
  exact ⟨s, hs, hheld s hs, ((lock_not_leaked hs).1 (hheld s hs)).1⟩

end Seiran.Leader
