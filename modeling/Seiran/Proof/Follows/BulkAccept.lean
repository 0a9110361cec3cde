import Seiran.Model.Follows.BulkAccept
import Seiran.Model.Follows.Write

/-!
# No request waits for ever

* `pending_write_quiet`, `pending_upsert`: only the statement of `savePending` makes a
  follow wait;
* `covered_finish`: what a task covered is all that its end uncovers;
* `attended_step`, `neglected_step`: an orderly step leaves every waiting request covered,
  and any other step leaves one that is not;
* `attended_iff`, `settled_of_orderly`: so it is along runs, and where all jobs have ended
  nothing waits.
-/

namespace Seiran.BulkAccept

open Follows (Follow FollowTable Statement lookup_write)

variable {s s' : State} {t : Task} {act : Action} {f a : Int64}

/-! ## Follows that wait -/

/-- A statement after which no follow waits that did not wait before -/
def Quiet (stmt : Statement) : Prop :=
  ∀ old row, stmt.change old = some (some row) → row.status = .pending →
    ∃ row' ∈ old, row'.status = .pending

theorem quiet_insertAccepted (f t : Int64) : Quiet (.insertAccepted f t) := by
  rintro (_ | old) row h hstatus
  · cases h
    cases hstatus
  · cases h

theorem quiet_insertAcceptedWithRkey (f t : Int64) (rkey : Option String) :
    Quiet (.insertAcceptedWithRkey f t rkey) := by
  rintro (_ | old) row h hstatus
  · cases h
    cases hstatus
  · cases h

theorem quiet_deleteByActors (f t : Int64) : Quiet (.deleteByActors f t) := by
  rintro (_ | old) row h
  · cases h
  · cases h

theorem quiet_acceptAndSetRkey (f t : Int64) (rkey : Option String) :
    Quiet (.acceptAndSetRkey f t rkey) := by
  rintro (_ | old) row h hstatus
  · cases h
  · simp only [Statement.change, Statement.update, Option.ite_none_right_eq_some,
      Option.some.injEq] at h
    rw [← h.2] at hstatus
    cases hstatus

theorem pending_write_other {stmt : Statement} (hk : (f, a) ≠ stmt.key) :
    pending (write s stmt) f a = pending s f a := by
  rw [pending, pending, write, lookup_write, if_neg hk]

theorem pending_write_quiet {stmt : Statement} (hquiet : Quiet stmt)
    (h : pending (write s stmt) f a = true) : pending s f a = true := by
  by_cases hk : (f, a) = stmt.key
  · rw [pending, write, lookup_write, if_pos hk, ← hk] at h
    rw [pending]
    cases hchange : stmt.change (s.follows.lookup (f, a)) with
    | none =>
      rw [hchange] at h
      exact h
    | some new =>
      rw [hchange] at h
      obtain ⟨row, rfl, hstatus⟩ := (Option.any_eq_true _ _).mp h
      obtain ⟨row', hrow', hstatus'⟩ := hquiet _ row hchange (of_decide_eq_true hstatus)
      exact (Option.any_eq_true _ _).mpr ⟨row', hrow', decide_eq_true hstatus'⟩
  · rw [pending_write_other hk] at h
    exact h

theorem not_pending_accepted (rkey : Option String) :
    pending (write s (.acceptAndSetRkey f a rkey)) f a = false := by
  have hkey : (f, a) = (Statement.acceptAndSetRkey f a rkey).key := rfl
  rw [pending, write, lookup_write, if_pos hkey, ← hkey]
  cases hrow : s.follows.lookup (f, a) with
  | none => rfl
  | some row =>
    by_cases hstatus : row.status = .pending
    · simp [Statement.change, Statement.update, hstatus]
    · simp [Statement.change, Statement.update, hstatus]

theorem key_upsert (activity : Option String) : (upsert f a activity).key = (f, a) := by
  cases activity <;> rfl

/-- The statement of `savePending` at its own row -/
theorem pending_upsert (activity : Option String) :
    pending (write s (upsert f a activity)) f a = (pending s f a || waits s f a activity) := by
  rw [pending, write, lookup_write, if_pos (key_upsert activity).symm, key_upsert, pending, waits]
  cases activity with
  | none =>
    cases s.follows.lookup (f, a) with
    | none => rfl
    | some row => simp [upsert, Statement.change, Statement.insertOrUpdate]
  | some activity =>
    cases s.follows.lookup (f, a) with
    | none => rfl
    | some row => cases hstatus : row.status <;> simp [upsert, Statement.change,
        Statement.insertOrUpdate, hstatus]

theorem mem_findPendingFollowersRaw (h : pending s f a = true) :
    f ∈ findPendingFollowersRaw s a := by
  obtain ⟨row, hrow, hstatus⟩ := (Option.any_eq_true _ _).mp h
  refine List.mem_filterMap.mpr ⟨⟨(f, a), row⟩, AList.mem_lookup_iff.mp hrow, ?_⟩
  exact if_pos ⟨rfl, of_decide_eq_true hstatus⟩

theorem pending_of_mem (h : f ∈ findPendingFollowersRaw s a) : pending s f a = true := by
  obtain ⟨⟨⟨f', a'⟩, row⟩, hmem, hrow⟩ := List.mem_filterMap.mp h
  obtain ⟨⟨htarget, hstatus⟩, hf⟩ := Option.ite_none_right_eq_some.mp hrow
  cases hf
  cases htarget
  exact (Option.any_eq_true _ _).mpr ⟨row, AList.mem_lookup_iff.mpr hmem, decide_eq_true hstatus⟩

/-! ## Who comes to them -/

/-- Every request that waits at an account whose jobs have not failed is covered. -/
def Attended (s : State) : Prop :=
  ∀ f a, a ∉ s.failed → pending s f a = true → covered s f a = true

/-- The same, while the task is not in the list -/
def Owed (s : State) (t : Task) : Prop :=
  ∀ f a, a ∉ s.failed → pending s f a = true → covered s f a = true ∨ t.covers f a = true

theorem covered_iff : covered s f a = true ↔ s.isLocked a = true ∨ (∃ job ∈ s.queue, job.1 = a) ∨
    ∃ t ∈ s.tasks, t.covers f a = true := by
  simp only [covered, Bool.or_eq_true, List.any_eq_true, decide_eq_true_eq, or_assoc]

/-- What changes neither the locks of accounts nor the queue, and drops no task -/
theorem covered_mono (hlocked : s'.isLocked = s.isLocked) (hqueue : s.queue ⊆ s'.queue)
    (htasks : s.tasks ⊆ s'.tasks) (h : covered s f a = true) : covered s' f a = true := by
  rw [covered_iff] at h ⊢
  rw [hlocked]
  refine h.imp (fun hl => hl) (Or.imp ?_ ?_)
  · rintro ⟨job, hjob, heq⟩
    exact ⟨job, hqueue hjob, heq⟩
  · rintro ⟨t, ht, hcovers⟩
    exact ⟨t, htasks ht, hcovers⟩

theorem covered_begin (h : covered s f a = true) : covered (begin s t) f a = true :=
  covered_mono (s := s) rfl (fun _ hjob => hjob) (List.subset_append_left _ _) h

theorem covered_begin_self (h : t.covers f a = true) : covered (begin s t) f a = true :=
  covered_iff.mpr (.inr (.inr ⟨t, List.mem_append_right _ (List.mem_singleton.mpr rfl), h⟩))

theorem covered_enqueue {attempt : Nat} : covered (enqueue s a attempt) f a = true :=
  covered_iff.mpr (.inr (.inl ⟨_, List.mem_append_right _ (List.mem_singleton.mpr rfl), rfl⟩))

theorem covered_finish (h : covered s f a = true) :
    covered (finish s t) f a = true ∨ t.covers f a = true := by
  rw [covered_iff] at h
  rcases h with hl | hq | ⟨t', ht', hcovers⟩
  · exact .inl (covered_iff.mpr (.inl hl))
  · exact .inl (covered_iff.mpr (.inr (.inl hq)))
  · by_cases heq : t' = t
    · rw [heq] at hcovers
      exact .inr hcovers
    · exact .inl (covered_iff.mpr (.inr (.inr ⟨t', (List.mem_erase_of_ne heq).mpr ht', hcovers⟩)))

theorem Attended.finish (h : Attended s) (t : Task) : Owed (finish s t) t :=
  fun f a hfailed hpending => covered_finish (h f a hfailed hpending)

/-- A task that came to nobody -/
theorem Owed.attended (h : Owed s t) (ht : ∀ f a, t.covers f a = false) : Attended s := by
  intro f a hfailed hpending
  refine (h f a hfailed hpending).resolve_right ?_
  rw [ht]
  exact Bool.false_ne_true

theorem Attended.begin (h : Attended s) (t : Task) : Attended (begin s t) :=
  fun f a hfailed hpending => covered_begin (h f a hfailed hpending)

theorem Attended.write (h : Attended s) {stmt : Statement} (hquiet : Quiet stmt) :
    Attended (write s stmt) :=
  fun f a hfailed hpending => h f a hfailed (pending_write_quiet hquiet hpending)

theorem Attended.unlock (h : Attended s) (key : Int64) : Attended (unlock s key) := h

/-- The task goes on as one that covers what it covered. -/
theorem Owed.begin (h : Owed s t) {t' : Task}
    (ht : ∀ f a, t.covers f a = true → t'.covers f a = true) : Attended (begin s t') := by
  intro f a hfailed hpending
  rcases h f a hfailed hpending with hc | hc
  · exact covered_begin hc
  · exact covered_begin_self (ht f a hc)

theorem Owed.enqueue (h : Owed s t) {a : Int64} {attempt : Nat}
    (ht : ∀ f a', t.covers f a' = true → a' = a) : Attended (enqueue s a attempt) := by
  intro f a' hfailed hpending
  rcases h f a' hfailed hpending with hc | hc
  · exact covered_mono (s := s) rfl (List.subset_append_left _ _) (fun _ hmem => hmem) hc
  · rw [ht f a' hc]
    exact covered_enqueue

theorem Owed.fail (h : Owed s t) {a : Int64} (ht : ∀ f a', t.covers f a' = true → a' = a) :
    Attended (fail s a) := by
  intro f a' hfailed hpending
  obtain ⟨hne, hfailed⟩ := List.ne_and_not_mem_of_not_mem_cons hfailed
  exact (h f a' hfailed hpending).resolve_right fun hc => hne (ht f a' hc)

theorem Owed.retry (h : Owed s t) {a : Int64} (attempt : Nat)
    (ht : ∀ f a', t.covers f a' = true → a' = a) : Attended (retry s a attempt) := by
  rw [BulkAccept.retry]
  split
  · exact h.begin fun f a' hc => decide_eq_true (ht f a' hc).symm
  · exact h.fail ht

/-- An approval leaves the rest of the list. -/
theorem covers_tail {f' a' : Int64} {attempt : Nat} {left : List Int64} (hne : (f', a') ≠ (f, a))
    (h : (Task.approve a attempt (f :: left)).covers f' a' = true) :
    (Task.approve a attempt left).covers f' a' = true := by
  simp only [Task.covers, Bool.and_eq_true, decide_eq_true_eq, List.contains_cons, Bool.or_eq_true,
    beq_iff_eq] at h ⊢
  obtain ⟨rfl, hmem⟩ := h
  exact ⟨rfl, hmem.resolve_left fun hf => hne (by rw [hf])⟩

/-! ## Steps -/

theorem attended_run (h : Attended s) (ho : Orderly s (.run t)) :
    Attended (runTask (finish s t) t) := by
  have hrest := h.finish t
  cases t with
  | updateLock a isLocked =>
    have hfree := hrest.attended fun _ _ => rfl
    cases isLocked with
    | true =>
      intro f a' hfailed hpending
      rcases covered_iff.mp (hfree f a' hfailed hpending) with hl | hc
      · refine covered_iff.mpr (.inl ?_)
        by_cases heq : a' = a
        · rw [heq]
          exact Function.update_self ..
        · exact (Function.update_of_ne heq ..).trans hl
      · exact covered_iff.mpr (.inr hc)
    | false =>
      intro f a' hfailed hpending
      by_cases heq : a' = a
      · rw [heq]
        exact covered_begin_self (decide_eq_true rfl)
      · rcases covered_iff.mp (hfree f a' hfailed hpending) with hl | hc
        · exact covered_begin (covered_iff.mpr (.inl ((Function.update_of_ne heq ..).trans hl)))
        · exact covered_begin (covered_iff.mpr (.inr hc))
  | enqueueFollowRequestsBulkAccept a =>
    exact hrest.enqueue fun f a' hc => (of_decide_eq_true hc).symm
  | loadTarget f a activity => exact (hrest.attended fun _ _ => rfl).begin _
  | checkBlocked f a activity isLocked => exact (hrest.attended fun _ _ => rfl).begin _
  | savePending f a activity =>
    intro f' a' hfailed hpending
    have hfree := hrest.attended (fun _ _ => rfl) f' a' hfailed
    simp only [runTask] at hpending
    by_cases heq : (f', a') = (f, a)
    · cases heq
      rw [pending_upsert, Bool.or_eq_true] at hpending
      exact hpending.elim hfree (of_decide_eq_true ho hfailed)
    · have hother : (f', a') ≠ (upsert f a activity).key := by
        rw [key_upsert]
        exact heq
      rw [pending_write_other hother] at hpending
      exact hfree hpending
  | saveAccepted f a activity =>
    have hfree := hrest.attended fun _ _ => rfl
    cases activity with
    | some activity => exact hfree.write (quiet_insertAccepted f a)
    | none =>
      simp only [runTask]
      split
      · exact hfree
      · exact (hfree.write (quiet_insertAcceptedWithRkey f a none)).begin _
  | commitFollow f a => exact hrest.attended fun _ _ => rfl
  | deleteByActors f a => exact (hrest.attended fun _ _ => rfl).write (quiet_deleteByActors f a)
  | loadPendingPair f a approve =>
    simp only [runTask]
    split
    · exact (hrest.attended fun _ _ => rfl).begin _
    · exact hrest.attended fun _ _ => rfl
  | approvePendingFollow f a =>
    exact (hrest.attended fun _ _ => rfl).write (quiet_acceptAndSetRkey f a none)
  | tryAcquire a attempt =>
    simp only [runTask]
    split
    · next hheld =>
      intro f a' hfailed hpending
      rcases hrest f a' hfailed hpending with hc | hc
      · exact hc
      · rw [← of_decide_eq_true hc] at hfailed hpending ⊢
        exact List.all_eq_true.mp (of_decide_eq_true ho hfailed hheld) f
          (mem_findPendingFollowersRaw hpending)
    · exact Owed.begin (s := { finish s (.tryAcquire a attempt) with
        advisoryLocks := a :: s.advisoryLocks }) hrest fun _ _ hc => hc
  | findTarget a attempt => exact hrest.begin fun _ _ hc => hc
  | findPendingFollowersRaw a attempt =>
    intro f a' hfailed hpending
    rcases hrest f a' hfailed hpending with hc | hc
    · exact covered_begin hc
    · refine covered_begin_self ?_
      have heq := of_decide_eq_true hc
      rw [Task.covers, decide_eq_true heq, Bool.true_and, List.contains_iff_mem, heq]
      exact mem_findPendingFollowersRaw hpending
  | approve a attempt left =>
    cases left with
    | nil => exact hrest.begin fun f a' hc => by simp [Task.covers] at hc
    | cons f left =>
      intro f' a' hfailed hpending
      replace hpending : pending (write (finish s (.approve a attempt (f :: left)))
        (.acceptAndSetRkey f a none)) f' a' = true := hpending
      by_cases heq : (f', a') = (f, a)
      · cases heq
        rw [not_pending_accepted] at hpending
        cases hpending
      · have hwaits := pending_write_quiet (quiet_acceptAndSetRkey f a none) hpending
        rcases hrest f' a' hfailed hwaits with hc | hc
        · exact covered_begin hc
        · exact covered_begin_self (covers_tail heq hc)
  | release a attempt failed =>
    cases failed with
    | true =>
      exact Owed.retry (s := unlock (finish s (.release a attempt true)) a) hrest attempt
        fun _ _ hc => (of_decide_eq_true hc).symm
    | false => exact hrest.attended fun _ _ => rfl
  | enqueueRetry a attempt => exact hrest.enqueue fun f a' hc => (of_decide_eq_true hc).symm
  | releaseOther key => exact hrest.attended fun _ _ => rfl

theorem attended_fails (h : Attended s) (ho : Orderly s (.fails t)) :
    Attended (failTask (finish s t) t) := by
  have hrest := h.finish t
  cases t with
  | enqueueFollowRequestsBulkAccept a =>
    intro f a' hfailed hpending
    rcases hrest f a' hfailed hpending with hc | hc
    · exact hc
    · rw [← of_decide_eq_true hc] at hfailed hpending ⊢
      exact List.all_eq_true.mp (of_decide_eq_true ho hfailed) f
        (mem_findPendingFollowersRaw hpending)
  | commitFollow f a => exact (hrest.attended fun _ _ => rfl).begin _
  | tryAcquire a attempt => exact hrest.retry attempt fun _ _ hc => (of_decide_eq_true hc).symm
  | findTarget a attempt => exact hrest.begin fun _ _ hc => hc
  | findPendingFollowersRaw a attempt => exact hrest.begin fun _ _ hc => hc
  | approve a attempt left =>
    cases left with
    | nil => exact hrest.begin fun f a' hc => by simp [Task.covers] at hc
    | cons f left =>
      intro f' a' hfailed hpending
      by_cases heq : (f', a') = (f, a)
      · cases heq
        exact of_decide_eq_true ho hfailed hpending
      · rcases hrest f' a' hfailed hpending with hc | hc
        · exact covered_begin hc
        · exact covered_begin_self (covers_tail heq hc)
  | release a attempt failed =>
    cases failed with
    | true =>
      exact Owed.retry (s := unlock (finish s (.release a attempt true)) a) hrest attempt
        fun _ _ hc => (of_decide_eq_true hc).symm
    | false => exact hrest.attended fun _ _ => rfl
  | enqueueRetry a attempt => exact hrest.fail fun _ _ hc => (of_decide_eq_true hc).symm
  | updateLock | loadTarget | checkBlocked | savePending | saveAccepted | deleteByActors
  | loadPendingPair | approvePendingFollow | releaseOther =>
    exact hrest.attended fun _ _ => rfl

theorem serves_of_covers (h : t.covers f a = true) : t.serves = some a := by
  cases t with
  | approve a' attempt left =>
    rw [Task.covers, Bool.and_eq_true] at h
    exact congrArg some (of_decide_eq_true h.1)
  | release a' attempt failed =>
    cases failed with
    | true => exact congrArg some (of_decide_eq_true h)
    | false => cases h
  | enqueueFollowRequestsBulkAccept | tryAcquire | findTarget | findPendingFollowersRaw
  | enqueueRetry => exact congrArg some (of_decide_eq_true h)
  | updateLock | loadTarget | checkBlocked | savePending | saveAccepted | commitFollow
  | deleteByActors | loadPendingPair | approvePendingFollow | releaseOther => cases h

theorem attended_stopTask (h : Owed s t) : Attended (stopTask s t) := by
  have hunlocked : Owed (t.holds.elim s (unlock s)) t := by
    cases t.holds <;> exact h
  rw [stopTask]
  cases hserves : t.serves with
  | none =>
    refine hunlocked.attended fun f a => Bool.eq_false_iff.mpr fun hc => ?_
    rw [serves_of_covers hc] at hserves
    cases hserves
  | some a =>
    refine hunlocked.fail fun f a' hc => ?_
    rw [serves_of_covers hc] at hserves
    exact Option.some.inj hserves

theorem attended_step (h : Attended s) (ho : Orderly s act) (hs : step s act = some s') :
    Attended s' := by
  cases act with
  | request t =>
    simp only [step] at hs
    split at hs <;> cases hs
    exact h.begin t
  | dequeue job =>
    obtain ⟨a, attempt⟩ := job
    simp only [step] at hs
    split at hs <;> cases hs
    intro f a' hfailed hpending
    rcases covered_iff.mp (h f a' hfailed hpending) with hl | ⟨job, hjob, heq⟩ | ht
    · exact covered_begin (covered_iff.mpr (.inl hl))
    · by_cases hsame : job = (a, attempt)
      · rw [hsame] at heq
        exact covered_begin_self (decide_eq_true heq)
      · exact covered_begin (covered_iff.mpr
          (.inr (.inl ⟨job, (List.mem_erase_of_ne hsame).mpr hjob, heq⟩)))
    · exact covered_begin (covered_iff.mpr (.inr (.inr ht)))
  | run t =>
    simp only [step] at hs
    split at hs <;> cases hs
    exact attended_run h ho
  | fails t =>
    simp only [step] at hs
    split at hs <;> cases hs
    exact attended_fails h ho
  | stop t =>
    simp only [step] at hs
    split at hs <;> cases hs
    exact attended_stopTask (h.finish t)
  | lose job =>
    simp only [step] at hs
    split at hs <;> cases hs
    intro f a hfailed hpending
    obtain ⟨hne, hfailed⟩ := List.ne_and_not_mem_of_not_mem_cons hfailed
    rcases covered_iff.mp (h f a hfailed hpending) with hl | ⟨job', hjob, heq⟩ | ht
    · exact covered_iff.mpr (.inl hl)
    · refine covered_iff.mpr (.inr (.inl ⟨job', (List.mem_erase_of_ne ?_).mpr hjob, heq⟩))
      rintro rfl
      exact hne heq.symm
    · exact covered_iff.mpr (.inr (.inr ht))
  | hold key =>
    simp only [step] at hs
    split at hs <;> cases hs
    exact Attended.begin (s := { s with advisoryLocks := key :: s.advisoryLocks }) h _

/-- Any other step leaves a request to which nobody comes. -/
theorem neglected_step (ho : ¬ Orderly s act) (hs : step s act = some s') : ¬ Attended s' := by
  intro h
  cases act with
  | run t =>
    simp only [step] at hs
    split at hs <;> cases hs
    cases t with
    | savePending f a activity =>
      refine ho (decide_eq_true fun hfailed hwaits => h f a hfailed ?_)
      rw [runTask, pending_upsert, Bool.or_eq_true]
      exact .inr hwaits
    | tryAcquire a attempt =>
      refine ho (decide_eq_true fun hfailed hheld => List.all_eq_true.mpr fun f hmem => ?_)
      have hrest : Attended (finish s (.tryAcquire a attempt)) := by
        rw [runTask, if_pos (show a ∈ (finish s _).advisoryLocks from hheld)] at h
        exact h
      exact hrest f a hfailed (pending_of_mem hmem)
    | _ => exact ho rfl
  | fails t =>
    simp only [step] at hs
    split at hs <;> cases hs
    cases t with
    | enqueueFollowRequestsBulkAccept a =>
      exact ho (decide_eq_true fun hfailed =>
        List.all_eq_true.mpr fun f hmem => h f a hfailed (pending_of_mem hmem))
    | approve a attempt left =>
      cases left with
      | nil => exact ho rfl
      | cons f left => exact ho (decide_eq_true fun hfailed hpending => h f a hfailed hpending)
    | _ => exact ho rfl
  | request | dequeue | stop | lose | hold => exact ho rfl

/-! ## Runs -/

theorem attended_start : Attended start := nofun

/-- Nothing is left without somebody who comes exactly along the orderly runs. -/
theorem attended_iff {as : List Action} {u : State} (hr : machine.run start as = some u) :
    (∀ bs cs v, as = bs ++ cs → machine.run start bs = some v → Attended v) ↔
      machine.Along Orderly start as := by
  constructor
  · intro h
    exact machine.along_of_prefixes (I := fun _ => True) (fun _ _ => trivial)
      (fun _ ho hs => neglected_step ho hs) trivial hr h
  · rintro h bs cs v rfl hv
    exact machine.run_inv_along (fun hI ho hs => attended_step hI ho hs) attended_start
      (machine.along_append_left h) hv

theorem Attended.settled (h : Attended s) : Settled s := by
  intro a hfailed ⟨hqueue, htasks⟩ hlocked f
  refine Bool.eq_false_iff.mpr fun hpending => ?_
  rcases covered_iff.mp (h f a hfailed hpending) with hl | ⟨job, hjob, heq⟩ | ⟨t, ht, hc⟩
  · rw [hlocked] at hl
    cases hl
  · exact hqueue job hjob heq
  · exact htasks t ht (serves_of_covers hc)

theorem settled_of_orderly {as : List Action} {u : State} (hr : machine.run start as = some u)
    (ho : machine.Along Orderly start as) : Settled u :=
  ((attended_iff hr).mpr ho as [] u (List.append_nil as).symm hr).settled

/-- The account 1 is locked, and 5 asks to follow it. -/
def asked : List Action :=
  [.request (.updateLock 1 true), .run (.updateLock 1 true),
    .request (.loadTarget 5 1 none), .run (.loadTarget 5 1 none),
    .run (.checkBlocked 5 1 none true)]

/-- It is unlocked, and the job finds what is on the list. -/
def unlocked (waiting : List Int64) : List Action :=
  [.request (.updateLock 1 false), .run (.updateLock 1 false),
    .run (.enqueueFollowRequestsBulkAccept 1), .dequeue (1, 0), .run (.tryAcquire 1 0),
    .run (.findTarget 1 0), .run (.findPendingFollowersRaw 1 0)] ++
    waiting.map (fun f => .run (.approve 1 0 [f])) ++
    [.run (.approve 1 0 []), .run (.release 1 0 false)]

theorem settled_of_orderly_asked : ∃ u,
    machine.run start (asked ++ [.run (.savePending 5 1 none)] ++ unlocked [5]) = some u ∧
      Settled u := by
  have hr : machine.run start (asked ++ [.run (.savePending 5 1 none)] ++ unlocked [5]) =
    some _ := rfl
  exact ⟨_, hr, settled_of_orderly hr (by decide)⟩

/-- The request was read as one of a locked account, and is saved after the job. -/
theorem settled_counterexample : ∃ u,
    machine.run start (asked ++ unlocked [] ++ [.run (.savePending 5 1 none)]) = some u ∧
      u.tasks = [] ∧ u.queue = [] ∧ u.failed = [] ∧ ¬ Settled u := by
  refine ⟨_, rfl, rfl, rfl, rfl, fun h => ?_⟩
  have hnone := h 1 (by decide) ⟨nofun, nofun⟩ rfl 5
  revert hnone
  decide

end Seiran.BulkAccept
