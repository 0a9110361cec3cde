import Mathlib.Data.List.Nodup
import Seiran.Model.Follows.Import

/-!
# What a follow import promises

* `base_step`: whatever happens, an item has one outcome, a completed request has no item
  without one, and nothing is followed once the cancellation was seen;
* `attended_step`: an orderly step leaves somebody who goes on;
* `told_step`: an orderly step keeps what the outcomes say true, and what is known of the
  item that the job is about;
* `faithful_of_orderly`: so it is in every state of an orderly run.
-/

namespace Seiran.FollowImport

open Follows (Follow FollowTable Statement)

variable {s s' : State} {targets : List String} {act : Action} {actorId : Int64}

/-! ## Invariants -/

/-- What the stage of the job has made sure of -/
structure Holder (s : State) (stage : Stage) : Prop where
  pending : ∀ id ∈ stage.item, ∀ item ∈ s.items, item.id = id → item.status = none
  stop : stage = .release (some .stop) → s.status ≠ .running
  completing : stage = .markCompleted → ∀ item ∈ s.items, item.status ≠ none
  unseen : s.seen = true → stage = .getRequest ∨ ∃ next, stage = .release next

/-- What holds in every state -/
structure Base (targets : List String) (s : State) : Prop where
  targets : s.items.map Item.target = targets
  nodup : (s.items.map Item.id).Nodup
  once : ∀ item ∈ s.items, outcomes s item.id = item.status.toList
  completed : s.status = .completed → ∀ item ∈ s.items, item.status ≠ none
  holder : ∀ attempt stage, s.lock = .job attempt stage → Holder s stage
  seen : s.seen = true → s.status = .cancelled
  late : s.late = false

/-- Nothing was done yet about the follow of an item. -/
def Untouched (s : State) (id : Nat) : Prop := id ∉ s.created ∧ id ∉ s.found

/-- The item that the job is about -/
def current (s : State) : Option Nat :=
  match s.lock with
  | .job _ stage => stage.item
  | _ => none

/-- What the stage knows of the follow of its item -/
def Knows (s : State) : Stage → Prop
  | .checkFollowRateLimit id | .findRequester id | .resolve id | .upsert id _ _ => Untouched s id
  | .commitFollow id _ | .deleteByActors id _ | .setAtpRkey id => id ∈ s.created ∧ id ∉ s.found
  | .deliver id result => Truthful s id (outcome (some result))
  | .markItemResult id o => Truthful s id o
  | .getRequest | .claimNextItem | .markCompleted | .release _ => True

/-- What holds as long as the outcomes are true -/
structure Told (s : State) : Prop where
  truthful : ∀ item ∈ s.items, ∀ o ∈ item.status, Truthful s item.id o
  fresh : ∀ item ∈ s.items, item.status = none → current s ≠ some item.id → Untouched s item.id
  knows : ∀ attempt stage, s.lock = .job attempt stage → Knows s stage

/-! ## What holds in every state -/

/-- A change that the base does not speak of -/
theorem Base.congr (h : Base targets s) (hstatus : s'.status = s.status)
    (hitems : s'.items = s.items) (hlock : s'.lock = s.lock) (hseen : s'.seen = s.seen)
    (hlate : s'.late = s.late) (hrecorded : s'.recorded = s.recorded) : Base targets s' where
  targets := hitems ▸ h.targets
  nodup := hitems ▸ h.nodup
  once := by
    rw [hitems]
    intro item hitem
    rw [outcomes, hrecorded]
    exact h.once item hitem
  completed := by
    rw [hitems, hstatus]
    exact h.completed
  holder attempt stage hl := by
    rw [hlock] at hl
    have hstage := h.holder attempt stage hl
    refine ⟨?_, ?_, ?_, ?_⟩
    · rw [hitems]
      exact hstage.pending
    · rw [hstatus]
      exact hstage.stop
    · rw [hitems]
      exact hstage.completing
    · rw [hseen]
      exact hstage.unseen
  seen := by
    rw [hseen, hstatus]
    exact h.seen
  late := hlate.trans h.late

theorem Base.begin (h : Base targets s) (t : Task) : Base targets (begin s t) :=
  h.congr rfl rfl rfl rfl rfl rfl

theorem Base.finish (h : Base targets s) (t : Task) : Base targets (finish s t) :=
  h.congr rfl rfl rfl rfl rfl rfl

theorem Base.enqueue (h : Base targets s) (attempt : Nat) : Base targets (enqueue s attempt) :=
  h.congr rfl rfl rfl rfl rfl rfl

theorem Base.retry (h : Base targets s) (attempt : Nat) : Base targets (retry s attempt) := by
  rw [FollowImport.retry]
  split
  · exact h.begin _
  · exact h.congr rfl rfl rfl rfl rfl rfl

theorem Base.restart (h : Base targets s) (resumes : Bool) : Base targets (restart s resumes) := by
  cases resumes with
  | true => exact h.begin _
  | false => exact h

theorem Base.unlock (h : Base targets s) (lock : Lock) (hlock : ∀ a stage, lock ≠ .job a stage) :
    Base targets { s with lock := lock } where
  targets := h.targets
  nodup := h.nodup
  once := h.once
  completed := h.completed
  holder a stage hl := absurd hl (hlock a stage)
  seen := h.seen
  late := h.late

/-- Of the stage before nothing is needed. -/
theorem Base.relock (h : Base targets { s with lock := .free }) (attempt : Nat) {stage : Stage}
    (hstage : Holder s stage) : Base targets (go s attempt stage) where
  targets := h.targets
  nodup := h.nodup
  once := h.once
  completed := h.completed
  holder a stage' hl := by
    cases hl
    exact ⟨hstage.pending, hstage.stop, hstage.completing, hstage.unseen⟩
  seen := h.seen
  late := h.late

theorem Base.go (h : Base targets s) (attempt : Nat) {stage : Stage} (hstage : Holder s stage) :
    Base targets (go s attempt stage) :=
  (h.unlock .free nofun).relock attempt hstage

/-- A stage without an item, and which does not stop for good -/
theorem holder_plain {stage : Stage} (hitem : stage.item = none)
    (hstop : stage ≠ .release (some .stop)) (hcompleting : stage ≠ .markCompleted)
    (hunseen : s.seen = true → stage = .getRequest ∨ ∃ next, stage = .release next) :
    Holder s stage where
  pending id hid := by
    rw [hitem] at hid
    cases hid
  stop heq := absurd heq hstop
  completing heq := absurd heq hcompleting
  unseen := hunseen

theorem holder_release {next : Option NextAction} (h : next = some .stop → s.status ≠ .running) :
    Holder s (.release next) where
  pending := nofun
  stop heq := h (Stage.release.inj heq)
  completing := nofun
  unseen _ := .inr ⟨next, rfl⟩

theorem holder_markCompleted (h : ∀ item ∈ s.items, item.status ≠ none) (hunseen : s.seen ≠ true) :
    Holder s .markCompleted where
  pending := nofun
  stop := nofun
  completing _ := h
  unseen hseen := absurd hseen hunseen

/-- The next stage of the same item -/
theorem Holder.next {stage stage' : Stage} {id : Nat} (h : Holder s stage)
    (hitem : stage.item = some id) (hitem' : stage'.item = some id) : Holder s stage' where
  pending := by
    rw [hitem', ← hitem]
    exact h.pending
  stop heq := by
    rw [heq] at hitem'
    cases hitem'
  completing heq := by
    rw [heq] at hitem'
    cases hitem'
  unseen hseen := by
    rcases h.unseen hseen with heq | ⟨next, heq⟩
    · rw [heq] at hitem
      cases hitem
    · rw [heq] at hitem
      cases hitem

theorem mem_of_nextItem {item : Item} (h : nextItem s = some item) :
    item ∈ s.items ∧ item.status = none := by
  refine ⟨List.mem_of_find?_eq_some h, ?_⟩
  exact of_decide_eq_true (List.find?_some (p := fun item : Item => decide (item.status = none)) h)

/-- The claimed item is the only one of its id. -/
theorem Base.claimed (h : Base targets s) {item : Item} (hnext : nextItem s = some item) :
    ∀ item' ∈ s.items, item'.id = item.id → item'.status = none := by
  intro item' hitem' heq
  obtain ⟨hitem, hstatus⟩ := mem_of_nextItem hnext
  rw [List.inj_on_of_nodup_map h.nodup hitem' hitem heq]
  exact hstatus

/-- The statement changes nothing of an item but its status. -/
theorem map_markItemResult {α : Type} (f : Item → α) (hf : ∀ item o, f { item with status := o } = f item)
    (id : Nat) (o : Outcome) : (markItemResult s id o).items.map f = s.items.map f := by
  rw [markItemResult, List.map_map]
  refine List.map_congr_left fun item _ => ?_
  rw [Function.comp_apply]
  split
  · exact hf item _
  · rfl

theorem mem_markItemResult {id : Nat} {o : Outcome} {item : Item}
    (h : item ∈ (markItemResult s id o).items) :
    (item ∈ s.items ∧ (item.id = id → item.status ≠ none)) ∨
      ∃ item' ∈ s.items, item'.id = id ∧ item'.status = none ∧ item = { item' with status := some o } := by
  obtain ⟨item', hitem', rfl⟩ := List.mem_map.mp h
  split
  · next hc => exact .inr ⟨item', hitem', hc.1, hc.2, rfl⟩
  · next hc => exact .inl ⟨hitem', fun hid hstatus => hc ⟨hid, hstatus⟩⟩

theorem outcomes_markItemResult (s : State) (id id' : Nat) (o : Outcome) :
    outcomes (markItemResult s id o) id' = outcomes s id' ++
      if id = id' ∧ s.items.any (fun item => item.id = id ∧ item.status = none) then [o] else [] := by
  rw [outcomes, markItemResult]
  by_cases hany : s.items.any (fun item => item.id = id ∧ item.status = none) = true
  · rw [if_pos hany, List.filter_append, List.map_append]
    by_cases hid : id = id'
    · rw [if_pos ⟨hid, hany⟩]
      simp [outcomes, hid]
    · rw [if_neg fun hc => hid hc.1]
      simp [outcomes, hid]
  · rw [if_neg hany, if_neg fun hc => hany hc.2, List.append_nil]
    rfl

theorem Base.record (h : Base targets s) {id : Nat} (o : Outcome)
    (hpending : ∀ item ∈ s.items, item.id = id → item.status = none) :
    Base targets { markItemResult s id o with lock := .free } where
  targets := (map_markItemResult Item.target (fun _ _ => rfl) id o).trans h.targets
  nodup := by
    rw [show List.map Item.id _ = _ from map_markItemResult (s := s) Item.id (fun _ _ => rfl) id o]
    exact h.nodup
  once item hitem := by
    have houtcomes := outcomes_markItemResult s id item.id o
    rcases mem_markItemResult hitem with ⟨hitem, hnot⟩ | ⟨item', hitem', hid, hstatus, rfl⟩
    · have hne : id ≠ item.id := fun heq => hnot heq.symm (hpending item hitem heq.symm)
      rw [if_neg fun hc => hne hc.1, List.append_nil, h.once item hitem] at houtcomes
      exact houtcomes
    · have hany : s.items.any (fun item => item.id = id ∧ item.status = none) = true :=
        List.any_eq_true.mpr ⟨item', hitem', decide_eq_true ⟨hid, hstatus⟩⟩
      have honce := h.once item' hitem'
      rw [hstatus] at honce
      rw [if_pos ⟨hid.symm, hany⟩, show outcomes s item'.id = [] from honce] at houtcomes
      exact houtcomes
  completed hstatus item hitem := by
    rcases mem_markItemResult hitem with ⟨hitem, -⟩ | ⟨item', -, -, -, rfl⟩
    · exact h.completed hstatus item hitem
    · exact Option.some_ne_none o
  holder := nofun
  seen := h.seen
  late := h.late

theorem Base.write (h : Base targets s) (id : Nat) (stmt : Statement) :
    Base targets (write s id stmt) := by
  rw [FollowImport.write]
  split <;> exact h.congr rfl rfl rfl rfl rfl rfl

theorem holder_write {id : Nat} {stmt : Statement} {stage : Stage} (h : Holder s stage) :
    Holder (write s id stmt) stage := by
  rw [FollowImport.write]
  split <;> exact ⟨h.pending, h.stop, h.completing, h.unseen⟩

theorem base_upsert (h : Base targets s) {id : Nat} {route : Route} {target : Int64}
    (hstage : Holder s (.upsert id route target)) (attempt : Nat) :
    Base targets (upsert s actorId attempt id route target) := by
  have hnext : ∀ {stage} stmt, stage.item = some id →
      Base targets (go (write s id stmt) attempt stage) := fun stmt hitem =>
    (h.write id stmt).go attempt (holder_write (hstage.next rfl hitem))
  cases route with
  | localLocked => exact hnext _ rfl
  | «local» | bsky =>
    refine hnext _ ?_
    split <;> rfl
  | fediLocked => exact hnext _ rfl
  | fedi => exact hnext _ rfl

theorem base_release (h : Base targets s) (actorId : Int64) (attempt : Nat)
    (next : Option NextAction) :
    Base targets (work s actorId attempt (.release next)) := by
  have hfree : Base targets { s with lock := .free } := h.unlock .free nofun
  cases next with
  | none => exact hfree.retry attempt
  | some next =>
    cases next with
    | continue_ | retryAfter => exact hfree.begin _
    | stop => exact hfree

theorem base_work (h : Base targets s) {attempt : Nat} {stage : Stage} (hstage : Holder s stage) :
    Base targets (work s actorId attempt stage) := by
  cases stage with
  | getRequest =>
    simp only [work]
    split
    · next hrunning =>
      refine h.go attempt (holder_plain rfl nofun nofun fun hseen => ?_)
      rw [h.seen hseen] at hrunning
      cases hrunning
    · next hstopped =>
      have hseen : (s.seen || decide (s.status = .cancelled)) = true → s.status = .cancelled := by
        intro hseen
        rw [Bool.or_eq_true] at hseen
        exact hseen.elim h.seen of_decide_eq_true
      have hsaw : Base targets { s with
          seen := s.seen || decide (s.status = .cancelled), lock := .free } :=
        ⟨h.targets, h.nodup, h.once, h.completed, nofun, hseen, h.late⟩
      exact Base.relock (s := { s with seen := s.seen || decide (s.status = .cancelled) }) hsaw
        attempt (holder_release fun _ => hstopped)
  | claimNextItem =>
    have hunseen : s.seen ≠ true := fun hseen => by
      rcases hstage.unseen hseen with heq | ⟨next, heq⟩ <;> cases heq
    simp only [work]
    split
    · next item hnext =>
      refine h.go attempt ⟨fun id hid => ?_, nofun, nofun, fun hseen => absurd hseen hunseen⟩
      cases hid
      exact h.claimed hnext
    · next hnext =>
      refine h.go attempt (holder_markCompleted (fun item hitem => ?_) hunseen)
      simpa using List.find?_eq_none.mp hnext item hitem
  | markCompleted =>
    have hseen : s.seen = true →
        (if s.status = .running then RequestStatus.completed else s.status) = .cancelled := by
      intro hseen
      simp [h.seen hseen]
    have hstopped : (if s.status = .running then RequestStatus.completed else s.status) ≠ .running := by
      cases hstatus : s.status <;> simp
    have hcompleted : Base targets { s with
        status := if s.status = .running then .completed else s.status, lock := .free } :=
      ⟨h.targets, h.nodup, h.once, fun _ => hstage.completing rfl, nofun, hseen, h.late⟩
    exact Base.relock (s := { s with status := if s.status = .running then .completed else s.status })
      hcompleted attempt (holder_release fun _ => hstopped)
  | checkFollowRateLimit id => exact h.go attempt (hstage.next rfl rfl)
  | findRequester id => exact h.go attempt (hstage.next rfl rfl)
  | resolve id => exact h.go attempt (hstage.next rfl rfl)
  | upsert id route target => exact base_upsert h hstage attempt
  | commitFollow id target => exact h.go attempt (hstage.next rfl rfl)
  | setAtpRkey id => exact h.go attempt (hstage.next rfl rfl)
  | deliver id result => exact h.go attempt (hstage.next rfl rfl)
  | deleteByActors id target =>
    have hnext : Holder s (.markItemResult id (outcome none)) := hstage.next rfl rfl
    have hchanged : Base targets { s with
        follows := s.follows.write (.deleteByActors actorId target)
        created := s.created.filter (· ≠ id) } := h.congr rfl rfl rfl rfl rfl rfl
    exact hchanged.go attempt ⟨hnext.pending, hnext.stop, hnext.completing, hnext.unseen⟩
  | markItemResult id o =>
    exact (h.record o (hstage.pending id rfl)).relock attempt
      (holder_release nofun)
  | release next => exact base_release h actorId attempt next

theorem base_workFails (h : Base targets s) {attempt : Nat} {stage : Stage} (hstage : Holder s stage) :
    Base targets (workFails s actorId attempt stage) := by
  have herror : Base targets (go s attempt (.release none)) := h.go attempt (holder_release nofun)
  cases stage with
  | resolve id => exact h.go attempt (hstage.next rfl rfl)
  | upsert id route target => exact h.go attempt (hstage.next rfl rfl)
  | setAtpRkey id => exact h.go attempt (hstage.next rfl rfl)
  | deliver id result => exact h.go attempt (hstage.next rfl rfl)
  | commitFollow id target => exact h.go attempt (hstage.next rfl rfl)
  | deleteByActors id target => exact h.go attempt (hstage.next rfl rfl)
  | release next => exact base_release h actorId attempt next
  | getRequest | claimNextItem | markCompleted | checkFollowRateLimit | findRequester
  | markItemResult => exact herror

theorem base_runTask (h : Base targets s) (t : Task) : Base targets (runTask s t) := by
  cases t with
  | enqueueFollowImportProcess => exact h.enqueue 0
  | runningFollowImportIds =>
    simp only [runTask]
    split
    · exact h.begin _
    · exact h
  | tryAcquire attempt =>
    simp only [runTask]
    split
    · exact h.go attempt (holder_plain rfl nofun nofun fun _ => .inl rfl)
    · exact h
  | enqueueNext attempt => exact h.enqueue 0
  | enqueueRetry attempt => exact h.enqueue (attempt + 1)

theorem base_failTask (h : Base targets s) (t : Task) : Base targets (failTask s t) := by
  cases t with
  | enqueueFollowImportProcess | runningFollowImportIds => exact h
  | tryAcquire attempt | enqueueNext attempt => exact h.retry attempt
  | enqueueRetry attempt => exact h.congr rfl rfl rfl rfl rfl rfl

theorem base_cancel (h : Base targets s) (hrunning : s.status = .running) :
    Base targets { s with status := .cancelled } where
  targets := h.targets
  nodup := h.nodup
  once := h.once
  completed := nofun
  holder attempt stage hl := by
    have hstage := h.holder attempt stage hl
    exact ⟨hstage.pending, fun heq => absurd hrunning (hstage.stop heq), hstage.completing,
      hstage.unseen⟩
  seen _ := rfl
  late := h.late

/-- Nothing is followed after the cancellation was seen. -/
theorem Base.not_late (h : Base targets s) {attempt : Nat} {stage : Stage}
    (hlock : s.lock = .job attempt stage) : (s.late || (s.seen && stage.follows)) = s.late := by
  cases hseen : s.seen with
  | false => simp
  | true =>
    rcases (h.holder attempt stage hlock).unseen hseen with rfl | ⟨next, rfl⟩ <;>
      simp [Stage.follows]

theorem base_step (h : Base targets s) (hs : step s actorId act = some s') : Base targets s' := by
  cases act with
  | run t =>
    simp only [step] at hs
    split at hs <;> cases hs
    exact base_runTask (h.finish t) t
  | fails t =>
    simp only [step] at hs
    split at hs <;> cases hs
    exact base_failTask (h.finish t) t
  | dequeue attempt =>
    simp only [step] at hs
    split at hs <;> cases hs
    exact Base.begin (s := { s with queue := s.queue.erase attempt })
      (h.congr rfl rfl rfl rfl rfl rfl) _
  | work =>
    simp only [step] at hs
    split at hs <;> cases hs
    next attempt stage hlock =>
      have hstage := h.holder attempt stage hlock
      have hlate := h.not_late hlock
      have hfollowing : Base targets { s with late := s.late || (s.seen && stage.follows) } :=
        h.congr rfl rfl rfl rfl hlate rfl
      exact base_work hfollowing ⟨hstage.pending, hstage.stop, hstage.completing, hstage.unseen⟩
  | workFails =>
    simp only [step] at hs
    split at hs <;> cases hs
    next attempt stage hlock => exact base_workFails h (h.holder attempt stage hlock)
  | exceeded =>
    simp only [step] at hs
    split at hs <;> cases hs
    next attempt id hlock => exact h.go attempt (holder_release nofun)
  | resolved route target =>
    simp only [step] at hs
    split at hs <;> cases hs
    next attempt id hlock =>
      exact h.go attempt ((h.holder attempt (.resolve id) hlock).next rfl rfl)
  | endTask t resumes =>
    simp only [step] at hs
    split at hs <;> cases hs
    exact (h.finish t).restart resumes
  | endJob resumes =>
    simp only [step] at hs
    split at hs <;> cases hs
    exact (h.unlock .other nofun).restart resumes
  | lose attempt resumes =>
    simp only [step] at hs
    split at hs <;> cases hs
    exact Base.restart (s := { s with queue := s.queue.erase attempt })
      (h.congr rfl rfl rfl rfl rfl rfl) resumes
  | startUp =>
    cases hs
    exact h.begin _
  | hold =>
    simp only [step] at hs
    split at hs <;> cases hs
    exact h.unlock .other nofun
  | sessionEnds =>
    simp only [step] at hs
    split at hs <;> cases hs
    exact h.unlock .free nofun
  | cancel =>
    simp only [step] at hs
    split at hs <;> cases hs
    next hrunning => exact base_cancel h hrunning
  | other stmt =>
    cases hs
    exact h.congr rfl rfl rfl rfl rfl rfl

/-! ## Somebody goes on -/

theorem attended_of_kept (h : kept s = true) : attended s = true := by
  rw [attended, h, Bool.or_true]

theorem attended_of_stopped (h : s.status ≠ .running) : attended s = true := by
  simp [attended, h]

theorem kept_begin (t : Task) : kept (begin s t) = true := by
  simp [kept, begin]

theorem kept_enqueue (attempt : Nat) : kept (enqueue s attempt) = true := by
  simp [kept, enqueue]

theorem kept_job {attempt : Nat} {stage : Stage} (h : s.lock = .job attempt stage) :
    kept s = true := by
  simp [kept, h]

theorem attended_retry (attempt : Nat) : attended (retry s attempt) = true := by
  rw [retry]
  split
  · exact attended_of_kept (kept_begin _)
  · simp [attended]

theorem attended_restart {resumes : Bool} (h : resumes = false → attended s = true) :
    attended (restart s resumes) = true := by
  cases resumes with
  | true => exact attended_of_kept (kept_begin _)
  | false => exact h rfl

theorem attended_release {next : Option NextAction} (hstage : Holder s (.release next))
    (actorId : Int64) (attempt : Nat) :
    attended (work s actorId attempt (.release next)) = true := by
  cases next with
  | none => exact attended_retry attempt
  | some next =>
    cases next with
    | continue_ | retryAfter => exact attended_of_kept (kept_begin _)
    | stop => exact attended_of_stopped (hstage.stop rfl)

theorem attended_work {attempt : Nat} {stage : Stage} (hstage : Holder s stage) :
    attended (work s actorId attempt stage) = true := by
  have hgo : ∀ u stage', attended (go u attempt stage') = true :=
    fun u stage' => attended_of_kept (kept_job (s := go u attempt stage') rfl)
  cases stage with
  | release next => exact attended_release hstage actorId attempt
  | getRequest | claimNextItem =>
    simp only [work]
    split <;> exact hgo _ _
  | upsert id route target => cases route <;> exact hgo _ _
  | markCompleted | checkFollowRateLimit | findRequester | resolve | commitFollow | setAtpRkey
  | deleteByActors | deliver | markItemResult => exact hgo _ _

theorem attended_workFails {attempt : Nat} {stage : Stage} (hstage : Holder s stage) :
    attended (workFails s actorId attempt stage) = true := by
  have hgo : ∀ u stage', attended (go u attempt stage') = true :=
    fun u stage' => attended_of_kept (kept_job (s := go u attempt stage') rfl)
  cases stage with
  | release next => exact attended_release hstage actorId attempt
  | getRequest | claimNextItem | markCompleted | checkFollowRateLimit | findRequester | resolve
  | upsert | commitFollow | setAtpRkey | deleteByActors | deliver | markItemResult =>
    exact hgo _ _

theorem attended_run {t : Task} (ho : Orderly actorId s (.run t)) :
    attended (runTask (finish s t) t) = true := by
  cases t with
  | enqueueFollowImportProcess | enqueueNext | enqueueRetry =>
    exact attended_of_kept (kept_enqueue _)
  | runningFollowImportIds =>
    simp only [runTask]
    split
    · exact attended_of_kept (kept_begin _)
    · next hstopped => exact attended_of_stopped hstopped
  | tryAcquire attempt =>
    simp only [runTask]
    split
    · exact attended_of_kept (kept_job rfl)
    · next htaken =>
      rw [Orderly, orderly, Bool.or_eq_true] at ho
      exact ho.resolve_left fun hfree => htaken (of_decide_eq_true hfree)

theorem attended_fails {t : Task} (ho : Orderly actorId s (.fails t)) :
    attended (failTask (finish s t) t) = true := by
  cases t with
  | enqueueFollowImportProcess | runningFollowImportIds => exact ho
  | tryAcquire attempt | enqueueNext attempt => exact attended_retry attempt
  | enqueueRetry attempt => simp [failTask, attended]

theorem attended_step (hb : Base targets s) (h : attended s = true) (ho : Orderly actorId s act)
    (hs : step s actorId act = some s') : attended s' = true := by
  cases act with
  | run t =>
    simp only [step] at hs
    split at hs <;> cases hs
    exact attended_run ho
  | fails t =>
    simp only [step] at hs
    split at hs <;> cases hs
    exact attended_fails ho
  | dequeue attempt =>
    simp only [step] at hs
    split at hs <;> cases hs
    exact attended_of_kept (kept_begin _)
  | work =>
    simp only [step] at hs
    split at hs <;> cases hs
    next attempt stage hlock =>
      have hstage := hb.holder attempt stage hlock
      exact attended_work ⟨hstage.pending, hstage.stop, hstage.completing, hstage.unseen⟩
  | workFails =>
    simp only [step] at hs
    split at hs <;> cases hs
    next attempt stage hlock => exact attended_workFails (hb.holder attempt stage hlock)
  | exceeded | resolved =>
    simp only [step] at hs
    split at hs <;> cases hs
    exact attended_of_kept (kept_job rfl)
  | endTask t resumes =>
    simp only [step] at hs
    split at hs <;> cases hs
    rw [Orderly, orderly, Bool.or_eq_true] at ho
    exact attended_restart fun hresumes => ho.resolve_left (Bool.eq_false_iff.mp hresumes)
  | endJob resumes =>
    simp only [step] at hs
    split at hs <;> cases hs
    rw [Orderly, orderly, Bool.and_eq_true, Bool.or_eq_true] at ho
    exact attended_restart fun hresumes => ho.1.resolve_left (Bool.eq_false_iff.mp hresumes)
  | lose attempt resumes =>
    simp only [step] at hs
    split at hs <;> cases hs
    rw [Orderly, orderly, Bool.or_eq_true] at ho
    exact attended_restart fun hresumes => ho.resolve_left (Bool.eq_false_iff.mp hresumes)
  | startUp =>
    cases hs
    exact attended_of_kept (kept_begin _)
  | hold | sessionEnds =>
    simp only [step] at hs
    split at hs <;> cases hs
    next hlock => simpa [attended, kept, hlock] using h
  | cancel =>
    simp only [step] at hs
    split at hs <;> cases hs
    exact attended_of_stopped nofun
  | other stmt =>
    cases hs
    exact h

/-! ## Outcomes are true -/

theorem current_job {attempt : Nat} {stage : Stage} (h : s.lock = .job attempt stage) :
    current s = stage.item := by
  rw [current, h]

theorem truthful_failed {id : Nat} (h : Untouched s id) : Truthful s id .failed :=
  ⟨⟨nofun, fun hc => absurd hc h.1⟩, ⟨nofun, fun hf => absurd hf.1 h.2⟩⟩

theorem truthful_succeeded {id : Nat} (hcreated : id ∈ s.created) : Truthful s id .succeeded :=
  ⟨⟨fun _ => hcreated, fun _ => rfl⟩, ⟨nofun, fun hf => absurd hcreated hf.2⟩⟩

theorem truthful_alreadyFollowing {id : Nat} (hcreated : id ∉ s.created) (hfound : id ∈ s.found) :
    Truthful s id .alreadyFollowing :=
  ⟨⟨nofun, fun hc => absurd hc hcreated⟩, ⟨fun _ => ⟨hfound, hcreated⟩, fun _ => rfl⟩⟩

/-- The lock goes to a stage, and what is known of the item before is still of use or is not
needed any more. -/
theorem Told.go (h : Told s) (attempt : Nat) {stage : Stage} (hknows : Knows s stage)
    (hfresh : ∀ id, current s = some id → stage.item = some id ∨ Untouched s id) :
    Told (go s attempt stage) where
  truthful := h.truthful
  fresh item hitem hstatus hne := by
    by_cases hcurrent : current s = some item.id
    · exact (hfresh item.id hcurrent).resolve_left hne
    · exact h.fresh item hitem hstatus hcurrent
  knows a stage' hl := by
    cases hl
    cases stage <;> exact hknows

theorem Told.unlock (h : Told s) (lock : Lock) (hlock : ∀ a stage, lock ≠ .job a stage)
    (hfresh : ∀ id, current s = some id → Untouched s id) : Told { s with lock := lock } where
  truthful := h.truthful
  fresh item hitem hstatus _ := by
    by_cases hcurrent : current s = some item.id
    · exact hfresh item.id hcurrent
    · exact h.fresh item hitem hstatus hcurrent
  knows a stage hl := absurd hl (hlock a stage)

theorem Told.congr (h : Told s) (hitems : s'.items = s.items) (hlock : s'.lock = s.lock)
    (hcreated : s'.created = s.created) (hfound : s'.found = s.found) : Told s' := by
  have htruthful : ∀ id o, Truthful s' id o ↔ Truthful s id o := by
    intro id o
    rw [Truthful, Truthful, hcreated, hfound]
  have huntouched : ∀ id, Untouched s' id ↔ Untouched s id := by
    intro id
    rw [Untouched, Untouched, hcreated, hfound]
  constructor
  case truthful =>
    rw [hitems]
    exact fun item hitem o ho => (htruthful _ _).mpr (h.truthful item hitem o ho)
  case fresh =>
    rw [hitems, current, hlock]
    exact fun item hitem hstatus hne => (huntouched _).mpr (h.fresh item hitem hstatus hne)
  case knows =>
    rw [hlock]
    intro attempt stage hl
    have hknows := h.knows attempt stage hl
    cases stage with
    | checkFollowRateLimit | findRequester | resolve | upsert => exact (huntouched _).mpr hknows
    | commitFollow | deleteByActors | setAtpRkey =>
      rw [Knows, hcreated, hfound]
      exact hknows
    | deliver | markItemResult => exact (htruthful _ _).mpr hknows
    | getRequest | claimNextItem | markCompleted | release => trivial

/-- The job writes about its own item. -/
theorem Told.change (h : Told s) {id : Nat} (hcurrent : current s = some id)
    (hpending : ∀ item ∈ s.items, item.id = id → item.status = none) (hitems : s'.items = s.items)
    (hother : ∀ j ≠ id, (j ∈ s'.created ↔ j ∈ s.created) ∧ (j ∈ s'.found ↔ j ∈ s.found))
    (attempt : Nat) {stage : Stage} (hitem : stage.item = some id) (hknows : Knows s' stage) :
    Told (FollowImport.go s' attempt stage) where
  truthful := by
    intro item hmem o ho
    have hmem : item ∈ s.items := hitems ▸ hmem
    have hne : item.id ≠ id := fun heq => by
      rw [hpending item hmem heq] at ho
      cases ho
    have htruthful := h.truthful item hmem o ho
    rw [Truthful, ← (hother _ hne).1, ← (hother _ hne).2] at htruthful
    exact htruthful
  fresh := by
    intro item hmem hstatus hne
    have hmem : item ∈ s.items := hitems ▸ hmem
    have hne : item.id ≠ id := fun heq => hne (by rw [heq]; exact hitem)
    have hfresh := h.fresh item hmem hstatus fun hc => hne (Option.some.inj (hc.symm.trans hcurrent))
    rw [Untouched, ← (hother _ hne).1, ← (hother _ hne).2] at hfresh
    exact hfresh
  knows a stage' hl := by
    cases hl
    cases stage <;> exact hknows

theorem Told.record (h : Told s) {id : Nat} {o : Outcome} (hcurrent : current s = some id)
    (ho : Truthful s id o) (attempt : Nat) (next : Option NextAction) :
    Told (FollowImport.go (markItemResult s id o) attempt (.release next)) where
  truthful item hitem o' ho' := by
    rcases mem_markItemResult hitem with ⟨hitem, -⟩ | ⟨item', -, rfl, -, rfl⟩
    · exact h.truthful item hitem o' ho'
    · cases ho'
      exact ho
  fresh item hitem hstatus _ := by
    rcases mem_markItemResult hitem with ⟨hitem, hnot⟩ | ⟨item', -, -, -, rfl⟩
    · refine h.fresh item hitem hstatus fun hc => ?_
      exact hnot (Option.some.inj (hc.symm.trans hcurrent)) hstatus
    · cases hstatus
  knows a stage hl := by
    cases hl
    trivial

theorem told_retry (h : Told s) (attempt : Nat) : Told (retry s attempt) := by
  rw [retry]
  split <;> exact h.congr rfl rfl rfl rfl

theorem told_restart (h : Told s) (resumes : Bool) : Told (restart s resumes) := by
  cases resumes with
  | true => exact h.congr rfl rfl rfl rfl
  | false => exact h

theorem told_release (h : Told s) (hcurrent : current s = none) (actorId : Int64) (attempt : Nat)
    (next : Option NextAction) : Told (work s actorId attempt (.release next)) := by
  have hfree : Told { s with lock := .free } := h.unlock .free nofun fun id hid => by
    rw [hcurrent] at hid
    cases hid
  cases next with
  | none => exact told_retry hfree attempt
  | some next =>
    cases next with
    | continue_ | retryAfter => exact hfree.congr rfl rfl rfl rfl
    | stop => exact hfree

theorem write_other {id j : Nat} (stmt : Statement) (hne : j ≠ id) :
    (j ∈ (write s id stmt).created ↔ j ∈ s.created) ∧ (j ∈ (write s id stmt).found ↔ j ∈ s.found) := by
  rw [write]
  split <;> simp [hne]

theorem items_write (id : Nat) (stmt : Statement) : (write s id stmt).items = s.items := by
  rw [write]
  split <;> rfl

/-- The statement finds the follow. -/
theorem write_found {id : Nat} {stmt : Statement} (h : Untouched s id)
    (hrow : (s.follows.lookup stmt.key).isSome = true) :
    id ∉ (write s id stmt).created ∧ id ∈ (write s id stmt).found := by
  rw [write, if_pos hrow]
  exact ⟨h.1, List.mem_cons_self⟩

theorem write_created {id : Nat} {stmt : Statement} (h : Untouched s id)
    (hrow : ¬ (s.follows.lookup stmt.key).isSome = true) :
    id ∈ (write s id stmt).created ∧ id ∉ (write s id stmt).found := by
  rw [write, if_neg hrow]
  exact ⟨List.mem_cons_self, h.2⟩

/-- What a path makes of its statement is true, if that says whether there was a follow. -/
theorem truthful_write {id : Nat} {stmt : Statement} (h : Untouched s id) {result : FollowOutcome}
    (hresult : outcome (some result) =
      if (s.follows.lookup stmt.key).isSome then .alreadyFollowing else .succeeded) :
    Truthful (write s id stmt) id (outcome (some result)) := by
  rw [hresult]
  split
  · next hrow =>
    obtain ⟨hcreated, hfound⟩ := write_found h hrow
    exact truthful_alreadyFollowing hcreated hfound
  · next hrow => exact truthful_succeeded (write_created h hrow).1

/-- The result of a statement that says what it found -/
theorem outcome_upsertPending (row : Option Follow) :
    outcome (some (if isAccepted row then .accepted true else .pending row.isSome)) =
        (if row.isSome then Outcome.alreadyFollowing else .succeeded) ∧
      outcome (some (if isAccepted row then .accepted row.isSome else .pending row.isSome)) =
        if row.isSome then Outcome.alreadyFollowing else .succeeded := by
  cases row with
  | none => exact ⟨rfl, rfl⟩
  | some row => constructor <;> split <;> rfl

theorem told_upsert (h : Told s) {attempt id : Nat} {route : Route} {target : Int64}
    (hlock : s.lock = .job attempt (.upsert id route target))
    (hstage : Holder s (.upsert id route target))
    (ho : route = .fedi → s.follows.lookup (actorId, target) = none) :
    Told (upsert s actorId attempt id route target) := by
  have huntouched : Untouched s id := h.knows attempt _ hlock
  have hnext : ∀ {stage} stmt, stage.item = some id → Knows (write s id stmt) stage →
      Told (go (write s id stmt) attempt stage) := fun stmt hitem hknows =>
    h.change (current_job hlock) (hstage.pending id rfl) (items_write id stmt)
      (fun _ hne => write_other stmt hne) attempt hitem hknows
  cases route with
  | localLocked =>
    exact hnext (.upsertPending actorId target) rfl
      (truthful_write huntouched (outcome_upsertPending _).1)
  | «local» | bsky =>
    by_cases hrow : (s.follows.lookup (actorId, target)).isSome = true
    · simp only [upsert, if_pos hrow]
      refine hnext (.insertAcceptedWithRkey actorId target none) rfl (truthful_write huntouched ?_)
      exact (if_pos hrow).symm
    · simp only [upsert, if_neg hrow]
      exact hnext (.insertAcceptedWithRkey actorId target none) rfl (write_created huntouched hrow)
  | fediLocked =>
    exact hnext (.upsertPending actorId target) rfl
      (truthful_write huntouched (outcome_upsertPending _).2)
  | fedi =>
    refine hnext (.insertAcceptedWithRkey actorId target none) rfl (truthful_write huntouched ?_)
    rw [show s.follows.lookup (Statement.insertAcceptedWithRkey actorId target none).key = none
      from ho rfl]
    rfl

theorem told_work (hb : Base targets s) (h : Told s) {attempt : Nat} {stage : Stage}
    (hlock : s.lock = .job attempt stage)
    (ho : ∀ id target, stage = .upsert id .fedi target → s.follows.lookup (actorId, target) = none) :
    Told (work s actorId attempt stage) := by
  have hstage := hb.holder attempt stage hlock
  have hknows := h.knows attempt stage hlock
  have hcurrent := current_job hlock
  -- the stage that follows is about the same item, or the stage before was about none
  have hsame : ∀ {stage' : Stage}, stage'.item = stage.item →
      ∀ id, current s = some id → stage'.item = some id ∨ Untouched s id :=
    fun heq id hid => .inl (heq.trans (hcurrent.symm.trans hid))
  have hnone : ∀ {stage' : Stage}, stage.item = none →
      ∀ id, current s = some id → stage'.item = some id ∨ Untouched s id := by
    intro stage' heq id hid
    rw [hcurrent, heq] at hid
    cases hid
  cases stage with
  | getRequest =>
    simp only [work]
    split
    · exact h.go attempt trivial (hnone rfl)
    · have hreleased : Told (go s attempt (.release (some .stop))) :=
        h.go attempt trivial (hnone rfl)
      exact hreleased.congr rfl rfl rfl rfl
  | claimNextItem =>
    simp only [work]
    split
    · next item hnext =>
      obtain ⟨hitem, hstatus⟩ := mem_of_nextItem hnext
      refine h.go attempt (h.fresh item hitem hstatus ?_) (hnone rfl)
      rw [hcurrent]
      exact nofun
    · exact h.go attempt trivial (hnone rfl)
  | markCompleted =>
    have hreleased : Told (go s attempt (.release (some .stop))) :=
      h.go attempt trivial (hnone rfl)
    exact hreleased.congr rfl rfl rfl rfl
  | checkFollowRateLimit id => exact h.go attempt hknows (hsame rfl)
  | findRequester id => exact h.go attempt hknows (hsame rfl)
  | resolve id => exact h.go attempt hknows (hsame rfl)
  | upsert id route target =>
    exact told_upsert h hlock hstage fun heq => ho id target (by rw [heq])
  | commitFollow id target => exact h.go attempt hknows (hsame rfl)
  | setAtpRkey id => exact h.go attempt (truthful_succeeded hknows.1) (hsame rfl)
  | deliver id result => exact h.go attempt hknows (hsame rfl)
  | deleteByActors id target =>
    -- the row that the job inserted is gone
    have hchanged : Told (go { s with
        follows := s.follows.write (.deleteByActors actorId target)
        created := s.created.filter (· ≠ id) } attempt (.markItemResult id (outcome none))) := by
      refine h.change hcurrent (hstage.pending id rfl) ?_ (fun j hne => ⟨?_, ?_⟩) attempt rfl ?_
      · rfl
      · simp [hne]
      · rfl
      · exact truthful_failed ⟨by simp, hknows.2⟩
    exact hchanged
  | markItemResult id o => exact h.record hcurrent hknows attempt _
  | release next => exact told_release h hcurrent actorId attempt next

theorem untouched_iff {stage : Stage} :
    untouched s stage = true ↔ ∀ id, stage.item = some id → Untouched s id := by
  rw [untouched]
  cases stage.item with
  | none => simp
  | some id => simp [Untouched]

theorem told_workFails (h : Told s) {attempt : Nat} {stage : Stage}
    (hlock : s.lock = .job attempt stage)
    (ho : (∃ id target, stage = .commitFollow id target) ∨ untouched s stage = true) :
    Told (workFails s actorId attempt stage) := by
  have hcurrent := current_job hlock
  rcases ho with ⟨id, target, rfl⟩ | ho
  · have hknows : Knows s (.deleteByActors id target) := h.knows attempt (.commitFollow id target) hlock
    exact h.go attempt hknows fun id hid => .inl (hcurrent.symm.trans hid)
  · have hfree : ∀ {stage' : Stage}, ∀ id, current s = some id → stage'.item = some id ∨ Untouched s id :=
      fun id hid => .inr (untouched_iff.mp ho id (hcurrent.symm.trans hid))
    cases stage with
    | resolve id | upsert id _ _ | setAtpRkey id | deleteByActors id _ | deliver id _ =>
      exact h.go attempt (truthful_failed (untouched_iff.mp ho id rfl)) hfree
    | commitFollow id target =>
      have hknows : Knows s (.deleteByActors id target) :=
        h.knows attempt (.commitFollow id target) hlock
      exact h.go attempt hknows hfree
    | release next => exact told_release h hcurrent actorId attempt next
    | getRequest | claimNextItem | markCompleted | checkFollowRateLimit | findRequester
    | markItemResult => exact h.go attempt trivial hfree

theorem told_step (hb : Base targets s) (h : Told s) (ho : Orderly actorId s act)
    (hs : step s actorId act = some s') : Told s' := by
  cases act with
  | run t =>
    simp only [step] at hs
    split at hs <;> cases hs
    have hrest : Told (finish s t) := h.congr rfl rfl rfl rfl
    cases t with
    | tryAcquire attempt =>
      simp only [runTask]
      split
      · next hfree =>
        have hgone : Told (go (finish s (.tryAcquire attempt)) attempt .getRequest) := by
          refine hrest.go attempt trivial fun id hid => ?_
          rw [current, hfree] at hid
          cases hid
        exact hgone
      · exact hrest
    | runningFollowImportIds =>
      simp only [runTask]
      split
      · exact hrest.congr rfl rfl rfl rfl
      · exact hrest
    | enqueueFollowImportProcess | enqueueNext | enqueueRetry => exact hrest.congr rfl rfl rfl rfl
  | fails t =>
    simp only [step] at hs
    split at hs <;> cases hs
    have hrest : Told (finish s t) := h.congr rfl rfl rfl rfl
    cases t with
    | tryAcquire attempt | enqueueNext attempt => exact told_retry hrest attempt
    | enqueueFollowImportProcess | runningFollowImportIds => exact hrest
    | enqueueRetry attempt => exact hrest.congr rfl rfl rfl rfl
  | work =>
    simp only [step] at hs
    split at hs <;> cases hs
    next attempt stage hlock =>
      have hb' : Base targets { s with late := s.late || (s.seen && stage.follows) } :=
        hb.congr rfl rfl rfl rfl (hb.not_late hlock) rfl
      have hl : Told { s with late := s.late || (s.seen && stage.follows) } :=
        h.congr rfl rfl rfl rfl
      refine told_work hb' hl hlock fun id target heq => ?_
      rw [Orderly, orderly, hlock, heq] at ho
      exact Option.isNone_iff_eq_none.mp ho
  | workFails =>
    simp only [step] at hs
    split at hs <;> cases hs
    next attempt stage hlock =>
      refine told_workFails h hlock ?_
      rw [Orderly, orderly, hlock] at ho
      cases stage with
      | commitFollow id target => exact .inl ⟨id, target, rfl⟩
      | _ => exact .inr ho
  | exceeded =>
    simp only [step] at hs
    split at hs <;> cases hs
    next attempt id hlock =>
      have huntouched : Untouched s id := h.knows attempt _ hlock
      refine h.go attempt trivial fun id' hid => ?_
      rw [current_job hlock] at hid
      cases hid
      exact .inr huntouched
  | resolved route target =>
    simp only [step] at hs
    split at hs <;> cases hs
    next attempt id hlock =>
      have hknows : Knows s (.upsert id route target) := h.knows attempt (.resolve id) hlock
      exact h.go attempt hknows fun id' hid => .inl ((current_job hlock).symm.trans hid)
  | endJob resumes =>
    simp only [step] at hs
    split at hs <;> cases hs
    next attempt stage hlock =>
      rw [Orderly, orderly, hlock, Bool.and_eq_true] at ho
      refine told_restart (h.unlock .other nofun fun id hid => ?_) resumes
      exact untouched_iff.mp ho.2 id ((current_job hlock).symm.trans hid)
  | hold | sessionEnds =>
    simp only [step] at hs
    split at hs <;> cases hs
    next hlock =>
      refine h.unlock _ nofun fun id hid => ?_
      rw [current, hlock] at hid
      cases hid
  | endTask t resumes =>
    simp only [step] at hs
    split at hs <;> cases hs
    have hrest : Told (finish s t) := h.congr rfl rfl rfl rfl
    exact told_restart hrest resumes
  | lose attempt resumes =>
    simp only [step] at hs
    split at hs <;> cases hs
    have hrest : Told { s with queue := s.queue.erase attempt } := h.congr rfl rfl rfl rfl
    exact told_restart hrest resumes
  | dequeue | cancel =>
    simp only [step] at hs
    split at hs <;> cases hs
    exact h.congr rfl rfl rfl rfl
  | startUp | other =>
    cases hs
    exact h.congr rfl rfl rfl rfl

/-! ## Runs -/

theorem items_start {item : Item} (h : item ∈ (start targets).items) : item.status = none := by
  obtain ⟨i, hi, rfl⟩ := List.mem_mapIdx.mp h
  rfl

theorem base_start (targets : List String) : Base targets (start targets) where
  targets := by
    refine List.ext_getElem (by simp [start]) fun i _ _ => ?_
    simp [start]
  nodup := by
    have hids : (start targets).items.map Item.id = List.range targets.length := by
      refine List.ext_getElem (by simp [start]) fun i _ _ => ?_
      simp [start]
    rw [hids]
    exact List.nodup_range
  once item hitem := by
    rw [items_start hitem]
    rfl
  completed := nofun
  holder := nofun
  seen := nofun
  late := rfl

theorem told_start (targets : List String) : Told (start targets) where
  truthful item hitem o ho := by
    rw [items_start hitem] at ho
    cases ho
  fresh _ _ _ _ := ⟨List.not_mem_nil, List.not_mem_nil⟩
  knows := nofun

theorem faithful_of (hb : Base targets s) (ha : attended s = true) (ht : Told s) :
    Faithful s targets where
  attended := ha
  targets := hb.targets
  once := hb.once
  completed := hb.completed
  ended hkept hexhausted := by
    rw [attended, hkept, hexhausted] at ha
    cases hstatus : s.status with
    | running => simp [hstatus] at ha
    | completed => exact .inl rfl
    | cancelled => exact .inr rfl
  stopped := hb.late
  truthful := ht.truthful

theorem faithful_of_orderly {as : List Action}
    (hr : (machine actorId).run (start targets) as = some s)
    (ho : (machine actorId).Along (Orderly actorId) (start targets) as) : Faithful s targets := by
  have hstart : Base targets (start targets) ∧ attended (start targets) = true ∧ Told (start targets) :=
    ⟨base_start targets, rfl, told_start targets⟩
  obtain ⟨hb, ha, ht⟩ := (machine actorId).run_inv_along
    (I := fun s => Base targets s ∧ attended s = true ∧ Told s)
    (fun ⟨hb, ha, ht⟩ ho hs => ⟨base_step hb hs, attended_step hb ha ho hs, told_step hb ht ho hs⟩)
    hstart ho hr
  exact faithful_of hb ha ht

/-- The account 1 imports one follow, of the account 7 of the Fediverse, which is not locked. -/
def imported : List Action :=
  [.run .enqueueFollowImportProcess, .dequeue 0, .run (.tryAcquire 0), .work, .work, .work, .work,
    .resolved .fedi 7, .work, .work, .work, .work, .run (.enqueueNext 0)]

/-- A delay and a crash before, a start-up after, and the completion -/
def interrupted : List Action :=
  [.run .enqueueFollowImportProcess, .dequeue 0, .run (.tryAcquire 0), .work, .work, .exceeded,
    .work, .run (.enqueueNext 0), .dequeue 0, .run (.tryAcquire 0), .work, .endJob true,
    .sessionEnds, .run .runningFollowImportIds] ++ imported ++
    [.dequeue 0, .run (.tryAcquire 0), .work, .work, .work, .work]

theorem faithful_of_orderly_interrupted : ∃ s,
    (machine 1).run (start ["@a@example.org"]) interrupted = some s ∧
      Faithful s ["@a@example.org"] ∧ s.status = .completed := by
  have hr : (machine 1).run (start ["@a@example.org"]) interrupted = some _ := rfl
  exact ⟨_, hr, faithful_of_orderly hr (by decide), rfl⟩

/-- The follow was there before, and is reported as one that the import made. -/
theorem import_counterexample : ∃ s,
    (machine 1).run (start ["@a@example.org"])
      (.other (.insertAcceptedWithRkey 1 7 none) :: imported) = some s ∧
      s.found = [0] ∧ s.created = [] ∧ ¬ Faithful s ["@a@example.org"] := by
  refine ⟨_, rfl, rfl, rfl, fun h => ?_⟩
  have hcreated := (h.truthful ⟨0, "@a@example.org", some .succeeded⟩ (by decide) .succeeded rfl).1.mp rfl
  cases hcreated

end Seiran.FollowImport
