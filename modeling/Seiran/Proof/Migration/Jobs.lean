import Seiran.Model.Migration.Jobs

/-!
# Migration jobs do not die silently

* `wp_ask`, `wp_write`: what one step of a job does;
* `dispatchJob_moves`: no job puts a request into the import or changes its
  account;
* `dispatchJob_transient`: a transient error leaves the status as it was;
* `fetchRepo_permanent`: a repository that does not decode has failed the
  request before its job returns;
* `finishes_of_running`: a running request that is retried comes to rest;
* `jobs_recoverable`: all of it, in every run.
-/

namespace Seiran.Jobs

open Atp Migration Program

/-! ## Steps -/

section Steps

variable {o : Outcomes} {step : Step} {message : String} {w : World}

@[simp] theorem wp_ask {Q : Except JobError Unit → World → Prop} :
    wp (ask o step message) Q w ↔
      (∀ e, o.fails step = some e → Q (.error (.transient (message ++ e))) w) ∧
        (o.fails step = none → Q (.ok ()) w) := by
  unfold wp ask
  cases h : o.fails step with
  | none => simp
  | some e => simp

@[simp] theorem wp_write {f : World → World} {Q : Except JobError Unit → World → Prop} :
    wp (write o step message f) Q w ↔
      (∀ e, o.fails step = some e →
        Q (.error (.transient (message ++ e))) (if o.executed step then f w else w)) ∧
        (o.fails step = none → Q (.ok ()) (f w)) := by
  unfold wp write
  cases h : o.fails step with
  | none => simp
  | some e => simp

@[simp] theorem wp_enqueueOrLog {job : Job} {priority : Int}
    {Q : Except JobError Unit → World → Prop} :
    wp (enqueueOrLog o step job priority) Q w ↔
      Q (.ok ()) (if (o.fails step).isSome then w else w.enqueue job priority) := Iff.rfl

end Steps

/-! ## What a job does to the request -/

/-- No account is changed, and the import is not begun. -/
def Moves (w w' : World) : Prop :=
  ∀ r', w'.request = some r' → ∃ r, w.request = some r ∧ r'.actorId = r.actorId ∧
    (r'.status = r.status ∨ r'.status ≠ .importingData)

theorem Moves.refl (w : World) : Moves w w := fun r' h => ⟨r', h, rfl, .inl rfl⟩

theorem Moves.trans {w w' w'' : World} (h : Moves w w') (h' : Moves w' w'') : Moves w w'' := by
  intro r'' hr''
  obtain ⟨r', hr', ha', hs'⟩ := h' r'' hr''
  obtain ⟨r, hr, ha, hs⟩ := h r' hr'
  refine ⟨r, hr, ha'.trans ha, ?_⟩
  rcases hs' with hs' | hs'
  · rw [hs']
    exact hs
  · exact .inr hs'

theorem moves_of_request {w w' : World} (h : w'.request = w.request) : Moves w w' := by
  intro r' hr'
  rw [h] at hr'
  exact ⟨r', hr', rfl, .inl rfl⟩

theorem moves_setRequest (w : World) {f : Request → Request}
    (ha : ∀ r, (f r).actorId = r.actorId)
    (hs : ∀ r, (f r).status = r.status ∨ (f r).status ≠ .importingData) :
    Moves w (w.setRequest f) := by
  intro r' hr'
  obtain ⟨r, hr, rfl⟩ := Option.map_eq_some_iff.mp hr'
  exact ⟨r, hr, ha r, hs r⟩

instance : Std.Refl Moves := ⟨.refl⟩

instance : IsTrans World Moves := ⟨fun _ _ _ => .trans⟩

/-- The request is left as it is. -/
def Quiet (w w' : World) : Prop := w'.request = w.request

instance : Std.Refl Quiet := ⟨fun _ => rfl⟩

instance : IsTrans World Quiet := ⟨fun _ _ _ h h' => Eq.trans h' h⟩

section Closure

variable {α : Type} {R : World → World → Prop} {o : Outcomes} {step : Step} {message : String}

theorem within_ask [Std.Refl R] : Within R (ask o step message) := by
  intro w
  unfold ask
  split <;> exact Std.Refl.refl w

theorem within_write [Std.Refl R] {f : World → World} (hf : ∀ w, R w (f w)) :
    Within R (write o step message f) := by
  intro w
  unfold write
  split
  · split
    · exact hf w
    · exact Std.Refl.refl w
  · exact hf w

theorem within_enqueueOrLog (hR : ∀ w w', Quiet w w' → R w w') {job : Job} {priority : Int} :
    Within R (enqueueOrLog o step job priority) := by
  intro w
  refine hR _ _ ?_
  show (if (o.fails step).isSome then w else w.enqueue job priority).request = w.request
  split <;> rfl

theorem within_setStatus {status : Status} (h : status ≠ .importingData) :
    Within Moves (setStatus o message status) :=
  within_write fun w => moves_setRequest w (fun _ => rfl) fun _ => .inr h

variable [Std.Refl R] [IsTrans World R]

theorem within_withLock {tag : String} {skipped : α} {body : Prog α} (h : Within R body) :
    Within R (withLock o tag skipped body) :=
  .ite (.bind within_ask fun _ => .ite h (.pure _)) (.throw _)

theorem within_withRequest {status : Status} {skipped : α} {body : Request → Prog α}
    (h : ∀ r, Within R (body r)) : Within R (withRequest o message status skipped body) := by
  refine .bind within_ask fun _ => .bind .get fun w => ?_
  split
  · exact .pure _
  · exact .ite (h _) (.pure _)

end Closure

/-! ### Each job -/

section EachJob

variable {J : Type} {C : RecordCodec J} {o : Outcomes}

theorem quiet_stageRecord (w : World) (r : RepoRecord) : Quiet w (stageRecord w r) := by
  unfold stageRecord
  split <;> rfl

theorem quiet_stageBlob (w : World) (cid : String) : Quiet w (stageBlob w cid) := by
  unfold stageBlob
  split <;> rfl

theorem quiet_foldl {β : Type} {f : World → β → World} (h : ∀ w b, Quiet w (f w b)) (w : World)
    (bs : List β) : Quiet w (bs.foldl f w) := by
  induction bs generalizing w with
  | nil => rfl
  | cons b bs ih => exact (ih (f w b)).trans (h w b)

theorem moves_of_quiet (w w' : World) (h : Quiet w w') : Moves w w' := moves_of_request h

theorem processFetchRepo_moves : Within Moves (processFetchRepo o) := by
  refine within_withRequest fun _ => .bind within_ask fun _ => .bind within_ask fun _ => ?_
  split
  · exact .bind (within_write fun w => moves_setRequest w (fun _ => rfl) fun _ => .inr nofun) fun _ => .throw _
  · refine .bind (within_write fun w => moves_of_quiet _ _ (quiet_foldl quiet_stageRecord w _))
      fun _ => .bind within_ask fun _ => ?_
    refine .bind (within_write fun w => moves_of_quiet _ _ (quiet_foldl quiet_stageBlob w _))
      fun _ => ?_
    exact .bind (within_setStatus (by decide)) fun _ => within_enqueueOrLog moves_of_quiet

theorem processRequestPlcSignature_moves : Within Moves (processRequestPlcSignature o) := by
  refine within_withRequest fun _ => .bind within_ask fun _ => .bind within_ask fun _ => ?_
  exact within_setStatus (by decide)

theorem within_decodeRecord {R : World → World → Prop} [Std.Refl R] {message : String}
    {bytes : Bytes} : Within R (decodeRecord C message bytes) := by
  unfold decodeRecord
  split
  · exact .throw _
  · exact .throw _
  · exact .pure _

theorem within_commitRecord {R : World → World → Prop} [Std.Refl R] {message : String} {value : J} :
    Within R (commitRecord C o message value) := by
  unfold commitRecord
  split
  · exact .throw _
  · exact within_ask

theorem importStagedRecord_quiet (r : StagedRecord) : Within Quiet (importStagedRecord C o r) := by
  refine .bind within_decodeRecord fun _ => .ite ?_ within_commitRecord
  exact .bind within_ask fun _ => .bind within_ask fun _ => within_commitRecord

theorem importBlob_quiet (b : StagedBlob) : Within Quiet (importBlob o b) := by
  refine .bind within_ask fun _ => .bind within_ask fun _ => .ite within_ask (.throw _)

theorem Within.moves {α : Type} {m : Prog α} (h : Within Quiet m) : Within Moves m := fun w =>
  moves_of_quiet _ _ (h w)

theorem finishImport_moves : Within Moves (finishImport o) := by
  refine .bind (within_setStatus (by decide)) fun _ => ?_
  refine .bind (within_enqueueOrLog moves_of_quiet) fun _ => ?_
  exact .bind (within_enqueueOrLog moves_of_quiet) fun _ => .pure _

theorem importNext_moves : Within Moves (importNext C o) := by
  refine .bind within_ask fun _ => .bind .get fun w => ?_
  split
  · refine .bind (Within.moves (importStagedRecord_quiet _)) fun _ => ?_
    exact .bind (within_write fun w => moves_of_request rfl) fun _ => .pure _
  · refine .bind within_ask fun _ => .bind .get fun w => ?_
    split
    · refine .bind (Within.moves (importBlob_quiet _)) fun _ => ?_
      exact .bind (within_write fun w => moves_of_request rfl) fun _ => .pure _
    · exact finishImport_moves

theorem processImport_moves : Within Moves (processImport C o) := by
  refine within_withRequest fun req => ?_
  split
  · exact .throw _
  · exact .ite importNext_moves (.throw _)

theorem enqueueAgain_quiet {job : Job} {message : String} (next : ImportNextAction) :
    Within Quiet (enqueueAgain o job message next) := by
  cases next with
  | stop => exact .pure _
  | «continue» => exact within_write fun w => rfl

theorem handleDeactivateSource_moves : Within Moves (handleDeactivateSource o) := by
  refine .ite (within_withRequest fun _ => ?_) (.throw _)
  exact within_setStatus (by decide)

theorem handleImportFollows_quiet : Within Quiet (handleImportFollows C o) := by
  refine .bind (within_withLock ?_) fun next => enqueueAgain_quiet next
  refine .bind within_ask fun _ => .bind .get fun w => ?_
  split
  · exact .pure _
  · refine .ite (.bind within_ask fun _ => .bind .get fun w => ?_) (.throw _)
    split
    · exact .pure _
    · exact .bind within_decodeRecord fun _ => .bind (within_write fun w => rfl) fun _ => .pure _

theorem dispatchJob_moves (job : Job) : Within Moves (dispatchJob C o job) := by
  cases job with
  | migrationFetchRepo => exact within_withLock processFetchRepo_moves
  | migrationRequestPlcSignature => exact within_withLock processRequestPlcSignature_moves
  | migrationImportProcess =>
    exact .bind (within_withLock processImport_moves) fun next =>
      Within.moves (enqueueAgain_quiet next)
  | migrationDeactivateSource => exact handleDeactivateSource_moves
  | migrationImportFollows => exact Within.moves handleImportFollows_quiet

end EachJob

/-! ## Transient errors -/

section Transient

def Transient {α : Type} : Except JobError α → Prop
  | .error (.transient _) => True
  | _ => False

/-- A transient error, or something left to import. -/
def Unfinished : Except JobError ImportNextAction → Prop
  | .error (.transient _) => True
  | .ok .continue => True
  | _ => False

/-- A write of the status failed, but was executed. -/
def StatusCut (o : Outcomes) : Prop :=
  ∃ step, (step = .setStatus ∨ step = .setFailed) ∧ (o.fails step).isSome ∧ o.executed step

/-- The status is left as it is, unless a failing write of it was executed. -/
def Held (o : Outcomes) (w w' : World) : Prop := w'.status = w.status ∨ StatusCut o

variable {J : Type} {C : RecordCodec J} {o : Outcomes} {α β : Type} {E : Except JobError α → Prop}

theorem Quiet.held {w w' : World} (h : Quiet w w') : Held o w w' :=
  .inl (by rw [World.status, World.status, h])

theorem Quiet.trans_held {w w' w'' : World} (h : Quiet w w') (h' : Held o w' w'') :
    Held o w w'' := by
  rcases h' with h' | h'
  · refine .inl (h'.trans ?_)
    rw [World.status, World.status, h]
  · exact .inr h'

theorem Held.trans_quiet {w w' w'' : World} (h : Held o w w') (h' : Quiet w' w'') :
    Held o w w'' := by
  rcases h with h | h
  · refine .inl (Eq.trans ?_ h)
    rw [World.status, World.status, h']
  · exact .inr h

theorem held_bind {m : Prog β} {f : β → Prog α} (hm : Within Quiet m)
    (hf : ∀ b, Ends E (Held o) (f b)) : Ends E (Held o) (m >>= f) :=
  .bind_within Quiet.held Quiet.trans_held hm hf

theorem held_of_quiet {m : Prog α} (hm : Within Quiet m) : Ends E (Held o) m :=
  .of_within fun w => (hm w).held

theorem held_write {step : Step} (hstep : step = .setStatus ∨ step = .setFailed)
    {message : String} {f : World → World} :
    Ends Transient (Held o) (write o step message f) := by
  intro w hE
  unfold write at hE ⊢
  split at hE
  · rename_i e hfail
    simp only
    split
    · exact .inr ⟨step, hstep, by rw [hfail]; rfl, by assumption⟩
    · exact .inl rfl
  · exact hE.elim

theorem held_withLock {tag : String} {skipped : α} {body : Prog α} (h : Ends E (Held o) body) :
    Ends E (Held o) (withLock o tag skipped body) :=
  .ite (held_bind within_ask fun _ => .ite h (held_of_quiet (.pure _))) (held_of_quiet (.throw _))

theorem held_withRequest {message : String} {status : Status} {skipped : α}
    {body : Request → Prog α} (h : ∀ r, Ends E (Held o) (body r)) :
    Ends E (Held o) (withRequest o message status skipped body) := by
  refine held_bind within_ask fun _ => held_bind .get fun w => ?_
  split
  · exact held_of_quiet (.pure _)
  · exact .ite (h _) (held_of_quiet (.pure _))

theorem processFetchRepo_held : Ends Transient (Held o) (processFetchRepo o) := by
  refine held_withRequest fun _ => held_bind within_ask fun _ => held_bind within_ask fun _ => ?_
  split
  · exact .bind_last (held_write (.inr rfl)) (fun _ => id) fun _ _ => id
  · refine held_bind (within_write fun w => quiet_foldl quiet_stageRecord w _) fun _ => ?_
    refine held_bind within_ask fun _ => ?_
    refine held_bind (within_write fun w => quiet_foldl quiet_stageBlob w _) fun _ => ?_
    exact .bind_last (held_write (.inl rfl)) (fun _ => id) fun _ _ => id

theorem processRequestPlcSignature_held :
    Ends Transient (Held o) (processRequestPlcSignature o) := by
  refine held_withRequest fun _ => held_bind within_ask fun _ => held_bind within_ask fun _ => ?_
  exact held_write (.inl rfl)

theorem transient_of_unfinished (e : JobError) (h : Unfinished (.error e)) :
    Transient (.error e : Except JobError α) := by
  cases e with
  | transient _ => trivial
  | permanent _ => exact h
  | panic => exact h

/-- Where the import has finished, nothing can fail any more. -/
theorem finishImport_held : Ends Unfinished (Held o) (finishImport o) :=
  .bind_last (held_write (.inl rfl)) transient_of_unfinished fun _ _ => id

theorem importNext_held : Ends Unfinished (Held o) (importNext C o) := by
  refine held_bind within_ask fun _ => held_bind .get fun w => ?_
  split
  · refine held_of_quiet (.bind (importStagedRecord_quiet _) fun _ => ?_)
    exact .bind (within_write fun w => rfl) fun _ => .pure _
  · refine held_bind within_ask fun _ => held_bind .get fun w => ?_
    split
    · refine held_of_quiet (.bind (importBlob_quiet _) fun _ => ?_)
      exact .bind (within_write fun w => rfl) fun _ => .pure _
    · exact finishImport_held

theorem processImport_held : Ends Unfinished (Held o) (processImport C o) := by
  refine held_withRequest fun req => ?_
  split
  · exact held_of_quiet (.throw _)
  · exact .ite importNext_held (held_of_quiet (.throw _))

theorem handleImportProcess_held : Ends Transient (Held o) (handleImportProcess C o) := by
  intro w hE
  have hm : Ends Unfinished (Held o) (withLock o "[MigrationImportProcess]" .stop
    (processImport C o)) := held_withLock processImport_held
  refine Ends.bind (E := fun r => Unfinished r) hm ?_ ?_ w hE
  · intro e he
    cases e <;> exact he
  · intro w next hnext hE
    cases next with
    | stop => exact hE.elim
    | «continue» =>
      have hheld := hm w (by rw [hnext]; trivial)
      exact hheld.trans_quiet (enqueueAgain_quiet .continue _)

/-- A transient error leaves the status as it was. -/
theorem dispatchJob_held (job : Job) : Ends Transient (Held o) (dispatchJob C o job) := by
  cases job with
  | migrationFetchRepo => exact held_withLock processFetchRepo_held
  | migrationRequestPlcSignature => exact held_withLock processRequestPlcSignature_held
  | migrationImportProcess => exact handleImportProcess_held
  | migrationDeactivateSource =>
    exact .ite (held_withRequest fun _ => held_write (.inl rfl)) (held_of_quiet (.throw _))
  | migrationImportFollows => exact held_of_quiet handleImportFollows_quiet

end Transient

/-! ## A repository that does not decode -/

section Permanent

variable {o : Outcomes} {w : World}

/-- A permanent error is the last error of a request that has failed. -/
def Recorded : Except JobError Unit → World → Prop
  | .error (.permanent e), w => ∃ r, w.request = some r ∧ r.status = .failed ∧ r.lastError = some e
  | _, _ => True

theorem recorded_ask {step : Step} {message : String} {f : Unit → Prog Unit}
    (h : wp (f ()) Recorded w) : wp (ask o step message >>= f) Recorded w :=
  wp_bind.mpr (wp_ask.mpr ⟨fun _ _ => trivial, fun _ => h⟩)

theorem recorded_write {step : Step} {message : String} {g : World → World} {f : Unit → Prog Unit}
    (h : wp (f ()) Recorded (g w)) : wp (write o step message g >>= f) Recorded w :=
  wp_bind.mpr (wp_write.mpr ⟨fun _ _ => trivial, fun _ => h⟩)

theorem processFetchRepo_recorded : wp (processFetchRepo o) Recorded w := by
  refine recorded_ask (wp_bind.mpr (wp_get.mpr ?_))
  dsimp only [seq]
  cases hreq : w.request with
  | none => trivial
  | some req =>
    refine wp_ite.mpr ?_
    split
    · refine recorded_ask (recorded_ask ?_)
      split
      · refine recorded_write ⟨{ req with status := .failed, lastError := some _ }, ?_, rfl, rfl⟩
        rw [World.setRequest, hreq]
        rfl
      · refine recorded_write (recorded_ask (recorded_write ?_))
        exact recorded_write trivial
    · trivial

theorem fetchRepo_recorded (hpool : o.dbPool) : wp (handleFetchRepo o) Recorded w := by
  refine wp_ite.mpr ?_
  rw [if_pos hpool]
  refine recorded_ask (wp_ite.mpr ?_)
  split
  · exact processFetchRepo_recorded
  · trivial

end Permanent

/-! ## Jobs whose steps succeed -/

/-- Everything is configured, no other job holds the lock, and no step fails. -/
structure Smooth (o : Outcomes) : Prop where
  dbPool : o.dbPool = true
  followExec : o.followExec = true
  encryptionKey : o.encryptionKey = true
  lockFree : o.lockFree = true
  fails : ∀ step, o.fails step = none

section Smooth

variable {α : Type} {o : Outcomes} (ho : Smooth o) {step : Step} {message : String} {w : World}
include ho

theorem smooth_ask {Q : Except JobError Unit → World → Prop} :
    wp (ask o step message) Q w ↔ Q (.ok ()) w := by
  rw [wp_ask, ho.fails]
  simp

theorem smooth_write {Q : Except JobError Unit → World → Prop} {f : World → World} :
    wp (write o step message f) Q w ↔ Q (.ok ()) (f w) := by
  rw [wp_write, ho.fails]
  simp

theorem smooth_setStatus {Q : Except JobError Unit → World → Prop} {status : Status} :
    wp (setStatus o message status) Q w ↔
      Q (.ok ()) (w.setRequest fun r => { r with status }) := smooth_write ho

theorem smooth_enqueueOrLog {Q : Except JobError Unit → World → Prop} {job : Job}
    {priority : Int} :
    wp (enqueueOrLog o step job priority) Q w ↔ Q (.ok ()) (w.enqueue job priority) := by
  rw [wp_enqueueOrLog, ho.fails]
  simp

variable {Q : Except JobError α → World → Prop}

theorem smooth_withLock {tag : String} {skipped : α} {body : Prog α} :
    wp (withLock o tag skipped body) Q w ↔ wp body Q w := by
  unfold withLock
  rw [if_pos ho.dbPool, wp_bind, smooth_ask ho, seq_ok, if_pos ho.lockFree]

theorem smooth_withRequest {status : Status} {skipped : α} {body : Request → Prog α} {r : Request}
    (hr : w.request = some r) (hs : r.status = status) :
    wp (withRequest o message status skipped body) Q w ↔ wp (body r) Q w := by
  unfold withRequest
  rw [wp_bind, smooth_ask ho, seq_ok, wp_bind, wp_get, seq_ok, hr]
  simp only
  rw [if_pos hs]

end Smooth

/-! ## A request comes to rest -/

section Finishes

variable {J : Type} (C : RecordCodec J)

/-- Jobs of the queue, each with steps that succeed, take the request to a
status in which no job is needed. -/
inductive Finishes : World → Prop where
  | rest {w : World} (h : w.status.bind jobOf = none) : Finishes w
  | next {w : World} (i : Nat) (hi : i < w.queue.length)
    (h : ∀ o retried w', Smooth o → step C w (.execute i o retried) = some w' → Finishes w') :
    Finishes w

variable {C}

theorem finishes_of_wp {w : World} {job : Job} {priority : Int} {attempt : Nat}
    {s t : List QueuedJob} (hq : w.queue = s ++ ⟨job, priority, attempt⟩ :: t)
    (h : ∀ o v, Smooth o → v.request = w.request → v.records = w.records → v.blobs = w.blobs →
      wp (dispatchJob C o job) (fun r w' => ¬ Transient r ∧ Finishes C w') v) :
    Finishes C w := by
  refine .next s.length (by rw [hq]; simp) fun o retried w' ho hw' => ?_
  obtain ⟨hr, hf⟩ := h o { w with queue := s ++ t } ho rfl rfl rfl
  have hget : w.queue[s.length]? = some ⟨job, priority, attempt⟩ := by
    rw [hq]
    simp
  have herase : w.queue.eraseIdx s.length = s ++ t := by
    rw [hq, List.eraseIdx_append_of_length_le (by omega), Nat.sub_self]
    rfl
  simp only [step, hget, Option.map_some, Option.some.injEq, herase] at hw'
  unfold executeWithRetry at hw'
  split at hw' <;> rename_i heq
  · rw [heq] at hr
    exact absurd trivial hr
  · rw [← hw']
    simpa only [heq] using hf

section Each

variable {w : World} {r : Request} {priority : Int} {attempt : Nat} {s t : List QueuedJob}

theorem finishes_of_status {status : Status} (hr : w.request = some r) (hs : r.status = status)
    (h : jobOf status = none) : Finishes C w :=
  .rest (by rw [World.status, hr, Option.map_some, Option.bind_some, hs, h])

theorem finishes_deactivateSource (hr : w.request = some r) (hs : r.status = .deactivatingSource)
    (hq : w.queue = s ++ ⟨.migrationDeactivateSource, priority, attempt⟩ :: t) :
    Finishes C w := by
  refine finishes_of_wp hq fun o v ho hreq _ _ => ?_
  rw [hr] at hreq
  show wp (handleDeactivateSource o) _ _
  unfold handleDeactivateSource
  rw [if_pos ho.dbPool, smooth_withRequest ho hreq hs, smooth_setStatus ho]
  exact ⟨id, finishes_of_status (congrArg (Option.map _) hreq) rfl rfl⟩

theorem finishes_requestPlcSignature (hr : w.request = some r)
    (hs : r.status = .requestingPlcSignature)
    (hq : w.queue = s ++ ⟨.migrationRequestPlcSignature, priority, attempt⟩ :: t) :
    Finishes C w := by
  refine finishes_of_wp hq fun o v ho hreq _ _ => ?_
  rw [hr] at hreq
  show wp (handleRequestPlcSignature o) _ _
  unfold handleRequestPlcSignature processRequestPlcSignature
  rw [smooth_withLock ho, smooth_withRequest ho hreq hs]
  simp only [wp_bind, smooth_ask ho, seq_ok, smooth_setStatus ho]
  exact ⟨id, finishes_of_status (congrArg (Option.map _) hreq) rfl rfl⟩

theorem finishes_fetchRepo (hr : w.request = some r) (hs : r.status = .fetchingRepo)
    (hq : w.queue = s ++ ⟨.migrationFetchRepo, priority, attempt⟩ :: t) :
    Finishes C w := by
  refine finishes_of_wp hq fun o v ho hreq _ _ => ?_
  rw [hr] at hreq
  show wp (handleFetchRepo o) _ _
  unfold handleFetchRepo processFetchRepo
  rw [smooth_withLock ho, smooth_withRequest ho hreq hs]
  simp only [wp_bind, smooth_ask ho, seq_ok]
  cases o.car with
  | error e =>
    simp only [wp_bind, smooth_write ho, seq_ok, wp_throw]
    exact ⟨id, finishes_of_status (congrArg (Option.map _) hreq) rfl rfl⟩
  | ok records =>
    simp only [wp_bind, smooth_ask ho, smooth_write ho, smooth_setStatus ho,
      smooth_enqueueOrLog ho, seq_ok]
    -- staging leaves the request, and the next job is the last of the queue
    have hstaged := (quiet_foldl quiet_stageBlob (records.foldl stageRecord v) o.blobCids).trans
      (quiet_foldl quiet_stageRecord v records)
    rw [hreq] at hstaged
    exact ⟨id, finishes_requestPlcSignature (t := []) (congrArg (Option.map _) hstaged) rfl rfl⟩

/-! ### The import -/

/-- Every record still to import can be decoded, and encoded again. -/
def Importable (C : RecordCodec J) (w : World) : Prop :=
  ∀ x ∈ w.records, x.imported = false →
    ∃ value, C.decodeDagcborToJson x.bytes = some (.ok value) ∧ C.encodeGenericRecord value = .ok ()

def pending (w : World) : Nat :=
  w.records.countP (fun x => !x.imported) + w.blobs.countP fun b => !b.imported

theorem countP_map_lt {β : Type} {p : β → Bool} {f : β → β} (hf : ∀ y, p (f y) → p y) {x : β}
    {l : List β} (hx : x ∈ l) (hpx : p x) (hfx : ¬ p (f x)) : (l.map f).countP p < l.countP p := by
  obtain ⟨s, t, rfl⟩ := List.append_of_mem hx
  have hs : (s.map f).countP p ≤ s.countP p := by
    rw [List.countP_map]
    exact List.countP_mono_left fun y _ => hf y
  have ht : (t.map f).countP p ≤ t.countP p := by
    rw [List.countP_map]
    exact List.countP_mono_left fun y _ => hf y
  simp only [List.map_append, List.map_cons, List.countP_append, List.countP_cons_of_neg hfx,
    List.countP_cons_of_pos hpx]
  omega

theorem pending_markRecordImported {w : World} {x : StagedRecord}
    (hx : claimNextRecord w = some x) : pending (markRecordImported x.id w) < pending w := by
  have hlt := countP_map_lt (p := fun x : StagedRecord => !x.imported)
    (f := fun y => if y.id = x.id then
      { y with toStagedRecord := { y.toStagedRecord with imported := true } } else y)
    (fun y => by split <;> simp) (List.mem_of_find?_eq_some hx) (by simpa using List.find?_some hx) (by simp)
  exact Nat.add_lt_add_right hlt _

theorem pending_markBlobImported {w : World} {b : StagedBlob} (hb : claimNextBlob w = some b) :
    pending (markBlobImported b.id w) < pending w := by
  have hlt := countP_map_lt (p := fun b : StagedBlob => !b.imported)
    (f := fun y => if y.id = b.id then { y with imported := true } else y)
    (fun y => by split <;> simp) (List.mem_of_find?_eq_some hb) (by simpa using List.find?_some hb) (by simp)
  exact Nat.add_lt_add_left hlt _

theorem importable_markRecordImported {w : World} (h : Importable C w) (id : Nat) :
    Importable C (markRecordImported id w) := by
  intro x hx hi
  obtain ⟨y, hy, rfl⟩ := List.mem_map.mp hx
  split at hi
  · cases hi
  · rw [if_neg (by assumption)]
    exact h y hy hi

/-- A record that decodes and encodes again is imported. -/
theorem smooth_importStagedRecord {o : Outcomes} (ho : Smooth o) {v : World} {x : StagedRecord}
    {Q : Except JobError Unit → World → Prop} {value : J}
    (hdec : C.decodeDagcborToJson x.bytes = some (.ok value))
    (henc : C.encodeGenericRecord value = .ok ()) :
    wp (importStagedRecord C o x) Q v ↔ Q (.ok ()) v := by
  simp only [importStagedRecord, decodeRecord, hdec, commitRecord, henc, wp_bind, wp_pure, seq_ok,
    wp_ite, smooth_ask ho, ite_self]

theorem smooth_importBlob {o : Outcomes} (ho : Smooth o) {v : World} {b : StagedBlob}
    {Q : Except JobError Unit → World → Prop} : wp (importBlob o b) Q v ↔ Q (.ok ()) v := by
  simp only [importBlob, ho.encryptionKey, if_true, wp_bind, seq_ok, smooth_ask ho]

theorem finishes_importProcess (hr : w.request = some r) (hs : r.status = .importingData)
    (ha : r.actorId ≠ none) (himp : Importable C w)
    (hq : w.queue = s ++ ⟨.migrationImportProcess, priority, attempt⟩ :: t) :
    Finishes C w := by
  -- on the records and blobs still to import
  induction hn : pending w using Nat.strong_induction_on generalizing w priority attempt s t with
  | _ n ih =>
  subst hn
  refine finishes_of_wp hq fun o v ho hreq hrecords hblobs => ?_
  rw [hr] at hreq
  have hpending : pending v = pending w := by rw [pending, pending, hrecords, hblobs]
  have himpv : Importable C v := by
    intro x hx
    rw [hrecords] at hx
    exact himp x hx
  obtain ⟨a, ha⟩ := Option.ne_none_iff_exists'.mp ha
  show wp (handleImportProcess C o) _ _
  unfold handleImportProcess processImport
  rw [wp_bind, smooth_withLock ho, smooth_withRequest ho hreq hs]
  simp only [ha, ho.followExec, if_true, importNext, wp_bind, smooth_ask ho, seq_ok, wp_get]
  cases hrec : claimNextRecord v with
  | some x =>
    obtain ⟨value, hdec, henc⟩ := himpv x (List.mem_of_find?_eq_some hrec)
      (by simpa using List.find?_some hrec)
    simp only [wp_bind, smooth_importStagedRecord ho hdec henc, seq_ok, smooth_write ho, wp_pure,
      enqueueAgain]
    refine ⟨id, ih _ ?_ (t := []) hreq ?_ rfl rfl⟩
    · rw [← hpending]
      exact pending_markRecordImported hrec
    · exact importable_markRecordImported himpv x.id
  | none =>
    simp only [wp_bind, smooth_ask ho, seq_ok, wp_get]
    cases hblob : claimNextBlob v with
    | some b =>
      simp only [wp_bind, smooth_importBlob ho, seq_ok, smooth_write ho, wp_pure, enqueueAgain]
      refine ⟨id, ih _ ?_ (t := []) hreq ?_ rfl rfl⟩
      · rw [← hpending]
        exact pending_markBlobImported hblob
      · exact himpv
    | none =>
      simp only [finishImport, wp_bind, smooth_setStatus ho, smooth_enqueueOrLog ho, seq_ok,
        wp_pure, enqueueAgain]
      have hqueue : (v.queue ++ [⟨.migrationDeactivateSource, LOW, 0⟩]) ++
          [⟨.migrationImportFollows, LOW, 0⟩] = v.queue ++
            ⟨.migrationDeactivateSource, LOW, 0⟩ :: [⟨.migrationImportFollows, LOW, 0⟩] :=
        List.append_assoc _ _ _
      exact ⟨id, finishes_deactivateSource (congrArg (Option.map _) hreq) rfl hqueue⟩

/-- The job of its status takes a running request on. -/
theorem finishes_of_queued {job : Job} (hr : w.request = some r)
    (hjob : (jobOf r.status).map Prod.fst = some job)
    (ha : r.status = .importingData → r.actorId ≠ none)
    (himp : r.status = .importingData → Importable C w)
    (hq : w.queue = s ++ ⟨job, priority, attempt⟩ :: t) : Finishes C w := by
  cases hs : r.status with
  | fetchingRepo =>
    rw [hs] at hjob
    cases hjob
    exact finishes_fetchRepo hr hs hq
  | requestingPlcSignature =>
    rw [hs] at hjob
    cases hjob
    exact finishes_requestPlcSignature hr hs hq
  | importingData =>
    rw [hs] at hjob
    cases hjob
    exact finishes_importProcess hr hs (ha hs) (himp hs) hq
  | deactivatingSource =>
    rw [hs] at hjob
    cases hjob
    exact finishes_deactivateSource hr hs hq
  | _ =>
    rw [hs] at hjob
    cases hjob

end Each

end Finishes

/-! ## Runs -/

section Runs

variable {J : Type} {C : RecordCodec J}

/-- A request that is being imported has its account. -/
def Inv (w : World) : Prop :=
  ∀ r, w.request = some r → r.status = .importingData → r.actorId ≠ none

theorem inv_of_moves {w w' : World} (h : Moves w w') (hI : Inv w) : Inv w' := by
  intro r' hr' hs'
  obtain ⟨r, hr, ha, hs⟩ := h r' hr'
  rw [ha]
  rcases hs with hs | hs
  · exact hI r hr (hs.symm.trans hs')
  · exact absurd hs' hs

theorem inv_start (enqueued : Bool) : Inv (start enqueued) := by
  intro r hr hs
  cases enqueued <;> cases hr <;> cases hs

theorem quiet_enqueueIf (enqueued : Bool) (job : Job × Int) (w : World) :
    Quiet w (enqueueIf enqueued job w) := by
  cases enqueued <;> rfl

theorem executeWithRetry_moves (o : Outcomes) (retried : Bool) (queued : QueuedJob) (w : World) :
    Moves w (executeWithRetry C o retried queued w) := by
  have hm := dispatchJob_moves (C := C) (o := o) queued.job w
  unfold executeWithRetry
  split <;> rename_i heq <;> rw [heq] at hm
  · split <;> exact hm
  · exact hm

theorem transition_moves {src dst : Status} {w w' : World} (h : transition src dst w = some w')
    (hdst : dst ≠ .importingData) : Moves w w' := by
  unfold transition at h
  split at h
  · cases h
    exact moves_setRequest w (fun _ => rfl) fun _ => .inr hdst
  · cases h

theorem resume_quiet {w w' : World} {enqueued : Bool} (h : step C w (.resume enqueued) = some w') :
    Quiet w w' := by
  simp only [step, Option.some.injEq] at h
  subst h
  cases enqueued <;> split <;> split <;> rfl

theorem inv_step {w w' : World} {a : Action} (hI : Inv w) (h : (machine C).step w a = some w') :
    Inv w' := by
  change step C w a = some w' at h
  cases a with
  | execute i o retried =>
    obtain ⟨queued, _, rfl⟩ := Option.map_eq_some_iff.mp h
    exact inv_of_moves (executeWithRetry_moves o retried queued { w with queue := _ }) hI
  | lose i =>
    simp only [step] at h
    split at h <;> cases h
    exact hI
  | retry enqueued =>
    obtain ⟨job, _, rfl⟩ := Option.map_eq_some_iff.mp h
    exact inv_of_moves (moves_of_request (quiet_enqueueIf enqueued job w)) hI
  | resume enqueued => exact inv_of_moves (moves_of_request (resume_quiet h)) hI
  | stagePlcOperation => exact inv_of_moves (transition_moves h nofun) hI
  | beginSubmit => exact inv_of_moves (transition_moves h nofun) hI
  | submitFails => exact inv_of_moves (transition_moves h nofun) hI
  | plcRejects => exact inv_of_moves (transition_moves h nofun) hI
  | markPlcSubmitted =>
    simp only [step] at h
    split at h <;> cases h
    exact inv_of_moves (moves_setRequest w (fun _ => rfl) fun _ => .inl rfl) hI
  | confirmAccountCreated actorId confirmed enqueued =>
    simp only [step] at h
    split at h <;> cases h
    refine inv_of_moves (moves_of_request (quiet_enqueueIf enqueued _ _)) ?_
    split
    · intro r hr _
      obtain ⟨_, _, rfl⟩ := Option.map_eq_some_iff.mp hr
      simp
    · exact hI
  | abandon =>
    simp only [step] at h
    split at h <;> cases h
    exact inv_of_moves (moves_setRequest w (fun _ => rfl) fun _ => .inr nofun) hI

theorem inv_run {enqueued : Bool} {as : List Action} {w : World}
    (h : (machine C).run (start enqueued) as = some w) : Inv w :=
  (machine C).run_inv inv_step (inv_start enqueued) h

theorem step_retry {w : World} {job : Job × Int} (h : w.status.bind jobOf = some job) :
    step C w (.retry true) = some (w.enqueue job.1 job.2) := by
  simp only [step, h, Option.map_some]
  rfl

theorem step_resume {w : World} {job : Job × Int} (h : w.status.bind jobOf = some job) :
    ∃ t w', step C w (.resume true) = some w' ∧ Quiet w w' ∧ w'.records = w.records ∧
      w'.queue = w.queue ++ ⟨job.1, job.2, 0⟩ :: t := by
  simp only [step, h]
  by_cases hp : w.records.any pendingFollow
  · refine ⟨[⟨.migrationImportFollows, LOW, 0⟩],
      (w.enqueue job.1 job.2).enqueue .migrationImportFollows LOW, ?_, rfl, rfl, ?_⟩
    · rw [if_pos hp]
      rfl
    · exact List.append_assoc _ _ _
  · refine ⟨[], w.enqueue job.1 job.2, ?_, rfl, rfl, rfl⟩
    rw [if_neg hp]
    rfl

/-- A running request whose job is enqueued comes to rest. -/
theorem finishes_of_enqueued {w w' : World} {job : Job × Int} (h : w.status.bind jobOf = some job)
    (hI : Inv w) (himp : w.status = some .importingData → Importable C w) (hq : Quiet w w')
    (hrecords : w'.records = w.records) {s t : List QueuedJob}
    (hqueue : w'.queue = s ++ ⟨job.1, job.2, 0⟩ :: t) : Finishes C w' := by
  obtain ⟨status, hstatus, hjob⟩ := Option.bind_eq_some_iff.mp h
  obtain ⟨r, hr, rfl⟩ := Option.map_eq_some_iff.mp hstatus
  refine finishes_of_queued (hq.trans hr) (by rw [hjob]; rfl) (hI r hr) (fun hs => ?_) hqueue
  intro x hx
  rw [hrecords] at hx
  exact himp (hstatus.trans (congrArg some hs)) x hx

/-- In every run: a job with a transient error leaves the status (unless the
write of the status is what failed, and was executed) and is enqueued again up
to its attempts; where the repository does not decode, the request has failed;
and a running request that is retried or resumed comes to rest. -/
theorem jobs_recoverable {J : Type} (C : RecordCodec J) {enqueued : Bool} {as : List Action}
    {w : World} (h : (machine C).run (start enqueued) as = some w) :
    (∀ i queued o retried e w', w.queue[i]? = some queued →
      dispatchJob C o queued.job { w with queue := w.queue.eraseIdx i } =
        (.error (.transient e), w') →
      (w'.status = w.status ∨ StatusCut o) ∧
        step C w (.execute i o retried) = some
          (if queued.attempt + 1 < maxAttempts queued.job ∧ retried then
            { w' with queue := w'.queue ++ [{ queued with attempt := queued.attempt + 1 }] }
          else w')) ∧
    (∀ o e w', o.dbPool → handleFetchRepo o w = (.error (.permanent e), w') →
      ∃ r, w'.request = some r ∧ r.status = .failed ∧ r.lastError = some e) ∧
    ∀ job, w.status.bind jobOf = some job →
      (w.status = some .importingData → Importable C w) →
      (∃ w', step C w (.retry true) = some w' ∧ Finishes C w') ∧
        ∃ w', step C w (.resume true) = some w' ∧ Finishes C w' := by
  have hI := inv_run h
  refine ⟨fun i queued o retried e w' hi he => ?_, fun o e w' hpool he => ?_, fun job hjob himp => ?_⟩
  · have hheld := dispatchJob_held (C := C) (o := o) queued.job
      { w with queue := w.queue.eraseIdx i } (by rw [he]; trivial)
    rw [he] at hheld
    refine ⟨hheld, ?_⟩
    simp only [step, hi, Option.map_some, executeWithRetry, he]
  · have hrec := fetchRepo_recorded hpool (w := w)
    rw [wp, he] at hrec
    exact hrec
  · refine ⟨⟨_, step_retry hjob, finishes_of_enqueued hjob hI himp rfl rfl rfl⟩, ?_⟩
    obtain ⟨t, w', hw', hq, hrecords, hqueue⟩ := step_resume (C := C) hjob
    exact ⟨w', hw', finishes_of_enqueued hjob hI himp hq hrecords hqueue⟩

/-! ## A source server that does not answer -/

def emptyRecords : RecordCodec Unit := ⟨fun _ => some (.ok ()), fun _ => .ok ()⟩

def getRepoTimeout : Outcomes where
  dbPool := true
  followExec := true
  encryptionKey := true
  lockFree := true
  fails step := if step = .getRepo then some "timeout" else none
  executed _ := false
  car := .ok []
  blobCids := []

/-- The five attempts of the first job. -/
def fiveTimeouts : List Action := List.replicate 5 (.execute 0 getRepoTimeout true)

/-- After the last attempt the status is still `fetching_repo`, and no job is left. -/
theorem jobs_recoverable_counterexample :
    ((machine emptyRecords).run (start true) fiveTimeouts).map (fun w => (w.status, w.queue)) =
      some (some .fetchingRepo, []) := by
  decide

/-- The user retries, and the request comes to rest. -/
theorem jobs_recoverable_timeouts : ∃ w w',
    (machine emptyRecords).run (start true) fiveTimeouts = some w ∧ w.queue = [] ∧
      step emptyRecords w (.retry true) = some w' ∧ Finishes emptyRecords w' := by
  obtain ⟨w, hw⟩ : ∃ w, (machine emptyRecords).run (start true) fiveTimeouts = some w :=
    Option.isSome_iff_exists.mp (by decide)
  have hstatus : ((machine emptyRecords).run (start true) fiveTimeouts).map
      (fun w => (w.status, w.queue)) = some (some .fetchingRepo, []) := by decide
  rw [hw, Option.map_some, Option.some.injEq, Prod.mk.injEq] at hstatus
  obtain ⟨w', hw', hf⟩ := ((jobs_recoverable emptyRecords hw).2.2 (.migrationFetchRepo, NORMAL)
    (by rw [hstatus.1]; rfl) (fun h => by rw [hstatus.1] at h; cases h)).1
  exact ⟨w, w', hw, hstatus.2, hw', hf⟩

end Runs

end Seiran.Jobs
