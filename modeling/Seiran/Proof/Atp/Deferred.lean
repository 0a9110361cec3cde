import Seiran.Model.Atp.Deferred
import Seiran.Proof.Atp.Service

/-!
# A post that is committed later is committed once

* `step_effect`: what an orderly step does to the repository;
* `Kept`, `Inv`: the columns of the post are those of its only record, and a record of a post
  that is deleted is gone or going to be removed;
* `inv_step`: an orderly step keeps them;
* `once_of_orderly`: so it is in every state of an orderly run;
* `length_running_le`: as long as no session is lost, one run of the job at a time is at work.
-/

namespace Seiran.Deferred

open Atp

variable {postId : Nat} {s s' : State} {repo repo' : Repo} {created : List String}

/-! ## Rows of the post -/

theorem hasRow_eq_false {p : PostRow → Bool} :
    hasRow postId s p = false ↔ ∀ row ∈ s.repo.posts, row.id = postId → p row = false := by
  simp [hasRow]

theorem hasRow_eq_true {p : PostRow → Bool} :
    hasRow postId s p = true ↔ ∃ row ∈ s.repo.posts, row.id = postId ∧ p row = true := by
  simp [hasRow]

theorem hasPath_eq_false {path : String} :
    hasPath s path = false ↔ ∀ x ∈ lastEntries s.repo.events, x.1 ≠ path := by
  simp [hasPath]

/-! ## Invariants -/

/-- What the tables say of the post, whose records were made with these keys -/
structure Kept (postId : Nat) (repo : Repo) (created : List String) : Prop where
  exists_row : ∃ row ∈ repo.posts, row.id = postId
  unique : ∀ row ∈ repo.posts, ∀ row' ∈ repo.posts, row.id = postId → row'.id = postId → row = row'
  once : created.length ≤ 1
  atUri : ∀ row ∈ repo.posts, row.id = postId →
    row.atUri = created.head?.map (postUri repo.atDid)
  atRkey : ∀ row ∈ repo.posts, row.id = postId → row.atRkey = created.head?
  /-- No other row and no record has its path. -/
  rows : ∀ row ∈ repo.posts, row.id ≠ postId → ∀ rkey ∈ created, row.path ≠ some (pathOf rkey)
  records : ∀ record ∈ repo.records, ∀ rkey ∈ created, record.key ≠ pathOf rkey

structure Inv (postId : Nat) (s : State) : Prop where
  kept : Kept postId s.repo s.created
  removed : isDeleted postId s = true → ∀ rkey ∈ s.created,
    .deleteAtpPost rkey ∈ s.tasks ∨ hasPath s (pathOf rkey) = false

/-! ## Writes -/

/-- The tree that is built anew has no entry for a post that is deleted. -/
theorem Kept.newEntries_ne (h : Kept postId repo created)
    (hdeleted : ∀ row ∈ repo.posts, row.id = postId → row.deleted = true) {write : RepoWrite}
    {rkey : String} (hrkey : rkey ∈ created) (hadded : ∀ x ∈ write.added, x.1 ≠ pathOf rkey) :
    ∀ x ∈ newEntries repo write, x.1 ≠ pathOf rkey := by
  intro x hx heq
  rcases mem_newEntries.mp hx with ⟨hload, -⟩ | hadd
  · rcases mem_loadAtpEntries.mp hload with ⟨row, hrow, hlive, hentry⟩ | ⟨record, hrecord, rfl⟩
    · have hid : row.id ≠ postId := by
        intro hid
        rw [hdeleted row hrow hid] at hlive
        cases hlive
      refine h.rows row hrow hid rkey hrkey ?_
      rw [path_of_entry hentry, heq]
    · exact h.records record hrecord rkey hrkey heq
  · exact hadded x hadd heq

/-- A write that is not about the post: its row stays, and its path stays free. -/
structure Apart (postId : Nat) (created : List String) (repo repo' : Repo) : Prop where
  atDid : repo'.atDid = repo.atDid
  row : ∀ row, row.id = postId → (row ∈ repo'.posts ↔ row ∈ repo.posts)
  rows : ∀ row ∈ repo'.posts, row.id ≠ postId → ∀ rkey ∈ created, row.path ≠ some (pathOf rkey)
  records : ∀ record ∈ repo'.records, ∀ rkey ∈ created, record.key ≠ pathOf rkey
  events : repo'.events = repo.events ∨ ∃ write e, repo'.events = e :: repo.events ∧
    e.entries = newEntries repo write ∧ ∀ x ∈ write.added, ∀ rkey ∈ created, x.1 ≠ pathOf rkey

theorem Kept.apart (h : Kept postId repo created) (ha : Apart postId created repo repo') :
    Kept postId repo' created where
  exists_row := by
    obtain ⟨row, hrow, hid⟩ := h.exists_row
    exact ⟨row, (ha.row row hid).mpr hrow, hid⟩
  unique row hrow row' hrow' hid hid' :=
    h.unique row ((ha.row row hid).mp hrow) row' ((ha.row row' hid').mp hrow') hid hid'
  once := h.once
  atUri row hrow hid := by
    rw [ha.atDid]
    exact h.atUri row ((ha.row row hid).mp hrow) hid
  atRkey row hrow hid := h.atRkey row ((ha.row row hid).mp hrow) hid
  rows := ha.rows
  records := ha.records

theorem Apart.isDeleted (ha : Apart postId created s.repo s'.repo) :
    isDeleted postId s' = isDeleted postId s := by
  rw [Bool.eq_iff_iff, Deferred.isDeleted, Deferred.isDeleted, hasRow_eq_true, hasRow_eq_true]
  constructor
  · rintro ⟨row, hrow, hid, hdeleted⟩
    exact ⟨row, (ha.row row hid).mp hrow, hid, hdeleted⟩
  · rintro ⟨row, hrow, hid, hdeleted⟩
    exact ⟨row, (ha.row row hid).mpr hrow, hid, hdeleted⟩

/-- The rows of a post are one row, so if one is deleted all are. -/
theorem Kept.deleted (h : Kept postId s.repo created) (hdeleted : isDeleted postId s = true) :
    ∀ row ∈ s.repo.posts, row.id = postId → row.deleted = true := by
  obtain ⟨row, hrow, hid, hdel⟩ := hasRow_eq_true.mp hdeleted
  intro row' hrow' hid'
  rw [h.unique row' hrow' row hrow hid' hid]
  exact hdel

/-- Whatever is written elsewhere, a record that was removed does not come back. -/
theorem Inv.apart (h : Inv postId s) (ha : Apart postId s.created s.repo s'.repo)
    (hcreated : s'.created = s.created)
    (htasks : ∀ rkey, .deleteAtpPost rkey ∈ s.tasks → .deleteAtpPost rkey ∈ s'.tasks) :
    Inv postId s' where
  kept := by
    rw [hcreated]
    exact h.kept.apart ha
  removed hdeleted rkey hrkey := by
    rw [ha.isDeleted] at hdeleted
    rw [hcreated] at hrkey
    refine (h.removed hdeleted rkey hrkey).imp (htasks rkey) fun hpath => ?_
    rw [hasPath_eq_false] at hpath ⊢
    rcases ha.events with hevents | ⟨write, e, hevents, hentries, hadded⟩
    · rw [hevents]
      exact hpath
    · rw [hevents, lastEntries, hentries]
      exact h.kept.newEntries_ne (h.kept.deleted hdeleted) hrkey fun x hx => hadded x hx rkey hrkey

/-- A row that is changed under a condition, where the condition does not concern the post -/
theorem mem_map_of_id {posts : List PostRow} {id : Nat} {f : PostRow → PostRow}
    (hid : id ≠ postId) (hf : ∀ row, (f row).id = row.id) {row : PostRow} (hrow : row.id = postId) :
    row ∈ posts.map (fun row => if row.id = id then f row else row) ↔ row ∈ posts := by
  rw [mem_map_update]
  constructor
  · rintro (⟨row', -, hid', rfl⟩ | ⟨hmem, -⟩)
    · rw [hf, hid'] at hrow
      exact absurd hrow hid
    · exact hmem
  · exact fun hmem => .inr ⟨hmem, fun h => hid (h.symm.trans hrow)⟩

theorem key_mem_applyToRecords {write : RepoWrite} {records : List AtpRecord} {record : AtpRecord}
    (h : record ∈ applyToRecords write records) : record ∈ records ∨ record.key = write.key := by
  cases write with
  | put r =>
    rw [applyToRecords] at h
    split at h
    · rcases mem_upsertRecord.mp h with rfl | ⟨hold, -⟩
      · exact .inr rfl
      · exact .inl hold
    · exact .inl h
  | delete collection rkey => exact .inl (mem_deleteRecord.mp h).1

/-- A commit at another path, with another post if with any -/
theorem Kept.apart_tryApplyWrite (h : Kept postId repo created) {write : RepoWrite}
    {pid : Option Nat} (hpid : pid ≠ some postId)
    (hpost : ∀ record, write = .put record → pid.isSome → record.collection = feedPost)
    (hkey : ∀ rkey ∈ created, write.key ≠ pathOf rkey)
    (hw : tryApplyWrite repo write pid = some repo') : Apart postId created repo repo' := by
  obtain ⟨posts, hposts, rfl⟩ := tryApplyWrite_eq_some.mp hw
  have hadded : ∀ x ∈ write.added, ∀ rkey ∈ created, x.1 ≠ pathOf rkey := by
    intro x hx rkey hrkey
    rw [key_of_added hx]
    exact hkey rkey hrkey
  have hrecords : ∀ record ∈ applyToRecords write repo.records, ∀ rkey ∈ created,
      record.key ≠ pathOf rkey := by
    intro record hrecord rkey hrkey
    rcases key_mem_applyToRecords hrecord with hold | heq
    · exact h.records record hold rkey hrkey
    · rw [heq]
      exact hkey rkey hrkey
  suffices hrows : (∀ row, row.id = postId → (row ∈ posts ↔ row ∈ repo.posts)) ∧
      ∀ row ∈ posts, row.id ≠ postId → ∀ rkey ∈ created, row.path ≠ some (pathOf rkey) from
    ⟨rfl, hrows.1, hrows.2, hrecords, .inr ⟨write, _, rfl, rfl, hadded⟩⟩
  unfold applyToPosts at hposts
  split at hposts
  · rename_i record id
    have hid : id ≠ postId := fun heq => hpid (congrArg some heq)
    obtain ⟨rfl, -⟩ := updatePost_eq_some hposts
    refine ⟨fun row hrow => mem_map_of_id (f := setAtColumns repo.atDid record) hid (fun _ => rfl)
      hrow, fun row hrow hne rkey hrkey => ?_⟩
    rcases mem_map_update.mp hrow with ⟨row', -, -, rfl⟩ | ⟨hrow, -⟩
    · intro heq
      refine hkey rkey hrkey ?_
      rw [RepoWrite.key, hpost record rfl rfl]
      exact Option.some.inj heq
    · exact h.rows row hrow hne rkey hrkey
  · cases hposts
    exact ⟨fun _ _ => Iff.rfl, h.rows⟩

theorem Kept.apart_other (h : Kept postId repo created) {o : Other}
    (hpath : ∀ path ∈ o.path, path ∉ created.map pathOf) (hid : o.id ≠ some postId)
    (hw : o.write repo = some repo') : Apart postId created repo repo' := by
  have hkey : ∀ path ∈ o.path, ∀ rkey ∈ created, path ≠ pathOf rkey := by
    rintro path hmem rkey hrkey rfl
    exact hpath _ hmem (List.mem_map_of_mem hrkey)
  cases o with
  | generic collection rkey cid action =>
    have hput : tryApplyWrite repo (.put { collection, rkey, cid, action }) none = some repo' := hw
    refine h.apart_tryApplyWrite (Option.some_ne_none _).symm (fun _ _ hsome => ?_) (hkey _ rfl) hput
    cases hsome
  | post id rkey cid action =>
    have hput : tryApplyWrite repo (.put { collection := feedPost, rkey, cid, action }) (some id) =
        some repo' := hw
    refine h.apart_tryApplyWrite hid (fun record heq _ => ?_) (hkey _ rfl) hput
    cases heq
    rfl
  | delete collection rkey =>
    have hdel : tryApplyWrite repo (.delete collection rkey) none = some repo' := hw
    refine h.apart_tryApplyWrite (Option.some_ne_none _).symm (fun _ heq _ => ?_) (hkey _ rfl) hdel
    cases heq
  | insert id =>
    have hne : id ≠ postId := fun heq => hid (congrArg some heq)
    obtain ⟨-, rfl⟩ := insertFull_eq_some hw
    refine ⟨rfl, fun row hrow => ?_, fun row hrow hrid rkey hrkey => ?_, h.records, .inl rfl⟩
    · rw [List.mem_append, List.mem_singleton]
      refine ⟨fun hmem => hmem.resolve_right ?_, .inl⟩
      rintro rfl
      exact hne hrow
    · rcases List.mem_append.mp hrow with hold | hnew
      · exact h.rows row hold hrid rkey hrkey
      · rw [List.mem_singleton.mp hnew]
        exact (Option.some_ne_none _).symm
  | softDelete id =>
    have hne : id ≠ postId := fun heq => hid (congrArg some heq)
    cases hw
    refine ⟨rfl, fun row hrow => mem_map_of_id (f := fun row => { row with deleted := true }) hne
      (fun _ => rfl) hrow, fun row hrow hrid rkey hrkey => ?_, h.records, .inl rfl⟩
    rcases mem_softDeleteById.mp hrow with ⟨row', hrow', hid', rfl⟩ | ⟨hrow', -⟩
    · exact h.rows row' hrow' (fun heq => hrid heq) rkey hrkey
    · exact h.rows row hrow' hrid rkey hrkey

/-! ## Writes about the post -/

theorem head?_of_mem {rkey : String} (h : created.length ≤ 1) (hmem : rkey ∈ created) :
    rkey ∈ created.head? := by
  match created, h with
  | [r], _ => exact congrArg some (List.mem_singleton.mp hmem).symm

theorem Kept.created_nil (h : Kept postId s.repo s.created) (hnew : committed postId s = false) :
    s.created = [] := by
  obtain ⟨row, hrow, hid⟩ := h.exists_row
  have huri := hasRow_eq_false.mp hnew row hrow hid
  rw [h.atUri row hrow hid] at huri
  cases hcreated : s.created with
  | nil => rfl
  | cons rkey rkeys =>
    rw [hcreated] at huri
    cases huri

/-- The first commit of the post, at a path that is free -/
theorem Kept.commitPost (h : Kept postId s.repo s.created) {rkey : String} {cid : Cid}
    (hfresh : freshKey s rkey = true)
    (hw : commitPostRecord s.repo postId rkey cid "create" = some repo') :
    Kept postId repo' [rkey] ∧
      ∀ row ∈ repo'.posts, row.id = postId → ∃ old ∈ s.repo.posts, old.id = postId ∧
        row.deleted = old.deleted := by
  obtain ⟨posts, hposts, rfl⟩ := tryApplyWrite_eq_some.mp hw
  obtain ⟨rfl, -⟩ := updatePost_eq_some hposts
  simp only [freshKey, Bool.and_eq_true, List.all_eq_true, decide_eq_true_eq] at hfresh
  have hrow : ∀ row ∈ s.repo.posts.map fun row => if row.id = postId then
      setAtColumns s.repo.atDid { collection := feedPost, rkey, cid, action := "create" } row
      else row, row.id = postId → ∃ old ∈ s.repo.posts, old.id = postId ∧
        setAtColumns s.repo.atDid { collection := feedPost, rkey, cid, action := "create" } old =
          row := by
    intro row hrow hid
    rcases mem_map_update.mp hrow with ⟨old, hold, hid', heq⟩ | ⟨-, hne⟩
    · exact ⟨old, hold, hid', heq⟩
    · exact absurd hid hne
  refine ⟨⟨?_, ?_, Nat.le_refl 1, ?_, ?_, ?_, ?_⟩, ?_⟩
  · obtain ⟨row, hmem, hid⟩ := h.exists_row
    exact ⟨_, mem_map_update.mpr (.inl ⟨row, hmem, hid, rfl⟩), hid⟩
  · intro row hmem row' hmem' hid hid'
    obtain ⟨old, hold, hoid, rfl⟩ := hrow row hmem hid
    obtain ⟨old', hold', hoid', rfl⟩ := hrow row' hmem' hid'
    rw [h.unique old hold old' hold' hoid hoid']
  · intro row hmem hid
    obtain ⟨old, -, -, rfl⟩ := hrow row hmem hid
    rfl
  · intro row hmem hid
    obtain ⟨old, -, -, rfl⟩ := hrow row hmem hid
    rfl
  · intro row hmem hne r hr
    rw [List.mem_singleton.mp hr]
    rcases mem_map_update.mp hmem with ⟨old, -, hid, rfl⟩ | ⟨hold, -⟩
    · exact absurd hid hne
    · exact hfresh.1 row hold
  · intro record hrecord r hr
    rw [List.mem_singleton.mp hr]
    have hold : record ∈ s.repo.records := hrecord
    exact hfresh.2 record hold
  · intro row hmem hid
    obtain ⟨old, hold, hoid, rfl⟩ := hrow row hmem hid
    exact ⟨old, hold, hoid, rfl⟩

theorem Kept.softDeleteById (h : Kept postId repo created) :
    Kept postId (softDeleteById repo postId) created := by
  have hrow : ∀ row ∈ (Atp.softDeleteById repo postId).posts, row.id = postId →
      ∃ old ∈ repo.posts, old.id = postId ∧ { old with deleted := true } = row := by
    intro row hrow hid
    rcases mem_softDeleteById.mp hrow with ⟨old, hold, hoid, heq⟩ | ⟨-, hne⟩
    · exact ⟨old, hold, hoid, heq⟩
    · exact absurd hid hne
  refine ⟨?_, ?_, h.once, ?_, ?_, ?_, h.records⟩
  · obtain ⟨row, hmem, hid⟩ := h.exists_row
    exact ⟨_, mem_softDeleteById.mpr (.inl ⟨row, hmem, hid, rfl⟩), hid⟩
  · intro row hmem row' hmem' hid hid'
    obtain ⟨old, hold, hoid, rfl⟩ := hrow row hmem hid
    obtain ⟨old', hold', hoid', rfl⟩ := hrow row' hmem' hid'
    rw [h.unique old hold old' hold' hoid hoid']
  · intro row hmem hid
    obtain ⟨old, hold, hoid, rfl⟩ := hrow row hmem hid
    exact h.atUri old hold hoid
  · intro row hmem hid
    obtain ⟨old, hold, hoid, rfl⟩ := hrow row hmem hid
    exact h.atRkey old hold hoid
  · intro row hmem hne rkey hrkey
    rcases mem_softDeleteById.mp hmem with ⟨old, -, hid, rfl⟩ | ⟨hold, -⟩
    · exact absurd hid hne
    · exact h.rows row hold hne rkey hrkey

/-- The removal of a record leaves the rows. -/
theorem Kept.deleteAtpRecordGeneric (h : Kept postId repo created) {rkey : String}
    (hw : deleteAtpRecordGeneric repo feedPost rkey = some repo') :
    Kept postId repo' created ∧ repo'.posts = repo.posts ∧
      lastEntries repo'.events = newEntries repo (.delete feedPost rkey) := by
  obtain ⟨posts, hposts, rfl⟩ := tryApplyWrite_eq_some.mp hw
  cases hposts
  exact ⟨⟨h.exists_row, h.unique, h.once, h.atUri, h.atRkey, h.rows, fun record hrecord =>
    h.records record (mem_deleteRecord.mp hrecord).1⟩, rfl, rfl⟩

/-! ## Steps -/

/-- What an orderly step does to the repository -/
inductive Effect (postId : Nat) (s s' : State) : Prop where
  | quiet (hrepo : s'.repo = s.repo) (hcreated : s'.created = s.created)
      (htasks : ∀ rkey, .deleteAtpPost rkey ∈ s.tasks →
        .deleteAtpPost rkey ∈ s'.tasks ∨ hasPath s (pathOf rkey) = false)
  | committed (rkey : String) (cid : Cid) (hnew : committed postId s = false)
      (hlive : isDeleted postId s = false) (hfresh : freshKey s rkey = true)
      (hw : commitPostRecord s.repo postId rkey cid "create" = some s'.repo)
      (hcreated : s'.created = rkey :: s.created)
  | deleted (hrepo : s'.repo = softDeleteById s.repo postId) (hcreated : s'.created = s.created)
      (htasks : ∀ rkey, .deleteAtpPost rkey ∈ s.tasks → .deleteAtpPost rkey ∈ s'.tasks)
      (hremoval : isDeleted postId s = true ∨ ∀ row ∈ s.repo.posts, row.id = postId →
        ∀ rkey ∈ row.atRkey, .deleteAtpPost rkey ∈ s'.tasks)
  | removed (rkey : String) (hw : deleteAtpRecordGeneric s.repo feedPost rkey = some s'.repo)
      (hcreated : s'.created = s.created)
  | wrote (o : Other) (hpath : ∀ path ∈ o.path, path ∉ s.created.map pathOf)
      (hid : o.id ≠ some postId) (hw : o.write s.repo = some s'.repo)
      (hcreated : s'.created = s.created) (htasks : s'.tasks = s.tasks)

/-- The repository stays, and what is to be removed. -/
structure Calm (s s' : State) : Prop where
  repo : s'.repo = s.repo
  created : s'.created = s.created
  tasks : ∀ rkey, .deleteAtpPost rkey ∈ s.tasks → .deleteAtpPost rkey ∈ s'.tasks

theorem Calm.effect (h : Calm s s') : Effect postId s s' :=
  .quiet h.repo h.created fun rkey hmem => .inl (h.tasks rkey hmem)

theorem Calm.trans {s'' : State} (h : Calm s s') (h' : Calm s' s'') : Calm s s'' :=
  ⟨h'.repo.trans h.repo, h'.created.trans h.created,
    fun rkey hmem => h'.tasks rkey (h.tasks rkey hmem)⟩

theorem Calm.of_eq (hrepo : s'.repo = s.repo) (hcreated : s'.created = s.created)
    (htasks : s'.tasks = s.tasks) : Calm s s' :=
  ⟨hrepo, hcreated, fun _ hmem => htasks ▸ hmem⟩

theorem calm_begin (s : State) (t : Task) : Calm s (begin s t) :=
  ⟨rfl, rfl, fun _ hmem => List.mem_append_left _ hmem⟩

theorem calm_finish (s : State) {t : Task} (ht : ∀ rkey, t ≠ .deleteAtpPost rkey) :
    Calm s (finish s t) :=
  ⟨rfl, rfl, fun rkey hmem => (List.mem_erase_of_ne (ht rkey).symm).mpr hmem⟩

theorem calm_retry (s : State) (attempt : Nat) : Calm s (retry s attempt) := by
  rw [retry]
  split
  · exact calm_begin s _
  · exact .of_eq rfl rfl rfl

theorem calm_unlock (s : State) (job : Job) : Calm s (unlock s job) := by
  rw [unlock]
  split <;> exact .of_eq rfl rfl rfl

theorem calm_work {job : Job} (h : work postId s job = some s') : Calm s s' := by
  rw [work] at h
  split at h
  · split at h <;> cases h <;> exact .of_eq rfl rfl rfl
  · cases h
    exact .of_eq rfl rfl rfl
  · cases h
    exact .of_eq rfl rfl rfl
  · cases h
  · cases h
    exact .of_eq rfl rfl rfl
  · have hleave : Calm s (leave s job) := .of_eq rfl rfl rfl
    have hunlock := hleave.trans (calm_unlock (leave s job) job)
    cases h
    split
    · exact hunlock
    · exact hunlock.trans (calm_retry _ _)

theorem calm_workFails {job : Job} (h : workFails s job = some s') : Calm s s' := by
  rw [workFails] at h
  split at h <;> cases h <;> exact .of_eq rfl rfl rfl

theorem calm_failTask (s : State) (t : Task) : Calm s (failTask s t) := by
  cases t with
  | setPendingBskyMediaFile => exact calm_begin s _
  | tryAcquire attempt => exact calm_retry s attempt
  | _ => exact .of_eq rfl rfl rfl

/-- A task that neither deletes the post nor removes a record -/
theorem calm_runTask {t : Task} (hdelete : ∀ rkey, t ≠ .softDeleteById rkey)
    (hremove : ∀ rkey, t ≠ .deleteAtpPost rkey) (h : runTask postId s t = some s') : Calm s s' := by
  cases t with
  | setPendingBskyMediaFile =>
    cases h
    have hpending : Calm s { s with pending := true } := .of_eq rfl rfl rfl
    exact hpending.trans (calm_begin _ _)
  | enqueue | enqueueRetry attempt =>
    cases h
    exact .of_eq rfl rfl rfl
  | pendingBskyPostCommits =>
    rw [runTask] at h
    split at h
    · cases h
      exact calm_begin s _
    · cases h
      exact .of_eq rfl rfl rfl
  | tryAcquire attempt =>
    rw [runTask] at h
    split at h <;> cases h <;> exact .of_eq rfl rfl rfl
  | findDeleteInfo =>
    rw [runTask] at h
    split at h
    · cases h
      exact calm_begin s _
    · cases h
      exact .of_eq rfl rfl rfl
  | softDeleteById rkey => exact absurd rfl (hdelete rkey)
  | deleteAtpPost rkey => exact absurd rfl (hremove rkey)

/-- The removal of a record that is there is not given up. -/
theorem effect_finish {t : Task}
    (ho : ∀ rkey, t = .deleteAtpPost rkey → .deleteAtpPost rkey ∈ (finish s t).tasks ∨
      hasPath s (pathOf rkey) = false) (h : Calm (finish s t) s') : Effect postId s s' := by
  refine .quiet h.repo h.created fun rkey hmem => ?_
  by_cases ht : t = .deleteAtpPost rkey
  · exact (ho rkey ht).imp_left (h.tasks rkey)
  · exact .inl (h.tasks rkey ((List.mem_erase_of_ne (Ne.symm ht)).mpr hmem))

/-- A deletion with the `at_rkey` of the row goes on with the removal of its record. -/
theorem effect_softDeleteById {atRkey : Option String}
    (ho : isDeleted postId s = true ∨ ∀ row ∈ s.repo.posts, row.id = postId → row.atRkey = atRkey)
    (h : runTask postId (finish s (.softDeleteById atRkey)) (.softDeleteById atRkey) = some s') :
    Effect postId s s' := by
  have hfinish : Calm s (finish s (.softDeleteById atRkey)) := calm_finish s fun _ => Task.noConfusion
  cases atRkey with
  | none =>
    cases h
    refine .deleted rfl rfl hfinish.tasks (ho.imp_right fun hrows row hrow hid rkey hrkey => ?_)
    rw [hrows row hrow hid] at hrkey
    cases hrkey
  | some r =>
    cases h
    refine .deleted rfl rfl (fun rkey hmem => List.mem_append_left _ (hfinish.tasks rkey hmem))
      (ho.imp_right fun hrows row hrow hid rkey hrkey => ?_)
    rw [hrows row hrow hid] at hrkey
    cases hrkey
    exact List.mem_append_right _ (List.mem_singleton.mpr rfl)

theorem orderly_softDeleteById {atRkey : Option String}
    (ho : Orderly postId s (.run (.softDeleteById atRkey))) :
    isDeleted postId s = true ∨ ∀ row ∈ s.repo.posts, row.id = postId → row.atRkey = atRkey := by
  have hor := Bool.or_eq_true_iff.mp ho
  refine hor.imp_right fun hrow row hmem hid => ?_
  rw [Bool.not_eq_true'] at hrow
  simpa using hasRow_eq_false.mp hrow row hmem hid

theorem orderly_softDeleteOnly {atRkey : Option String}
    (ho : Orderly postId s (.softDeleteOnly atRkey)) {tasks : List Task} :
    isDeleted postId s = true ∨ ∀ row ∈ s.repo.posts, row.id = postId →
      ∀ rkey ∈ row.atRkey, .deleteAtpPost rkey ∈ tasks := by
  have hor := Bool.or_eq_true_iff.mp ho
  refine hor.imp_right fun hrow row hmem hid rkey hrkey => ?_
  rw [Bool.not_eq_true'] at hrow
  have hnone := hasRow_eq_false.mp hrow row hmem hid
  rw [Option.mem_def.mp hrkey] at hnone
  cases hnone

theorem orderly_commit {job : Job} {rkey : String} {cid : Cid}
    (ho : Orderly postId s (.commit job rkey cid)) :
    committed postId s = false ∧ isDeleted postId s = false := by
  have hand := Bool.and_eq_true_iff.mp ho
  simpa using hand

theorem orderly_finish {rkey : String} (ho : Orderly postId s (.fails (.deleteAtpPost rkey))) :
    .deleteAtpPost rkey ∈ (finish s (.deleteAtpPost rkey)).tasks ∨
      hasPath s (pathOf rkey) = false := by
  have hor := Bool.or_eq_true_iff.mp ho
  simpa using hor

theorem effect_commitPost {job : Job} {stage : Stage} {rkey : String} {cid : Cid}
    (ho : Orderly postId s (.commit job rkey cid)) (hfresh : freshKey s rkey = true)
    (h : commitPost postId (go s job stage) rkey cid = some s') : Effect postId s s' := by
  obtain ⟨hnew, hlive⟩ := orderly_commit ho
  obtain ⟨repo, hrepo, rfl⟩ := Option.map_eq_some_iff.mp h
  exact .committed rkey cid hnew hlive hfresh hrepo rfl

theorem step_effect {act : Action} (ho : Orderly postId s act) (h : step postId s act = some s') :
    Effect postId s s' := by
  cases act with
  | run t =>
    rw [step] at h
    split at h
    · cases t with
      | softDeleteById atRkey => exact effect_softDeleteById (orderly_softDeleteById ho) h
      | deleteAtpPost rkey =>
        rw [runTask] at h
        obtain ⟨repo, hrepo, rfl⟩ := Option.map_eq_some_iff.mp h
        exact .removed rkey hrepo rfl
      | _ =>
        exact ((calm_finish s fun _ => Task.noConfusion).trans
          (calm_runTask (fun _ => Task.noConfusion) (fun _ => Task.noConfusion) h)).effect
    · cases h
  | fails t =>
    rw [step] at h
    split at h
    · cases h
      refine effect_finish (fun rkey ht => ?_) (calm_failTask _ t)
      subst ht
      exact orderly_finish ho
    · cases h
  | endTask t =>
    rw [step] at h
    split at h
    · cases h
      refine effect_finish (t := t) (fun rkey ht => ?_) (.of_eq rfl rfl rfl)
      subst ht
      have hfails : Orderly postId s (.fails (.deleteAtpPost rkey)) := ho
      exact orderly_finish hfails
    · cases h
  | endJob _ | lose _ | sessionLost _ | hold | sessionEnds =>
    rw [step] at h
    split at h
    · cases h
      exact Calm.effect (.of_eq rfl rfl rfl)
    · cases h
  | softDeleteOnly atRkey =>
    rw [step] at h
    split at h
    · cases h
      exact .deleted rfl rfl (calm_finish s fun _ => Task.noConfusion).tasks
        (orderly_softDeleteOnly ho)
    · cases h
  | dequeue attempt =>
    rw [step] at h
    split at h
    · cases h
      have hqueue : Calm s { s with queue := s.queue.erase attempt } := .of_eq rfl rfl rfl
      exact (hqueue.trans (calm_begin _ _)).effect
    · cases h
  | work job =>
    rw [step] at h
    split at h
    · exact (calm_work h).effect
    · cases h
  | workFails job =>
    rw [step] at h
    split at h
    · exact (calm_workFails h).effect
    · cases h
  | commit job rkey cid =>
    rw [step] at h
    split at h
    · rename_i hen
      exact effect_commitPost ho hen.2.2 h
    · cases h
  | commitUnseen job rkey cid =>
    rw [step] at h
    split at h
    · rename_i hen
      exact effect_commitPost ho hen.2.2 h
    · cases h
  | startUp =>
    cases h
    exact (calm_begin s _).effect
  | deleteNote =>
    cases h
    exact (calm_begin s _).effect
  | other o =>
    rw [step] at h
    split at h
    · rename_i hen
      obtain ⟨repo, hrepo, rfl⟩ := Option.map_eq_some_iff.mp h
      refine .wrote o (fun path hpath => ?_) hen.2 hrepo rfl rfl
      have hall := (Option.all_eq_true _ _).mp hen.1 path hpath
      exact of_decide_eq_true hall
    · cases h

theorem inv_effect (h : Inv postId s) (he : Effect postId s s') : Inv postId s' := by
  cases he with
  | quiet hrepo hcreated htasks =>
    refine ⟨hrepo ▸ hcreated ▸ h.kept, fun hdeleted rkey hrkey => ?_⟩
    have hpath : hasPath s' (pathOf rkey) = hasPath s (pathOf rkey) := by
      rw [hasPath, hrepo, hasPath]
    have hdel : isDeleted postId s = true := by
      rw [← hdeleted, isDeleted, isDeleted, hasRow, hasRow, hrepo]
    rw [hcreated] at hrkey
    rw [hpath]
    exact (h.removed hdel rkey hrkey).elim (htasks rkey) .inr
  | committed rkey cid hnew hlive hfresh hw hcreated =>
    obtain ⟨hkept, hrows⟩ := h.kept.commitPost hfresh hw
    rw [h.kept.created_nil hnew] at hcreated
    refine ⟨hcreated ▸ hkept, fun hdeleted => ?_⟩
    obtain ⟨row, hrow, hid, hdel⟩ := hasRow_eq_true.mp hdeleted
    obtain ⟨old, hold, hoid, heq⟩ := hrows row hrow hid
    have holdlive := hasRow_eq_false.mp hlive old hold hoid
    rw [← heq, hdel] at holdlive
    cases holdlive
  | deleted hrepo hcreated htasks hremoval =>
    refine ⟨?_, fun _ rkey hrkey => ?_⟩
    · rw [hrepo, hcreated]
      exact h.kept.softDeleteById
    · have hpath : hasPath s' (pathOf rkey) = hasPath s (pathOf rkey) := by
        rw [hasPath, hrepo, hasPath, softDeleteById]
      rw [hcreated] at hrkey
      rw [hpath]
      rcases hremoval with hdel | hrows
      · exact (h.removed hdel rkey hrkey).imp_left (htasks rkey)
      · obtain ⟨row, hrow, hid⟩ := h.kept.exists_row
        refine .inl (hrows row hrow hid rkey ?_)
        rw [h.kept.atRkey row hrow hid]
        exact head?_of_mem h.kept.once hrkey
  | removed rkey hw hcreated =>
    obtain ⟨hkept, hposts, hlast⟩ := h.kept.deleteAtpRecordGeneric hw
    refine ⟨hcreated ▸ hkept, fun hdeleted r hr => .inr (hasPath_eq_false.mpr ?_)⟩
    have hdel : isDeleted postId s = true := by
      rw [← hdeleted, isDeleted, isDeleted, hasRow, hasRow, hposts]
    rw [hcreated] at hr
    rw [hlast]
    exact h.kept.newEntries_ne (h.kept.deleted hdel) hr fun x hx => by cases hx
  | wrote o hpath hid hw hcreated htasks =>
    exact h.apart (h.kept.apart_other hpath hid hw) hcreated fun rkey hmem => htasks ▸ hmem

theorem inv_step {act : Action} (h : Inv postId s) (ho : Orderly postId s act)
    (hs : step postId s act = some s') : Inv postId s' :=
  inv_effect h (step_effect ho hs)

theorem inv_start (h : insertFull repo postId = some repo') : Inv postId (start repo') := by
  obtain ⟨hfree, rfl⟩ := insertFull_eq_some h
  have hrow : ∀ row ∈ repo.posts ++ [⟨postId, none, none, none, false⟩], row.id = postId →
      row = ⟨postId, none, none, none, false⟩ := by
    intro row hrow hid
    rcases List.mem_append.mp hrow with hold | hnew
    · exact absurd hid (hfree row hold)
    · exact List.mem_singleton.mp hnew
  refine ⟨⟨⟨_, List.mem_append_right _ (List.mem_singleton.mpr rfl), rfl⟩, ?_, Nat.zero_le 1, ?_, ?_,
    fun _ _ _ _ hmem => (List.not_mem_nil hmem).elim,
    fun _ _ _ hmem => (List.not_mem_nil hmem).elim⟩, fun _ _ hmem => (List.not_mem_nil hmem).elim⟩
  · intro row hmem row' hmem' hid hid'
    rw [hrow row hmem hid, hrow row' hmem' hid']
  · intro row hmem hid
    rw [hrow row hmem hid]
    rfl
  · intro row hmem hid
    rw [hrow row hmem hid]
    rfl

/-- Where nothing is left to be done, nothing is going to be removed. -/
theorem Inv.once (h : Inv postId s) : Once postId s := by
  refine ⟨h.kept.once, h.kept.atUri, fun hdeleted hended rkey hrkey => ?_⟩
  refine (h.removed hdeleted rkey hrkey).resolve_left fun hmem => ?_
  rw [ended, Bool.and_eq_true, List.isEmpty_iff] at hended
  rw [hended.2] at hmem
  cases hmem

/-! ## The lock -/

/-- A run that is at work has the lock, and is the only one. -/
structure Exclusive (s : State) : Prop where
  lone : s.running.length ≤ 1
  holder : ∀ job ∈ s.running, job.locked = true ∧ s.lock = .job

theorem Exclusive.of_eq (h : Exclusive s) (hrunning : s'.running = s.running)
    (hlock : s'.lock = s.lock) : Exclusive s' :=
  ⟨hrunning ▸ h.lone, hrunning ▸ hlock ▸ h.holder⟩

theorem Exclusive.running_eq {job : Job} (h : Exclusive s) (hjob : job ∈ s.running) :
    s.running = [job] := by
  have hlone := h.lone
  match hrunning : s.running, hlone with
  | [j], _ =>
    rw [hrunning] at hjob
    rw [List.mem_singleton.mp hjob]
  | [], _ =>
    rw [hrunning] at hjob
    cases hjob

theorem Exclusive.go {job : Job} (h : Exclusive s) (hjob : job ∈ s.running) (stage : Stage) :
    Exclusive (go s job stage) := by
  have hrunning : (Deferred.go s job stage).running = [{ job with stage }] := by
    simp [Deferred.go, h.running_eq hjob]
  refine ⟨by rw [hrunning]; exact Nat.le_refl 1, fun j hj => ?_⟩
  rw [hrunning, List.mem_singleton] at hj
  rw [hj]
  exact h.holder job hjob

/-- A run that leaves lets nobody behind. -/
theorem Exclusive.running_leave {job : Job} (h : Exclusive s) (hjob : job ∈ s.running) :
    (leave s job).running = [] := by
  simp [leave, h.running_eq hjob]

theorem exclusive_nil (h : s.running = []) : Exclusive s :=
  ⟨by rw [h]; exact Nat.zero_le 1, by rw [h]; exact fun _ hmem => (List.not_mem_nil hmem).elim⟩

theorem running_retry (s : State) (attempt : Nat) : (retry s attempt).running = s.running := by
  rw [retry]
  split <;> rfl

theorem lock_retry (s : State) (attempt : Nat) : (retry s attempt).lock = s.lock := by
  rw [retry]
  split <;> rfl

theorem running_unlock (s : State) (job : Job) : (unlock s job).running = s.running := by
  rw [unlock]
  split <;> rfl

theorem Exclusive.work {job : Job} (h : Exclusive s) (hjob : job ∈ s.running)
    (hs : work postId s job = some s') : Exclusive s' := by
  rw [Deferred.work] at hs
  split at hs
  · split at hs <;> cases hs <;> exact h.go hjob _
  · cases hs
    exact h.go hjob _
  · cases hs
    exact h.go hjob _
  · cases hs
  · cases hs
    exact Exclusive.go (s := { s with pending := false }) (h.of_eq rfl rfl) hjob _
  · cases hs
    refine exclusive_nil ?_
    split
    · rw [running_unlock, h.running_leave hjob]
    · rw [running_retry, running_unlock, h.running_leave hjob]

theorem Exclusive.runTask {t : Task} (h : Exclusive s) (hs : runTask postId s t = some s') :
    Exclusive s' := by
  cases t with
  | tryAcquire attempt =>
    rw [Deferred.runTask] at hs
    split at hs
    · rename_i hfree
      cases hs
      have hnil : s.running = [] := by
        refine List.eq_nil_iff_forall_not_mem.mpr fun job hjob => ?_
        have hlock := (h.holder job hjob).2
        rw [hfree] at hlock
        cases hlock
      rw [hnil]
      refine ⟨Nat.le_refl 1, fun job hjob => ?_⟩
      rw [List.mem_singleton.mp hjob]
      exact ⟨rfl, rfl⟩
    · cases hs
      exact h
  | setPendingBskyMediaFile | enqueue | enqueueRetry attempt =>
    cases hs
    exact h.of_eq rfl rfl
  | pendingBskyPostCommits | findDeleteInfo =>
    rw [Deferred.runTask] at hs
    split at hs <;> cases hs <;> exact h.of_eq rfl rfl
  | softDeleteById atRkey =>
    cases atRkey <;> cases hs <;> exact h.of_eq rfl rfl
  | deleteAtpPost rkey =>
    rw [Deferred.runTask] at hs
    obtain ⟨repo, -, rfl⟩ := Option.map_eq_some_iff.mp hs
    exact h.of_eq rfl rfl

theorem Exclusive.commitPost {job : Job} {stage : Stage} {rkey : String} {cid : Cid}
    (h : Exclusive s) (hjob : job ∈ s.running)
    (hs : commitPost postId (Deferred.go s job stage) rkey cid = some s') : Exclusive s' := by
  obtain ⟨repo, -, rfl⟩ := Option.map_eq_some_iff.mp hs
  exact (h.go hjob stage).of_eq rfl rfl

theorem Exclusive.failTask (h : Exclusive s) (t : Task) : Exclusive (failTask s t) := by
  cases t with
  | tryAcquire attempt => exact h.of_eq (running_retry s attempt) (lock_retry s attempt)
  | _ => exact h.of_eq rfl rfl

/-- A run that is at work keeps its lock, unless its session is lost. -/
theorem exclusive_step {act : Action} (h : Exclusive s) (hact : ∀ job, act ≠ .sessionLost job)
    (hs : step postId s act = some s') : Exclusive s' := by
  cases act with
  | sessionLost job => exact absurd rfl (hact job)
  | startUp | deleteNote =>
    cases hs
    exact h.of_eq rfl rfl
  | run t =>
    rw [step] at hs
    split at hs
    · exact Exclusive.runTask (s := finish s t) (h.of_eq rfl rfl) hs
    · cases hs
  | fails t =>
    rw [step] at hs
    split at hs
    · cases hs
      exact Exclusive.failTask (s := finish s t) (h.of_eq rfl rfl) t
    · cases hs
  | endTask _ | softDeleteOnly _ | dequeue _ | lose _ =>
    rw [step] at hs
    split at hs <;> cases hs
    exact h.of_eq rfl rfl
  | endJob job =>
    rw [step] at hs
    split at hs
    · rename_i hjob
      cases hs
      exact exclusive_nil (h.running_leave hjob)
    · cases hs
  | work job =>
    rw [step] at hs
    split at hs
    · rename_i hjob
      exact h.work hjob hs
    · cases hs
  | workFails job =>
    rw [step] at hs
    split at hs
    · rename_i hjob
      rw [workFails] at hs
      split at hs <;> cases hs <;> exact h.go hjob _
    · cases hs
  | commit job rkey cid | commitUnseen job rkey cid =>
    rw [step] at hs
    split at hs
    · rename_i hen
      exact h.commitPost hen.1 hs
    · cases hs
  | hold | sessionEnds =>
    rw [step] at hs
    split at hs
    · rename_i hlock
      cases hs
      refine exclusive_nil (List.eq_nil_iff_forall_not_mem.mpr fun job hjob => ?_)
      have hheld := (h.holder job hjob).2
      rw [hlock] at hheld
      cases hheld
    · cases hs
  | other o =>
    rw [step] at hs
    split at hs
    · obtain ⟨repo, -, rfl⟩ := Option.map_eq_some_iff.mp hs
      exact h.of_eq rfl rfl
    · cases hs

/-- As long as no session is lost, one run of the job at most is at work. -/
theorem length_running_le {acts : List Action} (hacts : ∀ job, .sessionLost job ∉ acts)
    (hr : (machine postId).run (start repo) acts = some s) : s.running.length ≤ 1 := by
  have halong : (machine postId).Along (fun _ act => ∀ job, act ≠ .sessionLost job) (start repo)
      acts := by
    refine (machine postId).along_of_forall (start repo) fun act hmem job heq => ?_
    exact hacts job (heq ▸ hmem)
  exact ((machine postId).run_inv_along exclusive_step (exclusive_nil rfl) halong hr).lone

/-! ## The promise -/

theorem once_of_orderly {acts : List Action} (hinsert : insertFull repo postId = some repo')
    (ho : (machine postId).Along (Orderly postId) (start repo') acts)
    (hr : (machine postId).run (start repo') acts = some s) : Once postId s :=
  Inv.once ((machine postId).run_inv_along inv_step (inv_start hinsert) ho hr)

section Runs

def someCid : Cid := { version := 1, codec := 0x71, hashCode := 0x12, digest := [] }

/-- The repository of an account with one post, whose id is 7 -/
def onePost : Repo :=
  { atDid := "did:plc:a", posts := [⟨7, none, none, none, false⟩], records := [], events := [] }

/-- A run of the job up to its commit -/
def upToCommit : List Action :=
  [.dequeue 0, .run (.tryAcquire 0), .work ⟨0, .deferredCommitMaterial, true⟩,
    .work ⟨0, .resolveReplyUris, true⟩, .work ⟨0, .bskyVideoEmbedMaterial, true⟩]

def commitAs (rkey : String) : List Action :=
  [.commit ⟨0, .commitPost, true⟩ rkey someCid, .work ⟨0, .clearPendingBskyMediaFile, true⟩,
    .work ⟨0, .release true, true⟩]

def enqueued : List Action := [.run .setPendingBskyMediaFile, .run .enqueue]

/-- The post is committed, and then deleted. -/
def committedThenDeleted : List Action :=
  enqueued ++ upToCommit ++ commitAs "3k1" ++
    [.deleteNote, .run .findDeleteInfo, .run (.softDeleteById (some "3k1")),
      .run (.deleteAtpPost "3k1")]

/-- The API restarts while the first job waits in the queue. -/
def startedTwice : List Action :=
  enqueued ++ [.startUp, .run .pendingBskyPostCommits] ++ enqueued ++
    upToCommit ++ commitAs "3k1" ++ upToCommit ++ commitAs "3k2"

/-- The post is deleted while the job waits for its media. -/
def deletedThenCommitted : List Action :=
  enqueued ++ [.deleteNote, .run .findDeleteInfo, .run (.softDeleteById none)] ++
    upToCommit ++ commitAs "3k1"

theorem once_of_orderly_committedThenDeleted :
    ∃ s, (machine 7).run (start onePost) committedThenDeleted = some s ∧ Once 7 s ∧
      s.created = ["3k1"] ∧ isDeleted 7 s = true ∧ ended s = true := by
  refine ⟨_, rfl, ?_, by decide, by decide, by decide⟩
  exact @once_of_orderly 7 _ { onePost with posts := [] } onePost committedThenDeleted rfl
    (by decide) rfl

theorem once_counterexample :
    (∃ s, (machine 7).run (start onePost) startedTwice = some s ∧ s.created = ["3k2", "3k1"] ∧
      ¬ Once 7 s) ∧
    ∃ s, (machine 7).run (start onePost) deletedThenCommitted = some s ∧ ended s = true ∧
      isDeleted 7 s = true ∧ hasPath s (pathOf "3k1") = true ∧ ¬ Once 7 s := by
  refine ⟨⟨_, rfl, rfl, fun h => absurd h.once (by decide)⟩, _, rfl, by decide, by decide, by decide,
    fun h => ?_⟩
  have hpath := h.deleted (by decide) (by decide) "3k1" (by decide)
  exact absurd hpath (by decide)

end Runs

end Seiran.Deferred
