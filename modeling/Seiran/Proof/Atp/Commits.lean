import Seiran.Model.Atp.Commits
import Seiran.Proof.Atp.Service

/-!
# Events and trees

* `Synced`: what is read is in the last tree, and what is in the last tree is
  read again or belongs to a soft-deleted post. Every commit keeps it;
* `exact_put`, `exact_delete`: the op of a commit whose path is settled, and
  whose action fits the last tree;
* `exact_of_orderly`: in a run of orderly steps every event is exact.
-/

namespace Seiran.Commits

open Atp

/-! ## The last tree and the tables -/

structure Synced (repo : Repo) : Prop where
  sub : ∀ x ∈ loadAtpEntries repo, x ∈ lastEntries repo.events
  sup : ∀ x ∈ lastEntries repo.events, x ∈ loadAtpEntries repo ∨
    ∃ row ∈ repo.posts, row.deleted = true ∧ row.entry = some x

section Trees

variable {repo repo' : Repo} {write : RepoWrite} {path : String} {x : String × Cid}

theorem mem_load_iff (h : Synced repo) (hs : Settled repo path) (hx : x.1 ≠ path) :
    x ∈ loadAtpEntries repo ↔ x ∈ lastEntries repo.events := by
  refine ⟨h.sub x, fun hmem => ?_⟩
  rcases h.sup x hmem with hload | ⟨row, hrow, hdel, hentry⟩
  · exact hload
  · exact absurd ⟨x, hmem, rfl⟩ (hs row hrow hdel x.1 (path_of_entry hentry) hx)

theorem mem_newEntries_iff (h : Synced repo) (hs : Settled repo write.key) :
    x ∈ newEntries repo write ↔
      (x ∈ lastEntries repo.events ∧ x.1 ≠ write.key) ∨ x ∈ write.added := by
  rw [mem_newEntries]
  refine or_congr_left (and_congr_left fun hx => ?_)
  exact mem_load_iff h hs hx

theorem synced_write (hw : WriteSpec repo repo' write) : Synced repo' := by
  have hlast : lastEntries repo'.events = newEntries repo write := by rw [hw.events]; rfl
  constructor
  · intro x hx
    rw [hlast, mem_newEntries]
    by_cases hkey : x.1 = write.key
    · exact .inr (hw.atKey x hx hkey)
    · exact .inl ⟨(hw.away x hkey).mp hx, hkey⟩
  · intro x hx
    rw [hlast, mem_newEntries] at hx
    rcases hx with ⟨hx, hkey⟩ | hx
    · exact .inl ((hw.away x hkey).mpr hx)
    · exact hw.stored x hx

theorem mem_applyOp {entries : Entries} {op : CommitEvtOp} :
    x ∈ applyOp entries op ↔
      (x ∈ entries ∧ x.1 ≠ op.path) ∨ ∃ cid, op.cid = some cid ∧ x = (op.path, cid) := by
  unfold applyOp
  split
  · rename_i cid hcid
    simp only [hcid, List.mem_cons, List.mem_filter, decide_eq_true_eq, Option.some.injEq,
      exists_eq_left']
    exact or_comm
  · rename_i hcid
    simp only [hcid, List.mem_filter, decide_eq_true_eq, reduceCtorEq, false_and, exists_false,
      or_false]

theorem mem_added_iff : x ∈ write.added ↔ ∃ cid, write.op.cid = some cid ∧ x = (write.op.path, cid) := by
  cases write with
  | put record => simp [RepoWrite.added, RepoWrite.op]
  | delete collection rkey => simp [RepoWrite.added, RepoWrite.op]

theorem op_path : write.op.path = write.key := by
  cases write with
  | put record => rfl
  | delete collection rkey => rfl

/-- The op of a commit whose path is settled leads from the last tree to the new one. -/
theorem mem_foldl_ops (h : Synced repo) (hs : Settled repo write.key) :
    x ∈ [write.op].foldl applyOp (lastEntries repo.events) ↔ x ∈ newEntries repo write := by
  rw [mem_newEntries_iff h hs, List.foldl_cons, List.foldl_nil, mem_applyOp, op_path, mem_added_iff,
    op_path]

theorem exact_put {record : CommitRecord} (h : Synced repo)
    (hs : Settled repo (RepoWrite.put record).key)
    (hact : record.action = "create" ∧
        ¬ hasKey (lastEntries repo.events) (RepoWrite.put record).key ∨
      record.action = "update" ∧ hasKey (lastEntries repo.events) (RepoWrite.put record).key) :
    Exact (lastEntries repo.events)
      { ops := [(RepoWrite.put record).op], entries := newEntries repo (.put record) } := by
  have hnew : hasKey (newEntries repo (.put record)) (RepoWrite.put record).key :=
    ⟨_, (mem_newEntries_iff h hs).mpr (.inr (List.mem_singleton_self _)), rfl⟩
  refine ⟨fun x => ?_, fun op hop => ?_, fun op hop => ?_, fun op hop => ?_⟩
  · exact mem_foldl_ops h hs
  all_goals
    rw [List.mem_singleton] at hop
    subst hop
    rcases hact with ⟨haction, hkey⟩ | ⟨haction, hkey⟩
  · exact iff_of_true haction hkey
  · refine iff_of_false ?_ (not_not.mpr hkey)
    rw [RepoWrite.op, haction]
    show "update" ≠ "create"
    decide
  · refine iff_of_false ?_ fun hand => hkey hand.1
    rw [RepoWrite.op, haction]
    show "create" ≠ "update"
    decide
  · exact iff_of_true haction ⟨hkey, hnew⟩
  · refine iff_of_false ?_ fun hand => hkey hand.1
    rw [RepoWrite.op, haction]
    show "create" ≠ "delete"
    decide
  · refine iff_of_false ?_ fun hand => hand.2 hnew
    rw [RepoWrite.op, haction]
    show "update" ≠ "delete"
    decide

theorem exact_delete {collection rkey : String} (h : Synced repo)
    (hs : Settled repo (RepoWrite.delete collection rkey).key)
    (hkey : hasKey (lastEntries repo.events) (entryKey collection rkey)) :
    Exact (lastEntries repo.events)
      { ops := [(RepoWrite.delete collection rkey).op],
        entries := newEntries repo (.delete collection rkey) } := by
  have hgone : ¬ hasKey (newEntries repo (.delete collection rkey)) (entryKey collection rkey) := by
    rintro ⟨x, hx, hxkey⟩
    rcases (mem_newEntries_iff h hs).mp hx with ⟨-, hne⟩ | hx
    · exact hne hxkey
    · cases hx
  refine ⟨fun x => ?_, fun op hop => ?_, fun op hop => ?_, fun op hop => ?_⟩
  · exact mem_foldl_ops h hs
  all_goals
    rw [List.mem_singleton] at hop
    subst hop
  · refine iff_of_false ?_ (not_not.mpr hkey)
    show "delete" ≠ "create"
    decide
  · refine iff_of_false ?_ fun hand => hgone hand.2
    show "delete" ≠ "update"
    decide
  · exact iff_of_true rfl ⟨hkey, hgone⟩

/-! ## What the conditions on the tables say about the tree -/

theorem mem_last_of_record {collection rkey : String} (h : Synced repo)
    (hrec : repo.hasRecord collection rkey = true) :
    hasKey (lastEntries repo.events) (entryKey collection rkey) := by
  obtain ⟨r, hr, heq⟩ := List.any_eq_true.mp hrec
  obtain ⟨rfl, rfl⟩ := of_decide_eq_true heq
  exact ⟨(r.key, r.cid), h.sub _ (mem_loadAtpEntries.mpr (.inr ⟨r, hr, rfl⟩)), rfl⟩

theorem not_mem_last {collection rkey : String} (h : Synced repo)
    (halone : Alone repo collection rkey) (hrec : repo.hasRecord collection rkey = false) :
    ¬ hasKey (lastEntries repo.events) (entryKey collection rkey) := by
  rintro ⟨x, hx, hkey⟩
  rcases h.sup x hx with hload | ⟨row, hrow, -, hentry⟩
  · rcases mem_loadAtpEntries.mp hload with ⟨row, hrow, -, hentry⟩ | ⟨r, hr, rfl⟩
    · exact (halone.1 row hrow (by rw [path_of_entry hentry, hkey])).2 ⟨x, hx, hkey⟩
    · have hnone := List.any_eq_false.mp hrec r hr
      exact hnone (decide_eq_true (halone.2 r hr hkey))
  · exact (halone.1 row hrow (by rw [path_of_entry hentry, hkey])).2 ⟨x, hx, hkey⟩

theorem Alone.freePath {collection rkey : String} (h : Alone repo collection rkey) :
    FreePath repo collection rkey :=
  ⟨fun row hrow hpath => (h.1 row hrow hpath).1, h.2⟩

end Trees

/-! ## The invariant -/

/-- The row `id` is at `rkey`. -/
def RowAt (repo : Repo) (id : Nat) (rkey : String) : Prop :=
  ∃ row ∈ repo.posts, row.id = id ∧ row.atUri = some (postUri repo.atDid rkey)

/-- What a request relies on. -/
def ProcOk (repo : Repo) : Proc → Prop
  | .posting id rkey => RowFor repo id rkey
  | .deleting id rkey => RowAt repo id rkey
  | .retracting id rkey => ∃ row ∈ repo.posts, row.id = id ∧ row.deleted = true ∧
      row.atUri = some (postUri repo.atDid rkey)
  | .checked collection _ => collection ≠ feedPost

structure Inv (s : State) : Prop where
  wf : Wf s.repo
  synced : Synced s.repo
  exact : AllExact s.repo.events
  procs : ∀ p pr, s.procs p = some pr → ProcOk s.repo pr
  posting : ∀ p q id r r', s.procs p = some (.posting id r) → s.procs q = some (.posting id r') →
    r = r'

/-- Every row is still there, at its URI, and deleted if it was. -/
structure RowsKept (repo repo' : Repo) : Prop where
  atDid : repo'.atDid = repo.atDid
  rows : ∀ row ∈ repo.posts, ∃ row' ∈ repo'.posts, row'.id = row.id ∧ row'.atUri = row.atUri ∧
    (row.deleted = true → row'.deleted = true)

section Steps

variable {s s' : State} {p : Nat} {repo repo' : Repo}

theorem RowsKept.of_posts (hdid : repo'.atDid = repo.atDid) (hposts : repo'.posts = repo.posts) :
    RowsKept repo repo' :=
  ⟨hdid, fun row hrow => ⟨row, hposts ▸ hrow, rfl, rfl, id⟩⟩

theorem ProcOk.kept {pr : Proc} (hk : RowsKept repo repo') (h : ProcOk repo pr) :
    ProcOk repo' pr := by
  cases pr with
  | posting id rkey =>
    obtain ⟨row, hrow, hid, huri⟩ := h
    obtain ⟨row', hrow', hid', huri', -⟩ := hk.rows row hrow
    exact ⟨row', hrow', hid'.trans hid, by rwa [huri', hk.atDid]⟩
  | deleting id rkey =>
    obtain ⟨row, hrow, hid, huri⟩ := h
    obtain ⟨row', hrow', hid', huri', -⟩ := hk.rows row hrow
    exact ⟨row', hrow', hid'.trans hid, by rwa [huri', hk.atDid]⟩
  | retracting id rkey =>
    obtain ⟨row, hrow, hid, hdel, huri⟩ := h
    obtain ⟨row', hrow', hid', huri', hdel'⟩ := hk.rows row hrow
    exact ⟨row', hrow', hid'.trans hid, hdel' hdel, by rwa [huri', hk.atDid]⟩
  | checked collection existing => exact h

theorem procs_setProc {q : Nat} {pr : Proc} {x : Option Proc}
    (h : (setProc s p x).procs q = some pr) :
    (q = p ∧ x = some pr) ∨ (q ≠ p ∧ s.procs q = some pr) := by
  by_cases hq : q = p
  · subst hq
    simp only [setProc, Function.update_self] at h
    exact .inl ⟨rfl, h⟩
  · simp only [setProc, Function.update_of_ne hq] at h
    exact .inr ⟨hq, h⟩

theorem start_eq_some {pr : Proc} (h : start s p pr = some s') : s' = setProc s p (some pr) := by
  unfold start at h
  split at h
  · exact (Option.some.inj h).symm
  · cases h

theorem finish_eq_some {repo? : Option Repo} (h : finish s p repo? = some s') :
    ∃ repo, repo? = some repo ∧ s' = setProc { s with repo } p none := by
  obtain ⟨repo, hrepo, rfl⟩ := Option.map_eq_some_iff.mp h
  exact ⟨repo, hrepo, rfl⟩

/-- A request that is not about to post takes its next step, or ends. -/
theorem Inv.setProc (h : Inv s) {x : Option Proc} (hx : ∀ pr, x = some pr → ProcOk s.repo pr)
    (hpost : ∀ id r, x = some (.posting id r) → ∀ q r', s.procs q = some (.posting id r') → r = r') :
    Inv (Commits.setProc s p x) where
  wf := h.wf
  synced := h.synced
  exact := h.exact
  procs := fun q pr hq => by
    rcases procs_setProc hq with ⟨-, heq⟩ | ⟨-, hq⟩
    · exact hx pr heq
    · exact h.procs q pr hq
  posting := fun q q' id r r' hq hq' => by
    rcases procs_setProc hq with ⟨-, heq⟩ | ⟨-, hq⟩ <;>
      rcases procs_setProc hq' with ⟨-, heq'⟩ | ⟨-, hq'⟩
    · rw [heq] at heq'
      cases heq'
      rfl
    · exact hpost id r heq q' r' hq'
    · exact (hpost id r' heq' q r hq).symm
    · exact h.posting q q' id r r' hq hq'

/-- A request ends. -/
theorem Inv.stop (h : Inv s) : Inv (Commits.setProc s p none) := h.setProc nofun nofun

/-- A commit that keeps the rows. -/
theorem Inv.write (h : Inv s) {write : RepoWrite} (hw : WriteSpec s.repo repo' write)
    (hk : RowsKept s.repo repo')
    (hexact : Exact (lastEntries s.repo.events)
      { ops := [write.op], entries := newEntries s.repo write }) :
    Inv { s with repo := repo' } where
  wf := hw.wf
  synced := synced_write hw
  exact := by
    show AllExact repo'.events
    rw [hw.events]
    exact ⟨hexact, h.exact⟩
  procs := fun q pr hq => (h.procs q pr hq).kept hk
  posting := h.posting

attribute [local simp] step in
theorem inv_createRecord {collection rkey : String} {cid : Cid} (h : Inv s)
    (ho : Orderly s (.createRecord collection rkey cid))
    (hs : step s (.createRecord collection rkey cid) = some s') : Inv s' := by
  simp only [step] at hs
  split at hs
  · rename_i hc
    obtain ⟨repo, hrepo, rfl⟩ := Option.map_eq_some_iff.mp hs
    obtain ⟨hset, halone, hrec⟩ := ho
    obtain ⟨hw, hposts⟩ := commitGenericRecord_spec h.wf hc halone.freePath hrepo
    refine h.write hw (.of_posts hw.atDid hposts) (exact_put h.synced hset (.inl ⟨rfl, ?_⟩))
    exact not_mem_last h.synced halone hrec
  · cases hs

theorem inv_putRecord {collection rkey : String} {cid : Cid} (h : Inv s)
    (ho : Orderly s (.putRecord collection rkey cid))
    (hs : step s (.putRecord collection rkey cid) = some s') : Inv s' := by
  simp only [step] at hs
  split at hs
  · rename_i hc
    obtain ⟨repo, hrepo, rfl⟩ := Option.map_eq_some_iff.mp hs
    obtain ⟨hset, halone, hrec⟩ := ho
    obtain ⟨hw, hposts⟩ := commitGenericRecord_spec h.wf hc halone.freePath hrepo
    refine h.write hw (.of_posts hw.atDid hposts) (exact_put h.synced hset (.inr ⟨rfl, ?_⟩))
    exact mem_last_of_record h.synced hrec
  · cases hs

theorem inv_deleteRecord {collection rkey : String} (h : Inv s)
    (ho : Orderly s (.deleteRecord collection rkey))
    (hs : step s (.deleteRecord collection rkey) = some s') : Inv s' := by
  simp only [step] at hs
  split at hs
  · obtain ⟨repo, hrepo, rfl⟩ := Option.map_eq_some_iff.mp hs
    obtain ⟨hset, halone, hrec⟩ := ho
    obtain ⟨hw, hposts⟩ := deleteAtpRecordGeneric_spec h.wf halone.freePath hrepo
    refine h.write hw (.of_posts hw.atDid hposts) (exact_delete h.synced hset ?_)
    exact mem_last_of_record h.synced hrec
  · cases hs

theorem inv_commitSelf {cid : Cid} (h : Inv s) (ho : Orderly s (.commitSelf p cid))
    (hs : step s (.commitSelf p cid) = some s') : Inv s' := by
  simp only [step] at hs
  split at hs
  · rename_i collection existing hp
    obtain ⟨repo, hrepo, rfl⟩ := finish_eq_some hs
    simp only [Orderly, hp] at ho
    obtain ⟨hset, halone, hrec⟩ := ho
    obtain ⟨hw, hposts⟩ := commitGenericRecord_spec h.wf (h.procs p _ hp) halone.freePath hrepo
    refine (h.write hw (.of_posts hw.atDid hposts) (exact_put h.synced hset ?_)).stop
    cases existing with
    | true => exact .inr ⟨rfl, mem_last_of_record h.synced hrec⟩
    | false => exact .inl ⟨rfl, not_mem_last h.synced halone hrec⟩
  · cases hs

/-- The post that is retracted is not at its path any more. -/
theorem freePath_retracting {id : Nat} {rkey : String} (h : Inv s)
    (hp : s.procs p = some (.retracting id rkey)) (halone : PostAlone s.repo rkey) :
    FreePath s.repo feedPost rkey where
  posts := fun row hrow hpath => by
    obtain ⟨row', hrow', -, hdel, huri⟩ := h.procs p _ hp
    obtain ⟨r, hr, hkey⟩ := Option.map_eq_some_iff.mp hpath
    have hat := (h.wf.rkeys row hrow r hr).1
    rw [entryKey_inj hkey] at hat
    have hid := h.wf.uris row hrow row' hrow' _ hat huri
    rw [h.wf.row_unique hrow hrow' hid]
    exact hdel
  records := fun r hr hkey => absurd hkey (halone r hr)

theorem inv_commitDelete (h : Inv s) (ho : Orderly s (.commitDelete p))
    (hs : step s (.commitDelete p) = some s') : Inv s' := by
  simp only [step] at hs
  split at hs
  · rename_i id rkey hp
    obtain ⟨repo, hrepo, rfl⟩ := finish_eq_some hs
    simp only [Orderly, hp] at ho
    obtain ⟨hset, halone, hkey⟩ := ho
    obtain ⟨hw, hposts⟩ :=
      deleteAtpRecordGeneric_spec h.wf (freePath_retracting h hp halone) hrepo
    exact (h.write hw (.of_posts hw.atDid hposts) (exact_delete h.synced hset hkey)).stop
  · cases hs

/-- The row of a request that posts, after the commit of another. -/
theorem procOk_commitPost {id : Nat} {rkey : String} {record : CommitRecord} (h : Inv s)
    (hrkey : record.rkey = rkey) (hrow : RowFor s.repo id rkey) (hdid : repo'.atDid = s.repo.atDid)
    (hposts : repo'.posts = s.repo.posts.map fun row =>
      if row.id = id then setAtColumns s.repo.atDid record row else row)
    {pr : Proc} (hpr : ProcOk s.repo pr)
    (huniq : ∀ r, pr = .posting id r → r = rkey) : ProcOk repo' pr := by
  subst hrkey
  obtain ⟨row₀, hrow₀, hid₀, huri₀⟩ := hrow
  -- a row that has a URI keeps it
  have hkept : ∀ row ∈ s.repo.posts, ∀ r, row.atUri = some (postUri s.repo.atDid r) →
      ∃ row' ∈ repo'.posts, row'.id = row.id ∧ row'.atUri = some (postUri s.repo.atDid r) ∧
        (row.deleted = true → row'.deleted = true) := by
    intro row hmem r huri
    rw [hposts]
    by_cases hid : row.id = id
    · refine ⟨_, mem_map_update.mpr (.inl ⟨row, hmem, hid, rfl⟩), rfl, ?_, fun hdel => hdel⟩
      rw [h.wf.row_unique hrow₀ hmem (hid₀.trans hid.symm), huri] at huri₀
      rcases huri₀ with hnone | hsome
      · cases hnone
      · exact hsome.symm
    · exact ⟨row, mem_map_update.mpr (.inr ⟨hmem, hid⟩), rfl, huri, fun hdel => hdel⟩
  cases pr with
  | posting id' r =>
    obtain ⟨row, hmem, hid, huri⟩ := hpr
    by_cases heq : id' = id
    · subst heq
      rw [huniq r rfl]
      refine ⟨setAtColumns s.repo.atDid record row, ?_, hid, .inr (by rw [hdid]; rfl)⟩
      rw [hposts]
      exact mem_map_update.mpr (.inl ⟨row, hmem, hid, rfl⟩)
    · refine ⟨row, ?_, hid, by rwa [hdid]⟩
      rw [hposts]
      exact mem_map_update.mpr (.inr ⟨hmem, fun hid' => heq (hid.symm.trans hid')⟩)
  | deleting id' r =>
    obtain ⟨row, hmem, hid, huri⟩ := hpr
    obtain ⟨row', hmem', hid', huri', -⟩ := hkept row hmem r huri
    exact ⟨row', hmem', hid'.trans hid, by rwa [hdid]⟩
  | retracting id' r =>
    obtain ⟨row, hmem, hid, hdel, huri⟩ := hpr
    obtain ⟨row', hmem', hid', huri', hdel'⟩ := hkept row hmem r huri
    exact ⟨row', hmem', hid'.trans hid, hdel' hdel, by rwa [hdid]⟩
  | checked collection existing => exact hpr

theorem inv_commitPost {cid : Cid} (h : Inv s) (ho : Orderly s (.commitPost p cid))
    (hs : step s (.commitPost p cid) = some s') : Inv s' := by
  simp only [step] at hs
  split at hs
  · rename_i id rkey hp
    obtain ⟨repo, hrepo, rfl⟩ := finish_eq_some hs
    simp only [Orderly, hp] at ho
    obtain ⟨hset, halone, hkey⟩ := ho
    have hrow : RowFor s.repo id rkey := h.procs p _ hp
    obtain ⟨hw, -, hposts⟩ := commitPostRecord_spec h.wf hrow halone hrepo
    apply Inv.stop
    refine ⟨hw.wf, synced_write hw, ?_, fun q pr hq => ?_, h.posting⟩
    · show AllExact repo.events
      rw [hw.events]
      exact ⟨exact_put h.synced hset (.inl ⟨rfl, hkey⟩), h.exact⟩
    · refine procOk_commitPost h rfl hrow hw.atDid hposts (h.procs q pr hq) ?_
      rintro r rfl
      exact h.posting q p id r rkey hq hp
  · cases hs

/-- A write that commits nothing. -/
theorem Inv.rows (h : Inv s) (hwf : Wf repo') (hsync : Synced repo')
    (hevents : repo'.events = s.repo.events) (hk : RowsKept s.repo repo') :
    Inv { s with repo := repo' } where
  wf := hwf
  synced := hsync
  exact := by
    show AllExact repo'.events
    rw [hevents]
    exact h.exact
  procs := fun q pr hq => (h.procs q pr hq).kept hk
  posting := h.posting

theorem inv_insertPost {id : Nat} {rkey : String} (h : Inv s)
    (hs : step s (.insertPost p id rkey) = some s') : Inv s' := by
  obtain ⟨repo, hrepo, hs⟩ := Option.bind_eq_some_iff.mp hs
  obtain rfl := start_eq_some hs
  have hload := loadAtpEntries_insertFull hrepo
  have hwf := wf_insertFull h.wf hrepo
  obtain ⟨hfree, rfl⟩ := insertFull_eq_some hrepo
  have hkept : ∀ row ∈ s.repo.posts, row ∈ s.repo.posts ++
      [{ id, atUri := none, atCid := none, atRkey := none, deleted := false }] :=
    fun row hrow => List.mem_append_left _ hrow
  refine (h.rows hwf ⟨?_, ?_⟩ rfl ⟨rfl, fun row hrow => ⟨row, hkept row hrow, rfl, rfl, fun h => h⟩⟩).setProc
    ?_ ?_
  · rw [hload]
    exact h.synced.sub
  · rw [hload]
    exact fun x hx => (h.synced.sup x hx).imp_right fun ⟨row, hrow, hx⟩ => ⟨row, hkept row hrow, hx⟩
  · rintro _ ⟨⟩
    exact ⟨_, List.mem_append_right _ (List.mem_singleton_self _), rfl, .inl rfl⟩
  · rintro _ _ ⟨⟩ q r' hq
    obtain ⟨row, hrow, hid, -⟩ := h.procs q _ hq
    exact absurd hid (hfree row hrow)

theorem findDeleteInfo_eq_some {id : Nat} {row : PostRow}
    (h : findDeleteInfo repo id = some row) : row ∈ repo.posts ∧ row.id = id := by
  have hinfo := List.find?_some h
  exact ⟨List.mem_of_find?_eq_some h, (of_decide_eq_true hinfo).1⟩

theorem inv_reusePost {rkey : String} (h : Inv s) (hs : step s (.reusePost p rkey) = some s') :
    Inv s' := by
  obtain ⟨row, hrow, hs⟩ := Option.bind_eq_some_iff.mp hs
  obtain rfl := start_eq_some hs
  obtain ⟨hmem, huri⟩ := findByAtUri_eq_some hrow
  refine h.setProc ?_ ?_
  · rintro _ ⟨⟩
    exact ⟨row, hmem, rfl, .inr huri⟩
  · rintro _ _ ⟨⟩ q r' hq
    obtain ⟨row', hmem', hid', huri'⟩ := h.procs q _ hq
    rw [h.wf.row_unique hmem' hmem hid', huri] at huri'
    rcases huri' with hnone | hsome
    · cases hnone
    · exact postUri_inj (Option.some.inj hsome)

theorem inv_findByRkey {rkey : String} (h : Inv s) (hs : step s (.findByRkey p rkey) = some s') :
    Inv s' := by
  obtain ⟨row, hrow, hs⟩ := Option.bind_eq_some_iff.mp hs
  obtain ⟨info, hinfo, hs⟩ := Option.bind_eq_some_iff.mp hs
  obtain rfl := start_eq_some hs
  obtain ⟨hmem, huri⟩ := findByAtUri_eq_some hrow
  obtain ⟨-, hid⟩ := findDeleteInfo_eq_some hinfo
  refine h.setProc ?_ nofun
  rintro _ ⟨⟩
  exact ⟨row, hmem, hid.symm, huri⟩

theorem inv_findById {id : Nat} (h : Inv s) (hs : step s (.findById p id) = some s') : Inv s' := by
  obtain ⟨row, hrow, hs⟩ := Option.bind_eq_some_iff.mp hs
  obtain ⟨rkey, hrkey, hs⟩ := Option.bind_eq_some_iff.mp hs
  obtain rfl := start_eq_some hs
  obtain ⟨hmem, -⟩ := findDeleteInfo_eq_some hrow
  refine h.setProc ?_ nofun
  rintro _ ⟨⟩
  exact ⟨row, hmem, rfl, (h.wf.rkeys row hmem rkey hrkey).1⟩

theorem rowsKept_softDeleteById (id : Nat) : RowsKept repo (softDeleteById repo id) where
  atDid := rfl
  rows := fun row hrow => by
    by_cases hid : row.id = id
    · exact ⟨{ row with deleted := true }, mem_softDeleteById.mpr (.inl ⟨row, hrow, hid, rfl⟩), rfl,
        rfl, fun _ => rfl⟩
    · exact ⟨row, mem_softDeleteById.mpr (.inr ⟨hrow, hid⟩), rfl, rfl, fun h => h⟩

theorem inv_softDelete (h : Inv s) (id : Nat) :
    Inv { s with repo := softDeleteById s.repo id } := by
  refine h.rows (wf_softDeleteById h.wf) ⟨fun x hx => ?_, fun x hx => ?_⟩ rfl
    (rowsKept_softDeleteById id)
  · exact h.synced.sub x (mem_load_softDeleteById.1 hx)
  · rcases h.synced.sup x hx with hload | ⟨row, hrow, hdel, hentry⟩
    · exact mem_load_softDeleteById.2 hload
    · refine .inr ?_
      by_cases hid : row.id = id
      · exact ⟨{ row with deleted := true }, mem_softDeleteById.mpr (.inl ⟨row, hrow, hid, rfl⟩),
          rfl, hentry⟩
      · exact ⟨row, mem_softDeleteById.mpr (.inr ⟨hrow, hid⟩), hdel, hentry⟩

theorem inv_softDeletePost (h : Inv s) (hs : step s (.softDeletePost p) = some s') : Inv s' := by
  simp only [step] at hs
  split at hs
  · rename_i id rkey hp
    cases hs
    refine (inv_softDelete h id).setProc ?_ nofun
    rintro _ ⟨⟩
    obtain ⟨row, hrow, hid, huri⟩ := h.procs p _ hp
    exact ⟨{ row with deleted := true }, mem_softDeleteById.mpr (.inl ⟨row, hrow, hid, rfl⟩), hid,
      rfl, huri⟩
  · cases hs

theorem inv_checkExisting {collection : String} (h : Inv s)
    (hs : step s (.checkExisting p collection) = some s') : Inv s' := by
  simp only [step] at hs
  split at hs
  · rename_i hc
    obtain rfl := start_eq_some hs
    refine h.setProc ?_ nofun
    rintro _ ⟨⟩
    exact hc
  · cases hs

theorem inv_step {a : Action} (h : Inv s) (ho : Orderly s a) (hs : step s a = some s') : Inv s' := by
  cases a with
  | createRecord collection rkey cid => exact inv_createRecord h ho hs
  | putRecord collection rkey cid => exact inv_putRecord h ho hs
  | deleteRecord collection rkey => exact inv_deleteRecord h ho hs
  | insertPost p id rkey => exact inv_insertPost h hs
  | reusePost p rkey => exact inv_reusePost h hs
  | commitPost p cid => exact inv_commitPost h ho hs
  | findByRkey p rkey => exact inv_findByRkey h hs
  | findById p id => exact inv_findById h hs
  | softDeletePost p => exact inv_softDeletePost h hs
  | commitDelete p => exact inv_commitDelete h ho hs
  | checkExisting p collection => exact inv_checkExisting h hs
  | commitSelf p cid => exact inv_commitSelf h ho hs
  | softDelete id =>
    cases hs
    exact inv_softDelete h id
  | stop p =>
    obtain ⟨pr, -, rfl⟩ := Option.map_eq_some_iff.mp hs
    exact h.stop

end Steps

/-! ## Runs -/

/-- The posts of an actor that were known before it had a repository: they
have URIs, but are not committed. -/
structure Cached (posts : List PostRow) : Prop where
  ids : (posts.map PostRow.id).Nodup
  uris : ∀ row ∈ posts, ∀ row' ∈ posts, ∀ u, row.atUri = some u → row'.atUri = some u →
    row.id = row'.id
  uncommitted : ∀ row ∈ posts, row.atRkey = none

theorem inv_init {did : String} {posts : List PostRow} (hc : Cached posts) :
    Inv (init did posts) where
  wf := by
    refine ⟨hc.ids, hc.uris, fun row hrow r hr => ?_, List.nodup_nil⟩
    rw [hc.uncommitted row hrow] at hr
    cases hr
  synced := by
    refine ⟨fun x hx => ?_, nofun⟩
    rcases mem_loadAtpEntries.mp hx with ⟨row, hrow, -, hentry⟩ | ⟨r, hr, -⟩
    · obtain ⟨rkey, hrkey, -⟩ := entry_eq_some.mp hentry
      rw [hc.uncommitted row hrow] at hrkey
      cases hrkey
    · cases hr
  exact := trivial
  procs := nofun
  posting := nofun

/-- In a run whose steps are orderly, the ops of every event are the difference
between its tree and the one before. -/
theorem exact_of_orderly {did : String} {posts : List PostRow} {as : List Action} {s : State}
    (hc : Cached posts) (hr : commits.run (init did posts) as = some s)
    (ho : commits.Along Orderly (init did posts) as) : AllExact s.repo.events := by
  have h : Inv s := commits.run_inv_along inv_step (inv_init hc) ho hr
  exact h.exact

def exampleCid (n : UInt8) : Cid := { version := 1, codec := 0x71, hashCode := 0x12, digest := [n] }

/-- A post is committed and deleted again; a like is created, replaced and
deleted; the profile is committed. -/
def orderlyRun : List Action :=
  [.insertPost 0 1 "a", .commitPost 0 (exampleCid 1),
    .createRecord "app.bsky.feed.like" "b" (exampleCid 2),
    .putRecord "app.bsky.feed.like" "b" (exampleCid 3), .findById 0 1, .softDeletePost 0,
    .commitDelete 0, .deleteRecord "app.bsky.feed.like" "b",
    .checkExisting 0 "app.bsky.actor.profile", .commitSelf 0 (exampleCid 4)]

theorem exact_of_orderly_example :
    ∃ s, commits.run (init "did:plc:a" []) orderlyRun = some s ∧ s.repo.events.length = 6 ∧
      AllExact s.repo.events := by
  have hc : Cached [] := ⟨by decide, nofun, nofun⟩
  exact ⟨_, rfl, by decide, @exact_of_orderly _ _ orderlyRun _ hc rfl (by decide)⟩

/-! ## Runs with events that are not exact -/

/-- `putRecord` for a record that is not there. -/
def putRun : List Action := [.putRecord "app.bsky.feed.like" "a" (exampleCid 1)]

/-- A like is committed between the soft deletion of a post and its delete commit. -/
def betweenRun : List Action :=
  [.insertPost 0 1 "a", .commitPost 0 (exampleCid 1), .findById 0 1, .softDeletePost 0,
    .createRecord "app.bsky.feed.like" "b" (exampleCid 2)]

theorem exact_counterexample :
    (∃ s, commits.run (init "did:plc:a" []) putRun = some s ∧ ¬ AllExact s.repo.events) ∧
      ∃ s, commits.run (init "did:plc:a" []) betweenRun = some s ∧ ¬ AllExact s.repo.events := by
  refine ⟨⟨_, rfl, fun h => ?_⟩, ⟨_, rfl, fun h => ?_⟩⟩
  · have hop := (h.1.update _ (List.mem_singleton_self _)).mp rfl
    revert hop
    decide
  · have hpost := (h.1.entries ("app.bsky.feed.post/a", exampleCid 1)).mp (by decide)
    revert hpost
    decide

end Seiran.Commits
