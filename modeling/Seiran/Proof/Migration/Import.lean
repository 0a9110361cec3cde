import Seiran.Model.Migration.Import
import Seiran.Proof.Atp.Service

/-!
# Every record is imported once

* `Imported`: a record is in the tables and in the last tree, where no key
  comes twice. The commit of a record makes it so, and the commits of others
  keep it (`imported_write`, `Imported.write`);
* `Inv`: the marked records are imported, and every row of `posts` was there
  before, is the row of a staged post, or is the row that the execution is
  about to commit;
* `faithful_of_careful`: the import, when it ends.
-/

namespace Seiran.Import

open Atp

variable {J : Type} {C : RecordCodec J}

def Imported (C : RecordCodec J) (repo : Repo) (r : StagedRecord) : Prop :=
  ∃ cid, C.cid r.bytes = some cid ∧
    (entryKey r.collection r.rkey, cid) ∈ loadAtpEntries repo ∧
    (entryKey r.collection r.rkey, cid) ∈ lastEntries repo.events ∧
    ((lastEntries repo.events).map Prod.fst).Nodup

/-- What the execution relies on. -/
def PhaseOk (C : RecordCodec J) (s : State) : Phase → Prop
  | .started => True
  | .claimed r => r ∈ s.staged
  | .missing r => r ∈ s.staged ∧ r.collection = feedPost ∧
      ∀ row ∈ s.repo.posts, row.atUri ≠ some (postUri s.repo.atDid r.rkey)
  | .materialized r postId => r ∈ s.staged ∧ r.collection = feedPost ∧
      ∃ row ∈ s.repo.posts, row.id = postId ∧ row.deleted = false ∧
        (row.atUri = none ∨ row.atUri = some (postUri s.repo.atDid r.rkey))
  | .committed r => r ∈ s.staged ∧ Imported C s.repo r

/-- The row is the row of a staged post. -/
def RowOfStaged (s : State) (row : PostRow) : Prop :=
  ∃ r ∈ s.staged, r.collection = feedPost ∧ row.atUri = some (postUri s.repo.atDid r.rkey)

/-- The row is there, but not committed yet. -/
def RowInWork (s : State) (row : PostRow) : Prop :=
  row.atUri = none ∧ ∃ r, s.exec = some (.materialized r row.id)

structure Inv (C : RecordCodec J) (s₀ s : State) : Prop where
  wf : Wf s.repo
  clean : Clean s.repo
  ids : (s.staged.map StagedRecord.id).Nodup
  keys : (s.staged.map fun r => (r.collection, r.rkey)).Nodup
  collections : ∀ r ∈ s.staged, '/' ∉ r.collection.toList
  done : ∀ r ∈ s.staged, r.imported = true → Imported C s.repo r
  rows : ∀ row ∈ s.repo.posts, row.id ∈ s₀.repo.posts.map PostRow.id ∨ RowOfStaged s row ∨
    RowInWork s row
  exec : ∀ phase, s.exec = some phase → PhaseOk C s phase
  finished : s.importing = false → s.exec = none ∧ ∀ r ∈ s.staged, r.imported = true

theorem inv_ready {s₀ : State} (h : Ready s₀) : Inv C s₀ s₀ where
  wf := by
    refine ⟨h.postIds, h.postUris, fun row hrow r hr => ?_, h.recordKeys⟩
    rw [h.postRkeys row hrow] at hr
    cases hr
  clean := h.recordCollections
  ids := h.ids
  keys := h.keys
  collections := h.collections
  done := fun r hr hmarked => by
    rw [h.unimported r hr] at hmarked
    cases hmarked
  rows := fun row hrow => .inl (List.mem_map_of_mem hrow)
  exec := fun phase hphase => by
    rw [h.exec] at hphase
    cases hphase
  finished := fun hfin => by
    rw [h.importing] at hfin
    cases hfin

section Writes

variable {repo repo' : Repo} {r : StagedRecord} {cid : Cid} {action : String}

theorem lastEntries_write {write : RepoWrite} (hw : WriteSpec repo repo' write) :
    lastEntries repo'.events = newEntries repo write := by
  rw [hw.events]
  rfl

/-- The commit of another record keeps a record imported. -/
theorem Imported.write {write : RepoWrite} (h : Imported C repo r)
    (hw : WriteSpec repo repo' write) (hne : entryKey r.collection r.rkey ≠ write.key)
    (hload : ((loadAtpEntries repo).map Prod.fst).Nodup) : Imported C repo' r := by
  obtain ⟨cid, hcid, hmem, -, -⟩ := h
  rw [Imported, lastEntries_write hw]
  refine ⟨cid, hcid, (hw.away _ hne).mpr hmem, ?_, nodup_keys_new hload⟩
  exact mem_newEntries.mpr (.inl ⟨hmem, hne⟩)

theorem imported_write (hcid : C.cid r.bytes = some cid)
    (hw : WriteSpec repo repo' (.put { collection := r.collection, rkey := r.rkey, cid, action }))
    (hmem : (entryKey r.collection r.rkey, cid) ∈ loadAtpEntries repo')
    (hload : ((loadAtpEntries repo).map Prod.fst).Nodup) : Imported C repo' r := by
  rw [Imported, lastEntries_write hw]
  refine ⟨cid, hcid, hmem, ?_, nodup_keys_new hload⟩
  exact mem_newEntries.mpr (.inr (List.mem_singleton_self _))

/-- A post never has the path of a record in another collection. -/
theorem path_ne {collection rkey : String} (hslash : '/' ∉ collection.toList)
    (hc : collection ≠ feedPost) (row : PostRow) :
    row.path ≠ some (entryKey collection rkey) := by
  intro hpath
  obtain ⟨rk, -, hkey⟩ := Option.map_eq_some_iff.mp hpath
  exact hc (entryKey_inj_both slash_notMem_feedPost hslash hkey).1.symm

theorem freePath {collection rkey : String} (hclean : Clean repo)
    (hslash : '/' ∉ collection.toList) (hc : collection ≠ feedPost) :
    FreePath repo collection rkey where
  posts := fun row _ hpath => absurd hpath (path_ne hslash hc row)
  records := fun rec hrec hkey => entryKey_inj_both (hclean rec hrec).1 hslash hkey

theorem clean_commitGeneric {collection rkey : String} (hclean : Clean repo)
    (hslash : '/' ∉ collection.toList) (hc : collection ≠ feedPost)
    (h : commitGenericRecord repo collection rkey cid action = some repo') : Clean repo' := by
  obtain ⟨posts, -, rfl⟩ := tryApplyWrite_eq_some.mp h
  intro rec hrec
  simp only [applyToRecords, if_pos hc, mem_upsertRecord] at hrec
  rcases hrec with rfl | ⟨hrec, -⟩
  · exact ⟨hslash, hc⟩
  · exact hclean rec hrec

theorem mem_load_commitGeneric {collection rkey : String} (hslash : '/' ∉ collection.toList)
    (hc : collection ≠ feedPost)
    (hw : WriteSpec repo repo' (.put { collection, rkey, cid, action })) :
    (entryKey collection rkey, cid) ∈ loadAtpEntries repo' := by
  rcases hw.stored _ (List.mem_singleton_self _) with hmem | ⟨row, -, -, hentry⟩
  · exact hmem
  · exact absurd (path_of_entry hentry) (path_ne hslash hc row)

end Writes

section Steps

variable {s₀ s s' : State}

/-- Two staged records with one path are the same. -/
theorem Inv.staged_unique (h : Inv C s₀ s) {r r' : StagedRecord} (hr : r ∈ s.staged)
    (hr' : r' ∈ s.staged) (hkey : entryKey r.collection r.rkey = entryKey r'.collection r'.rkey) :
    r = r' := by
  obtain ⟨hc, hk⟩ := entryKey_inj_both (h.collections r hr) (h.collections r' hr') hkey
  exact List.inj_on_of_nodup_map h.keys hr hr' (Prod.ext hc hk)

/-- All that is imported stays so when `r` is committed. -/
theorem Inv.imported_after {repo' : Repo} {r : StagedRecord} {cid : Cid} {action : String}
    (h : Inv C s₀ s) (hr : r ∈ s.staged)
    (hw : WriteSpec s.repo repo' (.put { collection := r.collection, rkey := r.rkey, cid, action }))
    (hnew : Imported C repo' r) :
    ∀ r' ∈ s.staged, r'.imported = true → Imported C repo' r' := by
  intro r' hr' hmarked
  by_cases hkey : entryKey r'.collection r'.rkey = entryKey r.collection r.rkey
  · rw [h.staged_unique hr' hr hkey]
    exact hnew
  · exact (h.done r' hr' hmarked).write hw hkey (nodup_keys_load h.wf h.clean)

/-- A step that changes only the execution, not while a row is in work. -/
theorem Inv.goOn (h : Inv C s₀ s) {exec : Option Phase} (himp : s.importing = true)
    (hwork : ∀ row ∈ s.repo.posts, ¬ RowInWork s row)
    (hexec : ∀ phase, exec = some phase → PhaseOk C { s with exec } phase) :
    Inv C s₀ { s with exec } where
  wf := h.wf
  clean := h.clean
  ids := h.ids
  keys := h.keys
  collections := h.collections
  done := h.done
  rows := fun row hrow => by
    rcases h.rows row hrow with hold | hstaged | hin
    · exact .inl hold
    · exact .inr (.inl hstaged)
    · exact absurd hin (hwork row hrow)
  exec := hexec
  finished := fun hfin => by
    rw [himp] at hfin
    cases hfin

theorem Inv.importing (h : Inv C s₀ s) {phase : Phase} (hphase : s.exec = some phase) :
    s.importing = true := by
  by_contra hfin
  rw [(h.finished (eq_false_of_ne_true hfin)).1] at hphase
  cases hphase

theorem noWork {phase : Option Phase} (hphase : s.exec = phase)
    (hne : ∀ r id, phase ≠ some (.materialized r id)) : ∀ row ∈ s.repo.posts, ¬ RowInWork s row := by
  rintro row - ⟨-, r, hexec⟩
  exact hne r row.id (hphase.symm.trans hexec)

theorem inv_start (h : Inv C s₀ s) (hs : step C s .start = some s') : Inv C s₀ s' := by
  simp only [step, Option.ite_none_right_eq_some, Option.some.injEq] at hs
  obtain ⟨⟨hexec, himp⟩, rfl⟩ := hs
  refine h.goOn himp (noWork hexec nofun) ?_
  rintro _ ⟨⟩
  trivial

theorem claimNextRecord_eq_some {staged : List StagedRecord} {r : StagedRecord}
    (h : claimNextRecord staged = some r) : r ∈ staged := List.mem_of_find?_eq_some h

theorem inv_claim (h : Inv C s₀ s) (hs : step C s .claim = some s') : Inv C s₀ s' := by
  simp only [step] at hs
  split at hs
  · rename_i hexec
    obtain ⟨r, hr, rfl⟩ := Option.map_eq_some_iff.mp hs
    refine h.goOn (h.importing hexec) (noWork hexec nofun) ?_
    rintro _ ⟨⟩
    exact claimNextRecord_eq_some hr
  · cases hs

theorem inv_findPost (h : Inv C s₀ s) (hc : Careful s .findPost)
    (hs : step C s .findPost = some s') : Inv C s₀ s' := by
  simp only [step] at hs
  split at hs
  · rename_i r hexec
    have hr : r ∈ s.staged := h.exec _ hexec
    simp only [Careful, hexec] at hc
    split at hs
    · rename_i hpost
      split at hs <;> cases hs
      · rename_i row hrow
        refine h.goOn (h.importing hexec) (noWork hexec fun _ _ h => by cases h) ?_
        rintro _ ⟨⟩
        obtain ⟨hmem, huri⟩ := findByAtUri_eq_some hrow
        exact ⟨hr, hpost.1, row, hmem, rfl, hc row hmem huri, .inr huri⟩
      · rename_i hnone
        refine h.goOn (h.importing hexec) (noWork hexec fun _ _ h => by cases h) ?_
        rintro _ ⟨⟩
        refine ⟨hr, hpost.1, fun row hrow huri => ?_⟩
        exact (List.find?_eq_none.mp hnone) row hrow (decide_eq_true huri)
    · cases hs
  · cases hs

theorem inv_insertFull {id : Nat} (h : Inv C s₀ s) (hs : step C s (.insertFull id) = some s') :
    Inv C s₀ s' := by
  simp only [step] at hs
  split at hs
  · rename_i r hexec
    obtain ⟨hr, hpost, huri⟩ := h.exec _ hexec
    obtain ⟨repo, hrepo, rfl⟩ := Option.map_eq_some_iff.mp hs
    have hload := loadAtpEntries_insertFull hrepo
    have hwf := wf_insertFull h.wf hrepo
    obtain ⟨-, rfl⟩ := insertFull_eq_some hrepo
    refine ⟨hwf, h.clean, h.ids, h.keys, h.collections, ?_, ?_, ?_, ?_⟩
    · intro r' hr' hmarked
      obtain ⟨cid, hcid, hmem, hlast⟩ := h.done r' hr' hmarked
      exact ⟨cid, hcid, hload ▸ hmem, hlast⟩
    · intro row hrow
      rw [List.mem_append, List.mem_singleton] at hrow
      rcases hrow with hrow | rfl
      · rcases h.rows row hrow with hold | hstaged | ⟨-, r', hexec'⟩
        · exact .inl hold
        · exact .inr (.inl hstaged)
        · rw [hexec] at hexec'
          cases hexec'
      · exact .inr (.inr ⟨rfl, r, rfl⟩)
    · rintro _ ⟨⟩
      exact ⟨hr, hpost, _, List.mem_append_right _ (List.mem_singleton_self _), rfl, rfl, .inl rfl⟩
    · intro hfin
      rw [h.importing hexec] at hfin
      cases hfin
  · cases hs

theorem inv_commitGeneric {r : StagedRecord} {cid : Cid} {repo : Repo} (h : Inv C s₀ s)
    (hexec : s.exec = some (.claimed r)) (hc : r.collection ≠ feedPost)
    (hcid : C.cid r.bytes = some cid)
    (hrepo : commitGenericRecord s.repo r.collection r.rkey cid "create" = some repo) :
    Inv C s₀ { s with repo, exec := some (.committed r) } := by
  have hr : r ∈ s.staged := h.exec _ hexec
  have hslash := h.collections r hr
  obtain ⟨hw, hposts⟩ := commitGenericRecord_spec h.wf hc (freePath h.clean hslash hc) hrepo
  have hnew : Imported C repo r :=
    imported_write hcid hw (mem_load_commitGeneric hslash hc hw) (nodup_keys_load h.wf h.clean)
  refine ⟨hw.wf, clean_commitGeneric h.clean hslash hc hrepo, h.ids, h.keys, h.collections,
    h.imported_after hr hw hnew, ?_, ?_, ?_⟩
  · intro row hrow
    rw [hposts] at hrow
    rcases h.rows row hrow with hold | ⟨r', hr', hpost, huri⟩ | hin
    · exact .inl hold
    · exact .inr (.inl ⟨r', hr', hpost, by rwa [hw.atDid]⟩)
    · exact absurd hin (noWork hexec nofun row hrow)
  · rintro _ ⟨⟩
    exact ⟨hr, hnew⟩
  · intro hfin
    rw [h.importing hexec] at hfin
    cases hfin

theorem inv_commitPost {r : StagedRecord} {postId : Nat} {cid : Cid} {repo : Repo}
    (h : Inv C s₀ s) (hexec : s.exec = some (.materialized r postId))
    (hcid : C.cid r.bytes = some cid)
    (hrepo : commitPostRecord s.repo postId r.rkey cid "create" = some repo) :
    Inv C s₀ { s with repo, exec := some (.committed r) } := by
  obtain ⟨hr, hpost, row₀, hrow₀, hid₀, hlive₀, huri₀⟩ := h.exec _ hexec
  obtain ⟨hw, hrecords, hposts⟩ := commitPostRecord_spec h.wf ⟨row₀, hrow₀, hid₀, huri₀⟩
    (fun rec hrec => h.clean.key_ne hrec r.rkey) hrepo
  rw [← hpost] at hw
  have hmem : (entryKey r.collection r.rkey, cid) ∈ loadAtpEntries repo := by
    refine mem_loadAtpEntries.mpr (.inl
      ⟨setAtColumns s.repo.atDid ⟨feedPost, r.rkey, cid, "create"⟩ row₀, ?_, hlive₀, ?_⟩)
    · rw [hposts]
      exact mem_map_update.mpr (.inl ⟨row₀, hrow₀, hid₀, rfl⟩)
    · rw [hpost]
      rfl
  have hnew : Imported C repo r := imported_write hcid hw hmem (nodup_keys_load h.wf h.clean)
  have hclean : Clean repo := by
    rw [Clean, hrecords]
    exact h.clean
  refine ⟨hw.wf, hclean, h.ids, h.keys, h.collections, h.imported_after hr hw hnew, ?_, ?_, ?_⟩
  · intro row hrow
    rw [hposts, mem_map_update] at hrow
    rcases hrow with ⟨row, hrow, hid, rfl⟩ | ⟨hrow, hid⟩
    · refine .inr (.inl ⟨r, hr, hpost, ?_⟩)
      show some (postUri s.repo.atDid r.rkey) = some (postUri repo.atDid r.rkey)
      rw [hw.atDid]
    · rcases h.rows row hrow with hold | ⟨r', hr', hpost', huri⟩ | ⟨-, r', hexec'⟩
      · exact .inl hold
      · exact .inr (.inl ⟨r', hr', hpost', by rwa [hw.atDid]⟩)
      · rw [hexec] at hexec'
        cases hexec'
        exact absurd rfl hid
  · rintro _ ⟨⟩
    exact ⟨hr, hnew⟩
  · intro hfin
    rw [h.importing hexec] at hfin
    cases hfin

theorem inv_commit (h : Inv C s₀ s) (hs : step C s .commit = some s') : Inv C s₀ s' := by
  simp only [step] at hs
  split at hs
  · rename_i r hexec
    split at hs
    · rename_i hc
      obtain ⟨cid, hcid, hs⟩ := Option.bind_eq_some_iff.mp hs
      obtain ⟨repo, hrepo, rfl⟩ := Option.map_eq_some_iff.mp hs
      exact inv_commitGeneric h hexec hc hcid hrepo
    · cases hs
  · rename_i r postId hexec
    obtain ⟨cid, hcid, hs⟩ := Option.bind_eq_some_iff.mp hs
    obtain ⟨repo, hrepo, rfl⟩ := Option.map_eq_some_iff.mp hs
    exact inv_commitPost h hexec hcid hrepo
  · cases hs

/-- The mark changes nothing else about a record. -/
theorem mem_markRecordImported {id : Nat} {staged : List StagedRecord} {r' : StagedRecord}
    (h : r' ∈ markRecordImported id staged) :
    ∃ r ∈ staged, r'.id = r.id ∧ r'.collection = r.collection ∧ r'.rkey = r.rkey ∧
      r'.bytes = r.bytes ∧ (r'.imported = true → r.imported = true ∨ r.id = id) := by
  obtain ⟨r, hr, heq⟩ := List.mem_map.mp h
  refine ⟨r, hr, ?_⟩
  split at heq
  · rename_i hid
    subst heq
    exact ⟨rfl, rfl, rfl, rfl, fun _ => .inr hid⟩
  · subst heq
    exact ⟨rfl, rfl, rfl, rfl, fun hmarked => .inl hmarked⟩

theorem map_markRecordImported {α : Type} {id : Nat} {staged : List StagedRecord}
    {f : StagedRecord → α} (hf : ∀ r, f { r with imported := true } = f r) :
    (markRecordImported id staged).map f = staged.map f := by
  rw [markRecordImported, List.map_map]
  refine List.map_congr_left fun r _ => ?_
  simp only [Function.comp]
  split
  · exact hf r
  · rfl

theorem inv_mark (h : Inv C s₀ s) (hs : step C s .mark = some s') : Inv C s₀ s' := by
  simp only [step] at hs
  split at hs
  · rename_i r hexec
    cases hs
    obtain ⟨hr, himported⟩ := h.exec _ hexec
    refine ⟨h.wf, h.clean, ?_, ?_, ?_, ?_, ?_, nofun, ?_⟩
    · rw [map_markRecordImported fun _ => rfl]
      exact h.ids
    · rw [map_markRecordImported (f := fun r => (r.collection, r.rkey)) fun _ => rfl]
      exact h.keys
    · intro r' hr'
      obtain ⟨r₁, hr₁, -, hcol, -⟩ := mem_markRecordImported hr'
      rw [hcol]
      exact h.collections r₁ hr₁
    · intro r' hr' hmarked
      obtain ⟨r₁, hr₁, -, hcol, hrk, hbytes, hold⟩ := mem_markRecordImported hr'
      have h₁ : Imported C s.repo r₁ := by
        rcases hold hmarked with hmarked₁ | hid
        · exact h.done r₁ hr₁ hmarked₁
        · rw [List.inj_on_of_nodup_map h.ids hr₁ hr hid]
          exact himported
      rwa [Imported, hcol, hrk, hbytes]
    · intro row hrow
      rcases h.rows row hrow with hold | ⟨r₁, hr₁, hpost, huri⟩ | hin
      · exact .inl hold
      · refine .inr (.inl ⟨_, List.mem_map_of_mem hr₁, ?_⟩)
        split
        · exact ⟨hpost, huri⟩
        · exact ⟨hpost, huri⟩
      · exact absurd hin (noWork hexec nofun row hrow)
    · intro hfin
      rw [h.importing hexec] at hfin
      cases hfin
  · cases hs

theorem inv_finishImport (h : Inv C s₀ s) (hs : step C s .finishImport = some s') :
    Inv C s₀ s' := by
  simp only [step] at hs
  split at hs
  · rename_i hexec
    simp only [Option.ite_none_right_eq_some, Option.some.injEq] at hs
    obtain ⟨hnone, rfl⟩ := hs
    have hgo : Inv C s₀ { s with exec := none } :=
      h.goOn (h.importing hexec) (noWork hexec nofun) nofun
    refine ⟨hgo.wf, hgo.clean, hgo.ids, hgo.keys, hgo.collections, hgo.done, hgo.rows, nofun,
      fun _ => ⟨rfl, fun r hr => ?_⟩⟩
    have hall := List.find?_eq_none.mp (Option.isNone_iff_eq_none.mp hnone) r hr
    simpa using hall
  · cases hs

theorem inv_stop (h : Inv C s₀ s) (hc : Careful s .stop) (hs : step C s .stop = some s') :
    Inv C s₀ s' := by
  obtain ⟨phase, hexec, rfl⟩ := Option.map_eq_some_iff.mp hs
  refine h.goOn (h.importing hexec) ?_ nofun
  rintro row hrow ⟨hnone, r, hmat⟩
  simp only [Careful, hmat] at hc
  have hsome := hc row hrow rfl
  rw [hnone] at hsome
  cases hsome

theorem inv_step {a : Action} (h : Inv C s₀ s) (hc : Careful s a) (hs : step C s a = some s') :
    Inv C s₀ s' := by
  cases a with
  | start => exact inv_start h hs
  | claim => exact inv_claim h hs
  | findPost => exact inv_findPost h hc hs
  | insertFull id => exact inv_insertFull h hs
  | commit => exact inv_commit h hs
  | mark => exact inv_mark h hs
  | finishImport => exact inv_finishImport h hs
  | stop => exact inv_stop h hc hs

/-! ## The import, when it ends -/

theorem Imported.oneEntry {repo : Repo} {r : StagedRecord} (h : Imported C repo r) :
    ∃ cid, C.cid r.bytes = some cid ∧ (entryKey r.collection r.rkey, cid) ∈ loadAtpEntries repo ∧
      OneEntry (lastEntries repo.events) r cid := by
  obtain ⟨cid, hcid, hload, hlast, hnodup⟩ := h
  refine ⟨cid, hcid, hload, hlast, ?_⟩
  exact List.count_eq_one_of_mem hnodup (List.mem_map_of_mem (f := Prod.fst) hlast)

theorem oneRow {repo : Repo} {r : StagedRecord} {cid : Cid} (hwf : Wf repo) (hclean : Clean repo)
    (hpost : r.collection = feedPost)
    (hload : (entryKey r.collection r.rkey, cid) ∈ loadAtpEntries repo) : OneRow repo r cid := by
  rw [hpost] at hload
  rcases mem_loadAtpEntries.mp hload with ⟨row, hrow, hlive, hentry⟩ | ⟨rec, hrec, heq⟩
  · obtain ⟨rkey, hrkey, hkey, hcid⟩ := entry_eq_some.mp hentry
    obtain rfl := entryKey_inj hkey
    have huri := (hwf.rkeys row hrow _ hrkey).1
    refine ⟨row, hrow, huri, hrkey, hcid, hlive, fun row' hrow' huri' => ?_⟩
    exact hwf.row_unique hrow' hrow (hwf.uris row' hrow' row hrow _ huri' huri)
  · exact absurd (congrArg Prod.fst heq) (hclean.key_ne hrec r.rkey)

theorem Inv.faithful (h : Inv C s₀ s) (hfin : s.importing = false) : Faithful C s₀ s where
  records := fun r hr => by
    obtain ⟨cid, hcid, hload, hentry⟩ := (h.done r hr ((h.finished hfin).2 r hr)).oneEntry
    exact ⟨cid, hcid, hentry, fun hpost => oneRow h.wf h.clean hpost hload⟩
  rows := fun row hrow => by
    rcases h.rows row hrow with hold | hstaged | ⟨-, r, hexec⟩
    · exact .inl hold
    · exact .inr hstaged
    · rw [(h.finished hfin).1] at hexec
      cases hexec

end Steps

/-- A codec that takes the bytes of a record for its JSON and for its digest. -/
def exampleCodec : RecordCodec Bytes where
  decodeDagcborToJson := some
  encodeGenericRecord := fun b => some { version := 1, codec := 0x71, hashCode := 0x12, digest := b }

/-- A post and a like are staged. -/
def exampleState (cached : List PostRow) : State where
  repo := { atDid := "did:plc:a", posts := cached, records := [], events := [] }
  staged := [⟨1, feedPost, "a", [1], false⟩, ⟨2, "app.bsky.feed.like", "b", [2], false⟩]
  importing := true
  exec := none

theorem ready_exampleState {cached : List PostRow} (hids : (cached.map PostRow.id).Nodup)
    (huris : ∀ row ∈ cached, ∀ row' ∈ cached, ∀ u, row.atUri = some u → row'.atUri = some u →
      row.id = row'.id)
    (hrkeys : ∀ row ∈ cached, row.atRkey = none) : Ready (exampleState cached) where
  importing := rfl
  exec := rfl
  unimported := by simp [exampleState]
  ids := by simp [exampleState]
  keys := by simp [exampleState]
  collections := by
    show ∀ r ∈ (exampleState []).staged, '/' ∉ r.collection.toList
    decide
  postIds := hids
  postUris := huris
  postRkeys := hrkeys
  recordKeys := List.nodup_nil
  recordCollections := nofun

/-- The process stops between the commit of the post and its mark. -/
def carefulRun : List Action :=
  [.start, .claim, .findPost, .insertFull 10, .commit, .stop, .start, .claim, .findPost, .commit,
    .mark, .start, .claim, .commit, .mark, .start, .finishImport]

/-- The process stops between the insertion of the row and its commit. -/
def orphanRun : List Action :=
  [.start, .claim, .findPost, .insertFull 10, .stop, .start, .claim, .findPost, .insertFull 11,
    .commit, .mark, .start, .claim, .commit, .mark, .start, .finishImport]

/-- The post was known, and deleted, before the migration. -/
def deletedPost : PostRow :=
  { id := 5, atUri := some (postUri "did:plc:a" "a"), atCid := none, atRkey := none, deleted := true }

def deletedRun : List Action :=
  [.start, .claim, .findPost, .commit, .mark, .start, .claim, .commit, .mark, .start, .finishImport]

end Seiran.Import
