import Seiran.Model.Atp.Service

/-!
# What a commit does to the tables and to the tree

* `mem_loadAtpEntries`, `mem_newEntries`: what is read, and what is committed;
* `Wf`: the unique constraints of the tables, and that the columns of a
  committed post belong together. All writes keep it;
* `WriteSpec`: after a commit, the entries away from its path are those from
  before, and those at its path are what it wrote.
-/

namespace Seiran.Atp

theorem postUri_inj {did r r' : String} (h : postUri did r = postUri did r') : r = r' :=
  (String.append_right_inj _).mp h

/-! ## The entries -/

section Entries

variable {repo : Repo} {row : PostRow} {x : String × Cid} {write : RepoWrite}

theorem entry_eq_some :
    row.entry = some x ↔
      ∃ rkey, row.atRkey = some rkey ∧ x.1 = entryKey feedPost rkey ∧ row.atCid = some x.2 := by
  unfold PostRow.entry
  split
  · rename_i rkey cid hrkey hcid
    simp only [hrkey, hcid, Option.some.injEq, Prod.ext_iff, exists_eq_left']
    rw [eq_comm (a := x.1)]
  · rename_i hnone
    refine ⟨by simp, fun ⟨rkey, hrkey, _, hcid⟩ => (hnone _ _ hrkey hcid).elim⟩

theorem path_of_entry (h : row.entry = some x) : row.path = some x.1 := by
  obtain ⟨rkey, hrkey, hx, -⟩ := entry_eq_some.mp h
  simp only [PostRow.path, hrkey, Option.map_some, hx]

theorem mem_loadAtpEntries :
    x ∈ loadAtpEntries repo ↔
      (∃ row ∈ repo.posts, row.deleted = false ∧ row.entry = some x) ∨
        ∃ r ∈ repo.records, (r.key, r.cid) = x := by
  simp only [loadAtpEntries, List.mem_append, List.mem_filterMap, List.mem_filter, List.mem_map,
    Bool.not_eq_true', and_assoc]

theorem mem_newEntries :
    x ∈ newEntries repo write ↔
      (x ∈ loadAtpEntries repo ∧ x.1 ≠ write.key) ∨ x ∈ write.added := by
  simp only [newEntries, List.mem_insertionSort, List.mem_append, List.mem_filter,
    decide_eq_true_eq]

theorem key_of_added (h : x ∈ write.added) : x.1 = write.key := by
  cases write with
  | put record =>
    rw [RepoWrite.added, List.mem_singleton] at h
    rw [h]
    rfl
  | delete collection rkey => cases h

end Entries

/-! ## The tables -/

/-- The unique constraints, and what the columns of a committed post say. -/
structure Wf (repo : Repo) : Prop where
  ids : (repo.posts.map PostRow.id).Nodup
  uris : ∀ row ∈ repo.posts, ∀ row' ∈ repo.posts, ∀ u, row.atUri = some u → row'.atUri = some u →
    row.id = row'.id
  rkeys : ∀ row ∈ repo.posts, ∀ rkey, row.atRkey = some rkey →
    row.atUri = some (postUri repo.atDid rkey) ∧ row.atCid.isSome
  keys : (repo.records.map fun r => (r.collection, r.rkey)).Nodup

section Tables

variable {repo repo' : Repo} {write : RepoWrite}

theorem Wf.row_unique (h : Wf repo) {row row' : PostRow} (hrow : row ∈ repo.posts)
    (hrow' : row' ∈ repo.posts) (hid : row.id = row'.id) : row = row' :=
  List.inj_on_of_nodup_map h.ids hrow hrow' hid

theorem tryApplyWrite_eq_some {postId : Option Nat} :
    tryApplyWrite repo write postId = some repo' ↔
      ∃ posts, applyToPosts repo.atDid write postId repo.posts = some posts ∧
        repo' = { repo with
          posts
          records := applyToRecords write repo.records
          events := { ops := [write.op], entries := newEntries repo write } :: repo.events } := by
  simp only [tryApplyWrite, Option.map_eq_some_iff, eq_comm (a := repo')]

theorem mem_upsertRecord {record : CommitRecord} {records : List AtpRecord} {r : AtpRecord} :
    r ∈ upsertRecord record records ↔ r = ⟨record.collection, record.rkey, record.cid⟩ ∨
      (r ∈ records ∧ ¬ (r.collection = record.collection ∧ r.rkey = record.rkey)) := by
  simp only [upsertRecord, List.mem_cons, List.mem_filter, decide_eq_true_eq]

theorem mem_deleteRecord {collection rkey : String} {records : List AtpRecord} {r : AtpRecord} :
    r ∈ deleteRecord collection rkey records ↔
      r ∈ records ∧ ¬ (r.collection = collection ∧ r.rkey = rkey) := by
  simp only [deleteRecord, List.mem_filter, decide_eq_true_eq]

theorem nodup_upsertRecord {record : CommitRecord} {records : List AtpRecord}
    (h : (records.map fun r => (r.collection, r.rkey)).Nodup) :
    ((upsertRecord record records).map fun r => (r.collection, r.rkey)).Nodup := by
  rw [upsertRecord, List.map_cons, List.nodup_cons]
  refine ⟨fun hmem => ?_, h.sublist (List.filter_sublist.map _)⟩
  obtain ⟨r, hr, heq⟩ := List.mem_map.mp hmem
  obtain ⟨-, hne⟩ := List.mem_filter.mp hr
  rw [Prod.mk.injEq] at heq
  simp [heq] at hne

theorem nodup_applyToRecords (write : RepoWrite) {records : List AtpRecord}
    (h : (records.map fun r => (r.collection, r.rkey)).Nodup) :
    ((applyToRecords write records).map fun r => (r.collection, r.rkey)).Nodup := by
  unfold applyToRecords
  split
  · split
    · exact nodup_upsertRecord h
    · exact h
  · exact h.sublist (List.filter_sublist.map _)

theorem updatePost_eq_some {did : String} {record : CommitRecord} {pid : Nat}
    {posts posts' : List PostRow} (h : updatePost did record pid posts = some posts') :
    posts' = posts.map (fun row => if row.id = pid then setAtColumns did record row else row) ∧
      ∀ row ∈ posts, row.id = pid → ∀ row' ∈ posts, row'.atUri = some (postUri did record.rkey) →
        row'.id = pid := by
  simp only [updatePost] at h
  split at h
  · cases h
  · rename_i hfree
    cases h
    refine ⟨rfl, fun row hrow hid row' hrow' huri => ?_⟩
    by_contra hne
    refine hfree ⟨List.any_eq_true.mpr ⟨row, hrow, by simp [hid]⟩,
      List.any_eq_true.mpr ⟨row', hrow', ?_⟩⟩
    simp [hne, huri]

/-! ## A commit -/

/-- What a commit does: away from its path nothing changes, and at its path is
what it wrote. -/
structure WriteSpec (repo repo' : Repo) (write : RepoWrite) : Prop where
  atDid : repo'.atDid = repo.atDid
  wf : Wf repo'
  events : repo'.events = { ops := [write.op], entries := newEntries repo write } :: repo.events
  away : ∀ x, x.1 ≠ write.key → (x ∈ loadAtpEntries repo' ↔ x ∈ loadAtpEntries repo)
  atKey : ∀ x ∈ loadAtpEntries repo', x.1 = write.key → x ∈ write.added
  stored : ∀ x ∈ write.added, x ∈ loadAtpEntries repo' ∨
    ∃ row ∈ repo'.posts, row.deleted = true ∧ row.entry = some x

section Records

variable {collection rkey : String}

/-- No live post is at the path of the record, and no other record is. -/
structure FreePath (repo : Repo) (collection rkey : String) : Prop where
  posts : ∀ row ∈ repo.posts, row.path = some (entryKey collection rkey) → row.deleted = true
  records : ∀ r ∈ repo.records, r.key = entryKey collection rkey →
    r.collection = collection ∧ r.rkey = rkey

theorem live_notAt (h : FreePath repo collection rkey) {row : PostRow} {x : String × Cid}
    (hrow : row ∈ repo.posts) (hlive : row.deleted = false) (hx : row.entry = some x) :
    x.1 ≠ entryKey collection rkey := by
  intro hkey
  have hdel := h.posts row hrow (by rw [path_of_entry hx, hkey])
  rw [hlive] at hdel
  cases hdel

theorem commitGenericRecord_spec {cid : Cid} {action : String} (hwf : Wf repo)
    (hc : collection ≠ feedPost) (hfree : FreePath repo collection rkey)
    (h : commitGenericRecord repo collection rkey cid action = some repo') :
    WriteSpec repo repo' (.put { collection, rkey, cid, action }) ∧ repo'.posts = repo.posts := by
  obtain ⟨posts, hposts, rfl⟩ := tryApplyWrite_eq_some.mp h
  cases hposts
  have hkeys := nodup_applyToRecords (.put { collection, rkey, cid, action }) hwf.keys
  refine ⟨⟨rfl, ⟨hwf.ids, hwf.uris, hwf.rkeys, hkeys⟩, rfl, ?_, ?_, ?_⟩, rfl⟩
  · intro x hx
    simp only [mem_loadAtpEntries, applyToRecords, if_pos hc, mem_upsertRecord]
    refine or_congr_right ⟨?_, ?_⟩
    · rintro ⟨r, rfl | ⟨hr, -⟩, rfl⟩
      · exact absurd rfl hx
      · exact ⟨r, hr, rfl⟩
    · rintro ⟨r, hr, rfl⟩
      refine ⟨r, .inr ⟨hr, fun ⟨hcol, hrk⟩ => hx ?_⟩, rfl⟩
      simp only [AtpRecord.key, hcol, hrk, RepoWrite.key]
  · intro x hx hkey
    simp only [mem_loadAtpEntries, applyToRecords, if_pos hc, mem_upsertRecord] at hx
    rcases hx with ⟨row, hrow, hlive, hx⟩ | ⟨r, rfl | ⟨hr, hne⟩, rfl⟩
    · exact absurd hkey (live_notAt hfree hrow hlive hx)
    · exact List.mem_singleton_self _
    · exact absurd (hfree.records r hr hkey) hne
  · intro x hx
    rw [RepoWrite.added, List.mem_singleton] at hx
    subst hx
    refine .inl (mem_loadAtpEntries.mpr (.inr ⟨⟨collection, rkey, cid⟩, ?_, rfl⟩))
    simp only [applyToRecords, if_pos hc, mem_upsertRecord, true_or]

theorem deleteAtpRecordGeneric_spec (hwf : Wf repo) (hfree : FreePath repo collection rkey)
    (h : deleteAtpRecordGeneric repo collection rkey = some repo') :
    WriteSpec repo repo' (.delete collection rkey) ∧ repo'.posts = repo.posts := by
  obtain ⟨posts, hposts, rfl⟩ := tryApplyWrite_eq_some.mp h
  cases hposts
  have hkeys := nodup_applyToRecords (.delete collection rkey) hwf.keys
  refine ⟨⟨rfl, ⟨hwf.ids, hwf.uris, hwf.rkeys, hkeys⟩, rfl, ?_, ?_, ?_⟩, rfl⟩
  · intro x hx
    simp only [mem_loadAtpEntries, applyToRecords, mem_deleteRecord]
    refine or_congr_right ⟨fun ⟨r, ⟨hr, _⟩, heq⟩ => ⟨r, hr, heq⟩, ?_⟩
    rintro ⟨r, hr, rfl⟩
    refine ⟨r, ⟨hr, fun ⟨hcol, hrk⟩ => hx ?_⟩, rfl⟩
    simp only [AtpRecord.key, hcol, hrk, RepoWrite.key]
  · intro x hx hkey
    simp only [mem_loadAtpEntries, applyToRecords, mem_deleteRecord] at hx
    rcases hx with ⟨row, hrow, hlive, hx⟩ | ⟨r, ⟨hr, hne⟩, rfl⟩
    · exact absurd hkey (live_notAt hfree hrow hlive hx)
    · exact absurd (hfree.records r hr hkey) hne
  · intro x hx
    cases hx

end Records

/-- The row `id` is to be, or already is, at `rkey`. -/
def RowFor (repo : Repo) (id : Nat) (rkey : String) : Prop :=
  ∃ row ∈ repo.posts, row.id = id ∧
    (row.atUri = none ∨ row.atUri = some (postUri repo.atDid rkey))

theorem entryKey_inj {c r r' : String} (h : entryKey c r = entryKey c r') : r = r' :=
  (String.append_right_inj _).mp h

section Post

variable {id : Nat} {rkey : String} {record : CommitRecord}

/-- Before the commit, the row `id` is at the path of the commit or at none, and
no other row is at it. -/
theorem entry_iff_id (hwf : Wf repo) (hrow : RowFor repo id rkey)
    (huri : ∀ row ∈ repo.posts, row.atUri = some (postUri repo.atDid rkey) → row.id = id)
    {row : PostRow} (hmem : row ∈ repo.posts) {x : String × Cid} (hx : row.entry = some x) :
    row.id = id ↔ x.1 = entryKey feedPost rkey := by
  obtain ⟨r, hr, hkey, -⟩ := entry_eq_some.mp hx
  obtain ⟨hat, -⟩ := hwf.rkeys row hmem r hr
  constructor
  · intro hid
    obtain ⟨row₀, hrow₀, hid₀, hrow₀uri⟩ := hrow
    have heq : row = row₀ := hwf.row_unique hmem hrow₀ (hid.trans hid₀.symm)
    subst heq
    rcases hrow₀uri with hnone | hsome
    · rw [hat] at hnone
      cases hnone
    · rw [hat, Option.some.injEq] at hsome
      rw [hkey, postUri_inj hsome]
  · intro heq
    refine huri row hmem ?_
    rw [hat, entryKey_inj (hkey.symm.trans heq)]

theorem mem_map_update {posts : List PostRow} {f : PostRow → PostRow} {row' : PostRow} :
    row' ∈ posts.map (fun row => if row.id = id then f row else row) ↔
      (∃ row ∈ posts, row.id = id ∧ f row = row') ∨ (row' ∈ posts ∧ row'.id ≠ id) := by
  rw [List.mem_map]
  constructor
  · rintro ⟨row, hrow, heq⟩
    split at heq
    · rename_i hid
      exact .inl ⟨row, hrow, hid, heq⟩
    · rename_i hid
      subst heq
      exact .inr ⟨hrow, hid⟩
  · rintro (⟨row, hrow, hid, rfl⟩ | ⟨hrow, hid⟩)
    · exact ⟨row, hrow, if_pos hid⟩
    · exact ⟨row', hrow, if_neg hid⟩

theorem map_id_update {posts : List PostRow} {f : PostRow → PostRow} (hf : ∀ row, (f row).id = row.id) :
    (posts.map fun row => if row.id = id then f row else row).map PostRow.id =
      posts.map PostRow.id := by
  rw [List.map_map]
  refine List.map_congr_left fun row _ => ?_
  simp only [Function.comp]
  split
  · exact hf row
  · rfl

theorem wf_updatePost (hwf : Wf repo) (hrkey : record.rkey = rkey)
    (huri : ∀ row ∈ repo.posts, row.atUri = some (postUri repo.atDid rkey) → row.id = id)
    {repo' : Repo} (hdid : repo'.atDid = repo.atDid)
    (hposts : repo'.posts = repo.posts.map fun row =>
      if row.id = id then setAtColumns repo.atDid record row else row)
    (hrecords : repo'.records = repo.records) : Wf repo' := by
  subst hrkey
  refine ⟨?_, ?_, ?_, hrecords ▸ hwf.keys⟩
  · rw [hposts, map_id_update (f := setAtColumns repo.atDid record) fun _ => rfl]
    exact hwf.ids
  · intro row hrow row' hrow' u hu hu'
    rw [hposts, mem_map_update] at hrow hrow'
    rcases hrow with ⟨row, hrow, hid, rfl⟩ | ⟨hrow, hid⟩ <;>
      rcases hrow' with ⟨row', hrow', hid', rfl⟩ | ⟨hrow', hid'⟩
    · exact hid.trans hid'.symm
    · cases hu
      exact absurd (huri row' hrow' hu') hid'
    · cases hu'
      exact absurd (huri row hrow hu) hid
    · exact hwf.uris row hrow row' hrow' u hu hu'
  · intro row hrow r hr
    rw [hposts, mem_map_update] at hrow
    rw [hdid]
    rcases hrow with ⟨row, hrow, hid, rfl⟩ | ⟨hrow, hid⟩
    · cases hr
      exact ⟨rfl, rfl⟩
    · exact hwf.rkeys row hrow r hr

theorem commitPostRecord_spec {cid : Cid} {action : String} (hwf : Wf repo)
    (hrow : RowFor repo id rkey)
    (halone : ∀ r ∈ repo.records, r.key ≠ entryKey feedPost rkey)
    (h : commitPostRecord repo id rkey cid action = some repo') :
    WriteSpec repo repo' (.put { collection := feedPost, rkey, cid, action }) ∧
      repo'.records = repo.records ∧ repo'.posts = repo.posts.map (fun row =>
        if row.id = id then setAtColumns repo.atDid { collection := feedPost, rkey, cid, action } row
        else row) := by
  obtain ⟨posts, hposts, rfl⟩ := tryApplyWrite_eq_some.mp h
  obtain ⟨rfl, huri⟩ := updatePost_eq_some hposts
  have ⟨row₀, hrow₀, hid₀, _⟩ := hrow
  have huri := huri row₀ hrow₀ hid₀
  have hentry : ∀ row ∈ repo.posts, ∀ x, row.entry = some x →
      (row.id = id ↔ x.1 = entryKey feedPost rkey) :=
    fun row hmem x hx => entry_iff_id hwf hrow huri hmem hx
  refine ⟨⟨rfl, wf_updatePost hwf rfl huri rfl rfl rfl, rfl, ?_, ?_, ?_⟩, rfl, rfl⟩
  · intro x hx
    simp only [mem_loadAtpEntries, mem_map_update, applyToRecords]
    refine or_congr_left ⟨?_, ?_⟩
    · rintro ⟨row, ⟨row, hrow, hid, rfl⟩ | ⟨hrow, hid⟩, hlive, hxe⟩
      · cases hxe
        exact absurd rfl hx
      · exact ⟨row, hrow, hlive, hxe⟩
    · rintro ⟨row, hrow, hlive, hxe⟩
      exact ⟨row, .inr ⟨hrow, fun hid => hx ((hentry row hrow x hxe).mp hid)⟩, hlive, hxe⟩
  · intro x hx hkey
    simp only [mem_loadAtpEntries, mem_map_update, applyToRecords] at hx
    rcases hx with ⟨row, ⟨row, hrow, hid, rfl⟩ | ⟨hrow, hid⟩, hlive, hxe⟩ | ⟨r, hr, rfl⟩
    · cases hxe
      exact List.mem_singleton_self _
    · exact absurd ((hentry row hrow x hxe).mpr hkey) hid
    · exact absurd hkey (halone r hr)
  · intro x hx
    rw [RepoWrite.added, List.mem_singleton] at hx
    subst hx
    have hmem := mem_map_update (f := setAtColumns repo.atDid
      { collection := feedPost, rkey, cid, action }).mpr (.inl ⟨row₀, hrow₀, hid₀, rfl⟩)
    by_cases hdel : row₀.deleted = true
    · exact .inr ⟨_, hmem, hdel, rfl⟩
    · exact .inl (mem_loadAtpEntries.mpr (.inl ⟨_, hmem, eq_false_of_ne_true hdel, rfl⟩))

end Post

/-! ## The keys of a tree are distinct -/

/-- No collection has a slash, and no post is in `atp_records`. -/
def Clean (repo : Repo) : Prop :=
  ∀ r ∈ repo.records, '/' ∉ r.collection.toList ∧ r.collection ≠ feedPost

/-- A key is split at its first slash. -/
theorem entryKey_inj_both {c c' r r' : String} (hc : '/' ∉ c.toList) (hc' : '/' ∉ c'.toList)
    (h : entryKey c r = entryKey c' r') : c = c' ∧ r = r' := by
  have hbefore : ∀ c r : String, '/' ∉ c.toList →
      (entryKey c r).toList.takeWhile (· ≠ '/') = c.toList := by
    intro c r hc
    have hsplit : (entryKey c r).toList = c.toList ++ '/' :: r.toList := by
      simp [entryKey]
    have hne : ∀ x ∈ c.toList, decide (x ≠ '/') = true := by
      intro x hx
      refine decide_eq_true ?_
      rintro rfl
      exact hc hx
    rw [hsplit, List.takeWhile_append_of_pos hne]
    simp
  have hcc : c = c' := by
    rw [← String.toList_inj, ← hbefore c r hc, ← hbefore c' r' hc', h]
  subst hcc
  exact ⟨rfl, entryKey_inj h⟩

theorem slash_notMem_feedPost : '/' ∉ feedPost.toList := by decide

theorem Clean.key_ne (h : Clean repo) {r : AtpRecord} (hr : r ∈ repo.records) (rkey : String) :
    r.key ≠ entryKey feedPost rkey := fun heq =>
  (h r hr).2 (entryKey_inj_both (h r hr).1 slash_notMem_feedPost heq).1

theorem nodup_keys_load (hwf : Wf repo) (hclean : Clean repo) :
    ((loadAtpEntries repo).map Prod.fst).Nodup := by
  rw [loadAtpEntries, List.map_append, List.nodup_append]
  refine ⟨?_, ?_, ?_⟩
  · rw [List.Nodup, List.pairwise_map, List.pairwise_filterMap]
    have hids : repo.posts.Pairwise fun row row' => row.id ≠ row'.id :=
      List.pairwise_map.mp hwf.ids
    refine (hids.filter _).imp_of_mem fun {row row'} hrow hrow' hne x hx x' hx' heq => hne ?_
    obtain ⟨r, hr, hkey, -⟩ := entry_eq_some.mp hx
    obtain ⟨r', hr', hkey', -⟩ := entry_eq_some.mp hx'
    have hrow := List.mem_of_mem_filter hrow
    have hrow' := List.mem_of_mem_filter hrow'
    have hrr : r = r' := entryKey_inj (hkey.symm.trans (heq.trans hkey'))
    exact hwf.uris row hrow row' hrow' _ (hwf.rkeys row hrow r hr).1
      (hrr ▸ (hwf.rkeys row' hrow' r' hr').1)
  · rw [List.map_map, List.Nodup, List.pairwise_map]
    have hkeys := List.pairwise_map.mp hwf.keys
    refine hkeys.imp_of_mem fun {r r'} hr hr' hne heq => hne ?_
    obtain ⟨hc, hk⟩ := entryKey_inj_both (hclean r hr).1 (hclean r' hr').1 heq
    rw [hc, hk]
  · rintro _ hpost _ hrec rfl
    obtain ⟨x, hx, hfst⟩ := List.mem_map.mp hpost
    obtain ⟨row, -, hentry⟩ := List.mem_filterMap.mp hx
    obtain ⟨rkey, -, hkey, -⟩ := entry_eq_some.mp hentry
    obtain ⟨y, hy, hfst'⟩ := List.mem_map.mp hrec
    obtain ⟨r, hr, rfl⟩ := List.mem_map.mp hy
    exact hclean.key_ne hr rkey (hfst'.trans (hfst.symm.trans hkey))

theorem nodup_keys_new (hload : ((loadAtpEntries repo).map Prod.fst).Nodup) :
    ((newEntries repo write).map Prod.fst).Nodup := by
  have hperm := (List.perm_insertionSort (fun x y : String × Cid => x.1 ≤ y.1)
    ((loadAtpEntries repo).filter (fun x => x.1 ≠ write.key) ++ write.added)).map Prod.fst
  rw [newEntries, hperm.nodup_iff, List.map_append, List.nodup_append]
  refine ⟨hload.sublist (List.filter_sublist.map _), ?_, ?_⟩
  · cases write with
    | put record => exact List.nodup_singleton _
    | delete collection rkey => exact List.nodup_nil
  · rintro _ hold _ hnew rfl
    obtain ⟨x, hx, hfst⟩ := List.mem_map.mp hold
    obtain ⟨y, hy, hfst'⟩ := List.mem_map.mp hnew
    have hne := of_decide_eq_true (List.mem_filter.mp hx).2
    exact hne (hfst.trans (hfst'.symm.trans (key_of_added hy)))

/-! ## Writes without a commit -/

section Posts

variable {id : Nat}

theorem insertFull_eq_some (h : insertFull repo id = some repo') :
    (∀ row ∈ repo.posts, row.id ≠ id) ∧ repo' = { repo with
      posts := repo.posts ++
        [{ id, atUri := none, atCid := none, atRkey := none, deleted := false }] } := by
  unfold insertFull at h
  split at h
  · cases h
  · rename_i hfree
    refine ⟨fun row hrow hid => hfree ?_, (Option.some.inj h).symm⟩
    exact List.any_eq_true.mpr ⟨row, hrow, decide_eq_true hid⟩

theorem loadAtpEntries_insertFull (h : insertFull repo id = some repo') :
    loadAtpEntries repo' = loadAtpEntries repo := by
  obtain ⟨-, rfl⟩ := insertFull_eq_some h
  simp [loadAtpEntries, PostRow.entry]

theorem wf_insertFull (hwf : Wf repo) (h : insertFull repo id = some repo') : Wf repo' := by
  obtain ⟨hfree, rfl⟩ := insertFull_eq_some h
  refine ⟨?_, ?_, ?_, hwf.keys⟩
  · rw [List.map_append, List.nodup_append]
    refine ⟨hwf.ids, by simp, ?_⟩
    rintro _ hold _ hnew rfl
    obtain ⟨row, hrow, heq⟩ := List.mem_map.mp hold
    rw [List.map_singleton, List.mem_singleton] at hnew
    exact hfree row hrow (heq.trans hnew)
  · intro row hrow row' hrow' u hu hu'
    rw [List.mem_append, List.mem_singleton] at hrow hrow'
    rcases hrow with hrow | rfl
    · rcases hrow' with hrow' | rfl
      · exact hwf.uris row hrow row' hrow' u hu hu'
      · cases hu'
    · cases hu
  · intro row hrow r hr
    rw [List.mem_append, List.mem_singleton] at hrow
    rcases hrow with hrow | rfl
    · exact hwf.rkeys row hrow r hr
    · cases hr

theorem mem_softDeleteById {row' : PostRow} :
    row' ∈ (softDeleteById repo id).posts ↔
      (∃ row ∈ repo.posts, row.id = id ∧ { row with deleted := true } = row') ∨
        (row' ∈ repo.posts ∧ row'.id ≠ id) :=
  mem_map_update (f := fun row : PostRow => { row with deleted := true })

theorem wf_softDeleteById (hwf : Wf repo) : Wf (softDeleteById repo id) := by
  -- deletion changes no column that `Wf` speaks about
  have hold : ∀ row' ∈ (softDeleteById repo id).posts, ∃ row ∈ repo.posts,
      row'.id = row.id ∧ row'.atUri = row.atUri ∧ row'.atCid = row.atCid ∧
        row'.atRkey = row.atRkey := by
    intro row' hrow'
    rcases mem_softDeleteById.mp hrow' with ⟨row, hrow, -, rfl⟩ | ⟨hrow, -⟩
    · exact ⟨row, hrow, rfl, rfl, rfl, rfl⟩
    · exact ⟨row', hrow, rfl, rfl, rfl, rfl⟩
  refine ⟨?_, ?_, ?_, hwf.keys⟩
  · rw [softDeleteById, map_id_update (f := fun row => { row with deleted := true }) fun _ => rfl]
    exact hwf.ids
  · intro row hrow row' hrow' u hu hu'
    obtain ⟨row₀, hrow₀, hid₀, huri₀, -⟩ := hold row hrow
    obtain ⟨row₁, hrow₁, hid₁, huri₁, -⟩ := hold row' hrow'
    rw [hid₀, hid₁]
    exact hwf.uris row₀ hrow₀ row₁ hrow₁ u (huri₀ ▸ hu) (huri₁ ▸ hu')
  · intro row hrow r hr
    obtain ⟨row₀, hrow₀, -, huri₀, hcid₀, hrkey₀⟩ := hold row hrow
    rw [huri₀, hcid₀]
    exact hwf.rkeys row₀ hrow₀ r (hrkey₀ ▸ hr)

/-- A soft deletion takes the entries of the row away, and only these. -/
theorem mem_load_softDeleteById {x : String × Cid} :
    (x ∈ loadAtpEntries (softDeleteById repo id) → x ∈ loadAtpEntries repo) ∧
      (x ∈ loadAtpEntries repo → x ∈ loadAtpEntries (softDeleteById repo id) ∨
        ∃ row ∈ (softDeleteById repo id).posts, row.deleted = true ∧ row.entry = some x) := by
  constructor
  · intro hx
    refine mem_loadAtpEntries.mpr ?_
    refine (mem_loadAtpEntries.mp hx).imp_left fun ⟨row, hrow, hlive, hentry⟩ => ?_
    rcases mem_softDeleteById.mp hrow with ⟨row, hrow, -, rfl⟩ | ⟨hrow, -⟩
    · cases hlive
    · exact ⟨row, hrow, hlive, hentry⟩
  · intro hx
    rcases mem_loadAtpEntries.mp hx with ⟨row, hrow, hlive, hentry⟩ | hrec
    · by_cases hid : row.id = id
      · refine .inr ⟨{ row with deleted := true }, ?_, rfl, hentry⟩
        exact mem_softDeleteById.mpr (.inl ⟨row, hrow, hid, rfl⟩)
      · refine .inl (mem_loadAtpEntries.mpr (.inl ⟨row, ?_, hlive, hentry⟩))
        exact mem_softDeleteById.mpr (.inr ⟨hrow, hid⟩)
    · exact .inl (mem_loadAtpEntries.mpr (.inr hrec))

theorem findByAtUri_eq_some {atUri : String} {row : PostRow}
    (h : findByAtUri repo atUri = some row) : row ∈ repo.posts ∧ row.atUri = some atUri := by
  have huri := List.find?_some h
  exact ⟨List.mem_of_find?_eq_some h, of_decide_eq_true huri⟩

end Posts

end Tables

end Seiran.Atp
