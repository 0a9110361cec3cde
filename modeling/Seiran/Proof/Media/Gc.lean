import Mathlib.Data.List.Nodup
import Seiran.Framework.Counting
import Seiran.Model.Media.Gc

/-!
# What the garbage collection loses

* `base_step`: every object has one holder, a candidate is the row it was, and the
  attachments that a `DELETE` has seen are those of deleted posts, whatever happens;
* `referenced_of_removes`: so a file that is removed has no attachment of a live post and
  is no emoji;
* `kept_step`, `lost_step`: an orderly step loses nothing, and any other step does;
* `intact_iff`: the runs in which nothing is lost.
-/

namespace Seiran.Media

variable {s s' : State}

/-! ## Objects and their holders -/

namespace Task

/-- The object that a task has still to write down or to delete -/
def object : Task → Option String
  | .upsert _ storageKey => some storageKey
  | .deleteObject storageKey => some storageKey
  | _ => none

/-- The file that a task of the collection is about -/
def candidate : Task → Option (Int × String)
  | .beginDelete id storageKey => some (id, storageKey)
  | .delete id storageKey _ _ => some (id, storageKey)
  | _ => none

end Task

def held (s : State) : List String :=
  s.mediaFiles.map MediaFile.storageKey ++ s.tasks.filterMap Task.object

/-- Every object has one holder. -/
structure Custody (s : State) : Prop where
  nodup : (held s).Nodup
  drawn : ∀ k ∈ held s, k ∈ s.storageKeys
  stored : ∀ m ∈ s.mediaFiles, m.storageKey ∈ s.objects
  pending : ∀ {new k}, .upsert new k ∈ s.tasks → k ∈ s.objects

structure Rows (s : State) : Prop where
  nodup : (s.mediaFiles.map MediaFile.id).Nodup
  drawn : ∀ m ∈ s.mediaFiles, m.id ∈ s.ids
  candidates : ∀ {t id k}, t ∈ s.tasks → t.candidate = some (id, k) → id ∈ s.ids ∧
    ∀ m ∈ s.mediaFiles, m.id = id → m.storageKey = k

/-- What a `DELETE` has seen: attachments of posts that are deleted -/
structure Seen (s : State) : Prop where
  owners : ∀ r ∈ s.postAttachments, r.owner ∈ s.posts.map Post.id
  dead : ∀ {id k now l}, .delete id k now l ∈ s.tasks → now ≤ s.now ∧
    ∀ r ∈ l, r.mediaFileId = id → r.owner ∈ s.posts.map Post.id ∧ live s r.owner = false

structure Base (s : State) : Prop where
  custody : Custody s
  rows : Rows s
  seen : Seen s
  marks : ∀ p ∈ s.returned, p.2 ≤ s.now

/-- What holds as long as nothing was lost -/
structure Kept (s : State) : Prop where
  valid : ∀ p ∈ s.returned, (∃ m ∈ s.mediaFiles, m.id = p.1 ∧ p.2 ≤ m.lastUploadedAt) ∨
    p.2 + grace < s.now
  kept : ∀ id, (id, true) ∉ s.deleted

/-! ## Tasks -/

theorem Base.dequeue (h : Base s) (t : Task) : Base (dequeue s t) where
  custody :=
    { nodup := h.custody.nodup.sublist ((List.Sublist.refl _).append
        (List.erase_sublist.filterMap _))
      drawn := fun k hk => h.custody.drawn k (((List.Sublist.refl _).append
        (List.erase_sublist.filterMap _)).subset hk)
      stored := h.custody.stored
      pending := fun ht => h.custody.pending (List.mem_of_mem_erase ht) }
  rows :=
    { nodup := h.rows.nodup
      drawn := h.rows.drawn
      candidates := fun ht => h.rows.candidates (List.mem_of_mem_erase ht) }
  seen :=
    { owners := h.seen.owners
      dead := fun ht => h.seen.dead (List.mem_of_mem_erase ht) }
  marks := h.marks

/-- What a task that waits has to be: it holds no object, and knows its file. -/
structure Waits (s : State) (t : Task) : Prop where
  object : t.object = none
  candidate : ∀ {id k}, t.candidate = some (id, k) → id ∈ s.ids ∧
    ∀ m ∈ s.mediaFiles, m.id = id → m.storageKey = k
  dead : ∀ {id k now l}, t = .delete id k now l → now ≤ s.now ∧
    ∀ r ∈ l, r.mediaFileId = id → r.owner ∈ s.posts.map Post.id ∧ live s r.owner = false

theorem waits_plain {t : Task} (hobject : t.object = none) (hcandidate : t.candidate = none) :
    Waits s t where
  object := hobject
  candidate hc := by
    rw [hcandidate] at hc
    cases hc
  dead ht := by
    rw [ht] at hcandidate
    cases hcandidate

theorem Base.enqueue (h : Base s) {ts : List Task} (hts : ∀ t ∈ ts, Waits s t) :
    Base (enqueue s ts) := by
  have hnone : ts.filterMap Task.object = [] :=
    List.filterMap_eq_nil_iff.mpr fun t ht => (hts t ht).object
  have hheld : held (Media.enqueue s ts) = held s := by
    rw [held, held, Media.enqueue, List.filterMap_append, hnone, List.append_nil]
  constructor
  case custody =>
    refine ⟨hheld ▸ h.custody.nodup, ?_, h.custody.stored, fun ht => ?_⟩
    · rw [hheld]
      exact h.custody.drawn
    · rcases List.mem_append.mp ht with ht | ht
      · exact h.custody.pending ht
      · exact absurd (hts _ ht).object nofun
  case rows =>
    refine ⟨h.rows.nodup, h.rows.drawn, fun ht hc => ?_⟩
    rcases List.mem_append.mp ht with ht | ht
    · exact h.rows.candidates ht hc
    · exact (hts _ ht).candidate hc
  case seen =>
    refine ⟨h.seen.owners, fun ht => ?_⟩
    rcases List.mem_append.mp ht with ht | ht
    · exact h.seen.dead ht
    · exact (hts _ ht).dead rfl
  case marks => exact h.marks

/-! ## Rows -/

theorem map_touch {α : Type} (marked : MediaFile → Bool) (f : MediaFile → α)
    (hf : ∀ m now, f { m with lastUploadedAt := now } = f m) :
    (touch s marked).mediaFiles.map f = s.mediaFiles.map f := by
  rw [touch, List.map_map]
  refine List.map_congr_left fun m _ => ?_
  rw [Function.comp_apply]
  split
  · exact hf m _
  · rfl

/-- A row after `touch` is an old one, and not older. -/
theorem mem_touch {marked : MediaFile → Bool} {m : MediaFile} (hm : m ∈ (touch s marked).mediaFiles) :
    ∃ m' ∈ s.mediaFiles, m'.id = m.id ∧ m'.storageKey = m.storageKey := by
  obtain ⟨m', hm', rfl⟩ := List.mem_map.mp hm
  refine ⟨m', hm', ?_⟩
  split <;> exact ⟨rfl, rfl⟩

theorem Base.touch (h : Base s) (marked : MediaFile → Bool) : Base (touch s marked) := by
  have hheld : held (Media.touch s marked) = held s := by
    rw [held, map_touch marked _ fun _ _ => rfl]
    rfl
  constructor
  case custody =>
    refine ⟨hheld ▸ h.custody.nodup, ?_, fun m hm => ?_, h.custody.pending⟩
    · rw [hheld]
      exact h.custody.drawn
    · obtain ⟨m', hm', -, hkey⟩ := mem_touch hm
      rw [← hkey]
      exact h.custody.stored m' hm'
  case rows =>
    refine ⟨?_, fun m hm => ?_, fun ht hc => ?_⟩
    · rw [map_touch marked _ fun _ _ => rfl]
      exact h.rows.nodup
    · obtain ⟨m', hm', hid, -⟩ := mem_touch hm
      rw [← hid]
      exact h.rows.drawn m' hm'
    · obtain ⟨hid, hkeys⟩ := h.rows.candidates ht hc
      refine ⟨hid, fun m hm heq => ?_⟩
      obtain ⟨m', hm', hid', hkey⟩ := mem_touch hm
      rw [← hkey]
      exact hkeys m' hm' (hid'.trans heq)
  case seen => exact ⟨h.seen.owners, h.seen.dead⟩
  case marks => exact h.marks

theorem Base.answer (h : Base s) (id : Int) : Base (answer s id) where
  custody := ⟨h.custody.nodup, h.custody.drawn, h.custody.stored, h.custody.pending⟩
  rows := ⟨h.rows.nodup, h.rows.drawn, h.rows.candidates⟩
  seen := ⟨h.seen.owners, h.seen.dead⟩
  marks p hp := by
    rcases List.mem_append.mp hp with hp | hp
    · exact h.marks p hp
    · rw [List.mem_singleton.mp hp]
      exact Int.le_refl s.now

theorem Base.put (h : Base s) (new : Content) {key : String} (hkey : key ∉ s.storageKeys) :
    Base { Media.enqueue s [.upsert new key] with
      objects := s.objects ++ [key], storageKeys := s.storageKeys ++ [key] } := by
  have hheld : s.mediaFiles.map MediaFile.storageKey ++
      (s.tasks ++ [Task.upsert new key]).filterMap Task.object = held s ++ [key] := by
    rw [List.filterMap_append, ← List.append_assoc]
    rfl
  constructor
  case custody =>
    refine ⟨?_, fun k hk => ?_, fun m hm => List.mem_append_left _ (h.custody.stored m hm),
      fun ht => ?_⟩
    · refine (congrArg List.Nodup hheld).mpr (List.nodup_append'.mpr
        ⟨h.custody.nodup, List.nodup_singleton _, List.disjoint_singleton.mpr fun hk => ?_⟩)
      exact hkey (h.custody.drawn _ hk)
    · have hk' : k ∈ held s ++ [key] := by
        rw [← hheld]
        exact hk
      rcases List.mem_append.mp hk' with hk | hk
      · exact List.mem_append_left _ (h.custody.drawn k hk)
      · exact List.mem_append_right _ hk
    · rcases List.mem_append.mp ht with ht | ht
      · exact List.mem_append_left _ (h.custody.pending ht)
      · cases List.mem_singleton.mp ht
        exact List.mem_append_right _ (List.mem_singleton.mpr rfl)
  case rows =>
    refine ⟨h.rows.nodup, h.rows.drawn, fun ht hc => ?_⟩
    rcases List.mem_append.mp ht with ht | ht
    · exact h.rows.candidates ht hc
    · cases List.mem_singleton.mp ht
      cases hc
  case seen =>
    refine ⟨h.seen.owners, fun ht => ?_⟩
    rcases List.mem_append.mp ht with ht | ht
    · exact h.seen.dead ht
    · cases List.mem_singleton.mp ht
  case marks => exact h.marks

/-- The row of an upload takes the object over. -/
theorem Base.insert (h : Base s) {new : Content} {key : String} (ht : .upsert new key ∈ s.tasks)
    {id : Int} (hid : id ∉ s.ids) : Base { Media.dequeue s (.upsert new key) with
      mediaFiles := s.mediaFiles ++ [⟨id, new, key, s.now⟩], ids := s.ids ++ [id] } := by
  have hdequeued := h.dequeue (.upsert new key)
  have hperm : (s.mediaFiles.map MediaFile.storageKey ++ [key] ++
      (s.tasks.erase (.upsert new key)).filterMap Task.object).Perm (held s) := by
    rw [held, List.append_assoc]
    refine List.Perm.append_left _ ?_
    exact ((List.perm_cons_erase ht).filterMap Task.object).symm
  have hheld : held { Media.dequeue s (.upsert new key) with
      mediaFiles := s.mediaFiles ++ [⟨id, new, key, s.now⟩], ids := s.ids ++ [id] } =
      s.mediaFiles.map MediaFile.storageKey ++ [key] ++
        (s.tasks.erase (.upsert new key)).filterMap Task.object := by
    rw [held, List.map_append]
    rfl
  constructor
  case custody =>
    refine ⟨?_, fun k hk => ?_, fun m hm => ?_, hdequeued.custody.pending⟩
    · rw [hheld]
      exact hperm.nodup_iff.mpr h.custody.nodup
    · rw [hheld] at hk
      exact h.custody.drawn k (hperm.subset hk)
    · rcases List.mem_append.mp hm with hm | hm
      · exact h.custody.stored m hm
      · rw [List.mem_singleton.mp hm]
        exact h.custody.pending ht
  case rows =>
    refine ⟨?_, fun m hm => ?_, fun {t _ _} hmem hc => ?_⟩
    · rw [List.map_append]
      refine List.nodup_append'.mpr ⟨h.rows.nodup, List.nodup_singleton _, ?_⟩
      refine List.disjoint_singleton.mpr fun hmem => ?_
      obtain ⟨m, hm, heq⟩ := List.mem_map.mp hmem
      have hdrawn := h.rows.drawn m hm
      rw [show m.id = id from heq] at hdrawn
      exact hid hdrawn
    · rcases List.mem_append.mp hm with hm | hm
      · exact List.mem_append_left _ (h.rows.drawn m hm)
      · rw [List.mem_singleton.mp hm]
        exact List.mem_append_right _ (List.mem_singleton.mpr rfl)
    · obtain ⟨hdrawn, hkeys⟩ := h.rows.candidates (List.mem_of_mem_erase hmem) hc
      refine ⟨List.mem_append_left _ hdrawn, fun m hm heq => ?_⟩
      rcases List.mem_append.mp hm with hm | hm
      · exact hkeys m hm heq
      · -- a candidate is not new
        rw [List.mem_singleton.mp hm] at heq
        rw [← heq] at hdrawn
        exact absurd hdrawn hid
  case seen => exact ⟨hdequeued.seen.owners, hdequeued.seen.dead⟩
  case marks => exact h.marks

theorem Base.deleteObject (h : Base s) {key : String} (ht : .deleteObject key ∈ s.tasks) :
    Base { Media.dequeue s (.deleteObject key) with
      objects := s.objects.filter (· ≠ key) } := by
  have hdequeued := h.dequeue (.deleteObject key)
  have hnodup := List.nodup_append'.mp h.custody.nodup
  have hkey : key ∈ s.tasks.filterMap Task.object := List.mem_filterMap.mpr ⟨_, ht, rfl⟩
  refine ⟨⟨hdequeued.custody.nodup, hdequeued.custody.drawn, fun m hm => ?_, fun {new k} hmem => ?_⟩,
    ⟨h.rows.nodup, h.rows.drawn, hdequeued.rows.candidates⟩,
    ⟨h.seen.owners, hdequeued.seen.dead⟩, h.marks⟩
  · refine List.mem_filter.mpr ⟨h.custody.stored m hm, decide_eq_true fun heq => ?_⟩
    exact hnodup.2.2 (List.mem_map_of_mem hm) (heq ▸ hkey)
  · have hpending := List.mem_of_mem_erase hmem
    refine List.mem_filter.mpr ⟨h.custody.pending hpending, decide_eq_true ?_⟩
    rintro rfl
    cases eq_of_filterMap_nodup hnodup.2.1 ht hpending rfl rfl

/-- The row goes, and its object is left to the task. -/
theorem Base.remove (h : Base s) {id : Int} {key : String} {now : Int} {l : List Reference}
    (ht : .delete id key now l ∈ s.tasks) (hid : isFile s id = true) :
    Base (Media.enqueue (removeFile (Media.dequeue s (.delete id key now l)) id)
      [.deleteObject key]) := by
  have hdequeued := h.dequeue (.delete id key now l)
  obtain ⟨row, hrow, hrowid⟩ : ∃ m ∈ s.mediaFiles, m.id = id := by simpa [isFile] using hid
  have hkey : row.storageKey = key := (h.rows.candidates ht rfl).2 row hrow hrowid
  have hnodup := List.nodup_append'.mp h.custody.nodup
  have hfiles : (s.mediaFiles.filter fun m => m.id ≠ id).Sublist s.mediaFiles :=
    List.filter_sublist
  have htasks : ((s.tasks.erase (.delete id key now l)).filterMap Task.object).Sublist
      (s.tasks.filterMap Task.object) := List.erase_sublist.filterMap _
  have hheld : held (Media.enqueue (removeFile (Media.dequeue s (.delete id key now l)) id)
      [.deleteObject key]) = (s.mediaFiles.filter fun m => m.id ≠ id).map MediaFile.storageKey ++
        (s.tasks.erase (.delete id key now l)).filterMap Task.object ++ [key] := by
    rw [List.append_assoc]
    refine congrArg (List.append _) ?_
    exact List.filterMap_append
  have hsub : ((s.mediaFiles.filter fun m => m.id ≠ id).map MediaFile.storageKey ++
      (s.tasks.erase (.delete id key now l)).filterMap Task.object).Sublist (held s) :=
    (hfiles.map _).append htasks
  constructor
  case custody =>
    refine ⟨?_, fun k hk => ?_, fun m hm => ?_, fun hmem => ?_⟩
    · rw [hheld]
      refine List.nodup_append'.mpr ⟨h.custody.nodup.sublist hsub, List.nodup_singleton _,
        List.disjoint_singleton.mpr fun hk => ?_⟩
      rcases List.mem_append.mp hk with hk | hk
      · obtain ⟨m, hm, heq⟩ := List.mem_map.mp hk
        obtain ⟨hm, hne⟩ := List.mem_filter.mp hm
        have hsame := List.inj_on_of_nodup_map hnodup.1 hm hrow (heq.trans hkey.symm)
        rw [hsame, hrowid] at hne
        simp at hne
      · refine hnodup.2.2 (List.mem_map_of_mem hrow) ?_
        rw [hkey]
        exact htasks.subset hk
    · rw [hheld] at hk
      rcases List.mem_append.mp hk with hk | hk
      · exact h.custody.drawn k (hsub.subset hk)
      · rw [List.mem_singleton.mp hk, ← hkey]
        exact h.custody.drawn _ (List.mem_append_left _ (List.mem_map_of_mem hrow))
    · exact h.custody.stored m (hfiles.subset hm)
    · rcases List.mem_append.mp hmem with hmem | hmem
      · exact hdequeued.custody.pending hmem
      · cases List.mem_singleton.mp hmem
  case rows =>
    refine ⟨h.rows.nodup.sublist (hfiles.map _), fun m hm => h.rows.drawn m (hfiles.subset hm),
      fun hmem hc => ?_⟩
    rcases List.mem_append.mp hmem with hmem | hmem
    · obtain ⟨hdrawn, hkeys⟩ := hdequeued.rows.candidates hmem hc
      exact ⟨hdrawn, fun m hm => hkeys m (hfiles.subset hm)⟩
    · cases List.mem_singleton.mp hmem
      cases hc
  case seen =>
    refine ⟨fun r hr => h.seen.owners r (List.mem_of_mem_filter hr), fun hmem => ?_⟩
    rcases List.mem_append.mp hmem with hmem | hmem
    · exact hdequeued.seen.dead hmem
    · cases List.mem_singleton.mp hmem
  case marks => exact h.marks

/-! ## References and posts -/

/-- The parts of a state that the collection's own steps keep in order -/
structure Frame (s s' : State) : Prop where
  mediaFiles : s'.mediaFiles = s.mediaFiles
  objects : s'.objects = s.objects
  tasks : s'.tasks = s.tasks
  ids : s'.ids = s.ids
  storageKeys : s'.storageKeys = s.storageKeys
  returned : s'.returned = s.returned
  now : s.now ≤ s'.now

/-- Posts come and are deleted, and new attachments are those of a post. -/
theorem Base.frame (h : Base s) (hs : Frame s s')
    (howners : ∀ r ∈ s'.postAttachments, r.owner ∈ s'.posts.map Post.id)
    (hposts : ∀ id ∈ s.posts.map Post.id, id ∈ s'.posts.map Post.id)
    (hlive : ∀ id ∈ s.posts.map Post.id, live s id = false → live s' id = false) : Base s' := by
  have hheld : held s' = held s := by rw [held, held, hs.mediaFiles, hs.tasks]
  constructor
  case custody =>
    refine ⟨hheld ▸ h.custody.nodup, ?_, ?_, ?_⟩
    · rw [hheld, hs.storageKeys]
      exact h.custody.drawn
    · rw [hs.mediaFiles, hs.objects]
      exact h.custody.stored
    · rw [hs.tasks, hs.objects]
      exact h.custody.pending
  case rows =>
    refine ⟨?_, ?_, ?_⟩
    · rw [hs.mediaFiles]
      exact h.rows.nodup
    · rw [hs.mediaFiles, hs.ids]
      exact h.rows.drawn
    · rw [hs.mediaFiles, hs.ids, hs.tasks]
      exact h.rows.candidates
  case seen =>
    refine ⟨howners, fun {id k now l} ht => ?_⟩
    rw [hs.tasks] at ht
    obtain ⟨hnow, hdead⟩ := h.seen.dead ht
    refine ⟨Int.le_trans hnow hs.now, fun r hr heq => ?_⟩
    obtain ⟨hmem, hl⟩ := hdead r hr heq
    exact ⟨hposts _ hmem, hlive _ hmem hl⟩
  case marks =>
    rw [hs.returned]
    exact fun p hp => Int.le_trans (h.marks p hp) hs.now

/-- Neither posts nor attachments change. -/
theorem Base.frame_same (h : Base s) (hs : Frame s s') (hposts : s'.posts = s.posts)
    (hattachments : s'.postAttachments = s.postAttachments) : Base s' := by
  refine h.frame hs ?_ ?_ fun id _ hl => ?_
  · rw [hposts, hattachments]
    exact h.seen.owners
  · rw [hposts]
    exact fun _ => id
  · rw [live, hposts]
    exact hl

theorem ids_markDeleted (id : Int) : (markDeleted s id).map Post.id = s.posts.map Post.id := by
  rw [markDeleted, List.map_map]
  refine List.map_congr_left fun p _ => ?_
  rw [Function.comp_apply]
  split <;> rfl

theorem live_markDeleted {id postId : Int} (h : live s postId = false) :
    live { s with posts := markDeleted s id } postId = false := by
  simp only [live, markDeleted, List.any_map, List.any_eq_false, Function.comp_apply] at h ⊢
  intro p hp
  split
  · simp
  · exact h p hp

theorem live_insertPost {id postId : Int} (hid : id ∉ s.posts.map Post.id)
    (hpost : postId ∈ s.posts.map Post.id) (h : live s postId = false) :
    live { s with posts := s.posts ++ [{ id }] } postId = false := by
  rw [live, List.any_append, Bool.or_eq_false_iff]
  refine ⟨h, ?_⟩
  have hne : id ≠ postId := fun heq => hid (heq ▸ hpost)
  simp [hne]

theorem Base.insertPost (h : Base s) {id : Int} (hid : id ∉ s.posts.map Post.id) :
    Base { s with posts := s.posts ++ [{ id }] } := by
  have hposts : ∀ postId ∈ s.posts.map Post.id,
      postId ∈ (s.posts ++ [({ id } : Post)]).map Post.id := by
    intro postId hpost
    rw [List.map_append]
    exact List.mem_append_left _ hpost
  refine h.frame ⟨rfl, rfl, rfl, rfl, rfl, rfl, Int.le_refl _⟩ ?_ hposts ?_
  · exact fun r hr => hposts _ (h.seen.owners r hr)
  · exact fun postId hpost hl => live_insertPost hid hpost hl

theorem Base.markDeleted (h : Base s) (id : Int) :
    Base { s with posts := markDeleted s id } := by
  refine h.frame ⟨rfl, rfl, rfl, rfl, rfl, rfl, Int.le_refl _⟩ ?_ ?_ ?_
  · rw [ids_markDeleted]
    exact h.seen.owners
  · rw [ids_markDeleted]
    exact fun _ hmem => hmem
  · exact fun postId _ hl => live_markDeleted hl

theorem Base.attachments (h : Base s) {attachments records : List Reference}
    (howners : ∀ r ∈ attachments, r.owner ∈ s.posts.map Post.id) :
    Base { s with postAttachments := attachments, postRecordBlobs := records } :=
  h.frame ⟨rfl, rfl, rfl, rfl, rfl, rfl, Int.le_refl _⟩ howners (fun _ hid => hid)
    fun _ _ hl => hl

/-! ## Candidates -/

theorem findById_some {id : Int} {m : MediaFile} (h : findById s id = some m) :
    m ∈ s.mediaFiles ∧ m.id = id := by
  refine ⟨List.mem_of_find?_eq_some h, ?_⟩
  simpa using List.find?_some h

theorem any_findById {id : Int} {p : MediaFile → Bool} (h : (findById s id).any p = true) :
    ∃ m ∈ s.mediaFiles, m.id = id ∧ p m = true := by
  cases hfind : findById s id with
  | none =>
    rw [hfind] at h
    cases h
  | some m =>
    rw [hfind] at h
    exact ⟨m, (findById_some hfind).1, (findById_some hfind).2, h⟩

theorem isFile_iff {id : Int} : isFile s id = true ↔ ∃ m ∈ s.mediaFiles, m.id = id := by
  simp [isFile]

theorem row_of_removes {id now : Int} {l : List Reference} (h : removes s id now l = true) :
    ∃ m ∈ s.mediaFiles, m.id = id ∧ m.lastUploadedAt < now - grace := by
  rw [removes, Bool.and_eq_true] at h
  obtain ⟨m, hm, hid, hlt⟩ := any_findById h.1
  exact ⟨m, hm, hid, of_decide_eq_true hlt⟩

theorem isFile_of_removes {id now : Int} {l : List Reference} (h : removes s id now l = true) :
    isFile s id = true := by
  obtain ⟨m, hm, hid, -⟩ := row_of_removes h
  exact isFile_iff.mpr ⟨m, hm, hid⟩

theorem Base.waits_candidates (h : Base s) {ids : List Int} {t : Task}
    (ht : t ∈ candidates s ids) : Waits s t := by
  obtain ⟨id, -, hmap⟩ := List.mem_filterMap.mp ht
  obtain ⟨m, hfind, rfl⟩ := Option.map_eq_some_iff.mp hmap
  obtain ⟨hm, hid⟩ := findById_some hfind
  refine ⟨rfl, fun hc => ?_, nofun⟩
  cases hc
  refine ⟨hid ▸ h.rows.drawn m hm, fun m' hm' hid' => ?_⟩
  rw [List.inj_on_of_nodup_map h.rows.nodup hm' hm (hid'.trans hid.symm)]

/-- The snapshot in which a file is orphaned has attachments of deleted posts only. -/
theorem Base.waits_delete (h : Base s) {id : Int} {key : String}
    (ht : .beginDelete id key ∈ s.tasks) (ho : (findById s id).any (orphaned s) = true) :
    Waits s (.delete id key s.now s.postAttachments) := by
  obtain ⟨m, hm, hid, horphaned⟩ := any_findById ho
  have hattached : attached s m.id = false := by
    simp only [orphaned, Bool.and_eq_true, Bool.not_eq_true'] at horphaned
    exact horphaned.1.1.1.1.1.1.2
  refine ⟨rfl, fun hc => ?_, fun hd => ?_⟩
  · cases hc
    exact h.rows.candidates ht rfl
  · cases hd
    refine ⟨Int.le_refl _, fun r hr heq => ⟨h.seen.owners r hr, ?_⟩⟩
    simp only [attached, List.any_eq_false, decide_eq_true_eq, not_and, Bool.not_eq_true]
      at hattached
    exact hattached r hr (heq.trans hid.symm)

/-! ## What holds in every state -/

theorem base_runTask (h : Base s) {t : Task} (ht : t ∈ s.tasks) {id : Int} {key : String}
    (hrun : runTask s t id key = some s') : Base s' := by
  cases t with
  | findExisting cs new =>
    cases cs with
    | nil =>
      cases hrun
      exact (h.dequeue _).enqueue fun t ht => by
        rw [List.mem_singleton.mp ht]
        exact waits_plain rfl rfl
    | cons c cs =>
      simp only [runTask] at hrun
      split at hrun <;> cases hrun
      all_goals
        refine (h.dequeue _).enqueue fun t ht => ?_
        rw [List.mem_singleton.mp ht]
        exact waits_plain rfl rfl
  | touchLastUploadedAt existing =>
    cases hrun
    exact ((h.dequeue _).touch _).answer existing
  | put new =>
    simp only [runTask] at hrun
    split at hrun <;> cases hrun
    next hkey => exact (h.dequeue _).put new hkey
  | upsert new storageKey =>
    simp only [runTask] at hrun
    split at hrun
    · cases hrun
      exact ((h.dequeue _).touch _).answer _
    · split at hrun <;> cases hrun
      next hid => exact (h.insert ht hid).answer id
  | beginDelete existing storageKey =>
    simp only [runTask] at hrun
    split at hrun
    case isTrue ho =>
      cases hrun
      refine (h.dequeue _).enqueue fun t hmem => ?_
      rw [List.mem_singleton.mp hmem]
      have hwaits := h.waits_delete ht ho
      exact ⟨hwaits.object, hwaits.candidate, hwaits.dead⟩
    case isFalse =>
      cases hrun
      exact h.dequeue _
  | delete existing storageKey now l =>
    simp only [runTask] at hrun
    split at hrun
    case isTrue hremoves =>
      cases hrun
      exact h.remove ht (isFile_of_removes hremoves)
    case isFalse =>
      cases hrun
      exact h.dequeue _
  | deleteObject storageKey =>
    cases hrun
    exact h.deleteObject ht

theorem base_step {a : Action} (h : Base s) (hs : step s a = some s') : Base s' := by
  cases a with
  | tick seconds =>
    cases hs
    refine h.frame_same ⟨rfl, rfl, rfl, rfl, rfl, rfl, ?_⟩ rfl rfl
    exact Int.le_add_of_nonneg_right (Int.natCast_nonneg seconds)
  | storeImage cs new =>
    cases hs
    refine h.enqueue fun t ht => ?_
    rw [List.mem_singleton.mp ht]
    exact waits_plain rfl rfl
  | runTask t id key =>
    simp only [step] at hs
    split at hs
    · next ht => exact base_runTask h ht hs
    · cases hs
  | drop t =>
    simp only [step] at hs
    split at hs <;> cases hs
    exact h.dequeue t
  | selectOrphaned ids =>
    simp only [step] at hs
    split at hs <;> cases hs
    exact h.enqueue fun t ht => h.waits_candidates ht
  | insertPost id =>
    simp only [step] at hs
    split at hs <;> cases hs
    next hid => exact h.insertPost hid
  | softDeleteById id =>
    cases hs
    exact (h.touch _).markDeleted id
  | softDelete id =>
    cases hs
    exact h.markDeleted id
  | deletePost id =>
    simp only [step] at hs
    split at hs <;> cases hs
    exact h.attachments fun r hr => h.seen.owners r (List.mem_of_mem_filter hr)
  | attachMedia postId mediaFileId =>
    simp only [step] at hs
    split at hs <;> cases hs
    next hpost =>
      refine h.attachments fun r hr => ?_
      rcases List.mem_append.mp hr with hr | hr
      · exact h.seen.owners r hr
      · rw [List.mem_singleton.mp hr]
        exact hpost.2
  | insertPostRecordBlobs | finishBackfill | deleteEmoji | setSetting =>
    cases hs
    exact h.frame_same ⟨rfl, rfl, rfl, rfl, rfl, rfl, Int.le_refl _⟩ rfl rfl
  | setAvatar | setBanner | insertEmoji =>
    simp only [step] at hs
    split at hs <;> cases hs
    exact h.frame_same ⟨rfl, rfl, rfl, rfl, rfl, rfl, Int.le_refl _⟩ rfl rfl

theorem base_start (posts : List Post) (backfill : List Int) : Base (start posts backfill) where
  custody := ⟨List.nodup_nil, nofun, nofun, nofun⟩
  rows := ⟨List.nodup_nil, nofun, nofun⟩
  seen := ⟨nofun, nofun⟩
  marks := nofun

/-! ## What an orderly step keeps -/

theorem Kept.touch (h : Kept s) (hmarks : ∀ p ∈ s.returned, p.2 ≤ s.now)
    (marked : MediaFile → Bool) : Kept (touch s marked) where
  valid p hp := by
    refine (h.valid p hp).imp (fun ⟨m, hm, hid, hle⟩ => ?_) fun hlt => hlt
    refine ⟨_, List.mem_map_of_mem hm, ?_⟩
    split
    · exact ⟨hid, hmarks p hp⟩
    · exact ⟨hid, hle⟩
  kept := h.kept

theorem Kept.answer (h : Kept s) {m : MediaFile} (hm : m ∈ s.mediaFiles)
    (hnow : s.now ≤ m.lastUploadedAt) : Kept (answer s m.id) where
  valid p hp := by
    rcases List.mem_append.mp hp with hp | hp
    · exact h.valid p hp
    · rw [List.mem_singleton.mp hp]
      exact Or.inl ⟨m, hm, rfl, hnow⟩
  kept := h.kept

/-- A row that is there is touched and returned. -/
theorem Kept.touch_answer (h : Kept s) (hmarks : ∀ p ∈ s.returned, p.2 ≤ s.now) {id : Int}
    (hid : isFile s id = true) : Kept (Media.answer (Media.touch s fun m => m.id = id) id) := by
  obtain ⟨m, hm, hmid⟩ := isFile_iff.mp hid
  have hmem : { m with lastUploadedAt := s.now } ∈
      (Media.touch s fun m => m.id = id).mediaFiles := by
    refine List.mem_map.mpr ⟨m, hm, ?_⟩
    rw [if_pos (decide_eq_true hmid)]
  have hkept := (h.touch hmarks fun m => m.id = id).answer hmem (Int.le_refl _)
  rw [show ({ m with lastUploadedAt := s.now } : MediaFile).id = id from hmid] at hkept
  exact hkept

theorem Kept.insert (h : Kept s) (m : MediaFile) {ids : List Int} :
    Kept { s with mediaFiles := s.mediaFiles ++ [m], ids := ids } where
  valid p hp := (h.valid p hp).imp (fun ⟨m', hm', hid⟩ => ⟨m', List.mem_append_left _ hm', hid⟩)
    fun hlt => hlt
  kept := h.kept

/-- What the foreign keys let go has no attachment that counts, and is no emoji. -/
theorem referenced_of_removes (h : Base s) {id now : Int} {key : String} {l : List Reference}
    (ht : .delete id key now l ∈ s.tasks) (hremoves : removes s id now l = true) :
    referenced s id = (inRecord s id || isAvatar s id || isBanner s id || inSettings s id) := by
  rw [removes, Bool.and_eq_true, Bool.not_eq_true', refused, Bool.or_eq_false_iff] at hremoves
  obtain ⟨-, hemoji, hattachments⟩ := hremoves
  have hattached : attached s id = false := by
    refine List.any_eq_false.mpr fun r hr hmem => ?_
    obtain ⟨heq, hlive⟩ := of_decide_eq_true hmem
    have hseen : r ∈ l := by
      by_contra hnot
      exact List.any_eq_false.mp hattachments r hr (decide_eq_true ⟨heq, hnot⟩)
    rw [((h.seen.dead ht).2 r hseen heq).2] at hlive
    cases hlive
  rw [referenced, hattached, hemoji, Bool.false_or, Bool.or_false]

theorem Kept.remove (h : Kept s) {id now : Int} {l : List Reference} (hnow : now ≤ s.now)
    (hnodup : (s.mediaFiles.map MediaFile.id).Nodup) (hremoves : removes s id now l = true)
    (hfree : referenced s id = false) : Kept (removeFile s id) where
  valid p hp := by
    obtain ⟨row, hrow, hrowid, hold⟩ := row_of_removes hremoves
    rcases h.valid p hp with ⟨m, hm, hid, hle⟩ | hlt
    · by_cases heq : m.id = id
      · have hsame := List.inj_on_of_nodup_map hnodup hm hrow (heq.trans hrowid.symm)
        rw [hsame] at hle
        have hlt : p.2 + grace < s.now := by omega
        exact Or.inr hlt
      · exact Or.inl ⟨m, List.mem_filter.mpr ⟨hm, decide_eq_true heq⟩, hid, hle⟩
    · exact Or.inr hlt
  kept i hi := by
    rcases List.mem_append.mp hi with hi | hi
    · exact h.kept i hi
    · rw [hfree] at hi
      cases List.mem_singleton.mp hi

theorem kept_runTask (hb : Base s) (h : Kept s) {t : Task} (ht : t ∈ s.tasks) {id : Int}
    {key : String} (ho : Orderly s (.runTask t id key)) (hrun : runTask s t id key = some s') :
    Kept s' := by
  have hrest : Kept (dequeue s t) := ⟨h.valid, h.kept⟩
  cases t with
  | findExisting cs new =>
    cases cs with
    | nil =>
      cases hrun
      exact ⟨h.valid, h.kept⟩
    | cons c cs =>
      simp only [runTask] at hrun
      split at hrun <;> cases hrun <;> exact ⟨h.valid, h.kept⟩
  | touchLastUploadedAt existing =>
    cases hrun
    exact hrest.touch_answer hb.marks ho
  | put new =>
    simp only [runTask] at hrun
    split at hrun <;> cases hrun
    exact ⟨h.valid, h.kept⟩
  | upsert new storageKey =>
    simp only [runTask] at hrun
    split at hrun
    · next m hfind =>
      cases hrun
      refine hrest.touch_answer hb.marks (isFile_iff.mpr ⟨m, ?_, rfl⟩)
      exact List.mem_of_find?_eq_some hfind
    · split at hrun <;> cases hrun
      exact (hrest.insert ⟨id, new, storageKey, s.now⟩).answer
        (List.mem_append_right _ (List.mem_singleton.mpr rfl)) (Int.le_refl _)
  | beginDelete existing storageKey =>
    simp only [runTask] at hrun
    split at hrun <;> cases hrun <;> exact ⟨h.valid, h.kept⟩
  | delete existing storageKey now l =>
    simp only [runTask] at hrun
    split at hrun
    case isTrue hremoves =>
      cases hrun
      have hfree : referenced s existing = false := by
        rw [referenced_of_removes hb ht hremoves]
        have hnone := ho hremoves
        simpa only [not_or, Bool.or_eq_false_iff, Bool.not_eq_true, and_assoc] using hnone
      have hkept := hrest.remove (hb.seen.dead ht).1 hb.rows.nodup hremoves hfree
      exact ⟨hkept.valid, hkept.kept⟩
    case isFalse =>
      cases hrun
      exact hrest
  | deleteObject storageKey =>
    cases hrun
    exact ⟨h.valid, h.kept⟩

theorem kept_step {a : Action} (h : Base s ∧ Kept s) (ho : Orderly s a)
    (hs : step s a = some s') : Base s' ∧ Kept s' := by
  refine ⟨base_step h.1 hs, ?_⟩
  cases a with
  | tick seconds =>
    cases hs
    refine ⟨fun p hp => (h.2.valid p hp).imp (fun hm => hm) fun hlt => ?_, h.2.kept⟩
    exact Int.lt_of_lt_of_le hlt (Int.le_add_of_nonneg_right (Int.natCast_nonneg seconds))
  | runTask t id key =>
    simp only [step] at hs
    split at hs
    · next ht => exact kept_runTask h.1 h.2 ht ho hs
    · cases hs
  | softDeleteById id =>
    cases hs
    have hkept := h.2.touch h.1.marks fun m =>
      s.postAttachments.any fun r => r.owner = id ∧ r.mediaFileId = m.id
    exact ⟨hkept.valid, hkept.kept⟩
  | storeImage | softDelete | insertPostRecordBlobs | finishBackfill | deleteEmoji | setSetting =>
    cases hs
    exact ⟨h.2.valid, h.2.kept⟩
  | drop | selectOrphaned | insertPost | deletePost | attachMedia | setAvatar | setBanner
  | insertEmoji =>
    simp only [step] at hs
    split at hs <;> cases hs
    exact ⟨h.2.valid, h.2.kept⟩

theorem intact_of_kept (hb : Base s) (h : Kept s) : Intact s where
  stored := hb.custody.stored
  valid id markedAt hp hle := by
    rcases h.valid (id, markedAt) hp with ⟨m, hm, hid, -⟩ | hlt
    · exact ⟨m, hm, hid⟩
    · exact absurd hlt (Int.not_lt.mpr hle)
  kept := h.kept

/-! ## What any other step loses -/

theorem lost_step {a : Action} (h : Base s) (ho : ¬ Orderly s a) (hs : step s a = some s') :
    ¬ Intact s' := by
  intro hintact
  cases a with
  | runTask t id key =>
    simp only [step] at hs
    split at hs
    · next ht =>
      cases t with
      | touchLastUploadedAt existing =>
        cases hs
        obtain ⟨m, hm, hid⟩ := hintact.valid existing s.now
          (List.mem_append_right _ (List.mem_singleton.mpr rfl))
          (Int.le_add_of_nonneg_right (by decide))
        obtain ⟨m', hm', hid', -⟩ := mem_touch hm
        exact ho (isFile_iff.mpr ⟨m', hm', hid'.trans hid⟩)
      | delete existing storageKey now l =>
        by_cases hremoves : removes s existing now l = true
        · have hlost : referenced s existing = true := by
            rw [referenced_of_removes h ht hremoves]
            by_contra hnot
            refine ho fun _ => ?_
            simpa only [not_or, Bool.or_eq_true, or_assoc] using hnot
          simp only [runTask, if_pos hremoves] at hs
          cases hs
          refine hintact.kept existing (List.mem_append_right _ (List.mem_singleton.mpr ?_))
          rw [← hlost]
          rfl
        · exact ho fun hr => absurd hr hremoves
      | findExisting | put | upsert | beginDelete | deleteObject => exact ho trivial
    · cases hs
  | tick | storeImage | drop | selectOrphaned | insertPost | softDeleteById | softDelete
  | deletePost | attachMedia | insertPostRecordBlobs | finishBackfill | setAvatar | setBanner
  | insertEmoji | deleteEmoji | setSetting => exact ho trivial

/-! ## Runs -/

theorem intact_iff {posts : List Post} {backfill : List Int} {as : List Action} {t : State}
    (hr : machine.run (start posts backfill) as = some t) :
    (∀ bs cs u, as = bs ++ cs → machine.run (start posts backfill) bs = some u → Intact u) ↔
      machine.Along Orderly (start posts backfill) as := by
  constructor
  · intro h
    exact machine.along_of_prefixes (fun hI hs => base_step hI hs)
      (fun hI ho hs => lost_step hI ho hs) (base_start posts backfill) hr h
  · rintro h bs cs u rfl hu
    have hstart : Base (start posts backfill) ∧ Kept (start posts backfill) :=
      ⟨base_start posts backfill, ⟨nofun, nofun⟩⟩
    obtain ⟨hb, hk⟩ := machine.run_inv_along (fun hI ho hs => kept_step hI ho hs) hstart
      (machine.along_append_left h) hu
    exact intact_of_kept hb hk

instance decidableOrderly : ∀ s a, Decidable (Orderly s a)
  | s, .runTask (.touchLastUploadedAt id) _ _ => inferInstanceAs (Decidable (isFile s id = true))
  | s, .runTask (.delete id _ now l) _ _ => inferInstanceAs (Decidable (removes s id now l = true →
      ¬ (inRecord s id = true ∨ isAvatar s id = true ∨ isBanner s id = true ∨
        inSettings s id = true)))
  | _, .runTask (.findExisting _ _) _ _ | _, .runTask (.put _) _ _ | _, .runTask (.upsert _ _) _ _
  | _, .runTask (.beginDelete _ _) _ _ | _, .runTask (.deleteObject _) _ _ | _, .tick _
  | _, .storeImage _ _ | _, .drop _ | _, .selectOrphaned _ | _, .insertPost _
  | _, .softDeleteById _ | _, .softDelete _ | _, .deletePost _ | _, .attachMedia _ _
  | _, .insertPostRecordBlobs _ _ | _, .finishBackfill _ | _, .setAvatar _ _ | _, .setBanner _ _
  | _, .insertEmoji _ _ | _, .deleteEmoji _ | _, .setSetting _ _ => .isTrue trivial

/-- An image that is saved -/
def picture : Content := ⟨"3b4c", some "LEHV"⟩

/-- It is uploaded and, a week later, uploaded again. -/
def again : List Action :=
  [.storeImage [] picture,
    .runTask (.findExisting [] picture) 0 "",
    .runTask (.put picture) 0 "k",
    .runTask (.upsert picture "k") 1 "",
    .tick (7 * 24 * 3600 + 1),
    .storeImage [picture] picture,
    .runTask (.findExisting [picture] picture) 0 ""]

/-- The collection of the old file -/
def collected : List Action :=
  [.selectOrphaned [1],
    .runTask (.beginDelete 1 "k") 0 "",
    .runTask (.delete 1 "k" 604801 []) 0 ""]

/-- It is touched before the collection looks at the row. -/
def touchedInTime : List Action :=
  [.selectOrphaned [1],
    .runTask (.beginDelete 1 "k") 0 "",
    .runTask (.touchLastUploadedAt 1) 0 "",
    .runTask (.delete 1 "k" 604801 []) 0 ""]

theorem intact_iff_again :
    (machine.run (start [] []) (again ++ touchedInTime)).isSome = true ∧
      ∀ bs cs u, again ++ touchedInTime = bs ++ cs → machine.run (start [] []) bs = some u →
        Intact u :=
  ⟨rfl, (intact_iff rfl).mpr (by decide)⟩

theorem gc_counterexample :
    ¬ ∀ as t, machine.run (start [] []) as = some t → Intact t := by
  intro h
  obtain ⟨m, hm, -⟩ := (h (again ++ collected ++ [.runTask (.touchLastUploadedAt 1) 0 ""]) _ rfl).valid 1 604801 (by decide) (by decide)
  cases hm

end Seiran.Media
