import Seiran.Framework.Counting
import Seiran.Framework.Sql.Recount

/-!
# Runs of a recounting trigger

* `Inv`: what the locks and the queue of a trigger keep in every state;
* `Current`: what a transaction has written is the number once it commits;
* `right_step`, `stale_step`: a step that is not overtaken keeps the counters
  right, and a statement that was overtaken shows when its transaction commits;
* `right_iff`: so the counters are right throughout a run whose transactions all
  commit if and only if no statement is overtaken in it.
-/

namespace Seiran.Sql.Recount

variable {R K S C L : Type} {trg : Recount R K S C L}

section Put

variable [DecidableEq K] {k k' : K} {row row' : Option R} {rows : List R} {p : R → Bool}

theorem mem_put {r : R} :
    r ∈ trg.put k row rows ↔ (r ∈ rows ∧ trg.key r ≠ k) ∨ row = some r := by
  unfold put
  rw [List.mem_append, List.mem_filter, decide_eq_true_iff, Option.mem_toList]

theorem countP_put :
    (trg.put k row rows).countP p =
      rows.countP (fun r => p r && decide (trg.key r ≠ k)) + row.toList.countP p := by
  unfold put
  rw [List.countP_append, List.countP_filter]

theorem key_of_find? {r : R} (h : (rows.find? fun r => trg.key r = k) = some r) : trg.key r = k := by
  have hkey := List.find?_some h
  exact of_decide_eq_true hkey

/-- The row that changes is not counted, before or after. -/
theorem countP_put_of_not (hrows : ∀ r ∈ rows, trg.key r = k → p r = false)
    (hrow : ∀ r ∈ row, p r = false) : (trg.put k row rows).countP p = rows.countP p := by
  have hnone : row.toList.countP p = 0 := by
    rw [List.countP_eq_zero]
    intro r hr
    rw [hrow r (Option.mem_toList.mp hr)]
    exact Bool.false_ne_true
  rw [countP_put, hnone, Nat.add_zero]
  refine List.countP_congr fun r hr => ?_
  rw [Bool.and_eq_true, decide_eq_true_iff, and_iff_left_iff_imp]
  intro hp hk
  rw [hrows r hr hk] at hp
  cases hp

theorem filter_key_put (hne : k' ≠ k) (hrow : ∀ r ∈ row, trg.key r = k) :
    (trg.put k row rows).filter (fun r => trg.key r = k') =
      rows.filter fun r => trg.key r = k' := by
  have hnone : row.toList.filter (fun r => trg.key r = k') = [] := by
    rw [List.filter_eq_nil_iff]
    intro r hr
    rw [hrow r (Option.mem_toList.mp hr), decide_eq_true_iff]
    exact Ne.symm hne
  unfold put
  rw [List.filter_append, hnone, List.append_nil, List.filter_filter]
  refine List.filter_congr fun r _ => ?_
  by_cases hk : trg.key r = k'
  · simp [hk, hne]
  · simp [hk]

theorem nodup_put (h : (rows.map trg.key).Nodup) (hrow : ∀ r ∈ row, trg.key r = k) :
    ((trg.put k row rows).map trg.key).Nodup := by
  have hrest : ((rows.filter fun r => trg.key r ≠ k).map trg.key).Nodup :=
    (List.filter_sublist.map _).nodup h
  unfold put
  cases row with
  | none => rwa [Option.toList_none, List.append_nil]
  | some r =>
    rw [Option.toList_some, List.map_append, List.nodup_append', List.map_singleton,
      List.disjoint_singleton, hrow r rfl]
    refine ⟨hrest, List.nodup_singleton _, fun hmem => ?_⟩
    obtain ⟨q, hq, hk⟩ := List.mem_map.mp hmem
    rw [List.mem_filter, decide_eq_true_iff] at hq
    exact hq.2 hk

/-- The numbers after the change of a row compare as the numbers before it do. -/
theorem count_put_eq_iff {rows rows' : List R} {c : C}
    (hkey : rows.filter (fun r => trg.key r = k) = rows'.filter fun r => trg.key r = k) :
    trg.count (trg.put k row rows) c = trg.count (trg.put k row rows') c ↔
      trg.count rows c = trg.count rows' c := by
  have hsplit (l : List R) : l.countP (trg.counts c) =
      l.countP (fun r => trg.counts c r && decide (trg.key r ≠ k)) +
        (l.filter fun r => trg.key r = k).countP (trg.counts c) := by
    rw [List.countP_filter, ← countP_or fun r _ hr => ?_]
    · refine List.countP_congr fun r _ => ?_
      by_cases hk : trg.key r = k
      · simp [hk]
      · simp [hk]
    · rw [Bool.and_eq_true, decide_eq_true_iff] at hr
      rw [decide_eq_false hr.2, Bool.and_false]
  unfold count
  rw [countP_put, countP_put, hsplit rows, hsplit rows', hkey]
  omega

end Put

section Transactions

/-- What holds of a transaction, of the committed rows and of the locks of two transactions -/
structure Good [DecidableEq K] (trg : Recount R K S C L) (rows : List R)
    (tx : Transaction R K C) : Prop where
  row : ∀ r ∈ tx.row, trg.key r = tx.key
  /-- The counters that its change concerns are recounted. -/
  covered : ∀ c, (∃ r ∈ rows, trg.key r = tx.key ∧ trg.counts c r = true) ∨
    (∃ r ∈ tx.row, trg.counts c r = true) → c ∈ tx.queue ∨ c ∈ tx.written
  /-- Nobody else changes the row. -/
  snapshot : ∀ rows' ∈ tx.snapshot, rows'.filter (fun r => trg.key r = tx.key) =
    rows.filter fun r => trg.key r = tx.key
  /-- Each counter is written once. -/
  nodup : tx.queue.Nodup
  once : ∀ c ∈ tx.queue, c ∉ tx.written

structure Apart (trg : Recount R K S C L) (tx tx' : Transaction R K C) : Prop where
  key : tx.key ≠ tx'.key
  owner : ∀ c ∈ tx.written, ∀ c' ∈ tx'.written, trg.owner c ≠ trg.owner c'

structure Inv [DecidableEq K] (trg : Recount R K S C L) (st : State R K C) : Prop where
  keys : (st.rows.map trg.key).Nodup
  good : ∀ {id tx}, st.transactions.lookup id = some tx → Good trg st.rows tx
  apart : ∀ {id id' tx tx'}, id ≠ id' → st.transactions.lookup id = some tx →
    st.transactions.lookup id' = some tx' → Apart trg tx tx'

variable {st : State R K C} {id id' : Nat} {tx : Transaction R K C} {stmt : S}

theorem Apart.symm {tx tx' : Transaction R K C} (h : Apart trg tx tx') : Apart trg tx' tx where
  key := h.key.symm
  owner c hc c' hc' := (h.owner c' hc' c hc).symm

theorem waits_eq_false {holds : Transaction R K C → Bool} (h : st.waits id holds = false)
    (hne : id' ≠ id) {tx : Transaction R K C} (htx : st.transactions.lookup id' = some tx) :
    holds tx = false := by
  have hmem := List.any_eq_false.mp h ⟨id', tx⟩ (AList.mem_lookup_iff.mp htx)
  rw [Bool.not_eq_true, bne_iff_ne.mpr hne, Bool.true_and] at hmem
  exact hmem

theorem lookup_set_ne (h : id' ≠ id) :
    (st.set id tx).transactions.lookup id' = st.transactions.lookup id' :=
  AList.lookup_insert_ne h

theorem lookup_set_self : (st.set id tx).transactions.lookup id = some tx :=
  AList.lookup_insert st.transactions

theorem lookup_set_eq_some {tx' : Transaction R K C}
    (h : (st.set id tx).transactions.lookup id' = some tx') :
    (id' = id ∧ tx' = tx) ∨ (id' ≠ id ∧ st.transactions.lookup id' = some tx') := by
  by_cases hid : id' = id
  · subst hid
    rw [lookup_set_self, Option.some.injEq] at h
    exact .inl ⟨rfl, h.symm⟩
  · rw [lookup_set_ne hid] at h
    exact .inr ⟨hid, h⟩

theorem lookup_erase_eq_some {tx' : Transaction R K C} :
    (st.transactions.erase id).lookup id' = some tx' ↔
      id' ≠ id ∧ st.transactions.lookup id' = some tx' := by
  by_cases hid : id' = id
  · subst hid
    rw [AList.lookup_erase]
    simp
  · rw [AList.lookup_erase_ne hid, and_iff_right hid]

theorem locks_eq_false [DecidableEq L] {c : C} (h : trg.locks c tx = false) :
    ∀ c' ∈ tx.written, trg.owner c' ≠ trg.owner c := by
  intro c' hc'
  exact of_decide_eq_false ((Bool.not_eq_true _).mp (List.any_eq_false.mp h c' hc'))

variable [DecidableEq K]

/-- Before there are transactions -/
theorem inv_of_idle (hidle : st.transactions = ∅) (hkeys : (st.rows.map trg.key).Nodup) :
    Inv trg st where
  keys := hkeys
  good h := by rw [hidle, AList.lookup_empty] at h; cases h
  apart _ h := by rw [hidle, AList.lookup_empty] at h; cases h

theorem good_execute (hinv : Inv trg st) {row : Option R}
    (hchange : trg.change stmt (st.rows.find? fun r => trg.key r = trg.target stmt) = some row) :
    Good trg st.rows {
      key := trg.target stmt
      row
      queue := trg.trigger (st.rows.find? fun r => trg.key r = trg.target stmt) row } where
  row r hr := by
    obtain rfl : row = some r := hr
    exact trg.key_change (fun q hq => key_of_find? hq) hchange
  covered c hc := by
    refine .inl ?_
    obtain ⟨r, hr, hkey, hcounts⟩ | ⟨r, hr, hcounts⟩ := hc
    · refine trg.mem_trigger (.inl ?_) hcounts
      obtain ⟨q, hq⟩ : ∃ q, st.rows.find? (fun r => trg.key r = trg.target stmt) = some q := by
        rw [← Option.isSome_iff_exists, List.find?_isSome]
        exact ⟨r, hr, decide_eq_true hkey⟩
      rw [List.inj_on_of_nodup_map hinv.keys hr (List.mem_of_find?_eq_some hq)
        (hkey.trans (key_of_find? hq).symm)]
      exact hq
    · exact trg.mem_trigger (.inr hr) hcounts
  snapshot rows' h := by cases h
  nodup := trg.nodup_trigger _ _
  once c _ := AList.notMem_empty c

/-- A transaction starts or goes on. -/
theorem inv_set (hinv : Inv trg st) (hgood : Good trg st.rows tx)
    (hapart : ∀ {id' tx'}, id' ≠ id → st.transactions.lookup id' = some tx' → Apart trg tx' tx) :
    Inv trg (st.set id tx) := by
  refine ⟨hinv.keys, fun h => ?_, fun hne h h' => ?_⟩
  · obtain ⟨-, rfl⟩ | ⟨-, hold⟩ := lookup_set_eq_some h
    · exact hgood
    · exact hinv.good hold
  · obtain ⟨rfl, rfl⟩ | ⟨hid, hold⟩ := lookup_set_eq_some h
    · obtain ⟨rfl, rfl⟩ | ⟨hid', hold'⟩ := lookup_set_eq_some h'
      · exact absurd rfl hne
      · exact (hapart hid' hold').symm
    · obtain ⟨rfl, rfl⟩ | ⟨hid', hold'⟩ := lookup_set_eq_some h'
      · exact hapart hid hold
      · exact hinv.apart hne hold hold'

variable [DecidableEq C]

theorem good_write {c : C} {queue : List C} (hgood : Good trg st.rows tx)
    (hqueue : tx.queue = c :: queue) (v : Nat) :
    Good trg st.rows { tx with queue, snapshot := none, written := tx.written.insert c v } where
  row := hgood.row
  covered c' hc' := by
    show c' ∈ queue ∨ c' ∈ tx.written.insert c v
    rw [AList.mem_insert]
    have h := hgood.covered c' hc'
    rw [hqueue, List.mem_cons] at h
    tauto
  snapshot rows' h := by cases h
  nodup := by
    have h := hgood.nodup
    rw [hqueue, List.nodup_cons] at h
    exact h.2
  once c' hc' := by
    show c' ∉ tx.written.insert c v
    have hnodup := hgood.nodup
    have honce := hgood.once c' (by rw [hqueue]; exact List.mem_cons_of_mem _ hc')
    rw [hqueue, List.nodup_cons] at hnodup
    rw [AList.mem_insert, not_or]
    exact ⟨fun h => hnodup.1 (h ▸ hc'), honce⟩

end Transactions

section Steps

variable [DecidableEq K] [DecidableEq C] [DecidableEq L] {st st' : State R K C} {id : Nat}
  {stmt : S}

/-- What a step does -/
theorem execute_eq_some (h : trg.step st (.execute id stmt) = some st') :
    st' = st ∨ ∃ row, id ∉ st.transactions ∧
      trg.change stmt (st.rows.find? fun r => trg.key r = trg.target stmt) = some row ∧
      (st.waits id fun tx => tx.key = trg.target stmt) = false ∧
      st' = st.set id {
        key := trg.target stmt
        row
        queue := trg.trigger (st.rows.find? fun r => trg.key r = trg.target stmt) row } := by
  simp only [step] at h
  split at h
  · cases h
  · rename_i hid
    split at h
    · cases h
    · split at h
      · cases h
        exact .inl rfl
      · rename_i row hrow
        split at h
        · cases h
        · rename_i hwaits
          cases h
          exact .inr ⟨row, hid, hrow, by simpa using hwaits, rfl⟩

theorem snapshot_eq_some (h : trg.step st (.snapshot id) = some st') :
    ∃ tx, st.transactions.lookup id = some tx ∧
      st' = st.set id { tx with snapshot := some st.rows } := by
  obtain ⟨tx, htx, h⟩ := Option.bind_eq_some_iff.mp h
  split at h
  · cases h
    exact ⟨tx, htx, rfl⟩
  · cases h

theorem write_eq_some (h : trg.step st (.write id) = some st') :
    ∃ tx c queue rows, st.transactions.lookup id = some tx ∧ tx.queue = c :: queue ∧
      tx.snapshot = some rows ∧ st.waits id (trg.locks c) = false ∧
      st' = st.set id { tx with
        queue
        snapshot := none
        written := tx.written.insert c (trg.count (trg.view tx rows) c) } := by
  obtain ⟨tx, htx, h⟩ := Option.bind_eq_some_iff.mp h
  split at h
  · rename_i c queue rows hqueue hsnapshot
    split at h
    · cases h
    · rename_i hwaits
      cases h
      exact ⟨tx, c, queue, rows, htx, hqueue, hsnapshot, by simpa using hwaits, rfl⟩
  · cases h

theorem commit_eq_some (h : trg.step st (.commit id) = some st') :
    ∃ tx, st.transactions.lookup id = some tx ∧ tx.queue = [] ∧
      st' = {
        rows := trg.view tx st.rows
        count := fun c => (tx.written.lookup c).getD (st.count c)
        transactions := st.transactions.erase id } := by
  obtain ⟨tx, htx, h⟩ := Option.bind_eq_some_iff.mp h
  split at h
  · rename_i hqueue
    cases h
    exact ⟨tx, htx, hqueue, rfl⟩
  · cases h

theorem rollback_eq_some (h : trg.step st (.rollback id) = some st') :
    st' = { st with transactions := st.transactions.erase id } := by
  obtain ⟨tx, -, rfl⟩ := Option.map_eq_some_iff.mp h
  rfl

theorem inv_step (hinv : Inv trg st) {a : Action S} (h : trg.step st a = some st') :
    Inv trg st' := by
  cases a with
  | execute id stmt =>
    obtain rfl | ⟨row, hid, hchange, hwaits, rfl⟩ := execute_eq_some h
    · exact hinv
    · refine inv_set hinv (good_execute hinv hchange) fun {id' tx'} hne htx' => ?_
      refine ⟨?_, fun c _ c' hc' => absurd hc' (AList.notMem_empty c')⟩
      have hkey := waits_eq_false hwaits hne htx'
      exact of_decide_eq_false hkey
  | snapshot id =>
    obtain ⟨tx, htx, rfl⟩ := snapshot_eq_some h
    have hgood := hinv.good htx
    refine inv_set hinv { hgood with snapshot := fun rows' hrows' => ?_ } fun hne htx' => ?_
    · rw [← Option.some.inj hrows']
    · have hapart := hinv.apart hne htx' htx
      exact ⟨hapart.key, hapart.owner⟩
  | write id =>
    obtain ⟨tx, c, queue, rows, htx, hqueue, -, hwaits, rfl⟩ := write_eq_some h
    refine inv_set hinv (good_write (hinv.good htx) hqueue _) fun hne htx' => ?_
    have hapart := hinv.apart hne htx' htx
    refine ⟨hapart.key, fun c' hc' c'' hc'' => ?_⟩
    obtain rfl | hc'' := (AList.mem_insert _).mp hc''
    · exact locks_eq_false (waits_eq_false hwaits hne htx') c' hc'
    · exact hapart.owner c' hc' c'' hc''
  | commit id =>
    obtain ⟨tx, htx, -, rfl⟩ := commit_eq_some h
    have hgood := hinv.good htx
    refine ⟨nodup_put hinv.keys hgood.row, fun {id' tx'} htx' => ?_, fun hne h h' => ?_⟩
    · obtain ⟨hid', htx'⟩ := lookup_erase_eq_some.mp htx'
      have hgood' := hinv.good htx'
      have hkey := (hinv.apart hid' htx' htx).key
      refine { hgood' with covered := fun c hc => hgood'.covered c ?_, snapshot := fun rows' hr => ?_ }
      · refine hc.imp_left fun ⟨r, hr, hrkey, hcounts⟩ => ⟨r, ?_, hrkey, hcounts⟩
        obtain ⟨hr, -⟩ | hr := mem_put.mp hr
        · exact hr
        · exact absurd (hrkey.symm.trans (hgood.row r hr)) hkey
      · rw [hgood'.snapshot rows' hr]
        exact (filter_key_put hkey hgood.row).symm
    · exact hinv.apart hne (lookup_erase_eq_some.mp h).2 (lookup_erase_eq_some.mp h').2
  | rollback id =>
    rw [rollback_eq_some h]
    exact ⟨hinv.keys, fun h => hinv.good (lookup_erase_eq_some.mp h).2, fun hne h h' =>
      hinv.apart hne (lookup_erase_eq_some.mp h).2 (lookup_erase_eq_some.mp h').2⟩

end Steps

section Counters

variable [DecidableEq K] {st st' : State R K C} {id id' : Nat} {tx tx' : Transaction R K C} {c : C}

/-- A counter that the trigger has not recounted does not count the row. -/
theorem count_view_of_notMem (hgood : Good trg st.rows tx) (hqueue : tx.queue = [])
    (hc : c ∉ tx.written) : trg.count (trg.view tx st.rows) c = trg.count st.rows c := by
  have hnot (h : (∃ r ∈ st.rows, trg.key r = tx.key ∧ trg.counts c r = true) ∨
      (∃ r ∈ tx.row, trg.counts c r = true)) : False := by
    obtain hmem | hmem := hgood.covered c h
    · rw [hqueue] at hmem
      cases hmem
    · exact hc hmem
  refine countP_put_of_not (fun r hr hkey => ?_) fun r hr => ?_
  · by_contra hcounts
    exact hnot (.inl ⟨r, hr, hkey, (Bool.not_eq_false _).mp hcounts⟩)
  · by_contra hcounts
    exact hnot (.inr ⟨r, hr, (Bool.not_eq_false _).mp hcounts⟩)

/-- The commit of a transaction changes none of the numbers that another is to write. -/
theorem count_view_commit (hinv : Inv trg st) (hne : id' ≠ id)
    (htx : st.transactions.lookup id = some tx) (hqueue : tx.queue = [])
    (htx' : st.transactions.lookup id' = some tx') (hc : c ∈ tx'.written) :
    trg.count (trg.view tx' (trg.view tx st.rows)) c = trg.count (trg.view tx' st.rows) c := by
  have hapart := hinv.apart hne htx' htx
  have hkeep : trg.count (trg.view tx st.rows) c = trg.count st.rows c :=
    count_view_of_notMem (hinv.good htx) hqueue fun h => hapart.owner c hc c h rfl
  exact (count_put_eq_iff (filter_key_put hapart.key (hinv.good htx).row)).mpr hkeep

variable [DecidableEq C]

/-- What a transaction has written is what its counters count once it commits. -/
def Current (trg : Recount R K S C L) (rows : List R) (tx : Transaction R K C) : Prop :=
  ∀ c v, tx.written.lookup c = some v → v = trg.count (trg.view tx rows) c

/-- Every open transaction has written numbers that are right once it commits. -/
def AllCurrent (trg : Recount R K S C L) (st : State R K C) : Prop :=
  ∀ id tx, st.transactions.lookup id = some tx → Current trg st.rows tx

/-- A transaction has written a number that is wrong once it commits. -/
def Stale (trg : Recount R K S C L) (st : State R K C) (id : Nat) : Prop :=
  ∃ tx, st.transactions.lookup id = some tx ∧ ¬ Current trg st.rows tx

theorem not_allCurrent_iff : ¬ AllCurrent trg st ↔ ∃ id, Stale trg st id := by
  simp only [AllCurrent, Stale, not_forall, exists_prop]

theorem allCurrent_of_idle (hidle : st.transactions = ∅) : AllCurrent trg st := by
  intro id tx h
  rw [hidle, AList.lookup_empty] at h
  cases h

theorem allCurrent_set (hall : AllCurrent trg st) (hcurrent : Current trg st.rows tx) :
    AllCurrent trg (st.set id tx) := by
  intro id' tx' h
  obtain ⟨-, rfl⟩ | ⟨-, hold⟩ := lookup_set_eq_some h
  · exact hcurrent
  · exact hall id' tx' hold

/-- What is written without being overtaken is the number once the transaction commits. -/
theorem current_write {queue : List C} {rows : List R} (hgood : Good trg st.rows tx)
    (hsnapshot : tx.snapshot = some rows) (hcurrent : Current trg st.rows tx)
    (hsame : trg.count rows c = trg.count st.rows c) :
    Current trg st.rows { tx with
      queue
      snapshot := none
      written := tx.written.insert c (trg.count (trg.view tx rows) c) } := by
  intro c' v hv
  by_cases hc : c' = c
  · subst hc
    rw [AList.lookup_insert, Option.some.injEq] at hv
    rw [← hv]
    exact (count_put_eq_iff (hgood.snapshot rows hsnapshot)).mpr hsame
  · rw [AList.lookup_insert_ne hc] at hv
    exact hcurrent c' v hv

/-- The commit puts right what was written, and keeps the other counters. -/
theorem right_commit (hgood : Good trg st.rows tx) (hqueue : tx.queue = [])
    (hright : trg.Right st) (hcurrent : Current trg st.rows tx) :
    trg.Right {
      rows := trg.view tx st.rows
      count := fun c => (tx.written.lookup c).getD (st.count c)
      transactions := st.transactions.erase id } := by
  intro c
  show (tx.written.lookup c).getD (st.count c) = trg.count (trg.view tx st.rows) c
  cases hv : tx.written.lookup c with
  | some v => exact hcurrent c v hv
  | none =>
    rw [Option.getD_none, hright c]
    exact (count_view_of_notMem hgood hqueue (AList.lookup_eq_none.mp hv)).symm

variable [DecidableEq L]

/-- A step that is not overtaken keeps the counters right. -/
theorem right_step (hinv : Inv trg st) (hright : trg.Right st) (hall : AllCurrent trg st)
    {a : Action S} (hsame : trg.NotOvertaken st a) (h : trg.step st a = some st') :
    trg.Right st' ∧ AllCurrent trg st' := by
  cases a with
  | execute id stmt =>
    obtain rfl | ⟨row, hid, hchange, hwaits, rfl⟩ := execute_eq_some h
    · exact ⟨hright, hall⟩
    · refine ⟨hright, allCurrent_set hall fun c v hv => ?_⟩
      rw [AList.lookup_empty] at hv
      cases hv
  | snapshot id =>
    obtain ⟨tx, htx, rfl⟩ := snapshot_eq_some h
    exact ⟨hright, allCurrent_set hall (hall id tx htx)⟩
  | write id =>
    obtain ⟨tx, c, queue, rows, htx, hqueue, hsnapshot, -, rfl⟩ := write_eq_some h
    have hsame' : trg.count rows c = trg.count st.rows c :=
      hsame tx htx rows hsnapshot c (by rw [hqueue]; rfl)
    exact ⟨hright, allCurrent_set hall
      (current_write (hinv.good htx) hsnapshot (hall id tx htx) hsame')⟩
  | commit id =>
    obtain ⟨tx, htx, hqueue, rfl⟩ := commit_eq_some h
    refine ⟨right_commit (hinv.good htx) hqueue hright (hall id tx htx), fun id' tx' h' c v hv => ?_⟩
    obtain ⟨hne, htx'⟩ := lookup_erase_eq_some.mp h'
    rw [count_view_commit hinv hne htx hqueue htx' (AList.lookup_isSome.mp (by rw [hv]; rfl))]
    exact hall id' tx' htx' c v hv
  | rollback id =>
    rw [rollback_eq_some h]
    exact ⟨hright, fun id' tx' h' => hall id' tx' (lookup_erase_eq_some.mp h').2⟩

/-- A statement that is overtaken writes such a number. -/
theorem stale_write (hinv : Inv trg st) (hover : ¬ trg.NotOvertaken st (.write id : Action S))
    (h : trg.step st (.write id) = some st') : Stale trg st' id := by
  obtain ⟨tx, c, queue, rows, htx, hqueue, hsnapshot, -, rfl⟩ := write_eq_some h
  refine ⟨_, lookup_set_self, fun hcurrent => hover ?_⟩
  have hwritten : trg.count (trg.view tx rows) c = trg.count (trg.view tx st.rows) c :=
    hcurrent c _ (AList.lookup_insert tx.written)
  intro tx' htx' rows' hrows' c' hc'
  obtain rfl : tx = tx' := Option.some.inj (htx.symm.trans htx')
  obtain rfl : rows = rows' := Option.some.inj (hsnapshot.symm.trans hrows')
  obtain rfl : c = c' := by
    rw [hqueue] at hc'
    exact Option.some.inj hc'
  exact (count_put_eq_iff ((hinv.good htx).snapshot rows hsnapshot)).mp hwritten

/-- It stays until the transaction commits, and then shows. -/
theorem stale_step (hinv : Inv trg st) (hstale : Stale trg st id) {a : Action S}
    (ha : a ≠ .rollback id) (h : trg.step st a = some st') :
    Stale trg st' id ∨ ¬ trg.Right st' := by
  obtain ⟨tx, htx, hnot⟩ := hstale
  simp only [Current, not_forall] at hnot
  obtain ⟨c, v, hv, hne⟩ := hnot
  have hset {id' : Nat} {tx' : Transaction R K C} (hid : id ≠ id') :
      Stale trg (st.set id' tx') id :=
    ⟨tx, (lookup_set_ne hid).trans htx, fun hcurrent => hne (hcurrent c v hv)⟩
  cases a with
  | execute id' stmt =>
    obtain rfl | ⟨row, hid', -, -, rfl⟩ := execute_eq_some h
    · exact .inl ⟨tx, htx, fun hcurrent => hne (hcurrent c v hv)⟩
    · refine .inl (hset fun hid => hid' ?_)
      rw [← hid, ← AList.lookup_isSome, htx]
      rfl
  | snapshot id' =>
    obtain ⟨tx', htx', rfl⟩ := snapshot_eq_some h
    by_cases hid : id = id'
    · subst hid
      obtain rfl : tx = tx' := Option.some.inj (htx.symm.trans htx')
      exact .inl ⟨_, lookup_set_self, fun hcurrent => hne (hcurrent c v hv)⟩
    · exact .inl (hset hid)
  | write id' =>
    obtain ⟨tx', c', queue, rows, htx', hqueue, -, -, rfl⟩ := write_eq_some h
    by_cases hid : id = id'
    · subst hid
      obtain rfl : tx = tx' := Option.some.inj (htx.symm.trans htx')
      -- the counter is written once
      have hcc : c ≠ c' := by
        intro hcc
        refine (hinv.good htx).once c' (by rw [hqueue]; exact List.mem_cons_self) ?_
        rw [← hcc, ← AList.lookup_isSome, hv]
        rfl
      refine .inl ⟨_, lookup_set_self, fun hcurrent => hne (hcurrent c v ?_)⟩
      rw [← hv]
      exact AList.lookup_insert_ne hcc
    · exact .inl (hset hid)
  | commit id' =>
    obtain ⟨tx', htx', hqueue, rfl⟩ := commit_eq_some h
    by_cases hid : id = id'
    · subst hid
      obtain rfl : tx = tx' := Option.some.inj (htx.symm.trans htx')
      refine .inr fun hright => hne ?_
      have hc := hright c
      change (tx.written.lookup c).getD (st.count c) = _ at hc
      rw [hv] at hc
      exact hc
    · refine .inl ⟨tx, lookup_erase_eq_some.mpr ⟨hid, htx⟩, fun hcurrent => hne ?_⟩
      rw [hcurrent c v hv]
      exact count_view_commit hinv hid htx' hqueue htx (AList.lookup_isSome.mp (by rw [hv]; rfl))
  | rollback id' =>
    rw [rollback_eq_some h]
    have hid : id ≠ id' := fun hid => ha (hid ▸ rfl)
    exact .inl ⟨tx, lookup_erase_eq_some.mpr ⟨hid, htx⟩, fun hcurrent => hne (hcurrent c v hv)⟩

end Counters

section Runs

variable [DecidableEq K] [DecidableEq C] [DecidableEq L] {s t : State R K C} {acts : List (Action S)}

/-- A number that is wrong shows before the transaction is gone, if that is not rolled back. -/
theorem stale_run {id : Nat} (hinv : Inv trg s) (hstale : Stale trg s id)
    (hr : trg.machine.run s acts = some t) (hend : t.transactions.lookup id = none)
    (hcommit : Action.rollback id ∉ acts) :
    ∃ bs cs u, acts = bs ++ cs ∧ trg.machine.run s bs = some u ∧ ¬ trg.Right u := by
  induction acts generalizing s with
  | nil =>
    obtain ⟨tx, htx, -⟩ := hstale
    obtain rfl : s = t := Option.some.inj hr
    rw [hend] at htx
    cases htx
  | cons a acts ih =>
    obtain ⟨s', hs, hr'⟩ := trg.machine.run_cons_eq_some.mp hr
    have ha : a ≠ .rollback id := fun h => hcommit (h ▸ List.mem_cons_self)
    have hcons {bs : List (Action S)} {u : State R K C} (hu : trg.machine.run s' bs = some u) :
        trg.machine.run s (a :: bs) = some u :=
      trg.machine.run_cons_eq_some.mpr ⟨s', hs, hu⟩
    obtain hstale' | hwrong := stale_step hinv hstale ha hs
    · obtain ⟨bs, cs, u, rfl, hu, hwrong⟩ := ih (inv_step hinv hs) hstale' hr'
        fun h => hcommit (List.mem_cons_of_mem _ h)
      exact ⟨a :: bs, cs, u, rfl, hcons hu, hwrong⟩
    · exact ⟨[a], acts, s', rfl, hcons rfl, hwrong⟩

/-- The counters are right throughout a run in which all transactions commit if and only if none
of its statements is overtaken. -/
theorem right_iff (hidle : s.transactions = ∅) (hkeys : (s.rows.map trg.key).Nodup)
    (hright : trg.Right s) (hr : trg.machine.run s acts = some t) (hend : t.transactions = ∅)
    (hcommit : ∀ id, Action.rollback id ∉ acts) :
    (∀ bs cs u, acts = bs ++ cs → trg.machine.run s bs = some u → trg.Right u) ↔
      trg.machine.Along trg.NotOvertaken s acts := by
  have hinv : Inv trg s := inv_of_idle hidle hkeys
  constructor
  · intro hall
    refine trg.machine.along_of_prefixes_holding (Q := fun u => trg.Right u ∧ AllCurrent trg u)
      (fun h hs => inv_step h hs) (fun {u a u'} h hQ hover hs hQ' => ?_) hinv hr ?_
    · cases a with
      | write id => exact not_allCurrent_iff.mpr ⟨id, stale_write h hover hs⟩ hQ'.2
      | execute id stmt => exact hover trivial
      | snapshot id => exact hover trivial
      | commit id => exact hover trivial
      | rollback id => exact hover trivial
    · intro bs cs u hacts hu
      subst hacts
      obtain ⟨u', hu', hrest⟩ := trg.machine.run_append_eq_some.mp hr
      obtain rfl : u = u' := Option.some.inj (hu.symm.trans hu')
      refine ⟨hall bs cs u rfl hu, ?_⟩
      by_contra hstale
      obtain ⟨id, hstale⟩ := not_allCurrent_iff.mp hstale
      have hinv' : Inv trg u := trg.machine.run_inv (fun h hs => inv_step h hs) hinv hu
      obtain ⟨bs', cs', v, rfl, hv, hwrong⟩ := stale_run hinv' hstale hrest
        (by rw [hend, AList.lookup_empty]) fun h => hcommit id (List.mem_append_right _ h)
      refine hwrong (hall (bs ++ bs') cs' v (List.append_assoc ..).symm ?_)
      exact trg.machine.run_append_eq_some.mpr ⟨u, hu, hv⟩
  · intro hsame bs cs u hacts hu
    subst hacts
    have hstep {u u' : State R K C} {a : Action S}
        (hI : Inv trg u ∧ trg.Right u ∧ AllCurrent trg u) (ha : trg.NotOvertaken u a)
        (hs : trg.machine.step u a = some u') : Inv trg u' ∧ trg.Right u' ∧ AllCurrent trg u' :=
      ⟨inv_step hI.1 hs, right_step hI.1 hI.2.1 hI.2.2 ha hs⟩
    exact (trg.machine.run_inv_along hstep ⟨hinv, hright, allCurrent_of_idle hidle⟩
      (trg.machine.along_append_left hsame) hu).2.1

end Runs

end Seiran.Sql.Recount
