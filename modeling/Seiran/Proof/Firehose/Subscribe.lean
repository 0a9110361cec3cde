import Seiran.Model.Firehose.Subscribe

/-!
# What a connection of subscribeRepos delivers

* `Inv`: with orderly steps, what has been sent on a connection is settled,
  and whatever is above its cursor has been sent or is still to come;
* `inv_step`: an orderly step keeps it;
* `backfill_ends`: a backfill that nothing interrupts sends every row above the
  cursor.
-/

namespace Seiran.Firehose

/-! ## The event log -/

theorem pairwise_orderedInsert {l : List Nat} {i : Nat} (h : l.Pairwise (· < ·)) (hi : i ∉ l) :
    (l.orderedInsert (· ≤ ·) i).Pairwise (· < ·) := by
  induction l with
  | nil => simp
  | cons a l ih =>
    obtain ⟨ha, hl⟩ := List.pairwise_cons.mp h
    have hne : i ≠ a := fun h => hi (by simp [h])
    have hnot : i ∉ l := fun h => hi (by simp [h])
    rw [List.orderedInsert_cons]
    split
    · rename_i hle
      refine List.pairwise_cons.mpr ⟨fun b hb => ?_, h⟩
      rcases List.mem_cons.mp hb with rfl | hb
      · omega
      · have := ha b hb
        omega
    · refine List.pairwise_cons.mpr ⟨fun b hb => ?_, ih hl hnot⟩
      rcases List.mem_orderedInsert _ |>.mp hb with rfl | hb
      · omega
      · exact ha b hb

theorem mem_findEventsAfter {committed : List Nat} {cursor limit i : Nat}
    (h : i ∈ findEventsAfter committed cursor limit) : i ∈ committed ∧ cursor < i := by
  simpa using List.mem_filter.mp (List.mem_of_mem_take h)

theorem pairwise_findEventsAfter {committed : List Nat} (h : committed.Pairwise (· < ·))
    (cursor limit : Nat) : (findEventsAfter committed cursor limit).Pairwise (· < ·) :=
  (h.filter _).sublist (List.take_sublist _ _)

/-- A row above the cursor is on the page, or above a page that is full. -/
theorem findEventsAfter_cases {committed : List Nat} (h : committed.Pairwise (· < ·))
    {cursor limit i : Nat} (hi : i ∈ committed) (hc : cursor < i) :
    i ∈ findEventsAfter committed cursor limit ∨
      (findEventsAfter committed cursor limit).length = limit ∧
        ∀ r ∈ findEventsAfter committed cursor limit, r < i := by
  have hmem : i ∈ committed.filter (cursor < ·) := by simpa [hi] using hc
  rw [← List.take_append_drop limit (committed.filter (cursor < ·)), List.mem_append] at hmem
  refine hmem.imp_right fun hdrop => ⟨?_, fun r hr => ?_⟩
  · have := List.length_pos_of_mem hdrop
    rw [List.length_drop] at this
    rw [findEventsAfter, List.length_take]
    omega
  · have hp := h.filter (cursor < ·)
    rw [← List.take_append_drop limit (committed.filter (cursor < ·))] at hp
    exact (List.pairwise_append.mp hp).2.2 r hr i hdrop

/-! ## The invariant -/

/-- A row that the backfill has still to send. -/
def Upcoming (c : Conn) (i : Nat) : Prop :=
  match c.phase with
  | .fetching => c.cursor < i
  | .sending rows final => i ∈ rows ∨ (final = false ∧ c.cursor < i ∧ ∀ r ∈ rows, r < i)
  | .live => False

/-- The rows of a page are in order and above what has been sent. -/
def PageInv (committed : List Nat) (c : Conn) : Prop :=
  match c.phase with
  | .fetching => ∀ m ∈ c.sent, m ≤ c.cursor
  | .sending rows _ => (∀ m ∈ c.sent, m ≤ c.cursor) ∧ rows.Pairwise (· < ·) ∧
      ∀ r ∈ rows, c.cursor < r ∧ r ∈ committed
  | .live => True

structure ConnInv (s : State) (c : Conn) : Prop where
  start : c.start = s.seen
  sent_committed : ∀ i ∈ c.sent, i ∈ s.committed
  queue_committed : ∀ i ∈ c.queue, i ∈ s.committed
  increasing : c.sent.Pairwise (· < ·)
  settled : ∀ m ∈ c.sent, Settled s c.queue m
  page : PageInv s.committed c
  noSkip : ∀ i ∈ s.committed, c.start < i → ∀ m ∈ c.sent, i ≤ m → i ∈ c.sent
  covered : ∀ i ∈ s.committed, c.start < i →
    i ∈ c.sent ∨ i ∈ c.queue ∨ i ∈ s.unpublished ∨ Upcoming c i

structure Inv (cursor : Nat) (s : State) : Prop where
  inflight_lt : ∀ i ∈ s.inflight, i < s.nextId
  committed_lt : ∀ i ∈ s.committed, i < s.nextId
  disjoint : ∀ i ∈ s.inflight, i ∉ s.committed
  sorted : s.committed.Pairwise (· < ·)
  unpublished_committed : ∀ i ∈ s.unpublished, i ∈ s.committed
  seen_received : ∀ i ∈ s.committed, cursor < i → i ≤ s.seen → i ∈ s.received
  seen_lt : ∀ i ∈ s.inflight, cursor < i → s.seen < i
  seen_cases : s.seen = cursor ∨ s.seen < s.nextId
  conn : ∀ c ∈ s.conn, ConnInv s c

theorem inv_init (cursor : Nat) : Inv cursor (init cursor) where
  inflight_lt := by simp [init]
  committed_lt := by simp [init]
  disjoint := by simp [init]
  sorted := by simp [init]
  unpublished_committed := by simp [init]
  seen_received := by simp [init]
  seen_lt := by simp [init]
  seen_cases := .inl rfl
  conn := by simp [init]

/-! ## The writers -/

section Steps

variable {cursor i : Nat} {s s' : State} {c c' : Conn}

theorem inv_begin (h : Inv cursor s) (hs : step s .begin = some s') : Inv cursor s' := by
  cases hs
  have hfresh : s.nextId ∉ s.committed := fun hm => Nat.lt_irrefl _ (h.committed_lt _ hm)
  refine ⟨?_, fun i hi => Nat.lt_succ_of_lt (h.committed_lt i hi), ?_, h.sorted,
    h.unpublished_committed, h.seen_received, ?_, ?_, fun c hc => ?_⟩
  · simp only [List.mem_cons, forall_eq_or_imp, Nat.lt_add_one, true_and]
    exact fun i hi => Nat.lt_succ_of_lt (h.inflight_lt i hi)
  · simp only [List.mem_cons, forall_eq_or_imp]
    exact ⟨hfresh, h.disjoint⟩
  · simp only [List.mem_cons, forall_eq_or_imp]
    refine ⟨fun hlt => ?_, h.seen_lt⟩
    rcases h.seen_cases with heq | hseen <;> omega
  · rcases h.seen_cases with heq | hseen
    · exact .inl heq
    · exact .inr (Nat.lt_succ_of_lt hseen)
  · have hci := h.conn c hc
    refine { hci with settled := fun m hm => ?_ }
    obtain ⟨hfl, hup, hq⟩ := hci.settled m hm
    refine ⟨?_, hup, hq⟩
    simp only [List.mem_cons, forall_eq_or_imp]
    exact ⟨h.committed_lt m (hci.sent_committed m hm), hfl⟩

theorem inv_abort (h : Inv cursor s) (hs : step s (.abort i) = some s') : Inv cursor s' := by
  simp only [step, Option.ite_none_right_eq_some, Option.some.injEq] at hs
  obtain ⟨hi, rfl⟩ := hs
  have hsub : ∀ j ∈ s.inflight.filter (· ≠ i), j ∈ s.inflight := fun j hj =>
    (List.mem_filter.mp hj).1
  refine { h with
    inflight_lt := fun j hj => h.inflight_lt j (hsub j hj)
    disjoint := fun j hj => h.disjoint j (hsub j hj)
    seen_lt := fun j hj => h.seen_lt j (hsub j hj)
    conn := fun c hc => { h.conn c hc with settled := fun m hm => ?_ } }
  obtain ⟨hfl, hup, hq⟩ := (h.conn c hc).settled m hm
  exact ⟨fun j hj => hfl j (hsub j hj), hup, hq⟩

theorem pageInv_mono {committed committed' : List Nat} (hsub : ∀ i ∈ committed, i ∈ committed')
    (h : PageInv committed c) : PageInv committed' c := by
  unfold PageInv at h ⊢
  split at h
  · exact h
  · exact ⟨h.1, h.2.1, fun r hr => ⟨(h.2.2 r hr).1, hsub r (h.2.2 r hr).2⟩⟩
  · trivial

theorem inv_commit (h : Inv cursor s) (hs : step s (.commit i) = some s') : Inv cursor s' := by
  simp only [step, Option.ite_none_right_eq_some, Option.some.injEq] at hs
  obtain ⟨hi, rfl⟩ := hs
  have hsub : ∀ j ∈ s.inflight.filter (· ≠ i), j ∈ s.inflight ∧ j ≠ i := fun j hj => by
    simpa using List.mem_filter.mp hj
  have hmem : ∀ j, j ∈ s.committed.orderedInsert (· ≤ ·) i ↔ j = i ∨ j ∈ s.committed := fun j =>
    List.mem_orderedInsert _
  refine ⟨fun j hj => h.inflight_lt j (hsub j hj).1, fun j hj => ?_, fun j hj hc => ?_,
    pairwise_orderedInsert h.sorted (h.disjoint i hi), fun j hj => ?_, fun j hj hlt hle => ?_,
    fun j hj => h.seen_lt j (hsub j hj).1, h.seen_cases, fun c hc => ?_⟩
  · rcases (hmem j).mp hj with rfl | hj
    · exact h.inflight_lt j hi
    · exact h.committed_lt j hj
  · rcases (hmem j).mp hc with rfl | hc
    · exact (hsub j hj).2 rfl
    · exact h.disjoint j (hsub j hj).1 hc
  · rcases List.mem_append.mp hj with hj | hj
    · exact (hmem j).mpr (.inr (h.unpublished_committed j hj))
    · exact (hmem j).mpr (.inl (List.mem_singleton.mp hj))
  · rcases (hmem j).mp hj with rfl | hj
    · exact absurd (h.seen_lt j hi hlt) (Nat.not_lt.mpr hle)
    · exact h.seen_received j hj hlt hle
  · have hci := h.conn c hc
    -- the new row is above whatever has been sent
    have hnew : ∀ m ∈ c.sent, m < i := fun m hm => (hci.settled m hm).1 i hi
    refine ⟨hci.start, fun j hj => (hmem j).mpr (.inr (hci.sent_committed j hj)),
      fun j hj => (hmem j).mpr (.inr (hci.queue_committed j hj)), hci.increasing, fun m hm => ?_,
      pageInv_mono (fun j hj => (hmem j).mpr (.inr hj)) hci.page, fun j hj hlt m hm hle => ?_,
      fun j hj hlt => ?_⟩
    · obtain ⟨hfl, hup, hq⟩ := hci.settled m hm
      refine ⟨fun j hj => hfl j (hsub j hj).1, fun j hj => ?_, hq⟩
      rcases List.mem_append.mp hj with hj | hj
      · exact hup j hj
      · exact List.mem_singleton.mp hj ▸ hnew m hm
    · rcases (hmem j).mp hj with rfl | hj
      · exact absurd (hnew m hm) (Nat.not_lt.mpr hle)
      · exact hci.noSkip j hj hlt m hm hle
    · rcases (hmem j).mp hj with rfl | hj
      · exact .inr (.inr (.inl (by simp)))
      · exact (hci.covered j hj hlt).imp_right (.imp_right (.imp_left fun hj => by simp [hj]))

theorem push_of_lt (hfit : c.queue.length < ATP_EVENTS_CAPACITY) :
    c.push i = { c with queue := c.queue ++ [i] } := by
  have hlen : (c.queue ++ [i]).length - ATP_EVENTS_CAPACITY = 0 := by
    rw [List.length_append, List.length_singleton]
    omega
  simp only [Conn.push, hlen, List.drop_zero]

theorem inv_publish (h : Inv cursor s) (ho : Orderly s (.publish i))
    (hs : step s (.publish i) = some s') : Inv cursor s' := by
  simp only [step, Option.ite_none_right_eq_some, Option.some.injEq] at hs
  obtain ⟨hi, rfl⟩ := hs
  have hsub : ∀ j ∈ s.unpublished.filter (· ≠ i), j ∈ s.unpublished := fun j hj =>
    (List.mem_filter.mp hj).1
  refine { h with
    unpublished_committed := fun j hj => h.unpublished_committed j (hsub j hj)
    conn := fun c' hc' => ?_ }
  obtain ⟨c, hc, rfl⟩ := Option.map_eq_some_iff.mp hc'
  rw [push_of_lt (ho c hc)]
  have hci := h.conn c hc
  refine { hci with
    queue_committed := fun j hj => ?_
    settled := fun m hm => ?_
    covered := fun j hj hlt => ?_ }
  · rcases List.mem_append.mp hj with hj | hj
    · exact hci.queue_committed j hj
    · exact List.mem_singleton.mp hj ▸ h.unpublished_committed i hi
  · obtain ⟨hfl, hup, hq⟩ := hci.settled m hm
    refine ⟨hfl, fun j hj => hup j (hsub j hj), fun j hj => ?_⟩
    rcases List.mem_append.mp hj with hj | hj
    · exact hq j hj
    · exact List.mem_singleton.mp hj ▸ hup i hi
  · rcases hci.covered j hj hlt with hj | hj | hj | hj
    · exact .inl hj
    · exact .inr (.inl (by simp [hj]))
    · by_cases heq : j = i
      · exact .inr (.inl (by simp [heq]))
      · exact .inr (.inr (.inl (by simp [hj, heq])))
    · exact .inr (.inr (.inr hj))

/-! ## The handler -/

theorem onConn_eq_some {f : Conn → Option Conn} :
    onConn s f = some s' ↔ ∃ c c', s.conn = some c ∧ f c = some c' ∧ s' = { s with conn := some c' } := by
  simp only [onConn, Option.bind_eq_some_iff, Option.map_eq_some_iff]
  constructor
  · rintro ⟨c, hc, c', hf, rfl⟩
    exact ⟨c, c', hc, hf, rfl⟩
  · rintro ⟨c, c', hc, hf, rfl⟩
    exact ⟨c, hc, c', hf, rfl⟩

/-- A step of the handler changes nothing but its connection. -/
theorem inv_onConn (h : Inv cursor s) {f : Conn → Option Conn}
    (hf : ∀ c c', s.conn = some c → ConnInv s c → f c = some c' →
      ConnInv { s with conn := some c' } c')
    (hs : onConn s f = some s') : Inv cursor s' := by
  obtain ⟨c, c', hc, hfc, rfl⟩ := onConn_eq_some.mp hs
  refine { h with conn := fun c₁ hc₁ => ?_ }
  cases hc₁
  exact hf c c' hc (h.conn c hc) hfc

theorem fetchPage_eq_some {committed : List Nat} (hf : c.fetchPage committed = some c') :
    c.phase = .fetching ∧ ∃ events, events = findEventsAfter committed c.cursor BACKFILL_PAGE_SIZE ∧
      c' = { c with phase := .sending events (events.length < BACKFILL_PAGE_SIZE) } := by
  unfold Conn.fetchPage at hf
  split at hf
  · rename_i hphase
    cases hf
    exact ⟨hphase, _, rfl, rfl⟩
  · cases hf

theorem inv_fetchPage (h : Inv cursor s) (hs : step s .fetchPage = some s') : Inv cursor s' := by
  refine inv_onConn h (fun c c' _ hci hf => ?_) hs
  obtain ⟨hphase, events, hev, rfl⟩ := fetchPage_eq_some hf
  have hpage := hci.page
  simp only [PageInv, hphase] at hpage
  refine { hci with page := ⟨hpage, ?_, ?_⟩, covered := fun j hj hlt => ?_ }
  · exact hev ▸ pairwise_findEventsAfter h.sorted _ _
  · exact fun r hr => (mem_findEventsAfter (hev ▸ hr)).symm
  · refine (hci.covered j hj hlt).imp_right (.imp_right (.imp_right fun hup => ?_))
    simp only [Upcoming, hphase] at hup
    refine (findEventsAfter_cases h.sorted hj hup).imp (fun hm => hev ▸ hm) fun hfull => ?_
    exact ⟨by simp [hev, hfull.1], hup, hev ▸ hfull.2⟩

theorem sendRow_eq_some (hf : c.sendRow = some c') :
    ∃ i rows final, c.phase = .sending (i :: rows) final ∧
      c' = { c with cursor := i, phase := .sending rows final, sent := c.sent ++ [i] } := by
  unfold Conn.sendRow at hf
  split at hf
  · rename_i i rows final hphase
    cases hf
    exact ⟨i, rows, final, hphase, rfl⟩
  · cases hf

theorem inv_sendRow (h : Inv cursor s) (ho : Orderly s .sendRow) (hs : step s .sendRow = some s') :
    Inv cursor s' := by
  refine inv_onConn h (fun c c' hc hci hf => ?_) hs
  obtain ⟨i, rows, final, hphase, rfl⟩ := sendRow_eq_some hf
  have hset := ho c hc
  simp only [Conn.orderly, hphase] at hset
  have hpage := hci.page
  simp only [PageInv, hphase, List.pairwise_cons, List.mem_cons, forall_eq_or_imp] at hpage
  obtain ⟨hle, ⟨hrows, hpw⟩, ⟨hci_lt, hi⟩, hrest⟩ := hpage
  have hcov : ∀ j ∈ s.committed, c.start < j → j ∈ c.sent ∨ j = i ∨ j ∈ c.queue ∨
      j ∈ s.unpublished ∨ j ∈ rows ∨ (final = false ∧ i < j ∧ ∀ r ∈ rows, r < j) := by
    intro j hj hlt
    have := hci.covered j hj hlt
    simp only [Upcoming, hphase, List.mem_cons, forall_eq_or_imp] at this
    tauto
  refine { hci with
    sent_committed := fun j hj => ?_
    increasing := ?_
    settled := fun m hm => ?_
    page := ?_
    noSkip := fun j hj hlt m hm hjm => ?_
    covered := fun j hj hlt => ?_ }
  · rcases List.mem_append.mp hj with hj | hj
    · exact hci.sent_committed j hj
    · exact List.mem_singleton.mp hj ▸ hi
  · refine List.pairwise_append.mpr ⟨hci.increasing, List.pairwise_singleton _ _, fun m hm j hj => ?_⟩
    rw [List.mem_singleton.mp hj]
    exact Nat.lt_of_le_of_lt (hle m hm) hci_lt
  · rcases List.mem_append.mp hm with hm | hm
    · exact hci.settled m hm
    · exact List.mem_singleton.mp hm ▸ hset
  · refine ⟨fun m hm => ?_, hpw, fun r hr => ⟨hrows r hr, (hrest r hr).2⟩⟩
    rcases List.mem_append.mp hm with hm | hm
    · exact Nat.le_of_lt (Nat.lt_of_le_of_lt (hle m hm) hci_lt)
    · exact Nat.le_of_eq (List.mem_singleton.mp hm)
  · rcases List.mem_append.mp hm with hm | hm
    · exact List.mem_append_left _ (hci.noSkip j hj hlt m hm hjm)
    · rw [List.mem_singleton.mp hm] at hjm
      rcases hcov j hj hlt with hj' | rfl | hj' | hj' | hj' | ⟨-, hj', -⟩
      · exact List.mem_append_left _ hj'
      · simp
      · exact absurd (hset.2.2 j hj') (Nat.not_lt.mpr hjm)
      · exact absurd (hset.2.1 j hj') (Nat.not_lt.mpr hjm)
      · exact absurd (hrows j hj') (Nat.not_lt.mpr hjm)
      · exact absurd hj' (Nat.not_lt.mpr hjm)
  · have := hcov j hj hlt
    simp only [List.mem_append, List.mem_singleton, Upcoming]
    tauto

theorem endPage_eq_some (hf : c.endPage = some c') :
    ∃ final, c.phase = .sending [] final ∧
      c' = { c with phase := if final then .live else .fetching } := by
  unfold Conn.endPage at hf
  split at hf
  · rename_i final hphase
    cases hf
    exact ⟨final, hphase, rfl⟩
  · cases hf

theorem inv_endPage (h : Inv cursor s) (hs : step s .endPage = some s') : Inv cursor s' := by
  refine inv_onConn h (fun c c' hc hci hf => ?_) hs
  obtain ⟨final, hphase, rfl⟩ := endPage_eq_some hf
  have hpage := hci.page
  simp only [PageInv, hphase] at hpage
  refine { hci with page := ?_, covered := fun j hj hlt => ?_ }
  · cases final
    · exact hpage.1
    · trivial
  · refine (hci.covered j hj hlt).imp_right (.imp_right (.imp_right fun hup => ?_))
    simp only [Upcoming, hphase, List.not_mem_nil, false_or] at hup
    obtain ⟨rfl, hlt, -⟩ := hup
    exact hlt

theorem recv_eq_some (hf : c.recv = some c') :
    ∃ i queue, c.phase = .live ∧ c.queue = i :: queue ∧
      c' = { c with queue, sent := c.sent ++ [i] } := by
  unfold Conn.recv at hf
  split at hf
  · rename_i i queue hphase hqueue
    cases hf
    exact ⟨i, queue, hphase, hqueue, rfl⟩
  · cases hf

theorem inv_recv (h : Inv cursor s) (ho : Orderly s .recv) (hs : step s .recv = some s') :
    Inv cursor s' := by
  refine inv_onConn h (fun c c' hc hci hf => ?_) hs
  obtain ⟨i, queue, hphase, hqueue, rfl⟩ := recv_eq_some hf
  have hset := ho c hc
  simp only [Conn.orderly, hqueue] at hset
  have hcov : ∀ j ∈ s.committed, c.start < j → j ∈ c.sent ∨ j = i ∨ j ∈ queue ∨
      j ∈ s.unpublished := by
    intro j hj hlt
    have := hci.covered j hj hlt
    simp only [Upcoming, hphase, hqueue, List.mem_cons, or_false] at this
    tauto
  refine { hci with
    sent_committed := fun j hj => ?_
    queue_committed := fun j hj => hci.queue_committed j (by simp [hqueue, hj])
    increasing := ?_
    settled := fun m hm => ?_
    page := by simp only [PageInv, hphase]
    noSkip := fun j hj hlt m hm hjm => ?_
    covered := fun j hj hlt => ?_ }
  · rcases List.mem_append.mp hj with hj | hj
    · exact hci.sent_committed j hj
    · exact List.mem_singleton.mp hj ▸ hci.queue_committed i (by simp [hqueue])
  · refine List.pairwise_append.mpr ⟨hci.increasing, List.pairwise_singleton _ _, fun m hm j hj => ?_⟩
    rw [List.mem_singleton.mp hj]
    exact (hci.settled m hm).2.2 i (by simp [hqueue])
  · rcases List.mem_append.mp hm with hm | hm
    · obtain ⟨hfl, hup, hq⟩ := hci.settled m hm
      exact ⟨hfl, hup, fun j hj => hq j (by simp [hqueue, hj])⟩
    · exact List.mem_singleton.mp hm ▸ hset
  · rcases List.mem_append.mp hm with hm | hm
    · exact List.mem_append_left _ (hci.noSkip j hj hlt m hm hjm)
    · rw [List.mem_singleton.mp hm] at hjm
      rcases hcov j hj hlt with hj' | rfl | hj' | hj'
      · exact List.mem_append_left _ hj'
      · simp
      · exact absurd (hset.2.2 j hj') (Nat.not_lt.mpr hjm)
      · exact absurd (hset.2.1 j hj') (Nat.not_lt.mpr hjm)
  · have := hcov j hj hlt
    simp only [List.mem_append, List.mem_singleton]
    tauto

/-! ## The client -/

theorem connInv_new (s : State) :
    ConnInv { s with conn := some (Conn.new s.seen) } (Conn.new s.seen) where
  start := rfl
  sent_committed := by simp [Conn.new]
  queue_committed := by simp [Conn.new]
  increasing := List.Pairwise.nil
  settled := by simp [Conn.new]
  page := by simp [PageInv, Conn.new]
  noSkip := by simp [Conn.new]
  covered := fun j _ hlt => .inr (.inr (.inr hlt))

theorem inv_connect (h : Inv cursor s) (hs : step s .connect = some s') : Inv cursor s' := by
  simp only [step, Option.ite_none_right_eq_some, Option.some.injEq] at hs
  obtain ⟨-, rfl⟩ := hs
  refine { h with conn := fun c hc => ?_ }
  cases hc
  exact connInv_new s

/-- What is below the last frame the client saw, it saw. -/
theorem mem_take_of_le {l : List Nat} (h : l.Pairwise (· < ·)) {k m : Nat}
    (hm : (l.take k).getLast? = some m) (hi : i ∈ l) (hle : i ≤ m) : i ∈ l.take k := by
  rw [← List.take_append_drop k l, List.mem_append] at hi
  refine hi.resolve_right fun hdrop => ?_
  rw [← List.take_append_drop k l] at h
  have := (List.pairwise_append.mp h).2.2 m (List.mem_of_getLast? hm) i hdrop
  omega

theorem inv_disconnect {k : Nat} (h : Inv cursor s) (hs : step s (.disconnect k) = some s') :
    Inv cursor s' := by
  obtain ⟨c, hc, rfl⟩ := Option.map_eq_some_iff.mp hs
  have hci := h.conn c hc
  cases hlast : (c.sent.take k).getLast? with
  | none =>
    have hnil : c.sent.take k = [] := List.getLast?_eq_none_iff.mp hlast
    simp only [hnil, List.append_nil, Option.getD_none]
    exact { h with conn := by simp }
  | some m =>
    have hm : m ∈ c.sent := List.mem_of_mem_take (List.mem_of_getLast? hlast)
    have hmc := hci.sent_committed m hm
    refine { h with
      seen_received := fun j hj hlt hle => ?_
      seen_lt := fun j hj hlt => (hci.settled m hm).1 j hj
      seen_cases := .inr (h.committed_lt m hmc)
      conn := by simp }
    rw [List.mem_append]
    by_cases hseen : j ≤ s.seen
    · exact .inl (h.seen_received j hj hlt hseen)
    · have hstart : c.start < j := by
        rw [hci.start]
        omega
      exact .inr (mem_take_of_le hci.increasing hlast (hci.noSkip j hj hstart m hm hle) hle)

theorem inv_step {a : Action} (h : Inv cursor s) (ho : Orderly s a) (hs : step s a = some s') :
    Inv cursor s' := by
  cases a with
  | begin => exact inv_begin h hs
  | commit i => exact inv_commit h hs
  | abort i => exact inv_abort h hs
  | publish i => exact inv_publish h ho hs
  | connect => exact inv_connect h hs
  | fetchPage => exact inv_fetchPage h hs
  | fetchFails =>
    obtain ⟨c, c', hc, -⟩ := onConn_eq_some.mp hs
    exact (ho c hc).elim
  | sendRow => exact inv_sendRow h ho hs
  | endPage => exact inv_endPage h hs
  | recv => exact inv_recv h ho hs
  | disconnect k => exact inv_disconnect h hs

end Steps

/-! ## A backfill that nothing interrupts -/

theorem run_step {s t : State} {a : Action} (h : step s a = some t) (as : List Action) :
    machine.run s (a :: as) = machine.run t as := by
  rw [Machine.run_cons]
  exact congrArg (Option.bind · fun s' => machine.run s' as) h

theorem run_sendRows {s : State} {c : Conn} {rows : List Nat} {final : Bool} (hc : s.conn = some c)
    (hphase : c.phase = .sending rows final) :
    machine.run s (List.replicate rows.length .sendRow) =
      some { s with conn := some { c with
        cursor := rows.getLast?.getD c.cursor, phase := .sending [] final, sent := c.sent ++ rows } } := by
  induction rows generalizing s c with
  | nil =>
    obtain ⟨start, cur, queue, phase, sent⟩ := c
    cases hphase
    simp [← hc]
  | cons i rows ih =>
    have hstep : step s .sendRow = some { s with conn := some { c with
        cursor := i, phase := .sending rows final, sent := c.sent ++ [i] } } :=
      onConn_eq_some.mpr ⟨c, _, hc, by simp only [Conn.sendRow, hphase], rfl⟩
    rw [List.length_cons, List.replicate_succ, run_step hstep, ih rfl rfl]
    simp [List.getLast?_cons]

theorem step_endPage {s : State} {c : Conn} {final : Bool} (hc : s.conn = some c)
    (hphase : c.phase = .sending [] final) :
    step s .endPage =
      some { s with conn := some { c with phase := if final then .live else .fetching } } :=
  onConn_eq_some.mpr ⟨c, _, hc, by simp only [Conn.endPage, hphase], rfl⟩

/-- The connection after a page. -/
def afterPage (committed : List Nat) (c : Conn) : Conn :=
  let page := findEventsAfter committed c.cursor BACKFILL_PAGE_SIZE
  { c with
    cursor := page.getLast?.getD c.cursor
    phase := if page.length < BACKFILL_PAGE_SIZE then .live else .fetching
    sent := c.sent ++ page }

theorem run_page {s : State} {c : Conn} (hc : s.conn = some c) (hphase : c.phase = .fetching) :
    ∃ as, (∀ a ∈ as, a.isBackfill = true) ∧
      machine.run s as = some { s with conn := some (afterPage s.committed c) } := by
  let page := findEventsAfter s.committed c.cursor BACKFILL_PAGE_SIZE
  have hfetch : step s .fetchPage = some { s with conn := some { c with
      phase := .sending page (page.length < BACKFILL_PAGE_SIZE) } } :=
    onConn_eq_some.mpr ⟨c, _, hc, by simp only [Conn.fetchPage, hphase]; rfl, rfl⟩
  refine ⟨.fetchPage :: (List.replicate page.length .sendRow ++ [.endPage]), ?_, ?_⟩
  · simp only [List.mem_cons, List.mem_append, List.mem_replicate]
    rintro a (rfl | ⟨-, rfl⟩ | rfl | h)
    · rfl
    · rfl
    · rfl
    · cases h
  · rw [run_step hfetch, Machine.run_append, run_sendRows rfl rfl, Option.bind_some]
    rw [run_step (step_endPage rfl rfl), Machine.run_nil]
    simp only [afterPage, page, decide_eq_true_eq]

/-- After a full page fewer rows are above the cursor. -/
theorem afterPage_fewer {committed : List Nat} {c : Conn}
    (hfull : (findEventsAfter committed c.cursor BACKFILL_PAGE_SIZE).length = BACKFILL_PAGE_SIZE) :
    (committed.filter ((afterPage committed c).cursor < ·)).length <
      (committed.filter (c.cursor < ·)).length := by
  have hne : findEventsAfter committed c.cursor BACKFILL_PAGE_SIZE ≠ [] := by
    rintro hnil
    rw [hnil] at hfull
    cases hfull
  have hlast : (afterPage committed c).cursor ∈
      findEventsAfter committed c.cursor BACKFILL_PAGE_SIZE := by
    simp only [afterPage, List.getLast?_eq_some_getLast hne, Option.getD_some, List.getLast_mem]
  obtain ⟨hmem, hlt⟩ := mem_findEventsAfter hlast
  have hsub : committed.filter ((afterPage committed c).cursor < ·) =
      (committed.filter (c.cursor < ·)).filter ((afterPage committed c).cursor < ·) := by
    rw [List.filter_filter]
    refine List.filter_congr fun i _ => ?_
    by_cases h : (afterPage committed c).cursor < i
    · simp [h, Nat.lt_trans hlt h]
    · simp [h]
  rw [hsub]
  refine List.length_filter_lt_length_iff_exists.mpr ⟨(afterPage committed c).cursor, ?_, by simp⟩
  exact List.mem_filter.mpr ⟨hmem, by simpa using hlt⟩

/-- A backfill that nothing interrupts sends every row above the cursor. -/
theorem backfill_ends {s : State} (hsorted : s.committed.Pairwise (· < ·)) {c : Conn}
    (hc : s.conn = some c) (hphase : c.phase = .fetching) :
    ∃ as c', (∀ a ∈ as, a.isBackfill = true) ∧
      machine.run s as = some { s with conn := some c' } ∧ c'.phase = .live ∧
      (∀ m ∈ c.sent, m ∈ c'.sent) ∧ ∀ i ∈ s.committed, c.cursor < i → i ∈ c'.sent := by
  -- the rows above the cursor get fewer from page to page
  generalize hn : (s.committed.filter (c.cursor < ·)).length = n
  induction n using Nat.strong_induction_on generalizing s c with
  | _ n ih =>
    obtain ⟨as, has, hrun⟩ := run_page hc hphase
    by_cases hshort : (findEventsAfter s.committed c.cursor BACKFILL_PAGE_SIZE).length <
        BACKFILL_PAGE_SIZE
    · refine ⟨as, _, has, hrun, by simp only [afterPage, hshort, ↓reduceIte], fun m hm => ?_,
        fun i hi hlt => ?_⟩
      · exact List.mem_append_left _ hm
      · refine List.mem_append_right _ ((findEventsAfter_cases hsorted hi hlt).resolve_right ?_)
        exact fun hfull => Nat.ne_of_lt hshort hfull.1
    · have hfull : (findEventsAfter s.committed c.cursor BACKFILL_PAGE_SIZE).length =
          BACKFILL_PAGE_SIZE := Nat.le_antisymm (List.length_take_le _ _) (Nat.not_lt.mp hshort)
      have hfew := afterPage_fewer hfull
      obtain ⟨as', c', has', hrun', hlive, hsent, hall⟩ := ih _ (hn ▸ hfew)
        (s := { s with conn := some (afterPage s.committed c) }) hsorted rfl
        (by simp only [afterPage, hshort, ↓reduceIte]) rfl
      refine ⟨as ++ as', c', fun a ha => ?_, ?_, hlive, fun m hm => ?_, fun i hi hlt => ?_⟩
      · exact (List.mem_append.mp ha).elim (has a) (has' a)
      · rw [Machine.run_append, hrun]
        exact hrun'
      · exact hsent m (List.mem_append_left _ hm)
      · rcases findEventsAfter_cases hsorted hi hlt with hpage | ⟨-, habove⟩
        · exact hsent i (List.mem_append_right _ hpage)
        · refine hall i hi ?_
          have hne : findEventsAfter s.committed c.cursor BACKFILL_PAGE_SIZE ≠ [] := by
            rintro hnil
            rw [hnil] at hfull
            cases hfull
          simp only [afterPage, List.getLast?_eq_some_getLast hne, Option.getD_some]
          exact habove _ (List.getLast_mem hne)

/-! ## Delivery -/

theorem Inv.increasing {cursor : Nat} {s : State} (h : Inv cursor s) : Increasing s :=
  fun c hc => (h.conn c hc).increasing

theorem catchesUp_of_closed {cursor : Nat} {s : State} (h : Inv cursor s) (hc : s.conn = none) :
    ∃ as t, (∀ a ∈ as, a.isBackfill = true) ∧ machine.run s (.connect :: as) = some t ∧
      (∀ c ∈ t.conn, c.phase = .live) ∧ ∀ i ∈ s.committed, cursor < i → i ∈ t.delivered := by
  have hconnect : step s .connect = some { s with conn := some (Conn.new s.seen) } := by
    simp [step, hc]
  obtain ⟨as, c', has, hrun, hlive, -, hall⟩ :=
    backfill_ends (s := { s with conn := some (Conn.new s.seen) }) h.sorted rfl rfl
  refine ⟨as, _, has, by rw [run_step hconnect]; exact hrun, ?_, fun i hi hlt => ?_⟩
  · rintro c ⟨⟩
    exact hlive
  · simp only [State.delivered, Option.elim_some, List.mem_append]
    by_cases hle : i ≤ s.seen
    · exact .inl (h.seen_received i hi hlt hle)
    · exact .inr (hall i hi (Nat.lt_of_not_le hle))

theorem Inv.catchesUp {cursor : Nat} {s : State} (h : Inv cursor s) : CatchesUp cursor s := by
  intro k
  cases hc : s.conn with
  | none =>
    simp only [reconnect, hc]
    exact catchesUp_of_closed h hc
  | some c =>
    have hdis : step s (.disconnect k) = some { s with
        seen := ((c.sent.take k).getLast?).getD s.seen
        received := s.received ++ c.sent.take k
        conn := none } := by
      simp only [step, hc, Option.map_some]
    obtain ⟨as, t, has, hrun, hlive, hall⟩ := catchesUp_of_closed (inv_disconnect h hdis) rfl
    refine ⟨as, t, has, ?_, hlive, hall⟩
    simp only [reconnect, hc, List.cons_append, List.nil_append]
    rw [run_step hdis]
    exact hrun

/-- In a run whose steps are orderly, the `seq`s on every connection increase,
and the client misses nothing it asked for. -/
theorem delivery_of_orderly {cursor : Nat} {as : List Action} {s : State}
    (hrun : machine.run (init cursor) as = some s) (ho : machine.Along Orderly (init cursor) as) :
    Increasing s ∧ CatchesUp cursor s := by
  have h : Inv cursor s :=
    machine.run_inv_along (fun h ho hs => inv_step h ho hs) (inv_init cursor) ho hrun
  exact ⟨h.increasing, h.catchesUp⟩

/-- An event is committed before the client connects, one after. -/
def orderlyRun : List Action :=
  [.begin, .commit 1, .publish 1, .connect, .fetchPage, .sendRow, .endPage, .begin, .commit 2,
    .publish 2, .recv]

theorem delivery_of_orderly_two :
    ∃ s, machine.run (init 0) orderlyRun = some s ∧ Increasing s ∧ CatchesUp 0 s :=
  ⟨_, rfl, @delivery_of_orderly 0 orderlyRun _ rfl (by decide)⟩

/-! ## Runs that are not orderly -/

/-- What a backfill sends is above the cursor it started at. -/
def Above (k : Nat) (received : List Nat) (s : State) : Prop :=
  s.received = received ∧ ∀ c ∈ s.conn, k ≤ c.cursor ∧ (∀ m ∈ c.sent, k < m) ∧
    ∀ rows final, c.phase = .sending rows final → ∀ r ∈ rows, k < r

theorem above_step {k : Nat} {received : List Nat} {s s' : State} {a : Action}
    (h : Above k received s) (ha : a.isBackfill = true) (hs : step s a = some s') :
    Above k received s' := by
  cases a with
  | fetchPage =>
    obtain ⟨c, c', hc, hf, rfl⟩ := onConn_eq_some.mp hs
    obtain ⟨-, events, hev, rfl⟩ := fetchPage_eq_some hf
    obtain ⟨hk, hsent, -⟩ := h.2 c hc
    refine ⟨h.1, ?_⟩
    rintro _ ⟨⟩
    refine ⟨hk, hsent, ?_⟩
    rintro rows final ⟨⟩ r hr
    exact Nat.lt_of_le_of_lt hk (mem_findEventsAfter (hev ▸ hr)).2
  | sendRow =>
    obtain ⟨c, c', hc, hf, rfl⟩ := onConn_eq_some.mp hs
    obtain ⟨i, rows, final, hphase, rfl⟩ := sendRow_eq_some hf
    obtain ⟨hk, hsent, hrows⟩ := h.2 c hc
    have hi := hrows _ _ hphase
    refine ⟨h.1, ?_⟩
    rintro _ ⟨⟩
    refine ⟨Nat.le_of_lt (hi i (by simp)), fun m hm => ?_, ?_⟩
    · rcases List.mem_append.mp hm with hm | hm
      · exact hsent m hm
      · exact List.mem_singleton.mp hm ▸ hi i (by simp)
    · rintro rows' final' ⟨⟩ r hr
      exact hi r (by simp [hr])
  | endPage =>
    obtain ⟨c, c', hc, hf, rfl⟩ := onConn_eq_some.mp hs
    obtain ⟨final, -, rfl⟩ := endPage_eq_some hf
    obtain ⟨hk, hsent, -⟩ := h.2 c hc
    refine ⟨h.1, ?_⟩
    rintro _ ⟨⟩
    refine ⟨hk, hsent, fun rows final' hphase => ?_⟩
    cases final <;> cases hphase
  | begin | commit | abort | publish | connect | fetchFails | recv | disconnect => cases ha

/-- A committed event that is not above the cursor of a client that has not got
it is not sent by any backfill. -/
theorem not_catchesUp {cursor i : Nat} {s : State} (hc : s.conn = none) (hi : i ∈ s.committed)
    (hlt : cursor < i) (hle : i ≤ s.seen) (hnot : i ∉ s.received) : ¬ CatchesUp cursor s := by
  intro h
  obtain ⟨as, t, has, hrun, -, hall⟩ := h 0
  simp only [reconnect, hc, List.cons_append, List.nil_append] at hrun
  obtain ⟨s₁, hs₁, hrun⟩ := machine.run_cons_eq_some.mp hrun
  have hnew : s₁ = { s with conn := some (Conn.new s.seen) } := by
    simpa [machine, step, hc] using hs₁.symm
  have habove : Above s.seen s.received s₁ := by
    rw [hnew]
    refine ⟨rfl, ?_⟩
    rintro _ ⟨⟩
    simp [Conn.new]
  have ht : Above s.seen s.received t :=
    machine.run_inv_along (fun h ha hs => above_step h ha hs) habove
      (machine.along_of_forall s₁ has) hrun
  have hdel := hall i hi hlt
  simp only [State.delivered, ht.1, List.mem_append, hnot, false_or] at hdel
  cases hconn : t.conn with
  | none => simp [hconn] at hdel
  | some c =>
    simp only [hconn, Option.elim_some] at hdel
    exact absurd ((ht.2 c hconn).2.1 i hdel) (Nat.not_lt.mpr hle)

/-- The row is sent by the backfill, and published after. -/
def duplicateRun : List Action :=
  [.begin, .connect, .commit 1, .fetchPage, .sendRow, .endPage, .publish 1, .recv]

/-- Event 2 is committed and seen before event 1 is committed. -/
def skipRun : List Action :=
  [.begin, .begin, .commit 2, .connect, .fetchPage, .sendRow, .disconnect 1, .commit 1, .publish 1]

theorem delivery_counterexample :
    (∃ s, machine.run (init 0) duplicateRun = some s ∧ ¬ Increasing s) ∧
    ∃ s, machine.run (init 0) skipRun = some s ∧ ¬ CatchesUp 0 s := by
  refine ⟨⟨_, rfl, fun h => ?_⟩, ⟨_, rfl, ?_⟩⟩
  · exact absurd (h _ rfl) (by decide)
  · exact not_catchesUp (i := 1) rfl (by decide) (by decide) (by decide) (by decide)

end Seiran.Firehose
