import Mathlib.Data.List.Perm.Basic
import Mathlib.Data.Set.List
import Seiran.Framework.Sorting
import Seiran.Model.Queue.Memory
import Seiran.Proof.Queue.Redis

/-!
# The order of the two queues

* `readyScore_mono`: within one priority, a later job has no smaller score;
* `perm_enqueueAll`, `Memory.perm_enqueueAll`: what is in the two queues;
* `dequeued_eq_iff`: the jobs come out of them in the same order exactly where
  no two scores are in the way (`InOrder`);
* `readyScore_lt_of_priority`: scores of different priorities never are, before
  `8 * 10 ^ 15` jobs.
-/

namespace Seiran.Queue

open Binary64 Sorting

/-! ## Scores and members -/

theorem readyScore_mono (priority : Int) {i j : Nat} (h : i ≤ j) :
    readyScore priority i ≤ readyScore priority j :=
  roundInt_mono (Int.add_le_add_left (roundInt_mono (Int.ofNat_le.mpr h)) _)

/-- A higher priority wins, whatever the sequence numbers. -/
theorem readyScore_lt_of_priority {p q : Int} (hp : p ∈ [CRITICAL, HIGH, NORMAL, LOW])
    (hq : q ∈ [CRITICAL, HIGH, NORMAL, LOW]) (hlt : q < p) {i j : Nat} (hi : i ≤ 8 * 10 ^ 15) :
    readyScore p i < readyScore q j := by
  have hends : ∀ p ∈ [CRITICAL, HIGH, NORMAL, LOW], ∀ q ∈ [CRITICAL, HIGH, NORMAL, LOW], q < p →
      readyScore p (8 * 10 ^ 15) < readyScore q 0 := by
    decide
  calc readyScore p i ≤ readyScore p (8 * 10 ^ 15) := readyScore_mono p hi
    _ < readyScore q 0 := hends p hp q hq hlt
    _ ≤ readyScore q j := readyScore_mono q (Nat.zero_le j)

/-- The sequence number as it stands in the member. -/
def seqText (seq : Nat) : String := toString seq ++ ","

variable {J : Type} {C : Codec J}

/-- The sequence number comes first in a member, and a comma follows. -/
theorem toList_member (e : Envelope J) : ∃ t : List Char, (C.member e).toList =
    "\x7b\"seq\":".toList ++ (Nat.toDigits 10 e.seq ++ ',' :: t) := by
  refine ⟨"\"priority\":".toList ++ (toString e.priority).toList ++ ",\"attempt\":".toList ++
    (toString e.attempt).toList ++ ",\"job\":".toList ++ (C.encodeJob e.job).toList ++ ['}'], ?_⟩
  have hcomma : ",\"priority\":".toList = ',' :: "\"priority\":".toList := by decide
  have hbrace : "\x7d".toList = ['}'] := by decide
  simp only [Codec.member, String.toList_append, toList_toString, hcomma, hbrace,
    List.append_assoc, List.cons_append]

/-- Members are compared by their sequence numbers alone. -/
theorem member_lt_iff {a b : Envelope J} (h : a.seq ≠ b.seq) :
    C.member a < C.member b ↔ seqText a.seq < seqText b.seq := by
  obtain ⟨t, ht⟩ := toList_member (C := C) a
  obtain ⟨u, hu⟩ := toList_member (C := C) b
  have hcomma : ",".toList = [','] := by decide
  rw [String.lt_iff_toList_lt, String.lt_iff_toList_lt, ht, hu, lt_append_left_iff, seqText,
    seqText, String.toList_append, String.toList_append, toList_toString, toList_toString, hcomma]
  exact lt_separated_iff (comma_notMem_toDigits _) (comma_notMem_toDigits _)
    (fun heq => h (toDigits_injective heq)) t u

/-! ## What is in the queues -/

/-- The envelopes of jobs that are enqueued in turn. -/
def envelopes (seq : Nat) : List (J × Int) → List (Envelope J)
  | [] => []
  | (job, priority) :: rest =>
    { seq := seq + 1, priority, attempt := 0, job } :: envelopes (seq + 1) rest

theorem lt_seq_of_mem_envelopes {seq : Nat} {jobs : List (J × Int)} {e : Envelope J}
    (h : e ∈ envelopes seq jobs) : seq < e.seq := by
  induction jobs generalizing seq with
  | nil => cases h
  | cons j rest ih =>
    rcases List.mem_cons.mp h with rfl | h
    · exact Nat.lt_succ_self seq
    · have := ih h
      omega

theorem pairwise_envelopes (seq : Nat) (jobs : List (J × Int)) :
    (envelopes seq jobs).Pairwise fun a b => a.seq < b.seq := by
  induction jobs generalizing seq with
  | nil => exact .nil
  | cons j rest ih => exact .cons (fun e he => lt_seq_of_mem_envelopes he) (ih (seq + 1))

theorem length_envelopes (seq : Nat) (jobs : List (J × Int)) :
    (envelopes seq jobs).length = jobs.length := by
  induction jobs generalizing seq with
  | nil => rfl
  | cons j rest ih => exact congrArg Nat.succ (ih (seq + 1))

/-- An envelope in the ready set. -/
def entryOf (C : Codec J) (e : Envelope J) : ZEntry := ⟨readyScore e.priority e.seq, C.member e⟩

theorem perm_enqueueAll (hC : C.Lawful) {jobs : List (J × Int)} {s : State}
    {es : List (Envelope J)} (hs : s.ready.entries.Perm (es.map (entryOf C)))
    (hes : ∀ e ∈ es, e.seq ≤ s.seq) (hroom : s.seq + jobs.length < 2 ^ 63) :
    (enqueueAll C jobs s).ready.entries.Perm ((envelopes s.seq jobs ++ es).map (entryOf C)) := by
  induction jobs generalizing s es with
  | nil => exact hs
  | cons j rest ih =>
    have hlen : s.seq + (rest.length + 1) < 2 ^ 63 := hroom
    let e : Envelope J := { seq := s.seq + 1, priority := j.2, attempt := 0, job := j.1 }
    have hpush : pushReady C j.1 j.2 0 s = addReady C e { s with seq := s.seq + 1 } := by
      unfold pushReady nextSeq
      rw [if_pos (by omega)]
    have hnew : ∀ x ∈ s.ready.entries, x.member ≠ C.member e := by
      intro x hx heq
      obtain ⟨e', he', rfl⟩ := List.mem_map.mp (hs.mem_iff.mp hx)
      have := hes e' he'
      rw [hC.member_injective heq] at this
      exact Nat.not_succ_le_self _ this
    have hperm : (addReady C e { s with seq := s.seq + 1 }).ready.entries.Perm
        ((e :: es).map (entryOf C)) := (ZSet.perm_zadd hnew).trans (hs.cons _)
    have hall := ih hperm (fun e' he' => ?_) (by show s.seq + 1 + rest.length < 2 ^ 63; omega)
    · show (enqueueAll C rest (pushReady C j.1 j.2 0 s)).ready.entries.Perm _
      rw [hpush]
      refine hall.trans ((List.Perm.map _ ?_))
      exact List.perm_middle
    · rcases List.mem_cons.mp he' with rfl | he'
      · exact Nat.le_refl _
      · exact Nat.le_succ_of_le (hes e' he')

theorem length_zadd_le (score : Int) (member : String) (s : ZSet) :
    (s.zadd score member).entries.length ≤ s.entries.length + 1 := by
  show ((s.without member).orderedInsert ZEntry.le _).length ≤ _
  rw [List.orderedInsert_length]
  exact Nat.succ_le_succ (List.length_filter_le _ _)

theorem length_pushReady (job : J) (priority : Int) (attempt : Nat) {s : State}
    (hs : s.seq < 2 ^ 63) : (pushReady C job priority attempt s).seq < 2 ^ 63 ∧
      (pushReady C job priority attempt s).ready.entries.length + s.seq ≤
        s.ready.entries.length + (pushReady C job priority attempt s).seq := by
  unfold pushReady nextSeq
  by_cases hroom : s.seq + 1 < 2 ^ 63
  · rw [if_pos hroom]
    refine ⟨hroom, (Nat.add_le_add_right (length_zadd_le _ _ s.ready) s.seq).trans ?_⟩
    show s.ready.entries.length + 1 + s.seq ≤ s.ready.entries.length + (s.seq + 1)
    omega
  · rw [if_neg hroom]
    exact ⟨hs, Nat.le_refl _⟩

/-- Without a sequence number nothing is enqueued. -/
theorem length_enqueueAll (jobs : List (J × Int)) {s : State} (hs : s.seq < 2 ^ 63) :
    (enqueueAll C jobs s).seq < 2 ^ 63 ∧ (enqueueAll C jobs s).ready.entries.length + s.seq ≤
      s.ready.entries.length + (enqueueAll C jobs s).seq := by
  induction jobs generalizing s with
  | nil => exact ⟨hs, Nat.le_refl _⟩
  | cons j rest ih =>
    obtain ⟨hseq, hlen⟩ := length_pushReady (C := C) j.1 j.2 0 hs
    obtain ⟨hseq', hlen'⟩ := ih hseq
    refine ⟨hseq', ?_⟩
    show (enqueueAll C rest (pushReady C j.1 j.2 0 s)).ready.entries.length + s.seq ≤
      s.ready.entries.length + (enqueueAll C rest (pushReady C j.1 j.2 0 s)).seq
    omega

theorem length_dequeued_le (k : Nat) (s : State) :
    (dequeued C k s).length ≤ s.ready.entries.length := by
  induction k generalizing s with
  | zero => exact Nat.zero_le _
  | succ k ih =>
    unfold dequeued
    split
    · exact Nat.zero_le _
    · rename_i x s' hpop
      obtain ⟨⟨y, ready⟩, hmin, heq⟩ := Option.map_eq_some_iff.mp hpop
      cases heq
      have hlen : s.ready.entries.length = ready.entries.length + 1 := by
        rw [ZSet.popMin_eq_some.mp hmin, List.length_cons]
      have hrest := ih { s with ready }
      change (dequeued C k { s with ready }).length ≤ ready.entries.length at hrest
      split
      · rw [List.length_cons]
        omega
      · omega

theorem dequeued_eq (hC : C.Lawful) {es : List (Envelope J)} {s : State}
    (h : s.ready.entries = es.map (entryOf C)) : dequeued C es.length s = es := by
  induction es generalizing s with
  | nil => rfl
  | cons e es ih =>
    have hpop : popReady s = some (entryOf C e, { s with ready := s.ready.tail }) := by
      unfold popReady ZSet.popMin
      rw [h]
      rfl
    show dequeued C (es.length + 1) s = _
    unfold dequeued
    rw [hpop]
    simp only [entryOf, hC.fromStr_member]
    refine congrArg (e :: ·) (ih ?_)
    show s.ready.entries.tail = _
    rw [h]
    rfl

/-! ## The in-memory queue -/

namespace Memory

theorem cmp_ne_lt_iff {a b : PrioritizedJob J} : a.ge b ↔
    b.priority < a.priority ∨ b.priority = a.priority ∧ a.sequence ≤ b.sequence := by
  unfold PrioritizedJob.ge PrioritizedJob.cmp
  cases h : compare a.priority b.priority with
  | lt =>
    have hlt := Int.compare_eq_lt.mp h
    simp only [Ordering.then, ne_eq, not_true_eq_false, false_iff]
    omega
  | eq =>
    have heq := Int.compare_eq_eq.mp h
    show compare b.sequence a.sequence ≠ .lt ↔ _
    rw [Nat.compare_ne_lt]
    omega
  | gt =>
    have hgt := Int.compare_eq_gt.mp h
    simp only [Ordering.then, ne_eq, reduceCtorEq, not_false_eq_true, true_iff]
    exact .inl hgt

instance : Std.Total (PrioritizedJob.ge (J := J)) := ⟨fun a b => by
  rw [cmp_ne_lt_iff, cmp_ne_lt_iff]
  omega⟩

instance : IsTrans (PrioritizedJob J) PrioritizedJob.ge := ⟨fun a b c => by
  rw [cmp_ne_lt_iff, cmp_ne_lt_iff, cmp_ne_lt_iff]
  omega⟩

/-- The envelope with which the in-memory queue would put a job into Redis,
where the sequence has come to `seq`. -/
def PrioritizedJob.envelope (seq : Nat) (x : PrioritizedJob J) : Envelope J :=
  { seq := seq + x.sequence, priority := x.priority, attempt := x.attempt, job := x.job }

theorem perm_enqueueAll (seq : Nat) {jobs : List (J × Int)} {q : InnerQueue J}
    (hroom : q.sequence + jobs.length < 2 ^ 64) :
    ((enqueueAll jobs q).heap.map (PrioritizedJob.envelope seq)).Perm
      (envelopes (seq + q.sequence) jobs ++ q.heap.map (PrioritizedJob.envelope seq)) := by
  induction jobs generalizing q with
  | nil => exact .refl _
  | cons j rest ih =>
    have hlen : q.sequence + (rest.length + 1) < 2 ^ 64 := hroom
    have hseq : (q.sequence + 1) % 2 ^ 64 = q.sequence + 1 := Nat.mod_eq_of_lt (by omega)
    have hpush : push j.1 j.2 0 q =
        { heap := q.heap.orderedInsert PrioritizedJob.ge ⟨j.2, q.sequence + 1, 0, j.1⟩
          sequence := q.sequence + 1 } := by
      unfold push
      rw [hseq]
    show ((enqueueAll rest (push j.1 j.2 0 q)).heap.map _).Perm _
    rw [hpush]
    refine (ih (by show q.sequence + 1 + rest.length < 2 ^ 64; omega)).trans ?_
    refine (((List.perm_orderedInsert PrioritizedJob.ge _ q.heap).map _).append_left _).trans ?_
    exact List.perm_middle

theorem pairwise_enqueueAll {jobs : List (J × Int)} {q : InnerQueue J}
    (hq : q.heap.Pairwise PrioritizedJob.ge) :
    (enqueueAll jobs q).heap.Pairwise PrioritizedJob.ge := by
  induction jobs generalizing q with
  | nil => exact hq
  | cons j rest ih => exact ih (hq.orderedInsert _ _)

theorem length_enqueueAll {jobs : List (J × Int)} {q : InnerQueue J} :
    (enqueueAll jobs q).heap.length = q.heap.length + jobs.length := by
  induction jobs generalizing q with
  | nil => rfl
  | cons j rest ih =>
    show (enqueueAll rest (push j.1 j.2 0 q)).heap.length = _
    rw [ih, push, List.orderedInsert_length, List.length_cons]
    omega

theorem dequeued_eq (heap : List (PrioritizedJob J)) (sequence : Nat) :
    dequeued heap.length ⟨heap, sequence⟩ = heap := by
  induction heap with
  | nil => rfl
  | cons x heap ih => exact congrArg (x :: ·) ih

end Memory

/-! ## The two orders -/

/-- `a` comes before `b` in the in-memory queue. -/
def Before (a b : Envelope J) : Prop :=
  b.priority < a.priority ∨ b.priority = a.priority ∧ a.seq < b.seq

/-- No two jobs have scores that are in the way of their order. -/
structure InOrder (seq : Nat) (jobs : List (J × Int)) : Prop where
  /-- there are sequence numbers for all of them -/
  room : seq + jobs.length < 2 ^ 63
  /-- two jobs of one priority with the same score are ordered as texts, and that is the right way -/
  fifo : ∀ a ∈ envelopes seq jobs, ∀ b ∈ envelopes seq jobs,
    a.priority = b.priority → a.seq < b.seq →
      readyScore a.priority a.seq = readyScore b.priority b.seq → seqText a.seq < seqText b.seq
  priority : ∀ a ∈ envelopes seq jobs, ∀ b ∈ envelopes seq jobs, b.priority < a.priority →
    readyScore a.priority a.seq < readyScore b.priority b.seq ∨
      readyScore a.priority a.seq = readyScore b.priority b.seq ∧ seqText a.seq < seqText b.seq

theorem nodup_envelopes (seq : Nat) (jobs : List (J × Int)) :
    (envelopes seq jobs).Nodup :=
  (pairwise_envelopes seq jobs).imp fun h heq => h.ne (congrArg Envelope.seq heq)

theorem eq_of_seq_eq {seq : Nat} {jobs : List (J × Int)} {a b : Envelope J}
    (ha : a ∈ envelopes seq jobs) (hb : b ∈ envelopes seq jobs) (h : a.seq = b.seq) : a = b := by
  by_contra hne
  have : Std.Symm fun x y : Envelope J => x.seq ≠ y.seq := ⟨fun _ _ h => Ne.symm h⟩
  exact ((pairwise_envelopes seq jobs).imp Nat.ne_of_lt).forall ha hb hne h

theorem before_total {seq : Nat} {jobs : List (J × Int)} {a b : Envelope J}
    (ha : a ∈ envelopes seq jobs) (hb : b ∈ envelopes seq jobs) (hne : a ≠ b) :
    Before a b ∨ Before b a := by
  have hseq : a.seq ≠ b.seq := fun h => hne (eq_of_seq_eq ha hb h)
  unfold Before
  omega

theorem before_asymm (a b : Envelope J) (h : Before a b) : ¬ Before b a := by
  unfold Before at *
  omega

theorem le_entryOf_iff (hC : C.Lawful) {a b : Envelope J} (h : a.seq ≠ b.seq) :
    (entryOf C a).le (entryOf C b) ↔
      readyScore a.priority a.seq < readyScore b.priority b.seq ∨
        readyScore a.priority a.seq = readyScore b.priority b.seq ∧
          seqText a.seq < seqText b.seq := by
  have hne : C.member a ≠ C.member b := fun heq =>
    h (congrArg Envelope.seq (hC.member_injective heq))
  have hmember : C.member a ≤ C.member b ↔ seqText a.seq < seqText b.seq := by
    rw [← member_lt_iff (C := C) h, lt_iff_le_and_ne, and_iff_left hne]
  exact or_congr_right (and_congr_right fun _ => hmember)

/-- In Redis they come out in the order of the scores and members. -/
theorem inOrder_iff (hC : C.Lawful) {seq : Nat} {jobs : List (J × Int)} (hroom : seq + jobs.length < 2 ^ 63) :
    InOrder seq jobs ↔ ∀ a ∈ envelopes seq jobs, ∀ b ∈ envelopes seq jobs, Before a b →
      (entryOf C a).le (entryOf C b) := by
  constructor
  · intro h a ha b hb hab
    have hne : a.seq ≠ b.seq := by
      intro heq
      rw [eq_of_seq_eq ha hb heq] at hab
      exact before_asymm b b hab hab
    rw [le_entryOf_iff hC hne]
    rcases hab with hlt | ⟨heq, hlt⟩
    · exact h.priority a ha b hb hlt
    · -- within one priority the scores do not decrease
      have hmono := readyScore_mono a.priority hlt.le
      rw [← heq] at hmono
      rcases Int.lt_or_eq_of_le hmono with hscore | hscore
      · exact .inl (heq ▸ hscore)
      · exact .inr ⟨heq ▸ hscore, h.fifo a ha b hb heq.symm hlt (heq ▸ hscore)⟩
  · intro h
    refine ⟨hroom, fun a ha b hb heq hlt hscore => ?_, fun a ha b hb hlt => ?_⟩
    · have hle := (le_entryOf_iff hC hlt.ne).mp (h a ha b hb (.inr ⟨heq.symm, hlt⟩))
      rcases hle with hless | ⟨_, htext⟩
      · exact absurd hscore hless.ne
      · exact htext
    · have hne : a.seq ≠ b.seq := by
        intro hseq
        rw [eq_of_seq_eq ha hb hseq] at hlt
        exact Int.lt_irrefl _ hlt
      exact (le_entryOf_iff hC hne).mp (h a ha b hb (.inl hlt))

theorem dequeued_enqueueAll (hC : C.Lawful) {seq : Nat} {jobs : List (J × Int)}
    (hroom : seq + jobs.length < 2 ^ 63) :
    (dequeued C jobs.length (enqueueAll C jobs (.start seq))).Perm (envelopes seq jobs) ∧
      (dequeued C jobs.length (enqueueAll C jobs (.start seq))).Pairwise fun a b =>
        (entryOf C a).le (entryOf C b) := by
  have hperm := @perm_enqueueAll J C hC jobs (.start seq) [] (.refl _) (fun _ h => by cases h) hroom
  rw [List.append_nil] at hperm
  -- the entries are those of some envelopes, in some order
  have hrange : (enqueueAll C jobs (.start seq)).ready.entries ∈ Set.range (List.map (entryOf C)) := by
    rw [Set.range_list_map]
    intro x hx
    obtain ⟨e, _, he⟩ := List.mem_map.mp (hperm.mem_iff.mp hx)
    exact ⟨e, he⟩
  obtain ⟨es, hes⟩ := hrange
  have hinj : (entryOf C).Injective := fun a b h =>
    hC.member_injective (congrArg ZEntry.member h)
  have hes' : es.Perm (envelopes seq jobs) := by
    rw [← hes] at hperm
    exact (List.map_perm_map_iff hinj).mp hperm
  have hdeq := dequeued_eq hC hes.symm
  rw [hes'.length_eq, length_envelopes] at hdeq
  rw [hdeq]
  have hsorted := (enqueueAll C jobs (.start seq)).ready.sorted
  rw [← hes, List.pairwise_map] at hsorted
  exact ⟨hes', hsorted⟩

namespace Memory

theorem dequeued_all (jobs : List (J × Int)) :
    dequeued jobs.length (enqueueAll jobs .new) = (enqueueAll jobs .new).heap := by
  have hlen : (enqueueAll jobs .new).heap.length = jobs.length := by
    rw [length_enqueueAll]
    exact Nat.zero_add _
  have hdeq := dequeued_eq (enqueueAll jobs .new).heap (enqueueAll jobs .new).sequence
  rwa [hlen] at hdeq

theorem dequeued_enqueueAll (seq : Nat) {jobs : List (J × Int)}
    (hroom : jobs.length < 2 ^ 64) :
    ((dequeued jobs.length (enqueueAll jobs .new)).map
        (PrioritizedJob.envelope seq)).Perm (envelopes seq jobs) ∧
      ((dequeued jobs.length (enqueueAll jobs .new)).map
        (PrioritizedJob.envelope seq)).Pairwise Before := by
  have hperm := @Memory.perm_enqueueAll J seq jobs .new (by show 0 + jobs.length < _; omega)
  rw [dequeued_all]
  have hperm' : ((enqueueAll jobs .new).heap.map (PrioritizedJob.envelope seq)).Perm
      (envelopes seq jobs) := by
    simpa [InnerQueue.new] using hperm
  refine ⟨hperm', ?_⟩
  have hge : ((enqueueAll jobs .new).heap.map (PrioritizedJob.envelope seq)).Pairwise fun a b =>
      b.priority < a.priority ∨ b.priority = a.priority ∧ a.seq ≤ b.seq := by
    rw [List.pairwise_map]
    refine (pairwise_enqueueAll .nil).imp fun {a b} h => ?_
    have := cmp_ne_lt_iff.mp h
    simp only [PrioritizedJob.envelope]
    omega
  -- the sequence numbers are distinct
  refine (hge.and (hperm'.nodup_iff.mpr (nodup_envelopes seq jobs))).imp_of_mem ?_
  intro a b ha hb h
  have hseq : a.seq ≠ b.seq := fun heq =>
    h.2 (eq_of_seq_eq (hperm'.mem_iff.mp ha) (hperm'.mem_iff.mp hb) heq)
  have hle := h.1
  unfold Before
  omega

end Memory

/-- The two queues give the jobs in the same order exactly where no score is in
the way. -/
theorem dequeued_eq_iff (hC : C.Lawful) {seq : Nat} (hseq : seq < 2 ^ 63) (jobs : List (J × Int)) :
    dequeued C jobs.length (enqueueAll C jobs (.start seq)) =
        (Memory.dequeued jobs.length (Memory.enqueueAll jobs .new)).map
          (Memory.PrioritizedJob.envelope seq) ↔ InOrder seq jobs := by
  by_cases hroom : seq + jobs.length < 2 ^ 63
  · obtain ⟨hperm, hsorted⟩ := dequeued_enqueueAll hC hroom
    obtain ⟨hperm', hsorted'⟩ := @Memory.dequeued_enqueueAll J seq jobs (by omega)
    rw [inOrder_iff hC hroom, eq_iff_of_pairwise (hperm.trans hperm'.symm)
      (hperm'.nodup_iff.mpr (nodup_envelopes seq jobs)) hsorted hsorted' ?_ before_asymm ?_]
    · simp only [hperm'.mem_iff]
    · exact fun a b hab hba => hC.member_injective (ZEntry.member_eq_of_le hab hba)
    · intro a ha b hb hne
      exact before_total (hperm'.mem_iff.mp ha) (hperm'.mem_iff.mp hb) hne
  · -- Redis has run out of sequence numbers
    refine iff_of_false (fun heq => ?_) fun h => hroom h.room
    have hlen := congrArg List.length heq
    have hle := length_dequeued_le (C := C) jobs.length (enqueueAll C jobs (.start seq))
    obtain ⟨hseq', hready⟩ := length_enqueueAll (C := C) jobs (s := .start seq) hseq
    change (enqueueAll C jobs (.start seq)).ready.entries.length + seq ≤ 0 + _ at hready
    rw [List.length_map, Memory.dequeued_all, Memory.length_enqueueAll] at hlen
    change _ = 0 + jobs.length at hlen
    omega

/-! ## High before low, and ten in a row -/

section Plain

def lowHighHigh : List (Unit × Int) := [((), LOW), ((), HIGH), ((), HIGH)]

theorem dequeued_eq_iff_lowHighHigh :
    dequeued plain 3 (enqueueAll plain lowHighHigh (.start 0)) =
      (Memory.dequeued 3 (Memory.enqueueAll lowHighHigh .new)).map
        (Memory.PrioritizedJob.envelope 0) :=
  (dequeued_eq_iff lawful_plain (by decide) lowHighHigh).mpr
    ⟨by decide, by decide, by decide +kernel⟩

/-- The tenth of ten deliveries to followers comes out before the fifth. -/
theorem dequeued_eq_iff_counterexample :
    (dequeued plain 10 (enqueueAll plain (List.replicate 10 ((), HIGH)) (.start 0))).map
        Envelope.seq = [1, 2, 3, 4, 10, 5, 6, 7, 8, 9] ∧
      (Memory.dequeued 10 (Memory.enqueueAll (List.replicate 10 ((), HIGH)) .new)).map
        Memory.PrioritizedJob.sequence = [1, 2, 3, 4, 5, 6, 7, 8, 9, 10] := by
  decide

end Plain

end Seiran.Queue
