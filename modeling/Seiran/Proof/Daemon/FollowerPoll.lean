import Mathlib.Data.List.Nodup
import Mathlib.Data.List.Pairwise
import Seiran.Model.Daemon.FollowerPoll

/-!
# What the polls find

* `WF`: the list is in order, and so is what a poll has of it (`wf_step`);
* `Inv`: what a poll has not come to yet is older than what it has seen. Orderly steps keep it
  (`inv_step`), so where no poll runs the followers without a row are newer than those with one,
  and a poll that ends has found what was there when it began (`found_step`);
* `missed_step`: a follower without a row that is older than one with a row is not found.
-/

namespace Seiran.FollowerPoll

structure Poll.WF (p : Poll) (next : Nat) : Prop where
  start_le : p.start ≤ next
  sorted : p.followers.Pairwise fun x y => y.since < x.since
  lt_next : ∀ e ∈ p.followers, e.since < next
  cursor_le : ∀ e ∈ p.followers, ∃ c ∈ p.cursor, c ≤ e.since

structure WF (s : State) : Prop where
  sorted : s.feed.Pairwise fun x y => y.since < x.since
  lt_next : ∀ e ∈ s.feed, e.since < s.next
  nodup : (s.feed.map (·.follower)).Nodup
  poll : ∀ p ∈ s.poll, p.WF s.next

/-- The poll has not come to the follower. -/
def Poll.Pending (p : Poll) (e : Entry) : Prop :=
  e ∈ p.followers ∨ (p.atEnd = false ∧ ∀ c ∈ p.cursor, e.since < c)

theorem wf_init : WF init where
  sorted := List.Pairwise.nil
  lt_next := by simp [init]
  nodup := by simp [init]
  poll := by simp [init]

section Steps

variable {s s' : State} {p : Poll} {e x y : Entry} {f : Nat}

theorem onPoll_eq_some {g : Poll → Option State} :
    onPoll s g = some s' ↔ ∃ p, s.poll = some p ∧ g p = some s' := Option.bind_eq_some_iff

theorem mem_older {feed : List Entry} {cursor : Option Nat} :
    e ∈ older feed cursor ↔ e ∈ feed ∧ ∀ c ∈ cursor, e.since < c := by
  cases cursor <;> simp [older]

theorem mem_insertRow {follows : List Nat} {g : Nat} :
    g ∈ insertRow follows f ↔ g = f ∨ g ∈ follows := by
  simp only [insertRow]
  split
  · rename_i hf
    exact ⟨.inr, fun h => h.elim (fun heq => heq ▸ hf) id⟩
  · exact List.mem_cons

theorem ended_poll : (ended s p).poll = none := by
  simp only [ended]
  split <;> rfl

theorem ended_feed : (ended s p).feed = s.feed := by
  simp only [ended]
  split <;> rfl

theorem ended_next : (ended s p).next = s.next := by
  simp only [ended]
  split <;> rfl

/-- The page that `fetch` leads to -/
def fetched (s : State) (p : Poll) (n : Nat) (last : Bool) : Poll :=
  { p with
    pages := p.pages + 1
    cursor := (((older s.feed p.cursor).take n).getLast?.map (·.since)).or p.cursor
    followers := (older s.feed p.cursor).take n
    atEnd := last || ((older s.feed p.cursor).take n).isEmpty }

theorem fetch_eq_some {n : Nat} {last : Bool} :
    step s (.fetch n last) = some s' ↔ ∃ p, s.poll = some p ∧
      (p.followers = [] ∧ p.atEnd = false ∧ p.pages < maxPages p.isBaselineDone ∧
        n ≤ pageLimit ∧ (older s.feed p.cursor ≠ [] → 0 < n) ∧
          (last = true → (older s.feed p.cursor).length ≤ n)) ∧
      setPoll s (fetched s p n last) = s' := by
  simp only [step, onPoll_eq_some, Option.ite_none_right_eq_some, Option.some.injEq]
  rfl

/-- What `next` leads to: the poll passes over a follower it knows or ends there, or adds a row. -/
theorem next_eq_some :
    step s .next = some s' ↔ ∃ p, s.poll = some p ∧ ∃ e rest, p.followers = e :: rest ∧
      ((e.follower ∈ p.knownFollowerIds ∧ p.isBaselineDone = true ∧ s' = ended s p) ∨
        (e.follower ∈ p.knownFollowerIds ∧ p.isBaselineDone = false ∧
          s' = setPoll s { p with followers := rest }) ∨
        (e.follower ∉ p.knownFollowerIds ∧
          s' = setPoll { s with
            follows := insertRow s.follows e.follower
            notified := if p.isBaselineDone then e :: s.notified else s.notified }
            { p with followers := rest })) := by
  simp only [step, onPoll_eq_some]
  refine exists_congr fun p => and_congr_right fun _ => ?_
  cases p.followers with
  | nil => simp
  | cons e rest =>
    simp only [List.cons.injEq]
    constructor
    · intro h
      refine ⟨e, rest, ⟨rfl, rfl⟩, ?_⟩
      split at h
      · split at h <;> cases h
        · exact .inl ⟨by assumption, by assumption, rfl⟩
        · rename_i hb
          exact .inr (.inl ⟨by assumption, by simpa using hb, rfl⟩)
      · cases h
        exact .inr (.inr ⟨by assumption, rfl⟩)
    · rintro ⟨_, _, ⟨rfl, rfl⟩, ⟨hk, hb, rfl⟩ | ⟨hk, hb, rfl⟩ | ⟨hk, rfl⟩⟩
      · rw [if_pos hk, if_pos hb]
      · rw [if_pos hk, if_neg (by simp [hb])]
      · rw [if_neg hk]

/-- A page is at the head of what the list has from the cursor on. -/
theorem older_sorted (h : WF s) {cursor : Option Nat} :
    (older s.feed cursor).Pairwise fun x y => y.since < x.since :=
  h.sorted.sublist List.filter_sublist

theorem cursor_fetched {n : Nat} {last : Bool} (hne : (older s.feed p.cursor).take n ≠ []) :
    (fetched s p n last).cursor = some (((older s.feed p.cursor).take n).getLast hne).since := by
  simp [fetched, List.getLast?_eq_some_getLast hne]

/-- What is older than a follower of the page, and what is older than the cursor. -/
theorem pending_fetched (h : WF s) {n : Nat} {last : Bool}
    (hn : older s.feed p.cursor ≠ [] → 0 < n)
    (hlast : last = true → (older s.feed p.cursor).length ≤ n) (hx : x ∈ older s.feed p.cursor) :
    (fetched s p n last).Pending x := by
  rcases List.mem_append.mp ((List.take_append_drop n (older s.feed p.cursor)).symm ▸ hx) with
    hx' | hx'
  · exact .inl hx'
  · have hsorted : (older s.feed p.cursor).Pairwise fun x y => y.since < x.since := older_sorted h
    rw [← List.take_append_drop n (older s.feed p.cursor)] at hsorted
    have hlt := (List.pairwise_append.mp hsorted).2.2
    have hne : (older s.feed p.cursor).take n ≠ [] := by
      intro heq
      rcases List.take_eq_nil_iff.mp heq with hnil | hnil
      · exact absurd (hn (List.ne_nil_of_mem hx)) (by omega)
      · rw [hnil] at hx
        cases hx
    refine .inr ⟨?_, fun c hc => ?_⟩
    · have hlast' : last = false := by
        by_contra hne'
        have hlen := hlast (by simpa using hne')
        rw [List.drop_eq_nil_of_le hlen] at hx'
        cases hx'
      simp only [fetched, hlast', Bool.false_or, List.isEmpty_eq_false_iff]
      exact hne
    · rw [cursor_fetched hne, Option.mem_some_iff] at hc
      subst hc
      exact hlt _ (List.getLast_mem hne) _ hx'

theorem wf_fetched (h : WF s) (hp : p.WF s.next) {n : Nat} {last : Bool} :
    (fetched s p n last).WF s.next where
  start_le := hp.start_le
  sorted := (older_sorted h).sublist (List.take_sublist ..)
  lt_next := fun e he => h.lt_next e (mem_older.mp (List.mem_of_mem_take he)).1
  cursor_le := fun e he => by
    -- the last one of the page is the oldest
    have hsorted : ((older s.feed p.cursor).take n).Pairwise fun x y => y.since ≤ x.since :=
      ((older_sorted h).sublist (List.take_sublist ..)).imp Nat.le_of_lt
    exact ⟨_, cursor_fetched (List.ne_nil_of_mem he),
      hsorted.rel_getLast_of_rel_getLast_getLast he (Nat.le_refl _)⟩

theorem Poll.WF.tail (hp : p.WF s.next) {rest : List Entry} (heq : p.followers = e :: rest) :
    Poll.WF { p with followers := rest } s.next where
  start_le := hp.start_le
  sorted := (List.pairwise_cons.mp (heq ▸ hp.sorted)).2
  lt_next := fun x hx => hp.lt_next x (heq ▸ List.mem_cons_of_mem _ hx)
  cursor_le := fun x hx => hp.cursor_le x (heq ▸ List.mem_cons_of_mem _ hx)

theorem WF.ended (h : WF s) : WF (ended s p) where
  sorted := by
    rw [ended_feed]
    exact h.sorted
  lt_next := by
    rw [ended_feed, ended_next]
    exact h.lt_next
  nodup := by
    rw [ended_feed]
    exact h.nodup
  poll := by simp [ended_poll]

theorem WF.setPoll (h : WF s) (hp : p.WF s.next) : WF (setPoll s p) where
  sorted := h.sorted
  lt_next := h.lt_next
  nodup := h.nodup
  poll := fun q hq => by
    cases hq
    exact hp

theorem wf_step {a : Action} (h : WF s) (hs : step s a = some s') : WF s' := by
  cases a with
  | follow f =>
    simp only [step, Option.ite_none_left_eq_some, Option.some.injEq] at hs
    obtain ⟨hnew, rfl⟩ := hs
    refine ⟨List.pairwise_cons.mpr ⟨h.lt_next, h.sorted⟩, fun e he => ?_,
      List.nodup_cons.mpr ⟨fun hmem => hnew (List.mem_map.mp hmem), h.nodup⟩, fun p hp => ?_⟩
    · rcases List.mem_cons.mp he with rfl | he
      · exact Nat.lt_succ_self _
      · exact Nat.lt_succ_of_lt (h.lt_next e he)
    · have hp := h.poll p hp
      exact ⟨Nat.le_succ_of_le hp.start_le, hp.sorted, fun e he =>
        Nat.lt_succ_of_lt (hp.lt_next e he), hp.cursor_le⟩
  | unfollow f =>
    cases hs
    exact ⟨h.sorted.sublist List.filter_sublist,
      fun e he => h.lt_next e (List.mem_filter.mp he).1,
      h.nodup.sublist (List.filter_sublist.map _), h.poll⟩
  | addRow f | deleteRow f =>
    cases hs
    exact ⟨h.sorted, h.lt_next, h.nodup, h.poll⟩
  | start =>
    simp only [step, Option.ite_none_right_eq_some, Option.some.injEq] at hs
    obtain ⟨-, rfl⟩ := hs
    exact h.setPoll ⟨Nat.le_refl _, List.Pairwise.nil, by simp, by simp⟩
  | fetch n last =>
    obtain ⟨p, hp, -, rfl⟩ := fetch_eq_some.mp hs
    exact h.setPoll (wf_fetched h (h.poll p hp))
  | next =>
    obtain ⟨p, hp, e, rest, heq, hcase⟩ := next_eq_some.mp hs
    have htail := (h.poll p hp).tail heq
    rcases hcase with ⟨-, -, rfl⟩ | ⟨-, -, rfl⟩ | ⟨-, rfl⟩
    · exact h.ended
    · exact h.setPoll htail
    · exact WF.setPoll ⟨h.sorted, h.lt_next, h.nodup, h.poll⟩ htail
  | skip =>
    obtain ⟨p, hp, hs⟩ := onPoll_eq_some.mp hs
    split at hs <;> cases hs
    exact h.setPoll ((h.poll p hp).tail (by assumption))
  | finish =>
    obtain ⟨p, hp, hs⟩ := onPoll_eq_some.mp hs
    simp only [Option.ite_none_right_eq_some, Option.some.injEq] at hs
    obtain ⟨-, rfl⟩ := hs
    exact h.ended
  | fail =>
    obtain ⟨p, hp, hs⟩ := onPoll_eq_some.mp hs
    cases hs
    exact ⟨h.sorted, h.lt_next, h.nodup, by simp⟩

end Steps

/-- A poll in progress. A follower that is known is older than all that have no row, and what the
poll has not come to is older than what it has seen. -/
structure Poll.Inv (s : State) (p : Poll) : Prop where
  baseline : p.isBaselineDone = s.baselineDone
  known : ∀ {f}, f ∈ p.knownFollowerIds → f ∈ s.follows
  found : ∀ x ∈ s.feed, x.since < p.start → Recorded s x ∨ p.Pending x
  gapless : ∀ x ∈ s.feed, ∀ y ∈ s.feed, x.since < y.since → Recorded s y →
    Recorded s x ∨ p.Pending x
  older : ∀ e ∈ p.followers, ∀ x ∈ s.feed, x.since < e.since → p.Pending x
  again : ∀ e ∈ p.followers, ∀ y ∈ s.feed, y.follower = e.follower → e.since < y.since →
    ∀ x ∈ s.feed, x.since < y.since → Recorded s x
  stop : p.isBaselineDone = true → ∀ e, e ∈ s.feed ∨ e ∈ p.followers →
    e.follower ∈ p.knownFollowerIds → ∀ x ∈ s.feed, x.since < e.since → Recorded s x
  quiet : p.isBaselineDone = true → ∀ t ∈ s.seeded, ∀ e, e ∈ s.feed ∨ e ∈ p.followers →
    e.since < t → e.follower ∈ p.knownFollowerIds

structure Inv (s : State) : Prop where
  rest : s.poll = none → s.baselineDone = true → Gapless s
  poll : ∀ p ∈ s.poll, p.Inv s
  done : s.baselineDone = true → s.seeded.isSome = true
  seeded_le : ∀ t ∈ s.seeded, t ≤ s.next
  seeded : ∀ t ∈ s.seeded, s.baselineDone = true ∧ ∀ e ∈ s.feed, e.since < t → Recorded s e
  quiet : ∀ e ∈ s.notified, ∃ t ∈ s.seeded, t ≤ e.since

theorem inv_init : Inv init where
  rest := by simp [init]
  poll := by simp [init]
  done := by simp [init]
  seeded_le := by simp [init]
  seeded := by simp [init]
  quiet := by simp [init]

section InvSteps

variable {s s' : State} {p : Poll} {e x y : Entry} {f : Nat}

/-- All that has no row is pending when a poll ends: nothing is left to find. -/
theorem Inv.ended (h : Inv s) (hwf : WF s) (hp : s.poll = some p)
    (hall : ∀ x ∈ s.feed, p.Pending x → Recorded s x) :
    Inv (ended s p) ∧ ∀ x ∈ (ended s p).feed, x.since < p.start → Recorded (ended s p) x := by
  obtain ⟨hbase, hknown, hfound, hgap, -, -, -, -⟩ := h.poll p hp
  have hfound' : ∀ x ∈ s.feed, x.since < p.start → Recorded s x := fun x hx hlt =>
    (hfound x hx hlt).elim id (hall x hx)
  have hgap' : Gapless s := fun x hx y hy hlt hrec =>
    (hgap x hx y hy hlt hrec).elim id (hall x hx)
  simp only [FollowerPoll.ended]
  split
  · exact ⟨⟨fun _ _ => hgap', by simp, h.done, h.seeded_le, h.seeded, h.quiet⟩, hfound'⟩
  · rename_i hb
    have hb' : s.baselineDone = false := by simpa [hbase] using hb
    have hnone : s.seeded = none := by
      by_contra hne
      obtain ⟨t, ht⟩ := Option.ne_none_iff_exists'.mp hne
      rw [(h.seeded t ht).1] at hb'
      cases hb'
    refine ⟨⟨fun _ _ => hgap', by simp, fun _ => rfl, ?_, ?_, ?_⟩, hfound'⟩
    · intro t ht
      cases ht
      exact (hwf.poll p hp).start_le
    · intro t ht
      cases ht
      exact ⟨rfl, hfound'⟩
    · intro e he
      obtain ⟨t, ht, -⟩ := h.quiet e he
      rw [hnone] at ht
      cases ht

theorem inv_follow (h : Inv s) (hwf : WF s) (ho : Orderly s (.follow f))
    (hs : step s (.follow f) = some s') : Inv s' := by
  simp only [step, Option.ite_none_left_eq_some, Option.some.injEq] at hs
  obtain ⟨-, rfl⟩ := hs
  have hnew : ∀ {z}, z ∈ s.feed → ¬ s.next < z.since := fun hz hlt =>
    absurd (hwf.lt_next _ hz) (Nat.lt_asymm hlt)
  have hgap : Watching s → ∀ x, x ∈ s.feed → f ∈ s.follows → Recorded s x :=
    fun hw x hx hf => ho hw (.inl hf) x hx
  refine ⟨fun hp hb x hx y hy hlt hrec => ?_, fun p hp => ?_, h.done,
    fun t ht => Nat.le_succ_of_le (h.seeded_le t ht), fun t ht => ⟨(h.seeded t ht).1, fun e he hlt => ?_⟩,
    h.quiet⟩
  · rcases List.mem_cons.mp hx with rfl | hx <;> rcases List.mem_cons.mp hy with rfl | hy
    · exact hrec
    · exact absurd hlt (hnew hy)
    · exact hgap (.inl hb) x hx hrec
    · exact h.rest hp hb x hx y hy hlt hrec
  · have hw : Watching s := .inr (by rw [Option.mem_def.mp hp]; rfl)
    have hpwf := hwf.poll p hp
    obtain ⟨hbase, hknown, hfound, hgapless, holder, hagain, hstop, hquiet⟩ := h.poll p hp
    have hpage : ∀ {e}, e ∈ p.followers → ¬ s.next < e.since := fun he hlt =>
      absurd (hpwf.lt_next _ he) (Nat.lt_asymm hlt)
    refine ⟨hbase, hknown, fun x hx hlt => ?_, fun x hx y hy hlt hrec => ?_, fun e he x hx hlt => ?_,
      fun e he y hy heq hlt x hx hxy => ?_, fun hb e he hk x hx hlt => ?_,
      fun hb t ht e he hlt => ?_⟩
    · rcases List.mem_cons.mp hx with rfl | hx
      · exact absurd hpwf.start_le (Nat.not_le.mpr hlt)
      · exact hfound x hx hlt
    · rcases List.mem_cons.mp hx with rfl | hx <;> rcases List.mem_cons.mp hy with rfl | hy
      · exact .inl hrec
      · exact absurd hlt (hnew hy)
      · exact .inl (hgap hw x hx hrec)
      · exact hgapless x hx y hy hlt hrec
    · rcases List.mem_cons.mp hx with rfl | hx
      · exact absurd hlt (hpage he)
      · exact holder e he x hx hlt
    · rcases List.mem_cons.mp hx with rfl | hx <;> rcases List.mem_cons.mp hy with rfl | hy
      · exact absurd hxy (Nat.lt_irrefl _)
      · exact absurd hxy (hnew hy)
      · exact ho hw (.inr ⟨p, hp, e, he, heq.symm⟩) x hx
      · exact hagain e he y hy heq hlt x hx hxy
    · have hx : x ∈ s.feed := by
        rcases List.mem_cons.mp hx with rfl | hx
        · rcases he with he | he
          · rcases List.mem_cons.mp he with rfl | he
            · exact absurd hlt (Nat.lt_irrefl _)
            · exact absurd hlt (hnew he)
          · exact absurd hlt (hpage he)
        · exact hx
      rcases he with he | he
      · rcases List.mem_cons.mp he with rfl | he
        · exact hgap hw x hx (hknown hk)
        · exact hstop hb e (.inl he) hk x hx hlt
      · exact hstop hb e (.inr he) hk x hx hlt
    · rcases he with he | he
      · rcases List.mem_cons.mp he with rfl | he
        · exact absurd (h.seeded_le t ht) (Nat.not_le.mpr hlt)
        · exact hquiet hb t ht e (.inl he) hlt
      · exact hquiet hb t ht e (.inr he) hlt
  · rcases List.mem_cons.mp he with rfl | he
    · exact absurd (h.seeded_le t ht) (Nat.not_le.mpr hlt)
    · exact (h.seeded t ht).2 e he hlt

theorem inv_unfollow (h : Inv s) (hs : step s (.unfollow f) = some s') : Inv s' := by
  cases hs
  have hmem : ∀ {z}, z ∈ s.feed.filter (·.follower ≠ f) → z ∈ s.feed := fun hz =>
    (List.mem_filter.mp hz).1
  refine ⟨fun hp hb x hx y hy => h.rest hp hb x (hmem hx) y (hmem hy), fun p hp => ?_, h.done,
    h.seeded_le, fun t ht => ⟨(h.seeded t ht).1, fun e he => (h.seeded t ht).2 e (hmem he)⟩, h.quiet⟩
  obtain ⟨hbase, hknown, hfound, hgapless, holder, hagain, hstop, hquiet⟩ := h.poll p hp
  exact ⟨hbase, hknown, fun x hx => hfound x (hmem hx),
    fun x hx y hy => hgapless x (hmem hx) y (hmem hy), fun e he x hx => holder e he x (hmem hx),
    fun e he y hy heq hlt x hx => hagain e he y (hmem hy) heq hlt x (hmem hx),
    fun hb e he hk x hx => hstop hb e (he.imp_left hmem) hk x (hmem hx),
    fun hb t ht e he => hquiet hb t ht e (he.imp_left hmem)⟩

theorem inv_addRow (h : Inv s) (ho : Orderly s (.addRow f)) (hs : step s (.addRow f) = some s') :
    Inv s' := by
  cases hs
  have hmono : ∀ {z}, Recorded s z → z.follower ∈ insertRow s.follows f := fun hz =>
    mem_insertRow.mpr (.inr hz)
  refine ⟨fun hp hb x hx y hy hlt hrec => ?_, fun p hp => ?_, h.done, h.seeded_le,
    fun t ht => ⟨(h.seeded t ht).1, fun e he hlt => hmono ((h.seeded t ht).2 e he hlt)⟩, h.quiet⟩
  · refine hmono ?_
    rcases mem_insertRow.mp hrec with hf | hrec
    · exact ho (.inl hb) y hy hf x hx hlt
    · exact h.rest hp hb x hx y hy hlt hrec
  · have hw : Watching s := .inr (by rw [Option.mem_def.mp hp]; rfl)
    obtain ⟨hbase, hknown, hfound, hgapless, holder, hagain, hstop, hquiet⟩ := h.poll p hp
    refine ⟨hbase, fun hf => mem_insertRow.mpr (.inr (hknown hf)),
      fun x hx hlt => (hfound x hx hlt).imp_left hmono, fun x hx y hy hlt hrec => ?_, holder,
      fun e he y hy heq hlt x hx hxy => hmono (hagain e he y hy heq hlt x hx hxy),
      fun hb e he hk x hx hlt => hmono (hstop hb e he hk x hx hlt), hquiet⟩
    rcases mem_insertRow.mp hrec with hf | hrec
    · exact .inl (hmono (ho hw y hy hf x hx hlt))
    · exact (hgapless x hx y hy hlt hrec).imp_left hmono

theorem inv_deleteRow (h : Inv s) (ho : Orderly s (.deleteRow f))
    (hs : step s (.deleteRow f) = some s') : Inv s' := by
  cases hs
  have hof : ∀ {z : Nat}, z ∈ s.follows.filter (· ≠ f) → z ∈ s.follows := fun hz =>
    (List.mem_filter.mp hz).1
  have hkeep : ∀ {z : Entry}, Watching s → z ∈ s.feed → Recorded s z →
      z.follower ∈ s.follows.filter (· ≠ f) := fun hw hz hrec =>
    List.mem_filter.mpr ⟨hrec, decide_eq_true ((ho hw).1 _ hz)⟩
  refine ⟨fun hp hb x hx y hy hlt hrec => ?_, fun p hp => ?_, h.done, h.seeded_le,
    fun t ht => ⟨(h.seeded t ht).1, fun e he hlt => ?_⟩, h.quiet⟩
  · exact hkeep (.inl hb) hx (h.rest hp hb x hx y hy hlt (hof hrec))
  · have hw : Watching s := .inr (by rw [Option.mem_def.mp hp]; rfl)
    obtain ⟨hbase, hknown, hfound, hgapless, holder, hagain, hstop, hquiet⟩ := h.poll p hp
    refine ⟨hbase, fun {g} hg => List.mem_filter.mpr ⟨hknown hg, decide_eq_true ?_⟩,
      fun x hx hlt => (hfound x hx hlt).imp_left (hkeep hw hx),
      fun x hx y hy hlt hrec => (hgapless x hx y hy hlt (hof hrec)).imp_left (hkeep hw hx), holder,
      fun e he y hy heq hlt x hx hxy => hkeep hw hx (hagain e he y hy heq hlt x hx hxy),
      fun hb e he hk x hx hlt => hkeep hw hx (hstop hb e he hk x hx hlt), hquiet⟩
    rintro rfl
    exact (ho hw).2 p hp hg
  · exact hkeep (.inl (h.seeded t ht).1) he ((h.seeded t ht).2 e he hlt)

theorem inv_start (h : Inv s) (hs : step s .start = some s') : Inv s' := by
  simp only [step, Option.ite_none_right_eq_some, Option.some.injEq] at hs
  obtain ⟨hnone, rfl⟩ := hs
  refine ⟨by simp [setPoll], fun p hp => ?_, h.done, h.seeded_le, h.seeded, h.quiet⟩
  cases hp
  refine ⟨rfl, fun hf => hf, fun x _ _ => .inr (.inr ⟨rfl, by simp⟩),
    fun x _ y _ _ _ => .inr (.inr ⟨rfl, by simp⟩), by simp, by simp, fun hb e he hk x hx hlt => ?_,
    fun hb t ht e he hlt => ?_⟩
  · have he : e ∈ s.feed := he.resolve_right (by simp)
    exact h.rest hnone hb x hx e he hlt hk
  · have he : e ∈ s.feed := he.resolve_right (by simp)
    exact (h.seeded t ht).2 e he hlt

theorem inv_fetch {n : Nat} {last : Bool} (h : Inv s) (hwf : WF s)
    (hs : step s (.fetch n last) = some s') : Inv s' := by
  obtain ⟨p, hp, ⟨hnil, -, -, -, hn, hlast⟩, rfl⟩ := fetch_eq_some.mp hs
  obtain ⟨hbase, hknown, hfound, hgapless, -, -, hstop, hquiet⟩ := h.poll p hp
  have hpend : ∀ {x}, x ∈ s.feed → p.Pending x → (fetched s p n last).Pending x := by
    intro x hx hpx
    refine pending_fetched hwf hn hlast (mem_older.mpr ⟨hx, ?_⟩)
    rcases hpx with hpx | hpx
    · rw [hnil] at hpx
      cases hpx
    · exact hpx.2
  have hpage : ∀ {e}, e ∈ (fetched s p n last).followers → e ∈ older s.feed p.cursor :=
    fun he => List.mem_of_mem_take he
  have hfeed : ∀ {e}, e ∈ s.feed ∨ e ∈ (fetched s p n last).followers → e ∈ s.feed ∨ e ∈ p.followers :=
    fun he => .inl (he.elim id fun he => (mem_older.mp (hpage he)).1)
  refine ⟨by simp [setPoll], fun q hq => ?_, h.done, h.seeded_le, h.seeded, h.quiet⟩
  cases hq
  refine ⟨hbase, hknown, fun x hx hlt => (hfound x hx hlt).imp_right (hpend hx),
    fun x hx y hy hlt hrec => (hgapless x hx y hy hlt hrec).imp_right (hpend hx),
    fun e he x hx hlt => ?_, fun e he y hy heq hlt => ?_,
    fun hb e he => hstop hb e (hfeed he), fun hb t ht e he => hquiet hb t ht e (hfeed he)⟩
  · obtain ⟨-, hc⟩ := mem_older.mp (hpage he)
    exact pending_fetched hwf hn hlast
      (mem_older.mpr ⟨hx, fun c hc' => Nat.lt_trans hlt (hc c hc')⟩)
  · have he : e ∈ s.feed := (mem_older.mp (hpage he)).1
    rw [List.inj_on_of_nodup_map hwf.nodup hy he heq] at hlt
    exact absurd hlt (Nat.lt_irrefl _)

/-- The poll goes on to the rest of the page; its first follower has a row. -/
theorem Inv.advance (h : Inv s) (hwf : WF s) (hp : s.poll = some p) {rest : List Entry}
    (heq : p.followers = e :: rest) {follows : List Nat} {notified : List Entry}
    (hfollows : ∀ {f}, f ∈ follows ↔ f = e.follower ∨ f ∈ s.follows)
    (hquiet : ∀ e ∈ notified, ∃ t ∈ s.seeded, t ≤ e.since) :
    Inv (setPoll { s with follows, notified } { p with followers := rest }) := by
  obtain ⟨hbase, hknown, hfound, hgapless, holder, hagain, hstop, hq⟩ := h.poll p hp
  have hsub : ∀ {x}, x ∈ rest → x ∈ p.followers := fun hx => heq ▸ List.mem_cons_of_mem _ hx
  have hmem : e ∈ p.followers := heq ▸ List.mem_cons_self
  have hmono : ∀ {z}, Recorded s z → z.follower ∈ follows := fun hz => hfollows.mpr (.inr hz)
  have hpend : ∀ {x}, p.Pending x → x.follower ∈ follows ∨
      Poll.Pending { p with followers := rest } x := by
    intro x hx
    rcases hx with hx | hx
    · rw [heq] at hx
      rcases List.mem_cons.mp hx with rfl | hx
      · exact .inl (hfollows.mpr (.inl rfl))
      · exact .inr (.inl hx)
    · exact .inr (.inr hx)
  have hkeep : ∀ {x}, Recorded s x ∨ p.Pending x → x.follower ∈ follows ∨
      Poll.Pending { p with followers := rest } x := fun hx => hx.elim (fun hx => .inl (hmono hx)) hpend
  refine ⟨by simp [setPoll], fun q hp' => ?_, h.done, h.seeded_le,
    fun t ht => ⟨(h.seeded t ht).1, fun e he hlt => hmono ((h.seeded t ht).2 e he hlt)⟩, hquiet⟩
  cases hp'
  refine ⟨hbase, fun hf => hfollows.mpr (.inr (hknown hf)), fun x hx hlt => hkeep (hfound x hx hlt),
    fun x hx y hy hlt hrec => ?_, fun g hg x hx hlt => ?_,
    fun g hg y hy hgy hlt x hx hxy => hmono (hagain g (hsub hg) y hy hgy hlt x hx hxy),
    fun hb g hg hk x hx hlt => hmono (hstop hb g (hg.imp_right hsub) hk x hx hlt),
    fun hb t ht g hg => hq hb t ht g (hg.imp_right hsub)⟩
  · rcases hfollows.mp hrec with hy' | hrec
    · -- a follow of the same follower that is newer than the page
      rcases Nat.lt_or_ge e.since y.since with hnew | hold
      · exact .inl (hmono (hagain e hmem y hy hy' hnew x hx hlt))
      · exact hkeep (.inr (holder e hmem x hx (Nat.lt_of_lt_of_le hlt hold)))
    · exact hkeep (hgapless x hx y hy hlt hrec)
  · have hge : g.since < e.since :=
      (List.pairwise_cons.mp (heq ▸ (hwf.poll p hp).sorted)).1 g hg
    rcases holder g (hsub hg) x hx hlt with hx' | hx'
    · rw [heq] at hx'
      rcases List.mem_cons.mp hx' with rfl | hx'
      · exact absurd hge (Nat.lt_asymm hlt)
      · exact .inl hx'
    · exact .inr hx'

/-- What is pending behind a follower that is known has a row. -/
theorem Inv.recorded_of_known (h : Inv s) (hwf : WF s) (hp : s.poll = some p) {rest : List Entry}
    (heq : p.followers = e :: rest) (hk : e.follower ∈ p.knownFollowerIds)
    (hb : p.isBaselineDone = true) (hx : x ∈ s.feed) (hpx : p.Pending x) : Recorded s x := by
  have hpwf := hwf.poll p hp
  have hmem : e ∈ p.followers := heq ▸ List.mem_cons_self
  rcases hpx with hpx | ⟨-, hc⟩
  · rw [heq] at hpx
    rcases List.mem_cons.mp hpx with rfl | hpx
    · exact (h.poll p hp).known hk
    · exact (h.poll p hp).stop hb e (.inr hmem) hk x hx
        ((List.pairwise_cons.mp (heq ▸ hpwf.sorted)).1 x hpx)
  · obtain ⟨c, hc', hle⟩ := hpwf.cursor_le e hmem
    exact (h.poll p hp).stop hb e (.inr hmem) hk x hx (Nat.lt_of_lt_of_le (hc c hc') hle)

/-- A poll whose page is used up has nothing pending, or stops before what has rows. -/
theorem recorded_of_finish (hp : s.poll = some p) (hnil : p.followers = [])
    (ho : Orderly s .finish) (hx : x ∈ s.feed) (hpx : p.Pending x) : Recorded s x := by
  rcases hpx with hpx | ⟨hend, hc⟩
  · rw [hnil] at hpx
    cases hpx
  · rcases ho p hp with hend' | hall
    · rw [hend] at hend'
      cases hend'
    · exact hall x (mem_older.mpr ⟨hx, hc⟩)

theorem inv_step {a : Action} (hwf : WF s) (h : Inv s) (ho : Orderly s a)
    (hs : step s a = some s') : Inv s' := by
  cases a with
  | follow f => exact inv_follow h hwf ho hs
  | unfollow f => exact inv_unfollow h hs
  | addRow f => exact inv_addRow h ho hs
  | deleteRow f => exact inv_deleteRow h ho hs
  | start => exact inv_start h hs
  | fetch n last => exact inv_fetch h hwf hs
  | next =>
    obtain ⟨p, hp, e, rest, heq, hcase⟩ := next_eq_some.mp hs
    have hpinv := h.poll p hp
    rcases hcase with ⟨hk, hb, rfl⟩ | ⟨hk, hb, rfl⟩ | ⟨hk, rfl⟩
    · exact (h.ended hwf hp fun x hx hpx => h.recorded_of_known hwf hp heq hk hb hx hpx).1
    · refine h.advance hwf hp heq (fun {f} => ?_) h.quiet
      exact ⟨.inr, fun hf => hf.elim (fun hf => hf ▸ hpinv.known hk) id⟩
    · refine h.advance hwf hp heq mem_insertRow fun g hg => ?_
      split at hg
      · rename_i hb
        rcases List.mem_cons.mp hg with rfl | hg
        · obtain ⟨t, ht⟩ := Option.isSome_iff_exists.mp (h.done (hpinv.baseline ▸ hb))
          refine ⟨t, ht, Nat.le_of_not_lt fun hlt => hk ?_⟩
          exact hpinv.quiet hb t ht g (.inr (heq ▸ List.mem_cons_self)) hlt
        · exact h.quiet g hg
      · exact h.quiet g hg
  | skip =>
    obtain ⟨p, hp, hs⟩ := onPoll_eq_some.mp hs
    split at hs <;> cases hs
    rename_i e rest heq
    have hrec : Recorded s e := ho p hp e (by rw [heq]; rfl)
    refine h.advance hwf hp heq (fun {f} => ?_) h.quiet
    exact ⟨.inr, fun hf => hf.elim (fun hf => hf ▸ hrec) id⟩
  | finish =>
    obtain ⟨p, hp, hs⟩ := onPoll_eq_some.mp hs
    simp only [Option.ite_none_right_eq_some, Option.some.injEq] at hs
    obtain ⟨⟨hnil, -⟩, rfl⟩ := hs
    exact (h.ended hwf hp fun x hx hpx => recorded_of_finish hp hnil ho hx hpx).1
  | fail =>
    obtain ⟨p, hp, hs⟩ := onPoll_eq_some.mp hs
    cases hs
    exact ⟨fun _ hb => ho hb, by simp, h.done, h.seeded_le, h.seeded, h.quiet⟩

/-- A poll that ends has found what was there when it began. -/
theorem found_step {a : Action} (hwf : WF s) (h : Inv s) (ho : Orderly s a)
    (hp : s.poll = some p) (hs : step s a = some s') (hend : s'.poll = none) (ha : a ≠ .fail) :
    ∀ x ∈ s'.feed, x.since < p.start → Recorded s' x := by
  cases a with
  | follow f =>
    simp only [step, Option.ite_none_left_eq_some, Option.some.injEq] at hs
    obtain ⟨-, rfl⟩ := hs
    rw [hp] at hend
    cases hend
  | unfollow f | addRow f | deleteRow f =>
    cases hs
    rw [hp] at hend
    cases hend
  | start =>
    simp only [step, Option.ite_none_right_eq_some] at hs
    rw [hp] at hs
    cases hs.1
  | fetch n last =>
    obtain ⟨q, -, -, rfl⟩ := fetch_eq_some.mp hs
    cases hend
  | next =>
    obtain ⟨q, hq, e, rest, heq, hcase⟩ := next_eq_some.mp hs
    rw [hp, Option.some.injEq] at hq
    subst hq
    rcases hcase with ⟨hk, hb, rfl⟩ | ⟨-, -, rfl⟩ | ⟨-, rfl⟩
    · exact (h.ended hwf hp fun x hx hpx => h.recorded_of_known hwf hp heq hk hb hx hpx).2
    · cases hend
    · cases hend
  | skip =>
    obtain ⟨q, -, hs⟩ := onPoll_eq_some.mp hs
    split at hs <;> cases hs
    cases hend
  | finish =>
    obtain ⟨q, hq, hs⟩ := onPoll_eq_some.mp hs
    rw [hp, Option.some.injEq] at hq
    subst hq
    simp only [Option.ite_none_right_eq_some, Option.some.injEq] at hs
    obtain ⟨⟨hnil, -⟩, rfl⟩ := hs
    exact (h.ended hwf hp fun x hx hpx => recorded_of_finish hp hnil ho hx hpx).2
  | fail => exact absurd rfl ha

end InvSteps

theorem wf_run {as : List Action} {s : State} (hr : machine.run init as = some s) : WF s :=
  machine.run_inv (fun h hs => wf_step h hs) wf_init hr

theorem inv_run {as : List Action} {s : State} (hr : machine.run init as = some s)
    (ho : machine.Along Orderly init as) : WF s ∧ Inv s :=
  machine.run_inv_along (I := fun s => WF s ∧ Inv s)
    (fun ⟨hwf, h⟩ ho hs => ⟨wf_step hwf hs, inv_step hwf h ho hs⟩) ⟨wf_init, inv_init⟩ ho hr

/-- `x` has no row and follows since before `y`, which has one, and no poll has come to `y`. -/
structure Missed (x y : Entry) (s : State) : Prop where
  missed : x ∈ s.feed
  seen : y ∈ s.feed
  since : x.since < y.since
  no_row : ¬ Recorded s x
  row : Recorded s y
  done : s.baselineDone = true
  poll : ∀ p ∈ s.poll, p.isBaselineDone = true ∧ y.follower ∈ p.knownFollowerIds ∧ p.Pending y ∧
    ∀ e ∈ p.followers, e.follower = x.follower → e = x

section Missed

variable {s s' : State} {x y : Entry}

theorem Missed.ended {p : Poll} (h : Missed x y s) (hp : s.poll = some p) :
    Missed x y (ended s p) := by
  simp only [FollowerPoll.ended, (h.poll p hp).1, if_true]
  exact ⟨h.missed, h.seen, h.since, h.no_row, h.row, h.done, by simp⟩

/-- The first follower of the page is not `x`, as `y` comes first. -/
theorem Missed.head_ne {p : Poll} {e : Entry} {rest : List Entry} (h : Missed x y s) (hwf : WF s)
    (hp : s.poll = some p) (heq : p.followers = e :: rest) : e.follower ≠ x.follower := by
  obtain ⟨-, -, hpend, honly⟩ := h.poll p hp
  have hpwf := hwf.poll p hp
  have hmem : e ∈ p.followers := heq ▸ List.mem_cons_self
  intro hef
  obtain rfl := honly e hmem hef
  rcases hpend with hy | ⟨-, hc⟩
  · rw [heq] at hy
    rcases List.mem_cons.mp hy with rfl | hy
    · exact absurd h.since (Nat.lt_irrefl _)
    · exact absurd ((List.pairwise_cons.mp (heq ▸ hpwf.sorted)).1 y hy) (Nat.lt_asymm h.since)
  · obtain ⟨c, hc', hle⟩ := hpwf.cursor_le e hmem
    exact absurd (Nat.lt_trans h.since (hc c hc')) (Nat.not_lt.mpr hle)

/-- The poll goes past a follower that is not `y`. -/
theorem Missed.advance {p : Poll} {e : Entry} {rest : List Entry} (h : Missed x y s)
    (hp : s.poll = some p) (heq : p.followers = e :: rest) (hne : e ≠ y) {follows : List Nat}
    {notified : List Entry} (hx : x.follower ∉ follows) (hy : y.follower ∈ follows) :
    Missed x y (setPoll { s with follows, notified } { p with followers := rest }) := by
  obtain ⟨hb, hk, hpend, honly⟩ := h.poll p hp
  refine ⟨h.missed, h.seen, h.since, hx, hy, h.done, fun q hq => ?_⟩
  cases hq
  refine ⟨hb, hk, hpend.imp_left fun hy => ?_, fun e he =>
    honly e (heq ▸ List.mem_cons_of_mem _ he)⟩
  rw [heq] at hy
  exact (List.mem_cons.mp hy).resolve_left fun heq => hne heq.symm

theorem missed_step {a : Action} (hwf : WF s) (h : Missed x y s) (hu : Undisturbed x y s a)
    (hs : step s a = some s') : Missed x y s' := by
  cases a with
  | follow f =>
    simp only [step, Option.ite_none_left_eq_some, Option.some.injEq] at hs
    obtain ⟨-, rfl⟩ := hs
    exact ⟨List.mem_cons_of_mem _ h.missed, List.mem_cons_of_mem _ h.seen, h.since, h.no_row, h.row,
      h.done, h.poll⟩
  | unfollow f =>
    cases hs
    exact ⟨List.mem_filter.mpr ⟨h.missed, decide_eq_true hu.1.symm⟩,
      List.mem_filter.mpr ⟨h.seen, decide_eq_true hu.2.symm⟩, h.since, h.no_row, h.row, h.done,
      h.poll⟩
  | addRow f =>
    cases hs
    refine ⟨h.missed, h.seen, h.since, fun hx => ?_, mem_insertRow.mpr (.inr h.row), h.done, h.poll⟩
    rcases mem_insertRow.mp hx with hx | hx
    · exact hu hx.symm
    · exact h.no_row hx
  | deleteRow f =>
    cases hs
    exact ⟨h.missed, h.seen, h.since, fun hx => h.no_row (List.mem_filter.mp hx).1,
      List.mem_filter.mpr ⟨h.row, decide_eq_true hu.symm⟩, h.done, h.poll⟩
  | start =>
    simp only [step, Option.ite_none_right_eq_some, Option.some.injEq] at hs
    obtain ⟨-, rfl⟩ := hs
    refine ⟨h.missed, h.seen, h.since, h.no_row, h.row, h.done, fun p hp => ?_⟩
    cases hp
    exact ⟨h.done, h.row, .inr ⟨rfl, by simp⟩, by simp⟩
  | fetch n last =>
    obtain ⟨p, hp, ⟨hnil, -, -, -, hn, hlast⟩, rfl⟩ := fetch_eq_some.mp hs
    obtain ⟨hb, hk, hpend, -⟩ := h.poll p hp
    refine ⟨h.missed, h.seen, h.since, h.no_row, h.row, h.done, fun q hq => ?_⟩
    cases hq
    refine ⟨hb, hk, pending_fetched hwf hn hlast (mem_older.mpr ⟨h.seen, ?_⟩), fun e he hef => ?_⟩
    · rcases hpend with hy | hy
      · rw [hnil] at hy
        cases hy
      · exact hy.2
    · have he : e ∈ s.feed := (mem_older.mp (List.mem_of_mem_take he)).1
      exact List.inj_on_of_nodup_map hwf.nodup he h.missed hef
  | next =>
    obtain ⟨p, hp, e, rest, heq, hcase⟩ := next_eq_some.mp hs
    obtain ⟨hb, hk, -, -⟩ := h.poll p hp
    rcases hcase with ⟨-, -, rfl⟩ | ⟨-, hb', rfl⟩ | ⟨hne, rfl⟩
    · exact h.ended hp
    · rw [hb] at hb'
      cases hb'
    · refine h.advance hp heq (fun hey => hne (hey ▸ hk)) (fun hx => ?_)
        (mem_insertRow.mpr (.inr h.row))
      rcases mem_insertRow.mp hx with hx | hx
      · exact h.head_ne hwf hp heq hx.symm
      · exact h.no_row hx
  | skip =>
    obtain ⟨p, hp, hs⟩ := onPoll_eq_some.mp hs
    split at hs <;> cases hs
    rename_i e rest heq
    have hne := hu p hp
    rw [heq] at hne
    exact h.advance hp heq (fun hey => hne (hey ▸ rfl)) h.no_row h.row
  | finish =>
    obtain ⟨p, hp, hs⟩ := onPoll_eq_some.mp hs
    simp only [Option.ite_none_right_eq_some, Option.some.injEq] at hs
    obtain ⟨-, rfl⟩ := hs
    exact h.ended hp
  | fail =>
    obtain ⟨p, hp, hs⟩ := onPoll_eq_some.mp hs
    cases hs
    exact ⟨h.missed, h.seen, h.since, h.no_row, h.row, h.done, by simp⟩

/-- A follower without a row is not found any more once a newer one has a row. -/
theorem missed_for_good {as bs : List Action} {t : State} (hr : machine.run init as = some s)
    (hrest : s.poll = none) (hdone : s.baselineDone = true) (hx : x ∈ s.feed) (hy : y ∈ s.feed)
    (hxy : x.since < y.since) (hrow : Recorded s y) (hno : ¬ Recorded s x)
    (hrun : machine.run s bs = some t) (hu : machine.Along (Undisturbed x y) s bs) :
    x ∈ t.feed ∧ ¬ Recorded t x := by
  have hinit : Missed x y s := ⟨hx, hy, hxy, hno, hrow, hdone, by simp [hrest]⟩
  have h := machine.run_inv_along (I := fun s => WF s ∧ Missed x y s)
    (fun ⟨hwf, h⟩ hu hs => ⟨wf_step hwf hs, missed_step hwf h hu hs⟩) ⟨wf_run hr, hinit⟩ hu hrun
  exact ⟨h.2.missed, h.2.no_row⟩

theorem missed_for_good_overtaken : ∃ s t, machine.run init overtaken = some s ∧
    machine.run s twoMore = some t ∧ ⟨1, 2⟩ ∈ t.feed ∧ ¬ Recorded t ⟨1, 2⟩ := by
  obtain ⟨s, hs⟩ : ∃ s, machine.run init overtaken = some s :=
    Option.isSome_iff_exists.mp (by decide)
  have hinit : ∀ s ∈ machine.run init overtaken, s.poll = none ∧ s.baselineDone = true ∧
      ⟨1, 2⟩ ∈ s.feed ∧ ⟨2, 3⟩ ∈ s.feed ∧ Recorded s ⟨2, 3⟩ ∧ ¬ Recorded s ⟨1, 2⟩ := by decide
  have hsome : ∀ s ∈ machine.run init overtaken, (machine.run s twoMore).isSome = true := by decide
  have hu : ∀ s ∈ machine.run init overtaken,
      machine.Along (Undisturbed ⟨1, 2⟩ ⟨2, 3⟩) s twoMore := by decide
  obtain ⟨t, ht⟩ := Option.isSome_iff_exists.mp (hsome s hs)
  obtain ⟨hp, hb, hx, hy, hrow, hno⟩ := hinit s hs
  exact ⟨s, t, hs, ht, missed_for_good hs hp hb hx hy (by decide) hrow hno ht (hu s hs)⟩

end Missed

end Seiran.FollowerPoll
