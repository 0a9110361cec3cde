import Mathlib.Data.List.Sort
import Mathlib.Data.String.Basic

/-!
# Sorted sets

The sorted sets of Redis: members with a score, ordered by the score and, where
that is equal, by the member. The order of strings is that of their bytes.

* `mem_zadd`, `mem_zrem`: what is in a set after a command;
* `perm_zadd`, `perm_zrem`: the same with the number of times, for a new
  member and for one that is there;
* `popMin_eq_some`: what is popped is the first.
-/

namespace Seiran

/-- A member and its score. -/
structure ZEntry where
  score : Int
  member : String
deriving DecidableEq

namespace ZEntry

def le (a b : ZEntry) : Prop := a.score < b.score ∨ a.score = b.score ∧ a.member ≤ b.member

instance : DecidableRel le := fun a b =>
  inferInstanceAs (Decidable (a.score < b.score ∨ a.score = b.score ∧ a.member ≤ b.member))

instance : Std.Total le := ⟨fun a b => by
  unfold le
  rcases lt_trichotomy a.score b.score with h | h | h
  · exact .inl (.inl h)
  · rcases le_total a.member b.member with hm | hm
    · exact .inl (.inr ⟨h, hm⟩)
    · exact .inr (.inr ⟨h.symm, hm⟩)
  · exact .inr (.inl h)⟩

instance : IsTrans ZEntry le := ⟨fun a b c hab hbc => by
  unfold le at *
  rcases hab with hab | ⟨hab, hm⟩ <;> rcases hbc with hbc | ⟨hbc, hm'⟩
  · exact .inl (hab.trans hbc)
  · exact .inl (hbc ▸ hab)
  · exact .inl (hab ▸ hbc)
  · exact .inr ⟨hab.trans hbc, hm.trans hm'⟩⟩

theorem member_eq_of_le {x y : ZEntry} (hxy : x.le y) (hyx : y.le x) : x.member = y.member := by
  unfold ZEntry.le at *
  rcases hxy with hxy | ⟨_, hxy⟩ <;> rcases hyx with hyx | ⟨_, hyx⟩
  · omega
  · omega
  · omega
  · exact le_antisymm hxy hyx

end ZEntry

structure ZSet where
  entries : List ZEntry
  sorted : entries.Pairwise ZEntry.le
  nodup : (entries.map ZEntry.member).Nodup

namespace ZSet

def empty : ZSet := ⟨[], .nil, .nil⟩

def without (member : String) (s : ZSet) : List ZEntry := s.entries.filter (·.member ≠ member)

theorem mem_without {member : String} {s : ZSet} {x : ZEntry} :
    x ∈ s.without member ↔ x ∈ s.entries ∧ x.member ≠ member := by
  unfold without
  rw [List.mem_filter, decide_eq_true_iff]

/-- `ZREM`, with whether the member was there. -/
def zrem (member : String) (s : ZSet) : Bool × ZSet :=
  (s.entries.any (·.member = member),
    { entries := s.without member
      sorted := s.sorted.filter _
      nodup := s.nodup.sublist (List.filter_sublist.map _) })

/-- `ZADD`: a member that is there gets the new score. -/
def zadd (score : Int) (member : String) (s : ZSet) : ZSet where
  entries := (s.without member).orderedInsert ZEntry.le ⟨score, member⟩
  sorted := (s.sorted.filter _).orderedInsert _ _
  nodup := by
    refine ((List.perm_orderedInsert _ _ _).map _).nodup_iff.mpr ?_
    rw [List.map_cons, List.nodup_cons]
    refine ⟨fun h => ?_, s.nodup.sublist (List.filter_sublist.map _)⟩
    obtain ⟨x, hx, hm⟩ := List.mem_map.mp h
    exact (mem_without.mp hx).2 hm

/-- All but the first member. -/
def tail (s : ZSet) : ZSet where
  entries := s.entries.tail
  sorted := s.sorted.tail
  nodup := by
    rw [List.map_tail]
    exact s.nodup.tail

/-- `ZPOPMIN` -/
def popMin (s : ZSet) : Option (ZEntry × ZSet) := s.entries.head?.map fun x => (x, s.tail)

/-- `ZRANGEBYSCORE` up to a score, with a limit. -/
def upTo (score : Int) (limit : Nat) (s : ZSet) : List ZEntry :=
  (s.entries.filter (·.score ≤ score)).take limit

variable {s : ZSet} {score : Int} {member : String} {x : ZEntry}

theorem mem_zadd : x ∈ (s.zadd score member).entries ↔
    x = ⟨score, member⟩ ∨ x ∈ s.entries ∧ x.member ≠ member := by
  rw [← mem_without]
  exact List.mem_orderedInsert _

theorem mem_zrem : x ∈ (s.zrem member).2.entries ↔ x ∈ s.entries ∧ x.member ≠ member :=
  mem_without

theorem without_of_notMem (h : ∀ x ∈ s.entries, x.member ≠ member) :
    s.without member = s.entries :=
  List.filter_eq_self.mpr fun x hx => decide_eq_true (h x hx)

/-- A member that was not there. -/
theorem perm_zadd (h : ∀ x ∈ s.entries, x.member ≠ member) :
    (s.zadd score member).entries.Perm (⟨score, member⟩ :: s.entries) := by
  have hperm := List.perm_orderedInsert ZEntry.le ⟨score, member⟩ (s.without member)
  rw [without_of_notMem h] at hperm
  show ((s.without member).orderedInsert ZEntry.le ⟨score, member⟩).Perm _
  rw [without_of_notMem h]
  exact hperm

/-- A member that was there. -/
theorem perm_zrem (h : x ∈ s.entries) : s.entries.Perm (x :: (s.zrem x.member).2.entries) := by
  obtain ⟨before, after, heq⟩ := List.append_of_mem h
  have hnodup := s.nodup
  rw [heq, List.map_append, List.map_cons, List.nodup_middle, List.nodup_cons,
    List.mem_append, not_or] at hnodup
  have hne : ∀ y ∈ before ++ after, y.member ≠ x.member := by
    intro y hy hm
    rcases List.mem_append.mp hy with hy | hy
    · exact hnodup.1.1 (hm ▸ List.mem_map_of_mem hy)
    · exact hnodup.1.2 (hm ▸ List.mem_map_of_mem hy)
  have hrest : (s.zrem x.member).2.entries = before ++ after := by
    show s.without x.member = _
    have hfilter := List.filter_eq_self.mpr fun y hy => decide_eq_true (hne y hy)
    rw [List.filter_append] at hfilter
    unfold without
    rw [heq, List.filter_append, List.filter_cons_of_neg (by simp), hfilter]
  rw [hrest, heq]
  exact List.perm_middle

theorem popMin_eq_some {s' : ZSet} :
    s.popMin = some (x, s') ↔ s.entries = x :: s'.entries := by
  cases s with
  | mk entries sorted nodup =>
    cases s' with
    | mk entries' sorted' nodup' =>
      cases entries with
      | nil => simp [popMin]
      | cons y rest => simp [popMin, tail]

end ZSet

end Seiran
