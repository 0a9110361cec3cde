import Mathlib.Data.Multiset.Dedup
import Mathlib.Data.Multiset.UnionInter
import Mathlib.Data.Multiset.AddSub
import Mathlib.Data.Multiset.MapFold

/-!
# Tickets that are good once

Tickets are issued under keys of their own, some of them with the time they expire.
The rows are the tickets that are still there; a row whose key is locked is good for
nothing. A claim on a ticket is a request that found it to be good at some time.

* `Tickets.issue`: tickets with new keys are issued;
* `Tickets.keep`: rows go, claims are given up, and keys are locked;
* `Tickets.claim`: a row that is not locked is claimed, and goes or is locked.
-/

namespace Seiran

universe u v

variable {K : Type u} {T : Type v} [Preorder T]

structure Tickets (issued rows : Multiset (K × Option T)) (locked : K → Prop)
    (claims : Multiset (K × T)) : Prop where
  nodup : (issued.map Prod.fst).Nodup
  rows_le : rows ≤ issued
  once : (claims.map Prod.fst).Nodup
  claimed : ∀ {k}, k ∈ claims.map Prod.fst → k ∈ issued.map Prod.fst
  spent : ∀ {k}, k ∈ claims.map Prod.fst → k ∈ rows.map Prod.fst → locked k
  inTime : ∀ {k t e}, (k, t) ∈ claims → (k, some e) ∈ issued → t ≤ e

namespace Tickets

variable {issued rows rows' new : Multiset (K × Option T)} {locked locked' : K → Prop}
  {claims claims' : Multiset (K × T)}

theorem empty : Tickets (0 : Multiset (K × Option T)) 0 locked (0 : Multiset (K × T)) where
  nodup := by simp
  rows_le := le_refl _
  once := by simp
  claimed h := by simp at h
  spent h := by simp at h
  inTime h := by simp at h

theorem expiry_unique (t : Tickets issued rows locked claims) {k : K} {e e' : Option T}
    (h : (k, e) ∈ issued) (h' : (k, e') ∈ issued) : e = e' := by
  have heq := Multiset.inj_on_of_nodup_map t.nodup _ h _ h' rfl
  exact congrArg Prod.snd heq

theorem rows_nodup (t : Tickets issued rows locked claims) : (rows.map Prod.fst).Nodup :=
  Multiset.nodup_of_le (Multiset.map_le_map t.rows_le) t.nodup

theorem issue (t : Tickets issued rows locked claims) (hnew : (new.map Prod.fst).Nodup)
    (hfresh : ∀ k ∈ new.map Prod.fst, k ∉ issued.map Prod.fst) (hrows : rows' ≤ rows + new)
    (hlock : ∀ k ∈ rows'.map Prod.fst, k ∈ issued.map Prod.fst → locked k → locked' k) :
    Tickets (issued + new) rows' locked' claims where
  nodup := by
    rw [Multiset.map_add, Multiset.nodup_add]
    exact ⟨t.nodup, hnew, Multiset.disjoint_left.mpr fun hk hk' => hfresh _ hk' hk⟩
  rows_le := le_trans hrows (Multiset.add_le_add_iff_right.mpr t.rows_le)
  once := t.once
  claimed hk := by
    rw [Multiset.map_add, Multiset.mem_add]
    exact Or.inl (t.claimed hk)
  spent {k} hk hr := by
    have hr' := Multiset.mem_of_le (Multiset.map_le_map hrows) hr
    rw [Multiset.map_add, Multiset.mem_add] at hr'
    rcases hr' with hr' | hr'
    · exact hlock k hr (t.claimed hk) (t.spent hk hr')
    · exact absurd (t.claimed hk) (hfresh k hr')
  inTime {k x e} hk hi := by
    rcases Multiset.mem_add.mp hi with hi | hi
    · exact t.inTime hk hi
    · exact absurd (t.claimed (Multiset.mem_map_of_mem Prod.fst hk))
        (hfresh k (Multiset.mem_map_of_mem Prod.fst hi))

theorem keep (t : Tickets issued rows locked claims) (hrows : rows' ≤ rows)
    (hclaims : claims' ≤ claims)
    (hlock : ∀ k ∈ claims'.map Prod.fst, k ∈ rows'.map Prod.fst → locked k → locked' k) :
    Tickets issued rows' locked' claims' where
  nodup := t.nodup
  rows_le := le_trans hrows t.rows_le
  once := Multiset.nodup_of_le (Multiset.map_le_map hclaims) t.once
  claimed hk := t.claimed (Multiset.mem_of_le (Multiset.map_le_map hclaims) hk)
  spent {k} hk hr := hlock k hk hr (t.spent (Multiset.mem_of_le (Multiset.map_le_map hclaims) hk)
    (Multiset.mem_of_le (Multiset.map_le_map hrows) hr))
  inTime hk hi := t.inTime (Multiset.mem_of_le hclaims hk) hi

theorem claim (t : Tickets issued rows locked claims) {k : K} {e : Option T} {now : T}
    (hk : (k, e) ∈ rows) (hgood : ¬ locked k) (htime : ∀ x, e = some x → now ≤ x)
    (hrows : rows' ≤ rows) (hspent : k ∈ rows'.map Prod.fst → locked' k)
    (hlock : ∀ j ∈ rows'.map Prod.fst, locked j → locked' j) :
    Tickets issued rows' locked' (claims + {(k, now)}) where
  nodup := t.nodup
  rows_le := le_trans hrows t.rows_le
  once := by
    rw [Multiset.map_add, Multiset.map_singleton, Multiset.nodup_add]
    refine ⟨t.once, Multiset.nodup_singleton k, ?_⟩
    rw [Multiset.disjoint_singleton]
    exact fun h => hgood (t.spent h (Multiset.mem_map_of_mem Prod.fst hk))
  claimed {j} hj := by
    rw [Multiset.map_add, Multiset.map_singleton, Multiset.mem_add, Multiset.mem_singleton] at hj
    rcases hj with hj | rfl
    · exact t.claimed hj
    · exact Multiset.mem_map_of_mem Prod.fst (Multiset.mem_of_le t.rows_le hk)
  spent {j} hj hr := by
    rw [Multiset.map_add, Multiset.map_singleton, Multiset.mem_add, Multiset.mem_singleton] at hj
    rcases hj with hj | rfl
    · exact hlock j hr (t.spent hj (Multiset.mem_of_le (Multiset.map_le_map hrows) hr))
    · exact hspent hr
  inTime {j x y} hj hi := by
    rw [Multiset.mem_add, Multiset.mem_singleton] at hj
    rcases hj with hj | hj
    · exact t.inTime hj hi
    · obtain ⟨rfl, rfl⟩ := Prod.mk.inj hj
      exact htime y (t.expiry_unique (Multiset.mem_of_le t.rows_le hk) hi)

end Tickets

end Seiran
