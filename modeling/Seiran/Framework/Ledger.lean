import Mathlib.Data.List.Nodup

/-!
# Who has the key of a record

A store is a list of records under keys. The keys are held elsewhere (in rows, by
processes), and a key is passed on, given up with its record, or got with a new
one. `Ledger` says that each record has one holder and each holder a record.

* `Ledger.move`: a holder passes its key to one that has none;
* `Ledger.drop`: a record is deleted and its key given up;
* `Ledger.add`: a record is made under a new key, for a holder that has none.
-/

namespace Seiran

universe u v w

variable {H : Type u} {K : Type v} {R : Type w}

namespace Store

/-- The records without that under the key -/
def delete [DecidableEq K] (records : List (K × R)) (k : K) : List (K × R) :=
  records.filter fun x => x.1 ≠ k

/-- A record under the key, in the place of one that is there -/
def put [DecidableEq K] (records : List (K × R)) (k : K) (r : R) : List (K × R) :=
  delete records k ++ [(k, r)]

variable [DecidableEq K] {records : List (K × R)} {k : K} {r : R} {x : K × R}

theorem mem_delete : x ∈ delete records k ↔ x ∈ records ∧ x.1 ≠ k := by
  simp [delete]

theorem map_delete : (delete records k).map Prod.fst =
    (records.map Prod.fst).filter fun j => j ≠ k := by
  rw [delete, List.filter_map]
  rfl

theorem put_of_new (hk : k ∉ records.map Prod.fst) : put records k r = records ++ [(k, r)] := by
  rw [put, delete, List.filter_eq_self.mpr]
  intro x hx
  have hne : x.1 ≠ k := fun h => hk (h ▸ List.mem_map_of_mem hx)
  simp [hne]

theorem mem_put (hk : k ∉ records.map Prod.fst) :
    x ∈ put records k r ↔ x ∈ records ∨ x = (k, r) := by
  simp [put_of_new hk]

end Store

/-- `holds h k`: the holder `h` has the key `k`. -/
structure Ledger (holds : H → K → Prop) (keys : List K) : Prop where
  nodup : keys.Nodup
  unique : ∀ {h h' k}, holds h k → holds h' k → h = h'
  backed : ∀ {h k}, holds h k → k ∈ keys
  held : ∀ {k}, k ∈ keys → ∃ h, holds h k

namespace Ledger

variable {holds holds' : H → K → Prop} {keys : List K} {k₀ : K}

theorem empty (hno : ∀ h k, ¬ holds h k) : Ledger holds ([] : List K) where
  nodup := List.nodup_nil
  unique h := absurd h (hno _ _)
  backed h := absurd h (hno _ _)
  held h := absurd h List.not_mem_nil

theorem congr (l : Ledger holds keys) (hiff : ∀ h k, holds' h k ↔ holds h k) :
    Ledger holds' keys where
  nodup := l.nodup
  unique h h' := l.unique ((hiff _ _).mp h) ((hiff _ _).mp h')
  backed h := l.backed ((hiff _ _).mp h)
  held hk := by
    obtain ⟨h, hh⟩ := l.held hk
    exact ⟨h, (hiff _ _).mpr hh⟩

/-- The keys of `src` are passed to `dst`, which has none. -/
theorem move (src dst : H) (l : Ledger holds keys) (hdst : ∀ k, ¬ holds dst k)
    (hto : ∀ k, holds' dst k ↔ holds src k) (hfrom : ∀ k, ¬ holds' src k)
    (hrest : ∀ h k, h ≠ src → h ≠ dst → (holds' h k ↔ holds h k)) : Ledger holds' keys := by
  have hback : ∀ {h k}, holds' h k → h = dst ∧ holds src k ∨ h ≠ src ∧ h ≠ dst ∧ holds h k := by
    intro h k hh
    by_cases hd : h = dst
    · subst hd
      exact .inl ⟨rfl, (hto k).mp hh⟩
    · have hs : h ≠ src := by
        rintro rfl
        exact hfrom k hh
      exact .inr ⟨hs, hd, (hrest h k hs hd).mp hh⟩
  refine ⟨l.nodup, fun h h' => ?_, fun h => ?_, fun hk => ?_⟩
  · rcases hback h with ⟨rfl, h⟩ | ⟨hs, hd, h⟩ <;> rcases hback h' with ⟨rfl, h'⟩ | ⟨hs', hd', h'⟩
    · rfl
    · exact absurd (l.unique h' h) hs'
    · exact absurd (l.unique h h') hs
    · exact l.unique h h'
  · rcases hback h with ⟨-, h⟩ | ⟨-, -, h⟩
    · exact l.backed h
    · exact l.backed h
  · obtain ⟨h, hh⟩ := l.held hk
    by_cases hs : h = src
    · subst hs
      exact ⟨dst, (hto _).mpr hh⟩
    · have hd : h ≠ dst := by
        rintro rfl
        exact hdst _ hh
      exact ⟨h, (hrest h _ hs hd).mpr hh⟩

/-- The record under a key is deleted with what its holder has. -/
theorem drop [DecidableEq K] (l : Ledger holds keys)
    (hiff : ∀ h k, holds' h k ↔ holds h k ∧ k ≠ k₀) :
    Ledger holds' (keys.filter fun k => k ≠ k₀) where
  nodup := l.nodup.filter _
  unique h h' := l.unique ((hiff _ _).mp h).1 ((hiff _ _).mp h').1
  backed h := by
    obtain ⟨h, hne⟩ := (hiff _ _).mp h
    simp [l.backed h, hne]
  held hk := by
    obtain ⟨hk, hne⟩ := List.mem_filter.mp hk
    obtain ⟨h, hh⟩ := l.held hk
    exact ⟨h, (hiff _ _).mpr ⟨hh, of_decide_eq_true hne⟩⟩

/-- A record is made under a new key, which a holder without one gets. -/
theorem add (h₀ : H) (l : Ledger holds keys) (hnew : k₀ ∉ keys)
    (hiff : ∀ h k, holds' h k ↔ holds h k ∨ h = h₀ ∧ k = k₀) : Ledger holds' (keys ++ [k₀]) where
  nodup := by
    rw [List.nodup_append']
    refine ⟨l.nodup, List.nodup_singleton _, fun k hk hk₀ => ?_⟩
    exact hnew (List.mem_singleton.mp hk₀ ▸ hk)
  unique h h' := by
    rcases (hiff _ _).mp h with h | ⟨rfl, rfl⟩ <;> rcases (hiff _ _).mp h' with h' | ⟨rfl, h'⟩
    · exact l.unique h h'
    · exact absurd (l.backed h) (h' ▸ hnew)
    · exact absurd (l.backed h') hnew
    · rfl
  backed h := by
    rcases (hiff _ _).mp h with h | ⟨-, rfl⟩
    · exact List.mem_append_left _ (l.backed h)
    · simp
  held hk := by
    rcases List.mem_append.mp hk with hk | hk
    · obtain ⟨h, hh⟩ := l.held hk
      exact ⟨h, (hiff _ _).mpr (.inl hh)⟩
    · exact ⟨h₀, (hiff _ _).mpr (.inr ⟨rfl, List.mem_singleton.mp hk⟩)⟩

end Ledger

end Seiran
