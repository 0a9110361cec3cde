import Mathlib.Data.Fintype.Option
import Seiran.Model.Search.Truth

/-!
# What `optimize` makes of a condition

* `mem_optimizeLoop`: the loop collects the parts of the values, or stops at one
  that decides the connective.
* `optimizeList_constant`, `truth_optimizeList`: what is returned, an empty list
  being true for both connectives.
* `asConstant_optimize`, `truth_optimize`: the optimised condition simplifies to a
  constant as `misread` does, and has its truth value.
* `optimize_truth_iff`: so the meaning is kept unless it hinges on an `or` that has
  no branch that can be true.
-/

namespace Seiran.Search

/-! ## Equality of conditions -/

mutual

theorem eq_of_beq_cond : ∀ a b : SearchCondition, a.beq b = true → a = b
  | .text a, b | .from a, b | .mentions a, b | .domain a, b | .since a, b | .until a, b => by
    cases b <;> simp [SearchCondition.beq]
  | .true, b | .false, b => by cases b <;> simp [SearchCondition.beq]
  | .not a, b => by
    cases b <;> simp only [SearchCondition.beq, Bool.false_eq_true, false_implies]
    rename_i b
    intro h
    rw [eq_of_beq_cond a b h]
  | .and as, b => by
    cases b <;> simp only [SearchCondition.beq, Bool.false_eq_true, false_implies]
    rename_i bs
    intro h
    rw [eq_of_beqAll as bs h]
  | .or as, b => by
    cases b <;> simp only [SearchCondition.beq, Bool.false_eq_true, false_implies]
    rename_i bs
    intro h
    rw [eq_of_beqAll as bs h]

theorem eq_of_beqAll : ∀ as bs : List SearchCondition, SearchCondition.beqAll as bs = true → as = bs
  | [], bs => by cases bs <;> simp [SearchCondition.beqAll]
  | a :: as, bs => by
    cases bs with
    | nil => simp [SearchCondition.beqAll]
    | cons b bs =>
      rw [SearchCondition.beqAll, Bool.and_eq_true]
      rintro ⟨h, hs⟩
      rw [eq_of_beq_cond a b h, eq_of_beqAll as bs hs]

end

mutual

theorem beq_cond_self : ∀ a : SearchCondition, a.beq a = true
  | .text _ | .from _ | .mentions _ | .domain _ | .since _ | .until _ => by
    simp [SearchCondition.beq]
  | .true | .false => rfl
  | .not a => beq_cond_self a
  | .and as | .or as => beqAll_self as

theorem beqAll_self : ∀ as : List SearchCondition, SearchCondition.beqAll as as = true
  | [] => rfl
  | a :: as => by rw [SearchCondition.beqAll, beq_cond_self, beqAll_self, Bool.and_self]

end

instance : LawfulBEq SearchCondition where
  eq_of_beq {a b} h := eq_of_beq_cond a b h
  rfl {a} := beq_cond_self a

/-! ## The loop -/

/-- The constant that ends the loop early. -/
def absorbing : Bool → SearchCondition
  | true => .false
  | false => .true

/-- What the loop adds for a value. -/
def parts : Bool → SearchCondition → List SearchCondition
  | true, .true | false, .false => []
  | true, .and items => items
  | false, .or items => items
  | _, value => [value]

theorem mem_pushNew {x item : SearchCondition} {result : List SearchCondition} :
    x ∈ pushNew result item ↔ x ∈ result ∨ x = item := by
  rw [pushNew]
  split
  · rename_i h
    rw [List.contains_iff_mem] at h
    exact ⟨.inl, fun hx => hx.elim id fun hx => hx ▸ h⟩
  · rw [List.mem_append, List.mem_singleton]

theorem mem_foldl_pushNew {x : SearchCondition} {items result : List SearchCondition} :
    x ∈ items.foldl pushNew result ↔ x ∈ result ∨ x ∈ items := by
  induction items generalizing result with
  | nil => simp
  | cons item items ih => rw [List.foldl_cons, ih, mem_pushNew, List.mem_cons, or_assoc]

/-- One turn of the loop with a value that does not end it. -/
theorem optimizeLoop_cons {isAnd : Bool} {value : SearchCondition}
    (values result : List SearchCondition) (h : value ≠ absorbing isAnd) :
    ∃ result', optimizeLoop isAnd (value :: values) result = optimizeLoop isAnd values result' ∧
      ∀ x, x ∈ result' ↔ x ∈ result ∨ x ∈ parts isAnd value := by
  rw [optimizeLoop.eq_def isAnd (value :: values) result]
  simp only
  split
  · exact absurd rfl h
  · exact absurd rfl h
  · exact ⟨result, rfl, fun x => by simp [parts]⟩
  · exact ⟨result, rfl, fun x => by simp [parts]⟩
  · exact ⟨_, rfl, fun x => mem_foldl_pushNew⟩
  · exact ⟨_, rfl, fun x => mem_foldl_pushNew⟩
  · rename_i hand hor
    refine ⟨_, rfl, fun x => ?_⟩
    have hparts : parts isAnd value = [value] := by
      unfold parts
      split <;> simp_all
    rw [hparts, List.mem_singleton, mem_pushNew]

theorem optimizeLoop_absorbing (isAnd : Bool) (values result : List SearchCondition) :
    optimizeLoop isAnd (absorbing isAnd :: values) result = .error (absorbing isAnd) := by
  cases isAnd <;> rfl

/-- The loop ends early if and only if it meets the constant that decides the
connective; otherwise it has collected the parts of all values. -/
theorem mem_optimizeLoop (isAnd : Bool) (values result : List SearchCondition) :
    (absorbing isAnd ∈ values ∧
      optimizeLoop isAnd values result = .error (absorbing isAnd)) ∨
    (absorbing isAnd ∉ values ∧ ∃ result', optimizeLoop isAnd values result = .ok result' ∧
      ∀ x, x ∈ result' ↔ x ∈ result ∨ ∃ value ∈ values, x ∈ parts isAnd value) := by
  induction values generalizing result with
  | nil => exact .inr ⟨List.not_mem_nil, result, rfl, fun x => by simp⟩
  | cons value values ih =>
    by_cases h : value = absorbing isAnd
    · subst h
      exact .inl ⟨List.mem_cons_self, optimizeLoop_absorbing isAnd values result⟩
    · obtain ⟨result₁, hloop, hmem⟩ := optimizeLoop_cons values result h
      rw [hloop, List.mem_cons]
      obtain ⟨hin, herr⟩ | ⟨hout, result', hok, hmem'⟩ := ih result₁
      · exact .inl ⟨.inr hin, herr⟩
      · refine .inr ⟨fun hx => hx.elim (fun hx => h hx.symm) hout, result', hok, fun x => ?_⟩
        rw [hmem', hmem, or_assoc, List.exists_mem_cons_iff]

/-! ## Constants -/

def IsConstant (c : SearchCondition) : Prop := c = .true ∨ c = .false

/-- A value that holds no constant besides itself, and no empty list. -/
inductive Simplified : SearchCondition → Prop
  | text (value : String) : Simplified (.text value)
  | «from» (value : String) : Simplified (.from value)
  | mentions (value : String) : Simplified (.mentions value)
  | domain (value : String) : Simplified (.domain value)
  | since (value : Int) : Simplified (.since value)
  | «until» (value : Int) : Simplified (.until value)
  | true : Simplified .true
  | false : Simplified .false
  | not {inner : SearchCondition} (hs : Simplified inner) (hc : ¬ IsConstant inner) :
    Simplified (.not inner)
  | and {items : List SearchCondition} (hne : items ≠ []) (hs : ∀ item ∈ items, Simplified item)
    (hc : ∀ item ∈ items, ¬ IsConstant item) : Simplified (.and items)
  | or {items : List SearchCondition} (hne : items ≠ []) (hs : ∀ item ∈ items, Simplified item)
    (hc : ∀ item ∈ items, ¬ IsConstant item) : Simplified (.or items)

/-- The constant a condition is. -/
def asConstant : SearchCondition → Option Bool
  | .true => some true
  | .false => some false
  | _ => none

theorem asConstant_eq_none {c : SearchCondition} (h : ¬ IsConstant c) : asConstant c = none := by
  unfold asConstant
  split
  · exact absurd (.inl rfl) h
  · exact absurd (.inr rfl) h
  · rfl

theorem asConstant_eq_true {c : SearchCondition} : asConstant c = some true ↔ c = .true := by
  unfold asConstant
  split <;> simp_all

theorem asConstant_eq_false {c : SearchCondition} : asConstant c = some false ↔ c = .false := by
  unfold asConstant
  split <;> simp_all

theorem parts_simplified {isAnd : Bool} {value x : SearchCondition} (hs : Simplified value)
    (hv : value ≠ absorbing isAnd) (hx : x ∈ parts isAnd value) :
    Simplified x ∧ ¬ IsConstant x := by
  unfold parts at hx
  split at hx
  · exact absurd hx List.not_mem_nil
  · exact absurd hx List.not_mem_nil
  · cases hs with
    | and _ hs hc => exact ⟨hs x hx, hc x hx⟩
  · cases hs with
    | or _ hs hc => exact ⟨hs x hx, hc x hx⟩
  · rename_i h₁ h₂ _ _
    rw [List.mem_singleton] at hx
    subst hx
    refine ⟨hs, fun h => ?_⟩
    cases isAnd
    · exact h.elim hv fun h => h₂ rfl h
    · exact h.elim (fun h => h₁ rfl h) hv

theorem parts_eq_nil {isAnd : Bool} {value : SearchCondition} (hs : Simplified value) :
    parts isAnd value = [] ↔ value = absorbing !isAnd := by
  cases isAnd <;> cases hs <;> simp_all [parts, absorbing]

/-! ## The list of a connective -/

section

variable {v : SearchCondition → Bool}

theorem truthAll_iff {values : List SearchCondition} :
    truthAll v values = true ↔ ∀ value ∈ values, truth v value = true := by
  induction values with
  | nil => simp [truthAll]
  | cons value values ih => simp [truthAll, ih]

theorem truthAny_iff {values : List SearchCondition} :
    truthAny v values = true ↔ ∃ value ∈ values, truth v value = true := by
  induction values with
  | nil => simp [truthAny]
  | cons value values ih => simp [truthAny, ih]

/-- The truth value of a connective with these values. -/
def joined (v : SearchCondition → Bool) : Bool → List SearchCondition → Bool
  | true => truthAll v
  | false => truthAny v

theorem joined_parts (isAnd : Bool) (value : SearchCondition) :
    joined v isAnd (parts isAnd value) = truth v value := by
  unfold parts
  split
  · rfl
  · rfl
  · rfl
  · rfl
  · cases isAnd <;> simp [joined, truthAll, truthAny]

theorem joined_collected {isAnd : Bool} {values result : List SearchCondition}
    (h : ∀ x, x ∈ result ↔ ∃ value ∈ values, x ∈ parts isAnd value) :
    joined v isAnd result = joined v isAnd values := by
  have hparts := joined_parts (v := v) isAnd
  rw [Bool.eq_iff_iff]
  cases isAnd with
  | true =>
    simp only [joined, truthAll_iff]
    constructor
    · intro hr value hv
      rw [← hparts value]
      exact truthAll_iff.mpr fun x hx => hr x ((h x).mpr ⟨value, hv, hx⟩)
    · intro hr x hx
      obtain ⟨value, hv, hx⟩ := (h x).mp hx
      exact truthAll_iff.mp ((hparts value).trans (hr value hv)) x hx
  | false =>
    simp only [joined, truthAny_iff]
    constructor
    · rintro ⟨x, hx, ht⟩
      obtain ⟨value, hv, hx⟩ := (h x).mp hx
      exact ⟨value, hv, (hparts value).symm.trans (truthAny_iff.mpr ⟨x, hx, ht⟩)⟩
    · rintro ⟨value, hv, ht⟩
      obtain ⟨x, hx, ht⟩ := truthAny_iff.mp ((hparts value).trans ht)
      exact ⟨x, (h x).mpr ⟨value, hv, hx⟩, ht⟩

theorem joined_absorbing {isAnd : Bool} {values : List SearchCondition}
    (h : absorbing isAnd ∈ values) : joined v isAnd values = !isAnd := by
  cases isAnd with
  | true => exact Bool.eq_false_iff.mpr fun ht => Bool.false_ne_true (truthAll_iff.mp ht _ h)
  | false => exact truthAny_iff.mpr ⟨_, h, rfl⟩

theorem joined_neutral {isAnd : Bool} {values : List SearchCondition}
    (h : ∀ value ∈ values, value = absorbing !isAnd) : joined v isAnd values = isAnd := by
  cases isAnd with
  | true => exact truthAll_iff.mpr fun value hv => by rw [h value hv]; rfl
  | false =>
    refine Bool.eq_false_iff.mpr fun ht => ?_
    obtain ⟨value, hv, ht⟩ := truthAny_iff.mp ht
    rw [h value hv] at ht
    exact Bool.false_ne_true ht

/-- What `optimize_list` returns when no value decides the connective and some value
matters. -/
theorem optimizeList_proper {isAnd : Bool} {values result : List SearchCondition}
    (hs : ∀ value ∈ values, Simplified value) (hout : absorbing isAnd ∉ values)
    (hsome : ∃ value ∈ values, value ≠ absorbing !isAnd)
    (hok : optimizeLoop isAnd values [] = .ok result)
    (hmem : ∀ x, x ∈ result ↔ ∃ value ∈ values, x ∈ parts isAnd value) :
    Simplified (optimizeList values isAnd) ∧ asConstant (optimizeList values isAnd) = none ∧
      ∀ v, truth v (optimizeList values isAnd) = joined v isAnd values := by
  have hitems : ∀ item ∈ result, Simplified item ∧ ¬ IsConstant item := fun item hi => by
    obtain ⟨value, hv, hx⟩ := (hmem item).mp hi
    exact parts_simplified (hs value hv) (fun h => hout (h ▸ hv)) hx
  have hne : result ≠ [] := by
    obtain ⟨value, hv, hn⟩ := hsome
    obtain ⟨x, hx⟩ := List.exists_mem_of_ne_nil _ (mt (parts_eq_nil (hs value hv)).mp hn)
    exact List.ne_nil_of_mem ((hmem x).mpr ⟨value, hv, hx⟩)
  have hjoined := fun v => joined_collected (v := v) hmem
  rw [optimizeList, hok]
  split
  · rename_i h
    cases h
  · rename_i h
    cases h
    exact absurd rfl hne
  · rename_i value h
    cases h
    have hvalue := hitems value List.mem_cons_self
    refine ⟨hvalue.1, asConstant_eq_none hvalue.2, fun v => ?_⟩
    rw [← hjoined v]
    cases isAnd <;> simp [joined, truthAll, truthAny]
  · rename_i items _ _ h
    cases h
    have hs' := fun item hi => (hitems item hi).1
    have hc' := fun item hi => (hitems item hi).2
    cases isAnd with
    | true => exact ⟨.and hne hs' hc', rfl, hjoined⟩
    | false => exact ⟨.or hne hs' hc', rfl, hjoined⟩

/-- The three outcomes of `optimize_list`. The second is `SearchCondition::True` for
both connectives. -/
theorem optimizeList_cases (isAnd : Bool) {values : List SearchCondition}
    (hs : ∀ value ∈ values, Simplified value) :
    (absorbing isAnd ∈ values ∧ optimizeList values isAnd = absorbing isAnd) ∨
    ((∀ value ∈ values, value = absorbing !isAnd) ∧ optimizeList values isAnd = .true) ∨
    (absorbing isAnd ∉ values ∧ (∃ value ∈ values, value ≠ absorbing !isAnd) ∧
      Simplified (optimizeList values isAnd) ∧ asConstant (optimizeList values isAnd) = none ∧
      ∀ v, truth v (optimizeList values isAnd) = joined v isAnd values) := by
  obtain ⟨hin, herr⟩ | ⟨hout, result, hok, hmem⟩ := mem_optimizeLoop isAnd values []
  · exact .inl ⟨hin, by rw [optimizeList, herr]⟩
  · simp only [List.not_mem_nil, false_or] at hmem
    by_cases hall : ∀ value ∈ values, value = absorbing !isAnd
    · refine .inr (.inl ⟨hall, ?_⟩)
      have hnil : result = [] := by
        refine List.eq_nil_iff_forall_not_mem.mpr fun x hx => ?_
        obtain ⟨value, hv, hx⟩ := (hmem x).mp hx
        rw [(parts_eq_nil (hs value hv)).mpr (hall value hv)] at hx
        exact List.not_mem_nil hx
      rw [optimizeList, hok, hnil]
    · push Not at hall
      exact .inr (.inr ⟨hout, hall, optimizeList_proper hs hout hall hok hmem⟩)

end

/-! ## Constants and truth values -/

theorem constantAnd_eq_false {a b : Option Bool} :
    constantAnd a b = some false ↔ a = some false ∨ b = some false := by
  revert a b
  decide

theorem constantAnd_eq_true {a b : Option Bool} :
    constantAnd a b = some true ↔ a = some true ∧ b = some true := by
  revert a b
  decide

theorem constantOr_eq_false {a b : Option Bool} :
    constantOr a b = some false ↔ a = some false ∧ b = some false := by
  revert a b
  decide

theorem constantOr_eq_true {a b : Option Bool} :
    constantOr a b = some true ↔ a = some true ∨ b = some true := by
  revert a b
  decide

theorem constantAll_eq_false (values : List SearchCondition) :
    constantAll values = some false ↔ some false ∈ values.map constant := by
  induction values with
  | nil => simp [constantAll]
  | cons value values ih =>
    rw [constantAll, constantAnd_eq_false, ih, List.map_cons, List.mem_cons, eq_comm]

theorem constantAll_eq_true (values : List SearchCondition) :
    constantAll values = some true ↔ ∀ k ∈ values.map constant, k = some true := by
  induction values with
  | nil => simp [constantAll]
  | cons value values ih =>
    rw [constantAll, constantAnd_eq_true, ih, List.map_cons, List.forall_mem_cons]

theorem constantAny_eq_true (values : List SearchCondition) :
    constantAny values = some true ↔ some true ∈ values.map constant := by
  induction values with
  | nil => simp [constantAny]
  | cons value values ih =>
    rw [constantAny, constantOr_eq_true, ih, List.map_cons, List.mem_cons, eq_comm]

theorem constantAny_eq_false (values : List SearchCondition) :
    constantAny values = some false ↔ ∀ k ∈ values.map constant, k = some false := by
  induction values with
  | nil => simp [constantAny]
  | cons value values ih =>
    rw [constantAny, constantOr_eq_false, ih, List.map_cons, List.forall_mem_cons]

theorem eq_none_of_ne {k : Option Bool} (ht : k ≠ some true) (hf : k ≠ some false) : k = none := by
  revert k
  decide

mutual

theorem optimize_simplified : ∀ c, Simplified (optimize c)
  | .text _ => .text _
  | .from _ => .from _
  | .mentions _ => .mentions _
  | .domain _ => .domain _
  | .since _ => .since _
  | .until _ => .until _
  | .true => .true
  | .false => .false
  | .not inner => by
    have hin := optimize_simplified inner
    rw [optimize]
    split
    · exact .false
    · exact .true
    · rename_i heq
      rw [heq] at hin
      cases hin with
      | not hs hc => exact hs
    · rename_i htrue hfalse _
      exact .not hin fun h => h.elim htrue hfalse
  | .and values => by
    rw [optimize]
    obtain ⟨-, h⟩ | ⟨-, h⟩ | ⟨-, -, h, -⟩ := optimizeList_cases true (optimizeAll_simplified values)
    · exact h ▸ .false
    · exact h ▸ .true
    · exact h
  | .or values => by
    rw [optimize]
    obtain ⟨-, h⟩ | ⟨-, h⟩ | ⟨-, -, h, -⟩ := optimizeList_cases false (optimizeAll_simplified values)
    · exact h ▸ .true
    · exact h ▸ .true
    · exact h

theorem optimizeAll_simplified : ∀ values, ∀ value ∈ optimizeAll values, Simplified value
  | [], _, h => absurd h List.not_mem_nil
  | value :: values, o, h => by
    rw [optimizeAll, List.mem_cons] at h
    obtain rfl | h := h
    · exact optimize_simplified value
    · exact optimizeAll_simplified values o h

end

theorem mem_map_asConstant {os : List SearchCondition} (b : Bool) :
    some b ∈ os.map asConstant ↔ absorbing (!b) ∈ os := by
  rw [List.mem_map]
  cases b with
  | true => simp [asConstant_eq_true, absorbing]
  | false => simp [asConstant_eq_false, absorbing]

theorem forall_map_asConstant {os : List SearchCondition} (b : Bool) :
    (∀ k ∈ os.map asConstant, k = some b) ↔ ∀ o ∈ os, o = absorbing !b := by
  rw [List.forall_mem_map]
  cases b with
  | true => simp [asConstant_eq_true, absorbing]
  | false => simp [asConstant_eq_false, absorbing]

mutual

/-- A condition is optimised to the constant that `misread` simplifies to. -/
theorem asConstant_optimize : ∀ c, asConstant (optimize c) = constant (misread c)
  | .text _ | .from _ | .mentions _ | .domain _ | .since _ | .until _ | .true | .false => rfl
  | .not inner => by
    have hin := asConstant_optimize inner
    have hs := optimize_simplified inner
    rw [misread, constant, ← hin, optimize]
    split
    · rename_i heq
      rw [heq]
      rfl
    · rename_i heq
      rw [heq]
      rfl
    · rename_i heq
      rw [heq] at hs ⊢
      cases hs with
      | not hs hc => exact asConstant_eq_none hc
    · rename_i htrue hfalse _
      rw [asConstant_eq_none fun h => h.elim htrue hfalse]
      rfl
  | .and values => by
    have hmap := map_asConstant_optimizeAll values
    have hfalse := constantAll_eq_false (misreadAll values)
    have htrue := constantAll_eq_true (misreadAll values)
    rw [← hmap, mem_map_asConstant] at hfalse
    rw [← hmap, forall_map_asConstant] at htrue
    rw [misread, constant, optimize]
    obtain ⟨hin, h⟩ | ⟨hall, h⟩ | ⟨hout, hsome, -, h, -⟩ :=
      optimizeList_cases true (optimizeAll_simplified values)
    · rw [h, hfalse.mpr hin]
      rfl
    · rw [h, htrue.mpr hall]
      rfl
    · rw [h, eq_none_of_ne (mt htrue.mp (by push Not; exact hsome)) (mt hfalse.mp hout)]
  | .or values => by
    have hmap := map_asConstant_optimizeAll values
    have hfalse := constantAny_eq_false (misreadAll values)
    have htrue := constantAny_eq_true (misreadAll values)
    rw [← hmap, forall_map_asConstant] at hfalse
    rw [← hmap, mem_map_asConstant] at htrue
    rw [misread, optimize]
    obtain ⟨hin, h⟩ | ⟨hall, h⟩ | ⟨hout, hsome, -, h, -⟩ :=
      optimizeList_cases false (optimizeAll_simplified values)
    · rw [h, if_neg (by rw [htrue.mpr hin]; decide), constant, htrue.mpr hin]
      rfl
    · rw [h, if_pos (hfalse.mpr hall)]
      rfl
    · have hnone := eq_none_of_ne (mt htrue.mp hout) (mt hfalse.mp (by push Not; exact hsome))
      rw [h, if_neg (by rw [hnone]; decide), constant, hnone]

theorem map_asConstant_optimizeAll : ∀ values,
    (optimizeAll values).map asConstant = (misreadAll values).map constant
  | [] => rfl
  | value :: values => by
    rw [optimizeAll, misreadAll, List.map_cons, List.map_cons, asConstant_optimize value,
      map_asConstant_optimizeAll values]

end

section

variable (v : SearchCondition → Bool)

theorem truth_optimize_not (inner : SearchCondition) :
    truth v (optimize (.not inner)) = !truth v (optimize inner) := by
  rw [optimize]
  split
  · rename_i heq
    rw [heq]
    rfl
  · rename_i heq
    rw [heq]
    rfl
  · rename_i heq
    rw [heq, truth, Bool.not_not]
  · rw [truth]

mutual

/-- A condition is optimised to one that means what `misread` does. -/
theorem truth_optimize : ∀ c, truth v (optimize c) = truth v (misread c)
  | .text _ | .from _ | .mentions _ | .domain _ | .since _ | .until _ | .true | .false => rfl
  | .not inner => by
    rw [truth_optimize_not, truth_optimize inner, misread, truth]
  | .and values => by
    have hjoined := joined_optimizeAll true values
    rw [optimize, misread, truth]
    obtain ⟨hin, h⟩ | ⟨hall, h⟩ | ⟨-, -, -, -, h⟩ :=
      optimizeList_cases true (optimizeAll_simplified values)
    · rw [h]
      exact (joined_absorbing hin).symm.trans hjoined
    · rw [h]
      exact (joined_neutral hall).symm.trans hjoined
    · exact (h v).trans hjoined
  | .or values => by
    have hjoined := joined_optimizeAll false values
    have hmap := map_asConstant_optimizeAll values
    have hfalse := constantAny_eq_false (misreadAll values)
    rw [← hmap, forall_map_asConstant] at hfalse
    rw [optimize, misread]
    obtain ⟨hin, h⟩ | ⟨hall, h⟩ | ⟨-, hsome, -, -, h⟩ :=
      optimizeList_cases false (optimizeAll_simplified values)
    · rw [if_neg, h]
      · exact (joined_absorbing hin).symm.trans hjoined
      · exact fun hc => absurd (hfalse.mp hc _ hin) (by simp [absorbing])
    · rw [if_pos (hfalse.mpr hall), h]
    · rw [if_neg (mt hfalse.mp (by push Not; exact hsome)), h v]
      exact hjoined

theorem joined_optimizeAll : ∀ isAnd values,
    joined v isAnd (optimizeAll values) = joined v isAnd (misreadAll values)
  | _, [] => rfl
  | true, value :: values => by
    have ih := joined_optimizeAll true values
    simp only [joined] at ih ⊢
    rw [optimizeAll, misreadAll, truthAll, truthAll, truth_optimize value, ih]
  | false, value :: values => by
    have ih := joined_optimizeAll false values
    simp only [joined] at ih ⊢
    rw [optimizeAll, misreadAll, truthAny, truthAny, truth_optimize value, ih]

end

/-! ## When the meaning is kept -/

mutual

theorem misread_of_not_hasFalseOr : ∀ c, hasFalseOr c = false → misread c = c
  | .text _, _ | .from _, _ | .mentions _, _ | .domain _, _ | .since _, _ | .until _, _
  | .true, _ | .false, _ => rfl
  | .not inner, h => by rw [misread, misread_of_not_hasFalseOr inner h]
  | .and values, h => by rw [misread, misreadAll_of_not_hasFalseOr values h]
  | .or values, h => by
    rw [hasFalseOr, Bool.or_eq_false_iff, beq_eq_false_iff_ne] at h
    rw [misread, misreadAll_of_not_hasFalseOr values h.2, if_neg h.1]

theorem misreadAll_of_not_hasFalseOr : ∀ values, hasFalseOrIn values = false →
    misreadAll values = values
  | [], _ => rfl
  | value :: values, h => by
    rw [hasFalseOrIn, Bool.or_eq_false_iff] at h
    rw [misreadAll, misread_of_not_hasFalseOr value h.1, misreadAll_of_not_hasFalseOr values h.2]

end

mutual

theorem truth_of_constant : ∀ (c : SearchCondition) (b : Bool), constant c = some b → truth v c = b
  | .text _, _, h | .from _, _, h | .mentions _, _, h | .domain _, _, h | .since _, _, h
  | .until _, _, h => by cases h
  | .true, b, h | .false, b, h => Option.some.inj h
  | .not inner, b, h => by
    rw [constant, Option.map_eq_some_iff] at h
    obtain ⟨a, ha, rfl⟩ := h
    rw [truth, truth_of_constant inner a ha]
  | .and values, b, h => truthAll_of_constant values b h
  | .or values, b, h => truthAny_of_constant values b h

theorem truthAll_of_constant : ∀ (values : List SearchCondition) (b : Bool),
    constantAll values = some b → truthAll v values = b
  | [], b, h => Option.some.inj h
  | value :: values, true, h => by
    rw [constantAll, constantAnd_eq_true] at h
    rw [truthAll, truth_of_constant value true h.1, truthAll_of_constant values true h.2]
    rfl
  | value :: values, false, h => by
    rw [constantAll, constantAnd_eq_false] at h
    rw [truthAll]
    obtain h | h := h
    · rw [truth_of_constant value false h, Bool.false_and]
    · rw [truthAll_of_constant values false h, Bool.and_false]

theorem truthAny_of_constant : ∀ (values : List SearchCondition) (b : Bool),
    constantAny values = some b → truthAny v values = b
  | [], b, h => Option.some.inj h
  | value :: values, false, h => by
    rw [constantAny, constantOr_eq_false] at h
    rw [truthAny, truth_of_constant value false h.1, truthAny_of_constant values false h.2]
    rfl
  | value :: values, true, h => by
    rw [constantAny, constantOr_eq_true] at h
    rw [truthAny]
    obtain h | h := h
    · rw [truth_of_constant value true h, Bool.true_or]
    · rw [truthAny_of_constant values true h, Bool.or_true]

end

/-- The optimised condition has the truth value of the original if and only if that does
not hinge on the `or`s without a branch that can be true: reading each as true does not
change it. There is nothing to read in a condition without such an `or`, and such an
`or` of branches without one is misread under every valuation. -/
theorem optimize_truth_iff (c : SearchCondition) :
    (truth v (optimize c) = truth v c ↔ truth v (misread c) = truth v c) ∧
    (hasFalseOr c = false → truth v (optimize c) = truth v c) ∧
    ∀ values, c = .or values → constantAny values = some false → hasFalseOrIn values = false →
      truth v (optimize c) ≠ truth v c := by
  rw [truth_optimize v c]
  refine ⟨Iff.rfl, fun h => by rw [misread_of_not_hasFalseOr c h], ?_⟩
  rintro values rfl hfalse hin
  rw [misread, misreadAll_of_not_hasFalseOr values hin, if_pos hfalse, truth, truth,
    truthAny_of_constant v values false hfalse]
  decide

end

/-- `(-lang:ja) OR (-lang:ja)` matches nothing, and is optimised to what matches every
post. -/
theorem optimize_truth_counterexample :
    ¬ ∀ (v : SearchCondition → Bool) (c : SearchCondition), truth v (optimize c) = truth v c := by
  intro h
  exact absurd (h (fun _ => false) (.or [.not .true, .not .true])) (by decide)

end Seiran.Search
