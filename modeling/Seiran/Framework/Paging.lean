import Seiran.Framework.TopN

/-!
# Paging with a cursor

A client asks for page after page and makes each cursor from the page before,
until a page is empty.

* `enumerates_top`: pages of the highest rows below the cursor, with the last
  key of a page as the next cursor, give every row once;
* `not_pages`: pages that are never empty have no end.
-/

namespace Seiran.Paging

variable {β γ : Type}

/-- The pages from a cursor on, the empty one that ends them left out. -/
inductive Pages (fetch : Option γ → List β) (next : List β → Option γ) :
    Option γ → List (List β) → Prop where
  | done {c : Option γ} : fetch c = [] → Pages fetch next c []
  | more {c : Option γ} {pages : List (List β)} :
      fetch c ≠ [] → Pages fetch next (next (fetch c)) pages → Pages fetch next c (fetch c :: pages)

/-- The pages come to an end and have each of the rows exactly once. -/
def Enumerates (fetch : Option γ → List β) (next : List β → Option γ) (c : Option γ)
    (rows : List β) : Prop :=
  ∃ pages, Pages fetch next c pages ∧ pages.flatten.Perm rows

variable {fetch : Option γ → List β} {next : List β → Option γ}

theorem not_pages {I : Option γ → Prop} (h : ∀ c, I c → fetch c ≠ [] ∧ I (next (fetch c)))
    {c : Option γ} (hc : I c) {pages : List (List β)} : ¬ Pages fetch next c pages := by
  intro hp
  induction hp with
  | done hnil => exact (h _ hc).1 hnil
  | more _ _ ih => exact ih (h _ hc).2

theorem Pages.eq_nil {c : Option γ} {pages : List (List β)} (h : Pages fetch next c pages)
    (hnil : fetch c = []) : pages = [] := by
  cases h with
  | done => rfl
  | more hne => exact absurd hnil hne

/-- Where the second page is empty, the first one has to be all. -/
theorem enumerates_iff_perm (fetch : Option γ → List β) (next : List β → Option γ) {c : Option γ}
    (hnil : fetch (next (fetch c)) = []) (rows : List β) :
    Enumerates fetch next c rows ↔ (fetch c).Perm rows := by
  constructor
  · intro ⟨pages, hpages, hperm⟩
    cases hpages with
    | done hfetch =>
      rw [hfetch]
      exact hperm
    | more hne hrest =>
      rw [hrest.eq_nil hnil, List.flatten_cons, List.flatten_nil, List.append_nil] at hperm
      exact hperm
  · intro hperm
    by_cases hfetch : fetch c = []
    · refine ⟨[], .done hfetch, ?_⟩
      rw [hfetch] at hperm
      exact hperm
    · refine ⟨[fetch c], .more hfetch (.done hnil), ?_⟩
      rw [List.flatten_cons, List.flatten_nil, List.append_nil]
      exact hperm

section Top

open TopN

variable [LinearOrder γ] {key : β → γ} {rows : List β} {n : Nat}

/-- The rows before the cursor, which is exclusive. -/
def before (key : β → γ) (c : Option γ) (x : β) : Bool :=
  match c with
  | none => true
  | some u => decide (key x < u)

/-- The key of the last row of a page. -/
def lastKey (key : β → γ) (page : List β) : Option γ := page.getLast?.map key

/-- What is below the last key of a page of the highest rows is what the page
has left out. -/
theorem perm_append_filter_lt (h : (rows.map key).Nodup) {x : β}
    (hx : (top key n rows).getLast? = some x) :
    (top key n rows ++ rows.filter fun y => decide (key y < key x)).Perm rows := by
  have hsplit : top key n rows ++ (descending key rows).drop n = descending key rows :=
    List.take_append_drop n _
  have hdesc := descends_descending h
  rw [← hsplit] at hdesc
  obtain ⟨hpage, -, hcross⟩ := List.pairwise_append.mp hdesc
  have hxmem := List.mem_of_getLast? hx
  have hkeep : (top key n rows).filter (fun y => decide (key y < key x)) = [] := by
    refine List.filter_eq_nil_iff.mpr fun y hy => ?_
    obtain ⟨init, hinit⟩ := List.getLast?_eq_some_iff.mp hx
    rw [hinit] at hy hpage
    rcases List.mem_append.mp hy with hy | hy
    · simpa using ((List.pairwise_append.mp hpage).2.2 y hy x (by simp)).le
    · simp [List.mem_singleton.mp hy]
  have hdrop : ((descending key rows).drop n).filter (fun y => decide (key y < key x)) =
      (descending key rows).drop n :=
    List.filter_eq_self.mpr fun y hy => decide_eq_true (hcross x hxmem y hy)
  have hrest : (rows.filter fun y => decide (key y < key x)).Perm
      ((descending key rows).drop n) := by
    have := ((perm_descending key rows).symm).filter fun y => decide (key y < key x)
    rw [← hsplit, List.filter_append, hkeep, hdrop, List.nil_append] at this
    exact this
  calc (top key n rows ++ rows.filter fun y => decide (key y < key x)).Perm _ :=
        hrest.append_left _
    _ = descending key rows := hsplit
    _ |>.Perm rows := perm_descending key rows

theorem enumerates_top (h : (rows.map key).Nodup) (hn : 0 < n)
    (hfetch : ∀ c, fetch c = top key n (rows.filter (before key c)))
    (hnext : ∀ page, next page = lastKey key page) (c : Option γ) :
    Enumerates fetch next c (rows.filter (before key c)) := by
  induction hlen : (rows.filter (before key c)).length using Nat.strong_induction_on generalizing c with
  | _ len ih =>
    have hsub : ((rows.filter (before key c)).map key).Nodup :=
      h.sublist (List.filter_sublist.map key)
    by_cases hnil : fetch c = []
    · refine ⟨[], .done hnil, ?_⟩
      rw [hfetch, top_eq_nil hn] at hnil
      rw [hnil]
      exact List.Perm.refl _
    · have hne := hnil
      rw [hfetch] at hne
      obtain ⟨x, hx⟩ : ∃ x, (top key n (rows.filter (before key c))).getLast? = some x :=
        ⟨_, List.getLast?_eq_some_getLast hne⟩
      have hxmem := mem_of_mem_top (List.mem_of_getLast? hx)
      have hcursor : next (fetch c) = some (key x) := by rw [hnext, hfetch, lastKey, hx]; rfl
      -- the rows before the next cursor are those of this one that are below `x`
      have hbefore : rows.filter (before key (some (key x))) =
          (rows.filter (before key c)).filter fun y => decide (key y < key x) := by
        rw [List.filter_filter]
        refine List.filter_congr fun y _ => ?_
        have hxc := (List.mem_filter.mp hxmem).2
        cases c with
        | none => simp [before]
        | some u =>
          rw [before, decide_eq_true_eq] at hxc
          have hlt : key y < key x ↔ key y < key x ∧ key y < u :=
            ⟨fun hlt => ⟨hlt, hlt.trans hxc⟩, And.left⟩
          simp only [before, ← Bool.decide_and]
          exact decide_eq_decide.mpr hlt
      have hperm := perm_append_filter_lt hsub hx
      have hless : (rows.filter (before key (some (key x)))).length < len := by
        have hlen' := hperm.length_eq
        have hpos := List.length_pos_iff.mpr hne
        rw [List.length_append, ← hbefore] at hlen'
        omega
      obtain ⟨pages, hpages, hflat⟩ := ih _ hless (some (key x)) rfl
      refine ⟨fetch c :: pages, .more hnil (hcursor ▸ hpages), ?_⟩
      rw [List.flatten_cons, hfetch c]
      refine (hflat.append_left _).trans ?_
      rw [hbefore]
      exact hperm

end Top

end Seiran.Paging
