import Mathlib.Data.List.Sort
import Mathlib.Data.List.Perm.Subperm

/-!
# The first rows of an ordering

`descending key rows` is `ORDER BY key DESC`, and `top key n rows` adds
`LIMIT n`; the keys of the rows are distinct. `bottom` is `top` in the dual
order.

* `mem_top`: the rows of which fewer than `n` rows are ahead;
* `top_eq_append`: rows cut at a key, the higher ones taken first;
* `top_flatMap_top`: rows in groups, at most `n` taken of each before the groups
  are put together.
-/

namespace Seiran.TopN

variable {α β ι : Type} [LinearOrder α] {key : β → α} {rows rows' : List β} {n : Nat}

/-- `ORDER BY key DESC` -/
def descending (key : β → α) (rows : List β) : List β :=
  rows.insertionSort fun a b => key b ≤ key a

/-- `ORDER BY key DESC LIMIT n` -/
def top (key : β → α) (n : Nat) (rows : List β) : List β := (descending key rows).take n

/-- `ORDER BY key ASC LIMIT n` -/
def bottom (key : β → α) (n : Nat) (rows : List β) : List β :=
  top (fun x => OrderDual.toDual (key x)) n rows

/-- Strictly descending keys. -/
abbrev Descends (key : β → α) (rows : List β) : Prop := rows.Pairwise fun a b => key b < key a

section Order

theorem Descends.eq_of_mem_iff (h : Descends key rows) (h' : Descends key rows')
    (hmem : ∀ x, x ∈ rows ↔ x ∈ rows') : rows = rows' := by
  have hirrefl : Std.Irrefl fun a b : β => key b < key a := ⟨fun a => lt_irrefl (key a)⟩
  have hanti : Std.Antisymm fun a b : β => key b < key a :=
    ⟨fun a b hab hba => absurd hab (lt_asymm hba)⟩
  exact List.Pairwise.eq_of_mem_iff h h' hmem

theorem perm_descending (key : β → α) (rows : List β) : (descending key rows).Perm rows :=
  List.perm_insertionSort _ rows

theorem mem_descending {x : β} : x ∈ descending key rows ↔ x ∈ rows :=
  (perm_descending key rows).mem_iff

theorem length_descending : (descending key rows).length = rows.length :=
  (perm_descending key rows).length_eq

theorem descends_descending (h : (rows.map key).Nodup) : Descends key (descending key rows) := by
  have htotal : Std.Total fun a b : β => key b ≤ key a := ⟨fun a b => le_total (key b) (key a)⟩
  have htrans : IsTrans β fun a b : β => key b ≤ key a := ⟨fun a b c hab hbc => hbc.trans hab⟩
  have hle := List.pairwise_insertionSort (fun a b : β => key b ≤ key a) rows
  have hne : (descending key rows).Pairwise fun a b => key a ≠ key b :=
    List.pairwise_map.mp (((perm_descending key rows).map key).nodup_iff.mpr h)
  exact hle.imp₂ (fun a b hab hab' => lt_of_le_of_ne hab (Ne.symm hab')) hne

theorem Descends.sublist (h : Descends key rows') (hs : rows.Sublist rows') : Descends key rows :=
  List.Pairwise.sublist hs h

end Order

section Top

theorem top_sublist : (top key n rows).Sublist (descending key rows) := List.take_sublist n _

theorem top_subperm (key : β → α) (n : Nat) (rows : List β) : (top key n rows).Subperm rows :=
  top_sublist.subperm.trans (perm_descending key rows).subperm

theorem mem_of_mem_top {x : β} (h : x ∈ top key n rows) : x ∈ rows :=
  (top_subperm key n rows).subset h

theorem length_top : (top key n rows).length = min n rows.length := by
  rw [top, List.length_take, length_descending]

theorem descends_top (h : (rows.map key).Nodup) : Descends key (top key n rows) :=
  (descends_descending h).sublist top_sublist

theorem top_eq_nil (hn : 0 < n) : top key n rows = [] ↔ rows = [] := by
  rw [← List.length_eq_zero_iff, length_top, ← List.length_eq_zero_iff]
  omega

theorem top_of_length_le (h : rows.length ≤ n) : top key n rows = descending key rows := by
  rw [top, List.take_of_length_le]
  rw [length_descending]
  exact h

theorem top_congr (h : (rows.map key).Nodup) (h' : (rows'.map key).Nodup)
    (hmem : ∀ x, x ∈ rows ↔ x ∈ rows') : top key n rows = top key n rows' := by
  have : descending key rows = descending key rows' := by
    refine (descends_descending h).eq_of_mem_iff (descends_descending h') fun x => ?_
    rw [mem_descending, mem_descending, hmem]
  rw [top, top, this]

theorem map_top (key : β → α) (n : Nat) (rows : List β) :
    (top key n rows).map key = top (fun a => a) n (rows.map key) := by
  rw [top, top, descending, descending, List.map_take]
  exact congrArg (List.take n) (List.map_insertionSort _ _ key rows fun a _ b _ => Iff.rfl)

/-- How many of the rows are ahead of `x`. -/
def ahead (key : β → α) (rows : List β) (x : β) : Nat :=
  rows.countP fun y => decide (key x < key y)

theorem Descends.mem_take (h : Descends key rows) (x : β) :
    x ∈ rows.take n ↔ x ∈ rows ∧ ahead key rows x < n := by
  induction rows generalizing n with
  | nil => simp
  | cons a rows ih =>
    obtain ⟨ha, hrows⟩ := List.pairwise_cons.mp h
    have hcount : ahead key (a :: rows) x = ahead key rows x + if key x < key a then 1 else 0 := by
      simp [ahead, List.countP_cons]
    cases n with
    | zero => simp
    | succ n =>
      rw [List.take_succ_cons, List.mem_cons, List.mem_cons, ih hrows, hcount]
      by_cases hx : x ∈ rows
      · have hlt := ha x hx
        have hne : x ≠ a := fun heq => lt_irrefl (key a) (heq ▸ hlt)
        simp [hx, hne, hlt]
      · by_cases heq : x = a
        · have hzero : ahead key rows x = 0 := by
            refine List.countP_eq_zero.mpr fun y hy => ?_
            rw [heq]
            simpa using (ha y hy).le
          simp [heq] at hzero ⊢
          omega
        · simp [hx, heq]

theorem ahead_perm (hp : rows.Perm rows') (x : β) : ahead key rows x = ahead key rows' x :=
  hp.countP_eq _

theorem ahead_le (key : β → α) (hs : rows.Subperm rows') (x : β) :
    ahead key rows x ≤ ahead key rows' x :=
  hs.countP_le _

/-- A row is among the first `n` when fewer than `n` rows are ahead of it. -/
theorem mem_top (h : (rows.map key).Nodup) (x : β) :
    x ∈ top key n rows ↔ x ∈ rows ∧ ahead key rows x < n := by
  rw [top, (descends_descending h).mem_take, mem_descending, ahead_perm (perm_descending key rows)]

theorem lt_of_mem_top_of_not_mem (h : (rows.map key).Nodup) {x y : β} (hx : x ∈ rows)
    (hxtop : x ∉ top key n rows) (hy : y ∈ top key n rows) : key x < key y := by
  by_contra hle
  refine hxtop ((mem_top h x).mpr ⟨hx, ?_⟩)
  have hyn := ((mem_top h y).mp hy).2
  have hmono : ahead key rows x ≤ ahead key rows y := by
    refine List.countP_mono_left fun z _ hz => ?_
    simp only [decide_eq_true_eq] at hz ⊢
    exact lt_of_le_of_lt (not_lt.mp hle) hz
  omega

end Top

section Cut

/-- Rows cut at a key: all of the higher ones come first. -/
theorem descending_eq_append (h : (rows.map key).Nodup) (p : β → Bool)
    (hp : ∀ x ∈ rows, ∀ y ∈ rows, p x → ¬ p y → key y < key x) :
    descending key rows =
      descending key (rows.filter p) ++ descending key (rows.filter fun x => !p x) := by
  have hsub (q : β → Bool) : ((rows.filter q).map key).Nodup :=
    h.sublist (List.filter_sublist.map key)
  refine (descends_descending h).eq_of_mem_iff ?_ fun x => ?_
  · refine List.pairwise_append.mpr
      ⟨descends_descending (hsub _), descends_descending (hsub _), fun x hx y hy => ?_⟩
    rw [mem_descending, List.mem_filter] at hx hy
    exact hp x hx.1 y hy.1 hx.2 (by simpa using hy.2)
  · rw [List.mem_append, mem_descending, mem_descending, mem_descending, List.mem_filter,
      List.mem_filter]
    cases p x <;> simp

theorem top_eq_append (h : (rows.map key).Nodup) (p : β → Bool)
    (hp : ∀ x ∈ rows, ∀ y ∈ rows, p x → ¬ p y → key y < key x) :
    top key n rows = top key n (rows.filter p) ++
      top key (n - (top key n (rows.filter p)).length) (rows.filter fun x => !p x) := by
  rw [top, descending_eq_append h p hp, List.take_append, top, top, List.length_take]
  congr 2
  omega

end Cut

section Groups

variable {f : ι → List β} {groups : List ι}

theorem subperm_flatMap {g : ι → List β} (h : ∀ i, (g i).Subperm (f i)) :
    (groups.flatMap g).Subperm (groups.flatMap f) := by
  induction groups with
  | nil => simp
  | cons i groups ih =>
    rw [List.flatMap_cons, List.flatMap_cons]
    exact (h i).append ih

theorem subperm_of_mem_flatMap {i : ι} (hi : i ∈ groups) : (f i).Subperm (groups.flatMap f) := by
  obtain ⟨before, after, rfl⟩ := List.append_of_mem hi
  rw [List.flatMap_append, List.flatMap_cons]
  exact ((List.sublist_append_left _ _).trans (List.sublist_append_right _ _)).subperm

/-- Rows in groups: the first `n` of all are among the first `n` of each group. -/
theorem top_flatMap_top (h : ((groups.flatMap f).map key).Nodup) :
    top key n (groups.flatMap fun i => top key n (f i)) = top key n (groups.flatMap f) := by
  have hsub : (groups.flatMap fun i => top key n (f i)).Subperm (groups.flatMap f) :=
    subperm_flatMap fun i => top_subperm key n (f i)
  have hpool : ((groups.flatMap fun i => top key n (f i)).map key).Nodup := by
    obtain ⟨l, hl, hls⟩ := hsub
    exact ((hl.map key).nodup_iff.mp (h.sublist (hls.map key)))
  have hgroup {i : ι} (hi : i ∈ groups) : ((f i).map key).Nodup := by
    obtain ⟨l, hl, hls⟩ := subperm_of_mem_flatMap (f := f) hi
    exact ((hl.map key).nodup_iff.mp (h.sublist (hls.map key)))
  refine (descends_top hpool).eq_of_mem_iff (descends_top h) fun x => ?_
  rw [mem_top hpool, mem_top h]
  constructor
  · rintro ⟨hx, hlt⟩
    refine ⟨hsub.subset hx, ?_⟩
    by_contra hge
    -- a row ahead of `x` that its own group has cut off
    have hcut : ∃ g ∈ groups.flatMap f, key x < key g ∧
        g ∉ groups.flatMap fun i => top key n (f i) := by
      by_contra hall
      have hle : ahead key (groups.flatMap f) x ≤
          ahead key (groups.flatMap fun i => top key n (f i)) x := by
        unfold ahead
        rw [List.countP_eq_length_filter, List.countP_eq_length_filter]
        refine (List.subperm_of_subset (h.of_map.filter _) fun g hg => ?_).length_le
        rw [List.mem_filter, decide_eq_true_eq] at hg ⊢
        refine ⟨by_contra fun hg' => hall ⟨g, hg.1, hg.2, hg'⟩, hg.2⟩
      omega
    obtain ⟨g, hg, hxg, hgcut⟩ := hcut
    obtain ⟨i, hi, hgi⟩ := List.mem_flatMap.mp hg
    have hgtop : g ∉ top key n (f i) := fun hin => hgcut (List.mem_flatMap.mpr ⟨i, hi, hin⟩)
    -- so `n` rows of that group are ahead of `x`
    have hfull : n ≤ (top key n (f i)).length := by
      have hahead : n ≤ ahead key (f i) g := by
        by_contra hlt'
        exact hgtop ((mem_top (hgroup hi) g).mpr ⟨hgi, by omega⟩)
      have := hahead.trans List.countP_le_length
      rw [length_top]
      omega
    have hahead : ahead key (top key n (f i)) x = (top key n (f i)).length := by
      refine List.countP_eq_length.mpr fun y hy => ?_
      exact decide_eq_true (hxg.trans (lt_of_mem_top_of_not_mem (hgroup hi) hgi hgtop hy))
    have := ahead_le key (subperm_of_mem_flatMap (f := fun i => top key n (f i)) hi) x
    omega
  · rintro ⟨hx, hlt⟩
    obtain ⟨i, hi, hxi⟩ := List.mem_flatMap.mp hx
    have hi' := ahead_le key (subperm_of_mem_flatMap (f := f) hi) x
    have hpool' := ahead_le key hsub x
    refine ⟨List.mem_flatMap.mpr ⟨i, hi, (mem_top (hgroup hi) x).mpr ⟨hxi, by omega⟩⟩, by omega⟩

end Groups

end Seiran.TopN
