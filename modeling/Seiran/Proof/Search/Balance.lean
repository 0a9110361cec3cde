import Seiran.Model.Search.Tokenizer
import Seiran.Proof.Search.Query

/-!
# Queries whose parentheses do not match

* `groupFrom_balance`: the items of a group are the same with the parentheses that are
  missing, whatever groups are open before them.
* `parsePartial_root`: the root takes every token.
* `brackets_prefix`, `brackets_count`, `brackets_le`: what the numbers of missing
  parentheses are.
* `brackets_opened`, `brackets_balance`: none is missing when they are put in.
-/

namespace Seiran.Query

open Search

/-! ## Groups -/

theorem groupFrom_replicate_closing (outers : List (List Item)) (items : List Item) :
    groupFrom (List.replicate outers.length (.control .closing)) outers items =
      closeAll outers items := by
  induction outers generalizing items with
  | nil => rfl
  | cons outer outers ih =>
    rw [List.length_cons, List.replicate_succ, groupFrom, closeAll]
    exact ih _

theorem groupFrom_replicate_opening (n k : Nat) (tokens : List Token) :
    groupFrom (List.replicate n (.control .opening) ++ tokens) (List.replicate k []) [] =
      groupFrom tokens (List.replicate (k + n) []) [] := by
  induction n generalizing k with
  | zero => rfl
  | succ n ih =>
    rw [List.replicate_succ, List.cons_append, groupFrom, ← List.replicate_succ, ih, Nat.add_assoc,
      Nat.add_comm 1 n]

/-- An outer group with nothing in it for each closing parenthesis that has no opening
one makes no difference. -/
theorem groupFrom_balance (tokens : List Token) (outers : List (List Item)) (items : List Item) :
    groupFrom (tokens ++ List.replicate (brackets tokens outers.length).2 (.control .closing))
        (outers ++ List.replicate (brackets tokens outers.length).1 []) items =
      groupFrom tokens outers items := by
  induction tokens, outers, items using groupFrom.induct with
  | case1 outers items =>
    rw [brackets, List.replicate_zero, List.append_nil, List.nil_append, groupFrom]
    exact groupFrom_replicate_closing outers items
  | case2 outers items tokens ih =>
    rw [brackets, List.cons_append, groupFrom, groupFrom, ← List.cons_append]
    exact ih
  | case3 tokens outer outers items ih =>
    rw [List.length_cons, brackets, List.cons_append, List.cons_append, groupFrom, groupFrom]
    exact ih
  | case4 items tokens ih =>
    -- The group that is opened at the beginning is closed here.
    rw [List.length_nil, brackets, List.nil_append, List.replicate_succ, List.cons_append,
      groupFrom, groupFrom]
    exact ih
  | case5 outers items tokens ih | case6 outers items tokens ih | case7 outers items tokens ih
  | case8 outers items text tokens ih =>
    rw [brackets, List.cons_append, groupFrom, groupFrom]
    exact ih

theorem group_balance (tokens : List Token) : group (balance tokens) = group tokens := by
  have hopen := groupFrom_replicate_opening (brackets tokens 0).1 0
    (tokens ++ List.replicate (brackets tokens 0).2 (.control .closing))
  rw [group, balance, List.append_assoc]
  rw [List.replicate_zero, Nat.zero_add] at hopen
  rw [hopen]
  exact groupFrom_balance tokens [] []

/-- The root takes every token. -/
theorem parsePartial_root (chrono : Chrono) (tokens : List Token) (current : SearchCondition)
    (join : Join) : (parsePartial chrono true tokens current join).1.2 = [] := by
  suffices ∀ root, root = true → (parsePartial chrono root tokens current join).1.2 = [] from
    this true rfl
  intro root hroot
  induction root, tokens, current, join using parsePartial.induct chrono with
  | case1 root current join => rw [parsePartial]
  | case2 root tokens current join found hfound ih₁ ih₂ =>
    rw [parsePartial]
    exact ih₂ hroot
  | case3 tokens current join ih =>
    rw [parsePartial, if_pos rfl]
    exact ih rfl
  | case4 root tokens current join hr => exact absurd hroot hr
  | case5 root tokens current join ih | case6 root tokens current join ih
  | case7 root tokens current join ih =>
    rw [parsePartial]
    exact ih hroot
  | case8 root text tokens current join htext ih =>
    rw [parsePartial, if_pos htext]
    exact ih hroot
  | case9 root text tokens current join htext ih =>
    rw [parsePartial, if_neg htext]
    exact ih hroot

/-! ## What is missing -/

/-- Up to a token there are no more closing parentheses than `depth`, the ones that have
no opening one and the opening ones allow. -/
theorem brackets_prefix (tokens : List Token) (depth : Nat) {part : List Token}
    (h : part <+: tokens) : part.count (.control .closing) ≤
      part.count (.control .opening) + (depth + (brackets tokens depth).1) := by
  induction tokens, depth using brackets.induct generalizing part with
  | case1 depth => simp [List.prefix_nil.mp h]
  | case2 tokens depth ih | case3 tokens depth ih | case4 tokens ih | case5 tokens depth ih
  | case6 tokens depth ih | case7 tokens depth ih | case8 text tokens depth ih =>
    obtain rfl | ⟨part, rfl, hpart⟩ := List.prefix_cons_iff.mp h
    · simp
    · have := ih hpart
      simp [brackets]
      omega

theorem brackets_count (tokens : List Token) (depth : Nat) :
    tokens.count (.control .closing) + (brackets tokens depth).2 =
      tokens.count (.control .opening) + (depth + (brackets tokens depth).1) := by
  induction tokens, depth using brackets.induct with
  | case1 depth => simp [brackets]
  | case2 tokens depth ih | case3 tokens depth ih | case4 tokens ih | case5 tokens depth ih
  | case6 tokens depth ih | case7 tokens depth ih | case8 text tokens depth ih =>
    simp [brackets]
    omega

/-- With fewer opening parentheses at the beginning, some closing one has none. -/
theorem brackets_le (tokens : List Token) (depth n : Nat)
    (h : ∀ part, part <+: tokens → part.count (.control .closing) ≤
      part.count (.control .opening) + (depth + n)) : (brackets tokens depth).1 ≤ n := by
  induction tokens, depth using brackets.induct generalizing n with
  | case1 depth => exact Nat.zero_le n
  | case2 tokens depth ih =>
    refine ih n fun part hpart => ?_
    have := h _ (List.cons_prefix_cons.mpr ⟨rfl, hpart⟩)
    simp at this
    omega
  | case3 tokens depth ih =>
    refine ih n fun part hpart => ?_
    have := h _ (List.cons_prefix_cons.mpr ⟨rfl, hpart⟩)
    simp at this
    omega
  | case4 tokens ih =>
    have hn := h [.control .closing] (List.cons_prefix_cons.mpr ⟨rfl, List.nil_prefix⟩)
    simp at hn
    obtain ⟨n, rfl⟩ := Nat.exists_eq_add_of_le' hn
    refine Nat.succ_le_succ (ih n fun part hpart => ?_)
    have := h _ (List.cons_prefix_cons.mpr ⟨rfl, hpart⟩)
    simp at this
    omega
  | case5 tokens depth ih | case6 tokens depth ih | case7 tokens depth ih
  | case8 text tokens depth ih =>
    refine ih n fun part hpart => ?_
    have := h _ (List.cons_prefix_cons.mpr ⟨rfl, hpart⟩)
    simpa using this

theorem brackets_replicate_closing (depth : Nat) :
    brackets (List.replicate depth (.control .closing)) depth = (0, 0) := by
  induction depth with
  | zero => rfl
  | succ depth ih =>
    rw [List.replicate_succ, brackets]
    exact ih

theorem brackets_replicate_opening (n depth : Nat) (tokens : List Token) :
    brackets (List.replicate n (.control .opening) ++ tokens) depth =
      brackets tokens (depth + n) := by
  induction n generalizing depth with
  | zero => rfl
  | succ n ih =>
    rw [List.replicate_succ, List.cons_append, brackets, ih, Nat.add_assoc, Nat.add_comm 1 n]

theorem brackets_append (tokens tokens' : List Token) (depth : Nat) :
    brackets (tokens ++ tokens') depth =
      ((brackets tokens depth).1 + (brackets tokens' (brackets tokens depth).2).1,
        (brackets tokens' (brackets tokens depth).2).2) := by
  induction tokens, depth using brackets.induct with
  | case1 depth =>
    rw [brackets, Nat.zero_add]
    rfl
  | case2 tokens depth ih | case3 tokens depth ih | case5 tokens depth ih | case6 tokens depth ih
  | case7 tokens depth ih | case8 text tokens depth ih =>
    rw [List.cons_append, brackets, brackets]
    exact ih
  | case4 tokens ih => rw [List.cons_append, brackets, brackets, ih, Nat.add_right_comm]

/-- The opening parentheses that are inserted leave no closing one without one. -/
theorem brackets_opened (tokens : List Token) (depth : Nat) :
    brackets tokens (depth + (brackets tokens depth).1) = (0, (brackets tokens depth).2) := by
  have hclosing : (brackets tokens (depth + (brackets tokens depth).1)).1 = 0 :=
    Nat.le_zero.mp (brackets_le tokens _ 0 fun part hpart => brackets_prefix tokens depth hpart)
  have hcount := brackets_count tokens depth
  have hcount' := brackets_count tokens (depth + (brackets tokens depth).1)
  refine Prod.ext hclosing ?_
  show (brackets tokens (depth + (brackets tokens depth).1)).2 = (brackets tokens depth).2
  omega

theorem brackets_opening (tokens : List Token) :
    brackets (List.replicate (brackets tokens 0).1 (.control .opening) ++ tokens) 0 =
      (0, (brackets tokens 0).2) := by
  rw [brackets_replicate_opening]
  exact brackets_opened tokens 0

theorem brackets_balance (tokens : List Token) : brackets (balance tokens) 0 = (0, 0) := by
  rw [balance, brackets_append, brackets_opening, brackets_replicate_closing]
  rfl

theorem balanced_iff (tokens : List Token) : Balanced tokens ↔ brackets tokens 0 = (0, 0) := by
  have hcount := brackets_count tokens 0
  constructor
  · intro h
    have hclosing := brackets_le tokens 0 0 h.prefixes
    have hclosed := h.closed
    refine Prod.ext (Nat.le_zero.mp hclosing) ?_
    show (brackets tokens 0).2 = 0
    omega
  · intro h
    rw [h] at hcount
    refine ⟨fun part hpart => ?_, hcount⟩
    have hprefix := brackets_prefix tokens 0 hpart
    rw [h] at hprefix
    exact hprefix

theorem balance_of_balanced {tokens : List Token} (h : Balanced tokens) :
    balance tokens = tokens := by
  rw [balance, (balanced_iff tokens).mp h]
  exact List.append_nil tokens

/-- Unbalanced parentheses are parsed as if those that are missing were there: the
opening ones at the very beginning, no more than are needed, and the closing ones at the
end. -/
theorem parse_balance (chrono : Chrono) (tokens : List Token) :
    Balanced (balance tokens) ∧ parse chrono (balance tokens) = parse chrono tokens ∧
    (parsePartial chrono true tokens .true .and).1.2 = [] ∧
    ∀ opening closing, Balanced (List.replicate opening (.control .opening) ++ tokens ++
      List.replicate closing (.control .closing)) → (brackets tokens 0).1 ≤ opening := by
  refine ⟨(balanced_iff _).mpr (brackets_balance tokens), ?_,
    parsePartial_root chrono tokens .true .and, fun opening closing h => ?_⟩
  · rw [parse_eq, parse_eq, group_balance]
  · refine brackets_le tokens 0 opening fun part hpart => ?_
    have := h.prefixes (List.replicate opening (.control .opening) ++ part)
      (((List.prefix_append_right_inj _).mpr hpart).trans (List.prefix_append _ _))
    simpa [List.count_replicate, Nat.add_comm] using this

theorem tokenize_cons_opening (query : List Char) :
    tokenize ('(' :: query) = .control .opening :: tokenize query := by
  rw [tokenize]
  rfl

theorem tokenize_opening (n : Nat) (query : List Char) :
    tokenize (List.replicate n '(' ++ query) =
      List.replicate n (.control .opening) ++ tokenize query := by
  induction n with
  | zero => rfl
  | succ n ih =>
    rw [List.replicate_succ, List.cons_append, tokenize_cons_opening, ih]
    rfl

/-- An unmatched closing parenthesis of a query as it is written behaves as if its
opening pair had been inserted at the beginning. -/
theorem parseQuery_opening (chrono : Chrono) (query : List Char) :
    parseQuery chrono (List.replicate (brackets (tokenize query) 0).1 '(' ++ query) =
      parseQuery chrono query := by
  have hbalance : balance (List.replicate (brackets (tokenize query) 0).1 (.control .opening) ++
      tokenize query) = balance (tokenize query) := by
    rw [balance, brackets_opening]
    rfl
  rw [parseQuery, parseQuery, tokenize_opening, parse_eq, parse_eq, ← group_balance, hbalance,
    group_balance]

end Seiran.Query
