import Mathlib.Data.List.Forall2
import Seiran.Framework.Sql.Lexer
import Seiran.Framework.Sql.Like

/-!
# Expressions of SQL

The part of PostgreSQL's expressions that conditions on rows are made of, read
with its precedence, from loosest to tightest:

* 1 `OR`
* 2 `AND`
* 3 `NOT`
* 4 `IS NULL`
* 5 `=`, `<`, `<=`, `>`, `>=`
* 6 `LIKE … ESCAPE …`
* 9 `::`

`parseExpr level` reads an expression whose operators are at least as tight as
`level`. It takes more than PostgreSQL does in one place: a chain of comparisons
is read from the left. `readExpr` is the recursion itself, which goes on because
fewer tokens are left each time, and `parseExpr` forgets their number.

`eval` is the three-valued meaning: `Value.null` is NULL, and `none` an error
(an unknown column, an operand of the wrong type).
-/

namespace Seiran.Sql

inductive Expr
  | column (name : String)
  | param (n : Nat)
  | str (s : String)
  | bool (b : Bool)
  | null
  | call (function : String) (args : List Expr)
  | not (e : Expr)
  | and (l r : Expr)
  | or (l r : Expr)
  | isNull (e : Expr)
  | compare (c : Comparison) (l r : Expr)
  | like (e p escape : Expr)
  | cast (e : Expr) (type : String)

/-! ## Reading -/

/-- What is left of the tokens once some have been read. -/
abbrev Shorter (tokens : List Token) : Type := { rest : List Token // rest.length < tokens.length }

abbrev NotLonger (tokens : List Token) : Type :=
  { rest : List Token // rest.length ≤ tokens.length }

mutual

def readExpr (level : Nat) (tokens : List Token) : Option (Expr × Shorter tokens) := do
  let (e, rest) ← readPrefix level tokens
  let (e, rest') ← readInfix level e rest
  some (e, ⟨rest', Nat.lt_of_le_of_lt rest'.2 rest.2⟩)
termination_by (tokens.length, 1)
decreasing_by
  · exact Prod.Lex.right _ Nat.zero_lt_one
  · exact Prod.Lex.left _ _ rest.2

def readPrefix (level : Nat) (tokens : List Token) : Option (Expr × Shorter tokens) :=
  match tokens with
  | .param n :: rest => some (.param n, ⟨rest, by simp⟩)
  | .str s :: rest => some (.str s, ⟨rest, by simp⟩)
  | .keyword .true :: rest => some (.bool true, ⟨rest, by simp⟩)
  | .keyword .false :: rest => some (.bool false, ⟨rest, by simp⟩)
  | .keyword .null :: rest => some (.null, ⟨rest, by simp⟩)
  | .keyword .not :: rest =>
    if level ≤ 3 then do
      let (e, rest') ← readExpr 3 rest
      some (.not e, ⟨rest', by simp; omega⟩)
    else none
  | .ident f :: .lparen :: rest => do
    let (args, rest') ← readArgs rest
    some (.call f args, ⟨rest', by simp; omega⟩)
  | .ident name :: rest => some (.column name, ⟨rest, by simp⟩)
  | .lparen :: rest => do
    match ← readExpr 0 rest with
    | (e, ⟨.rparen :: rest', h⟩) => some (e, ⟨rest', by simp at h ⊢; omega⟩)
    | _ => none
  | _ => none
termination_by (tokens.length, 0)
decreasing_by
  all_goals exact Prod.Lex.left _ _ (by simp only [List.length_cons]; omega)

def readArgs (tokens : List Token) : Option (List Expr × Shorter tokens) := do
  match ← readExpr 0 tokens with
  | (e, ⟨.rparen :: rest, h⟩) => some ([e], ⟨rest, by simp at h ⊢; omega⟩)
  | (e, ⟨.comma :: rest, h⟩) => do
    let (args, rest') ← readArgs rest
    some (e :: args, ⟨rest', by simp at h ⊢; omega⟩)
  | _ => none
termination_by (tokens.length, 2)
decreasing_by
  · exact Prod.Lex.right _ (by decide)
  · exact Prod.Lex.left _ _ (by simp at h ⊢; omega)

/-- Reads on after the operand `e`. -/
def readInfix (level : Nat) (e : Expr) (tokens : List Token) : Option (Expr × NotLonger tokens) :=
  match tokens with
  | .keyword .or :: rest =>
    if level ≤ 1 then do
      let (r, rest) ← readExpr 2 rest
      let (e, rest') ← readInfix level (.or e r) rest
      some (e, ⟨rest', by simp; omega⟩)
    else some (e, ⟨.keyword .or :: rest, le_rfl⟩)
  | .keyword .and :: rest =>
    if level ≤ 2 then do
      let (r, rest) ← readExpr 3 rest
      let (e, rest') ← readInfix level (.and e r) rest
      some (e, ⟨rest', by simp; omega⟩)
    else some (e, ⟨.keyword .and :: rest, le_rfl⟩)
  | .keyword .is :: .keyword .null :: rest =>
    if level ≤ 4 then do
      let (e, rest') ← readInfix level (.isNull e) rest
      some (e, ⟨rest', by simp; omega⟩)
    else some (e, ⟨.keyword .is :: .keyword .null :: rest, le_rfl⟩)
  | .keyword .is :: .keyword .not :: .keyword .null :: rest =>
    if level ≤ 4 then do
      let (e, rest') ← readInfix level (.not (.isNull e)) rest
      some (e, ⟨rest', by simp; omega⟩)
    else some (e, ⟨.keyword .is :: .keyword .not :: .keyword .null :: rest, le_rfl⟩)
  | .compare c :: rest =>
    if level ≤ 5 then do
      let (r, rest) ← readExpr 6 rest
      let (e, rest') ← readInfix level (.compare c e r) rest
      some (e, ⟨rest', by simp; omega⟩)
    else some (e, ⟨.compare c :: rest, le_rfl⟩)
  | .keyword .like :: rest =>
    if level ≤ 6 then do
      match ← readExpr 7 rest with
      | (p, ⟨.keyword .escape :: rest, h⟩) => do
        let (escape, rest) ← readExpr 7 rest
        let (e, rest') ← readInfix level (.like e p escape) rest
        some (e, ⟨rest', by simp at h ⊢; omega⟩)
      | (p, rest) => do
        let (e, rest') ← readInfix level (.like e p (.str "\\")) rest
        some (e, ⟨rest', by simp; omega⟩)
    else some (e, ⟨.keyword .like :: rest, le_rfl⟩)
  | .cast :: .ident type :: rest =>
    if level ≤ 9 then do
      let (e, rest') ← readInfix level (.cast e type) rest
      some (e, ⟨rest', by simp; omega⟩)
    else some (e, ⟨.cast :: .ident type :: rest, le_rfl⟩)
  | tokens => some (e, ⟨tokens, le_rfl⟩)
termination_by (tokens.length, 0)
decreasing_by
  all_goals exact Prod.Lex.left _ _ (by simp only [List.length_cons] at *; omega)

end

/-- What was read and the tokens left, whatever is known of their number. -/
def erase {α : Type} {P : List Token → Prop} (read : Option (α × { rest // P rest })) :
    Option (α × List Token) :=
  read.map fun (a, rest) => (a, rest.1)

theorem erase_bind {α β : Type} {P Q : List Token → Prop} {read : Option (α × { rest // P rest })}
    {f : α × { rest // P rest } → Option (β × { rest // Q rest })}
    {g : α × List Token → Option (β × List Token)}
    (h : ∀ a rest, erase (f (a, rest)) = g (a, rest.1)) :
    erase (read.bind f) = (erase read).bind g := by
  cases read with
  | none => rfl
  | some read => exact h read.1 read.2

theorem erase_weaken {α : Type} {P Q : List Token → Prop} {read : Option (α × { rest // P rest })}
    (h : ∀ x : α × { rest // P rest }, Q x.2.1) :
    erase (read.bind fun x => some (x.1, (⟨x.2.1, h x⟩ : { rest // Q rest }))) = erase read := by
  cases read <;> rfl

def parseExpr (level : Nat) (tokens : List Token) : Option (Expr × List Token) :=
  erase (readExpr level tokens)

def parsePrefix (level : Nat) (tokens : List Token) : Option (Expr × List Token) :=
  erase (readPrefix level tokens)

def parseArgs (tokens : List Token) : Option (List Expr × List Token) :=
  erase (readArgs tokens)

def parseInfix (level : Nat) (e : Expr) (tokens : List Token) : Option (Expr × List Token) :=
  erase (readInfix level e tokens)

section

variable (level : Nat) (e : Expr) (rest : List Token)

theorem parseExpr_eq (tokens : List Token) :
    parseExpr level tokens =
      (parsePrefix level tokens).bind fun (e, rest) => parseInfix level e rest := by
  rw [parseExpr, readExpr]
  exact erase_bind fun _ _ => erase_weaken _

theorem parsePrefix_param (n : Nat) :
    parsePrefix level (.param n :: rest) = some (.param n, rest) := by
  rw [parsePrefix, readPrefix]
  rfl

theorem parsePrefix_str (s : String) :
    parsePrefix level (.str s :: rest) = some (.str s, rest) := by
  rw [parsePrefix, readPrefix]
  rfl

theorem parsePrefix_bool (b : Bool) :
    parsePrefix level (.keyword (if b then .true else .false) :: rest) = some (.bool b, rest) := by
  cases b with
  | true =>
    rw [if_pos rfl, parsePrefix, readPrefix]
    rfl
  | false =>
    rw [if_neg Bool.false_ne_true, parsePrefix, readPrefix]
    rfl

theorem parsePrefix_not (h : level ≤ 3) :
    parsePrefix level (.keyword .not :: rest) =
      (parseExpr 3 rest).bind fun (e, rest) => some (.not e, rest) := by
  rw [parsePrefix, readPrefix, if_pos h]
  exact erase_bind fun _ _ => rfl

theorem parsePrefix_call (f : String) :
    parsePrefix level (.ident f :: .lparen :: rest) =
      (parseArgs rest).bind fun (args, rest) => some (.call f args, rest) := by
  rw [parsePrefix, readPrefix]
  exact erase_bind fun _ _ => rfl

theorem parsePrefix_ident (name : String) (h : rest.head? ≠ some .lparen) :
    parsePrefix level (.ident name :: rest) = some (.column name, rest) := by
  rw [parsePrefix, readPrefix]
  · rfl
  · intro rest' heq
    exact h (by rw [heq]; rfl)

theorem parsePrefix_lparen :
    parsePrefix level (.lparen :: rest) =
      (parseExpr 0 rest).bind fun
        | (e, .rparen :: rest) => some (e, rest)
        | _ => none := by
  rw [parsePrefix, readPrefix]
  refine erase_bind fun e ⟨rest', h⟩ => ?_
  cases rest' with
  | nil => rfl
  | cons token rest' => cases token <;> rfl

theorem parsePrefix_rparen : parsePrefix level (.rparen :: rest) = none := by
  rw [parsePrefix, readPrefix] <;> simp [erase]

theorem parseArgs_eq (tokens : List Token) :
    parseArgs tokens =
      (parseExpr 0 tokens).bind fun
        | (e, .rparen :: rest) => some ([e], rest)
        | (e, .comma :: rest) => (parseArgs rest).bind fun (args, rest) => some (e :: args, rest)
        | _ => none := by
  rw [parseArgs, readArgs]
  refine erase_bind fun e ⟨rest', h⟩ => ?_
  cases rest' with
  | nil => rfl
  | cons token rest' =>
    cases token with
    | comma => exact erase_bind fun _ _ => rfl
    | _ => rfl

theorem parseInfix_or :
    parseInfix level e (.keyword .or :: rest) =
      if level ≤ 1 then
        (parseExpr 2 rest).bind fun (r, rest) => parseInfix level (.or e r) rest
      else some (e, .keyword .or :: rest) := by
  rw [parseInfix, readInfix]
  split
  · exact erase_bind fun _ _ => erase_weaken _
  · rfl

theorem parseInfix_and :
    parseInfix level e (.keyword .and :: rest) =
      if level ≤ 2 then
        (parseExpr 3 rest).bind fun (r, rest) => parseInfix level (.and e r) rest
      else some (e, .keyword .and :: rest) := by
  rw [parseInfix, readInfix]
  split
  · exact erase_bind fun _ _ => erase_weaken _
  · rfl

theorem parseInfix_isNull (h : level ≤ 4) :
    parseInfix level e (.keyword .is :: .keyword .null :: rest) =
      parseInfix level (.isNull e) rest := by
  rw [parseInfix, readInfix, if_pos h]
  exact erase_weaken _

theorem parseInfix_compare (c : Comparison) (h : level ≤ 5) :
    parseInfix level e (.compare c :: rest) =
      (parseExpr 6 rest).bind fun (r, rest) => parseInfix level (.compare c e r) rest := by
  rw [parseInfix, readInfix, if_pos h]
  exact erase_bind fun _ _ => erase_weaken _

theorem parseInfix_like (h : level ≤ 6) :
    parseInfix level e (.keyword .like :: rest) =
      (parseExpr 7 rest).bind fun
        | (p, .keyword .escape :: rest) =>
          (parseExpr 7 rest).bind fun (escape, rest) => parseInfix level (.like e p escape) rest
        | (p, rest) => parseInfix level (.like e p (.str "\\")) rest := by
  rw [parseInfix, readInfix, if_pos h]
  refine erase_bind fun p ⟨rest', h⟩ => ?_
  cases rest' with
  | nil => exact erase_weaken _
  | cons token rest' =>
    cases token with
    | keyword k =>
      cases k with
      | escape => exact erase_bind fun _ _ => erase_weaken _
      | _ => exact erase_weaken _
    | _ => exact erase_weaken _

theorem parseInfix_cast (type : String) (h : level ≤ 9) :
    parseInfix level e (.cast :: .ident type :: rest) = parseInfix level (.cast e type) rest := by
  rw [parseInfix, readInfix, if_pos h]
  exact erase_weaken _

end

structure Table where
  name : String
  rowName : String

/-- `SELECT column FROM source JOIN joined ON on WHERE condition ORDER BY orderBy DESC
LIMIT limit`. -/
structure Select where
  column : String
  source : Table
  joined : Table
  on : Expr
  condition : Expr
  orderBy : String
  limit : Expr

def parseSelect (sql : String) : Option Select :=
  match lex sql with
  | .keyword .select :: .ident column :: .keyword .from :: .ident source :: .ident s ::
      .keyword .join :: .ident joined :: .ident j :: .keyword .on :: rest => do
    match ← parseExpr 0 rest with
    | (on, .keyword .where :: rest) => do
      match ← parseExpr 0 rest with
      | (condition, .keyword .order :: .keyword .by :: .ident orderBy :: .keyword .desc ::
          .keyword .limit :: rest) => do
        match ← parseExpr 0 rest with
        | (limit, []) =>
          some ⟨column, ⟨source, s⟩, ⟨joined, j⟩, on, condition, orderBy, limit⟩
        | _ => none
      | _ => none
    | _ => none
  | _ => none

/-! ## Meaning -/

inductive Value
  | null
  | bool (b : Bool)
  | int (n : Int)
  | text (s : String)
  | time (t : Int)
  deriving DecidableEq

def Value.not : Value → Option Value
  | .bool b => some (.bool !b)
  | .null => some .null
  | _ => none

def Value.and : Value → Value → Option Value
  | .bool a, .bool b => some (.bool (a && b))
  | .bool a, .null | .null, .bool a => some (if a then .null else .bool false)
  | .null, .null => some .null
  | _, _ => none

def Value.or : Value → Value → Option Value
  | .bool a, .bool b => some (.bool (a || b))
  | .bool a, .null | .null, .bool a => some (if a then .bool true else .null)
  | .null, .null => some .null
  | _, _ => none

def Comparison.holds : Comparison → Int → Int → Bool
  | .eq, a, b => a == b
  | .lt, a, b => decide (a < b)
  | .le, a, b => decide (a ≤ b)
  | .gt, a, b => decide (b < a)
  | .ge, a, b => decide (b ≤ a)

/-- Texts are compared for equality only: their order depends on the collation. -/
def Value.compare : Comparison → Value → Value → Option Value
  | _, .null, _ | _, _, .null => some .null
  | c, .int a, .int b => some (.bool (c.holds a b))
  | c, .time a, .time b => some (.bool (c.holds a b))
  | .eq, .text a, .text b => some (.bool (a == b))
  | _, _, _ => none

def Value.like : Value → Value → Value → Option Value
  | .text s, .text p, .text escape =>
    match escape.toList with
    | [c] => (Sql.like c p.toList s.toList).map .bool
    | _ => none
  | .text _, .null, .text _ | .null, .text _, .text _ | .null, .null, .text _ => some .null
  | _, _, _ => none

/-- What an expression is evaluated with: the row's columns, the bound values, and the
functions and casts of the database. -/
structure Env where
  column : String → Option Value
  binds : List Value
  function : String → List Value → Option Value
  cast : String → Value → Option Value

mutual

def eval (env : Env) : Expr → Option Value
  | .column name => env.column name
  | .param n => if n = 0 then none else env.binds[n - 1]?
  | .str s => some (.text s)
  | .bool b => some (.bool b)
  | .null => some .null
  | .call f args => do env.function f (← evalArgs env args)
  | .not e => do (← eval env e).not
  | .and l r => do (← eval env l).and (← eval env r)
  | .or l r => do (← eval env l).or (← eval env r)
  | .isNull e => do some (.bool ((← eval env e) == .null))
  | .compare c l r => do Value.compare c (← eval env l) (← eval env r)
  | .like e p escape => do Value.like (← eval env e) (← eval env p) (← eval env escape)
  | .cast e type => do env.cast type (← eval env e)

def evalArgs (env : Env) : List Expr → Option (List Value)
  | [] => some []
  | e :: es => do some ((← eval env e) :: (← evalArgs env es))

end

/-- As a condition, `e` is TRUE exactly where `P` holds, and FALSE or NULL elsewhere. -/
def Selects (env : Env) (e : Expr) (P : Prop) : Prop :=
  ∃ v, eval env e = some v ∧ (v = .null ∨ ∃ b, v = .bool b) ∧ (v = .bool true ↔ P)

theorem selects_bool {env : Env} {e : Expr} {b : Bool} (h : eval env e = some (.bool b)) :
    Selects env e (b = true) :=
  ⟨.bool b, h, .inr ⟨b, rfl⟩, by simp⟩

theorem Selects.and {env : Env} {l r : Expr} {P Q : Prop} (hl : Selects env l P)
    (hr : Selects env r Q) : Selects env (.and l r) (P ∧ Q) := by
  obtain ⟨v, hv, hvb, hP⟩ := hl
  obtain ⟨w, hw, hwb, hQ⟩ := hr
  have heval : eval env (.and l r) = v.and w := by
    rw [eval, hv, hw]
    rfl
  rw [Selects, heval, ← hP, ← hQ]
  obtain rfl | ⟨a, rfl⟩ := hvb <;> obtain rfl | ⟨b, rfl⟩ := hwb
  · exact ⟨.null, rfl, .inl rfl, by simp⟩
  · cases b <;> simp [Value.and]
  · cases a <;> simp [Value.and]
  · cases a <;> cases b <;> simp [Value.and]

theorem Selects.congr {env : Env} {e : Expr} {P Q : Prop} (h : Selects env e P) (hPQ : P ↔ Q) :
    Selects env e Q := by
  rwa [Selects, ← hPQ]

/-! ## Operands

`Reads tokens e`: the tokens are an operand of `AND`, `OR` and `NOT`, whatever
follows them that no tighter operator starts. -/

/-- An operand at this level ends before `tokens`. -/
structure Stops (level : Nat) (tokens : List Token) : Prop where
  head : tokens.head? ≠ some .lparen
  infix_eq : ∀ l, level ≤ l → ∀ e, parseInfix l e tokens = some (e, tokens)

def Reads (tokens : List Token) (e : Expr) : Prop :=
  ∀ level ≤ 3, ∀ rest, Stops 3 rest → parseExpr level (tokens ++ rest) = parseInfix level e rest

theorem Stops.mono {level level' : Nat} {tokens : List Token} (h : Stops level tokens)
    (hle : level ≤ level') : Stops level' tokens :=
  ⟨h.head, fun l hl => h.infix_eq l (Nat.le_trans hle hl)⟩

def Token.continues : Token → Bool
  | .keyword .or | .keyword .and | .keyword .is | .keyword .like | .compare _ | .cast
  | .lparen => true
  | _ => false

theorem stops_of_head (level : Nat) {tokens : List Token}
    (h : tokens.head?.any Token.continues = false) : Stops level tokens := by
  constructor
  · intro hhead
    rw [hhead] at h
    cases h
  · intro l _ e
    rw [parseInfix, readInfix]
    · rfl
    all_goals
      intros
      subst tokens
      cases h

/-- An operand of any operator ends an expression's reading at its level. -/
theorem Reads.parse {tokens rest : List Token} {e : Expr} (h : Reads tokens e) {level : Nat}
    (hlevel : level ≤ 3) (hrest : Stops level rest) :
    parseExpr level (tokens ++ rest) = some (e, rest) := by
  rw [h level hlevel rest (hrest.mono hlevel)]
  exact hrest.infix_eq level le_rfl e

/-- `AND` and `OR`, with the level that their right operand is read at. -/
inductive Connective
  | and
  | or

namespace Connective

def keyword : Connective → Keyword
  | .and => .and
  | .or => .or

def level : Connective → Nat
  | .and => 3
  | .or => 2

def expr : Connective → Expr → Expr → Expr
  | .and => .and
  | .or => .or

def op : Connective → Bool → Bool → Bool
  | .and => Bool.and
  | .or => Bool.or

theorem level_le (k : Connective) : k.level ≤ 3 := by
  cases k <;> decide

theorem stops (k : Connective) (rest : List Token) :
    Stops k.level (.keyword k.keyword :: rest) := by
  refine ⟨by simp, ?_⟩
  intro l hl e
  cases k with
  | and =>
    have hle : ¬ l ≤ 2 := by simp only [level] at hl; omega
    rw [keyword, parseInfix_and, if_neg hle]
  | or =>
    have hle : ¬ l ≤ 1 := by simp only [level] at hl; omega
    rw [keyword, parseInfix_or, if_neg hle]

/-- Reading on over one more operand. -/
theorem parseInfix_operand (k : Connective) {tokens rest : List Token} {e e' : Expr}
    (h : Reads tokens e') (hrest : Stops k.level rest) :
    parseInfix 0 e (.keyword k.keyword :: (tokens ++ rest)) = parseInfix 0 (k.expr e e') rest := by
  have hread := h.parse k.level_le hrest
  cases k with
  | and =>
    simp only [level] at hread
    simp [keyword, parseInfix_and, hread, expr]
  | or =>
    simp only [level] at hread
    simp [keyword, parseInfix_or, hread, expr]

theorem eval_expr (k : Connective) {env : Env} {l r : Expr} {a b : Bool}
    (hl : eval env l = some (.bool a)) (hr : eval env r = some (.bool b)) :
    eval env (k.expr l r) = some (.bool (k.op a b)) := by
  cases k with
  | and => simp [expr, eval, hl, hr, Value.and, op]
  | or => simp [expr, eval, hl, hr, Value.or, op]

/-- The tokens after the first operand: each further one after the connective. -/
inductive Operands (k : Connective) : List Token → List Expr → Prop
  | nil : k.Operands [] []
  | cons {tokens rest : List Token} {e : Expr} {es : List Expr} (h : Reads tokens e)
      (hrest : k.Operands rest es) :
      k.Operands (.keyword k.keyword :: (tokens ++ rest)) (e :: es)

namespace Operands

theorem stops {k : Connective} {tokens : List Token} {es : List Expr} (h : k.Operands tokens es)
    {rest : List Token} (hrest : Stops k.level rest) : Stops k.level (tokens ++ rest) := by
  cases h with
  | nil => exact hrest
  | cons h h' => exact k.stops _

theorem parseInfix {k : Connective} {tokens : List Token} {es : List Expr}
    (h : k.Operands tokens es) {rest : List Token} (hrest : Stops k.level rest) (e : Expr) :
    parseInfix 0 e (tokens ++ rest) = Sql.parseInfix 0 (es.foldl k.expr e) rest := by
  induction h generalizing e with
  | nil => rfl
  | @cons tokens tokens' e' es hread hrest' ih =>
    rw [List.cons_append, List.append_assoc, k.parseInfix_operand hread (hrest'.stops hrest), ih]
    rfl

theorem snoc {k : Connective} {tokens tokens' : List Token} {es : List Expr} {e : Expr}
    (h : k.Operands tokens es) (h' : Reads tokens' e) :
    k.Operands (tokens ++ .keyword k.keyword :: tokens') (es ++ [e]) := by
  induction h with
  | nil =>
    have hone := Operands.cons h' (Operands.nil (k := k))
    rwa [List.append_nil] at hone
  | cons hread _ ih =>
    rw [List.cons_append, List.append_assoc]
    exact .cons hread ih

end Operands

theorem eval_foldl (k : Connective) {env : Env} {es : List Expr} {bs : List Bool}
    (h : List.Forall₂ (fun e b => eval env e = some (.bool b)) es bs) {e : Expr} {b : Bool}
    (he : eval env e = some (.bool b)) :
    eval env (es.foldl k.expr e) = some (.bool (bs.foldl k.op b)) := by
  induction h generalizing e b with
  | nil => exact he
  | cons h _ ih => exact ih (k.eval_expr he h)

end Connective

/-- Brackets make an operand of any expression. -/
theorem Reads.group {k : Connective} {tokens tokens' : List Token} {e : Expr} {es : List Expr}
    (h : Reads tokens e) (h' : k.Operands tokens' es) :
    Reads (.lparen :: (tokens ++ (tokens' ++ [.rparen]))) (es.foldl k.expr e) := by
  intro level _ rest _
  have hend : Stops k.level (.rparen :: rest) := stops_of_head k.level rfl
  have hinner : parseExpr 0 (tokens ++ (tokens' ++ .rparen :: rest)) =
      some (es.foldl k.expr e, .rparen :: rest) := by
    rw [h 0 (by omega) _ ((h'.stops hend).mono k.level_le), h'.parseInfix hend]
    exact (stops_of_head 0 rfl).infix_eq 0 le_rfl _
  have htokens : .lparen :: (tokens ++ (tokens' ++ [.rparen])) ++ rest =
      .lparen :: (tokens ++ (tokens' ++ .rparen :: rest)) := by simp
  rw [htokens, parseExpr_eq, parsePrefix_lparen, hinner]
  rfl

theorem Reads.paren {tokens : List Token} {e : Expr} (h : Reads tokens e) :
    Reads (.lparen :: (tokens ++ [.rparen])) e :=
  h.group (k := .and) .nil

theorem Reads.not {tokens : List Token} {e : Expr} (h : Reads tokens e) :
    Reads (.keyword .not :: tokens) (.not e) := by
  intro level hlevel rest hrest
  have hinner := h.parse le_rfl hrest
  rw [List.cons_append, parseExpr_eq, parsePrefix_not level _ hlevel, hinner]
  rfl

/-- The tokens are a whole expression wherever one starts. -/
def Atom (tokens : List Token) (e : Expr) : Prop :=
  ∀ level rest, rest.head? ≠ some .lparen → parsePrefix level (tokens ++ rest) = some (e, rest)

theorem atom_column (name : String) : Atom [.ident name] (.column name) := by
  intro level rest hrest
  rw [List.singleton_append, parsePrefix_ident level rest name hrest]

theorem atom_param (n : Nat) : Atom [.param n] (.param n) := by
  intro level rest _
  rw [List.singleton_append, parsePrefix_param]

theorem atom_str (s : String) : Atom [.str s] (.str s) := by
  intro level rest _
  rw [List.singleton_append, parsePrefix_str]

theorem atom_bool (b : Bool) : Atom [.keyword (if b then .true else .false)] (.bool b) := by
  intro level rest _
  rw [List.singleton_append, parsePrefix_bool]

namespace Atom

variable {tokens : List Token} {e : Expr}

theorem parse (h : Atom tokens e) {level : Nat} {rest : List Token} (hrest : Stops level rest) :
    parseExpr level (tokens ++ rest) = some (e, rest) := by
  rw [parseExpr_eq, h level rest hrest.head]
  exact hrest.infix_eq level le_rfl e

theorem reads (h : Atom tokens e) : Reads tokens e := by
  intro level _ rest hrest
  rw [parseExpr_eq, h level rest hrest.head]
  rfl

theorem reads_compare (h : Atom tokens e) (c : Comparison) (n : Nat) :
    Reads (tokens ++ [.compare c, .param n]) (.compare c e (.param n)) := by
  intro level hlevel rest hrest
  have hle : level ≤ 5 := by omega
  have hparam := (atom_param n).parse (hrest.mono (show 3 ≤ 6 by decide))
  rw [List.singleton_append] at hparam
  rw [List.append_assoc, parseExpr_eq, h level _ (by simp)]
  simp [parseInfix_compare, hle, hparam]

theorem reads_like (h : Atom tokens e) (n : Nat) (s : String) :
    Reads (tokens ++ [.keyword .like, .param n, .keyword .escape, .str s])
      (.like e (.param n) (.str s)) := by
  intro level hlevel rest hrest
  have hle : level ≤ 6 := by omega
  have hparam := (atom_param n).parse
    (show Stops 7 (.keyword .escape :: .str s :: rest) from stops_of_head 7 rfl)
  have hstr := (atom_str s).parse (hrest.mono (show 3 ≤ 7 by decide))
  rw [List.singleton_append] at hparam hstr
  rw [List.append_assoc, parseExpr_eq, h level _ (by simp)]
  simp [parseInfix_like, hle, hparam, hstr]

theorem reads_isNull (h : Atom tokens e) :
    Reads (tokens ++ [.keyword .is, .keyword .null]) (.isNull e) := by
  intro level hlevel rest hrest
  have hle : level ≤ 4 := by omega
  rw [List.append_assoc, parseExpr_eq, h level _ (by simp)]
  simp [parseInfix_isNull, hle]

theorem reads_cast (h : Atom tokens e) (type : String) :
    Reads (tokens ++ [.cast, .ident type]) (.cast e type) := by
  intro level hlevel rest hrest
  have hle : level ≤ 9 := by omega
  rw [List.append_assoc, parseExpr_eq, h level _ (by simp)]
  simp [parseInfix_cast, hle]

end Atom

/-- There is no expression between two brackets with nothing in them. -/
theorem parseExpr_empty (level : Nat) (rest : List Token) :
    parseExpr level (.lparen :: .rparen :: rest) = none := by
  have hinner : parseExpr 0 (.rparen :: rest) = none := by
    rw [parseExpr_eq, parsePrefix_rparen]
    rfl
  rw [parseExpr_eq, parsePrefix_lparen, hinner]
  rfl

/-- The arguments of a call, up to the bracket that closes it. -/
inductive Args : List Token → List Expr → Prop
  | one {tokens : List Token} {e : Expr} (h : Reads tokens e) : Args tokens [e]
  | cons {tokens rest : List Token} {e : Expr} {es : List Expr} (h : Reads tokens e)
      (hrest : Args rest es) : Args (tokens ++ .comma :: rest) (e :: es)

theorem Args.parse {tokens : List Token} {es : List Expr} (h : Args tokens es)
    (rest : List Token) : parseArgs (tokens ++ .rparen :: rest) = some (es, rest) := by
  induction h with
  | one h =>
    rw [parseArgs_eq, h.parse (by omega) (stops_of_head 0 rfl)]
    rfl
  | @cons tokens tokens' e es h _ ih =>
    rw [List.append_assoc, List.cons_append, parseArgs_eq,
      h.parse (by omega) (stops_of_head 0 rfl), Option.bind_some]
    simp [ih]

theorem atom_call (f : String) {tokens : List Token} {es : List Expr} (h : Args tokens es) :
    Atom (.ident f :: .lparen :: (tokens ++ [.rparen])) (.call f es) := by
  intro level rest _
  have hargs := h.parse rest
  simp only [List.cons_append, List.append_assoc, List.nil_append]
  rw [parsePrefix_call, hargs]
  rfl

theorem atom_call_column (f name : String) :
    Atom [.ident f, .lparen, .ident name, .rparen] (.call f [.column name]) :=
  atom_call f (.one (atom_column name).reads)

end Seiran.Sql
