import Mathlib.Data.List.Basic

/-!
# Tokens of SQL

`lex` splits the text of a statement into tokens as PostgreSQL does:

* keywords and identifiers in any case (a qualified name is one identifier);
* `$1`, `$2`, … the places of the bound values;
* string literals, where a quote inside is written twice and a backslash is a
  backslash (`standard_conforming_strings`);
* operators, each as long as the text allows.

The lexer reads one character at a time and keeps what it has of the last token
(`Pending`), so that the tokens of a text put together from pieces are the
tokens of the pieces (`Closed.append`, `Lexes.append`).
-/

namespace Seiran.Sql

inductive Keyword
  | select | «from» | join | on | «where» | order | «by» | desc | limit
  | and | or | not | is | null | like | escape | true | false
  deriving DecidableEq

inductive Comparison
  | eq | lt | le | gt | ge
  deriving DecidableEq

inductive Token
  | keyword (k : Keyword)
  | ident (name : String)
  | param (n : Nat)
  | str (s : String)
  | compare (c : Comparison)
  | cast
  | lparen
  | rparen
  | comma
  | bad
  deriving DecidableEq

def keywords : List (String × Keyword) :=
  [("select", .select), ("from", .from), ("join", .join), ("on", .on), ("where", .where),
    ("order", .order), ("by", .by), ("desc", .desc), ("limit", .limit), ("and", .and),
    ("or", .or), ("not", .not), ("is", .is), ("null", .null), ("like", .like),
    ("escape", .escape), ("true", .true), ("false", .false)]

def operators : List (List Char × Token) :=
  [(['='], .compare .eq), (['<'], .compare .lt), (['<', '='], .compare .le),
    (['>'], .compare .gt), (['>', '='], .compare .ge), ([':', ':'], .cast)]

/-- What has been read of the token that the text ends in. -/
inductive Pending
  | idle
  | word (s : List Char)
  | param (digits : List Char)
  | op (s : List Char)
  | str (s : List Char)
  /-- A string and the quote that ends it, unless another one follows. -/
  | quote (s : List Char)
  deriving DecidableEq

def quoteChar : Char := Char.ofNat 39

def isWordChar (c : Char) : Bool := c.isAlphanum || c == '_' || c == '.'

def isOpChar (c : Char) : Bool :=
  ['+', '-', '*', '/', '<', '>', '=', '~', '!', '@', '#', '%', '^', '&', '|', '?', ':'].contains c

/-- The tokens there are if the text ends here. -/
def Pending.flush : Pending → List Token
  | .idle => []
  | .word s =>
    let name := String.ofList (s.map Char.toLower)
    [((keywords.lookup name).map Token.keyword).getD (.ident name)]
  | .param digits => [if digits.isEmpty then .bad else .param (Nat.ofDigitChars 10 digits 0)]
  | .op s => [(operators.lookup s).getD .bad]
  | .str _ => [.bad]
  | .quote s => [.str (String.ofList s)]

/-- The token with one more character, where that is still one token. -/
def Pending.extend : Pending → Char → Option Pending
  | .idle, _ => none
  | .word s, c => if isWordChar c then some (.word (s ++ [c])) else none
  | .param digits, c => if c.isDigit then some (.param (digits ++ [c])) else none
  | .op s, c => if isOpChar c then some (.op (s ++ [c])) else none
  | .str s, c => some (if c = quoteChar then .quote s else .str (s ++ [c]))
  | .quote s, c => if c = quoteChar then some (.str (s ++ [c])) else none

/-- The first character of a token. -/
def start (c : Char) : List Token × Pending :=
  if c = ' ' then ([], .idle)
  else if c = '(' then ([.lparen], .idle)
  else if c = ')' then ([.rparen], .idle)
  else if c = ',' then ([.comma], .idle)
  else if c = quoteChar then ([], .str [])
  else if c = '$' then ([], .param [])
  else if isOpChar c then ([], .op [c])
  else if isWordChar c then ([], .word [c])
  else ([.bad], .idle)

def Pending.step (p : Pending) (c : Char) : List Token × Pending :=
  match p.extend c with
  | some q => ([], q)
  | none => (p.flush ++ (start c).1, (start c).2)

def scan : Pending → List Char → List Token × Pending
  | p, [] => ([], p)
  | p, c :: cs => ((p.step c).1 ++ (scan (p.step c).2 cs).1, (scan (p.step c).2 cs).2)

def lex (text : String) : List Token :=
  (scan .idle text.toList).1 ++ (scan .idle text.toList).2.flush

theorem scan_append (p : Pending) (s t : List Char) :
    scan p (s ++ t) = ((scan p s).1 ++ (scan (scan p s).2 t).1, (scan (scan p s).2 t).2) := by
  induction s generalizing p with
  | nil => simp [scan]
  | cons c cs ih => simp [scan, ih, List.append_assoc]

/-! ## Texts put together from pieces -/

/-- A character that ends every token but a string literal. -/
def isDelimiter (c : Char) : Bool := c == ' ' || c == ')' || c == ','

def Pending.isStr : Pending → Bool
  | .str _ => true
  | _ => false

/-- `text` is whole tokens, with nothing pending at its end. -/
def Closed (text : String) (tokens : List Token) : Prop :=
  scan .idle text.toList = (tokens, .idle)

/-- `text` is whole tokens once a delimiter, or nothing, follows it. -/
def Lexes (text : String) (tokens : List Token) : Prop :=
  lex text = tokens ∧ (scan .idle text.toList).2.isStr = false

instance (text : String) (tokens : List Token) : Decidable (Closed text tokens) :=
  inferInstanceAs (Decidable (_ = _))

instance (text : String) (tokens : List Token) : Decidable (Lexes text tokens) :=
  inferInstanceAs (Decidable (_ ∧ _))

theorem extend_delimiter {p : Pending} {c : Char} (hp : p.isStr = false) (hc : isDelimiter c) :
    p.extend c = none := by
  have hc : c = ' ' ∨ c = ')' ∨ c = ',' := by simpa [isDelimiter, or_assoc] using hc
  cases p with
  | idle => rfl
  | word s => rcases hc with rfl | rfl | rfl <;> rfl
  | param digits => rcases hc with rfl | rfl | rfl <;> rfl
  | op s => rcases hc with rfl | rfl | rfl <;> rfl
  | str s => cases hp
  | quote s => rcases hc with rfl | rfl | rfl <;> rfl

theorem scan_delimiter {p : Pending} {c : Char} (hp : p.isStr = false) (hc : isDelimiter c)
    (cs : List Char) :
    scan p (c :: cs) = (p.flush ++ (scan .idle (c :: cs)).1, (scan .idle (c :: cs)).2) := by
  have hstep : p.step c = (p.flush ++ (start c).1, (start c).2) := by
    rw [Pending.step, extend_delimiter hp hc]
  have hidle : Pending.idle.step c = start c := rfl
  simp only [scan, hstep, hidle, List.append_assoc]

theorem Closed.lexes {text : String} {tokens : List Token} (h : Closed text tokens) :
    Lexes text tokens := by
  unfold Closed at h
  constructor
  · rw [lex, h]
    exact List.append_nil tokens
  · rw [h]
    rfl

theorem Closed.lex_append {s : String} {tokens : List Token} (h : Closed s tokens) (t : String) :
    lex (s ++ t) = tokens ++ lex t := by
  unfold Closed at h
  rw [lex, String.toList_append, scan_append, h, List.append_assoc]
  rfl

theorem Closed.append {s t : String} {tokens tokens' : List Token} (hs : Closed s tokens)
    (ht : Lexes t tokens') : Lexes (s ++ t) (tokens ++ tokens') := by
  obtain ⟨hlex, hstr⟩ := ht
  constructor
  · rw [hs.lex_append, hlex]
  · unfold Closed at hs
    rw [String.toList_append, scan_append, hs]
    exact hstr

/-- Where the second piece starts with a delimiter, the first one's last token ends. -/
theorem Lexes.append {s t : String} {c : Char} {cs : List Char} {tokens tokens' : List Token}
    (hs : Lexes s tokens) (ht : Lexes t tokens') (hcs : t.toList = c :: cs) (hc : isDelimiter c) :
    Lexes (s ++ t) (tokens ++ tokens') := by
  obtain ⟨hlex, hstr⟩ := hs
  obtain ⟨hlex', hstr'⟩ := ht
  have hscan := scan_delimiter hstr hc cs
  rw [← hcs] at hscan
  constructor
  · rw [lex, String.toList_append, scan_append, hscan, ← hlex, ← hlex', lex, lex]
    simp only [List.append_assoc]
  · rw [String.toList_append, scan_append, hscan]
    exact hstr'

/-- `text` adds its tokens to those of any text of whole tokens. -/
def Follows (text : String) (tokens : List Token) : Prop :=
  ∀ s tokens', Lexes s tokens' → Lexes (s ++ text) (tokens' ++ tokens)

theorem follows_nil : Follows "" [] := by
  intro s tokens' hs
  rw [String.append_empty, List.append_nil]
  exact hs

theorem Lexes.follows {text : String} {c : Char} {cs : List Char} {tokens : List Token}
    (h : Lexes text tokens) (hcs : text.toList = c :: cs) (hc : isDelimiter c) :
    Follows text tokens := fun _ _ hs => hs.append h hcs hc

theorem Follows.append {s t : String} {tokens tokens' : List Token} (hs : Follows s tokens)
    (ht : Follows t tokens') : Follows (s ++ t) (tokens ++ tokens') := by
  intro r tokens'' hr
  rw [← String.append_assoc, ← List.append_assoc]
  exact ht _ _ (hs _ _ hr)

theorem scan_digits (digits cs : List Char) (h : ∀ c ∈ cs, c.isDigit = true) :
    scan (.param digits) cs = ([], .param (digits ++ cs)) := by
  induction cs generalizing digits with
  | nil => simp [scan]
  | cons c cs ih =>
    have hstep : (Pending.param digits).step c = ([], .param (digits ++ [c])) := by
      simp [Pending.step, Pending.extend, h c (by simp)]
    rw [scan, hstep, ih (digits ++ [c]) fun c' hc' => h c' (by simp [hc'])]
    simp

theorem follows_rparen : Follows ")" [.rparen] := by
  have hlex : Lexes ")" [.rparen] := by decide
  exact hlex.follows rfl rfl

/-- `$n` is the place of the `n`-th bound value. -/
theorem lexes_param (n : Nat) : Lexes ("$" ++ toString n) [.param n] := by
  have htext : ("$" ++ toString n).toList = '$' :: Nat.toDigits 10 n := by
    simp
  have hscan : scan .idle ('$' :: Nat.toDigits 10 n) = ([], .param (Nat.toDigits 10 n)) := by
    have hstep : Pending.idle.step '$' = ([], .param []) := rfl
    rw [scan, hstep, scan_digits [] _ fun c hc =>
      Nat.isDigit_of_mem_toDigits (by decide) (by decide) hc]
    rfl
  have hne : (Nat.toDigits 10 n).isEmpty = false := by
    simp [Nat.toDigits_ne_nil]
  constructor
  · rw [lex, htext, hscan]
    simp only [Pending.flush, hne, List.nil_append, Nat.ofDigitChars_ten_toDigits]
    rfl
  · rw [htext, hscan]
    rfl

end Seiran.Sql
