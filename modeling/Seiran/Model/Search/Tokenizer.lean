import Seiran.Model.Lists.Publish
import Seiran.Model.Search.Query

/-!
# The tokens of a search query

`Tokenizer` and `classify_text` of `repository/post_search.rs`, and the query with the
parentheses that are missing in it.

The parser takes the tokens one at a time. It does nothing else to the tokenizer, and
after the last token the tokenizer stays at the end, so the tokens are a list.
-/

namespace Seiran.Query

open Lists (isWhitespace)
open Search

def classifyText (text : List Char) : Token :=
  if toAsciiLowercase text = ['o', 'r'] then .or else .text (String.ofList text)

/-- The `Token::Control` of a character. -/
def control (ch : Char) : Token :=
  .control (if ch = '(' then .opening else if ch = ')' then .closing
    else if ch = '-' then .minus else .plus)

/-- The loop of `Tokenizer::next`: the token, and what the tokenizer is before then. -/
def next : List Char → List Char → Bool → Bool → Option (Token × List Char)
  | [], text, _, _ => if text.isEmpty then none else some (classifyText text, [])
  | ch :: rest, text, quoted, escaped =>
    if ch = '"' ∧ !escaped then
      if quoted then some (.text (String.ofList text), rest)
      else if text.isEmpty then next rest text true escaped
      else some (classifyText text, ch :: rest)
    else if ch = '\\' ∧ !escaped then next rest text quoted true
    else if (ch = '(' ∨ ch = ')') ∧ !quoted ∧ !escaped then
      if text.isEmpty then some (control ch, rest) else some (classifyText text, ch :: rest)
    else if !quoted ∧ !escaped ∧ isWhitespace ch then
      if text.isEmpty then next rest text quoted escaped else some (classifyText text, rest)
    else if (ch = '+' ∨ ch = '-') ∧ !quoted ∧ !escaped ∧ text.isEmpty then
      some (control ch, rest)
    else next rest (text ++ [ch]) quoted false

/-- Every token takes some of the input. -/
theorem length_next {input text : List Char} {quoted escaped : Bool} {token : Token}
    {rest : List Char} (h : next input text quoted escaped = some (token, rest)) :
    rest.length ≤ input.length ∧ (text = [] → rest.length < input.length) := by
  fun_induction next input text quoted escaped with
  | case1 => cases h
  | case2 | case5 | case8 =>
    rename_i hne
    obtain ⟨-, rfl⟩ := Prod.mk.inj (Option.some.inj h)
    exact ⟨le_rfl, fun htext => absurd (List.isEmpty_iff.mpr htext) hne⟩
  | case3 | case7 | case10 | case11 =>
    obtain ⟨-, rfl⟩ := Prod.mk.inj (Option.some.inj h)
    exact ⟨Nat.le_succ _, fun _ => Nat.lt_succ_self _⟩
  | case4 | case6 | case9 | case12 =>
    rename_i ih
    exact ⟨(ih h).1.trans (Nat.le_succ _), fun _ => Nat.lt_succ_of_le (ih h).1⟩

def tokenize (query : List Char) : List Token :=
  match h : next query [] false false with
  | none => []
  | some (token, rest) =>
    have := (length_next h).2 rfl
    token :: tokenize rest
  termination_by query.length

/-- `parse` of a query as it is written -/
def parseQuery (chrono : Chrono) (query : List Char) : SearchCondition :=
  parse chrono (tokenize query)

/-! ## The missing parentheses -/

/-- How many closing parentheses have no opening one, and how many opening ones are not
closed at the end, `depth` of them being before the tokens. -/
def brackets : List Token → Nat → Nat × Nat
  | [], depth => (0, depth)
  | .control .opening :: tokens, depth => brackets tokens (depth + 1)
  | .control .closing :: tokens, depth + 1 => brackets tokens depth
  | .control .closing :: tokens, 0 => ((brackets tokens 0).1 + 1, (brackets tokens 0).2)
  | .control .minus :: tokens, depth | .control .plus :: tokens, depth | .or :: tokens, depth
  | .text _ :: tokens, depth => brackets tokens depth

/-- The closing parentheses that are missing at the end, and an opening one at the very
beginning for each closing one that has none. -/
def balance (tokens : List Token) : List Token :=
  List.replicate (brackets tokens 0).1 (.control .opening) ++ tokens ++
    List.replicate (brackets tokens 0).2 (.control .closing)

/-- No part of the query up to a token closes more parentheses than it opens, and the
whole closes all. -/
structure Balanced (tokens : List Token) : Prop where
  prefixes : ∀ part, part <+: tokens →
    part.count (.control .closing) ≤ part.count (.control .opening)
  closed : tokens.count (.control .closing) = tokens.count (.control .opening)

end Seiran.Query
