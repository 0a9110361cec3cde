import Seiran.Model.Search.Truth

/-!
# Parsing a search query

`parse` and `parse_partial` of `repository/post_search.rs`, from the tokens on, and
the reading the query syntax is meant to have.

* `Control` lists the four characters that the tokenizer makes a `Token::Control` of.
* `Chrono` is what `parse_date` calls: `parse_from_rfc3339`, and
  `NaiveDate::parse_from_str` with midnight UTC. Times are integers.
* `group` reads the parentheses alone. An opening one that is not closed is closed by
  the end, and a closing one that was not opened, by the comment in `parse_partial`,
  has its pair at the beginning.
* `Reader` goes through the items of a group from left to right. `meaning` is the one
  that says what a query means, `taken` what the parser takes it for: the second has
  one register for the connective and the sign, does not tell a left side that is true
  from none, and takes an `OR` chain of what is constantly false for true.
-/

namespace Seiran.Query

open Search

inductive Control
  | opening
  | closing
  | minus
  | plus
  deriving DecidableEq

inductive Token
  | text (text : String)
  | control (ch : Control)
  | or
  deriving DecidableEq

inductive Join
  | and
  | or
  | not
  deriving DecidableEq

open SearchCondition in
def combine (left right : SearchCondition) (join : Join) : SearchCondition :=
  let right := match join with
    | .not => .not right
    | _ => right
  match left, join with
  | .true, _ => right
  | .and values, .and | .and values, .not => .and (values ++ [right])
  | .or values, .or => .or (values ++ [right])
  | left, .or => .or [left, right]
  | left, _ => .and [left, right]

structure Chrono where
  parseFromRfc3339 : String → Option Int
  parseDay : String → Option Int

def Chrono.parseDate (chrono : Chrono) (value : String) : Option Int :=
  (chrono.parseFromRfc3339 value).or (chrono.parseDay value)

def toAsciiLowercase (value : List Char) : List Char := value.map Char.toLower

def normalizeHandle (value : List Char) : String :=
  String.ofList (toAsciiLowercase (value.dropWhile (· == '@')))

/-- `text.split_once(':')` -/
def splitOperator (text : String) : Option (List Char × List Char) :=
  match text.toList.dropWhile (· != ':') with
  | _ :: value => some (text.toList.takeWhile (· != ':'), value)
  | [] => none

/-- A condition, and the tokens that are left, no more than `n`. -/
abbrev Parsed (n : Nat) := { result : SearchCondition × List Token // result.2.length ≤ n }

def Parsed.of {m n : Nat} (h : m ≤ n) (parsed : Parsed m) : Parsed n :=
  ⟨parsed.1, parsed.2.trans h⟩

section

variable (chrono : Chrono)

def parseTerm (text : String) : SearchCondition :=
  match splitOperator text with
  | none => .text text
  | some (operator, value) =>
    if value.isEmpty then .text text
    else match String.ofList (toAsciiLowercase operator) with
      | "from" => .from (normalizeHandle value)
      | "mentions" => .mentions (normalizeHandle value)
      | "domain" => .domain (String.ofList (toAsciiLowercase value))
      | "lang" => .true
      | "since" => ((chrono.parseDate (String.ofList value)).map .since).getD (.text text)
      | "until" => ((chrono.parseDate (String.ofList value)).map .until).getD (.text text)
      | _ => .text text

/-- The loop of `parse_partial`. -/
def parsePartial (root : Bool) :
    (tokens : List Token) → SearchCondition → Join → Parsed tokens.length
  | [], current, _ => ⟨(current, []), le_rfl⟩
  | .control .opening :: tokens, current, join =>
    let found := parsePartial false tokens .true .and
    have hfound := found.2
    (parsePartial root found.1.2 (combine current found.1.1 join) .and).of
      (hfound.trans (Nat.le_succ _))
  | .control .closing :: tokens, current, _ =>
    -- An unmatched closing parenthesis behaves as if its opening pair had been inserted
    -- at the beginning.
    if root then (parsePartial root tokens current .and).of (Nat.le_succ _)
    else ⟨(current, tokens), Nat.le_succ _⟩
  | .control .minus :: tokens, current, _ =>
    (parsePartial root tokens current .not).of (Nat.le_succ _)
  | .control .plus :: tokens, current, _ =>
    (parsePartial root tokens current .and).of (Nat.le_succ _)
  | .or :: tokens, current, _ =>
    (parsePartial root tokens current .or).of (Nat.le_succ _)
  | .text text :: tokens, current, join =>
    if text.isEmpty then (parsePartial root tokens current join).of (Nat.le_succ _)
    else
      (parsePartial root tokens (combine current (parseTerm chrono text) join) .and).of
        (Nat.le_succ _)
  termination_by tokens => tokens.length
  decreasing_by
    all_goals first
      | exact Nat.lt_succ_of_le hfound
      | exact Nat.lt_succ_self _

def parse (tokens : List Token) : SearchCondition :=
  optimize (parsePartial chrono true tokens .true .and).1.1

end

/-! ## Parentheses -/

inductive Item
  | text (text : String)
  | or
  | minus
  | plus
  | group (items : List Item)

/-- The end of the query closes the groups that are open, `outers` being what precedes
them, the innermost first. -/
def closeAll : List (List Item) → List Item → List Item
  | [], items => items
  | outer :: outers, items => closeAll outers (outer ++ [.group items])

def groupFrom : List Token → List (List Item) → List Item → List Item
  | [], outers, items => closeAll outers items
  | .control .opening :: tokens, outers, items => groupFrom tokens (items :: outers) []
  | .control .closing :: tokens, outer :: outers, items =>
    groupFrom tokens outers (outer ++ [.group items])
  | .control .closing :: tokens, [], items => groupFrom tokens [] [.group items]
  | .control .minus :: tokens, outers, items => groupFrom tokens outers (items ++ [.minus])
  | .control .plus :: tokens, outers, items => groupFrom tokens outers (items ++ [.plus])
  | .or :: tokens, outers, items => groupFrom tokens outers (items ++ [.or])
  | .text text :: tokens, outers, items =>
    groupFrom tokens outers (if text.isEmpty then items else items ++ [.text text])

def group (tokens : List Token) : List Item := groupFrom tokens [] []

/-- A way to read a group from left to right: what an operand is, and what is kept of
the items read so far. -/
structure Reader (σ α : Type) where
  start : σ
  text : String → α
  operand : σ → α → σ
  or : σ → σ
  minus : σ → σ
  plus : σ → σ
  result : σ → α

section

variable {σ α : Type} (R : Reader σ α)

mutual

def Item.read : Item → σ → σ
  | .text text, s => R.operand s (R.text text)
  | .or, s => R.or s
  | .minus, s => R.minus s
  | .plus, s => R.plus s
  | .group items, s => R.operand s (R.result (readAll items R.start))

def readAll : List Item → σ → σ
  | [], s => s
  | item :: items, s => readAll items (Item.read item s)

end

def Reader.read (items : List Item) : α := R.result (readAll R items R.start)

end

/-! ## What a query means -/

/-- The operands read so far, if any, and the `OR` and the sign that are before the next
one. -/
structure Phrase where
  value : Option Bool
  or : Bool
  negated : Bool

def Phrase.operand (s : Phrase) (operand : Bool) : Phrase where
  value := some (match s.value with
    | none => s.negated ^^ operand
    | some value => if s.or then value || (s.negated ^^ operand) else value && (s.negated ^^ operand))
  or := false
  negated := false

/-- A `lang:` filter. -/
def isLang (text : String) : Bool :=
  match splitOperator text with
  | none => false
  | some (operator, value) =>
    !value.isEmpty && String.ofList (toAsciiLowercase operator) == "lang"

/-- Adjacency is and, `OR` joins what is before it with the next operand, a sign is the
sign of the next operand, and no operand at all is true. -/
def meaning (chrono : Chrono) (v : SearchCondition → Bool) : Reader Phrase Bool where
  start := ⟨none, false, false⟩
  text text := if isLang text then true else v (parseTerm chrono text)
  operand := Phrase.operand
  or s := { s with or := true, negated := false }
  minus s := { s with negated := true }
  plus s := { s with negated := false }
  result s := s.value.getD true

/-! ## What the parser takes it for -/

/-- The shape of the condition that is built: `True`, an `Or` whose values are constants
as a whole, or anything else. -/
inductive Shape
  | always
  | chain (constant : Option Bool)
  | other (constant : Option Bool)
  deriving DecidableEq

/-- An `Or` that is constantly false is optimised to `True`. -/
def Shape.constant : Shape → Option Bool
  | .always => some true
  | .chain (some false) => some true
  | .chain constant | .other constant => constant

/-- A condition that is built, `truth` being that of an `Or` as it stands. -/
structure Reading where
  shape : Shape
  truth : Bool

namespace Reading

/-- It is not a chain that is taken for true because it is constantly false. -/
def sound (r : Reading) : Bool := r.shape != .chain (some false)

def closed (r : Reading) : Bool := !r.sound || r.truth

def negate (r : Reading) : Reading := ⟨.other (r.shape.constant.map not), !r.closed⟩

def signed (r : Reading) : Join → Reading
  | .not => r.negate
  | _ => r

def join (left right : Reading) : Join → Reading
  | .or => ⟨.chain (constantOr left.shape.constant right.shape.constant), left.closed || right.closed⟩
  | _ => ⟨.other (constantAnd left.shape.constant right.shape.constant), left.closed && right.closed⟩

/-- `combine` -/
def combine (left right : Reading) (join : Join) : Reading :=
  match left.shape, join with
  | .always, _ => right.signed join
  | .chain constant, .or =>
    ⟨.chain (constantOr constant right.shape.constant), left.truth || right.closed⟩
  | _, _ => left.join (right.signed join) join

end Reading

def taken (chrono : Chrono) (v : SearchCondition → Bool) : Reader (Reading × Join) Reading where
  start := (⟨.always, true⟩, .and)
  text text := if isLang text then ⟨.always, true⟩ else ⟨.other none, v (parseTerm chrono text)⟩
  operand s operand := (s.1.combine operand s.2, .and)
  or s := (s.1, .or)
  minus s := (s.1, .not)
  plus s := (s.1, .and)
  result s := s.1

/-- What is taken, whether there was an operand, whether there is an `OR` before the
next one, and whether all was taken as it is meant. -/
structure Course where
  taken : Reading × Join
  started : Bool
  or : Bool
  plain : Bool

/-- An operand is taken as it is meant, unless an `OR` before it is lost to a sign or to
a left side that is `True`, or a chain that is constantly false ends here. -/
def Course.operand (s : Course) (operand : Reading × Bool) : Course where
  taken := (s.taken.1.combine operand.1 s.taken.2, .and)
  started := true
  or := false
  plain := s.plain && operand.2 &&
    !(s.started && s.or && (s.taken.2 != .or || s.taken.1.shape == .always)) &&
    (s.taken.2 == .or || s.taken.1.sound) &&
    (operand.1.sound || s.taken.1.shape == .always && s.taken.2 != .not)

def course (chrono : Chrono) (v : SearchCondition → Bool) : Reader Course (Reading × Bool) where
  start := ⟨(taken chrono v).start, false, false, true⟩
  text text := ((taken chrono v).text text, true)
  operand := Course.operand
  or s := { s with taken := (s.taken.1, .or), or := true }
  minus s := { s with taken := (s.taken.1, .not) }
  plus s := { s with taken := (s.taken.1, .and) }
  result s := (s.taken.1, s.plain)

/-- In the query no `OR` follows what is `True`, no sign stands between an `OR` and its
operand, and no chain of `OR`s is constantly false. -/
def Plain (chrono : Chrono) (v : SearchCondition → Bool) (items : List Item) : Bool :=
  let result := (course chrono v).read items
  result.2 && result.1.sound

end Seiran.Query
