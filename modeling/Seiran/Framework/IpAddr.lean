import Mathlib.Data.List.Basic
import Seiran.Framework.Digits

/-!
# IP addresses as text

`std::net::IpAddr`: how addresses and socket addresses are read from a text, and
how an address is written. A parser takes a part off the text; the text is an
address where nothing is left (`FromStr`).
-/

namespace Seiran

inductive IpAddr where
  | v4 (bits : BitVec 32)
  | v6 (bits : BitVec 128)
deriving DecidableEq

namespace IpAddr

abbrev Parser (α : Type) := List Char → Option (α × List Char)

def digitValue (c : Char) : Nat :=
  if c.isDigit then c.toNat - '0'.toNat else c.toLower.toNat - 'a'.toNat + 10

def isDigitOf (radix : Nat) (c : Char) : Bool :=
  (c.isDigit || ('a' ≤ c.toLower && c.toLower ≤ 'z')) && decide (digitValue c < radix)

/-- `read_number`, of a number below `bound`. -/
def readNumber (radix : Nat) (maxDigits : Option Nat) (allowZeroPrefix : Bool) (bound : Nat) :
    Parser Nat := fun text =>
  let digits := text.takeWhile (isDigitOf radix)
  let n := ofDigits radix (digits.map digitValue)
  if digits.isEmpty || maxDigits.any (· < digits.length) then none
  else if !allowZeroPrefix && digits.head? == some '0' && decide (1 < digits.length) then none
  else if n < bound then some (n, text.drop digits.length)
  else none

def readGivenChar (c : Char) : Parser Unit
  | c' :: text => if c' = c then some ((), text) else none
  | [] => none

/-- `read_separator`: the separator stands before every part but the first. -/
def readSeparator {α : Type} (sep : Char) (index : Nat) (inner : Parser α) : Parser α := fun text =>
  if index = 0 then inner text
  else (readGivenChar sep text).bind fun p => inner p.2

def readIpv4Addr : Parser (BitVec 32) := fun text => do
  let octet := readNumber 10 (some 3) false 256
  let (a, text) ← readSeparator '.' 0 octet text
  let (b, text) ← readSeparator '.' 1 octet text
  let (c, text) ← readSeparator '.' 2 octet text
  let (d, text) ← readSeparator '.' 3 octet text
  return (BitVec.ofNat 32 (ofDigits 256 [a, b, c, d]), text)

/-- `read_groups` from the group `limit - left` on: the groups, and if the last two are IPv4. -/
def readGroups (limit : Nat) : (left : Nat) → List Char → (List Nat × Bool) × List Char
  | 0, text => (([], false), text)
  | left + 1, text =>
    let i := limit - (left + 1)
    match if i + 1 < limit then readSeparator ':' i readIpv4Addr text else none with
    | some (bits, rest) => (([bits.toNat / 2 ^ 16, bits.toNat % 2 ^ 16], true), rest)
    | none =>
      match readSeparator ':' i (readNumber 16 (some 4) true (2 ^ 16)) text with
      | some (group, rest) =>
        let ((groups, ipv4), rest) := readGroups limit left rest
        ((group :: groups, ipv4), rest)
      | none => (([], false), text)

def ofGroups (groups : List Nat) : BitVec 128 := BitVec.ofNat 128 (ofDigits (2 ^ 16) groups)

def readIpv6Addr : Parser (BitVec 128) := fun text =>
  let ((head, headIpv4), text) := readGroups 8 8 text
  if head.length = 8 then some (ofGroups head, text)
  else if headIpv4 then none
  else do
    let ((), text) ← readGivenChar ':' text
    let ((), text) ← readGivenChar ':' text
    -- `::` stands for at least one group
    let limit := 8 - (head.length + 1)
    let ((tail, _), text) := readGroups limit limit text
    return (ofGroups (head ++ List.replicate (8 - head.length - tail.length) 0 ++ tail), text)

def readIpAddr : Parser IpAddr := fun text =>
  match readIpv4Addr text with
  | some (bits, rest) => some (.v4 bits, rest)
  | none => (readIpv6Addr text).map fun p => (.v6 p.1, p.2)

def readPort : Parser Nat := fun text => do
  let ((), text) ← readGivenChar ':' text
  readNumber 10 none true (2 ^ 16) text

def readSocketAddrV4 : Parser IpAddr := fun text => do
  let (bits, text) ← readIpv4Addr text
  let (_, text) ← readPort text
  return (.v4 bits, text)

/-- `read_scope_id` -/
def readScopeId : Parser Nat := fun text => do
  let ((), text) ← readGivenChar '%' text
  readNumber 10 none true (2 ^ 32) text

def readSocketAddrV6 : Parser IpAddr := fun text => do
  let ((), text) ← readGivenChar '[' text
  let (bits, text) ← readIpv6Addr text
  let (_, text) := (readScopeId text).getD (0, text)
  let ((), text) ← readGivenChar ']' text
  let (_, text) ← readPort text
  return (.v6 bits, text)

/-- `parse_with`: the whole text is read. -/
def parseWith {α : Type} (p : Parser α) (text : List Char) : Option α :=
  match p text with
  | some (value, []) => some value
  | _ => none

/-- `text.parse::<IpAddr>()` -/
def parse (text : List Char) : Option IpAddr := parseWith readIpAddr text

/-- The address of `text.parse::<SocketAddr>()`. -/
def parseSocketAddr (text : List Char) : Option IpAddr :=
  parseWith (fun t => (readSocketAddrV4 t).or (readSocketAddrV6 t)) text

/-- `to_canonical`: `::ffff:a.b.c.d` is an IPv4 address. -/
def toCanonical : IpAddr → IpAddr
  | .v4 bits => .v4 bits
  | .v6 bits => if bits.toNat / 2 ^ 32 = 0xffff then .v4 (bits.setWidth 32) else .v6 bits

/-! ## Writing -/

def displayV4 (bits : BitVec 32) : List Char :=
  ['.'].intercalate ((toDigits 256 4 bits.toNat).map (Nat.toDigits 10))

/-- The start and the length of the first longest run of zero groups. -/
def longestZeros (groups : List Nat) : Nat × Nat :=
  let runs := (List.range groups.length).map fun i => (i, ((groups.drop i).takeWhile (· = 0)).length)
  runs.foldl (fun best run => if best.2 < run.2 then run else best) (0, 0)

def displayGroups (groups : List Nat) : List Char := [':'].intercalate (groups.map (Nat.toDigits 16))

def displayV6 (bits : BitVec 128) : List Char :=
  let groups := toDigits (2 ^ 16) 8 bits.toNat
  if bits.toNat / 2 ^ 32 = 0xffff then "::ffff:".toList ++ displayV4 (bits.setWidth 32)
  else
    let (start, length) := longestZeros groups
    if 1 < length then
      displayGroups (groups.take start) ++ "::".toList ++ displayGroups (groups.drop (start + length))
    else displayGroups groups

/-- `ip.to_string()` -/
def display : IpAddr → List Char
  | .v4 bits => displayV4 bits
  | .v6 bits => displayV6 bits

example : (parseSocketAddr "[2001:db8::1]:443".toList).map display = some "2001:db8::1".toList := by
  decide

end IpAddr

end Seiran
