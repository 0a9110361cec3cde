import Seiran.Model.Search.PostSearch

/-!
# Truth values of search conditions

`truth` is the truth value under any valuation of the atoms, `constant` the constant
a condition simplifies to, an `or` without branches being false. `misread` is what
`optimize` makes of an `or` all of whose branches simplify to false: the list that is
left is empty, and the arm `0 => SearchCondition::True` is for both connectives.
-/

namespace Seiran.Search

section

variable (v : SearchCondition → Bool)

mutual

/-- The truth value, `v` giving that of the atoms. -/
def truth : SearchCondition → Bool
  | .not inner => !truth inner
  | .and values => truthAll values
  | .or values => truthAny values
  | .true => true
  | .false => false
  | atom => v atom

def truthAll : List SearchCondition → Bool
  | [] => true
  | value :: values => truth value && truthAll values

def truthAny : List SearchCondition → Bool
  | [] => false
  | value :: values => truth value || truthAny values

end

end

/-- Conjunction of constants, `none` being what is no constant. -/
def constantAnd : Option Bool → Option Bool → Option Bool
  | some false, _ | _, some false => some false
  | some true, some true => some true
  | _, _ => none

def constantOr : Option Bool → Option Bool → Option Bool
  | some true, _ | _, some true => some true
  | some false, some false => some false
  | _, _ => none

mutual

def constant : SearchCondition → Option Bool
  | .not inner => (constant inner).map not
  | .and values => constantAll values
  | .or values => constantAny values
  | .true => some true
  | .false => some false
  | _ => none

def constantAll : List SearchCondition → Option Bool
  | [] => some true
  | value :: values => constantAnd (constant value) (constantAll values)

def constantAny : List SearchCondition → Option Bool
  | [] => some false
  | value :: values => constantOr (constant value) (constantAny values)

end

mutual

/-- There is an `or` all of whose branches simplify to false. -/
def hasFalseOr : SearchCondition → Bool
  | .not inner => hasFalseOr inner
  | .and values => hasFalseOrIn values
  | .or values => constantAny values == some false || hasFalseOrIn values
  | _ => false

def hasFalseOrIn : List SearchCondition → Bool
  | [] => false
  | value :: values => hasFalseOr value || hasFalseOrIn values

end

mutual

/-- The condition with each such `or` read as true, from the inside out. -/
def misread : SearchCondition → SearchCondition
  | .not inner => .not (misread inner)
  | .and values => .and (misreadAll values)
  | .or values =>
    if constantAny (misreadAll values) = some false then .true else .or (misreadAll values)
  | value => value

def misreadAll : List SearchCondition → List SearchCondition
  | [] => []
  | value :: values => misread value :: misreadAll values

end

end Seiran.Search
