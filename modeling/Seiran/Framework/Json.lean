import Mathlib.Algebra.Group.Int.Defs
import Mathlib.Algebra.Group.Nat.Defs
import Mathlib.Data.List.Basic
import Mathlib.Data.String.Basic
import Mathlib.Order.Basic

/-!
# JSON values and ordered maps

`serde_json::Value`, without arbitrary precision. An object is the list of its
entries in the order of their keys (a `BTreeMap`), a float its 64 bits.

* `SortedMap.ofEntries_eq_self`: inserting the entries of such a list in turn gives it back.
-/

namespace Seiran

/-- `serde_json::Number` -/
inductive Number where
  | posInt (n : Nat)
  | negInt (i : Int)
  | float (bits : UInt64)
deriving DecidableEq

inductive Json where
  | null
  | bool (b : Bool)
  | num (n : Number)
  | str (s : String)
  | arr (items : List Json)
  | obj (entries : List (String × Json))

/-- `to_value` of an `i128`; `none` (an error) outside `i64` and `u64`. -/
def Number.ofInt (i : Int) : Option Number :=
  if 0 ≤ i then if i < 2 ^ 64 then some (.posInt i.toNat) else none
  else if -2 ^ 63 ≤ i then some (.negInt i) else none

def Number.asI64 : Number → Option Int
  | .posInt n => if n < 2 ^ 63 then some n else none
  | .negInt i => some i
  | .float _ => none

def Number.asU64 : Number → Option Nat
  | .posInt n => some n
  | _ => none

/-- A `Number` of an `i64` -/
def Number.ofI64 (i : Int) : Number := if 0 ≤ i then .posInt i.toNat else .negInt i

/-- `&v[key]` -/
def Json.get (key : String) : Json → Json
  | .obj entries => (entries.lookup key).getD .null
  | _ => .null

/-- `v.get(key)` -/
def Json.lookup (key : String) : Json → Option Json
  | .obj entries => entries.lookup key
  | _ => none

/-- `as_array` -/
def Json.asArray : Json → Option (List Json)
  | .arr items => some items
  | _ => none

/-- `as_bool` -/
def Json.asBool : Json → Option Bool
  | .bool b => some b
  | _ => none

/-- `as_i64` -/
def Json.asI64 : Json → Option Int
  | .num n => n.asI64
  | _ => none

/-- `v.get(key)?.as_u64()` -/
def Json.getU64 (key : String) : Json → Option Nat
  | .obj entries =>
    match entries.lookup key with
    | some (.num n) => n.asU64
    | _ => none
  | _ => none

/-- `v.get(key)?.as_str()` -/
def Json.getStr (key : String) : Json → Option String
  | .obj entries =>
    match entries.lookup key with
    | some (.str s) => some s
    | _ => none
  | _ => none

/-! ## Ordered maps as lists -/

namespace SortedMap

universe u

variable {α : Type u}

/-- The keys increase. -/
def Sorted (entries : List (String × α)) : Prop := entries.Pairwise fun x y => x.1 < y.1

def insert (k : String) (v : α) : List (String × α) → List (String × α)
  | [] => [(k, v)]
  | x :: rest =>
    if k < x.1 then (k, v) :: x :: rest
    else if k = x.1 then (k, v) :: rest
    else x :: insert k v rest

/-- The map after the entries are inserted in turn. -/
def ofEntries (entries : List (String × α)) : List (String × α) :=
  entries.foldl (fun m x => insert x.1 x.2 m) []

theorem insert_eq_append {k : String} {v : α} {m : List (String × α)} (h : ∀ x ∈ m, x.1 < k) :
    insert k v m = m ++ [(k, v)] := by
  induction m with
  | nil => rfl
  | cons y rest ih =>
    have hy : y.1 < k := h y List.mem_cons_self
    rw [insert, if_neg (not_lt.mpr hy.le), if_neg hy.ne', ih fun x hx => h x (by simp [hx])]
    rfl

theorem foldl_insert_eq_append (entries m : List (String × α)) (h : Sorted (m ++ entries)) :
    entries.foldl (fun m x => insert x.1 x.2 m) m = m ++ entries := by
  induction entries generalizing m with
  | nil => simp
  | cons x rest ih =>
    have hx : ∀ y ∈ m, y.1 < x.1 := fun y hy =>
      (List.pairwise_append.mp h).2.2 y hy x List.mem_cons_self
    rw [List.foldl_cons, insert_eq_append hx, ih _ (by simpa using h)]
    simp

theorem ofEntries_eq_self {entries : List (String × α)} (h : Sorted entries) :
    ofEntries entries = entries :=
  foldl_insert_eq_append entries [] h

end SortedMap

end Seiran
