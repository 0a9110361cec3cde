import Mathlib.Algebra.Group.Int.Defs
import Mathlib.Algebra.Group.Nat.Defs
import Seiran.Framework.Sql.Expr

/-!
# Searching posts in the local database

`repository/post_search.rs` from the parsed query on: `optimize`, the WHERE text
that `append_sql` writes, and the statement of `search_local_post_ids`.

* `toLowercase` is Rust's `str::to_lowercase`, `Db.lower` PostgreSQL's `LOWER`.
* Times are integers, as the column holds them.
* `Db.postIsVisibleTo` is the function of that name; it can be NULL, for one
  when nobody is signed in.
-/

namespace Seiran.Search

open Sql (Value)

inductive SearchCondition
  | text (value : String)
  | «from» (value : String)
  | mentions (value : String)
  | domain (value : String)
  | since (value : Int)
  | «until» (value : Int)
  | not (inner : SearchCondition)
  | and (values : List SearchCondition)
  | or (values : List SearchCondition)
  | true
  | false

/-! The derived `PartialEq`. -/

mutual

def SearchCondition.beq : SearchCondition → SearchCondition → Bool
  | .text a, .text b | .from a, .from b | .mentions a, .mentions b | .domain a, .domain b => a == b
  | .since a, .since b | .until a, .until b => a == b
  | .not a, .not b => SearchCondition.beq a b
  | .and as, .and bs | .or as, .or bs => SearchCondition.beqAll as bs
  | .true, .true | .false, .false => Bool.true
  | _, _ => Bool.false

def SearchCondition.beqAll : List SearchCondition → List SearchCondition → Bool
  | [], [] => Bool.true
  | a :: as, b :: bs => SearchCondition.beq a b && SearchCondition.beqAll as bs
  | _, _ => Bool.false

end

instance : BEq SearchCondition := ⟨SearchCondition.beq⟩

/-! ## Optimising -/

section Optimize

open SearchCondition

/-- `if !result.contains(&item) { result.push(item) }` -/
def pushNew (result : List SearchCondition) (item : SearchCondition) : List SearchCondition :=
  if result.contains item then result else result ++ [item]

/-- The loop of `optimize_list`; `Except.error` is its early return. -/
def optimizeLoop (isAnd : Bool) :
    List SearchCondition → List SearchCondition → Except SearchCondition (List SearchCondition)
  | [], result => .ok result
  | value :: values, result =>
    match value, isAnd with
    | .false, .true => .error .false
    | .true, .false => .error .true
    | .true, .true | .false, .false => optimizeLoop isAnd values result
    | .and items, .true => optimizeLoop isAnd values (items.foldl pushNew result)
    | .or items, .false => optimizeLoop isAnd values (items.foldl pushNew result)
    | _, _ => optimizeLoop isAnd values (pushNew result value)

/-- `optimize_list`, given the optimised values. -/
def optimizeList (values : List SearchCondition) (isAnd : Bool) : SearchCondition :=
  match optimizeLoop isAnd values [] with
  | .error value => value
  | .ok [] => .true
  | .ok [value] => value
  | .ok result => if isAnd then .and result else .or result

mutual

def optimize : SearchCondition → SearchCondition
  | .not inner =>
    match optimize inner with
    | .true => .false
    | .false => .true
    | .not inner => inner
    | value => .not value
  | .and values => optimizeList (optimizeAll values) .true
  | .or values => optimizeList (optimizeAll values) .false
  | value => value

def optimizeAll : List SearchCondition → List SearchCondition
  | [] => []
  | value :: values => optimize value :: optimizeAll values

end

mutual

/-- No list in the condition is empty. -/
def WellFormed : SearchCondition → Bool
  | .not inner => WellFormed inner
  | .and values | .or values => !values.isEmpty && WellFormedAll values
  | _ => .true

def WellFormedAll : List SearchCondition → Bool
  | [] => .true
  | value :: values => WellFormed value && WellFormedAll values

end

end Optimize

/-! ## Writing the condition -/

/-- `sqlx::QueryBuilder`: the text, and the values bound so far. -/
structure QueryBuilder where
  sql : String
  binds : List Value

namespace QueryBuilder

def new (sql : String) : QueryBuilder := ⟨sql, []⟩

def push (b : QueryBuilder) (sql : String) : QueryBuilder := { b with sql := b.sql ++ sql }

def pushBind (b : QueryBuilder) (value : Value) : QueryBuilder :=
  ⟨b.sql ++ ("$" ++ toString (b.binds.length + 1)), b.binds ++ [value]⟩

end QueryBuilder

/-- `str::replace` of a character. -/
def replace (value : List Char) (c : Char) (text : List Char) : List Char :=
  value.flatMap fun d => if d = c then text else [d]

def escapeLike (value : String) : String :=
  String.ofList (replace (replace (replace value.toList '\\' ['\\', '\\']) '%' ['\\', '%'])
    '_' ['\\', '_'])

/-- `value.eq_ignore_ascii_case("me")` -/
def isMe (value : String) : Bool := value.toList.map Char.toLower == ['m', 'e']

/-- `value.split_once('@').unwrap_or((value, ""))` -/
def splitHandle (value : String) : String × String :=
  (String.ofList (value.toList.takeWhile (· != '@')),
    String.ofList ((value.toList.dropWhile (· != '@')).drop 1))

def i64Min : Int := -2 ^ 63

def appendActorHandleSql (b : QueryBuilder) (value alias' : String) : QueryBuilder :=
  let username := (splitHandle value).1
  let domain := (splitHandle value).2
  let b := (((b.push "LOWER(").push alias').push ".username) = ").pushBind (.text username)
  if domain.isEmpty then b
  else (((b.push " AND LOWER(").push alias').push ".domain) = ").pushBind (.text domain)

/-- The body against a pattern, as the conditions on text write it. -/
def pushBodyLike (b : QueryBuilder) (pattern : String) : QueryBuilder :=
  ((b.push "LOWER(p.body) LIKE ").pushBind (.text pattern)).push " ESCAPE '\\'"

/-- The name that `mentions:` looks for. -/
def mentioned (me : Option (Int × String)) (value : String) : String :=
  if isMe value then (me.map Prod.snd).getD "__unauthenticated_me__" else value

section

variable (toLowercase : String → String) (me : Option (Int × String))

mutual

def appendSql : SearchCondition → QueryBuilder → QueryBuilder
  | .text value, b => pushBodyLike b ("%" ++ escapeLike (toLowercase value) ++ "%")
  | .from value, b =>
    if isMe value then (b.push "a.id = ").pushBind (.int ((me.map Prod.fst).getD i64Min))
    else (appendActorHandleSql (b.push "(") value "a").push ")"
  | .mentions value, b => pushBodyLike b ("%@" ++ escapeLike (mentioned me value) ++ "%")
  | .domain value, b => pushBodyLike b ("%" ++ escapeLike value ++ "%")
  | .since value, b => (b.push "p.created_at >= ").pushBind (.time value)
  | .until value, b => (b.push "p.created_at < ").pushBind (.time value)
  | .not inner, b => (appendSql inner (b.push "NOT (")).push ")"
  | .and values, b => (appendValues " AND " 0 values (b.push "(")).push ")"
  | .or values, b => (appendValues " OR " 0 values (b.push "(")).push ")"
  | .true, b => b.push "TRUE"
  | .false, b => b.push "FALSE"

/-- `for (index, value) in values.iter().enumerate()` -/
def appendValues (separator : String) (index : Nat) :
    List SearchCondition → QueryBuilder → QueryBuilder
  | [], b => b
  | value :: values, b =>
    appendValues separator (index + 1) values
      (appendSql value (if index > 0 then b.push separator else b))

end

/-- The statement of `search_local_post_ids`. -/
def searchLocalPostIds (condition : SearchCondition) (fetchLimit : Int)
    (untilId sinceId : Option Int) : QueryBuilder :=
  let sql := appendSql toLowercase me condition
    (.new "SELECT p.id FROM posts p JOIN actors a ON a.id = p.actor_id WHERE ")
  let sql := sql.push " AND p.deleted_at IS NULL"
  let sql := ((sql.push " AND post_is_visible_to(").pushBind
    ((me.map fun m => Value.int m.1).getD .null)).push
      ", p.actor_id, p.visibility::text, p.id, false)"
  let sql := match untilId with
    | some uid => (sql.push " AND p.id < ").pushBind (.int uid)
    | none => sql
  let sql := match sinceId with
    | some sid => (sql.push " AND p.id > ").pushBind (.int sid)
    | none => sql
  (sql.push " ORDER BY p.id DESC LIMIT ").pushBind (.int fetchLimit)

end

/-! ## The rows -/

structure Post where
  id : Int
  actorId : Int
  body : String
  visibility : String
  createdAt : Int
  deletedAt : Option Int

structure Actor where
  id : Int
  username : String
  domain : String

/-- A row of `posts p JOIN actors a`. -/
structure Row where
  p : Post
  a : Actor

structure Db where
  lower : String → String
  postIsVisibleTo : (viewer : Option Int) → (actor : Int) → (visibility : String) →
    (post : Int) → (excludeDirect : Bool) → Option Bool

def Row.column (row : Row) (name : String) : Option Value :=
  [("p.id", Value.int row.p.id), ("p.actor_id", .int row.p.actorId), ("p.body", .text row.p.body),
    ("p.visibility", .text row.p.visibility), ("p.created_at", .time row.p.createdAt),
    ("p.deleted_at", (row.p.deletedAt.map Value.time).getD .null), ("a.id", .int row.a.id),
    ("a.username", .text row.a.username), ("a.domain", .text row.a.domain)].lookup name

def Db.visibleTo (db : Db) (viewer : Option Int) : List Value → Option Value
  | [.int actor, .text visibility, .int post, .bool excludeDirect] =>
    some (((db.postIsVisibleTo viewer actor visibility post excludeDirect).map Value.bool).getD
      .null)
  | _ => none

def Db.function (db : Db) (name : String) (args : List Value) : Option Value :=
  if name = "lower" then
    match args with
    | [.text s] => some (.text (db.lower s))
    | _ => none
  else if name = "post_is_visible_to" then
    match args with
    | .int viewer :: args => db.visibleTo (some viewer) args
    | .null :: args => db.visibleTo none args
    | _ => none
  else none

def Db.env (db : Db) (row : Row) (binds : List Value) : Sql.Env where
  column := row.column
  binds := binds
  function := db.function
  cast type v :=
    match type, v with
    | "text", .text s => some (.text s)
    | _, _ => none

/-! ## What a condition means -/

section

variable (toLowercase : String → String) (me : Option (Int × String)) (db : Db) (row : Row)

/-- The body has the letters in it, in any case. -/
def bodyContains (letters : List Char) : Bool :=
  decide (letters <:+: (db.lower row.p.body).toList)

mutual

def Matches : SearchCondition → Bool
  | .text value => bodyContains db row (toLowercase value).toList
  | .from value =>
    if isMe value then row.a.id == (me.map Prod.fst).getD i64Min
    else db.lower row.a.username == (splitHandle value).1 &&
      ((splitHandle value).2.isEmpty || db.lower row.a.domain == (splitHandle value).2)
  | .mentions value => bodyContains db row ('@' :: (mentioned me value).toList)
  | .domain value => bodyContains db row value.toList
  | .since value => decide (value ≤ row.p.createdAt)
  | .until value => decide (row.p.createdAt < value)
  | .not inner => !Matches inner
  | .and values => MatchesAll values
  | .or values => MatchesAny values
  | .true => true
  | .false => false

def MatchesAll : List SearchCondition → Bool
  | [] => true
  | value :: values => Matches value && MatchesAll values

def MatchesAny : List SearchCondition → Bool
  | [] => false
  | value :: values => Matches value || MatchesAny values

end

/-- The posts a search is over: not deleted, visible to who asks, and between the ids. -/
def Listed (untilId sinceId : Option Int) : Prop :=
  row.p.deletedAt = none ∧
  db.postIsVisibleTo (me.map Prod.fst) row.p.actorId row.p.visibility row.p.id false = some true ∧
  (∀ uid, untilId = some uid → row.p.id < uid) ∧ ∀ sid, sinceId = some sid → sid < row.p.id

end

end Seiran.Search
