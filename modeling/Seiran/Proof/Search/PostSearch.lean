import Seiran.Model.Search.PostSearch

/-!
# The search statement means the search condition

* `optimize_wellFormed`: a condition that has been optimised has no empty list.
* `denotes_appendSql`: the text of a condition without empty lists is an operand,
  whatever is around it, and its value on a row is `Matches`.
* `Conditions`: the WHERE text written so far, with what it asks of a row. Every
  further condition is one more operand of the outer `AND`.

`selected_iff` puts these together for the statement of `searchLocalPostIds`.
-/

namespace Seiran.Search

open Sql

/-! ## Optimised conditions -/

theorem wellFormedAll_iff {values : List SearchCondition} :
    WellFormedAll values = true ↔ ∀ value ∈ values, WellFormed value = true := by
  induction values with
  | nil => simp [WellFormedAll]
  | cons value values ih => simp [WellFormedAll, ih]

theorem wellFormedAll_pushNew {result : List SearchCondition} {item : SearchCondition}
    (h : WellFormedAll result) (hi : WellFormed item) : WellFormedAll (pushNew result item) := by
  rw [pushNew]
  split
  · exact h
  · rw [wellFormedAll_iff] at h ⊢
    intro value hv
    rcases List.mem_append.mp hv with hv | hv
    · exact h value hv
    · rwa [List.mem_singleton.mp hv]

theorem wellFormedAll_foldl {items result : List SearchCondition} (h : WellFormedAll result)
    (hi : WellFormedAll items) : WellFormedAll (items.foldl pushNew result) := by
  induction items generalizing result with
  | nil => exact h
  | cons item items ih =>
    rw [WellFormedAll, Bool.and_eq_true] at hi
    exact ih (wellFormedAll_pushNew h hi.1) hi.2

def OutcomeWellFormed : Except SearchCondition (List SearchCondition) → Bool
  | .error value => WellFormed value
  | .ok result => WellFormedAll result

theorem optimizeLoop_wellFormed (isAnd : Bool) {values result : List SearchCondition}
    (hv : WellFormedAll values) (hr : WellFormedAll result) :
    OutcomeWellFormed (optimizeLoop isAnd values result) := by
  induction values generalizing result with
  | nil => exact hr
  | cons value values ih =>
    rw [WellFormedAll, Bool.and_eq_true] at hv
    obtain ⟨hvalue, hvalues⟩ := hv
    unfold optimizeLoop
    split
    · rfl
    · rfl
    · exact ih hvalues hr
    · exact ih hvalues hr
    · simp only [WellFormed, Bool.and_eq_true] at hvalue
      exact ih hvalues (wellFormedAll_foldl hr hvalue.2)
    · simp only [WellFormed, Bool.and_eq_true] at hvalue
      exact ih hvalues (wellFormedAll_foldl hr hvalue.2)
    · exact ih hvalues (wellFormedAll_pushNew hr hvalue)

theorem optimizeList_wellFormed {values : List SearchCondition} (isAnd : Bool)
    (h : WellFormedAll values) : WellFormed (optimizeList values isAnd) := by
  have hloop := optimizeLoop_wellFormed isAnd h (show WellFormedAll [] = true from rfl)
  rw [optimizeList]
  split
  · rename_i value heq
    rw [heq] at hloop
    exact hloop
  · rfl
  · rename_i value heq
    rw [heq] at hloop
    exact wellFormedAll_iff.mp hloop value (by simp)
  · rename_i result hnil hone heq
    rw [heq] at hloop
    have hne : result.isEmpty = false := by
      cases result with
      | nil => exact absurd rfl hnil
      | cons value values => rfl
    have hall : WellFormedAll result = true := hloop
    split <;> simp [WellFormed, hne, hall]

mutual

theorem optimize_wellFormed : ∀ c, WellFormed (optimize c)
  | .not inner => by
    have hin := optimize_wellFormed inner
    rw [optimize]
    split
    · rfl
    · rfl
    · rename_i heq
      rw [heq] at hin
      exact hin
    · exact hin
  | .and values => by
    rw [optimize]
    exact optimizeList_wellFormed true (optimizeAll_wellFormed values)
  | .or values => by
    rw [optimize]
    exact optimizeList_wellFormed false (optimizeAll_wellFormed values)
  | .text _ | .from _ | .mentions _ | .domain _ | .since _ | .until _ | .true | .false => rfl

theorem optimizeAll_wellFormed : ∀ values, WellFormedAll (optimizeAll values)
  | [] => rfl
  | value :: values => by
    rw [optimizeAll, WellFormedAll, Bool.and_eq_true]
    exact ⟨optimize_wellFormed value, optimizeAll_wellFormed values⟩

end

/-! ## Patterns -/

theorem escapeLike_toList (value : String) :
    (escapeLike value).toList = value.toList.flatMap (escapeChar '\\') := by
  rw [escapeLike, String.toList_ofList, replace, replace, replace, List.flatMap_assoc,
    List.flatMap_assoc]
  congr 1
  funext c
  by_cases h : c = '\\' ∨ c = '%' ∨ c = '_'
  · rw [escapeChar, if_pos h]
    obtain rfl | rfl | rfl := h <;> rfl
  · rw [escapeChar, if_neg h]
    simp only [not_or] at h
    simp [h]

/-- `LIKE` against an escaped text between two `%` looks for that text. -/
theorem like_escapeLike {pattern : String} (letters body : List Char)
    (h : pattern.toList = '%' :: (letters.flatMap (escapeChar '\\') ++ ['%'])) :
    like '\\' pattern.toList body = some (decide (letters <:+: body)) := by
  rw [h]
  exact like_contains (by decide) letters body

theorem pattern_toList (value : String) :
    ("%" ++ escapeLike value ++ "%").toList =
      '%' :: (value.toList.flatMap (escapeChar '\\') ++ ['%']) := by
  simp [escapeLike_toList]

theorem mention_toList (value : String) :
    ("%@" ++ escapeLike value ++ "%").toList =
      '%' :: (('@' :: value.toList).flatMap (escapeChar '\\') ++ ['%']) := by
  have hat : escapeChar '\\' '@' = ['@'] := by decide
  simp [escapeLike_toList, hat]

/-! ## The text of a condition -/

section

variable (toLowercase : String → String) (me : Option (Int × String)) (db : Db)

/-- From `b` to `b'` a text is written that is an operand, with the value `meaning` on
every row, whatever is bound after it. -/
def Denotes (b b' : QueryBuilder) (meaning : Row → Bool) : Prop :=
  ∃ text vals tokens e, b'.sql = b.sql ++ text ∧ b'.binds = b.binds ++ vals ∧
    Lexes text tokens ∧ Reads tokens e ∧
    ∀ row more, eval (db.env row (b'.binds ++ more)) e = some (.bool (meaning row))

/-- The same of the operands after the first one. -/
def DenotesRest (k : Connective) (b b' : QueryBuilder) (meanings : Row → List Bool) : Prop :=
  ∃ text vals tokens es, b'.sql = b.sql ++ text ∧ b'.binds = b.binds ++ vals ∧
    Follows text tokens ∧ k.Operands tokens es ∧
    ∀ row more, List.Forall₂ (fun e m => eval (db.env row (b'.binds ++ more)) e = some (.bool m))
      es (meanings row)

variable {toLowercase me db}

theorem eval_param (db : Db) (row : Row) (b : QueryBuilder) (value : Value) (sql : String)
    (more : List Value) :
    eval (db.env row (((b.push sql).pushBind value).binds ++ more)) (.param (b.binds.length + 1)) =
      some value := by
  simp [eval, Db.env, QueryBuilder.push, QueryBuilder.pushBind]

/-- A text and a bound value after it. -/
theorem lexes_bind {sql : String} {tokens : List Token} (h : Closed sql tokens) (n : Nat) :
    Lexes (sql ++ ("$" ++ toString n)) (tokens ++ [.param n]) := h.append (lexes_param n)

/-- A comparison with a bound value. -/
theorem denotes_compare {b : QueryBuilder} {sql : String} {tokens : List Token} {e : Expr}
    {c : Comparison} {value : Value} {meaning : Row → Bool} (hatom : Atom tokens e)
    (hlex : Closed sql (tokens ++ [.compare c]))
    (heval : ∀ row binds, ∃ v, eval (db.env row binds) e = some v ∧
      v.compare c value = some (.bool (meaning row))) :
    Denotes db b ((b.push sql).pushBind value) meaning := by
  refine ⟨_, [value], _, .compare c e (.param (b.binds.length + 1)), String.append_assoc .., rfl,
    lexes_bind hlex (b.binds.length + 1), ?_, ?_⟩
  · rw [List.append_assoc]
    exact hatom.reads_compare c _
  · intro row more
    obtain ⟨v, hv, hc⟩ := heval row (((b.push sql).pushBind value).binds ++ more)
    rw [eval, hv, eval_param]
    exact hc

theorem push_push (b : QueryBuilder) (s t : String) : (b.push s).push t = b.push (s ++ t) := by
  rw [QueryBuilder.push, QueryBuilder.push, QueryBuilder.push, String.append_assoc]

theorem eval_lower_body (row : Row) (binds : List Value) :
    eval (db.env row binds) (.call "lower" [.column "p.body"]) =
      some (.text (db.lower row.p.body)) := by
  rfl

theorem denotes_bodyLike (b : QueryBuilder) {pattern : String} {letters : List Char}
    (h : pattern.toList = '%' :: (letters.flatMap (escapeChar '\\') ++ ['%'])) :
    Denotes db b (pushBodyLike b pattern) (bodyContains db · letters) := by
  have hlike : Closed "LOWER(p.body) LIKE "
      [.ident "lower", .lparen, .ident "p.body", .rparen, .keyword .like] := by decide
  have hescape : Lexes " ESCAPE '\\'" [.keyword .escape, .str "\\"] := by decide
  refine ⟨_, [.text pattern], _,
    .like (.call "lower" [.column "p.body"]) (.param (b.binds.length + 1)) (.str "\\"), ?_, rfl,
    (lexes_bind hlike (b.binds.length + 1)).append hescape rfl rfl,
    (atom_call_column "lower" "p.body").reads_like (b.binds.length + 1) "\\", ?_⟩
  · rw [String.append_assoc, ← String.append_assoc, ← String.append_assoc]
    rfl
  · intro row more
    have hparam := eval_param db row b (.text pattern) "LOWER(p.body) LIKE " more
    have heval : Value.like (.text (db.lower row.p.body)) (.text pattern) (.text "\\") =
        (like '\\' pattern.toList (db.lower row.p.body).toList).map .bool := rfl
    rw [like_escapeLike letters _ h] at heval
    rw [eval, eval_lower_body, pushBodyLike]
    rw [QueryBuilder.push, hparam]
    exact heval

/-- An operand in brackets, with the operands after it. -/
theorem DenotesRest.group {k : Connective} {b b₁ b₂ : QueryBuilder} {meaning : Row → Bool}
    {meanings : Row → List Bool} (h : Denotes db (b.push "(") b₁ meaning)
    (hrest : DenotesRest db k b₁ b₂ meanings) :
    Denotes db b (b₂.push ")") fun row => (meanings row).foldl k.op (meaning row) := by
  obtain ⟨text, vals, tokens, e, hsql, hbinds, hlex, hreads, heval⟩ := h
  obtain ⟨text', vals', tokens', es, hsql', hbinds', hlex', hreads', heval'⟩ := hrest
  have hopen : Closed "(" [.lparen] := by decide
  refine ⟨"(" ++ (text ++ (text' ++ ")")), vals ++ vals', _, es.foldl k.expr e, ?_, ?_,
    hopen.append ((hlex'.append follows_rparen) _ _ hlex), hreads.group hreads', ?_⟩
  · simp only [QueryBuilder.push] at hsql ⊢
    rw [hsql', hsql]
    simp only [String.append_assoc]
  · simp only [QueryBuilder.push] at hbinds ⊢
    rw [hbinds', hbinds, List.append_assoc]
  · intro row more
    refine k.eval_foldl (heval' row more) ?_
    rw [hbinds', List.append_assoc]
    exact heval row (vals' ++ more)

theorem DenotesRest.nil (k : Connective) (b : QueryBuilder) :
    DenotesRest db k b b fun _ => [] :=
  ⟨"", [], [], [], (String.append_empty).symm, (List.append_nil _).symm, follows_nil, .nil,
    fun _ _ => .nil⟩

theorem DenotesRest.cons {k : Connective} {b b₁ b₂ : QueryBuilder} {separator : String}
    {cs : List Char} {meaning : Row → Bool} {meanings : Row → List Bool}
    (hsep : Closed separator [.keyword k.keyword]) (hcs : separator.toList = ' ' :: cs)
    (h : Denotes db (b.push separator) b₁ meaning) (hrest : DenotesRest db k b₁ b₂ meanings) :
    DenotesRest db k b b₂ fun row => meaning row :: meanings row := by
  obtain ⟨text, vals, tokens, e, hsql, hbinds, hlex, hreads, heval⟩ := h
  obtain ⟨text', vals', tokens', es, hsql', hbinds', hlex', hreads', heval'⟩ := hrest
  have hfirst : Follows (separator ++ text) (.keyword k.keyword :: tokens) := by
    have htext : (separator ++ text).toList = ' ' :: (cs ++ text.toList) := by
      rw [String.toList_append, hcs, List.cons_append]
    exact (hsep.append hlex).follows htext rfl
  refine ⟨separator ++ text ++ text', vals ++ vals', _, e :: es, ?_, ?_, hfirst.append hlex',
    .cons hreads hreads', ?_⟩
  · simp only [QueryBuilder.push] at hsql
    rw [hsql', hsql]
    simp only [String.append_assoc]
  · simp only [QueryBuilder.push] at hbinds
    rw [hbinds', hbinds, List.append_assoc]
  · intro row more
    refine .cons ?_ (heval' row more)
    rw [hbinds', List.append_assoc]
    exact heval row (vals' ++ more)

theorem foldl_and (b : Bool) (bs : List Bool) : bs.foldl (Connective.op .and) b = (b && bs.all id) := by
  induction bs generalizing b with
  | nil => simp
  | cons c bs ih =>
    rw [List.foldl_cons, ih]
    exact Bool.and_assoc b c _

theorem foldl_or (b : Bool) (bs : List Bool) : bs.foldl (Connective.op .or) b = (b || bs.any id) := by
  induction bs generalizing b with
  | nil => simp
  | cons c bs ih =>
    rw [List.foldl_cons, ih]
    exact Bool.or_assoc b c _

theorem matchesAll_eq (values : List SearchCondition) (row : Row) :
    MatchesAll toLowercase me db row values =
      (values.map (Matches toLowercase me db row)).all id := by
  induction values with
  | nil => rfl
  | cons value values ih => rw [MatchesAll, ih, List.map_cons, List.all_cons, id]

theorem matchesAny_eq (values : List SearchCondition) (row : Row) :
    MatchesAny toLowercase me db row values =
      (values.map (Matches toLowercase me db row)).any id := by
  induction values with
  | nil => rfl
  | cons value values ih => rw [MatchesAny, ih, List.map_cons, List.any_cons, id]

theorem denotes_bool (b : QueryBuilder) {sql : String} (v : Bool)
    (h : Lexes sql [.keyword (if v then .true else .false)]) :
    Denotes db b (b.push sql) fun _ => v :=
  ⟨sql, [], _, .bool v, rfl, (List.append_nil _).symm, h, (atom_bool v).reads, fun _ _ => rfl⟩

theorem denotes_not {b b' : QueryBuilder} {meaning : Row → Bool}
    (h : Denotes db (b.push "NOT (") b' meaning) :
    Denotes db b (b'.push ")") fun row => !meaning row := by
  obtain ⟨text, vals, tokens, e, hsql, hbinds, hlex, hreads, heval⟩ := h
  have hopen : Closed "NOT (" [.keyword .not, .lparen] := by decide
  refine ⟨"NOT (" ++ (text ++ ")"), vals, _, .not e, ?_, hbinds,
    hopen.append (follows_rparen _ _ hlex), hreads.paren.not, ?_⟩
  · simp only [QueryBuilder.push] at hsql ⊢
    rw [hsql]
    simp only [String.append_assoc]
  · intro row more
    rw [eval, QueryBuilder.push, heval row more]
    rfl

theorem denotes_actorHandle (b : QueryBuilder) (value : String) :
    Denotes db b ((appendActorHandleSql (b.push "(") value "a").push ")") fun row =>
      db.lower row.a.username == (splitHandle value).1 &&
        ((splitHandle value).2.isEmpty || db.lower row.a.domain == (splitHandle value).2) := by
  have hname : Denotes db (b.push "(") (((b.push "(").push "LOWER(a.username) = ").pushBind
      (.text (splitHandle value).1)) fun row => db.lower row.a.username == (splitHandle value).1 := by
    refine denotes_compare (c := .eq) (atom_call_column "lower" "a.username") (by decide) ?_
    intro row binds
    exact ⟨_, rfl, rfl⟩
  rw [appendActorHandleSql, push_push, push_push]
  by_cases hdomain : (splitHandle value).2.isEmpty
  · rw [if_pos hdomain]
    have h := (DenotesRest.nil .and _).group hname
    simpa [hdomain] using h
  · rw [if_neg hdomain, push_push, push_push]
    have hrest (b₁ : QueryBuilder) : Denotes db (b₁.push " AND ")
        (((b₁.push " AND ").push "LOWER(a.domain) = ").pushBind (.text (splitHandle value).2))
        fun row => db.lower row.a.domain == (splitHandle value).2 := by
      refine denotes_compare (c := .eq) (atom_call_column "lower" "a.domain") (by decide) ?_
      intro row binds
      exact ⟨_, rfl, rfl⟩
    have h := (DenotesRest.cons (k := .and) (by decide) rfl (hrest _) (.nil .and _)).group hname
    rw [push_push] at h
    simpa [hdomain, Connective.op] using h

mutual

theorem denotes_appendSql : ∀ (c : SearchCondition) (b : QueryBuilder), WellFormed c →
    Denotes db b (appendSql toLowercase me c b) (Matches toLowercase me db · c)
  | .text value, b, _ => denotes_bodyLike b (pattern_toList _)
  | .from value, b, _ => by
    by_cases h : isMe value
    · simp only [appendSql, Matches, if_pos h]
      refine denotes_compare (c := .eq) (atom_column "a.id") (by decide) ?_
      intro row binds
      exact ⟨_, rfl, rfl⟩
    · simp only [appendSql, Matches, if_neg h]
      exact denotes_actorHandle b value
  | .mentions value, b, _ => denotes_bodyLike b (mention_toList _)
  | .domain value, b, _ => denotes_bodyLike b (pattern_toList _)
  | .since value, b, _ => by
    refine denotes_compare (c := .ge) (atom_column "p.created_at") (by decide) ?_
    intro row binds
    exact ⟨_, rfl, rfl⟩
  | .until value, b, _ => by
    refine denotes_compare (c := .lt) (atom_column "p.created_at") (by decide) ?_
    intro row binds
    exact ⟨_, rfl, rfl⟩
  | .not inner, b, h => denotes_not (denotes_appendSql inner _ h)
  | .and (value :: values), b, h => by
    simp only [WellFormed, WellFormedAll, Bool.and_eq_true] at h
    have hvalue := denotes_appendSql value (b.push "(") h.2.1
    have hrest := denotes_appendValues .and " AND " (by decide) rfl values 0
      (appendSql toLowercase me value (b.push "(")) h.2.2
    have hgroup := hrest.group hvalue
    simp only [foldl_and, ← matchesAll_eq] at hgroup
    exact hgroup
  | .or (value :: values), b, h => by
    simp only [WellFormed, WellFormedAll, Bool.and_eq_true] at h
    have hvalue := denotes_appendSql value (b.push "(") h.2.1
    have hrest := denotes_appendValues .or " OR " (by decide) rfl values 0
      (appendSql toLowercase me value (b.push "(")) h.2.2
    have hgroup := hrest.group hvalue
    simp only [foldl_or, ← matchesAny_eq] at hgroup
    exact hgroup
  | .true, b, _ => denotes_bool b true (by decide)
  | .false, b, _ => denotes_bool b false (by decide)

theorem denotes_appendValues (k : Connective) (separator : String)
    (hsep : Closed separator [.keyword k.keyword]) {cs : List Char}
    (hcs : separator.toList = ' ' :: cs) :
    ∀ (values : List SearchCondition) (index : Nat) (b : QueryBuilder), WellFormedAll values →
      DenotesRest db k b (appendValues toLowercase me separator (index + 1) values b)
        fun row => values.map (Matches toLowercase me db row)
  | [], _, b, _ => .nil k b
  | value :: values, index, b, h => by
    rw [WellFormedAll, Bool.and_eq_true] at h
    rw [appendValues, if_pos (Nat.succ_pos index)]
    exact .cons hsep hcs (denotes_appendSql value _ h.1)
      (denotes_appendValues k separator hsep hcs values (index + 1) _ h.2)

end

/-! ## The statement -/

variable (toLowercase me db)

/-- The text up to the conditions. -/
def selectFrom : String := "SELECT p.id FROM posts p JOIN actors a ON a.id = p.actor_id WHERE "

/-- `b` is the statement up to conditions that hold of the rows with `P`. -/
def Conditions (b : QueryBuilder) (P : Row → Prop) : Prop :=
  ∃ text tokens e tokens' es, b.sql = selectFrom ++ text ∧ Lexes text (tokens ++ tokens') ∧
    Reads tokens e ∧ Connective.and.Operands tokens' es ∧
    ∀ row more, Selects (db.env row (b.binds ++ more)) (es.foldl .and e) (P row)

variable {toLowercase me db}

theorem Denotes.conditions {b : QueryBuilder} {meaning : Row → Bool}
    (h : Denotes db (.new selectFrom) b meaning) : Conditions db b fun row => meaning row = true := by
  obtain ⟨text, vals, tokens, e, hsql, hbinds, hlex, hreads, heval⟩ := h
  refine ⟨text, tokens, e, [], [], hsql, ?_, hreads, .nil, fun row more =>
    selects_bool (heval row more)⟩
  rwa [List.append_nil]

/-- One more condition. -/
theorem Conditions.and {b b' : QueryBuilder} {P Q : Row → Prop} {text : String}
    {vals : List Value} {tokens : List Token} {e : Expr} (h : Conditions db b P)
    (hsql : b'.sql = b.sql ++ text) (hbinds : b'.binds = b.binds ++ vals)
    (hlex : Lexes text (.keyword .and :: tokens)) (hcs : ∃ cs, text.toList = ' ' :: cs)
    (hreads : Reads tokens e)
    (heval : ∀ row more, Selects (db.env row (b'.binds ++ more)) e (Q row)) :
    Conditions db b' fun row => P row ∧ Q row := by
  obtain ⟨text₀, tokens₀, e₀, tokens₁, es, hsql₀, hlex₀, hreads₀, hreads₁, heval₀⟩ := h
  obtain ⟨cs, hcs⟩ := hcs
  refine ⟨text₀ ++ text, tokens₀, e₀, _, es ++ [e], ?_, ?_, hreads₀, hreads₁.snoc hreads, ?_⟩
  · rw [hsql, hsql₀, String.append_assoc]
  · rw [← List.append_assoc]
    exact (hlex.follows hcs rfl) _ _ hlex₀
  · intro row more
    rw [List.foldl_append, List.foldl_cons, List.foldl_nil]
    refine Selects.and ?_ (heval row more)
    rw [hbinds, List.append_assoc]
    exact heval₀ row (vals ++ more)

theorem Conditions.deleted {b : QueryBuilder} {P : Row → Prop} (h : Conditions db b P) :
    Conditions db (b.push " AND p.deleted_at IS NULL") fun row => P row ∧ row.p.deletedAt = none := by
  refine h.and rfl (List.append_nil b.binds).symm (by decide) ⟨_, rfl⟩
    (atom_column "p.deleted_at").reads_isNull ?_
  intro row more
  have heval : eval (db.env row (b.binds ++ more)) (.isNull (.column "p.deleted_at")) =
      some (.bool (((row.p.deletedAt.map Value.time).getD .null) == .null)) := rfl
  refine (selects_bool heval).congr ?_
  cases row.p.deletedAt with
  | none => simp
  | some t => simp

theorem Conditions.id {b : QueryBuilder} {P : Row → Prop} (h : Conditions db b P) {sql : String}
    {cs : List Char} {c : Comparison}
    (hlex : Closed sql ([.keyword .and, .ident "p.id"] ++ [.compare c]))
    (hcs : sql.toList = ' ' :: cs) (id : Int) :
    Conditions db ((b.push sql).pushBind (.int id)) fun row =>
      P row ∧ c.holds row.p.id id = true := by
  have htext : (sql ++ ("$" ++ toString (b.binds.length + 1))).toList =
      ' ' :: (cs ++ ("$" ++ toString (b.binds.length + 1)).toList) := by
    rw [String.toList_append, hcs, List.cons_append]
  refine h.and (String.append_assoc ..) rfl (lexes_bind hlex (b.binds.length + 1)) ⟨_, htext⟩
    ((atom_column "p.id").reads_compare c (b.binds.length + 1)) ?_
  intro row more
  have hparam := eval_param db row b (.int id) sql more
  refine selects_bool ?_
  rw [eval, hparam]
  cases c <;> rfl

theorem eval_visible {row : Row} {binds : List Value} {n : Nat} {viewer : Value}
    (h : eval (db.env row binds) (.param n) = some viewer) :
    eval (db.env row binds) (.call "post_is_visible_to" [.param n, .column "p.actor_id",
        .cast (.column "p.visibility") "text", .column "p.id", .bool false]) =
      db.function "post_is_visible_to"
        [viewer, .int row.p.actorId, .text row.p.visibility, .int row.p.id, .bool false] := by
  rw [eval, evalArgs, h]
  rfl

theorem function_visible (row : Row) :
    db.function "post_is_visible_to" [(me.map fun m => Value.int m.1).getD .null,
        .int row.p.actorId, .text row.p.visibility, .int row.p.id, .bool false] =
      some (((db.postIsVisibleTo (me.map Prod.fst) row.p.actorId row.p.visibility row.p.id
        false).map Value.bool).getD .null) := by
  cases me <;> rfl

/-- `post_is_visible_to` is called with the viewer and the columns of the post. -/
theorem Conditions.visible (me : Option (Int × String)) {b : QueryBuilder} {P : Row → Prop}
    (h : Conditions db b P) :
    Conditions db
      (((b.push " AND post_is_visible_to(").pushBind
        ((me.map fun m => Value.int m.1).getD .null)).push
          ", p.actor_id, p.visibility::text, p.id, false)")
      fun row => P row ∧ db.postIsVisibleTo (me.map Prod.fst) row.p.actorId row.p.visibility
        row.p.id false = some true := by
  have hopen : Closed " AND post_is_visible_to("
      [.keyword .and, .ident "post_is_visible_to", .lparen] := by decide
  have hargs : Closed ", p.actor_id, p.visibility::text, p.id, false)"
      [.comma, .ident "p.actor_id", .comma, .ident "p.visibility", .cast, .ident "text", .comma,
        .ident "p.id", .comma, .keyword .false, .rparen] := by decide
  have hreads := (atom_call "post_is_visible_to"
    (.cons (atom_param (b.binds.length + 1)).reads
      (.cons (atom_column "p.actor_id").reads
        (.cons ((atom_column "p.visibility").reads_cast "text")
          (.cons (atom_column "p.id").reads (.one (atom_bool false).reads)))))).reads
  have hlex := hopen.append ((lexes_param (b.binds.length + 1)).append hargs.lexes rfl rfl)
  refine h.and ?_ rfl hlex ⟨_, String.toList_append⟩ hreads ?_
  · simp only [QueryBuilder.push, QueryBuilder.pushBind, String.append_assoc]
  · intro row more
    have hparam := eval_param db row b ((me.map fun m => Value.int m.1).getD .null)
      " AND post_is_visible_to(" more
    have heval := (eval_visible hparam).trans (function_visible row)
    refine ⟨_, heval, ?_, ?_⟩
    · cases db.postIsVisibleTo (me.map Prod.fst) row.p.actorId row.p.visibility row.p.id false with
      | none => exact .inl rfl
      | some v => exact .inr ⟨v, rfl⟩
    · cases db.postIsVisibleTo (me.map Prod.fst) row.p.actorId row.p.visibility row.p.id false <;>
        simp

theorem closed_selectFrom : Closed selectFrom
    [.keyword .select, .ident "p.id", .keyword .from, .ident "posts", .ident "p", .keyword .join,
      .ident "actors", .ident "a", .keyword .on, .ident "a.id", .compare .eq, .ident "p.actor_id",
      .keyword .where] := by decide

theorem closed_orderBy : Closed " ORDER BY p.id DESC LIMIT "
    [.keyword .order, .keyword .by, .ident "p.id", .keyword .desc, .keyword .limit] := by decide

theorem parse_on (rest : List Token) :
    parseExpr 0 (.ident "a.id" :: .compare .eq :: .ident "p.actor_id" :: .keyword .where :: rest) =
      some (.compare .eq (.column "a.id") (.column "p.actor_id"), .keyword .where :: rest) := by
  have hright := (atom_column "p.actor_id").parse
    (show Stops 6 (.keyword .where :: rest) from stops_of_head 6 rfl)
  have hleft := atom_column "a.id" 0
    (.compare .eq :: .ident "p.actor_id" :: .keyword .where :: rest) (by simp)
  rw [List.singleton_append] at hright hleft
  have hend : Stops 0 (.keyword .where :: rest) := stops_of_head 0 rfl
  rw [parseExpr_eq, hleft]
  simp [parseInfix_compare, hright, hend.infix_eq 0 le_rfl]

/-- What a search statement asks the database for. -/
structure Searches (db : Db) (q : QueryBuilder) (P : Row → Prop) (fetchLimit : Int)
    (s : Select) : Prop where
  parse : parseSelect q.sql = some s
  column : s.column = "p.id"
  source : s.source = ⟨"posts", "p"⟩
  joined : s.joined = ⟨"actors", "a"⟩
  on_eq : ∀ row, eval (db.env row q.binds) s.on = some (.bool (row.a.id == row.p.actorId))
  condition : ∀ row, Selects (db.env row q.binds) s.condition (P row)
  orderBy : s.orderBy = "p.id"
  limit : ∀ row, eval (db.env row q.binds) s.limit = some (.int fetchLimit)

theorem Conditions.searches {b : QueryBuilder} {P : Row → Prop} (h : Conditions db b P)
    (fetchLimit : Int) :
    ∃ s, Searches db ((b.push " ORDER BY p.id DESC LIMIT ").pushBind (.int fetchLimit)) P
      fetchLimit s := by
  obtain ⟨text, tokens, e, tokens', es, hsql, hlex, hreads, hreads', heval⟩ := h
  have horder := (lexes_bind closed_orderBy (b.binds.length + 1)).follows
    (c := ' ') String.toList_append rfl
  have hall := (closed_selectFrom.append (horder _ _ hlex)).1
  have htext : ((b.push " ORDER BY p.id DESC LIMIT ").pushBind (.int fetchLimit)).sql =
      selectFrom ++ (text ++ (" ORDER BY p.id DESC LIMIT " ++
        ("$" ++ toString (b.binds.length + 1)))) := by
    simp only [QueryBuilder.push, QueryBuilder.pushBind, hsql, String.append_assoc]
  rw [← htext] at hall
  have hcondition (rest : List Token) :
      parseExpr 0 (tokens ++ (tokens' ++ .keyword .order :: rest)) =
        some (es.foldl .and e, .keyword .order :: rest) := by
    have hend : Stops 3 (.keyword .order :: rest) := stops_of_head 3 rfl
    rw [hreads 0 (by omega) _ (hreads'.stops hend), hreads'.parseInfix hend]
    exact (stops_of_head 0 rfl).infix_eq 0 le_rfl _
  have hlimit : parseExpr 0 [.param (b.binds.length + 1)] =
      some (.param (b.binds.length + 1), []) :=
    (atom_param (b.binds.length + 1)).parse (show Stops 0 [] from stops_of_head 0 rfl)
  refine ⟨⟨"p.id", ⟨"posts", "p"⟩, ⟨"actors", "a"⟩,
    .compare .eq (.column "a.id") (.column "p.actor_id"), es.foldl .and e, "p.id",
    .param (b.binds.length + 1)⟩, ?_, rfl, rfl, rfl, fun _ => rfl, ?_, rfl, ?_⟩
  · simp only [parseSelect, hall, List.cons_append, List.nil_append, List.append_assoc]
    rw [parse_on]
    simp only [Option.bind_eq_bind, Option.bind_some, hcondition, hlimit]
  · intro row
    have hrow := heval row [.int fetchLimit]
    exact hrow
  · intro row
    have hparam := eval_param db row b (.int fetchLimit) " ORDER BY p.id DESC LIMIT " []
    rw [List.append_nil] at hparam
    exact hparam

theorem Conditions.congr {b : QueryBuilder} {P Q : Row → Prop} (h : Conditions db b P)
    (hPQ : ∀ row, P row ↔ Q row) : Conditions db b Q := by
  have heq : P = Q := funext fun row => propext (hPQ row)
  rwa [← heq]

theorem Conditions.until {b : QueryBuilder} {P : Row → Prop} (h : Conditions db b P)
    (untilId : Option Int) :
    Conditions db
      (match untilId with
        | some uid => (b.push " AND p.id < ").pushBind (.int uid)
        | none => b)
      fun row => P row ∧ ∀ uid, untilId = some uid → row.p.id < uid := by
  cases untilId with
  | none => exact h.congr fun row => by simp
  | some uid =>
    have hlex : Closed " AND p.id < " ([.keyword .and, .ident "p.id"] ++ [.compare .lt]) := by
      decide
    exact (h.id hlex rfl uid).congr fun row => by simp [Comparison.holds]

theorem Conditions.since {b : QueryBuilder} {P : Row → Prop} (h : Conditions db b P)
    (sinceId : Option Int) :
    Conditions db
      (match sinceId with
        | some sid => (b.push " AND p.id > ").pushBind (.int sid)
        | none => b)
      fun row => P row ∧ ∀ sid, sinceId = some sid → sid < row.p.id := by
  cases sinceId with
  | none => exact h.congr fun row => by simp
  | some sid =>
    have hlex : Closed " AND p.id > " ([.keyword .and, .ident "p.id"] ++ [.compare .gt]) := by
      decide
    exact (h.id hlex rfl sid).congr fun row => by simp [Comparison.holds]

variable (toLowercase me db)

theorem searchLocalPostIds_searches {c : SearchCondition} (h : WellFormed c) (fetchLimit : Int)
    (untilId sinceId : Option Int) :
    ∃ s, Searches db (searchLocalPostIds toLowercase me c fetchLimit untilId sinceId)
      (fun row => Matches toLowercase me db row c = true ∧ Listed me db row untilId sinceId)
      fetchLimit s := by
  have hc : Denotes db (.new selectFrom) (appendSql toLowercase me c (.new selectFrom))
      (Matches toLowercase me db · c) := denotes_appendSql c (.new selectFrom) h
  have hall := ((Conditions.visible me hc.conditions.deleted).until untilId).since sinceId
  refine Conditions.searches (hall.congr fun row => ?_) fetchLimit
  simp only [Listed, and_assoc]

end

/-- The statement for a condition as `parse` returns it asks for the posts that the
condition matches and the search lists. -/
theorem search_selects_matches (toLowercase : String → String) (me : Option (Int × String))
    (db : Db) (fetchLimit : Int) (untilId sinceId : Option Int) :
    (∀ c, WellFormed (optimize c)) ∧
    ∀ c, WellFormed c →
      ∃ s, Searches db (searchLocalPostIds toLowercase me c fetchLimit untilId sinceId)
        (fun row => Matches toLowercase me db row c = true ∧ Listed me db row untilId sinceId)
        fetchLimit s :=
  ⟨optimize_wellFormed, fun _ h =>
    searchLocalPostIds_searches toLowercase me db h fetchLimit untilId sinceId⟩

def asciiLower (s : String) : String := String.ofList (s.toList.map Char.toLower)

/-- Everything is visible. -/
def openDb : Db := ⟨asciiLower, fun _ _ _ _ _ => some true⟩

def shouted : Row := ⟨⟨1, 2, "HELLO", "public", 0, none⟩, ⟨2, "bob", "example.com"⟩⟩

/-- `OR` around the condition does not let a deleted post through, and `%` is a letter. -/
theorem search_selects_matches_percent :
    ∃ s, Searches openDb
      (searchLocalPostIds asciiLower none (.or [.text "50%", .not (.text "_")]) 20 none none)
      (fun row => Matches asciiLower none openDb row (.or [.text "50%", .not (.text "_")]) = true ∧
        Listed none openDb row none none) 20 s :=
  (search_selects_matches asciiLower none openDb 20 none none).2 _ (by decide)

/-- No text for an empty list is a condition, and a text is found in any case. -/
theorem search_selects_matches_counterexample :
    parseSelect (searchLocalPostIds asciiLower none (.and []) 20 none none).sql = none ∧
    ∃ s, parseSelect (searchLocalPostIds asciiLower none (.text "hello") 20 none none).sql =
        some s ∧
      eval (openDb.env shouted
        (searchLocalPostIds asciiLower none (.text "hello") 20 none none).binds) s.condition =
          some (.bool true) ∧
      ¬ "hello".toList <:+: shouted.p.body.toList := by
  constructor
  · have hopen : Closed "(" [.lparen] := by decide
    have hclose : Closed ")" [.rparen] := by decide
    have hsql : ∃ t, (searchLocalPostIds asciiLower none (.and []) 20 none none).sql =
        selectFrom ++ ("(" ++ (")" ++ t)) := by
      simp only [searchLocalPostIds, appendSql, appendValues, QueryBuilder.push,
        QueryBuilder.pushBind, QueryBuilder.new, String.append_assoc]
      exact ⟨_, rfl⟩
    obtain ⟨t, ht⟩ := hsql
    rw [parseSelect, ht, closed_selectFrom.lex_append, hopen.lex_append, hclose.lex_append]
    simp only [List.cons_append, List.nil_append]
    rw [parse_on, Option.bind_eq_bind, Option.bind_some]
    simp only [parseExpr_empty, Option.bind_none]
  · obtain ⟨s, hs⟩ := searchLocalPostIds_searches asciiLower none openDb (c := .text "hello") rfl 20
      none none
    obtain ⟨v, hv, -, htrue⟩ := hs.condition shouted
    refine ⟨s, hs.parse, ?_, by decide⟩
    rw [hv, htrue.mpr ⟨by decide, rfl, rfl, by simp, by simp⟩]

end Seiran.Search
