import Seiran.Model.Search.Query
import Seiran.Proof.Search.Optimize

/-!
# What a search query is parsed as

* `readAll_rel`: two readers whose steps are related read related things.
* `parsePartial_group`: `parse_partial` is a reader of the grouped query.
* `view_combine`: what it builds is seen as what `taken` takes the query for.
* `course_meaning`: that is the meaning of the query as long as it is plain.
-/

namespace Seiran.Query

open Search

/-! ## Readers -/

section

variable {σ α : Type} (R : Reader σ α)

theorem readAll_append (items items' : List Item) (s : σ) :
    readAll R (items ++ items') s = readAll R items' (readAll R items s) := by
  induction items generalizing s with
  | nil => rfl
  | cons item items ih => exact ih (item.read R s)

theorem readAll_singleton (item : Item) (s : σ) : readAll R [item] s = item.read R s := by
  rw [readAll, readAll]

end

/-- What two readers keep and what they find are related, step by step. -/
structure Reader.Related {σ α τ β : Type} (R : Reader σ α) (S : Reader τ β) (kept : σ → τ → Prop)
    (found : α → β → Prop) : Prop where
  start : kept R.start S.start
  text (text : String) : found (R.text text) (S.text text)
  operand {s : σ} {t : τ} {a : α} {b : β} : kept s t → found a b → kept (R.operand s a) (S.operand t b)
  or {s : σ} {t : τ} : kept s t → kept (R.or s) (S.or t)
  minus {s : σ} {t : τ} : kept s t → kept (R.minus s) (S.minus t)
  plus {s : σ} {t : τ} : kept s t → kept (R.plus s) (S.plus t)
  result {s : σ} {t : τ} : kept s t → found (R.result s) (S.result t)

section

variable {σ α τ β : Type} {R : Reader σ α} {S : Reader τ β} {kept : σ → τ → Prop}
  {found : α → β → Prop}

mutual

theorem read_rel (h : R.Related S kept found) : ∀ (item : Item) {s : σ} {t : τ}, kept s t →
    kept (item.read R s) (item.read S t)
  | .text text, _, _, hs => h.operand hs (h.text text)
  | .or, _, _, hs => h.or hs
  | .minus, _, _, hs => h.minus hs
  | .plus, _, _, hs => h.plus hs
  | .group items, _, _, hs => h.operand hs (h.result (readAll_rel h items h.start))

theorem readAll_rel (h : R.Related S kept found) : ∀ (items : List Item) {s : σ} {t : τ}, kept s t →
    kept (readAll R items s) (readAll S items t)
  | [], _, _, hs => hs
  | item :: items, _, _, hs => readAll_rel h items (read_rel h item hs)

end

theorem Reader.Related.read (h : R.Related S kept found) (items : List Item) :
    found (R.read items) (S.read items) :=
  h.result (readAll_rel h items h.start)

end

/-! ## The parser as a reader -/

section

variable (chrono : Chrono)

/-- What the loop of `parse_partial` does with each item. -/
def builder : Reader (SearchCondition × Join) SearchCondition where
  start := (.true, .and)
  text := parseTerm chrono
  operand s operand := (combine s.1 operand s.2, .and)
  or s := (s.1, .or)
  minus s := (s.1, .not)
  plus s := (s.1, .and)
  result s := s.1

/-- `parse_partial` builds the condition of the items that the tokens are grouped into,
up to the end for the root and up to the closing parenthesis otherwise. -/
theorem parsePartial_group (root : Bool) (tokens : List Token) (current : SearchCondition)
    (join : Join) (items : List Item)
    (h : readAll (builder chrono) items (builder chrono).start = (current, join)) :
    ∃ items', (builder chrono).read items' = (parsePartial chrono root tokens current join).1.1 ∧
      (root = true → groupFrom tokens [] items = items') ∧
      (root = false → ∀ outer outers, groupFrom tokens (outer :: outers) items =
        groupFrom (parsePartial chrono root tokens current join).1.2 outers
          (outer ++ [.group items'])) := by
  induction root, tokens, current, join using parsePartial.induct chrono
    generalizing items with
  | case1 root current join =>
    refine ⟨items, ?_, fun _ => rfl, fun _ outer outers => ?_⟩
    · rw [parsePartial, Reader.read, h]
      rfl
    · rw [parsePartial]
      cases outers <;> rfl
  | case2 root tokens current join found hfound ih₁ ih₂ =>
    obtain ⟨inner, hinner, -, hgroup⟩ := ih₁ [] rfl
    obtain ⟨items', hread, hroot, hnested⟩ := ih₂ (items ++ [.group inner]) (by
      rw [readAll_append, h, readAll_singleton]
      exact congrArg (fun c => (combine current c join, Join.and)) hinner)
    refine ⟨items', ?_, fun hr => ?_, fun hr outer outers => ?_⟩
    · rw [hread, parsePartial]
      rfl
    · rw [groupFrom, hgroup rfl]
      exact hroot hr
    · rw [groupFrom, hgroup rfl, parsePartial]
      exact hnested hr outer outers
  | case3 tokens current join ih =>
    obtain ⟨items', hread, hroot, -⟩ := ih [.group items] (by
      rw [readAll_singleton]
      have hitems : (builder chrono).result (readAll (builder chrono) items
        (builder chrono).start) = current := by rw [h]; rfl
      rw [Item.read, hitems]
      rfl)
    refine ⟨items', ?_, fun _ => hroot rfl, fun hr => absurd hr (by decide)⟩
    rw [hread, parsePartial, if_pos rfl]
    rfl
  | case4 root tokens current join hr =>
    have hparsed : (parsePartial chrono root (.control .closing :: tokens) current join).1 =
        (current, tokens) := by rw [parsePartial, if_neg hr]
    refine ⟨items, ?_, fun hroot => absurd hroot hr, fun _ outer outers => ?_⟩
    · rw [hparsed, Reader.read, h]
      rfl
    · rw [hparsed, groupFrom]
  | case5 root tokens current join ih =>
    obtain ⟨items', hread, hroot, hnested⟩ := ih (items ++ [.minus]) (by
      rw [readAll_append, h, readAll_singleton]
      rfl)
    refine ⟨items', ?_, hroot, fun hr outer outers => ?_⟩ <;> rw [parsePartial]
    · exact hread
    · exact hnested hr outer outers
  | case6 root tokens current join ih =>
    obtain ⟨items', hread, hroot, hnested⟩ := ih (items ++ [.plus]) (by
      rw [readAll_append, h, readAll_singleton]
      rfl)
    refine ⟨items', ?_, hroot, fun hr outer outers => ?_⟩ <;> rw [parsePartial]
    · exact hread
    · exact hnested hr outer outers
  | case7 root tokens current join ih =>
    obtain ⟨items', hread, hroot, hnested⟩ := ih (items ++ [.or]) (by
      rw [readAll_append, h, readAll_singleton]
      rfl)
    refine ⟨items', ?_, hroot, fun hr outer outers => ?_⟩ <;> rw [parsePartial]
    · exact hread
    · exact hnested hr outer outers
  | case8 root text tokens current join hempty ih =>
    obtain ⟨items', hread, hroot, hnested⟩ := ih items h
    refine ⟨items', ?_, fun hr => ?_, fun hr outer outers => ?_⟩
    · rw [parsePartial, if_pos hempty]
      exact hread
    · rw [groupFrom, if_pos hempty]
      exact hroot hr
    · rw [groupFrom, parsePartial, if_pos hempty, if_pos hempty]
      exact hnested hr outer outers
  | case9 root text tokens current join hempty ih =>
    obtain ⟨items', hread, hroot, hnested⟩ := ih (items ++ [.text text]) (by
      rw [readAll_append, h, readAll_singleton]
      rfl)
    refine ⟨items', ?_, fun hr => ?_, fun hr outer outers => ?_⟩
    · rw [parsePartial, if_neg hempty]
      exact hread
    · rw [groupFrom, if_neg hempty]
      exact hroot hr
    · rw [groupFrom, parsePartial, if_neg hempty, if_neg hempty]
      exact hnested hr outer outers

theorem parse_eq (tokens : List Token) :
    parse chrono tokens = optimize ((builder chrono).read (group tokens)) := by
  obtain ⟨items', hread, hroot, -⟩ := parsePartial_group chrono true tokens .true .and [] rfl
  rw [parse, ← hread, group, hroot rfl]

end

/-! ## What is built, seen as a reading -/

section

variable (v : SearchCondition → Bool)

def view : SearchCondition → Reading
  | .true => ⟨.always, true⟩
  | .or values => ⟨.chain (constantAny (misreadAll values)), truthAny v (misreadAll values)⟩
  | c => ⟨.other (constant (misread c)), truth v (misread c)⟩

theorem constant_view (c : SearchCondition) : (view v c).shape.constant = constant (misread c) := by
  cases c with
  | or values =>
    rw [misread]
    by_cases h : constantAny (misreadAll values) = some false
    · rw [if_pos h, view, h]
      rfl
    · rw [if_neg h, view, Shape.constant.eq_3 _ fun hf => h hf, constant]
  | _ => rfl

theorem closed_view (c : SearchCondition) : (view v c).closed = truth v (misread c) := by
  cases c with
  | or values =>
    rw [misread, view, Reading.closed, Reading.sound]
    by_cases h : constantAny (misreadAll values) = some false
    · rw [if_pos h, h]
      rfl
    · rw [if_neg h, truth]
      simp [h]
  | _ => rfl

theorem view_not (c : SearchCondition) : view v (.not c) = (view v c).negate := by
  rw [Reading.negate, constant_view, closed_view]
  rfl

theorem misreadAll_append (as bs : List SearchCondition) :
    misreadAll (as ++ bs) = misreadAll as ++ misreadAll bs := by
  induction as with
  | nil => rfl
  | cons a as ih => rw [List.cons_append, misreadAll, ih, misreadAll, List.cons_append]

theorem constantAnd_assoc : ∀ a b c : Option Bool,
    constantAnd (constantAnd a b) c = constantAnd a (constantAnd b c) := by decide

theorem constantOr_assoc : ∀ a b c : Option Bool,
    constantOr (constantOr a b) c = constantOr a (constantOr b c) := by decide

theorem constantAnd_true : ∀ a : Option Bool, constantAnd a (some true) = a := by decide

theorem true_constantAnd : ∀ a : Option Bool, constantAnd (some true) a = a := by decide

theorem constantOr_false : ∀ a : Option Bool, constantOr a (some false) = a := by decide

theorem false_constantOr : ∀ a : Option Bool, constantOr (some false) a = a := by decide

theorem constantAll_append_singleton (values : List SearchCondition) (value : SearchCondition) :
    constantAll (values ++ [value]) = constantAnd (constantAll values) (constant value) := by
  induction values with
  | nil => exact (constantAnd_true _).trans (true_constantAnd _).symm
  | cons head values ih =>
    rw [List.cons_append, constantAll, ih, ← constantAnd_assoc, constantAll]

theorem constantAny_append_singleton (values : List SearchCondition) (value : SearchCondition) :
    constantAny (values ++ [value]) = constantOr (constantAny values) (constant value) := by
  induction values with
  | nil => exact (constantOr_false _).trans (false_constantOr _).symm
  | cons head values ih =>
    rw [List.cons_append, constantAny, ih, ← constantOr_assoc, constantAny]

theorem truthAll_append_singleton (values : List SearchCondition) (value : SearchCondition) :
    truthAll v (values ++ [value]) = (truthAll v values && truth v value) := by
  induction values with
  | nil => simp [truthAll]
  | cons head values ih => rw [List.cons_append, truthAll, ih, ← Bool.and_assoc, truthAll]

theorem truthAny_append_singleton (values : List SearchCondition) (value : SearchCondition) :
    truthAny v (values ++ [value]) = (truthAny v values || truth v value) := by
  induction values with
  | nil => simp [truthAny]
  | cons head values ih => rw [List.cons_append, truthAny, ih, ← Bool.or_assoc, truthAny]

theorem view_and (values : List SearchCondition) :
    view v (.and values) = ⟨.other (constantAll (misreadAll values)), truthAll v (misreadAll values)⟩ :=
  rfl

theorem join_and (left right : Reading) :
    left.join right .and = ⟨.other (constantAnd left.shape.constant right.shape.constant),
      left.closed && right.closed⟩ :=
  rfl

theorem view_push_and (values : List SearchCondition) (right : SearchCondition) :
    view v (.and (values ++ [right])) = (view v (.and values)).join (view v right) .and := by
  rw [join_and, constant_view, constant_view, closed_view, closed_view, view_and, misread,
    misreadAll_append, misreadAll, misreadAll, constant, truth, constantAll_append_singleton,
    truthAll_append_singleton]

theorem view_push_or (values : List SearchCondition) (right : SearchCondition) :
    view v (.or (values ++ [right])) =
      ⟨.chain (constantOr (constantAny (misreadAll values)) (view v right).shape.constant),
        truthAny v (misreadAll values) || (view v right).closed⟩ := by
  rw [constant_view, closed_view, view, misreadAll_append, misreadAll, misreadAll,
    constantAny_append_singleton, truthAny_append_singleton]

theorem view_or_pair (left right : SearchCondition) :
    view v (.or [left, right]) = (view v left).join (view v right) .or := by
  rw [Reading.join, constant_view, constant_view, closed_view, closed_view, view, misreadAll,
    misreadAll, misreadAll, constantAny, constantAny, constantAny, truthAny, truthAny, truthAny,
    constantOr_false, Bool.or_false]

theorem view_and_pair (left right : SearchCondition) :
    view v (.and [left, right]) = (view v left).join (view v right) .and := by
  rw [join_and, constant_view, constant_view, closed_view, closed_view, view_and, misreadAll,
    misreadAll, misreadAll, constantAll, constantAll, constantAll, truthAll, truthAll, truthAll,
    constantAnd_true, Bool.and_true]

theorem view_combine (left right : SearchCondition) (join : Join) :
    view v (combine left right join) = (view v left).combine (view v right) join := by
  cases left with
  | true =>
    cases join with
    | and | or => rfl
    | not => exact view_not v right
  | and values =>
    cases join with
    | and => exact view_push_and v values right
    | not => exact (view_push_and v values (.not right)).trans (by rw [view_not v right]; rfl)
    | or => exact view_or_pair v (.and values) right
  | or values =>
    cases join with
    | and => exact view_and_pair v (.or values) right
    | not => exact (view_and_pair v (.or values) (.not right)).trans (by rw [view_not v right]; rfl)
    | or => exact view_push_or v values right
  | text _ | «from» _ | mentions _ | domain _ | since _ | «until» _ | not _ | false =>
    cases join with
    | and => exact view_and_pair v _ right
    | not => exact (view_and_pair v _ (.not right)).trans (by rw [view_not v right]; rfl)
    | or => exact view_or_pair v _ right

end

/-! ## What the query is taken for -/

section

variable (chrono : Chrono) (v : SearchCondition → Bool)

/-- What `parse_term` makes a text condition of, if it has no operator. -/
inductive IsAtom : SearchCondition → Prop
  | text (value : String) : IsAtom (.text value)
  | «from» (value : String) : IsAtom (.from value)
  | mentions (value : String) : IsAtom (.mentions value)
  | domain (value : String) : IsAtom (.domain value)
  | since (value : Int) : IsAtom (.since value)
  | «until» (value : Int) : IsAtom (.until value)

variable {v} in
theorem IsAtom.view {c : SearchCondition} (h : IsAtom c) : view v c = ⟨.other none, v c⟩ := by
  cases h <;> rfl

theorem isAtom_getD {date : Option Int} {make : Int → SearchCondition} {text : String}
    (h : ∀ time, IsAtom (make time)) : IsAtom ((date.map make).getD (.text text)) := by
  cases date with
  | none => exact .text text
  | some time => exact h time

/-- A term is a `lang:` filter, or an atom. -/
theorem parseTerm_cases (text : String) :
    isLang text = true ∧ parseTerm chrono text = .true ∨
    isLang text = false ∧ IsAtom (parseTerm chrono text) := by
  rw [isLang, parseTerm]
  cases splitOperator text with
  | none => exact .inr ⟨rfl, .text text⟩
  | some parts =>
    obtain ⟨operator, value⟩ := parts
    simp only
    cases value.isEmpty with
    | true => exact .inr ⟨rfl, .text text⟩
    | false =>
      simp only [Bool.false_eq_true, ↓reduceIte, Bool.not_false, Bool.true_and]
      generalize String.ofList (toAsciiLowercase operator) = name
      split
      · exact .inr ⟨by decide, .from _⟩
      · exact .inr ⟨by decide, .mentions _⟩
      · exact .inr ⟨by decide, .domain _⟩
      · exact .inl ⟨by decide, rfl⟩
      · exact .inr ⟨by decide, isAtom_getD .since⟩
      · exact .inr ⟨by decide, isAtom_getD .until⟩
      · rename_i hlang _ _
        exact .inr ⟨beq_eq_false_iff_ne.mpr hlang, .text text⟩

theorem view_parseTerm (text : String) :
    view v (parseTerm chrono text) = (taken chrono v).text text := by
  obtain ⟨hlang, hparse⟩ | ⟨hlang, hatom⟩ := parseTerm_cases chrono text
  · rw [hparse]
    exact (if_pos hlang).symm
  · rw [hatom.view]
    exact (if_neg (ne_of_eq_of_ne hlang (by decide))).symm

theorem builder_taken : (builder chrono).Related (taken chrono v)
    (fun s t => t = (view v s.1, s.2)) (fun a b => b = view v a) where
  start := rfl
  text text := (view_parseTerm chrono v text).symm
  operand {s t a b} hs ha := by
    subst hs ha
    exact congrArg (·, Join.and) (view_combine v s.1 a s.2).symm
  or {s t} hs := by rw [hs]; rfl
  minus {s t} hs := by rw [hs]; rfl
  plus {s t} hs := by rw [hs]; rfl
  result {s t} hs := by rw [hs]; rfl

theorem truth_parse (tokens : List Token) :
    truth v (parse chrono tokens) = ((taken chrono v).read (group tokens)).closed := by
  rw [parse_eq, truth_optimize, ← closed_view, (builder_taken chrono v).read]

/-! ## Plain queries -/

theorem course_taken : (course chrono v).Related (taken chrono v) (fun s t => t = s.taken)
    (fun a b => b = a.1) where
  start := rfl
  text text := rfl
  operand {s t a b} hs ha := by
    subst hs ha
    rfl
  or {s t} hs := by rw [hs]; rfl
  minus {s t} hs := by rw [hs]; rfl
  plus {s t} hs := by rw [hs]; rfl
  result {s t} hs := by rw [hs]; rfl

/-- As long as the course is plain, what is taken has the value of the phrase. -/
structure Agrees (s : Course) (phrase : Phrase) : Prop where
  truth : s.taken.1.truth = phrase.value.getD true
  always : s.taken.1.shape = .always → s.taken.1.truth = true
  started : s.started = phrase.value.isSome
  fresh : s.started = false → s.taken.1.shape = .always
  or : s.or = phrase.or
  negated : phrase.negated = (s.taken.2 == .not)
  joined : s.taken.2 = .or → s.or = true

variable {v}

theorem closed_of_sound {r : Reading} (h : r.sound = true) : r.closed = r.truth := by
  rw [Reading.closed, h, Bool.not_true, Bool.false_or]

theorem truth_signed {r : Reading} (h : r.sound = true) (join : Join) :
    (r.signed join).truth = ((join == .not) ^^ r.truth) := by
  cases join with
  | not => exact (congrArg not (closed_of_sound h)).trans (Bool.true_xor _).symm
  | and | or => exact (Bool.false_xor _).symm

theorem sound_signed {r : Reading} (h : r.sound = true) (join : Join) :
    (r.signed join).sound = true := by
  cases join with
  | not => rfl
  | and | or => exact h

/-- An operand after what is not `True`. -/
theorem truth_combine {left right : Reading} {join : Join} (hl : left.shape ≠ .always)
    (hleft : join = .or ∨ left.sound = true) (hright : right.sound = true) :
    (left.combine right join).shape ≠ .always ∧
    (left.combine right join).truth =
      if join = .or then left.truth || right.truth
      else left.truth && ((join == .not) ^^ right.truth) := by
  have hclosed := closed_of_sound hright
  have hsigned := (closed_of_sound (sound_signed hright join)).trans (truth_signed hright join)
  obtain ⟨shape, truth⟩ := left
  cases shape with
  | always => exact absurd rfl hl
  | chain constant =>
    cases join with
    | or => exact ⟨nofun, congrArg (truth || ·) hclosed⟩
    | and | not =>
      refine ⟨nofun, ?_⟩
      rw [if_neg nofun, ← closed_of_sound (hleft.resolve_left nofun), ← hsigned]
      rfl
  | other constant =>
    cases join with
    | or => exact ⟨nofun, congrArg (truth || ·) hclosed⟩
    | and | not =>
      refine ⟨nofun, ?_⟩
      rw [if_neg nofun, ← hsigned]
      rfl

theorem combine_always {left : Reading} (right : Reading) (join : Join) (h : left.shape = .always) :
    left.combine right join = right.signed join := by
  obtain ⟨shape, truth⟩ := left
  cases h
  rfl

/-- What a plain operand asks of the course before it. -/
theorem plain_operand {s : Course} {operand : Reading × Bool}
    (h : (s.operand operand).plain = true) :
    (s.started = true → s.or = true → s.taken.2 = .or ∧ s.taken.1.shape ≠ .always) ∧
    (s.taken.2 = .or ∨ s.taken.1.sound = true) ∧
    (operand.1.sound = true ∨ s.taken.1.shape = .always ∧ s.taken.2 ≠ .not) := by
  simp only [Course.operand, Bool.and_eq_true, Bool.or_eq_true, beq_iff_eq, bne_iff_ne,
    Bool.not_eq_true', Bool.and_eq_false_iff, Bool.or_eq_false_iff, bne_eq_false_iff_eq,
    beq_eq_false_iff_ne] at h
  obtain ⟨⟨⟨-, hor⟩, hleft⟩, hright⟩ := h
  refine ⟨fun hstarted hor' => ?_, hleft, hright⟩
  rw [hstarted, hor'] at hor
  simpa using hor

theorem Agrees.operand_always {s : Course} {phrase : Phrase} {operand : Reading × Bool}
    {meant : Bool} (h : Agrees s phrase) (htruth : operand.1.truth = meant)
    (halways : operand.1.shape = .always → operand.1.truth = true)
    (hplain : (s.operand operand).plain = true) (hshape : s.taken.1.shape = .always) :
    Agrees (s.operand operand) (phrase.operand meant) := by
  obtain ⟨hor, -, hright⟩ := plain_operand hplain
  have hsigned : (operand.1.signed s.taken.2).truth = (phrase.negated ^^ meant) := by
    rw [h.negated, ← htruth]
    obtain hsound | ⟨-, hnot⟩ := hright
    · exact truth_signed hsound s.taken.2
    · cases hjoin : s.taken.2 with
      | not => exact absurd hjoin hnot
      | and | or => exact (Bool.false_xor _).symm
  have hcombine := combine_always operand.1 s.taken.2 hshape
  refine ⟨?_, fun hs => ?_, rfl, nofun, rfl, rfl, nofun⟩
  · rw [Course.operand, hcombine, hsigned, Phrase.operand]
    cases hvalue : phrase.value with
    | none => rfl
    | some value =>
      -- The left side is true, and no `OR` is between it and the operand.
      have hvalue' : value = true := by
        have := h.truth
        rwa [h.always hshape, hvalue, eq_comm] at this
      have hstarted : s.started = true := by rw [h.started, hvalue]; rfl
      have hor' : phrase.or = false := by
        rw [← h.or]
        exact Bool.eq_false_iff.mpr fun ho => (hor hstarted ho).2 hshape
      rw [hvalue', hor']
      exact (Bool.true_and _).symm
  · rw [Course.operand, hcombine] at hs ⊢
    cases hjoin : s.taken.2 with
    | not =>
      rw [hjoin] at hs
      cases hs
    | and | or =>
      rw [hjoin] at hs
      exact halways hs

theorem Agrees.operand {s : Course} {phrase : Phrase} {operand : Reading × Bool} {meant : Bool}
    (h : Agrees s phrase) (htruth : operand.1.truth = meant)
    (halways : operand.1.shape = .always → operand.1.truth = true)
    (hplain : (s.operand operand).plain = true) :
    Agrees (s.operand operand) (phrase.operand meant) := by
  by_cases hshape : s.taken.1.shape = .always
  · exact h.operand_always htruth halways hplain hshape
  obtain ⟨hor, hleft, hright⟩ := plain_operand hplain
  have hstarted : s.started = true := by
    by_contra hs
    exact hshape (h.fresh (Bool.eq_false_iff.mpr hs))
  obtain ⟨value, hvalue⟩ := Option.isSome_iff_exists.mp (h.started.symm.trans hstarted)
  have hvalue' : s.taken.1.truth = value := by rw [h.truth, hvalue]; rfl
  obtain ⟨hne, hcombine⟩ := truth_combine hshape hleft (hright.resolve_right fun h => hshape h.1)
  refine ⟨?_, fun hs => absurd hs hne, rfl, nofun, rfl, rfl, nofun⟩
  rw [Course.operand, hcombine, Phrase.operand, hvalue, hvalue', htruth, h.negated, ← h.or]
  by_cases hjoin : s.taken.2 = .or
  · rw [if_pos hjoin, h.joined hjoin, hjoin]
    exact congrArg (value || ·) (Bool.false_xor _).symm
  · have hor' : s.or = false := Bool.eq_false_iff.mpr fun ho => hjoin (hor hstarted ho).1
    rw [if_neg hjoin, hor']
    rfl

theorem course_meaning : (course chrono v).Related (meaning chrono v)
    (fun s phrase => s.plain = true → Agrees s phrase)
    (fun a b => a.2 = true → a.1.truth = b ∧ (a.1.shape = .always → a.1.truth = true)) where
  start := fun _ => ⟨rfl, fun _ => rfl, rfl, fun _ => rfl, rfl, rfl, nofun⟩
  text text := fun _ => by
    simp only [course, taken, meaning]
    split
    · exact ⟨rfl, fun _ => rfl⟩
    · exact ⟨rfl, nofun⟩
  operand {s t a b} hs ha := fun hplain => by
    have hpre : s.plain = true ∧ a.2 = true := by
      simp only [course, Course.operand, Bool.and_eq_true] at hplain
      exact ⟨hplain.1.1.1.1, hplain.1.1.1.2⟩
    exact (hs hpre.1).operand (ha hpre.2).1 (ha hpre.2).2 hplain
  or {s t} hs := fun hplain =>
    have h := hs hplain
    ⟨h.truth, h.always, h.started, h.fresh, rfl, rfl, fun _ => rfl⟩
  minus {s t} hs := fun hplain =>
    have h := hs hplain
    ⟨h.truth, h.always, h.started, h.fresh, h.or, rfl, nofun⟩
  plus {s t} hs := fun hplain =>
    have h := hs hplain
    ⟨h.truth, h.always, h.started, h.fresh, h.or, rfl, nofun⟩
  result {s t} hs := fun hplain => ⟨(hs hplain).truth, (hs hplain).always⟩

theorem meaning_of_plain {items : List Item} (h : Plain chrono v items = true) :
    ((taken chrono v).read items).closed = (meaning chrono v).read items := by
  rw [Plain, Bool.and_eq_true] at h
  rw [(course_taken chrono v).read items, closed_of_sound h.2]
  exact ((course_meaning chrono).read items h.1).1

variable (v)

/-- The parsed condition has the truth value of the query if and only if that does not
hinge on the `OR`s that are taken for something else. In a plain query there are none. -/
theorem parse_means_iff (tokens : List Token) :
    (truth v (parse chrono tokens) = (meaning chrono v).read (group tokens) ↔
      ((taken chrono v).read (group tokens)).closed = (meaning chrono v).read (group tokens)) ∧
    (Plain chrono v (group tokens) = true →
      truth v (parse chrono tokens) = (meaning chrono v).read (group tokens)) := by
  rw [truth_parse]
  exact ⟨Iff.rfl, meaning_of_plain chrono⟩

/-! ## The posts that match -/

variable (toLowercase : String → String) (me : Option (Int × String)) (db : Db) (row : Row)

mutual

theorem matches_eq_truth : ∀ c : SearchCondition,
    Matches toLowercase me db row c = truth (Matches toLowercase me db row) c
  | .text _ | .from _ | .mentions _ | .domain _ | .since _ | .until _ | .true | .false => rfl
  | .not inner => by rw [Matches, truth, matches_eq_truth inner]
  | .and values => by rw [Matches, truth, matchesAll_eq_truth values]
  | .or values => by rw [Matches, truth, matchesAny_eq_truth values]

theorem matchesAll_eq_truth : ∀ values : List SearchCondition,
    MatchesAll toLowercase me db row values = truthAll (Matches toLowercase me db row) values
  | [] => rfl
  | value :: values => by
    rw [MatchesAll, truthAll, matches_eq_truth value, matchesAll_eq_truth values]

theorem matchesAny_eq_truth : ∀ values : List SearchCondition,
    MatchesAny toLowercase me db row values = truthAny (Matches toLowercase me db row) values
  | [] => rfl
  | value :: values => by
    rw [MatchesAny, truthAny, matches_eq_truth value, matchesAny_eq_truth values]

end

/-- A post matches a plain query if and only if it meets what the query means. -/
theorem matches_parse_of_plain (tokens : List Token)
    (h : Plain chrono (Matches toLowercase me db row) (group tokens) = true) :
    Matches toLowercase me db row (parse chrono tokens) =
      (meaning chrono (Matches toLowercase me db row)).read (group tokens) := by
  rw [matches_eq_truth, (parse_means_iff chrono _ tokens).2 h]

end

/-- `lang:ja OR hello` finds the posts with `hello` only, `hello OR lang:ja` all posts. -/
theorem parse_means_counterexample :
    ¬ ∀ (chrono : Chrono) (v : SearchCondition → Bool) (tokens : List Token),
      truth v (parse chrono tokens) = (meaning chrono v).read (group tokens) := by
  intro h
  have htokens := h ⟨fun _ => none, fun _ => none⟩ (fun _ => false)
    [.text "lang:ja", .or, .text "hello"]
  rw [truth_parse] at htokens
  exact absurd htokens (by decide)

end Seiran.Query
