import Mathlib.Data.List.Basic

/-!
# Texts with tags

A text is read from left to right. A tag is what is between a `<` and the next `>`; it opens an
element, closes the one that was opened last, or does neither.

* `read_cancel`: what is open before a text is known from what is open after it;
* `balanced_append_plain`, `balanced_plain_append`: what has no tags may be cut off at either end;
* `balanced_remove`: a part may be taken out of a balanced text if and only if the same elements
  are open before and after it.
-/

namespace Seiran.Markup

/-- What a tag does -/
inductive Effect (ν : Type) where
  | opens (name : ν)
  | closes (name : ν)
  | neither

structure State (ν : Type) where
  /-- The elements that are open, the last of them first -/
  opened : List ν
  /-- What has been read of a tag, backwards -/
  tag : Option (List Char) := none
deriving DecidableEq

variable {ν : Type}

/-- Where the reading of a text starts, and where that of a balanced text ends -/
def State.start : State ν := { opened := [] }

variable [DecidableEq ν]

def Effect.apply (opened : List ν) : Effect ν → Option (List ν)
  | .opens name => some (name :: opened)
  | .closes name =>
    match opened with
    | [] => none
    | last :: opened => if last = name then some opened else none
  | .neither => some opened

variable (effect : List Char → Effect ν)

def State.step (s : State ν) (c : Char) : Option (State ν) :=
  match s.tag with
  | none => some (if c = '<' then { s with tag := some [] } else s)
  | some tag =>
    if c = '>' then ((effect tag.reverse).apply s.opened).map fun opened => { opened }
    else some { s with tag := some (c :: tag) }

def read (s : State ν) (text : List Char) : Option (State ν) := text.foldlM (State.step effect) s

/-- Every element that is opened is closed, the last one first. -/
def Balanced (text : List Char) : Prop := read effect .start text = some .start

instance (text : List Char) : Decidable (Balanced effect text) :=
  inferInstanceAs (Decidable (_ = _))

/-- A text that does not end within a tag -/
def Outside (text : List Char) : Prop := ∃ opened, read effect .start text = some { opened }

/-- The same elements are open before and after the part. -/
def Neutral (before part : List Char) : Prop :=
  read effect .start (before ++ part) = read effect .start before

variable {effect}

/-! ## Reading -/

theorem read_cons (s : State ν) (c : Char) (text : List Char) :
    read effect s (c :: text) = (s.step effect c).bind fun s => read effect s text := rfl

theorem read_append (s : State ν) (a b : List Char) :
    read effect s (a ++ b) = (read effect s a).bind fun s => read effect s b :=
  List.foldlM_append

theorem step_text (opened : List ν) (c : Char) :
    State.step effect { opened } c =
      some (if c = '<' then { opened, tag := some [] } else { opened }) := rfl

theorem step_tag (opened : List ν) (tag : List Char) (c : Char) :
    State.step effect { opened, tag := some tag } c =
      if c = '>' then ((effect tag.reverse).apply opened).map fun opened => { opened }
      else some { opened, tag := some (c :: tag) } := rfl

theorem apply_cancel {e : Effect ν} {a b opened : List ν} (ha : e.apply a = some opened)
    (hb : e.apply b = some opened) : a = b := by
  cases e with
  | opens name => exact (List.cons.inj (Option.some.inj (ha.trans hb.symm))).2
  | neither => exact Option.some.inj (ha.trans hb.symm)
  | closes name =>
    cases a with
    | nil => cases ha
    | cons last a =>
      cases b with
      | nil => cases hb
      | cons last' b =>
        rw [Effect.apply, Option.ite_none_right_eq_some, Option.some.injEq] at ha hb
        rw [ha.1, hb.1, ha.2, hb.2]

/-- What is open before a text is known from what is open after it. -/
theorem read_cancel {a b : List ν} {tag : Option (List Char)} {text : List Char} {s : State ν}
    (ha : read effect { opened := a, tag } text = some s)
    (hb : read effect { opened := b, tag } text = some s) : a = b := by
  induction text generalizing a b tag with
  | nil => exact congrArg State.opened (Option.some.inj (ha.trans hb.symm))
  | cons c text ih =>
    rw [read_cons, Option.bind_eq_some_iff] at ha hb
    obtain ⟨a', hstep, ha⟩ := ha
    obtain ⟨b', hstep', hb⟩ := hb
    cases tag with
    | none =>
      rw [step_text, Option.some.injEq] at hstep hstep'
      subst hstep hstep'
      by_cases hc : c = '<'
      · rw [if_pos hc] at ha hb
        exact ih ha hb
      · rw [if_neg hc] at ha hb
        exact ih ha hb
    | some tag =>
      by_cases hc : c = '>'
      · rw [step_tag, if_pos hc, Option.map_eq_some_iff] at hstep hstep'
        obtain ⟨opened, happly, rfl⟩ := hstep
        obtain ⟨opened', happly', rfl⟩ := hstep'
        obtain rfl := ih ha hb
        exact apply_cancel happly happly'
      · rw [step_tag, if_neg hc, Option.some.injEq] at hstep hstep'
        subst hstep hstep'
        exact ih ha hb

/-! ## Parts without tags -/

theorem read_plain {text : List Char} (hlt : '<' ∉ text) (opened : List ν) :
    read effect { opened } text = some { opened } := by
  induction text with
  | nil => rfl
  | cons c text ih =>
    rw [List.mem_cons, not_or] at hlt
    have hstep : State.step effect { opened } c = some { opened } := by
      rw [step_text, if_neg (Ne.symm hlt.1)]
    rw [read_cons, hstep]
    exact ih hlt.2

/-- A tag goes on up to a `>`. -/
theorem isSome_tag_of_read {text : List Char} (hgt : '>' ∉ text) {opened : List ν}
    {tag : List Char} {s : State ν} (h : read effect { opened, tag := some tag } text = some s) :
    s.tag.isSome := by
  induction text generalizing tag with
  | nil =>
    cases h
    rfl
  | cons c text ih =>
    rw [List.mem_cons, not_or] at hgt
    rw [read_cons, step_tag, if_neg (Ne.symm hgt.1)] at h
    exact ih hgt.2 h

/-- A tag that is begun and done with has its `>`. -/
theorem gt_mem_of_read {text : List Char} {s : State ν} {opened : List ν}
    (h : read effect s ('<' :: text) = some { opened }) : '>' ∈ text := by
  by_contra hgt
  obtain ⟨before, tag⟩ := s
  cases tag with
  | none =>
    rw [read_cons, step_text, if_pos rfl] at h
    exact absurd (isSome_tag_of_read hgt h) Bool.false_ne_true
  | some tag =>
    rw [read_cons, step_tag, if_neg (by decide)] at h
    exact absurd (isSome_tag_of_read hgt h) Bool.false_ne_true

theorem tag_of_read_concat {text : List Char} {s t : State ν}
    (h : read effect s (text ++ ['>']) = some t) : t.tag = none := by
  rw [read_append, Option.bind_eq_some_iff] at h
  obtain ⟨⟨opened, tag⟩, -, h⟩ := h
  rw [read_cons, Option.bind_eq_some_iff] at h
  obtain ⟨s', hstep, h⟩ := h
  cases h
  cases tag with
  | none =>
    cases hstep
    rfl
  | some tag =>
    rw [step_tag, if_pos rfl, Option.map_eq_some_iff] at hstep
    obtain ⟨opened', -, rfl⟩ := hstep
    rfl

/-- Outside of a tag, a part without tags does not matter. -/
theorem read_append_plain {text part : List Char} (hlt : '<' ∉ part) (hgt : '>' ∉ part)
    (s : State ν) (opened : List ν) :
    read effect s (text ++ part) = some { opened } ↔ read effect s text = some { opened } := by
  rw [read_append, Option.bind_eq_some_iff]
  constructor
  · rintro ⟨⟨opened', tag⟩, hs, ht⟩
    cases tag with
    | none =>
      rw [read_plain hlt opened'] at ht
      rw [hs, ht]
    | some tag => exact absurd (isSome_tag_of_read hgt ht) Bool.false_ne_true
  · intro h
    exact ⟨_, h, read_plain hlt opened⟩

theorem balanced_append_plain {text part : List Char} (hlt : '<' ∉ part) (hgt : '>' ∉ part) :
    Balanced effect (text ++ part) ↔ Balanced effect text :=
  read_append_plain hlt hgt .start []

theorem balanced_plain_append {text part : List Char} (hlt : '<' ∉ part) :
    Balanced effect (part ++ text) ↔ Balanced effect text := by
  rw [Balanced, read_append, State.start, read_plain hlt []]
  rfl

theorem outside_plain {text : List Char} (hlt : '<' ∉ text) : Outside effect text :=
  ⟨[], read_plain hlt []⟩

/-! ## Taking out a part -/

/-- What is read before a text that is balanced in the end, and is done with its last tag -/
theorem outside_of_balanced {before text : List Char} (h : Balanced effect (before ++ text))
    (hgt : before.getLast? = some '>') : Outside effect before := by
  rw [Balanced, read_append, Option.bind_eq_some_iff] at h
  obtain ⟨⟨opened, tag⟩, hs, -⟩ := h
  obtain ⟨r, rfl⟩ := List.getLast?_eq_some_iff.mp hgt
  obtain rfl : tag = none := tag_of_read_concat hs
  exact ⟨opened, hs⟩

theorem balanced_remove {before part after : List Char}
    (h : Balanced effect (before ++ (part ++ after))) (hbefore : Outside effect before)
    (hpart : Outside effect (before ++ part)) :
    Balanced effect (before ++ after) ↔ Neutral effect before part := by
  obtain ⟨opened, hread⟩ := hbefore
  obtain ⟨opened', hread'⟩ := hpart
  rw [Balanced, ← List.append_assoc, read_append, hread', Option.bind_some] at h
  rw [Balanced, read_append, hread, Option.bind_some, Neutral, hread, hread']
  constructor
  · intro hafter
    rw [read_cancel hafter h]
  · intro heq
    cases heq
    exact h

end Seiran.Markup
