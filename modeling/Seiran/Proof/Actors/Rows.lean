import Seiran.Model.Actors.Merge

/-!
# The rows of actors

* `ident_refresh`, `ident_marry`, `ident_row` and the like: what a write makes of a
  row, for either side;
* `Names`, `shared_key`: the ways in which two rows share a key;
* `RowOk`: a row has one side and perhaps a claim, or both sides and no claim;
* `Grown`, `Later`: what a write leaves of the rows, whoever made it.
-/

namespace Seiran.Actors

open Sql

section Sides

variable {s t : Side}

@[simp] theorem other_other : s.other.other = s := by
  cases s <;> rfl

@[simp] theorem other_ne : s.other ≠ s := by
  cases s <;> decide

theorem eq_or_eq_other (s t : Side) : t = s ∨ t = s.other := by
  cases s <;> cases t <;> decide

end Sides

section Writes

variable (d : Discovery) (a : Actor) (i : Int64) (s : Side)

@[simp] theorem id_refresh : (d.refresh a).id = a.id := by
  cases d <;> rfl

@[simp] theorem actorType_refresh : (d.refresh a).actorType = a.actorType := by
  cases d <;> rfl

@[simp] theorem ident_refresh : (d.refresh a).ident s = a.ident s := by
  cases d <;> cases s <;> rfl

@[simp] theorem claimed_refresh : (d.refresh a).claimed d.side = a.claimed d.side := by
  cases d <;> rfl

theorem claimed_other_refresh : (d.refresh a).claimed d.side.other =
    if a.actorType = .remoteSeiran then a.claimed d.side.other
    else a.claimed d.side.other <|> d.claim := by
  cases d <;> rfl

@[simp] theorem id_marry : (d.marry a).id = a.id := by
  cases d <;> rfl

@[simp] theorem actorType_marry : (d.marry a).actorType = .remoteSeiran := by
  cases d <;> rfl

@[simp] theorem ident_marry : (d.marry a).ident d.side = some d.ident := by
  cases d <;> rfl

@[simp] theorem ident_other_marry : (d.marry a).ident d.side.other = a.ident d.side.other := by
  cases d <;> rfl

@[simp] theorem claimed_marry : (d.marry a).claimed d.side = none := by
  cases d <;> rfl

@[simp] theorem claimed_other_marry :
    (d.marry a).claimed d.side.other = a.claimed d.side.other := by
  cases d <;> rfl

@[simp] theorem id_row : (d.row i).id = i := by
  cases d <;> rfl

theorem actorType_row : (d.row i).actorType ≠ .remoteSeiran := by
  cases d <;> simp [Discovery.row, FediActorProfile.row, BskyActorProfile.row]

@[simp] theorem ident_row : (d.row i).ident d.side = some d.ident := by
  cases d <;> rfl

@[simp] theorem ident_other_row : (d.row i).ident d.side.other = none := by
  cases d <;> rfl

@[simp] theorem claimed_row : (d.row i).claimed d.side = none := by
  cases d <;> rfl

@[simp] theorem claimed_other_row : (d.row i).claimed d.side.other = d.claim := by
  cases d <;> rfl

end Writes

section Keys

variable {actors : List Actor} {a b : Actor} {s : Side} {y : String} {x : Side → String}

/-- The row has, or claims, the identifiers of both sides. -/
def Names (a : Actor) (x : Side → String) : Prop :=
  ∀ s, (a.ident s <|> a.claimed s) = some (x s)

theorem names_iff : Names a x ↔ a.mutualClaim = some (x .fedi, x .bsky) := by
  have hsplit : Names a x ↔ (a.apUri <|> a.claimedApUri) = some (x .fedi) ∧
      (a.atDid <|> a.claimedAtDid) = some (x .bsky) :=
    ⟨fun h => ⟨h .fedi, h .bsky⟩, fun h s => by
      cases s
      · exact h.1
      · exact h.2⟩
  rw [hsplit]
  simp [Actor.mutualClaim, Option.bind_eq_some_iff, Option.map_eq_some_iff]

theorem nodup_keys (a : Actor) : a.keys.Nodup := by
  unfold Actor.keys
  cases a.apUri <;> cases a.atDid <;> cases a.mutualClaim <;> simp

theorem id_mem_keys {i : Int64} : .id i ∈ a.keys ↔ i = a.id := by
  simp [Actor.keys]

theorem ident_mem_keys : .ident s y ∈ a.keys ↔ a.ident s = some y := by
  cases s <;> simp [Actor.keys, Actor.ident]

theorem mutualClaim_mem_keys : .mutualClaim (x .fedi) (x .bsky) ∈ a.keys ↔ Names a x := by
  rw [names_iff]
  simp [Actor.keys]

/-- The three ways in which rows share a key -/
theorem shared_key {k : Key} (ha : k ∈ a.keys) (hb : k ∈ b.keys) :
    a.id = b.id ∨ (∃ s y, a.ident s = some y ∧ b.ident s = some y) ∨ ∃ x, Names a x ∧ Names b x := by
  cases k with
  | id i => exact .inl ((id_mem_keys.mp ha).symm.trans (id_mem_keys.mp hb))
  | ident s y => exact .inr (.inl ⟨s, y, ident_mem_keys.mp ha, ident_mem_keys.mp hb⟩)
  | mutualClaim ap did =>
    let x : Side → String := Side.rec ap did
    have hx : ∀ {c : Actor}, .mutualClaim ap did ∈ c.keys ↔ Names c x := mutualClaim_mem_keys (x := x)
    exact .inr (.inr ⟨x, hx.mp ha, hx.mp hb⟩)

variable (h : schema.Unique actors) (ha : a ∈ actors) (hb : b ∈ actors)

include h ha hb

theorem eq_of_id (hid : a.id = b.id) : a = b := h.eq_of_id ha hb hid

theorem eq_of_ident (hya : a.ident s = some y) (hyb : b.ident s = some y) : a = b :=
  h.eq_of_key ha hb (ident_mem_keys.mpr hya) (ident_mem_keys.mpr hyb)

theorem eq_of_names (hxa : Names a x) (hxb : Names b x) : a = b :=
  h.eq_of_key ha hb (mutualClaim_mem_keys.mpr hxa) (mutualClaim_mem_keys.mpr hxb)

end Keys

theorem byIdent_eq_some {actors : List Actor} {s : Side} {y : String} {a : Actor}
    (h : byIdent actors s y = some a) : a ∈ actors ∧ a.ident s = some y := by
  unfold byIdent at h
  have ha := List.find?_some h
  exact ⟨List.mem_of_find?_eq_some h, beq_iff_eq.mp ha⟩

theorem byIdent_eq_none {actors : List Actor} {s : Side} {y : String}
    (h : byIdent actors s y = none) : ∀ a ∈ actors, a.ident s ≠ some y := by
  intro a ha hy
  exact List.find?_eq_none.mp h a ha (beq_iff_eq.mpr hy)

section Kinds

/-- The rows that there are, where `D s y z` says that `y` may have declared `z` -/
inductive RowOk (D : Side → String → String → Prop) (a : Actor) : Prop where
  | single (s : Side) (y : String) (hident : a.ident s = some y) (hother : a.ident s.other = none)
      (hclaimed : a.claimed s = none) (htype : a.actorType ≠ .remoteSeiran)
      (hclaim : ∀ z, a.claimed s.other = some z → D s y z)
  | married (x : Side → String) (hident : ∀ s, a.ident s = some (x s))
      (hclaimed : ∀ s, a.claimed s = none) (htype : a.actorType = .remoteSeiran)
      (hclaim : ∀ s, D s (x s) (x s.other))

variable {D : Side → String → String → Prop} {a : Actor} {d : Discovery} {s : Side}
  {x : Side → String} {y z : String}

theorem RowOk.exists_ident (h : RowOk D a) : ∃ s y, a.ident s = some y := by
  cases h with
  | single s y hident => exact ⟨s, y, hident⟩
  | married x hident => exact ⟨.fedi, _, hident _⟩

/-- A side that is known is not claimed. -/
theorem RowOk.claimed_eq_none (h : RowOk D a) (hy : a.ident s = some y) : a.claimed s = none := by
  cases h with
  | single t y' hident hother hclaimed =>
    rcases eq_or_eq_other t s with rfl | rfl
    · exact hclaimed
    · rw [hother] at hy
      cases hy
  | married x hident hclaimed => exact hclaimed s

/-- A row that has both sides claims none. -/
theorem RowOk.of_both (h : RowOk D a) (hx : ∀ s, a.ident s = some (x s)) :
    (∀ s, a.claimed s = none) ∧ a.actorType = .remoteSeiran ∧ ∀ s, D s (x s) (x s.other) := by
  cases h with
  | single t _ _ hother =>
    have hx := hx t.other
    rw [hother] at hx
    cases hx
  | married x' hident hclaimed htype hclaim =>
    have heq : x' = x := funext fun s => Option.some.inj ((hident s).symm.trans (hx s))
    subst heq
    exact ⟨hclaimed, htype, hclaim⟩

/-- A claim is one of a row that has the other side alone. -/
theorem RowOk.of_claimed (h : RowOk D a) (hz : a.claimed s = some z) :
    a.ident s = none ∧ ∃ y, a.ident s.other = some y ∧ D s.other y z := by
  cases h with
  | single t y hident hother hclaimed htype hclaim =>
    rcases eq_or_eq_other t s with rfl | rfl
    · rw [hclaimed] at hz
      cases hz
    · rw [other_other]
      exact ⟨hother, y, hident, hclaim z hz⟩
  | married x hident hclaimed =>
    rw [hclaimed s] at hz
    cases hz

/-- A row that names two identifiers has one of them. -/
theorem RowOk.ident_of_names (h : RowOk D a) (hx : Names a x) : ∃ s, a.ident s = some (x s) := by
  obtain ⟨s, y, hy⟩ := h.exists_ident
  have hs := hx s
  rw [hy] at hs
  exact ⟨s, hy.trans hs⟩

theorem rowOk_row (hd : ∀ z, d.claim = some z → D d.side d.ident z) (i : Int64) :
    RowOk D (d.row i) :=
  .single d.side d.ident (ident_row d i) (ident_other_row d i) (claimed_row d i) (actorType_row d i)
    fun z hz => hd z ((claimed_other_row d i).symm.trans hz)

theorem RowOk.refresh (h : RowOk D a) (hident : a.ident d.side = some d.ident)
    (hd : ∀ z, d.claim = some z → D d.side d.ident z) : RowOk D (d.refresh a) := by
  cases h with
  | single s y hy hother hclaimed htype hclaim =>
    have hs : d.side = s := by
      rcases eq_or_eq_other s d.side with hs | hs
      · exact hs
      · rw [hs, hother] at hident
        cases hident
    subst hs
    rw [hident] at hy
    cases hy
    refine .single d.side d.ident ?_ ?_ ?_ ?_ fun z hz => ?_
    · rw [ident_refresh, hident]
    · rw [ident_refresh, hother]
    · rw [claimed_refresh, hclaimed]
    · rw [actorType_refresh]
      exact htype
    · rw [claimed_other_refresh, if_neg htype] at hz
      cases hc : a.claimed d.side.other with
      | none =>
        rw [hc] at hz
        exact hd z hz
      | some z' =>
        rw [hc] at hz
        cases hz
        exact hclaim z hc
  | married x hident' hclaimed htype hclaim =>
    refine .married x (fun s => ?_) (fun s => ?_) ?_ hclaim
    · rw [ident_refresh, hident' s]
    · rcases eq_or_eq_other d.side s with rfl | rfl
      · rw [claimed_refresh, hclaimed]
      · rw [claimed_other_refresh, if_pos htype, hclaimed]
    · rw [actorType_refresh, htype]

/-- The row of the other side, which claims this one or is married to it -/
def Engaged (a : Actor) (d : Discovery) (z : String) : Prop :=
  a.ident d.side.other = some z ∧
    (a.claimed d.side = some d.ident ∨ a.ident d.side = some d.ident)

/-- The identifiers of a marriage -/
def couple (d : Discovery) (z : String) (s : Side) : String := if s = d.side then d.ident else z

theorem couple_side : couple d z d.side = d.ident := if_pos rfl

theorem couple_other : couple d z d.side.other = z := if_neg other_ne

theorem RowOk.marry (h : RowOk D a) (he : Engaged a d z) (hd : D d.side d.ident z) :
    RowOk D (d.marry a) := by
  obtain ⟨hz, hy⟩ := he
  have hback : D d.side.other z d.ident := by
    rcases hy with hy | hy
    · obtain ⟨-, y, hident, hD⟩ := h.of_claimed hy
      rw [hz] at hident
      cases hident
      exact hD
    · have hboth : ∀ s, a.ident s = some (couple d z s) := by
        intro s
        rcases eq_or_eq_other d.side s with rfl | rfl
        · rw [couple_side, hy]
        · rw [couple_other, hz]
      have hD := (h.of_both hboth).2.2 d.side.other
      rw [other_other, couple_side, couple_other] at hD
      exact hD
  refine .married (couple d z) ?_ ?_ (actorType_marry d a) ?_
  · intro s
    rcases eq_or_eq_other d.side s with rfl | rfl
    · rw [ident_marry, couple_side]
    · rw [ident_other_marry, couple_other, hz]
  · intro s
    rcases eq_or_eq_other d.side s with rfl | rfl
    · exact claimed_marry d a
    · rw [claimed_other_marry]
      exact h.claimed_eq_none hz
  · intro s
    rcases eq_or_eq_other d.side s with rfl | rfl
    · rw [couple_side, couple_other]
      exact hd
    · rw [other_other, couple_side, couple_other]
      exact hback

end Kinds

section Growth

variable {D : Side → String → String → Prop} {actors actors' : List Actor} {a b : Actor}
  {d : Discovery} {f : Actor → Actor} {i k : Int64} {s : Side} {y z : String}

/-- What a row is like later: a side is not given up, and a claim is kept until it is fulfilled. -/
structure Grown (a a' : Actor) : Prop where
  id : a'.id = a.id
  ident : ∀ s y, a.ident s = some y → a'.ident s = some y
  claimed : ∀ s y, a.claimed s = some y → a'.claimed s = some y ∨ a'.ident s = some y

theorem Grown.refl (a : Actor) : Grown a a := ⟨rfl, fun _ _ h => h, fun _ _ h => .inl h⟩

theorem Grown.trans {b c : Actor} (h : Grown a b) (h' : Grown b c) : Grown a c where
  id := h'.id.trans h.id
  ident s y hy := h'.ident s y (h.ident s y hy)
  claimed s y hy := by
    rcases h.claimed s y hy with h | h
    · exact h'.claimed s y h
    · exact .inr (h'.ident s y h)

theorem grown_refresh (a : Actor) (d : Discovery) : Grown a (d.refresh a) where
  id := id_refresh d a
  ident s y h := (ident_refresh d a s).trans h
  claimed s y h := by
    refine .inl ?_
    rcases eq_or_eq_other d.side s with rfl | rfl
    · rw [claimed_refresh, h]
    · rw [claimed_other_refresh, h]
      split <;> rfl

theorem RowOk.grown_marry (h : RowOk D a) (he : Engaged a d z) : Grown a (d.marry a) where
  id := id_marry d a
  ident s y hy := by
    rcases eq_or_eq_other d.side s with rfl | rfl
    · rcases he.2 with hc | hc
      · rw [(h.of_claimed hc).1] at hy
        cases hy
      · rw [ident_marry, ← hc, hy]
    · rw [ident_other_marry, hy]
  claimed s y hy := by
    rcases eq_or_eq_other d.side s with rfl | rfl
    · refine .inr ?_
      rcases he.2 with hc | hc
      · rw [ident_marry, ← hc, hy]
      · rw [h.claimed_eq_none hc] at hy
        cases hy
    · rw [h.claimed_eq_none he.1] at hy
      cases hy

/-- What a write of the call `i` leaves of the rows -/
structure Later (i : Int64) (actors actors' : List Actor) : Prop where
  fresh : ∀ a' ∈ actors', a'.id = i ∨ ∃ a ∈ actors, a.id = a'.id
  grown : ∀ a ∈ actors, ∃ a' ∈ actors', Grown a a'

theorem Later.refl (i : Int64) (actors : List Actor) : Later i actors actors where
  fresh a ha := .inr ⟨a, ha, rfl⟩
  grown a ha := ⟨a, ha, .refl a⟩

theorem Later.append (hid : b.id = i) : Later i actors (actors ++ [b]) where
  fresh a' ha' := by
    rcases List.mem_append.mp ha' with ha | ha
    · exact .inr ⟨a', ha, rfl⟩
    · rw [List.mem_singleton.mp ha]
      exact .inl hid
  grown a ha := ⟨a, List.mem_append_left _ ha, .refl a⟩

/-- The rows after the change of one -/
theorem mem_set_iff (h : schema.Unique actors) (ha : a ∈ actors) :
    b ∈ schema.set actors a.id f ↔ b = f a ∨ b ∈ actors ∧ b.id ≠ a.id := by
  constructor
  · intro hb
    obtain ⟨q, hq, rfl⟩ := Schema.mem_set.mp hb
    by_cases hid : schema.id q = a.id
    · rw [if_pos hid, eq_of_id h hq ha hid]
      exact .inl rfl
    · rw [if_neg hid]
      exact .inr ⟨hq, hid⟩
  · rintro (rfl | ⟨hb, hid⟩)
    · exact Schema.mem_set_of_eq ha rfl
    · exact Schema.mem_set_of_ne hb hid

theorem Later.set (h : schema.Unique actors) (ha : a ∈ actors) (hg : Grown a (f a)) :
    Later i actors (schema.set actors a.id f) where
  fresh b hb := by
    rcases (mem_set_iff h ha).mp hb with rfl | ⟨hb, -⟩
    · exact .inr ⟨a, ha, hg.id.symm⟩
    · exact .inr ⟨b, hb, rfl⟩
  grown b hb := by
    by_cases hid : b.id = a.id
    · rw [eq_of_id h hb ha hid]
      exact ⟨f a, (mem_set_iff h ha).mpr (.inl rfl), hg⟩
    · exact ⟨b, (mem_set_iff h ha).mpr (.inr ⟨hb, hid⟩), .refl b⟩

end Growth

end Seiran.Actors
