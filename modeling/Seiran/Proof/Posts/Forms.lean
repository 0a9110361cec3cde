import Seiran.Model.Posts.Arrivals

/-!
# The rows that arriving posts make

* `Claims`, `Couple`, `Agree`: which arrivals of a set claim each other, and when
  the forms of every post that is claimed back agree on who wrote it and on what
  it is called in the other protocol;
* `RowOk`: the four kinds of rows: one form, the other, both and what a merge
  left behind;
* `Later`: what a write leaves of the rows, whoever made it.
-/

namespace Seiran.Posts

open Sql

section Keys

theorem nodup_keys (p : Post) : p.keys.Nodup := by
  unfold Post.keys
  cases p.apObjectId <;> cases p.atUri <;> cases p.mutualClaim <;> simp

theorem id_mem_keys (p : Post) : .id p.id ∈ p.keys := List.mem_cons_self

theorem apObjectId_mem_keys {p : Post} {ap : String} :
    .apObjectId ap ∈ p.keys ↔ p.apObjectId = some ap := by
  simp [Post.keys]

theorem atUri_mem_keys {p : Post} {uri : String} : .atUri uri ∈ p.keys ↔ p.atUri = some uri := by
  simp [Post.keys]

theorem mutualClaim_mem_keys {p : Post} {ap uri : String} :
    .mutualClaim ap uri ∈ p.keys ↔ p.mutualClaim = some (ap, uri) := by
  simp [Post.keys]

theorem id_mem_keys_iff {p : Post} {i : Int64} : .id i ∈ p.keys ↔ i = p.id := by
  simp [Post.keys]

variable {posts : List Post} {p q : Post}

theorem eq_of_id (h : schema.Unique posts) (hp : p ∈ posts) (hq : q ∈ posts) (hid : p.id = q.id) :
    p = q := h.eq_of_id hp hq hid

theorem eq_of_apObjectId {ap : String} (h : schema.Unique posts) (hp : p ∈ posts) (hq : q ∈ posts)
    (hap : p.apObjectId = some ap) (haq : q.apObjectId = some ap) : p = q :=
  h.eq_of_key hp hq (apObjectId_mem_keys.mpr hap) (apObjectId_mem_keys.mpr haq)

theorem eq_of_atUri {uri : String} (h : schema.Unique posts) (hp : p ∈ posts) (hq : q ∈ posts)
    (hup : p.atUri = some uri) (huq : q.atUri = some uri) : p = q :=
  h.eq_of_key hp hq (atUri_mem_keys.mpr hup) (atUri_mem_keys.mpr huq)

theorem eq_of_mutualClaim {ap uri : String} (h : schema.Unique posts) (hp : p ∈ posts)
    (hq : q ∈ posts) (hcp : p.mutualClaim = some (ap, uri)) (hcq : q.mutualClaim = some (ap, uri)) :
    p = q :=
  h.eq_of_key hp hq (mutualClaim_mem_keys.mpr hcp) (mutualClaim_mem_keys.mpr hcq)

/-- The four ways in which rows share a key -/
theorem shared_key {k : Key} (hp : k ∈ p.keys) (hq : k ∈ q.keys) :
    p.id = q.id ∨ (∃ ap, p.apObjectId = some ap ∧ q.apObjectId = some ap) ∨
      (∃ uri, p.atUri = some uri ∧ q.atUri = some uri) ∨
      ∃ ap uri, p.mutualClaim = some (ap, uri) ∧ q.mutualClaim = some (ap, uri) := by
  cases k with
  | id i => exact .inl ((id_mem_keys_iff.mp hp).symm.trans (id_mem_keys_iff.mp hq))
  | apObjectId ap =>
    exact .inr (.inl ⟨ap, apObjectId_mem_keys.mp hp, apObjectId_mem_keys.mp hq⟩)
  | atUri uri => exact .inr (.inr (.inl ⟨uri, atUri_mem_keys.mp hp, atUri_mem_keys.mp hq⟩))
  | mutualClaim ap uri =>
    exact .inr (.inr (.inr ⟨ap, uri, mutualClaim_mem_keys.mp hp, mutualClaim_mem_keys.mp hq⟩))

theorem mutualClaim_eq_some {ap uri : String} :
    p.mutualClaim = some (ap, uri) ↔ p.deleted = false ∧
      (p.apObjectId <|> p.claimedApObjectId) = some ap ∧ (p.atUri <|> p.claimedAtUri) = some uri := by
  unfold Post.mutualClaim
  split
  · rename_i h
    simp [h]
  · rename_i h
    simp [h, Option.bind_eq_some_iff, Option.map_eq_some_iff]

end Keys

namespace Arrivals

variable {A : Set Arrival} {a b : Int64} {X Y Z : String} {posts posts' : List Post} {p q : Post}

theorem byApObjectId_eq (h : schema.Unique posts) (hp : p ∈ posts) (hap : p.apObjectId = some X) :
    byApObjectId posts X = some p :=
  h.find?_eq hp (beq_iff_eq.mpr hap) fun _ _ hq => apObjectId_mem_keys.mpr (beq_iff_eq.mp hq)

theorem byAtUri_eq (h : schema.Unique posts) (hp : p ∈ posts) (huri : p.atUri = some Y) :
    byAtUri posts Y = some p :=
  h.find?_eq hp (beq_iff_eq.mpr huri) fun _ _ hq => atUri_mem_keys.mpr (beq_iff_eq.mp hq)

theorem byApObjectId_eq_some (h : byApObjectId posts X = some q) :
    q ∈ posts ∧ q.apObjectId = some X := by
  unfold byApObjectId at h
  have hq := List.find?_some h
  exact ⟨List.mem_of_find?_eq_some h, beq_iff_eq.mp hq⟩

theorem byAtUri_eq_some (h : byAtUri posts Y = some q) : q ∈ posts ∧ q.atUri = some Y := by
  unfold byAtUri at h
  have hq := List.find?_some h
  exact ⟨List.mem_of_find?_eq_some h, beq_iff_eq.mp hq⟩

/-- A note of the author with the identifier claims the record. -/
def Claims (A : Set Arrival) (a : Int64) (X Y : String) : Prop :=
  (.create a X (some Y) ∈ A ∨ .update (some a) X Y ∈ A) ∧ ∃ c, .create a X c ∈ A

/-- The note and the record of one author claim each other. -/
def Couple (A : Set Arrival) (a : Int64) (X Y : String) : Prop :=
  (.create a X (some Y) ∈ A ∨ .update (some a) X Y ∈ A ∧ ∃ b c, .create b X c ∈ A) ∧
    .bsky a Y (some X) ∈ A

/-- Every form of either is by that author and claims the other, or is a note that an `Update`
completes. -/
structure Settled (A : Set Arrival) (a : Int64) (X Y : String) : Prop where
  author : ∀ {b c}, .create b X c ∈ A → b = a
  creates : .create a X (some Y) ∈ A → ∀ {c}, .create a X c ∈ A → c = some Y
  updates : ∀ {Z}, .update (some a) X Z ∈ A → Z = Y
  records : ∀ {b d}, .bsky b Y d ∈ A → b = a ∧ d = some X
  apart : .create a X (some Y) ∈ A → ∀ {b d}, .bsky b X d ∉ A

/-- Forms that claim each other are by one author, and their posts have no other forms. -/
structure Agree (A : Set Arrival) : Prop where
  author : ∀ {a b X Y}, Claims A a X Y → .bsky b Y (some X) ∈ A → a = b
  settled : ∀ {a X Y}, Couple A a X Y → Settled A a X Y

theorem Claims.couple (h : Claims A a X Y) (hb : .bsky a Y (some X) ∈ A) : Couple A a X Y := by
  obtain ⟨h | h, c, hc⟩ := h
  · exact ⟨.inl h, hb⟩
  · exact ⟨.inr ⟨h, a, c, hc⟩, hb⟩

theorem Agree.couple_unique (hA : Agree A) (hY : Couple A a X Y) (hZ : Couple A a X Z) : Z = Y := by
  rcases hZ.1 with hc | ⟨hu, -⟩
  · rcases hY.1 with hc' | ⟨hu, -⟩
    · exact Option.some.inj ((hA.settled hY).creates hc' hc)
    · exact ((hA.settled hZ).updates hu).symm
  · exact (hA.settled hY).updates hu

/-- The kinds of rows -/
inductive RowOk (A : Set Arrival) (p : Post) : Prop where
  /-- A note; a claim that is returned is not lost again. -/
  | note (X : String) (c : Option String) (hap : p.apObjectId = some X) (hat : p.atUri = none)
      (hclaimed : p.claimedApObjectId = none) (hlive : p.deleted = false)
      (hmem : .create p.actorId X c ∈ A) (hclaim : ∀ Y, p.claimedAtUri = some Y → Claims A p.actorId X Y)
      (hkept : ∀ Y, .create p.actorId X (some Y) ∈ A → .bsky p.actorId Y (some X) ∈ A →
        p.claimedAtUri = some Y)
  | record (Y : String) (hap : p.apObjectId = none) (hat : p.atUri = some Y)
      (hclaimed : p.claimedAtUri = none) (hlive : p.deleted = false)
      (hmem : .bsky p.actorId Y p.claimedApObjectId ∈ A)
  | both (X Y : String) (hap : p.apObjectId = some X) (hat : p.atUri = some Y)
      (hlive : p.deleted = false) (hclaims : Claims A p.actorId X Y)
      (hmem : .bsky p.actorId Y (some X) ∈ A) (hclaimed : p.claimedApObjectId = none)
      (hclaim : ∀ Z, p.claimedAtUri = some Z → Z = Y)
  | doomed (hap : p.apObjectId = none) (hat : p.atUri = none) (hdeleted : p.deleted = true)

/-- The row names the record, or has its URI. -/
def Linked (p : Post) (Y : String) : Prop := p.claimedAtUri = some Y ∨ p.atUri = some Y

theorem RowOk.created (h : RowOk A p) (hap : p.apObjectId = some X) : ∃ c, .create p.actorId X c ∈ A := by
  cases h with
  | note X' c hap' _ _ _ hmem =>
    rw [hap'] at hap
    cases hap
    exact ⟨c, hmem⟩
  | record _ hap' => rw [hap'] at hap; cases hap
  | both X' Y' hap' _ _ hclaims =>
    rw [hap'] at hap
    cases hap
    exact hclaims.2
  | doomed hap' => rw [hap'] at hap; cases hap

theorem RowOk.claims (h : RowOk A p) (hap : p.apObjectId = some X) (hlinked : Linked p Y) :
    Claims A p.actorId X Y := by
  cases h with
  | note X' c hap' hat _ _ _ hclaim =>
    rw [hap'] at hap
    cases hap
    rcases hlinked with h | h
    · exact hclaim Y h
    · rw [hat] at h
      cases h
  | record _ hap' => rw [hap'] at hap; cases hap
  | both X' Y' hap' hat _ hclaims _ _ hclaim =>
    rw [hap'] at hap
    cases hap
    rcases hlinked with h | h
    · exact hclaim Y h ▸ hclaims
    · rw [hat] at h
      cases h
      exact hclaims
  | doomed hap' => rw [hap'] at hap; cases hap

theorem RowOk.live (h : RowOk A p) (hap : p.apObjectId = some X) : p.deleted = false := by
  cases h with
  | note _ _ _ _ _ hlive => exact hlive
  | record _ hap' => rw [hap'] at hap; cases hap
  | both _ _ _ _ hlive => exact hlive
  | doomed hap' => rw [hap'] at hap; cases hap

/-- A row with the URI is the record or both forms. -/
theorem RowOk.of_atUri (h : RowOk A p) (hat : p.atUri = some Y) :
    (p.apObjectId = none ∧ p.claimedAtUri = none ∧ .bsky p.actorId Y p.claimedApObjectId ∈ A ∨
      (∃ X, p.apObjectId = some X ∧ Claims A p.actorId X Y ∧ .bsky p.actorId Y (some X) ∈ A ∧
        p.claimedApObjectId = none ∧ ∀ Z, p.claimedAtUri = some Z → Z = Y)) ∧ p.deleted = false := by
  cases h with
  | note _ _ _ hat' => rw [hat'] at hat; cases hat
  | record Y' hap hat' hclaimed hlive hmem =>
    rw [hat'] at hat
    cases hat
    exact ⟨.inl ⟨hap, hclaimed, hmem⟩, hlive⟩
  | both X Y' hap hat' hlive hclaims hmem hclaimed hclaim =>
    rw [hat'] at hat
    cases hat
    exact ⟨.inr ⟨X, hap, hclaims, hmem, hclaimed, hclaim⟩, hlive⟩
  | doomed _ hat' => rw [hat'] at hat; cases hat

/-- A row in the index of claims has the note, or is the record that claims it. -/
theorem RowOk.of_mutualClaim (h : RowOk A p) (hcl : p.mutualClaim = some (X, Y)) :
    p.apObjectId = some X ∨ p.atUri = some Y ∧ .bsky p.actorId Y (some X) ∈ A := by
  obtain ⟨hlive, hap, hat⟩ := mutualClaim_eq_some.mp hcl
  cases h with
  | note X' _ hap' =>
    rw [hap'] at hap ⊢
    exact .inl hap
  | record Y' hap' hat' _ _ hmem =>
    rw [hap'] at hap
    rw [hat'] at hat
    cases hat
    have hclaimed : p.claimedApObjectId = some X := hap
    exact .inr ⟨hat', hclaimed ▸ hmem⟩
  | both X' _ hap' =>
    rw [hap'] at hap ⊢
    exact .inl hap
  | doomed _ _ hdel =>
    rw [hdel] at hlive
    cases hlive

section Couples

variable (hA : Agree A) (hu : schema.Unique posts) (hrows : ∀ p ∈ posts, RowOk A p)

include hA hu hrows

/-- The row of a note that names the record is that of the record. -/
theorem eq_of_linked (hc : Couple A p.actorId X Y) (hp : p ∈ posts) (hap : p.apObjectId = some X)
    (hlinked : Linked p Y) (hq : q ∈ posts) (hat : q.atUri = some Y) : p = q := by
  obtain ⟨h | ⟨X', hap', hclaims, hmem, -⟩, hlive⟩ := (hrows q hq).of_atUri hat
  · obtain ⟨hapq, -, hmem⟩ := h
    obtain ⟨-, hclaimed⟩ := (hA.settled hc).records hmem
    cases hatp : p.atUri with
    | none =>
      have hclaim : p.claimedAtUri = some Y := by
        rcases hlinked with h | h
        · exact h
        · rw [hatp] at h
          cases h
      have hcp : p.mutualClaim = some (X, Y) := by
        refine mutualClaim_eq_some.mpr ⟨(hrows p hp).live hap, ?_, ?_⟩
        · rw [hap]
          rfl
        · rw [hatp, hclaim]
          rfl
      have hcq : q.mutualClaim = some (X, Y) := by
        refine mutualClaim_eq_some.mpr ⟨hlive, ?_, ?_⟩
        · rw [hapq, hclaimed]
          rfl
        · rw [hat]
          rfl
      exact eq_of_mutualClaim hu hp hq hcp hcq
    | some Y' =>
      have hY : Y' = Y := by
        obtain ⟨h | ⟨X', hapX, hclaims, hmem', -⟩, -⟩ := (hrows p hp).of_atUri hatp
        · rw [h.1] at hap
          cases hap
        · rw [hap] at hapX
          cases hapX
          exact hA.couple_unique hc (hclaims.couple hmem')
      exact eq_of_atUri hu hp hq (hY ▸ hatp) hat
  · obtain ⟨-, hX⟩ := (hA.settled hc).records hmem
    cases Option.some.inj hX
    exact eq_of_apObjectId hu hp hq hap hap'

omit hu in
/-- The note of a couple is by its author. -/
theorem actorId_of_couple (hc : Couple A a X Y) (hp : p ∈ posts) (hap : p.apObjectId = some X) :
    p.actorId = a := by
  obtain ⟨c, hmem⟩ := (hrows p hp).created hap
  exact (hA.settled hc).author hmem

omit hu in
/-- A note that claims the record from its start names it. -/
theorem linked_of_create (hc : .create a X (some Y) ∈ A) (hb : .bsky a Y (some X) ∈ A)
    (hp : p ∈ posts) (hap : p.apObjectId = some X) : Linked p Y := by
  have hcouple : Couple A a X Y := ⟨.inl hc, hb⟩
  have ha : p.actorId = a := actorId_of_couple hA hrows hcouple hp hap
  subst ha
  cases hrows p hp with
  | note X' _ hap' _ _ _ _ _ hkept =>
    rw [hap] at hap'
    cases hap'
    exact .inl (hkept Y hc hb)
  | record _ hap' => rw [hap'] at hap; cases hap
  | both X' Y' hap' hat _ hclaims hmem =>
    rw [hap] at hap'
    cases hap'
    exact .inr (hA.couple_unique hcouple (hclaims.couple hmem) ▸ hat)
  | doomed hap' => rw [hap'] at hap; cases hap

theorem eq_of_create (hc : .create a X (some Y) ∈ A) (hb : .bsky a Y (some X) ∈ A)
    (hp : p ∈ posts) (hap : p.apObjectId = some X) (hq : q ∈ posts) (hat : q.atUri = some Y) :
    p = q := by
  have hcouple : Couple A a X Y := ⟨.inl hc, hb⟩
  have ha : p.actorId = a := actorId_of_couple hA hrows hcouple hp hap
  exact eq_of_linked hA hu hrows (ha.symm ▸ hcouple) hp hap
    (linked_of_create hA hrows hc hb hp hap) hq hat

end Couples

end Arrivals

end Seiran.Posts
