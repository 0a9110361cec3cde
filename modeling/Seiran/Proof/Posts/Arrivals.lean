import Mathlib.Data.Set.Insert
import Seiran.Proof.Posts.Forms
import Seiran.Proof.Posts.Rows

/-!
# The two forms of a post merge

* `ProcOk`: what an arrival knows at each of its statements; a second attempt
  knows the row that the first one met;
* `Later`: what a write of another arrival leaves of that;
* `inv_step`: where the forms agree, no arrival fails;
* `arrivals_merge`: in every run of them, the two forms of a post that claim each
  other end in one row.
-/

namespace Seiran.Posts.Arrivals

open Sql

variable {A : Set Arrival} {a b : Int64} {X Y Z : String} {posts posts' : List Post} {p q : Post}
  {i j row : Int64} {sender : Option Int64} {c d : Option String} {phase : Phase}

/-- No row has the identifier yet. -/
def Fresh (posts : List Post) (i : Int64) : Prop := ∀ p ∈ posts, p.id ≠ i

/-- The note of the sender that an `Update` is about -/
def Own (posts : List Post) (row : Int64) (sender : Option Int64) (X : String) (P : Post → Prop) :
    Prop :=
  ∃ p ∈ posts, p.id = row ∧ p.apObjectId = some X ∧ some p.actorId = sender ∧ P p

/-- The note of the author names the record, or has its URI. -/
def Names (posts : List Post) (a : Int64) (X Y : String) : Prop :=
  ∃ p ∈ posts, p.apObjectId = some X ∧ p.actorId = a ∧ Linked p Y

def HasNote (posts : List Post) (X : String) : Prop := ∃ p ∈ posts, p.apObjectId = some X

def HasRecord (posts : List Post) (Y : String) : Prop := ∃ p ∈ posts, p.atUri = some Y

def CreateOk (A : Set Arrival) (posts : List Post) (i a : Int64) (X : String) (c : Option String) :
    Phase → Prop
  | .start => Fresh posts i
  | .search n => Fresh posts i ∧
      (n = 1 ∨ n = 2 ∧ ∃ Y, c = some Y ∧ .bsky a Y (some X) ∈ A ∧ HasRecord posts Y)
  | .write n none => Fresh posts i ∧ (n = 1 ∨ n = 2 ∧ HasNote posts X)
  | .write _ (some t) => ∃ Y, c = some Y ∧ .bsky a Y (some X) ∈ A ∧
      ∃ p ∈ posts, p.id = t ∧ p.atUri = some Y
  | .confirm => HasNote posts X
  | .ended .alreadyExists => HasNote posts X ∨ HasRecord posts X
  | .ended .inserted => HasNote posts X
  | _ => False

def UpdateOk (A : Set Arrival) (posts : List Post) (row : Int64) (sender : Option Int64)
    (X Y : String) : Phase → Prop
  | .start => True
  | .search n => Own posts row sender X fun p =>
      n = 1 ∨ n = 2 ∧ .bsky p.actorId Y (some X) ∈ A ∧ HasRecord posts Y
  | .write n none => Own posts row sender X fun p => n = 1 ∨ n = 2 ∧ p.atUri = some Y
  | .finalize doomed => Own posts row sender X fun p => .bsky p.actorId Y (some X) ∈ A ∧
      ∃ q ∈ posts, q.id = doomed ∧ q.apObjectId = none ∧
        (q.atUri = some Y ∨ q.deleted = true ∧ p.atUri = some Y)
  | .ended .missing => True
  | .ended .foreign => ∃ p ∈ posts, p.apObjectId = some X ∧ some p.actorId ≠ sender
  | .ended .settled => ∃ r, Own posts r sender X fun p => ∃ Z, p.atUri = some Z
  | .ended .claimed => HasNote posts X ∧
      ∀ a, sender = some a → Couple A a X Y → Names posts a X Y
  | .ended .merged => HasNote posts X ∧
      ∀ a, sender = some a → Couple A a X Y → Names posts a X Y
  | _ => False

def BskyOk (A : Set Arrival) (posts : List Post) (i b : Int64) (Y : String) (d : Option String) :
    Phase → Prop
  | .start => Fresh posts i
  | .search n => Fresh posts i ∧
      (n = 1 ∨ n = 2 ∧ ∃ X, d = some X ∧ Claims A b X Y ∧ Names posts b X Y)
  | .write n none => Fresh posts i ∧ (n = 1 ∨ n = 2 ∧ HasRecord posts Y)
  | .write _ (some t) => ∃ X, d = some X ∧ Claims A b X Y ∧
      Own posts t (some b) X fun p => Linked p Y
  | .ended .alreadyExists => HasRecord posts Y
  | .ended .merged => HasRecord posts Y
  | .ended .inserted => HasRecord posts Y
  | _ => False

def ProcOk (A : Set Arrival) (posts : List Post) (i : Int64) (pr : Proc) : Prop :=
  pr.arrival ∈ A ∧
    match pr.arrival with
    | .create a X c => pr.row = i ∧ CreateOk A posts i a X c pr.phase
    | .update sender X Y => UpdateOk A posts pr.row sender X Y pr.phase
    | .bsky b Y d => pr.row = i ∧ BskyOk A posts i b Y d pr.phase

structure Inv (A : Set Arrival) (s : State) : Prop where
  unique : schema.Unique s.posts
  rows : ∀ p ∈ s.posts, RowOk A p
  procs : ∀ i pr, s.procs i = some pr → ProcOk A s.posts i pr

/-- What a note is like after a write: it keeps what it names where that names it. -/
structure Grown (A : Set Arrival) (X : String) (p p' : Post) : Prop where
  id : p'.id = p.id
  actorId : p'.actorId = p.actorId
  apObjectId : p'.apObjectId = some X
  atUri : ∀ Y, p.atUri = some Y → p'.atUri = some Y
  linked : ∀ Y, Couple A p.actorId X Y → Linked p Y → Linked p' Y

theorem Grown.refl (hap : p.apObjectId = some X) : Grown A X p p :=
  ⟨rfl, rfl, hap, fun _ h => h, fun _ _ h => h⟩

/-- A record after a write is there, perhaps as a note as well. -/
def Stays (A : Set Arrival) (posts' : List Post) (p : Post) (Y : String) : Prop :=
  ∃ p' ∈ posts', p'.id = p.id ∧ p'.atUri = some Y ∧ (p'.apObjectId = p.apObjectId ∨
    ∃ a X, p'.apObjectId = some X ∧ .create a X (some Y) ∈ A ∧ .bsky a Y (some X) ∈ A)

def Doomed (posts : List Post) (id : Int64) : Prop :=
  ∃ p ∈ posts, p.id = id ∧ p.apObjectId = none ∧ p.deleted = true

/-- What a write of the arrival `i` leaves of the rows: a record that does not stay has given its
URI to its note. -/
structure Later (A : Set Arrival) (i : Int64) (posts posts' : List Post) : Prop where
  fresh : ∀ p' ∈ posts', p'.id = i ∨ ∃ p ∈ posts, p.id = p'.id
  note : ∀ p ∈ posts, ∀ X, p.apObjectId = some X → ∃ p' ∈ posts', Grown A X p p'
  record : ∀ p ∈ posts, ∀ Y, p.atUri = some Y → Stays A posts' p Y ∨
    p.apObjectId = none ∧ Doomed posts' p.id ∧ ∃ r ∈ posts, ∃ X, r.apObjectId = some X ∧
      Couple A r.actorId X Y ∧ ∃ r' ∈ posts', r'.id = r.id ∧ r'.atUri = some Y
  doomed : ∀ p ∈ posts, p.apObjectId = none → p.deleted = true → Doomed posts' p.id

theorem Later.refl : Later A i posts posts where
  fresh p hp := .inr ⟨p, hp, rfl⟩
  note p hp _ hap := ⟨p, hp, .refl hap⟩
  record p hp _ hat := .inl ⟨p, hp, rfl, hat, .inl rfl⟩
  doomed p hp hap hdel := ⟨p, hp, rfl, hap, hdel⟩

theorem Later.append (hid : q.id = i) : Later A i posts (posts ++ [q]) where
  fresh p' hp' := by
    rcases List.mem_append.mp hp' with hp | hp
    · exact .inr ⟨p', hp, rfl⟩
    · rw [List.mem_singleton.mp hp]
      exact .inl hid
  note p hp X hap := ⟨p, List.mem_append_left _ hp, .refl hap⟩
  record p hp Y hat := .inl ⟨p, List.mem_append_left _ hp, rfl, hat, .inl rfl⟩
  doomed p hp hap hdel := ⟨p, List.mem_append_left _ hp, rfl, hap, hdel⟩

section Persistence

variable (hl : Later A i posts posts')

include hl

theorem Later.keep_fresh (hij : i ≠ j) (h : Fresh posts j) : Fresh posts' j := by
  intro p' hp' hid
  rcases hl.fresh p' hp' with hi | ⟨p, hp, hpid⟩
  · exact hij (hi.symm.trans hid)
  · exact h p hp (hpid.trans hid)

theorem Later.keep_note (h : HasNote posts X) : HasNote posts' X := by
  obtain ⟨p, hp, hap⟩ := h
  obtain ⟨p', hp', hg⟩ := hl.note p hp X hap
  exact ⟨p', hp', hg.apObjectId⟩

theorem Later.keep_record (h : HasRecord posts Y) : HasRecord posts' Y := by
  obtain ⟨p, hp, hat⟩ := h
  rcases hl.record p hp Y hat with ⟨p', hp', -, hat', -⟩ | ⟨-, -, r, -, X, -, -, r', hr', -, hat'⟩
  · exact ⟨p', hp', hat'⟩
  · exact ⟨r', hr', hat'⟩

theorem Later.keep_names (hc : Couple A a X Y) (h : Names posts a X Y) : Names posts' a X Y := by
  obtain ⟨p, hp, hap, rfl, hlinked⟩ := h
  obtain ⟨p', hp', hg⟩ := hl.note p hp X hap
  exact ⟨p', hp', hg.apObjectId, hg.actorId, hg.linked Y hc hlinked⟩

theorem Later.keep_own {P P' : Post → Prop} (h : Own posts row sender X P)
    (hP : ∀ p ∈ posts, ∀ p' ∈ posts', p.apObjectId = some X → p.id = row →
      some p.actorId = sender → Grown A X p p' → P p → P' p') : Own posts' row sender X P' := by
  obtain ⟨p, hp, hid, hap, hsender, hPp⟩ := h
  obtain ⟨p', hp', hg⟩ := hl.note p hp X hap
  refine ⟨p', hp', hg.id.trans hid, hg.apObjectId, ?_, hP p hp p' hp' hap hid hsender hg hPp⟩
  rw [hg.actorId, hsender]

variable (hA : Agree A) (hu : schema.Unique posts) (hrows : ∀ p ∈ posts, RowOk A p)

include hA hu hrows

/-- A record that a note claims from its start stays. -/
theorem Later.stays_of_create (hc : .create a X (some Y) ∈ A) (hb : .bsky a Y (some X) ∈ A)
    (hp : p ∈ posts) (hat : p.atUri = some Y) : Stays A posts' p Y := by
  rcases hl.record p hp Y hat with h | ⟨hap, -, r, hr, X', hapr, hcouple, -⟩
  · exact h
  · exfalso
    obtain ⟨-, hX⟩ := (hA.settled ⟨.inl hc, hb⟩).records hcouple.2
    cases Option.some.inj hX
    have heq : r = p := eq_of_create hA hu hrows hc hb hr hapr hp hat
    rw [heq, hap] at hapr
    cases hapr

variable (hu' : schema.Unique posts')

include hu'

omit hrows in
/-- What an `Update` knows of the record it found -/
theorem Later.keep_doomed (hc : Couple A a X Y) (hr : p ∈ posts) (hap : p.apObjectId = some X)
    {p' : Post} (hr' : p' ∈ posts') (hg : Grown A X p p') {doomed : Int64}
    (h : ∃ q ∈ posts, q.id = doomed ∧ q.apObjectId = none ∧
      (q.atUri = some Y ∨ q.deleted = true ∧ p.atUri = some Y)) :
    ∃ q ∈ posts', q.id = doomed ∧ q.apObjectId = none ∧
      (q.atUri = some Y ∨ q.deleted = true ∧ p'.atUri = some Y) := by
  obtain ⟨q, hq, rfl, hapq, hat | ⟨hdel, hat⟩⟩ := h
  · rcases hl.record q hq Y hat with ⟨q', hq', hid, hat', hap'⟩ |
      ⟨-, ⟨q', hq', hid, hap', hdel'⟩, r, hrm, X', hapr, hcr, r', hrm', hidr, hatr'⟩
    · rcases hap' with hap' | ⟨b, X', hap', -, hmem⟩
      · exact ⟨q', hq', hid, hap'.trans hapq, .inl hat'⟩
      · -- the record would have become a second row of the note
        obtain ⟨-, hX⟩ := (hA.settled hc).records hmem
        cases Option.some.inj hX
        have heq : p' = q' := eq_of_apObjectId hu' hr' hq' hg.apObjectId hap'
        have hpq : p = q := eq_of_id hu hr hq (by rw [← hg.id, heq, hid])
        rw [hpq, hapq] at hap
        cases hap
    · obtain ⟨-, hX⟩ := (hA.settled hc).records hcr.2
      cases Option.some.inj hX
      have hrp : r = p := eq_of_apObjectId hu hrm hr hapr hap
      have heq : r' = p' := eq_of_id hu' hrm' hr' (by rw [hidr, hrp, hg.id])
      exact ⟨q', hq', hid, hap', .inr ⟨hdel', heq ▸ hatr'⟩⟩
  · obtain ⟨q', hq', hid, hap', hdel'⟩ := hl.doomed q hq hapq hdel
    exact ⟨q', hq', hid, hap', .inr ⟨hdel', hg.atUri Y hat⟩⟩

omit hu' in
theorem Later.keep_create (hmem : .create a X c ∈ A) (hij : i ≠ j)
    (h : CreateOk A posts j a X c phase) : CreateOk A posts' j a X c phase := by
  cases phase with
  | start => exact hl.keep_fresh hij h
  | search n =>
    obtain ⟨hf, hn⟩ := h
    refine ⟨hl.keep_fresh hij hf, ?_⟩
    rcases hn with hn | ⟨hn, Y, hc, hb, hrec⟩
    · exact .inl hn
    · exact .inr ⟨hn, Y, hc, hb, hl.keep_record hrec⟩
  | write n found =>
    cases found with
    | none =>
      obtain ⟨hf, hn⟩ := h
      refine ⟨hl.keep_fresh hij hf, ?_⟩
      rcases hn with hn | ⟨hn, hnote⟩
      · exact .inl hn
      · exact .inr ⟨hn, hl.keep_note hnote⟩
    | some t =>
      obtain ⟨Y, rfl, hb, p, hp, rfl, hat⟩ := h
      obtain ⟨p', hp', hid, hat', -⟩ := hl.stays_of_create hA hu hrows hmem hb hp hat
      exact ⟨Y, rfl, hb, p', hp', hid, hat'⟩
  | finalize => exact h
  | confirm => exact hl.keep_note h
  | ended o =>
    cases o with
    | alreadyExists => exact h.imp hl.keep_note hl.keep_record
    | inserted => exact hl.keep_note h
    | _ => exact h

theorem Later.keep_update (hmem : .update sender X Y ∈ A)
    (h : UpdateOk A posts row sender X Y phase) : UpdateOk A posts' row sender X Y phase := by
  cases phase with
  | start => trivial
  | search n =>
    refine hl.keep_own h fun p _ p' _ _ _ _ hg hn => ?_
    rcases hn with hn | ⟨hn, hb, hrec⟩
    · exact .inl hn
    · exact .inr ⟨hn, hg.actorId.symm ▸ hb, hl.keep_record hrec⟩
  | write n found =>
    cases found with
    | none =>
      refine hl.keep_own h fun p _ p' _ _ _ _ hg hn => ?_
      exact hn.imp_right fun ⟨hn, hat⟩ => ⟨hn, hg.atUri Y hat⟩
    | some t => exact h
  | finalize doomed =>
    refine hl.keep_own h fun p hp p' hp' hap _ hsender hg ⟨hb, hd⟩ => ?_
    refine ⟨hg.actorId.symm ▸ hb, ?_⟩
    obtain ⟨c, hcreate⟩ := (hrows p hp).created hap
    have hc : Couple A p.actorId X Y := ⟨.inr ⟨hsender ▸ hmem, _, c, hcreate⟩, hb⟩
    exact hl.keep_doomed hA hu hu' hc hp hap hp' hg hd
  | confirm => exact h
  | ended o =>
    cases o with
    | missing => trivial
    | foreign =>
      obtain ⟨p, hp, hap, hne⟩ := h
      obtain ⟨p', hp', hg⟩ := hl.note p hp X hap
      exact ⟨p', hp', hg.apObjectId, hg.actorId.symm ▸ hne⟩
    | settled =>
      obtain ⟨r, h⟩ := h
      exact ⟨r, hl.keep_own h fun p _ p' _ _ _ _ hg ⟨Z, hat⟩ => ⟨Z, hg.atUri Z hat⟩⟩
    | claimed => exact ⟨hl.keep_note h.1, fun a ha hc => hl.keep_names hc (h.2 a ha hc)⟩
    | merged => exact ⟨hl.keep_note h.1, fun a ha hc => hl.keep_names hc (h.2 a ha hc)⟩
    | _ => exact h

omit hA hu hrows hu' in
theorem Later.keep_bsky (hmem : .bsky b Y d ∈ A) (hij : i ≠ j)
    (h : BskyOk A posts j b Y d phase) : BskyOk A posts' j b Y d phase := by
  cases phase with
  | start => exact hl.keep_fresh hij h
  | search n =>
    obtain ⟨hf, hn⟩ := h
    refine ⟨hl.keep_fresh hij hf, ?_⟩
    rcases hn with hn | ⟨hn, X, rfl, hclaims, hnames⟩
    · exact .inl hn
    · exact .inr ⟨hn, X, rfl, hclaims, hl.keep_names (hclaims.couple hmem) hnames⟩
  | write n found =>
    cases found with
    | none =>
      obtain ⟨hf, hn⟩ := h
      refine ⟨hl.keep_fresh hij hf, ?_⟩
      exact hn.imp_right fun ⟨hn, hrec⟩ => ⟨hn, hl.keep_record hrec⟩
    | some t =>
      obtain ⟨X, rfl, hclaims, hown⟩ := h
      refine ⟨X, rfl, hclaims, hl.keep_own hown fun p _ p' _ _ _ hsender hg hlinked => ?_⟩
      cases Option.some.inj hsender
      exact hg.linked Y (hclaims.couple hmem) hlinked
  | finalize => exact h
  | confirm => exact h
  | ended o =>
    cases o with
    | alreadyExists => exact hl.keep_record h
    | merged => exact hl.keep_record h
    | inserted => exact hl.keep_record h
    | _ => exact h

/-- What another arrival knows holds after the write. -/
theorem Later.keep {pr : Proc} (hij : i ≠ j) (h : ProcOk A posts j pr) : ProcOk A posts' j pr := by
  obtain ⟨hmem, h⟩ := h
  refine ⟨hmem, ?_⟩
  cases harr : pr.arrival with
  | create a X c =>
    rw [harr] at hmem h
    exact ⟨h.1, hl.keep_create hA hu hrows hmem hij h.2⟩
  | update sender X Y =>
    rw [harr] at hmem h
    exact hl.keep_update hA hu hrows hu' hmem h
  | bsky b Y d =>
    rw [harr] at hmem h
    exact ⟨h.1, hl.keep_bsky hmem hij h.2⟩

end Persistence

section Search

variable (hA : Agree A) (hu : schema.Unique posts) (hrows : ∀ p ∈ posts, RowOk A p) {n : Nat}

include hrows

/-- A record that claims the note -/
theorem record_of_claimed (hp : p ∈ posts) (hat : p.atUri = some Y)
    (hclaimed : p.claimedApObjectId = some X) :
    p.apObjectId = none ∧ .bsky p.actorId Y (some X) ∈ A := by
  obtain ⟨⟨hap, -, hmem⟩ | ⟨-, -, -, -, hnone, -⟩, -⟩ := (hrows p hp).of_atUri hat
  · exact ⟨hap, hclaimed ▸ hmem⟩
  · rw [hclaimed] at hnone
    cases hnone

include hA

/-- The record of a couple is a row of its own, or that of the note. -/
theorem claimed_or_note (hc : Couple A a X Y) (hp : p ∈ posts) (hat : p.atUri = some Y) :
    p.actorId = a ∧ (p.claimedApObjectId = some X ∨
      p.apObjectId = some X ∧ p.claimedApObjectId = none) := by
  obtain ⟨⟨-, -, hmem⟩ | ⟨X', hap, -, hmem, hnone, -⟩, -⟩ := (hrows p hp).of_atUri hat
  · obtain ⟨ha, hclaimed⟩ := (hA.settled hc).records hmem
    exact ⟨ha, .inl hclaimed⟩
  · obtain ⟨ha, hX⟩ := (hA.settled hc).records hmem
    cases Option.some.inj hX
    exact ⟨ha, .inr ⟨hap, hnone⟩⟩

include hu

theorem search_create (hmem : .create a X c ∈ A) (h : CreateOk A posts i a X c (.search n)) :
    CreateOk A posts i a X c (.write n ((Proc.target ⟨.create a X c, row, phase⟩ posts).map
      Post.id)) := by
  obtain ⟨hf, hn⟩ := h
  simp only [Proc.target]
  cases ht : (c.bind (byAtUri posts)).filter fun q =>
      q.claimedApObjectId == some X && q.actorId == a with
  | none =>
    refine ⟨hf, hn.imp_right fun ⟨hn, Y, hY, hb, p, hp, hat⟩ => ⟨hn, ?_⟩⟩
    subst hY
    obtain ⟨ha, hclaimed | ⟨hap, -⟩⟩ := claimed_or_note hA hrows ⟨.inl hmem, hb⟩ hp hat
    · rw [Option.bind_some, byAtUri_eq hu hp hat, Option.filter_some, hclaimed, ha] at ht
      simp at ht
    · exact ⟨p, hp, hap⟩
  | some q =>
    obtain ⟨hq, hcond⟩ := Option.filter_eq_some_iff.mp ht
    obtain ⟨Y, rfl, hY⟩ := Option.bind_eq_some_iff.mp hq
    obtain ⟨hq, hat⟩ := byAtUri_eq_some hY
    rw [Bool.and_eq_true, beq_iff_eq, beq_iff_eq] at hcond
    obtain ⟨hclaimed, rfl⟩ := hcond
    exact ⟨Y, rfl, (record_of_claimed hrows hq hat hclaimed).2, q, hq, rfl, hat⟩

omit hA in
theorem search_bsky (hmem : .bsky b Y d ∈ A) (h : BskyOk A posts i b Y d (.search n)) :
    BskyOk A posts i b Y d (.write n ((Proc.target ⟨.bsky b Y d, row, phase⟩ posts).map
      Post.id)) := by
  obtain ⟨hf, hn⟩ := h
  simp only [Proc.target]
  cases ht : (d.bind (byApObjectId posts)).filter fun q =>
      q.claimedAtUri == some Y && q.actorId == b with
  | none =>
    refine ⟨hf, hn.imp_right fun ⟨hn, X, hX, hclaims, p, hp, hap, hb, hlinked⟩ => ⟨hn, ?_⟩⟩
    subst hX
    rcases hlinked with hclaimed | hat
    · rw [Option.bind_some, byApObjectId_eq hu hp hap, Option.filter_some, hclaimed, hb] at ht
      simp at ht
    · exact ⟨p, hp, hat⟩
  | some q =>
    obtain ⟨hq, hcond⟩ := Option.filter_eq_some_iff.mp ht
    obtain ⟨X, rfl, hX⟩ := Option.bind_eq_some_iff.mp hq
    obtain ⟨hq, hap⟩ := byApObjectId_eq_some hX
    rw [Bool.and_eq_true, beq_iff_eq, beq_iff_eq] at hcond
    obtain ⟨hclaimed, rfl⟩ := hcond
    exact ⟨X, rfl, (hrows q hq).claims hap (.inl hclaimed), q, hq, rfl, hap, rfl, .inl hclaimed⟩

theorem search_update (hmem : .update sender X Y ∈ A)
    (h : UpdateOk A posts row sender X Y (.search n)) :
    UpdateOk A posts row sender X Y
      (Proc.search ⟨.update sender X Y, row, phase⟩ posts n).phase := by
  obtain ⟨p, hp, hid, hap, hsender, hn⟩ := h
  obtain ⟨c, hcreate⟩ := (hrows p hp).created hap
  simp only [Proc.search, Proc.target]
  cases ht : (byAtUri posts Y).filter fun q =>
      q.claimedApObjectId == some X && some q.actorId == sender with
  | none =>
    refine ⟨p, hp, hid, hap, hsender, hn.imp_right fun ⟨hn, hb, q, hq, hat⟩ => ⟨hn, ?_⟩⟩
    have hc : Couple A p.actorId X Y := ⟨.inr ⟨hsender ▸ hmem, _, c, hcreate⟩, hb⟩
    obtain ⟨ha, hclaimed | ⟨hapq, -⟩⟩ := claimed_or_note hA hrows hc hq hat
    · rw [byAtUri_eq hu hq hat, Option.filter_some, hclaimed, ha, hsender] at ht
      simp at ht
    · rw [eq_of_apObjectId hu hp hq hap hapq, hat]
  | some q =>
    obtain ⟨hq, hcond⟩ := Option.filter_eq_some_iff.mp ht
    obtain ⟨hq, hat⟩ := byAtUri_eq_some hq
    rw [Bool.and_eq_true, beq_iff_eq, beq_iff_eq] at hcond
    obtain ⟨hclaimed, hactor⟩ := hcond
    obtain ⟨hapq, hb⟩ := record_of_claimed hrows hq hat hclaimed
    rw [← hsender, Option.some.injEq] at hactor
    exact ⟨p, hp, hid, hap, hsender, hactor ▸ hb, q, hq, rfl, hapq, .inl hat⟩

end Search

section Begin

theorem begin_create (hmem : .create a X c ∈ A) (h : Fresh posts i) :
    ProcOk A posts i (Proc.begin ⟨.create a X c, i, phase⟩ posts) := by
  simp only [Proc.begin]
  split
  · rename_i hhas
    obtain ⟨p, hp, hor⟩ := List.any_eq_true.mp hhas
    rw [Bool.or_eq_true, beq_iff_eq, beq_iff_eq] at hor
    exact ⟨hmem, rfl, hor.imp (fun hap => ⟨p, hp, hap⟩) fun hat => ⟨p, hp, hat⟩⟩
  · exact ⟨hmem, rfl, h, .inl rfl⟩

theorem begin_update (hmem : .update sender X Y ∈ A) :
    ProcOk A posts i (Proc.begin ⟨.update sender X Y, row, phase⟩ posts) := by
  simp only [Proc.begin]
  cases hq : byApObjectId posts X with
  | none => exact ⟨hmem, trivial⟩
  | some q =>
    obtain ⟨hq, hap⟩ := byApObjectId_eq_some hq
    simp only
    split
    · rename_i hne
      exact ⟨hmem, q, hq, hap, Ne.symm hne⟩
    · rename_i heq
      have hsender : some q.actorId = sender := (not_not.mp heq).symm
      split
      · rename_i hat
        exact ⟨hmem, q.id, q, hq, rfl, hap, hsender, Option.isSome_iff_exists.mp hat⟩
      · exact ⟨hmem, q, hq, rfl, hap, hsender, .inl rfl⟩

theorem begin_bsky (hmem : .bsky b Y d ∈ A) (h : Fresh posts i) :
    ProcOk A posts i (Proc.begin ⟨.bsky b Y d, i, phase⟩ posts) := by
  simp only [Proc.begin]
  split
  · rename_i hhas
    obtain ⟨q, hq⟩ := Option.isSome_iff_exists.mp hhas
    obtain ⟨hq, hat⟩ := byAtUri_eq_some hq
    exact ⟨hmem, rfl, q, hq, hat⟩
  · exact ⟨hmem, rfl, h, .inl rfl⟩

end Begin

section Write

variable (hA : Agree A) (hu : schema.Unique posts) (hrows : ∀ p ∈ posts, RowOk A p) {n : Nat}

/-- A write of one row by its identifier -/
theorem Later.set {t : Int64} {f : Post → Post} (hid : ∀ p, (f p).id = p.id)
    (hnote : ∀ p ∈ posts, p.id = t → ∀ X, p.apObjectId = some X → Grown A X p (f p))
    (hrecord : ∀ p ∈ posts, p.id = t → ∀ Y, p.atUri = some Y → (f p).atUri = some Y ∧
      ((f p).apObjectId = p.apObjectId ∨ ∃ a X, (f p).apObjectId = some X ∧
        .create a X (some Y) ∈ A ∧ .bsky a Y (some X) ∈ A))
    (hdoomed : ∀ p ∈ posts, p.id = t → p.deleted = true → (f p).apObjectId = p.apObjectId ∧
      (f p).deleted = true) : Later A i posts (schema.set posts t f) where
  fresh p' hp' := by
    obtain ⟨p, hp, rfl⟩ := Schema.mem_set.mp hp'
    refine .inr ⟨p, hp, ?_⟩
    split
    · exact (hid p).symm
    · rfl
  note p hp X hap := by
    by_cases ht : p.id = t
    · exact ⟨f p, Schema.mem_set_of_eq hp ht, hnote p hp ht X hap⟩
    · exact ⟨p, Schema.mem_set_of_ne hp ht, .refl hap⟩
  record p hp Y hat := by
    by_cases ht : p.id = t
    · exact .inl ⟨f p, Schema.mem_set_of_eq hp ht, hid p, hrecord p hp ht Y hat⟩
    · exact .inl ⟨p, Schema.mem_set_of_ne hp ht, rfl, hat, .inl rfl⟩
  doomed p hp hap hdel := by
    by_cases ht : p.id = t
    · obtain ⟨hap', hdel'⟩ := hdoomed p hp ht hdel
      exact ⟨f p, Schema.mem_set_of_eq hp ht, hid p, hap'.trans hap, hdel'⟩
    · exact ⟨p, Schema.mem_set_of_ne hp ht, rfl, hap, hdel⟩

theorem rows_set {t : Int64} {f : Post → Post} (hrows : ∀ p ∈ posts, RowOk A p)
    (hf : ∀ p ∈ posts, p.id = t → RowOk A (f p)) : ∀ p ∈ schema.set posts t f, RowOk A p := by
  intro p' hp'
  obtain ⟨p, hp, rfl⟩ := Schema.mem_set.mp hp'
  split
  · rename_i ht
    exact hf p hp ht
  · exact hrows p hp

/-- What a write that is committed leaves to its arrival and to the others -/
structure Written (A : Set Arrival) (i : Int64) (posts' : List Post) (posts : List Post)
    (pr : Proc) : Prop where
  unique : schema.Unique posts'
  rows : ∀ p ∈ posts', RowOk A p
  later : Later A i posts posts'
  proc : ProcOk A posts' i pr

include hA hu hrows

theorem insert_create (hmem : .create a X c ∈ A)
    (hs : Proc.statement ⟨.create a X c, i, phase⟩ posts none = some posts') :
    Written A i posts' posts ⟨.create a X c, i, .confirm⟩ := by
  simp only [Proc.statement, insertOrSkip] at hs
  split at hs
  · rename_i hany
    cases hs
    obtain ⟨p, hp, hap⟩ := List.any_eq_true.mp hany
    exact ⟨hu, hrows, .refl, hmem, rfl, p, hp, beq_iff_eq.mp hap⟩
  · obtain ⟨hu', rfl⟩ := Schema.insert_eq_some.mp hs
    refine ⟨hu', fun p hp => ?_, .append rfl, hmem, rfl, _, List.mem_append_right _
      (List.mem_singleton.mpr rfl), rfl⟩
    rcases List.mem_append.mp hp with hp | hp
    · exact hrows p hp
    · rw [List.mem_singleton.mp hp]
      refine .note X c rfl rfl rfl rfl hmem ?_ fun Y hc hb => ?_
      · intro Y hY
        cases hY
        exact ⟨.inl hmem, _, hmem⟩
      · exact (hA.settled ⟨.inl hc, hb⟩).creates hc hmem

/-- The insertion of a note fails on the record that claims it. -/
theorem insert_create_none (hmem : .create a X c ∈ A)
    (h : CreateOk A posts i a X c (.write n none))
    (hs : Proc.statement ⟨.create a X c, i, phase⟩ posts none = none) :
    n = 1 ∧ CreateOk A posts i a X c (.search 2) := by
  obtain ⟨hf, hn⟩ := h
  simp only [Proc.statement, insertOrSkip] at hs
  split at hs
  · cases hs
  · rename_i hany
    have hnone : ∀ q ∈ posts, q.apObjectId ≠ some X := fun q hq hap =>
      hany (List.any_eq_true.mpr ⟨q, hq, beq_iff_eq.mpr hap⟩)
    have hn1 : n = 1 := by
      rcases hn with hn | ⟨-, q, hq, hap⟩
      · exact hn
      · exact absurd hap (hnone q hq)
    refine ⟨hn1, hf, .inr ⟨rfl, ?_⟩⟩
    obtain ⟨q, hq, k, hk, hkq⟩ := Schema.insert_eq_none hu (nodup_keys _) hs
    rcases shared_key hk hkq with hid | ⟨ap, hap, hapq⟩ | ⟨uri, hat, -⟩ | ⟨ap, Y, hcl, hclq⟩
    · exact absurd hid.symm (hf q hq)
    · cases hap
      exact absurd hapq (hnone q hq)
    · cases hat
    · obtain ⟨-, hap, hc⟩ := mutualClaim_eq_some.mp hcl
      cases hap
      have hc : c = some Y := hc
      subst hc
      rcases (hrows q hq).of_mutualClaim hclq with hap | ⟨hat, hb⟩
      · exact absurd hap (hnone q hq)
      · have ha : a = q.actorId := hA.author ⟨.inl hmem, _, hmem⟩ hb
        exact ⟨Y, rfl, ha ▸ hb, q, hq, hat⟩

/-- The record found becomes the note. -/
theorem merge_create (hmem : .create a X c ∈ A) {t : Int64}
    (h : CreateOk A posts i a X c (.write n (some t)))
    (hs : Proc.statement ⟨.create a X c, i, phase⟩ posts (some t) = some posts') :
    Written A i posts' posts ⟨.create a X c, i, .confirm⟩ := by
  obtain ⟨Y, rfl, hb, p, hp, hid, hat⟩ := h
  obtain ⟨hu', rfl⟩ := Schema.update_eq_some.mp hs
  have hc : Couple A a X Y := ⟨.inl hmem, hb⟩
  have honly : ∀ q ∈ posts, q.id = t → q = p := fun q hq hq' => eq_of_id hu hq hp (hq'.trans hid.symm)
  obtain ⟨ha, hkind⟩ := claimed_or_note hA hrows hc hp hat
  obtain ⟨hof, hlive⟩ := (hrows p hp).of_atUri hat
  have hap : p.apObjectId = none ∨ p.apObjectId = some X := by
    rcases hkind with h | ⟨h, -⟩
    · exact .inl (record_of_claimed hrows hp hat h).1
    · exact .inr h
  have hclaim : ∀ Z, p.claimedAtUri = some Z → Z = Y := by
    rcases hof with ⟨-, hnone, -⟩ | ⟨-, -, -, -, -, h⟩
    · intro Z hZ
      rw [hnone] at hZ
      cases hZ
    · exact h
  refine ⟨hu', rows_set hrows fun q hq hq' => ?_, .set (fun _ => rfl) (fun q hq hq' X' hapq => ?_)
    (fun q hq hq' Y' hatq => ?_) (fun q hq hq' hdel => ?_), hmem, rfl, _,
    Schema.mem_set_of_eq hp hid, rfl⟩
  · rw [honly q hq hq']
    refine .both X Y rfl hat hlive ?_ ?_ rfl hclaim
    · exact ha.symm ▸ ⟨.inl hmem, _, hmem⟩
    · exact ha.symm ▸ hb
  · rw [honly q hq hq'] at hapq ⊢
    rcases hap with hap | hap
    · rw [hap] at hapq
      cases hapq
    · rw [hap] at hapq
      cases hapq
      exact ⟨rfl, rfl, rfl, fun _ h => h, fun _ _ h => h⟩
  · rw [honly q hq hq'] at hatq ⊢
    rw [hat] at hatq
    cases hatq
    exact ⟨hat, .inr ⟨a, X, rfl, hmem, hb⟩⟩
  · rw [honly q hq hq', hlive] at hdel
    cases hdel

theorem merge_create_none (hmem : .create a X c ∈ A) {t : Int64}
    (h : CreateOk A posts i a X c (.write n (some t))) :
    Proc.statement ⟨.create a X c, i, phase⟩ posts (some t) ≠ none := by
  intro hs
  obtain ⟨Y, rfl, hb, p, hp, hid, hat⟩ := h
  obtain ⟨r, hr, hrt, q, hq, hqt, k, hk, hkq⟩ := Schema.update_eq_none hu (fun _ => nodup_keys _) hs
  have hrp : r = p := eq_of_id hu hr hp (hrt.trans hid.symm)
  subst hrp
  have hne : q ≠ r := fun heq => hqt (heq ▸ hrt)
  rcases shared_key hk hkq with h | ⟨ap, hap, hapq⟩ | ⟨uri, hatr, hatq⟩ | ⟨ap, uri, hcl, hclq⟩
  · exact hne (eq_of_id hu hq hr h.symm)
  · cases hap
    exact hne (eq_of_create hA hu hrows hmem hb hq hapq hr hat)
  · exact hne (eq_of_atUri hu hq hr hatq hatr)
  · obtain ⟨-, hap, huri⟩ := mutualClaim_eq_some.mp hcl
    cases hap
    rcases (hrows q hq).of_mutualClaim hclq with hap | ⟨hatq, -⟩
    · exact hne (eq_of_create hA hu hrows hmem hb hq hap hr hat)
    · rw [hat] at huri
      cases huri
      exact hne (eq_of_atUri hu hq hr hatq hat)

theorem claim_update (hmem : .update sender X Y ∈ A)
    (h : UpdateOk A posts row sender X Y (.write n none))
    (hs : Proc.statement ⟨.update sender X Y, row, phase⟩ posts none = some posts') :
    Written A i posts' posts ⟨.update sender X Y, row, .ended .claimed⟩ := by
  obtain ⟨p, hp, hid, hap, hsender, -⟩ := h
  obtain ⟨hu', rfl⟩ := Schema.update_eq_some.mp hs
  have honly : ∀ q ∈ posts, q.id = row → q = p :=
    fun q hq hq' => eq_of_id hu hq hp (hq'.trans hid.symm)
  obtain ⟨c, hcreate⟩ := (hrows p hp).created hap
  have hupdate : .update (some p.actorId) X Y ∈ A := hsender ▸ hmem
  have hone : ∀ Z, Couple A p.actorId X Z → Z = Y := fun Z hc =>
    ((hA.settled hc).updates hupdate).symm
  refine ⟨hu', rows_set hrows fun q hq hq' => ?_, .set (fun _ => rfl) (fun q hq hq' X' hapq => ?_)
    (fun q hq hq' Y' hatq => ⟨hatq, .inl rfl⟩) (fun q hq hq' hdel => ⟨rfl, hdel⟩), hmem,
    ⟨_, Schema.mem_set_of_eq hp hid, hap⟩,
    fun a ha hc => ⟨_, Schema.mem_set_of_eq hp hid, hap, ?_, .inl rfl⟩⟩
  · rw [honly q hq hq']
    cases hrows p hp with
    | note X' c' hap' hat hclaimed hlive hmem' hclaim hkept =>
      rw [hap] at hap'
      cases hap'
      refine .note X c' hap hat hclaimed hlive hmem' (fun Z hZ => ?_) fun Z hc hb => ?_
      · cases hZ
        exact ⟨.inr hupdate, c, hcreate⟩
      · rw [hone Z ⟨.inl hc, hb⟩]
    | record _ hap' => rw [hap'] at hap; cases hap
    | both X' Z hap' hat hlive hclaims hb hclaimed hclaim =>
      rw [hap] at hap'
      cases hap'
      refine .both X Z hap hat hlive hclaims hb hclaimed fun W hW => ?_
      cases hW
      exact (hone Z (hclaims.couple hb)).symm
    | doomed hap' => rw [hap'] at hap; cases hap
  · rw [honly q hq hq'] at hapq ⊢
    rw [hap] at hapq
    cases hapq
    refine ⟨rfl, rfl, hap, fun _ h => h, fun Z hc hlinked => ?_⟩
    rw [hone Z hc]
    exact .inl rfl
  · rw [ha] at hsender
    exact Option.some.inj hsender

/-- The claim of an `Update` fails on the record that returns it. -/
theorem claim_update_none (hmem : .update sender X Y ∈ A)
    (h : UpdateOk A posts row sender X Y (.write n none))
    (hs : Proc.statement ⟨.update sender X Y, row, phase⟩ posts none = none) :
    n = 1 ∧ UpdateOk A posts row sender X Y (.search 2) := by
  obtain ⟨p, hp, hid, hap, hsender, hn⟩ := h
  obtain ⟨r, hr, hrt, q, hq, hqt, k, hk, hkq⟩ := Schema.update_eq_none hu (fun _ => nodup_keys _) hs
  have hrp : r = p := eq_of_id hu hr hp (hrt.trans hid.symm)
  subst hrp
  have hne : q ≠ r := fun heq => hqt (heq ▸ hrt)
  obtain ⟨c, hcreate⟩ := (hrows r hr).created hap
  rcases shared_key hk hkq with h | ⟨ap, hapr, hapq⟩ | ⟨uri, hatr, hatq⟩ | ⟨ap, uri, hcl, hclq⟩
  · exact absurd (eq_of_id hu hq hr h.symm) hne
  · exact absurd (eq_of_apObjectId hu hq hr hapq hapr) hne
  · exact absurd (eq_of_atUri hu hq hr hatq hatr) hne
  · obtain ⟨-, hap', huri⟩ := mutualClaim_eq_some.mp hcl
    have hX : ap = X := by
      rw [show (r.apObjectId <|> r.claimedApObjectId) = some X by rw [hap]; rfl] at hap'
      exact (Option.some.inj hap').symm
    subst hX
    rcases (hrows q hq).of_mutualClaim hclq with hapq | ⟨hatq, hb⟩
    · exact absurd (eq_of_apObjectId hu hq hr hapq hap) hne
    · cases hatr : r.atUri with
      | some Z =>
        rw [hatr] at huri
        cases huri
        exact absurd (eq_of_atUri hu hq hr hatq hatr) hne
      | none =>
        rw [hatr] at huri
        cases huri
        have ha : r.actorId = q.actorId := hA.author ⟨.inr (hsender ▸ hmem), c, hcreate⟩ hb
        have hn1 : n = 1 := by
          rcases hn with hn | ⟨-, hat⟩
          · exact hn
          · rw [hatr] at hat
            cases hat
        exact ⟨hn1, r, hr, hid, hap, hsender, .inr ⟨rfl, ha ▸ hb, q, hq, hatq⟩⟩

omit hA in
theorem insert_bsky (hmem : .bsky b Y d ∈ A)
    (hs : Proc.statement ⟨.bsky b Y d, i, phase⟩ posts none = some posts') :
    Written A i posts' posts ⟨.bsky b Y d, i, .ended .inserted⟩ := by
  simp only [Proc.statement, insertOrSkip] at hs
  split at hs
  · rename_i hany
    cases hs
    obtain ⟨p, hp, hat⟩ := List.any_eq_true.mp hany
    exact ⟨hu, hrows, .refl, hmem, rfl, p, hp, beq_iff_eq.mp hat⟩
  · obtain ⟨hu', rfl⟩ := Schema.insert_eq_some.mp hs
    refine ⟨hu', fun p hp => ?_, .append rfl, hmem, rfl, _, List.mem_append_right _
      (List.mem_singleton.mpr rfl), rfl⟩
    rcases List.mem_append.mp hp with hp | hp
    · exact hrows p hp
    · rw [List.mem_singleton.mp hp]
      exact .record Y rfl rfl rfl rfl hmem

/-- The insertion of a record fails on the note that claims it. -/
theorem insert_bsky_none (hmem : .bsky b Y d ∈ A) (h : BskyOk A posts i b Y d (.write n none))
    (hs : Proc.statement ⟨.bsky b Y d, i, phase⟩ posts none = none) :
    n = 1 ∧ BskyOk A posts i b Y d (.search 2) := by
  obtain ⟨hf, hn⟩ := h
  simp only [Proc.statement, insertOrSkip] at hs
  split at hs
  · cases hs
  · rename_i hany
    have hnone : ∀ q ∈ posts, q.atUri ≠ some Y := fun q hq hat =>
      hany (List.any_eq_true.mpr ⟨q, hq, beq_iff_eq.mpr hat⟩)
    have hn1 : n = 1 := by
      rcases hn with hn | ⟨-, q, hq, hat⟩
      · exact hn
      · exact absurd hat (hnone q hq)
    refine ⟨hn1, hf, .inr ⟨rfl, ?_⟩⟩
    obtain ⟨q, hq, k, hk, hkq⟩ := Schema.insert_eq_none hu (nodup_keys _) hs
    rcases shared_key hk hkq with hid | ⟨ap, hap, -⟩ | ⟨uri, hat, hatq⟩ | ⟨X, uri, hcl, hclq⟩
    · exact absurd hid.symm (hf q hq)
    · cases hap
    · cases hat
      exact absurd hatq (hnone q hq)
    · obtain ⟨-, hX, hat⟩ := mutualClaim_eq_some.mp hcl
      cases hat
      have hd : d = some X := hX
      subst hd
      rcases (hrows q hq).of_mutualClaim hclq with hap | ⟨hat, -⟩
      · have hlinked : Linked q Y := by
          obtain ⟨-, -, hatq⟩ := mutualClaim_eq_some.mp hclq
          cases hq' : q.atUri with
          | none =>
            rw [hq'] at hatq
            exact .inl hatq
          | some Z =>
            rw [hq'] at hatq
            exact .inr (hq'.trans hatq)
        have hclaims : Claims A q.actorId X Y := (hrows q hq).claims hap hlinked
        have hb : q.actorId = b := hA.author hclaims hmem
        exact ⟨X, rfl, hb ▸ hclaims, q, hq, hap, hb, hlinked⟩
      · exact absurd hat (hnone q hq)

/-- The note found gets the record. -/
theorem merge_bsky (hmem : .bsky b Y d ∈ A) {t : Int64}
    (h : BskyOk A posts i b Y d (.write n (some t)))
    (hs : Proc.statement ⟨.bsky b Y d, i, phase⟩ posts (some t) = some posts') :
    Written A i posts' posts ⟨.bsky b Y d, i, .ended .merged⟩ := by
  obtain ⟨X, rfl, hclaims, p, hp, hid, hap, hactor, hlinked⟩ := h
  cases Option.some.inj hactor
  obtain ⟨hu', rfl⟩ := Schema.update_eq_some.mp hs
  have hc : Couple A p.actorId X Y := hclaims.couple hmem
  have honly : ∀ q ∈ posts, q.id = t → q = p := fun q hq hq' => eq_of_id hu hq hp (hq'.trans hid.symm)
  have hlive : p.deleted = false := (hrows p hp).live hap
  have hclaimed : p.claimedApObjectId = none := by
    cases hrows p hp with
    | note _ _ _ _ hclaimed => exact hclaimed
    | record _ hap' => rw [hap'] at hap; cases hap
    | both _ _ _ _ _ _ _ hclaimed => exact hclaimed
    | doomed hap' => rw [hap'] at hap; cases hap
  have hat : ∀ Z, p.atUri = some Z → Z = Y := by
    intro Z hZ
    obtain ⟨⟨hnone, -⟩ | ⟨X', hap', hclaims', hb, -⟩, -⟩ := (hrows p hp).of_atUri hZ
    · rw [hap] at hnone
      cases hnone
    · rw [hap] at hap'
      cases hap'
      exact hA.couple_unique hc (hclaims'.couple hb)
  refine ⟨hu', rows_set hrows fun q hq hq' => ?_, .set (fun _ => rfl) (fun q hq hq' X' hapq => ?_)
    (fun q hq hq' Y' hatq => ?_) (fun q hq hq' hdel => ?_), hmem, rfl, _,
    Schema.mem_set_of_eq hp hid, rfl⟩
  · rw [honly q hq hq']
    exact .both X Y hap rfl hlive hclaims hmem hclaimed nofun
  · rw [honly q hq hq'] at hapq ⊢
    rw [hap] at hapq
    cases hapq
    refine ⟨rfl, rfl, hap, fun Z hZ => ?_, fun Z hcZ _ => ?_⟩
    · rw [hat Z hZ]
    · rw [hA.couple_unique hc hcZ]
      exact .inr rfl
  · rw [honly q hq hq'] at hatq ⊢
    rw [hat Y' hatq]
    exact ⟨rfl, .inl rfl⟩
  · rw [honly q hq hq', hlive] at hdel
    cases hdel

theorem merge_bsky_none (hmem : .bsky b Y d ∈ A) {t : Int64}
    (h : BskyOk A posts i b Y d (.write n (some t))) :
    Proc.statement ⟨.bsky b Y d, i, phase⟩ posts (some t) ≠ none := by
  intro hs
  obtain ⟨X, rfl, hclaims, p, hp, hid, hap, hactor, hlinked⟩ := h
  cases Option.some.inj hactor
  have hc : Couple A p.actorId X Y := hclaims.couple hmem
  obtain ⟨r, hr, hrt, q, hq, hqt, k, hk, hkq⟩ := Schema.update_eq_none hu (fun _ => nodup_keys _) hs
  have hrp : r = p := eq_of_id hu hr hp (hrt.trans hid.symm)
  subst hrp
  have hne : r ≠ q := fun heq => hqt (heq ▸ hrt)
  rcases shared_key hk hkq with h | ⟨ap, hapr, hapq⟩ | ⟨uri, hatr, hatq⟩ | ⟨ap, uri, hcl, hclq⟩
  · exact hne (eq_of_id hu hr hq h)
  · exact hne (eq_of_apObjectId hu hr hq hapr hapq)
  · cases hatr
    exact hne (eq_of_linked hA hu hrows hc hr hap hlinked hq hatq)
  · obtain ⟨-, hap', huri⟩ := mutualClaim_eq_some.mp hcl
    cases huri
    rw [show (r.apObjectId <|> r.claimedApObjectId) = some X by rw [hap]; rfl] at hap'
    cases hap'
    rcases (hrows q hq).of_mutualClaim hclq with hapq | ⟨hatq, -⟩
    · exact hne (eq_of_apObjectId hu hr hq hap hapq)
    · exact hne (eq_of_linked hA hu hrows hc hr hap hlinked hq hatq)

end Write

section Finalize

variable {survivor doomed : Int64}

theorem set_eq_map (f : Post → Post) : schema.set posts i f = posts.map (onId i f) := by
  refine List.map_congr_left fun p _ => ?_
  by_cases h : p.id = i <;> simp [onId, schema, h]

theorem finalizedRow_doomed (hne : doomed ≠ survivor) (hid : p.id = doomed) :
    finalizedRow survivor doomed X Y p = markMerged survivor (clearUris p) := by
  simp [finalizedRow, onId, hid, clearUris, hne]

theorem finalizedRow_survivor (hne : doomed ≠ survivor) (hid : p.id = survivor) :
    finalizedRow survivor doomed X Y p = takeUris X Y p := by
  simp [finalizedRow, onId, hid, takeUris, hne.symm]

theorem finalizedRow_other (hd : p.id ≠ doomed) (hs : p.id ≠ survivor) :
    finalizedRow survivor doomed X Y p = p := by
  simp [finalizedRow, onId, hd, hs]

/-- The three `UPDATE`s, if none of them meets a key of another row -/
theorem finalizePostMerge_eq (hu : schema.Unique posts)
    (hclear : ∀ q ∈ posts, q.id = doomed → q.deleted = true ∨ q.claimedAtUri = none)
    (htake : ∀ q ∈ posts, q.id ≠ survivor → q.id ≠ doomed → q.apObjectId ≠ some X ∧
      q.atUri ≠ some Y ∧ q.mutualClaim ≠ some (X, Y)) :
    finalizePostMerge posts survivor doomed X Y =
        some (posts.map (finalizedRow survivor doomed X Y)) ∧
      schema.Unique (posts.map (finalizedRow survivor doomed X Y)) := by
  have hclearKeys : ∀ q ∈ posts, q.id = doomed → (clearUris q).keys = [.id q.id] := by
    intro q hq hid
    rcases hclear q hq hid with h | h <;> simp [Post.keys, clearUris, Post.mutualClaim, h]
  obtain ⟨h₁, hu₁⟩ := Schema.update_of_subset (S := schema) hu (fun _ => nodup_keys (clearUris _))
    (i := doomed) fun q hq hid k hk => by
      have hk : k ∈ (clearUris q).keys := hk
      rw [hclearKeys q hq hid, List.mem_singleton] at hk
      exact hk ▸ id_mem_keys q
  have h₂ : schema.update (schema.set posts doomed clearUris) survivor (takeUris X Y) ≠ none := by
    intro hs
    obtain ⟨r, hr, hrid, q, hq, hqid, k, hk, hkq⟩ :=
      Schema.update_eq_none hu₁ (fun _ => nodup_keys _) hs
    obtain ⟨q₀, hq₀, rfl⟩ := Schema.mem_set.mp hq
    by_cases hd : schema.id q₀ = doomed
    · rw [if_pos hd] at hkq hqid
      have hkq : k ∈ (clearUris q₀).keys := hkq
      rw [hclearKeys q₀ hq₀ hd, List.mem_singleton] at hkq
      have hk : k ∈ (takeUris X Y r).keys := hk
      rw [hkq] at hk
      have hid : q₀.id = (takeUris X Y r).id := id_mem_keys_iff.mp hk
      exact hqid (hid.trans hrid)
    · rw [if_neg hd] at hkq hqid
      obtain ⟨hap, hat, hcl⟩ := htake q₀ hq₀ hqid hd
      rcases shared_key hk hkq with h | ⟨ap, h, h'⟩ | ⟨uri, h, h'⟩ | ⟨ap, uri, h, h'⟩
      · exact hqid (h.symm.trans hrid)
      · cases h
        exact hap h'
      · cases h
        exact hat h'
      · obtain ⟨-, h, huri⟩ := mutualClaim_eq_some.mp h
        cases h
        cases huri
        exact hcl h'
  obtain ⟨posts₂, h₂⟩ := Option.ne_none_iff_exists'.mp h₂
  obtain ⟨hu₂, rfl⟩ := Schema.update_eq_some.mp h₂
  obtain ⟨h₃, hu₃⟩ := Schema.update_of_subset (S := schema) hu₂
    (fun _ => nodup_keys (markMerged survivor _)) (i := doomed) fun q _ _ k hk => by
      have hk : k ∈ (markMerged survivor q).keys := hk
      show k ∈ q.keys
      simp only [Post.keys, markMerged, Post.mutualClaim, if_true, Option.map_none,
        Option.toList_none, List.append_nil] at hk
      simp only [Post.keys]
      rcases List.mem_cons.mp hk with rfl | hk
      · exact List.mem_cons_self
      · exact List.mem_cons_of_mem _ (List.mem_append_left _ hk)
  have hmap : schema.set (schema.set (schema.set posts doomed clearUris) survivor (takeUris X Y))
      doomed (markMerged survivor) = posts.map (finalizedRow survivor doomed X Y) := by
    rw [set_eq_map, set_eq_map, set_eq_map, List.map_map, List.map_map]
    rfl
  rw [hmap] at h₃ hu₃
  refine ⟨?_, hu₃⟩
  show (schema.update posts doomed clearUris).bind _ = _
  rw [h₁]
  show (schema.update _ survivor (takeUris X Y)).bind _ = _
  rw [h₂]
  exact h₃

variable (hA : Agree A) (hu : schema.Unique posts) (hrows : ∀ p ∈ posts, RowOk A p)

include hA hu hrows

theorem finalize_update (hmem : .update sender X Y ∈ A)
    (h : UpdateOk A posts row sender X Y (.finalize doomed)) :
    ∃ posts', Proc.finalize ⟨.update sender X Y, row, phase⟩ posts doomed = some posts' ∧
      Written A i posts' posts ⟨.update sender X Y, row, .ended .merged⟩ := by
  obtain ⟨p, hp, rfl, hap, rfl, hb, q, hq, rfl, hapq, hqkind⟩ := h
  obtain ⟨c, hcreate⟩ := (hrows p hp).created hap
  have hc : Couple A p.actorId X Y := ⟨.inr ⟨hmem, _, c, hcreate⟩, hb⟩
  have hone : ∀ r ∈ posts, r.id = p.id → r = p := fun r hr hid => eq_of_id hu hr hp hid
  have hdone : ∀ r ∈ posts, r.id = q.id → r = q := fun r hr hid => eq_of_id hu hr hq hid
  have hne : q.id ≠ p.id := by
    intro hid
    rw [hone q hq hid, hap] at hapq
    cases hapq
  have hat : ∀ Z, p.atUri = some Z → Z = Y := by
    intro Z hZ
    obtain ⟨⟨hnone, -⟩ | ⟨X', hap', hclaims', hb', -⟩, -⟩ := (hrows p hp).of_atUri hZ
    · rw [hap] at hnone
      cases hnone
    · rw [hap] at hap'
      cases hap'
      exact hA.couple_unique hc (hclaims'.couple hb')
  have huri : ∀ r ∈ posts, r.id ≠ p.id → r.id ≠ q.id → r.atUri ≠ some Y := by
    intro r hr hrp hrq hatr
    rcases hqkind with hatq | ⟨-, hatp⟩
    · exact hrq (congrArg Post.id (eq_of_atUri hu hr hq hatr hatq))
    · exact hrp (congrArg Post.id (eq_of_atUri hu hr hp hatr hatp))
  have hclear : ∀ r ∈ posts, r.id = q.id → r.deleted = true ∨ r.claimedAtUri = none := by
    intro r hr hid
    rw [hdone r hr hid]
    cases hrows q hq with
    | note _ _ hap' => rw [hap'] at hapq; cases hapq
    | record _ _ _ hclaimed => exact .inr hclaimed
    | both _ _ hap' => rw [hap'] at hapq; cases hapq
    | doomed _ _ hdel => exact .inl hdel
  have htake : ∀ r ∈ posts, r.id ≠ p.id → r.id ≠ q.id → r.apObjectId ≠ some X ∧
      r.atUri ≠ some Y ∧ r.mutualClaim ≠ some (X, Y) := by
    intro r hr hrp hrq
    have hapr : r.apObjectId ≠ some X := fun h =>
      hrp (congrArg Post.id (eq_of_apObjectId hu hr hp h hap))
    refine ⟨hapr, huri r hr hrp hrq, fun hcl => ?_⟩
    rcases (hrows r hr).of_mutualClaim hcl with h | ⟨h, -⟩
    · exact hapr h
    · exact huri r hr hrp hrq h
  obtain ⟨hfinal, hu'⟩ := finalizePostMerge_eq hu hclear htake
  have hsurvivor : takeUris X Y p ∈ posts.map (finalizedRow p.id q.id X Y) :=
    List.mem_map.mpr ⟨p, hp, finalizedRow_survivor hne rfl⟩
  have hdoomed : Doomed (posts.map (finalizedRow p.id q.id X Y)) q.id :=
    ⟨_, List.mem_map.mpr ⟨q, hq, finalizedRow_doomed hne rfl⟩, rfl, rfl, rfl⟩
  have hother : ∀ r ∈ posts, r.id ≠ p.id → r.id ≠ q.id →
      r ∈ posts.map (finalizedRow p.id q.id X Y) := fun r hr hrp hrq =>
    List.mem_map.mpr ⟨r, hr, finalizedRow_other hrq hrp⟩
  refine ⟨_, hfinal, hu', fun r' hr' => ?_, ⟨fun r' hr' => ?_, fun r hr Z hapr => ?_,
    fun r hr Z hatr => ?_, fun r hr hapr hdel => ?_⟩, hmem,
    ⟨_, hsurvivor, rfl⟩, fun a ha _ => ?_⟩
  · obtain ⟨r, hr, rfl⟩ := List.mem_map.mp hr'
    by_cases hrq : r.id = q.id
    · rw [finalizedRow_doomed hne hrq]
      exact .doomed rfl rfl rfl
    · by_cases hrp : r.id = p.id
      · rw [finalizedRow_survivor hne hrp, hone r hr hrp]
        exact .both X Y rfl rfl ((hrows p hp).live hap) ⟨.inr hmem, c, hcreate⟩ hb rfl nofun
      · rw [finalizedRow_other hrq hrp]
        exact hrows r hr
  · obtain ⟨r, hr, rfl⟩ := List.mem_map.mp hr'
    exact .inr ⟨r, hr, (finalizedRow_id r).symm⟩
  · have hrq : r.id ≠ q.id := by
      intro hid
      rw [hdone r hr hid, hapq] at hapr
      cases hapr
    by_cases hrp : r.id = p.id
    · rw [hone r hr hrp] at hapr ⊢
      rw [hap] at hapr
      cases hapr
      refine ⟨_, hsurvivor, rfl, rfl, rfl, fun W hW => ?_, fun W hcW _ => ?_⟩
      · rw [hat W hW]
        rfl
      · rw [hA.couple_unique hc hcW]
        exact .inr rfl
    · exact ⟨r, hother r hr hrp hrq, .refl hapr⟩
  · by_cases hrq : r.id = q.id
    · rw [hdone r hr hrq] at hatr ⊢
      rcases hqkind with hatq | ⟨hdel, -⟩
      · rw [hatq] at hatr
        cases hatr
        exact .inr ⟨hapq, hdoomed, p, hp, X, hap, hc, _, hsurvivor, rfl, rfl⟩
      · obtain ⟨-, hlive⟩ := (hrows q hq).of_atUri hatr
        rw [hdel] at hlive
        cases hlive
    · by_cases hrp : r.id = p.id
      · rw [hone r hr hrp] at hatr ⊢
        exact .inl ⟨_, hsurvivor, rfl, (hat Z hatr).symm ▸ rfl, .inl hap.symm⟩
      · exact .inl ⟨r, hother r hr hrp hrq, rfl, hatr, .inl rfl⟩
  · by_cases hrq : r.id = q.id
    · rw [hrq]
      exact hdoomed
    · have hrp : r.id ≠ p.id := by
        intro hid
        rw [hone r hr hid, hap] at hapr
        cases hapr
      exact ⟨r, hother r hr hrp hrq, rfl, hapr, hdel⟩
  · cases Option.some.inj ha
    exact ⟨_, hsurvivor, rfl, rfl, .inr rfl⟩

end Finalize

section Step

variable {s s' : State} {pr : Proc}

theorem Inv.move (hA : Agree A) (h : Inv A s) (hw : Written A i posts' s.posts pr) :
    Inv A (s.setProc i posts' pr) where
  unique := hw.unique
  rows := hw.rows
  procs j pr' hj := by
    change Function.update s.procs i (some pr) j = some pr' at hj
    by_cases hij : j = i
    · subst hij
      rw [Function.update_self] at hj
      cases hj
      exact hw.proc
    · rw [Function.update_of_ne hij] at hj
      exact hw.later.keep hA h.unique h.rows hw.unique (Ne.symm hij) (h.procs j pr' hj)

/-- A statement that leaves the table as it is -/
theorem Inv.stay (hA : Agree A) (h : Inv A s) (hpr : ProcOk A s.posts i pr) :
    Inv A (s.setProc i s.posts pr) :=
  h.move hA ⟨h.unique, h.rows, .refl, hpr⟩

theorem inv_create (hA : Agree A) (h : Inv A s)
    (hp : s.procs i = some ⟨.create a X c, row, phase⟩)
    (hs : s.runProc i ⟨.create a X c, row, phase⟩ = some s') : Inv A s' := by
  obtain ⟨hmem, hrow, hok⟩ := h.procs i _ hp
  have hmem : .create a X c ∈ A := hmem
  have hrow : row = i := hrow
  subst hrow
  cases phase with
  | start =>
    cases hs
    exact h.stay hA (begin_create hmem hok)
  | search n =>
    cases hs
    exact h.stay hA ⟨hmem, rfl, search_create hA h.unique h.rows hmem hok⟩
  | write n found =>
    simp only [State.runProc] at hs
    cases found with
    | none =>
      cases hst : Proc.statement ⟨.create a X c, row, .write n none⟩ s.posts none with
      | none =>
        rw [hst] at hs
        cases hs
        obtain ⟨rfl, hok'⟩ := insert_create_none hA h.unique h.rows hmem hok hst
        exact h.stay hA ⟨hmem, rfl, hok'⟩
      | some posts' =>
        rw [hst] at hs
        cases hs
        exact h.move hA (insert_create hA h.unique h.rows hmem hst)
    | some t =>
      cases hst : Proc.statement ⟨.create a X c, row, .write n (some t)⟩ s.posts (some t) with
      | none => exact absurd hst (merge_create_none hA h.unique h.rows hmem hok)
      | some posts' =>
        rw [hst] at hs
        cases hs
        exact h.move hA (merge_create hA h.unique h.rows hmem hok hst)
  | finalize => exact hok.elim
  | confirm =>
    cases hs
    have hhas : hasUri s.posts X = true := by
      obtain ⟨p, hp, hap⟩ := hok
      exact List.any_eq_true.mpr ⟨p, hp, by rw [hap]; simp⟩
    have hconfirm : Proc.confirm ⟨.create a X c, row, .confirm⟩ s.posts =
        ⟨.create a X c, row, .ended .inserted⟩ := if_pos hhas
    rw [hconfirm]
    exact h.stay hA ⟨hmem, rfl, hok⟩
  | ended => cases hs

theorem inv_update (hA : Agree A) (h : Inv A s)
    (hp : s.procs i = some ⟨.update sender X Y, row, phase⟩)
    (hs : s.runProc i ⟨.update sender X Y, row, phase⟩ = some s') : Inv A s' := by
  obtain ⟨hmem, hok⟩ := h.procs i _ hp
  have hmem : .update sender X Y ∈ A := hmem
  cases phase with
  | start =>
    cases hs
    exact h.stay hA (begin_update hmem)
  | search n =>
    cases hs
    have hsearch : Proc.search ⟨.update sender X Y, row, .search n⟩ s.posts n =
        ⟨.update sender X Y, row,
          (Proc.search ⟨.update sender X Y, row, .search n⟩ s.posts n).phase⟩ := by
      simp only [Proc.search]
      split <;> rfl
    rw [hsearch]
    exact h.stay hA ⟨hmem, search_update hA h.unique h.rows hmem hok⟩
  | write n found =>
    simp only [State.runProc] at hs
    cases found with
    | none =>
      cases hst : Proc.statement ⟨.update sender X Y, row, .write n none⟩ s.posts none with
      | none =>
        rw [hst] at hs
        cases hs
        obtain ⟨rfl, hok'⟩ := claim_update_none hA h.unique h.rows hmem hok hst
        exact h.stay hA ⟨hmem, hok'⟩
      | some posts' =>
        rw [hst] at hs
        cases hs
        exact h.move hA (claim_update hA h.unique h.rows hmem hok hst)
    | some t => exact hok.elim
  | finalize doomed =>
    simp only [State.runProc] at hs
    obtain ⟨posts', hst, hw⟩ := finalize_update hA h.unique h.rows hmem hok
    rw [hst] at hs
    cases hs
    exact h.move hA hw
  | confirm => exact hok.elim
  | ended => cases hs

theorem inv_bsky (hA : Agree A) (h : Inv A s)
    (hp : s.procs i = some ⟨.bsky b Y d, row, phase⟩)
    (hs : s.runProc i ⟨.bsky b Y d, row, phase⟩ = some s') : Inv A s' := by
  obtain ⟨hmem, hrow, hok⟩ := h.procs i _ hp
  have hmem : .bsky b Y d ∈ A := hmem
  have hrow : row = i := hrow
  subst hrow
  cases phase with
  | start =>
    cases hs
    exact h.stay hA (begin_bsky hmem hok)
  | search n =>
    cases hs
    exact h.stay hA ⟨hmem, rfl, search_bsky h.unique h.rows hmem hok⟩
  | write n found =>
    simp only [State.runProc] at hs
    cases found with
    | none =>
      cases hst : Proc.statement ⟨.bsky b Y d, row, .write n none⟩ s.posts none with
      | none =>
        rw [hst] at hs
        cases hs
        obtain ⟨rfl, hok'⟩ := insert_bsky_none hA h.unique h.rows hmem hok hst
        exact h.stay hA ⟨hmem, rfl, hok'⟩
      | some posts' =>
        rw [hst] at hs
        cases hs
        exact h.move hA (insert_bsky h.unique h.rows hmem hst)
    | some t =>
      cases hst : Proc.statement ⟨.bsky b Y d, row, .write n (some t)⟩ s.posts (some t) with
      | none => exact absurd hst (merge_bsky_none hA h.unique h.rows hmem hok)
      | some posts' =>
        rw [hst] at hs
        cases hs
        exact h.move hA (merge_bsky hA h.unique h.rows hmem hok hst)
  | finalize => exact hok.elim
  | confirm => exact hok.elim
  | ended => cases hs

/-- The rows found are those of the functions taken as one transaction. -/
theorem target_create (db : Tables) (params : InsertRemoteWithDedupParams) :
    Proc.target ⟨.create params.actorId params.apObjectId params.claimedAtUri, row, phase⟩
      db.posts = db.dedupTarget params := rfl

theorem target_bsky (db : Tables) (params : BskyPostRow) :
    Proc.target ⟨.bsky params.actorId params.atUri params.claimedApObjectId, row, phase⟩
      db.posts = db.mergeTarget params := rfl

/-- The actions deliver arrivals of the set. -/
def Of (A : Set Arrival) : Action → Prop
  | .arrive _ arrival => arrival ∈ A
  | .run _ => True

theorem inv_step (hA : Agree A) {action : Action} (h : Inv A s) (ha : Of A action)
    (hs : step s action = some s') : Inv A s' := by
  cases action with
  | arrive i arrival =>
    simp only [step] at hs
    split at hs
    · rename_i hnew
      cases hs
      refine h.stay hA ⟨ha, ?_⟩
      cases arrival with
      | create => exact ⟨rfl, hnew.2⟩
      | update => trivial
      | bsky => exact ⟨rfl, hnew.2⟩
    · cases hs
  | run i =>
    obtain ⟨pr, hp, hs⟩ := Option.bind_eq_some_iff.mp hs
    obtain ⟨arrival, row, phase⟩ := pr
    cases arrival with
    | create => exact inv_create hA h hp hs
    | update => exact inv_update hA h hp hs
    | bsky => exact inv_bsky hA h hp hs

end Step

section Runs

variable {s s' t : State} {pr : Proc} {as : List Action}

/-- The form of the note that claims the record -/
def Arrival.Claiming (arrival : Arrival) (a : Int64) (X Y : String) : Prop :=
  arrival = .create a X (some Y) ∨ arrival = .update (some a) X Y

/-- How many statements an arrival can still execute -/
def Phase.left : Phase → Nat
  | .start => 12
  | .search n => 2 * (maxUniqueViolationRetries - n) + 3
  | .write n _ => 2 * (maxUniqueViolationRetries - n) + 2
  | .finalize _ => 1
  | .confirm => 1
  | .ended _ => 0

structure Merges (A : Set Arrival) (s : State) : Prop where
  /-- Identifiers share a row where forms of one author claim each other, and nowhere else. -/
  paired : ∀ p ∈ s.posts, ∀ X Y, p.apObjectId = some X → p.atUri = some Y →
    (.create p.actorId X (some Y) ∈ A ∨ .update (some p.actorId) X Y ∈ A) ∧
      .bsky p.actorId Y (some X) ∈ A
  succeeds : ∀ i pr, s.procs i = some pr → pr.phase ≠ .ended .failed
  proceeds : ∀ i pr, s.procs i = some pr → (∀ o, pr.phase ≠ .ended o) →
    ∃ s' pr', step s (.run i) = some s' ∧ s'.procs i = some pr' ∧ pr'.phase.left < pr.phase.left
  /-- Both forms have arrived; an `Update` has where its note was there. -/
  merged : ∀ a X Y i j pr pr' o o', s.procs i = some pr → s.procs j = some pr' →
    pr.arrival.Claiming a X Y → pr'.arrival = .bsky a Y (some X) → pr.phase = .ended o →
    o ≠ .missing → pr'.phase = .ended o' →
    s.posts.countP (fun p => !p.deleted && p.apObjectId == some X && p.atUri == some Y) = 1

theorem left_retry (n : Nat) (found : Option Int64) :
    (pr.retry n).phase.left < (Phase.write n found).left := by
  unfold Proc.retry
  split
  · rename_i h
    show 2 * (maxUniqueViolationRetries - (n + 1)) + 3 < 2 * (maxUniqueViolationRetries - n) + 2
    omega
  · show 0 < 2 * (maxUniqueViolationRetries - n) + 2
    omega

theorem left_begin : (pr.begin s.posts).phase.left < Phase.start.left := by
  have hsearch : (Phase.search 1).left < Phase.start.left := by decide
  have hended : ∀ o, (Phase.ended o).left < Phase.start.left := fun _ => show 0 < 12 by decide
  unfold Proc.begin
  split
  · split
    · exact hended _
    · exact hsearch
  · split
    · exact hended _
    · split
      · exact hended _
      · split
        · exact hended _
        · exact hsearch
  · split
    · exact hended _
    · exact hsearch

theorem left_search (n : Nat) : (pr.search s.posts n).phase.left < (Phase.search n).left := by
  unfold Proc.search
  split
  · show 1 < 2 * (maxUniqueViolationRetries - n) + 3
    omega
  · show 2 * (maxUniqueViolationRetries - n) + 2 < 2 * (maxUniqueViolationRetries - n) + 3
    omega

theorem left_written (n : Nat) (found : Option Int64) :
    (pr.written found).phase.left < (Phase.write n found).left := by
  show _ < 2 * (maxUniqueViolationRetries - n) + 2
  unfold Proc.written
  split
  · show 1 < 2 * (maxUniqueViolationRetries - n) + 2
    omega
  · show 0 < 2 * (maxUniqueViolationRetries - n) + 2
    omega
  · show 0 < 2 * (maxUniqueViolationRetries - n) + 2
    omega
  · show 0 < 2 * (maxUniqueViolationRetries - n) + 2
    omega

/-- An arrival that has not ended can execute its next statement. -/
theorem step_left (hp : s.procs i = some pr) (hne : ∀ o, pr.phase ≠ .ended o) :
    ∃ s' pr', step s (.run i) = some s' ∧ s'.procs i = some pr' ∧
      pr'.phase.left < pr.phase.left := by
  have hrun : step s (.run i) = s.runProc i pr := by
    show (s.procs i).bind (s.runProc i) = _
    rw [hp]
    rfl
  have hself : ∀ posts pr', (s.setProc i posts pr').procs i = some pr' := fun _ _ =>
    Function.update_self ..
  rw [hrun]
  cases hph : pr.phase with
  | start =>
    simp only [State.runProc, hph]
    exact ⟨_, _, rfl, hself _ _, left_begin⟩
  | search n =>
    simp only [State.runProc, hph]
    exact ⟨_, _, rfl, hself _ _, left_search n⟩
  | write n found =>
    simp only [State.runProc, hph]
    split
    · exact ⟨_, _, rfl, hself _ _, left_written n found⟩
    · exact ⟨_, _, rfl, hself _ _, left_retry n found⟩
  | finalize doomed =>
    simp only [State.runProc, hph]
    split <;> exact ⟨_, _, rfl, hself _ _, Nat.one_pos⟩
  | confirm =>
    simp only [State.runProc, hph]
    refine ⟨_, _, rfl, hself _ _, ?_⟩
    unfold Proc.confirm
    split
    · split <;> exact Nat.one_pos
    · exact Nat.one_pos
  | ended o => exact absurd hph (hne o)

/-- An `Update` or a `Create` of a couple that has ended has named the record. -/
theorem Inv.names (hA : Agree A) (h : Inv A s) (hp : s.procs i = some pr) {o : Outcome}
    (hend : pr.phase = .ended o) (ho : o ≠ .missing) (hcl : pr.arrival.Claiming a X Y)
    (hb : .bsky a Y (some X) ∈ A) : Couple A a X Y ∧ Names s.posts a X Y := by
  obtain ⟨hmem, hok⟩ := h.procs i pr hp
  rcases hcl with harr | harr
  · rw [harr] at hmem hok
    have hc : Couple A a X Y := ⟨.inl hmem, hb⟩
    have hnote : HasNote s.posts X := by
      have hok := hok.2
      rw [hend] at hok
      cases o with
      | alreadyExists =>
        rcases hok with hok | ⟨p, hp, hat⟩
        · exact hok
        · exfalso
          obtain ⟨⟨-, -, hr⟩ | ⟨_, -, -, hr, -⟩, -⟩ := (h.rows p hp).of_atUri hat
          · exact (hA.settled hc).apart hmem hr
          · exact (hA.settled hc).apart hmem hr
      | inserted => exact hok
      | _ => exact hok.elim
    obtain ⟨p, hp, hap⟩ := hnote
    exact ⟨hc, p, hp, hap, actorId_of_couple hA h.rows hc hp hap,
      linked_of_create hA h.rows hmem hb hp hap⟩
  · rw [harr] at hmem hok
    have hok : UpdateOk A s.posts pr.row (some a) X Y pr.phase := hok
    rw [hend] at hok
    have hc : ∀ p ∈ s.posts, p.apObjectId = some X → Couple A a X Y := fun p hp hap => by
      obtain ⟨c, hcreate⟩ := (h.rows p hp).created hap
      exact ⟨.inr ⟨hmem, _, c, hcreate⟩, hb⟩
    cases o with
    | missing => exact absurd rfl ho
    | foreign =>
      obtain ⟨p, hp, hap, hne⟩ := hok
      exact absurd (congrArg some (actorId_of_couple hA h.rows (hc p hp hap) hp hap)) hne
    | settled =>
      obtain ⟨r, p, hp, -, hap, hactor, Z, hat⟩ := hok
      cases Option.some.inj hactor
      obtain ⟨⟨hnone, -⟩ | ⟨X', hap', hclaims, hb', -⟩, -⟩ := (h.rows p hp).of_atUri hat
      · rw [hap] at hnone
        cases hnone
      · rw [hap] at hap'
        cases hap'
        have hZ : Z = Y := hA.couple_unique (hc p hp hap) (hclaims.couple hb')
        exact ⟨hc p hp hap, p, hp, hap, rfl, .inr (hZ ▸ hat)⟩
    | claimed =>
      obtain ⟨⟨p, hp, hap⟩, hnames⟩ := hok
      exact ⟨hc p hp hap, hnames a rfl (hc p hp hap)⟩
    | merged =>
      obtain ⟨⟨p, hp, hap⟩, hnames⟩ := hok
      exact ⟨hc p hp hap, hnames a rfl (hc p hp hap)⟩
    | _ => exact hok.elim

theorem Inv.merges (hA : Agree A) (h : Inv A s) : Merges A s where
  paired p hp X Y hap hat := by
    obtain ⟨⟨hnone, -⟩ | ⟨X', hap', hclaims, hb, -⟩, -⟩ := (h.rows p hp).of_atUri hat
    · rw [hap] at hnone
      cases hnone
    · rw [hap] at hap'
      cases hap'
      exact ⟨hclaims.1, hb⟩
  succeeds i pr hp hend := by
    obtain ⟨-, hok⟩ := h.procs i pr hp
    cases harr : pr.arrival with
    | create =>
      rw [harr, hend] at hok
      exact hok.2
    | update =>
      rw [harr, hend] at hok
      exact hok
    | bsky =>
      rw [harr, hend] at hok
      exact hok.2
  proceeds i pr hp hne := step_left hp hne
  merged a X Y i j pr pr' o o' hp hp' hcl harr hend ho hend' := by
    obtain ⟨hmem, hok⟩ := h.procs j pr' hp'
    rw [harr] at hmem hok
    obtain ⟨hc, p, hpm, hap, rfl, hlinked⟩ := h.names hA hp hend ho hcl hmem
    have hrec : HasRecord s.posts Y := by
      have hok := hok.2
      rw [hend'] at hok
      cases o' with
      | alreadyExists => exact hok
      | inserted => exact hok
      | merged => exact hok
      | _ => exact hok.elim
    obtain ⟨q, hq, hat⟩ := hrec
    have heq : p = q := eq_of_linked hA h.unique h.rows hc hpm hap hlinked hq hat
    subst heq
    refine h.unique.countP_eq_one hpm ?_ (k := .apObjectId X) fun q _ hq => ?_
    · rw [(h.rows p hpm).live hap, hap, hat]
      simp
    · simp only [Bool.and_eq_true, beq_iff_eq] at hq
      exact apObjectId_mem_keys.mpr hq.1.2

theorem inv_start : Inv A start where
  unique := List.nodup_nil
  rows _ hp := absurd hp List.not_mem_nil
  procs := nofun

/-- In every run of arrivals whose forms agree, none fails, and the two forms of a post that claim
each other are one row once both are there. -/
theorem arrivals_merge (hA : Agree A) (has : ∀ action ∈ as, Of A action)
    (hr : machine.run start as = some t) : Merges A t := by
  have hstep : ∀ {s action s'}, Inv A s → Of A action → machine.step s action = some s' →
      Inv A s' := fun h ha hs => inv_step hA h ha hs
  have hinv : Inv A t := machine.run_inv_along hstep inv_start (machine.along_of_forall start has) hr
  exact hinv.merges hA

/-- The forms of one post -/
def oneAuthor : Set Arrival :=
  {.create 1 "n" (some "r"), .update (some 1) "n" "r", .bsky 1 "r" (some "n")}

theorem agree_oneAuthor : Agree oneAuthor where
  author {a b X Y} hclaims hb := by
    obtain ⟨c, hc⟩ := hclaims.2
    simp only [oneAuthor, Set.mem_insert_iff, Set.mem_singleton_iff, reduceCtorEq, false_or,
      or_false, Arrival.create.injEq, Arrival.bsky.injEq] at hc hb
    exact hc.1.trans hb.1.symm
  settled {a X Y} hc := by
    obtain ⟨hclaim, hb⟩ := hc
    simp only [oneAuthor, Set.mem_insert_iff, Set.mem_singleton_iff, reduceCtorEq, false_or,
      Arrival.bsky.injEq] at hb
    obtain ⟨rfl, rfl, hX⟩ := hb
    cases hX
    constructor <;> simp [oneAuthor]

/-- Both forms look for the other before it is there, and the record is turned away once. -/
def racing : List Action :=
  [.arrive 1 (.create 1 "n" (some "r")), .arrive 2 (.bsky 1 "r" (some "n")), .run 1, .run 2,
    .run 1, .run 2, .run 1, .run 2, .run 2, .run 2, .run 1]

theorem arrivals_merge_racing :
    ∃ t, machine.run start racing = some t ∧ Merges oneAuthor t := by
  obtain ⟨t, ht⟩ : ∃ t, machine.run start racing = some t :=
    Option.isSome_iff_exists.mp (by decide)
  refine ⟨t, ht, arrivals_merge agree_oneAuthor ?_ ht⟩
  simp [racing, Of, oneAuthor]

/-- Another actor has a note with the identifier that a record names, and claims the record. -/
def hijack : List Action :=
  [.arrive 1 (.create 1 "n" (some "r")), .run 1, .run 1, .run 1, .run 1,
    .arrive 2 (.bsky 2 "r" (some "n")), .run 2, .run 2, .run 2, .run 2, .run 2, .run 2, .run 2,
    .run 2, .run 2, .run 2, .run 2]

theorem arrivals_merge_counterexample :
    ∃ t, machine.run start hijack = some t ∧
      t.procs 2 = some ⟨.bsky 2 "r" (some "n"), 2, .ended .failed⟩ ∧
      t.posts.all (fun p => p.atUri != some "r") = true :=
  ⟨_, rfl, rfl, rfl⟩

end Runs

end Seiran.Posts.Arrivals
