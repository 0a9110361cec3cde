import Mathlib.Data.List.Chain
import Seiran.Model.Atp.Revision
import Seiran.Proof.Atp.ApplyWrite

/-!
# The order of revisions

A TID is its value in thirteen digits of base 32, and the letters are in the
order of the digits, so TIDs are in the order of their values (`tid_lt_iff`):
first the microsecond, then the random clock id. The clock does not go back from
one commit to the next (`Dated`), but two commits may read the same microsecond,
and then the random bits decide.
-/

namespace Seiran.Revision

open ApplyWrite (Env Commit Phase Call CallAction RepoEvent attempt_spec rollback_phase sampleEnv
  samplePem sampleLike)
open Atp (PostRow AtpRecord)

/-! ## The order of TIDs -/

theorem tidChars_eq (count v : Nat) :
    tidChars count v = (toDigits 32 count v).map fun d => S32_CHARS.getD d '2' := by
  induction count generalizing v with
  | zero => rfl
  | succ count ih =>
    have hdiv : v >>> 5 = v / 32 := Nat.shiftRight_eq_div_pow v 5
    have hmod : v &&& 0x1F = v % 32 := Nat.and_two_pow_sub_one_eq_mod v 5
    rw [tidChars, toDigits, List.map_append, ih, hdiv, hmod]
    rfl

theorem s32_lt : ∀ a < 32, ∀ b < 32,
    S32_CHARS.getD a '2' < S32_CHARS.getD b '2' ↔ a < b := by decide

theorem s32_eq : ∀ a < 32, ∀ b < 32,
    S32_CHARS.getD a '2' = S32_CHARS.getD b '2' ↔ a = b := by decide

theorem value_eq (r : Reading) : r.value = r.tsUs % 2 ^ 54 * 2 ^ 10 + r.random % 2 ^ 10 := by
  have hclock : r.clockId = r.random % 2 ^ 10 := Nat.and_two_pow_sub_one_eq_mod r.random 10
  have hts : (r.tsUs <<< 10) % 2 ^ 64 = (r.tsUs % 2 ^ 54) <<< 10 := by
    rw [Nat.shiftLeft_eq, Nat.shiftLeft_eq]
    exact Nat.mul_mod_mul_right (2 ^ 10) r.tsUs (2 ^ 54)
  have hlt : r.random % 2 ^ 10 < 2 ^ 10 := Nat.mod_lt _ (by decide)
  rw [Reading.value, hclock, hts, ← Nat.shiftLeft_add_eq_or_of_lt hlt, Nat.shiftLeft_eq]

/-- The later microsecond, or in the same microsecond the greater clock id. -/
def Reading.Before (r r' : Reading) : Prop :=
  r.tsUs % 2 ^ 54 < r'.tsUs % 2 ^ 54 ∨
    r.tsUs % 2 ^ 54 = r'.tsUs % 2 ^ 54 ∧ r.clockId < r'.clockId

theorem value_lt_iff (r r' : Reading) : r.value < r'.value ↔ r.Before r' := by
  have hclock (r : Reading) : r.clockId = r.random % 2 ^ 10 :=
    Nat.and_two_pow_sub_one_eq_mod r.random 10
  rw [value_eq, value_eq, Reading.Before, hclock, hclock]
  omega

theorem tid_lt_iff (r r' : Reading) : generateTid r < generateTid r' ↔ r.Before r' := by
  have hbound (r : Reading) : r.value < 32 ^ 13 := by
    rw [value_eq]
    omega
  have hdigits := fun (n : Nat) => @toDigits_lt 32 (by decide) 13 n
  rw [← value_lt_iff, ← toDigits_lt_iff (hbound r) (hbound r'), String.lt_iff, generateTid,
    generateTid, String.toList_ofList, String.toList_ofList, tidChars_eq, tidChars_eq]
  exact map_lt_map (fun a ha b hb => s32_lt a (hdigits _ a ha) b (hdigits _ b hb))
    fun a ha b hb => s32_eq a (hdigits _ a ha) b (hdigits _ b hb)

/-! ## The clock of the commits -/

/-- A transaction that can still commit has read the clock after every commit. -/
def PhaseDated (version now : Nat) (readings : List Reading) : Phase → Prop
  | .reading _ v => v ≤ version
  | .written c v =>
    v ≤ version ∧ (v = version → ∃ r : Reading, c.attempt.newRev = generateTid r ∧
      r.tsUs ≤ now ∧ ∀ r' ∈ readings, r'.tsUs ≤ r.tsUs)
  | _ => True

/-- The revisions are the TIDs of readings, the last one first. -/
structure Dated (s : State) (readings : List Reading) : Prop where
  revs : s.repo.events.map RepoEvent.rev = readings.map generateTid
  ordered : readings.Pairwise fun later earlier => earlier.tsUs ≤ later.tsUs
  past : ∀ r ∈ readings, r.tsUs ≤ s.now
  calls : ∀ call ∈ s.repo.calls, PhaseDated s.repo.version s.now readings call.phase

section Dated

variable {E : Env} {s s' : State} {readings : List Reading}

theorem PhaseDated.tick {version now : Nat} {phase : Phase}
    (h : PhaseDated version now readings phase) (us : Nat) :
    PhaseDated version (now + us) readings phase := by
  cases phase with
  | written c v =>
    refine ⟨h.1, fun hv => ?_⟩
    obtain ⟨r, hr, hnow, hpast⟩ := h.2 hv
    exact ⟨r, hr, by omega, hpast⟩
  | _ => exact h

/-- When the row has a new version, no open transaction can commit. -/
theorem PhaseDated.succ {version now : Nat} {phase : Phase}
    (h : PhaseDated version now readings phase) (readings' : List Reading) :
    PhaseDated (version + 1) now readings' phase := by
  cases phase with
  | reading rows v => exact Nat.le_succ_of_le h
  | written c v =>
    have hle := h.1
    exact ⟨by omega, fun hv => by omega⟩
  | _ => trivial

theorem Dated.setCall {repo : ApplyWrite.State} {now : Nat} (h : Dated ⟨repo, now⟩ readings)
    {i : Nat} {call' : Call} (hphase : PhaseDated repo.version now readings call'.phase) :
    Dated ⟨repo.setCall i call', now⟩ readings := by
  refine ⟨h.revs, h.ordered, h.past, fun x hx => ?_⟩
  rcases List.mem_or_eq_of_mem_set hx with hx | rfl
  · exact h.calls x hx
  · exact hphase

theorem Dated.commit {repo : ApplyWrite.State} {now : Nat} (h : Dated ⟨repo, now⟩ readings)
    {i : Nat} {call : Call} (hcall : call ∈ repo.calls) {c : Commit}
    (hphase : call.phase = .written c repo.version) (posts : List PostRow) {phase : Phase}
    (hclosed : ∀ rs, PhaseDated (repo.version + 1) now rs phase) :
    ∃ readings', Dated ⟨(repo.apply E c posts).setCall i { call with phase }, now⟩ readings' := by
  have hwritten := h.calls call hcall
  rw [hphase] at hwritten
  obtain ⟨r, hr, hnow, hpast⟩ := hwritten.2 rfl
  refine ⟨r :: readings, ?_, List.pairwise_cons.mpr ⟨hpast, h.ordered⟩, ?_, fun x hx => ?_⟩
  · show c.attempt.newRev :: repo.events.map RepoEvent.rev = _
    rw [show repo.events.map RepoEvent.rev = _ from h.revs, hr]
    rfl
  · intro r' hr'
    rcases List.mem_cons.mp hr' with rfl | hr'
    · exact hnow
    · exact h.past r' hr'
  · rcases List.mem_or_eq_of_mem_set hx with hx | rfl
    · exact (h.calls x hx).succ _
    · exact hclosed _

/-- A step of a call that does not read the clock. -/
theorem Dated.stepCall {repo repo' : ApplyWrite.State} {now : Nat}
    (h : Dated ⟨repo, now⟩ readings) {i : Nat} {call : Call} (hc : repo.calls[i]? = some call)
    {a : CallAction} (ha : ∀ newRev, a ≠ .write newRev)
    (hs : ApplyWrite.stepCall E repo call i a = some repo') :
    ∃ readings', Dated ⟨repo', now⟩ readings' := by
  have hmem : call ∈ repo.calls := List.mem_of_getElem? hc
  cases a with
  | begin =>
    simp only [ApplyWrite.stepCall] at hs
    split at hs
    · cases hs
      exact ⟨readings, h.setCall (Nat.le_refl _)⟩
    · cases hs
  | write newRev => exact absurd rfl (ha newRev)
  | commit reply =>
    simp only [ApplyWrite.stepCall] at hs
    split at hs
    · rename_i c v hphase
      split at hs
      · rename_i hv
        rw [hv] at hphase
        obtain ⟨posts, -, rfl⟩ := Option.map_eq_some_iff.mp hs
        refine h.commit hmem hphase posts fun rs => ?_
        cases reply <;> trivial
      · cases hs
    · cases hs
  | conflict =>
    simp only [ApplyWrite.stepCall] at hs
    have hrollback : ∀ phase : Phase, PhaseDated repo.version now readings phase →
        ∀ attempt, Dated ⟨repo.setCall i { call.rollback phase with attempt }, now⟩ readings := by
      intro phase hphase attempt
      refine h.setCall ?_
      show PhaseDated repo.version now readings (call.rollback phase).phase
      rw [rollback_phase]
      exact hphase
    have hconflict : (if call.attempt < ApplyWrite.MAX_SERIALIZATION_RETRIES then
          some (repo.setCall i { call.rollback .waiting with attempt := call.attempt + 1 })
        else some (repo.setCall i (call.rollback .failed))) = some repo' →
        ∃ readings', Dated ⟨repo', now⟩ readings' := by
      intro hs
      split at hs
      · cases hs
        exact ⟨readings, hrollback .waiting trivial _⟩
      · cases hs
        exact ⟨readings, hrollback .failed trivial (call.rollback .failed).attempt⟩
    split at hs
    · exact hconflict hs
    · exact hconflict hs
    · cases hs
  | fail =>
    simp only [ApplyWrite.stepCall] at hs
    have hfailed : Dated ⟨repo.setCall i (call.rollback .failed), now⟩ readings := by
      refine h.setCall ?_
      rw [rollback_phase]
      trivial
    split at hs
    all_goals cases hs
    all_goals exact ⟨readings, hfailed⟩
  | publish =>
    simp only [ApplyWrite.stepCall] at hs
    split at hs
    · rename_i c hphase
      cases hs
      have hset := @Dated.setCall _ repo now h i { call with phase := .done c.result } trivial
      refine ⟨readings, ?_⟩
      exact ⟨hset.revs, hset.ordered, hset.past, hset.calls⟩
    · cases hs

/-- A transaction reads the clock, after every commit that is there. -/
theorem Dated.write {repo repo' : ApplyWrite.State} {now : Nat} (h : Dated ⟨repo, now⟩ readings)
    {i random : Nat}
    (hs : ApplyWrite.step E repo (.on i (.write (generateTid ⟨now, random⟩))) = some repo') :
    Dated ⟨repo', now⟩ readings := by
  obtain ⟨call, hc, hs⟩ := Option.bind_eq_some_iff.mp hs
  have hmem : call ∈ repo.calls := List.mem_of_getElem? hc
  simp only [ApplyWrite.stepCall] at hs
  split at hs
  · rename_i rows v hphase
    have hv := h.calls call hmem
    rw [hphase] at hv
    split at hs
    · rename_i a ha
      cases hs
      have hrev := (attempt_spec ha).newRev
      have hwritten : PhaseDated repo.version now readings
          (.written { attempt := a, write := call.write, time := call.time, seq := repo.nextId } v) :=
        ⟨hv, fun _ => ⟨⟨now, random⟩, hrev, Nat.le_refl _, h.past⟩⟩
      have hset := @Dated.setCall _ repo now h i { call with phase := .written _ v } hwritten
      exact ⟨hset.revs, hset.ordered, hset.past, hset.calls⟩
    · cases hs
      exact h.setCall trivial
  · cases hs

theorem step_dated (h : Dated s readings) {a : Action} (hs : step E s a = some s') :
    ∃ readings', Dated s' readings' := by
  cases a with
  | tick us =>
    cases hs
    exact ⟨readings, h.revs, h.ordered, fun r hr => Nat.le_add_right_of_le (h.past r hr),
      fun call hcall => (h.calls call hcall).tick us⟩
  | write i random =>
    obtain ⟨repo', hrepo, rfl⟩ := Option.map_eq_some_iff.mp hs
    exact ⟨readings, h.write hrepo⟩
  | other a =>
    simp only [step] at hs
    split at hs
    · cases hs
    · rename_i hwrite
      obtain ⟨repo', hrepo, rfl⟩ := Option.map_eq_some_iff.mp hs
      cases a with
      | call write time postId =>
        cases hrepo
        refine ⟨readings, h.revs, h.ordered, h.past, fun x hx => ?_⟩
        rcases List.mem_append.mp hx with hx | hx
        · exact h.calls x hx
        · rw [List.mem_singleton.mp hx]
          trivial
      | on i a =>
        obtain ⟨call, hc, hcall⟩ := Option.bind_eq_some_iff.mp hrepo
        exact h.stepCall hc (fun newRev ha => hwrite (by rw [ha]; rfl)) hcall
      | updateActor atDid pem =>
        cases hrepo
        exact ⟨readings, h.revs, h.ordered, h.past, fun x hx => (h.calls x hx).succ readings⟩
      | updateTables posts records =>
        cases hrepo
        exact ⟨readings, h.revs, h.ordered, h.past, h.calls⟩
      | takeIds k =>
        cases hrepo
        exact ⟨readings, h.revs, h.ordered, h.past, h.calls⟩

end Dated

/-- The order of TIDs is that of their readings, and the revisions of an actor increase from
commit to commit exactly where those readings do, which never go back in time. -/
theorem revisions_increase (E : Env) {atDid pem : Option String} {posts : List PostRow}
    {records : List AtpRecord} {now : Nat} {as : List Action} {s : State}
    (hr : (machine E).run ⟨ApplyWrite.start atDid pem posts records, now⟩ as = some s) :
    (∀ r r' : Reading, r.tsUs < 2 ^ 53 → r'.tsUs < 2 ^ 53 →
      (generateTid r < generateTid r' ↔
        r.tsUs < r'.tsUs ∨ r.tsUs = r'.tsUs ∧ r.clockId < r'.clockId)) ∧
    ∃ readings : List Reading, s.repo.events.map RepoEvent.rev = readings.map generateTid ∧
      (readings.Pairwise fun later earlier => earlier.tsUs ≤ later.tsUs) ∧
      ((s.repo.events.map RepoEvent.rev).IsChain (fun later earlier => earlier < later) ↔
        readings.IsChain fun later earlier => earlier.Before later) := by
  constructor
  · intro r r' hr hr'
    rw [tid_lt_iff, Reading.Before]
    omega
  · have hstep : ∀ {s a s'}, (∃ readings, Dated s readings) → (machine E).step s a = some s' →
        ∃ readings, Dated s' readings := fun ⟨_, h⟩ hs => step_dated h hs
    have hstart : Dated ⟨ApplyWrite.start atDid pem posts records, now⟩ [] :=
      ⟨rfl, List.Pairwise.nil, fun _ h => absurd h List.not_mem_nil,
        fun _ h => absurd h List.not_mem_nil⟩
    obtain ⟨readings, h⟩ := (machine E).run_inv hstep ⟨[], hstart⟩ hr
    refine ⟨readings, h.revs, h.ordered, ?_⟩
    rw [h.revs, List.isChain_map]
    simp only [tid_lt_iff]

/-! ## One microsecond -/

section OneMicrosecond

/-- Two likes in one microsecond, with these random numbers. -/
def twoWrites (random random' : Nat) : List Action :=
  [.other (.call (sampleLike "3jzfcijpj2z2a") "2026-01-01T00:00:00.000Z" none),
    .other (.call (sampleLike "3jzfcijpj2z2b") "2026-01-01T00:00:00.001Z" none),
    .other (.on 0 .begin), .write 0 random, .other (.on 0 (.commit true)),
    .other (.on 1 .begin), .write 1 random', .other (.on 1 (.commit true))]

def atOneMicrosecond : State :=
  ⟨ApplyWrite.start (some "did:plc:ewvi7nxzyoun6zhxrhs64oiz") (some samplePem) [] [],
    1688137381887007⟩

/-- The random numbers decide which of the two revisions is the greater one. -/
theorem revs_twoWrites :
    ((machine sampleEnv).run atOneMicrosecond (twoWrites 8 9)).map
        (fun s => s.repo.events.map RepoEvent.rev) = some ["3jzfcijpj2z2d", "3jzfcijpj2z2c"] ∧
    ((machine sampleEnv).run atOneMicrosecond (twoWrites 9 8)).map
        (fun s => s.repo.events.map RepoEvent.rev) = some ["3jzfcijpj2z2c", "3jzfcijpj2z2d"] := by
  decide +kernel

theorem revisions_increase_twoWrites :
    ∃ s, (machine sampleEnv).run atOneMicrosecond (twoWrites 8 9) = some s ∧
      s.repo.events.map RepoEvent.rev = ["3jzfcijpj2z2d", "3jzfcijpj2z2c"] ∧
      ∃ readings : List Reading, s.repo.events.map RepoEvent.rev = readings.map generateTid := by
  obtain ⟨s, hs, hrevs⟩ := Option.map_eq_some_iff.mp revs_twoWrites.1
  obtain ⟨readings, hreadings, -⟩ := (revisions_increase sampleEnv hs).2
  exact ⟨s, hs, hrevs, readings, hreadings⟩

/-- The second commit draws the lesser clock id, and its revision is the lesser one. -/
theorem revisions_increase_counterexample :
    ∃ s, (machine sampleEnv).run atOneMicrosecond (twoWrites 9 8) = some s ∧
      ¬ (s.repo.events.map RepoEvent.rev).IsChain fun later earlier => earlier < later := by
  obtain ⟨s, hs, hrevs⟩ := Option.map_eq_some_iff.mp revs_twoWrites.2
  refine ⟨s, hs, fun h => ?_⟩
  rw [hrevs, List.isChain_cons_cons, String.lt_iff] at h
  exact absurd h.1 (by decide)

end OneMicrosecond

end Seiran.Revision
