import Mathlib.Data.List.Nodup
import Mathlib.Data.List.Perm.Basic
import Seiran.Model.Queue.Worker
import Seiran.Proof.Queue.Redis

/-!
# No job is lost or duplicated

* `Carrier`: whatever carries a job (an envelope in Redis, an execution, a call
  in between), and `Inv`: the carriers of a world have distinct jobs and
  sequence numbers, and each is in line with the executions begun so far;
* `Inv.replace`: a step that replaces one carrier;
* `inv_step`: every step;
* `jobs_conserved`: in every run.
-/

namespace Seiran.Queue

variable {J : Type} {C : Codec J} {config : J → RetryConfig} {maxConcurrent : Nat}

/-! ## Executions begun -/

/-- The executions begun of a job, and of what job they are. -/
def World.runs (w : World J) (origin : Nat) : List (Begun J) :=
  w.begun.filter fun b => b.origin = origin

/-- The executions begun of a job whose next attempt would be `next`. -/
structure Track (config : J → RetryConfig) (runs : List (Begun J)) (job : J) (next : Nat) :
    Prop where
  jobs : ∀ b ∈ runs, b.job = job
  attempts : runs.map Begun.attempt = List.range' (next - runs.length) runs.length
  length_le : runs.length ≤ next
  bound : runs.length ≤ 1 ∨ next ≤ (config job).maxAttempts

theorem track_nil (job : J) (next : Nat) : Track config [] job next :=
  ⟨fun _ h => (List.not_mem_nil h).elim, rfl, Nat.zero_le _, .inl (Nat.zero_le _)⟩

theorem Track.snoc {runs : List (Begun J)} {job : J} {next : Nat} (h : Track config runs job next)
    (hnext : runs = [] ∨ next < (config job).maxAttempts) {b : Begun J} (hjob : b.job = job)
    (hattempt : b.attempt = next) : Track config (runs ++ [b]) job (next + 1) := by
  have hlen : (runs ++ [b]).length = runs.length + 1 := List.length_append
  refine ⟨?_, ?_, ?_, ?_⟩
  · intro b' hb'
    rcases List.mem_append.mp hb' with hb' | hb'
    · exact h.jobs b' hb'
    · rw [List.mem_singleton.mp hb']
      exact hjob
  · have hle := h.length_le
    have hstart : next + 1 - (runs.length + 1) = next - runs.length := by omega
    have hlast : next - runs.length + runs.length = next := by omega
    rw [List.map_append, h.attempts, hlen, hstart, List.range'_1_concat, hlast, List.map_singleton,
      hattempt]
  · rw [hlen]
    exact Nat.succ_le_succ h.length_le
  · rw [hlen]
    rcases hnext with rfl | hnext
    · exact .inl (Nat.le_refl _)
    · exact .inr hnext

theorem Track.length_le_maxAttempts {runs : List (Begun J)} {job : J} {next : Nat}
    (h : Track config runs job next) : runs.length ≤ (config job).maxAttempts := by
  have hpos := (config job).pos
  have hle := h.length_le
  rcases h.bound with hone | hnext
  · omega
  · omega

/-! ## Carriers -/

inductive Stage where
  | pushed
  | waiting
  | handed (phase : Phase)
deriving DecidableEq

/-- What carries a job, with the sequence number it uses up. -/
structure Carrier (J : Type) where
  seq : Option Nat
  origin : Nat
  job : J
  attempt : Nat
  stage : Stage

def Envelope.carrier (origin : Nat → Nat) (e : Envelope J) : Carrier J :=
  ⟨some e.seq, origin e.seq, e.job, e.attempt, .waiting⟩

def Push.carrier (origin : Nat → Nat) (p : Push J) : Carrier J :=
  ⟨some p.envelope.seq, origin p.envelope.seq, p.envelope.job, p.envelope.attempt, .pushed⟩

def Phase.seq : Phase → Option Nat
  | .adding seq => some seq
  | _ => none

def Execution.carrier (x : Execution J) : Carrier J :=
  ⟨x.phase.seq, x.origin, x.queued.job, x.queued.attempt, .handed x.phase⟩

def carriers (C : Codec J) (w : World J) : List (Carrier J) :=
  (waiting C w.redis).map (Envelope.carrier w.origin) ++ w.executions.map Execution.carrier ++
    w.pushes.map (Push.carrier w.origin)

/-- A carrier is in line with the executions begun so far. -/
def Carrier.Ok (config : J → RetryConfig) (runs : List (Begun J)) (c : Carrier J) : Prop :=
  match c.stage with
  | .pushed => runs = [] ∧ c.seq = some c.origin
  | .waiting => Track config runs c.job c.attempt ∧
      (runs = [] ∨ c.attempt < (config c.job).maxAttempts)
  | .handed phase => Track config runs c.job (c.attempt + 1) ∧
      ((phase = .retrying ∨ phase.seq.isSome) → c.attempt + 1 < (config c.job).maxAttempts)

structure Inv (C : Codec J) (config : J → RetryConfig) (w : World J) : Prop where
  ready : Readable C w.redis.ready
  delayed : Readable C w.redis.delayed
  origins : ((carriers C w).map Carrier.origin).Nodup
  seqs : ((carriers C w).filterMap Carrier.seq).Nodup
  origin_le : ∀ c ∈ carriers C w, c.origin ≤ w.redis.seq
  seq_le : ∀ c ∈ carriers C w, ∀ q, c.seq = some q → q ≤ w.redis.seq ∧ w.origin q = c.origin
  ok : ∀ c ∈ carriers C w, c.Ok config (w.runs c.origin)
  enqueued : ∀ k ∈ w.enqueued, ∃ c ∈ carriers C w, c.origin = k ∧ c.stage ≠ .pushed
  begun : ∀ b ∈ w.begun, ∃ c ∈ carriers C w, c.origin = b.origin

theorem Inv.wf {w : World J} (h : Inv C config w) : Wf C w.redis := by
  refine ⟨h.ready, h.delayed, ?_⟩
  have hseqs := h.seqs
  simp only [carriers, List.filterMap_append, List.filterMap_map] at hseqs
  have hwaiting := (List.nodup_append.mp (List.nodup_append.mp hseqs).1).1
  rwa [show Carrier.seq ∘ Envelope.carrier w.origin = some ∘ Envelope.seq from rfl,
    List.filterMap_eq_map] at hwaiting

theorem inv_start (seq : Nat) : Inv C config (World.start seq) where
  ready x hx := by cases hx
  delayed x hx := by cases hx
  origins := .nil
  seqs := .nil
  origin_le c hc := by cases hc
  seq_le c hc := by cases hc
  ok c hc := by cases hc
  enqueued k hk := by cases hk
  begun b hb := by cases hb

/-- What a step changes outside of the carriers. -/
theorem Inv.setLoop {w : World J} (h : Inv C config w) (worker : Nat) (loop : Loop) :
    Inv C config (w.setLoop worker loop) :=
  ⟨h.ready, h.delayed, h.origins, h.seqs, h.origin_le, h.seq_le, h.ok, h.enqueued, h.begun⟩

/-- A step that replaces one carrier by another of the same job. -/
theorem Inv.replace {w w' : World J} (h : Inv C config w) {c : Carrier J} (c' : Carrier J)
    {rest : List (Carrier J)} (hw : (carriers C w).Perm (c :: rest))
    (hw' : (carriers C w').Perm (c' :: rest)) (ready : Readable C w'.redis.ready)
    (delayed : Readable C w'.redis.delayed) (horigin : c'.origin = c.origin)
    (hmono : w.redis.seq ≤ w'.redis.seq) (hsame : ∀ q ≤ w.redis.seq, w'.origin q = w.origin q)
    (hseq : ∀ q, c'.seq = some q →
      (c.seq = some q ∨ w.redis.seq < q) ∧ q ≤ w'.redis.seq ∧ w'.origin q = c'.origin)
    (hruns : ∀ k, k ≠ c.origin → w'.runs k = w.runs k) (hok : c'.Ok config (w'.runs c'.origin))
    (henq : ∀ k ∈ w'.enqueued, k ∈ w.enqueued ∨ k = c'.origin ∧ c'.stage ≠ .pushed)
    (hstage : c.stage ≠ .pushed → c'.stage ≠ .pushed)
    (hbegun : ∀ b ∈ w'.begun, b ∈ w.begun ∨ b.origin = c.origin) : Inv C config w' := by
  have hmem : ∀ d ∈ rest, d ∈ carriers C w := fun d hd =>
    hw.mem_iff.mpr (List.mem_cons_of_mem c hd)
  have hc : c ∈ carriers C w := hw.mem_iff.mpr List.mem_cons_self
  have horigins := (hw.map Carrier.origin).nodup_iff.mp h.origins
  have hseqs := (hw.filterMap Carrier.seq).nodup_iff.mp h.seqs
  rw [List.map_cons, List.nodup_cons] at horigins
  have hne : ∀ d ∈ rest, d.origin ≠ c.origin := fun d hd heq =>
    horigins.1 (heq ▸ List.mem_map_of_mem hd)
  have hall : ∀ {P : Carrier J → Prop}, P c' → (∀ d ∈ rest, P d) → ∀ d ∈ carriers C w', P d := by
    intro P hc' hrest d hd
    rcases List.mem_cons.mp (hw'.mem_iff.mp hd) with rfl | hd
    · exact hc'
    · exact hrest d hd
  have hthere : ∀ d ∈ carriers C w, ∃ d' ∈ carriers C w', d'.origin = d.origin ∧
      (d.stage ≠ .pushed → d'.stage ≠ .pushed) := by
    intro d hd
    rcases List.mem_cons.mp (hw.mem_iff.mp hd) with rfl | hd
    · exact ⟨c', hw'.mem_iff.mpr List.mem_cons_self, horigin, hstage⟩
    · exact ⟨d, hw'.mem_iff.mpr (List.mem_cons_of_mem c' hd), rfl, id⟩
  refine ⟨ready, delayed, ?_, ?_, ?_, ?_, ?_, ?_, ?_⟩
  · refine (hw'.map Carrier.origin).nodup_iff.mpr ?_
    rw [List.map_cons, horigin]
    exact List.nodup_cons.mpr horigins
  · refine (hw'.filterMap Carrier.seq).nodup_iff.mpr ?_
    have hrest : (rest.filterMap Carrier.seq).Nodup :=
      hseqs.sublist ((List.sublist_cons_self c rest).filterMap _)
    cases hq : c'.seq with
    | none => rwa [List.filterMap_cons_none hq]
    | some q =>
      rw [List.filterMap_cons_some hq, List.nodup_cons]
      refine ⟨fun hin => ?_, hrest⟩
      obtain ⟨d, hd, hdq⟩ := List.mem_filterMap.mp hin
      rcases (hseq q hq).1 with hcq | hlt
      · rw [List.filterMap_cons_some hcq, List.nodup_cons] at hseqs
        exact hseqs.1 hin
      · have := (h.seq_le d (hmem d hd) q hdq).1
        omega
  · exact hall (by rw [horigin]; exact (h.origin_le c hc).trans hmono) fun d hd =>
      (h.origin_le d (hmem d hd)).trans hmono
  · refine hall (fun q hq => (hseq q hq).2) fun d hd q hq => ?_
    obtain ⟨hle, ho⟩ := h.seq_le d (hmem d hd) q hq
    exact ⟨hle.trans hmono, (hsame q hle).trans ho⟩
  · refine hall hok fun d hd => ?_
    rw [hruns d.origin (hne d hd)]
    exact h.ok d (hmem d hd)
  · intro k hk
    rcases henq k hk with hk | ⟨rfl, hpushed⟩
    · obtain ⟨d, hd, rfl, hstage'⟩ := h.enqueued k hk
      obtain ⟨d', hd', ho, hs⟩ := hthere d hd
      exact ⟨d', hd', ho, hs hstage'⟩
    · exact ⟨c', hw'.mem_iff.mpr List.mem_cons_self, rfl, hpushed⟩
  · intro b hb
    rcases hbegun b hb with hb | hb
    · obtain ⟨d, hd, ho⟩ := h.begun b hb
      obtain ⟨d', hd', ho', _⟩ := hthere d hd
      exact ⟨d', hd', ho'.trans ho⟩
    · exact ⟨c', hw'.mem_iff.mpr List.mem_cons_self, horigin.trans hb.symm⟩

/-! ## Each step -/

section Steps

variable {w w' : World J}

/-- Whatever is in Redis in another arrangement. -/
theorem Inv.setRedis (h : Inv C config w) {redis : State} (hwf : Wf C redis)
    (hperm : (waiting C redis).Perm (waiting C w.redis)) (hseq : redis.seq = w.redis.seq) :
    Inv C config (w.setRedis redis) := by
  have hcarriers : (carriers C (w.setRedis redis)).Perm (carriers C w) :=
    ((hperm.map _).append_right _).append_right _
  refine ⟨hwf.ready, hwf.delayed, ?_, ?_, ?_, ?_, ?_, ?_, ?_⟩
  · exact (hcarriers.map _).nodup_iff.mpr h.origins
  · exact (hcarriers.filterMap _).nodup_iff.mpr h.seqs
  · intro c hc
    show c.origin ≤ redis.seq
    rw [hseq]
    exact h.origin_le c (hcarriers.mem_iff.mp hc)
  · intro c hc q hq
    show q ≤ redis.seq ∧ _
    rw [hseq]
    exact h.seq_le c (hcarriers.mem_iff.mp hc) q hq
  · exact fun c hc => h.ok c (hcarriers.mem_iff.mp hc)
  · intro k hk
    obtain ⟨c, hc, hk⟩ := h.enqueued k hk
    exact ⟨c, hcarriers.mem_iff.mpr hc, hk⟩
  · intro b hb
    obtain ⟨c, hc, hb⟩ := h.begun b hb
    exact ⟨c, hcarriers.mem_iff.mpr hc, hb⟩

theorem perm_eraseIdx {α : Type} {l : List α} {i : Nat} {x : α} (h : l[i]? = some x) :
    l.Perm (x :: l.eraseIdx i) := by
  obtain ⟨hi, rfl⟩ := List.getElem?_eq_some_iff.mp h
  exact (List.getElem_cons_eraseIdx_perm hi).symm

theorem perm_set {α : Type} {l : List α} {i : Nat} {x : α} (h : l[i]? = some x) (y : α) :
    (l.set i y).Perm (y :: l.eraseIdx i) :=
  List.set_perm_cons_eraseIdx (List.getElem?_eq_some_iff.mp h).1 y

/-- A sequence number that is not used yet. -/
theorem Inv.carriers_update (h : Inv C config w) {q : Nat} (hq : w.redis.seq < q) (k : Nat) :
    (waiting C w.redis).map (Envelope.carrier (Function.update w.origin q k)) =
        (waiting C w.redis).map (Envelope.carrier w.origin) ∧
      w.pushes.map (Push.carrier (Function.update w.origin q k)) =
        w.pushes.map (Push.carrier w.origin) := by
  have hne : ∀ c ∈ carriers C w, c.seq ≠ some q := fun c hc heq => by
    have := (h.seq_le c hc q heq).1
    omega
  constructor
  · refine List.map_congr_left fun e he => ?_
    have := hne (e.carrier w.origin) (List.mem_append_left _ (List.mem_append_left _
      (List.mem_map_of_mem he)))
    have hseq : e.seq ≠ q := fun heq => this (congrArg some heq)
    unfold Envelope.carrier
    rw [Function.update_of_ne hseq]
  · refine List.map_congr_left fun p hp => ?_
    have := hne (p.carrier w.origin) (List.mem_append_right _ (List.mem_map_of_mem hp))
    have hseq : p.envelope.seq ≠ q := fun heq => this (congrArg some heq)
    unfold Push.carrier
    rw [Function.update_of_ne hseq]

theorem nextSeq_eq_some {s s' : State} {q : Nat} (h : nextSeq s = some (q, s')) :
    q = s.seq + 1 ∧ s' = { s with seq := s.seq + 1 } := by
  unfold nextSeq at h
  split at h
  · cases h
    exact ⟨rfl, rfl⟩
  · cases h

theorem Inv.runs_eq_nil (h : Inv C config w) {k : Nat} (hk : w.redis.seq < k) : w.runs k = [] := by
  refine List.filter_eq_nil_iff.mpr fun b hb heq => ?_
  obtain ⟨c, hc, hb⟩ := h.begun b hb
  have hle := h.origin_le c hc
  have : b.origin = k := of_decide_eq_true heq
  omega

theorem Inv.beginPush (h : Inv C config w) {job : J} {priority : Int} {attempt : Nat}
    {delayed : Bool} (hw : beginPush job priority attempt delayed w = some w') :
    Inv C config w' := by
  obtain ⟨⟨q, redis⟩, hseq, rfl⟩ := Option.map_eq_some_iff.mp hw
  obtain ⟨rfl, rfl⟩ := nextSeq_eq_some hseq
  obtain ⟨hwaiting, hpushes⟩ := h.carriers_update (Nat.lt_succ_self _) (w.redis.seq + 1)
  -- one more carrier, with a new number for its job
  let c : Carrier J := ⟨some (w.redis.seq + 1), w.redis.seq + 1, job, attempt, .pushed⟩
  have hnew : Push.carrier (Function.update w.origin (w.redis.seq + 1) (w.redis.seq + 1))
      ⟨⟨w.redis.seq + 1, priority, attempt, job⟩, delayed⟩ = c := by
    simp only [Push.carrier, Function.update_self, c]
  have hperm : ((waiting C w.redis).map
      (Envelope.carrier (Function.update w.origin (w.redis.seq + 1) (w.redis.seq + 1))) ++
        w.executions.map Execution.carrier ++
          (w.pushes ++ [(⟨⟨w.redis.seq + 1, priority, attempt, job⟩, delayed⟩ : Push J)]).map
            (Push.carrier (Function.update w.origin (w.redis.seq + 1) (w.redis.seq + 1)))).Perm
      (c :: carriers C w) := by
    rw [List.map_append, List.map_singleton, hnew, hpushes, hwaiting, ← List.append_assoc]
    exact List.perm_append_singleton _ _
  have hold : ∀ d ∈ carriers C w, d.origin ≠ w.redis.seq + 1 := fun d hd heq => by
    have := h.origin_le d hd
    omega
  refine ⟨h.ready, h.delayed, ?_, ?_, ?_, ?_, ?_, ?_, ?_⟩
  · refine (hperm.map _).nodup_iff.mpr (List.nodup_cons.mpr ⟨fun hin => ?_, h.origins⟩)
    obtain ⟨d, hd, heq⟩ := List.mem_map.mp hin
    exact hold d hd heq
  · refine (hperm.filterMap _).nodup_iff.mpr ?_
    rw [List.filterMap_cons_some (show c.seq = some (w.redis.seq + 1) from rfl), List.nodup_cons]
    refine ⟨fun hin => ?_, h.seqs⟩
    obtain ⟨d, hd, heq⟩ := List.mem_filterMap.mp hin
    have := (h.seq_le d hd _ heq).1
    omega
  · intro d hd
    rcases List.mem_cons.mp (hperm.mem_iff.mp hd) with rfl | hd
    · exact Nat.le_refl _
    · exact Nat.le_succ_of_le (h.origin_le d hd)
  · intro d hd q hq
    rcases List.mem_cons.mp (hperm.mem_iff.mp hd) with rfl | hd
    · cases hq
      exact ⟨Nat.le_refl _, Function.update_self _ _ _⟩
    · obtain ⟨hle, ho⟩ := h.seq_le d hd q hq
      refine ⟨Nat.le_succ_of_le hle, ?_⟩
      show Function.update w.origin _ _ q = _
      rw [Function.update_of_ne (by omega)]
      exact ho
  · intro d hd
    rcases List.mem_cons.mp (hperm.mem_iff.mp hd) with rfl | hd
    · exact ⟨h.runs_eq_nil (Nat.lt_succ_self _), rfl⟩
    · exact h.ok d hd
  · intro k hk
    obtain ⟨d, hd, hk⟩ := h.enqueued k hk
    exact ⟨d, hperm.mem_iff.mpr (List.mem_cons_of_mem _ hd), hk⟩
  · intro b hb
    obtain ⟨d, hd, hb⟩ := h.begun b hb
    exact ⟨d, hperm.mem_iff.mpr (List.mem_cons_of_mem _ hd), hb⟩

theorem carriers_eraseIdx_pushes {i : Nat} {p : Push J} (hp : w.pushes[i]? = some p) :
    (carriers C w).Perm (p.carrier w.origin ::
      ((waiting C w.redis).map (Envelope.carrier w.origin) ++ w.executions.map Execution.carrier ++
        (w.pushes.eraseIdx i).map (Push.carrier w.origin))) :=
  (((perm_eraseIdx hp).map _).append_left _).trans List.perm_middle

theorem carriers_eraseIdx_executions {i : Nat} {x : Execution J} (hx : w.executions[i]? = some x) :
    (carriers C w).Perm (x.carrier :: ((waiting C w.redis).map (Envelope.carrier w.origin) ++
      (w.executions.eraseIdx i).map Execution.carrier ++ w.pushes.map (Push.carrier w.origin))) :=
  ((((perm_eraseIdx hx).map _).append_left _).trans List.perm_middle).append_right _

/-- The number of a carrier is that of no other. -/
theorem Inv.seq_notMem (h : Inv C config w) {c : Carrier J} {rest : List (Carrier J)} {q : Nat}
    (hw : (carriers C w).Perm (c :: rest)) (hq : c.seq = some q) :
    q ∉ rest.filterMap Carrier.seq := by
  have hseqs := (hw.filterMap Carrier.seq).nodup_iff.mp h.seqs
  rw [List.filterMap_cons_some hq, List.nodup_cons] at hseqs
  exact hseqs.1

theorem notMem_waiting_of_notMem {q : Nat} {es : List (Envelope J)} {origin : Nat → Nat}
    {l l' : List (Carrier J)}
    (h : q ∉ (es.map (Envelope.carrier origin) ++ l ++ l').filterMap Carrier.seq) :
    q ∉ es.map Envelope.seq := by
  intro hin
  obtain ⟨e, he, rfl⟩ := List.mem_map.mp hin
  refine h (List.mem_filterMap.mpr ⟨e.carrier origin, ?_, rfl⟩)
  exact List.mem_append_left _ (List.mem_append_left _ (List.mem_map_of_mem he))

theorem Inv.add (hC : C.Lawful) (h : Inv C config w) {i : Nat} {readyAtMs : Int} {p : Push J}
    (hp : w.pushes[i]? = some p) :
    Inv C config { w with
      redis := if p.delayed then addDelayed C p.envelope readyAtMs w.redis
        else addReady C p.envelope w.redis
      pushes := w.pushes.eraseIdx i
      enqueued := w.enqueued ++ [p.envelope.seq] } := by
  have hw := carriers_eraseIdx_pushes (C := C) hp
  have hnew := notMem_waiting_of_notMem (h.seq_notMem hw rfl)
  have hc := hw.mem_iff.mpr List.mem_cons_self
  obtain ⟨hruns, hseq⟩ := h.ok _ hc
  have hredis : ∀ redis, redis = (if p.delayed then addDelayed C p.envelope readyAtMs w.redis
      else addReady C p.envelope w.redis) →
      (waiting C redis).Perm (p.envelope :: waiting C w.redis) ∧ Readable C redis.ready ∧
        Readable C redis.delayed ∧ redis.seq = w.redis.seq := by
    intro redis hredis
    split at hredis
    · rw [hredis]
      exact ⟨waiting_addDelayed hC h.delayed readyAtMs hnew, h.ready,
        readable_zadd h.delayed _ _, rfl⟩
    · rw [hredis]
      exact ⟨waiting_addReady hC h.ready hnew, readable_zadd h.ready _ _, h.delayed, rfl⟩
  obtain ⟨hperm, hready, hdelayed, hsame⟩ := hredis _ rfl
  refine h.replace (p.envelope.carrier w.origin) hw ?_ hready hdelayed rfl (le_of_eq hsame.symm)
    (fun _ _ => rfl) ?_ (fun _ _ => rfl) ⟨?_, .inl hruns⟩ ?_ (fun _ => nofun) (fun b hb => .inl hb)
  · exact ((hperm.map _).append_right _).append_right _
  · intro q hq
    obtain ⟨hle, ho⟩ := h.seq_le _ hc q hq
    exact ⟨.inl hq, hsame ▸ hle, ho⟩
  · show Track config (w.runs _) _ _
    rw [show w.runs (p.envelope.carrier w.origin).origin = [] from hruns]
    exact track_nil _ _
  · intro k hk
    rcases List.mem_append.mp hk with hk | hk
    · exact .inl hk
    · refine .inr ⟨?_, nofun⟩
      rw [List.mem_singleton.mp hk]
      exact Option.some.inj hseq

theorem Inv.giveUp (h : Inv C config w) (i : Nat) :
    Inv C config { w with pushes := w.pushes.eraseIdx i } := by
  have hsub : ((waiting C w.redis).map (Envelope.carrier w.origin) ++
      w.executions.map Execution.carrier ++ (w.pushes.eraseIdx i).map (Push.carrier w.origin)).Sublist
      (carriers C w) := ((List.eraseIdx_sublist _ _).map _).append_left _
  have hkeep : ∀ c ∈ carriers C w, c.stage ≠ .pushed → c ∈ (waiting C w.redis).map
      (Envelope.carrier w.origin) ++ w.executions.map Execution.carrier ++
        (w.pushes.eraseIdx i).map (Push.carrier w.origin) := by
    intro c hc hstage
    rcases List.mem_append.mp hc with hc | hc
    · exact List.mem_append_left _ hc
    · obtain ⟨p, _, rfl⟩ := List.mem_map.mp hc
      exact absurd rfl hstage
  refine ⟨h.ready, h.delayed, h.origins.sublist (hsub.map _), h.seqs.sublist (hsub.filterMap _),
    fun c hc => h.origin_le c (hsub.subset hc), fun c hc => h.seq_le c (hsub.subset hc),
    fun c hc => h.ok c (hsub.subset hc), ?_, ?_⟩
  · intro k hk
    obtain ⟨c, hc, ho, hstage⟩ := h.enqueued k hk
    exact ⟨c, hkeep c hc hstage, ho, hstage⟩
  · intro b hb
    obtain ⟨c, hc, ho⟩ := h.begun b hb
    refine ⟨c, hkeep c hc fun hstage => ?_, ho⟩
    -- nothing has begun of a job that is not enqueued
    have hok := h.ok c hc
    rw [Carrier.Ok, hstage] at hok
    have hin : b ∈ w.runs c.origin := List.mem_filter.mpr ⟨hb, decide_eq_true ho.symm⟩
    rw [hok.1] at hin
    cases hin

theorem Inv.handOver (hC : C.Lawful) (h : Inv C config w) {x : ZEntry} {redis : State}
    (hpop : popReady w.redis = some (x, redis)) (worker : Nat) :
    Inv C config (handOver C worker x.member (w.setRedis redis)) := by
  obtain ⟨e, he, hperm, hready, hdelayed, hseq⟩ := popReady_spec hC h.wf hpop
  unfold Queue.handOver
  rw [he]
  have hw : (carriers C w).Perm (e.carrier w.origin :: ((waiting C redis).map
      (Envelope.carrier w.origin) ++ w.executions.map Execution.carrier ++
        w.pushes.map (Push.carrier w.origin))) :=
    ((hperm.map _).append_right _).append_right _
  have hc := hw.mem_iff.mpr List.mem_cons_self
  obtain ⟨htrack, hbound⟩ := h.ok _ hc
  let x' : Execution J :=
    ⟨worker, ⟨e.job, e.priority, e.attempt⟩, .running, w.origin e.seq⟩
  have hw' : ((waiting C redis).map (Envelope.carrier w.origin) ++
      (w.executions ++ [x']).map Execution.carrier ++ w.pushes.map (Push.carrier w.origin)).Perm
      (x'.carrier :: ((waiting C redis).map (Envelope.carrier w.origin) ++
        w.executions.map Execution.carrier ++ w.pushes.map (Push.carrier w.origin))) := by
    rw [List.map_append, ← List.append_assoc]
    exact (List.perm_append_singleton _ _).append_right _
  have hruns : ∀ k, ({ (w.setRedis redis).setLoop worker .acquiring with
      executions := w.executions ++ [x']
      begun := w.begun ++ [⟨w.origin e.seq, e.job, e.attempt⟩] } : World J).runs k =
      w.runs k ++ List.filter (fun b => b.origin = k) [⟨w.origin e.seq, e.job, e.attempt⟩] :=
    fun k => List.filter_append _ _
  refine h.replace x'.carrier hw hw' hready (hdelayed ▸ h.delayed) rfl (le_of_eq hseq.symm)
    (fun _ _ => rfl) (fun q hq => nomatch hq) ?_ ?_ (fun k hk => .inl hk) (fun _ => nofun) ?_
  · intro k hk
    refine (hruns k).trans ?_
    rw [List.filter_cons_of_neg (by simpa using fun heq => hk heq.symm), List.filter_nil,
      List.append_nil]
  · have hself := hruns (w.origin e.seq)
    rw [List.filter_cons_of_pos (by simp), List.filter_nil] at hself
    have hsnoc := htrack.snoc (b := ⟨w.origin e.seq, e.job, e.attempt⟩) hbound rfl rfl
    change Track config (w.runs (w.origin e.seq) ++ _) _ _ at hsnoc
    rw [← hself] at hsnoc
    refine ⟨hsnoc, fun hphase => ?_⟩
    · rcases hphase with hphase | hphase
      · cases hphase
      · cases hphase
  · intro b hb
    rcases List.mem_append.mp hb with hb | hb
    · exact .inl hb
    · exact .inr (by rw [List.mem_singleton.mp hb]; rfl)

theorem phaseAfter_seq (queued : QueuedJob J) (result : Result) :
    (phaseAfter config queued result).seq = none := by
  cases result with
  | ok => rfl
  | permanent => rfl
  | transient =>
    show (if _ then Phase.retrying else Phase.done .transient).seq = none
    split <;> rfl

theorem phaseAfter_retrying {queued : QueuedJob J} {result : Result}
    (h : phaseAfter config queued result = .retrying) :
    queued.attempt + 1 < (config queued.job).maxAttempts := by
  cases result with
  | ok => cases h
  | permanent => cases h
  | transient =>
    change (if _ then Phase.retrying else Phase.done .transient) = _ at h
    split at h
    · assumption
    · cases h

theorem carriers_setPhase {i : Nat} {x : Execution J} (hx : w.executions[i]? = some x)
    (phase : Phase) : ((waiting C w.redis).map (Envelope.carrier w.origin) ++
      (w.executions.set i { x with phase }).map Execution.carrier ++
        w.pushes.map (Push.carrier w.origin)).Perm
      (Execution.carrier { x with phase } :: ((waiting C w.redis).map (Envelope.carrier w.origin) ++
        (w.executions.eraseIdx i).map Execution.carrier ++ w.pushes.map (Push.carrier w.origin))) :=
  ((((perm_set hx _).map _).append_left _).trans List.perm_middle).append_right _

theorem Inv.finish (h : Inv C config w) {i : Nat} {x : Execution J}
    (hx : w.executions[i]? = some x) (result : Result) :
    Inv C config (w.setPhase i x (phaseAfter config x.queued result)) := by
  have hw := carriers_eraseIdx_executions (C := C) hx
  obtain ⟨htrack, _⟩ := h.ok _ (hw.mem_iff.mpr List.mem_cons_self)
  refine h.replace (Execution.carrier { x with phase := phaseAfter config x.queued result })
    hw (carriers_setPhase hx _) h.ready h.delayed rfl (Nat.le_refl _) (fun _ _ => rfl) ?_
    (fun _ _ => rfl) ⟨htrack, ?_⟩ (fun k hk => .inl hk) (fun _ => nofun) (fun b hb => .inl hb)
  · intro q hq
    change (phaseAfter config x.queued result).seq = some q at hq
    rw [phaseAfter_seq] at hq
    cases hq
  · rintro (hphase | hphase)
    · exact phaseAfter_retrying hphase
    · rw [phaseAfter_seq] at hphase
      cases hphase

theorem Inv.retryIncr (h : Inv C config w) {i : Nat} {x : Execution J} {seq : Nat} {redis : State}
    (hx : w.executions[i]? = some x) (hphase : x.phase = .retrying)
    (hseq : nextSeq w.redis = some (seq, redis)) :
    Inv C config { (w.setPhase i x (.adding seq)).setRedis redis with
      origin := Function.update w.origin seq x.origin } := by
  obtain ⟨rfl, rfl⟩ := nextSeq_eq_some hseq
  obtain ⟨hwaiting, hpushes⟩ := h.carriers_update (Nat.lt_succ_self _) x.origin
  have hw := carriers_eraseIdx_executions (C := C) hx
  obtain ⟨htrack, hbound⟩ := h.ok _ (hw.mem_iff.mpr List.mem_cons_self)
  refine h.replace (Execution.carrier { x with phase := .adding (w.redis.seq + 1) })
    hw ?_ h.ready h.delayed rfl (Nat.le_succ _) ?_ ?_ (fun _ _ => rfl) ⟨htrack, fun _ => ?_⟩
    (fun k hk => .inl hk) (fun _ => nofun) (fun b hb => .inl hb)
  · have hperm := carriers_setPhase (C := C) hx (.adding (w.redis.seq + 1))
    rw [← hwaiting, ← hpushes] at hperm
    refine hperm.trans ?_
    rw [hwaiting, hpushes]
  · intro q hq
    exact Function.update_of_ne (by omega) _ _
  · intro q hq
    cases hq
    exact ⟨.inr (Nat.lt_succ_self _), Nat.le_refl _, Function.update_self _ _ _⟩
  · exact hbound (.inl hphase)

theorem Inv.retryAdd (hC : C.Lawful) (h : Inv C config w) {i : Nat} {x : Execution J} {seq : Nat}
    (hx : w.executions[i]? = some x) (hphase : x.phase = .adding seq) (readyAtMs : Int) :
    Inv C config { w with
      redis := addDelayed C (retryEnvelope x seq) readyAtMs w.redis
      executions := w.executions.eraseIdx i } := by
  have hw := carriers_eraseIdx_executions (C := C) hx
  have hc := hw.mem_iff.mpr List.mem_cons_self
  have hcseq : x.carrier.seq = some seq := by
    show x.phase.seq = _
    rw [hphase]
    rfl
  obtain ⟨htrack, hbound⟩ := h.ok _ hc
  obtain ⟨hle, horigin⟩ := h.seq_le _ hc seq hcseq
  have hnew := notMem_waiting_of_notMem (h.seq_notMem hw hcseq)
  have hperm := waiting_addDelayed hC h.delayed (e := retryEnvelope x seq) readyAtMs hnew
  refine h.replace ((retryEnvelope x seq).carrier w.origin) hw
    (((hperm.map _).append_right _).append_right _) h.ready (readable_zadd h.delayed _ _) horigin
    (Nat.le_refl _) (fun _ _ => rfl) ?_ (fun _ _ => rfl) ?_ (fun k hk => .inl hk) (fun _ => nofun)
    (fun b hb => .inl hb)
  · intro q hq
    cases hq
    exact ⟨.inl hcseq, hle, rfl⟩
  · have hruns : w.runs ((retryEnvelope x seq).carrier w.origin).origin = w.runs x.carrier.origin :=
      congrArg w.runs horigin
    refine ⟨?_, .inr (hbound (.inr ?_))⟩
    · show Track config (w.runs _) _ _
      rw [hruns]
      exact htrack
    · rw [hphase]
      rfl

theorem execution_eq_some {i : Nat} {x : Execution J} (h : w.execution i = some x) :
    w.executions[i]? = some x := (Option.filter_eq_some_iff.mp h).1

theorem inv_step (hC : C.Lawful) (h : Inv C config w) {a : Action J}
    (hw : (machine C config maxConcurrent).step w a = some w') : Inv C config w' := by
  change step C config maxConcurrent w a = some w' at hw
  cases a with
  | enqueue job priority => exact h.beginPush hw
  | enqueueRetry job priority attempt => exact h.beginPush hw
  | add i readyAtMs =>
    obtain ⟨p, hp, rfl⟩ := Option.map_eq_some_iff.mp hw
    exact h.add hC hp
  | giveUp i =>
    simp only [step] at hw
    split at hw <;> cases hw
    exact h.giveUp i
  | shutdown worker =>
    cases hw
    exact ⟨h.ready, h.delayed, h.origins, h.seqs, h.origin_le, h.seq_le, h.ok, h.enqueued, h.begun⟩
  | promote worker nowMs =>
    simp only [step] at hw
    split at hw <;> cases hw
    obtain ⟨hwf, hperm, hseq⟩ := waiting_promoteDue hC nowMs h.wf
    exact (h.setLoop worker .popping).setRedis hwf hperm hseq
  | pop worker =>
    simp only [step] at hw
    split at hw
    · split at hw <;> cases hw
      · exact h.setLoop worker _
      · rename_i x redis hpop
        exact h.handOver hC hpop worker
    · cases hw
  | finish i result =>
    obtain ⟨x, hx, hw⟩ := Option.bind_eq_some_iff.mp hw
    split at hw
    · cases hw
      exact h.finish (execution_eq_some hx) result
    · cases hw
  | retryIncr i =>
    obtain ⟨x, hx, hw⟩ := Option.bind_eq_some_iff.mp hw
    split at hw
    · obtain ⟨⟨seq, redis⟩, hseq, rfl⟩ := Option.map_eq_some_iff.mp hw
      exact h.retryIncr (execution_eq_some hx) (by assumption) hseq
    · cases hw
  | retryAdd i readyAtMs =>
    obtain ⟨x, hx, hw⟩ := Option.bind_eq_some_iff.mp hw
    split at hw
    · rename_i seq hphase
      cases hw
      exact h.retryAdd hC (execution_eq_some hx) hphase readyAtMs
    · cases hw
  | acquire worker | stop worker | check worker | promoteFails worker | popFails worker
  | drained worker =>
    simp only [step] at hw
    split at hw <;> cases hw
    exact h.setLoop worker _

end Steps

/-! ## Runs -/

section Runs

theorem inv_run (hC : C.Lawful) {seq : Nat} {as : List (Action J)} {w : World J}
    (h : (machine C config maxConcurrent).run (.start seq) as = some w) : Inv C config w :=
  (machine C config maxConcurrent).run_inv (fun hI hs => inv_step hC hI hs) (inv_start seq) h

/-- Where the enqueued jobs are: in the ready or the delayed set, or at a worker. -/
def places (C : Codec J) (w : World J) : List Nat :=
  (stored C w.redis.ready).map (fun e => w.origin e.seq) ++
    (stored C w.redis.delayed).map (fun e => w.origin e.seq) ++ w.executions.map Execution.origin

theorem origins_eq_places (w : World J) : (carriers C w).map Carrier.origin =
    places C w ++ w.pushes.map fun p => w.origin p.envelope.seq := by
  simp only [carriers, places, waiting, List.map_append, List.map_map]
  rfl

theorem Inv.count_places {w : World J} (h : Inv C config w) {k : Nat} (hk : k ∈ w.enqueued) :
    (places C w).count k = 1 := by
  have horigins := h.origins
  rw [origins_eq_places] at horigins
  refine List.count_eq_one_of_mem (List.nodup_append.mp horigins).1 ?_
  obtain ⟨c, hc, rfl, hstage⟩ := h.enqueued k hk
  have hin : c.origin ∈ places C w ++ w.pushes.map fun p => w.origin p.envelope.seq := by
    rw [← origins_eq_places]
    exact List.mem_map_of_mem hc
  rcases List.mem_append.mp hin with hin | _
  · exact hin
  · rcases List.mem_append.mp hc with hc | hc
    · rw [places, ← List.map_append]
      rcases List.mem_append.mp hc with hc | hc
      · obtain ⟨e, he, rfl⟩ := List.mem_map.mp hc
        exact List.mem_append_left _ (List.mem_map_of_mem he)
      · obtain ⟨x, hx, rfl⟩ := List.mem_map.mp hc
        exact List.mem_append_right _ (List.mem_map_of_mem hx)
    · obtain ⟨p, _, rfl⟩ := List.mem_map.mp hc
      exact absurd rfl hstage

/-- The executions begun of a job are consecutive attempts of it, within its bound. -/
theorem Inv.attempts {w : World J} (h : Inv C config w) {b : Begun J} (hb : b ∈ w.begun) :
    (∀ b' ∈ w.runs b.origin, b'.job = b.job) ∧
      (∃ first, (w.runs b.origin).map Begun.attempt =
        List.range' first (w.runs b.origin).length) ∧
      (w.runs b.origin).length ≤ (config b.job).maxAttempts := by
  obtain ⟨c, hc, ho⟩ := h.begun b hb
  have hin : b ∈ w.runs b.origin := List.mem_filter.mpr ⟨hb, decide_eq_true rfl⟩
  have htrack : ∃ next, Track config (w.runs b.origin) c.job next := by
    have hok := h.ok c hc
    rw [ho] at hok
    unfold Carrier.Ok at hok
    split at hok
    · rw [hok.1] at hin
      cases hin
    · exact ⟨_, hok.1⟩
    · exact ⟨_, hok.1⟩
  obtain ⟨next, htrack⟩ := htrack
  have hjob : b.job = c.job := htrack.jobs b hin
  refine ⟨fun b' hb' => (htrack.jobs b' hb').trans hjob.symm, ⟨_, htrack.attempts⟩, ?_⟩
  rw [hjob]
  exact htrack.length_le_maxAttempts

/-! ### What has ended stays so -/

/-- An execution that has ended, and the executions begun up to then. -/
structure Ended (x : Execution J) (runs : List (Begun J)) (w : World J) : Prop where
  mem : x ∈ w.executions
  runs : w.runs x.origin = runs

theorem mem_eraseIdx_of_ne {α : Type} {l : List α} {i : Nat} {x y : α} (h : l[i]? = some y)
    (hx : x ∈ l) (hne : x ≠ y) : x ∈ l.eraseIdx i :=
  (List.mem_cons.mp ((perm_eraseIdx h).mem_iff.mp hx)).resolve_left hne

theorem mem_set_of_ne {α : Type} {l : List α} {i : Nat} {x y : α} (h : l[i]? = some y)
    (hx : x ∈ l) (hne : x ≠ y) (z : α) : x ∈ l.set i z :=
  (perm_set h z).mem_iff.mpr (List.mem_cons_of_mem z (mem_eraseIdx_of_ne h hx hne))

theorem Ended.handOver (hC : C.Lawful) {x : Execution J} {runs : List (Begun J)} {w : World J}
    (hI : Inv C config w) (h : Ended x runs w) {y : ZEntry} {redis : State}
    (hpop : popReady w.redis = some (y, redis)) (worker : Nat) :
    Ended x runs (handOver C worker y.member (w.setRedis redis)) := by
  obtain ⟨e, he, hperm, _⟩ := popReady_spec hC hI.wf hpop
  unfold Queue.handOver
  rw [he]
  refine ⟨List.mem_append_left _ h.mem, ?_⟩
  -- the popped envelope is of another job
  have hne : w.origin e.seq ≠ x.origin := by
    intro heq
    have horigins := hI.origins
    rw [origins_eq_places, places] at horigins
    have hplaces := (List.nodup_append.mp horigins).1
    refine (List.nodup_append.mp hplaces).2.2 (w.origin e.seq) ?_ x.origin
      (List.mem_map_of_mem h.mem) heq
    rw [← List.map_append]
    exact List.mem_map_of_mem (hperm.mem_iff.mpr List.mem_cons_self)
  have hruns : World.runs { w with begun := w.begun ++ [⟨w.origin e.seq, e.job, e.attempt⟩] }
      x.origin = w.runs x.origin ++ _ := List.filter_append _ _
  rw [List.filter_cons_of_neg (by simpa using hne), List.filter_nil, List.append_nil] at hruns
  exact hruns.trans h.runs

theorem ended_step (hC : C.Lawful) {x : Execution J} {result : Result}
    (hx : x.phase = .done result) {runs : List (Begun J)} {w w' : World J} {a : Action J}
    (hI : Inv C config w) (h : Ended x runs w)
    (hw : (machine C config maxConcurrent).step w a = some w') : Ended x runs w' := by
  change step C config maxConcurrent w a = some w' at hw
  cases a with
  | enqueue job priority | enqueueRetry job priority attempt =>
    obtain ⟨_, _, rfl⟩ := Option.map_eq_some_iff.mp hw
    exact ⟨h.mem, h.runs⟩
  | add i readyAtMs =>
    obtain ⟨p, hp, rfl⟩ := Option.map_eq_some_iff.mp hw
    exact ⟨h.mem, h.runs⟩
  | shutdown worker =>
    cases hw
    exact ⟨h.mem, h.runs⟩
  | pop worker =>
    simp only [step] at hw
    split at hw
    · split at hw <;> cases hw
      · exact ⟨h.mem, h.runs⟩
      · rename_i y redis hpop
        exact h.handOver hC hI hpop worker
    · cases hw
  | finish i result' =>
    obtain ⟨y, hy, hw⟩ := Option.bind_eq_some_iff.mp hw
    split at hw <;> cases hw
    rename_i hphase
    refine ⟨mem_set_of_ne (execution_eq_some hy) h.mem (fun heq => ?_) _, h.runs⟩
    rw [← heq, hx] at hphase
    cases hphase
  | retryIncr i =>
    obtain ⟨y, hy, hw⟩ := Option.bind_eq_some_iff.mp hw
    split at hw
    · rename_i hphase
      obtain ⟨_, _, rfl⟩ := Option.map_eq_some_iff.mp hw
      refine ⟨mem_set_of_ne (execution_eq_some hy) h.mem (fun heq => ?_) _, h.runs⟩
      rw [← heq, hx] at hphase
      cases hphase
    · cases hw
  | retryAdd i readyAtMs =>
    obtain ⟨y, hy, hw⟩ := Option.bind_eq_some_iff.mp hw
    split at hw
    · rename_i seq hphase
      cases hw
      refine ⟨mem_eraseIdx_of_ne (execution_eq_some hy) h.mem fun heq => ?_, h.runs⟩
      rw [← heq, hx] at hphase
      cases hphase
    · cases hw
  | giveUp _ | acquire worker | stop worker | check worker | promote worker nowMs
  | promoteFails worker | popFails worker | drained worker =>
    simp only [step] at hw
    split at hw <;> cases hw
    exact ⟨h.mem, h.runs⟩

/-- In every run: every enqueued job is in exactly one place; promotion only
moves jobs; the executions of a job are consecutive attempts within its bound;
and what has ended is never executed again. -/
theorem jobs_conserved (hC : C.Lawful) (config : J → RetryConfig) (maxConcurrent seq : Nat)
    {as : List (Action J)} {w : World J}
    (h : (machine C config maxConcurrent).run (.start seq) as = some w) :
    (∀ k ∈ w.enqueued, (places C w).count k = 1) ∧
    (∀ worker nowMs w', step C config maxConcurrent w (.promote worker nowMs) = some w' →
      (places C w').Perm (places C w) ∧ w'.executions = w.executions) ∧
    (∀ b ∈ w.begun, (∀ b' ∈ w.runs b.origin, b'.job = b.job) ∧
      (∃ first, (w.runs b.origin).map Begun.attempt =
        List.range' first (w.runs b.origin).length) ∧
      (w.runs b.origin).length ≤ (config b.job).maxAttempts) ∧
    ∀ x ∈ w.executions, ∀ result, x.phase = .done result → ∀ bs w',
      (machine C config maxConcurrent).run w bs = some w' →
        x ∈ w'.executions ∧ w'.runs x.origin = w.runs x.origin := by
  have hI := inv_run hC h
  refine ⟨fun k hk => hI.count_places hk, fun worker nowMs w' hw => ?_, fun b hb => hI.attempts hb,
    fun x hx result hphase bs w' hr => ?_⟩
  · simp only [step] at hw
    split at hw <;> cases hw
    obtain ⟨_, hperm, _⟩ := waiting_promoteDue hC nowMs hI.wf
    refine ⟨?_, rfl⟩
    have hmap := (hperm.map fun e => w.origin e.seq).append_right
      (w.executions.map Execution.origin)
    unfold waiting at hmap
    rw [List.map_append, List.map_append] at hmap
    exact hmap
  · obtain ⟨runs, hruns⟩ : ∃ runs, w.runs x.origin = runs := ⟨_, rfl⟩
    have hend := ((machine C config maxConcurrent).run_inv
      (I := fun w => Inv C config w ∧ Ended x runs w)
      (fun hI hs => ⟨inv_step hC hI.1 hs, ended_step hC hphase hI.1 hI.2 hs⟩)
      ⟨hI, hx, hruns⟩ hr).2
    exact ⟨hend.mem, hend.runs.trans hruns.symm⟩

def oneRetry : RetryConfig := ⟨3, by decide⟩

/-- A job that fails, is put off, promoted by another worker, and then succeeds there. -/
def failThenSucceed : List (Action Unit) :=
  [.enqueue () NORMAL, .add 0 0, .acquire 0, .check 0, .promote 0 5, .pop 0, .finish 0 .transient,
    .acquire 1, .check 1, .retryIncr 0, .retryAdd 0 10, .promote 1 20, .pop 1, .finish 0 .ok]

theorem jobs_conserved_retry : ∃ w,
    (machine plain (fun _ => oneRetry) 32).run (.start 0) failThenSucceed = some w ∧
      (places plain w).count 1 = 1 := by
  obtain ⟨w, hw⟩ : ∃ w, (machine plain (fun _ => oneRetry) 32).run (.start 0) failThenSucceed =
      some w := Option.isSome_iff_exists.mp (by decide)
  have henq : ((machine plain (fun _ => oneRetry) 32).run (.start 0) failThenSucceed).map
      World.enqueued = some [1] := by decide
  rw [hw, Option.map_some, Option.some.injEq] at henq
  refine ⟨w, hw, (jobs_conserved lawful_plain (fun _ => oneRetry) 32 0 hw).1 1 ?_⟩
  rw [henq]
  exact List.mem_singleton_self 1

end Runs

end Seiran.Queue
