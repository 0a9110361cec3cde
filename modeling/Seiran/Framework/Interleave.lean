import Seiran.Framework.Run

/-!
# Handlers that interleave

Events are taken up in their order, each by a handler of its own that goes on in
steps. The steps of the handlers interleave.

* `inOrder`: the events one after another;
* `Footprint`: what a handler may still use and write, of a state with keys;
* `next_finish`: a step before or after the rest of a handler that is apart from it;
* `inOrder_of_run`: where no step is made, and no event taken up, that is not apart from
  what the handlers of earlier events are still to do, the state is in the end that of
  the events one after another.
-/

namespace Seiran

universe u v w x y

/-- The handlers of events. -/
structure Handlers (σ : Type u) (ε : Type v) (τ : Type w) where
  /-- Taking up an event; there may be nothing to do. -/
  start : ε → σ → Option τ
  next : τ → σ → Option τ × σ
  /-- A bound on the steps that are left. -/
  size : τ → Nat
  next_size : ∀ {t t' s}, (next t s).1 = some t' → size t' < size t

/-- The state, and the handlers that have not ended, in the order of their events. -/
structure Running (σ : Type u) (τ : Type w) where
  state : σ
  tasks : List τ

namespace Handlers

variable {σ : Type u} {ε : Type v} {τ : Type w} (H : Handlers σ ε τ)

/-- A handler alone, for a number of steps -/
def finishIn : Nat → τ → σ → σ
  | 0, _, s => s
  | n + 1, t, s =>
    match H.next t s with
    | (none, s') => s'
    | (some t', s') => finishIn n t' s'

/-- A handler alone, to its end -/
def finish (t : τ) (s : σ) : σ := H.finishIn (H.size t + 1) t s

def finish? (o : Option τ) (s : σ) : σ := o.elim s fun t => H.finish t s

@[simp] theorem finish?_none (s : σ) : H.finish? none s = s := rfl

@[simp] theorem finish?_some (t : τ) (s : σ) : H.finish? (some t) s = H.finish t s := rfl

theorem finishIn_of_lt {n m : Nat} {t : τ} {s : σ} (hn : H.size t < n) (hm : H.size t < m) :
    H.finishIn n t s = H.finishIn m t s := by
  induction n generalizing m t s with
  | zero => omega
  | succ n ih =>
    obtain _ | m := m
    · omega
    · rw [finishIn, finishIn]
      split
      · rfl
      · rename_i t' s' h
        have hlt : H.size t' < H.size t := H.next_size (congrArg Prod.fst h)
        exact ih (by omega) (by omega)

theorem finish_eq (t : τ) (s : σ) : H.finish t s = H.finish? (H.next t s).1 (H.next t s).2 := by
  rw [finish, finishIn]
  split
  · rename_i s' h
    rw [h]
    rfl
  · rename_i t' s' h
    have hlt : H.size t' < H.size t := H.next_size (congrArg Prod.fst h)
    rw [h]
    exact H.finishIn_of_lt hlt (Nat.lt_succ_self _)

/-- What holds before every step of a handler and after it holds at the end. -/
theorem finish_inv {P : τ → Prop} {I : σ → Prop}
    (hnext : ∀ {t s}, P t → I s → I (H.next t s).2 ∧ ∀ t', (H.next t s).1 = some t' → P t')
    {t : τ} {s : σ} (ht : P t) (hs : I s) : I (H.finish t s) := by
  induction hn : H.size t using Nat.strongRecOn generalizing t s with
  | ind n ih =>
    obtain ⟨hs', hP⟩ := hnext ht hs
    rw [finish_eq]
    cases ho : (H.next t s).1 with
    | none => exact hs'
    | some t' => exact ih _ (hn ▸ H.next_size ho) (hP t' ho) hs' rfl

/-- An event, to the end of its handler -/
def handle (s : σ) (e : ε) : σ := H.finish? (H.start e s) s

/-- The events one after another -/
def inOrder (es : List ε) (s : σ) : σ := es.foldl H.handle s

inductive Action (ε : Type v) where
  | take (e : ε)
  | run (i : Nat)

def Action.event? : Action ε → Option ε
  | .take e => some e
  | .run _ => none

def step (S : Running σ τ) : Action ε → Option (Running σ τ)
  | .take e => some { S with tasks := S.tasks ++ (H.start e S.state).toList }
  | .run i => S.tasks[i]?.map fun t =>
    { state := (H.next t S.state).2
      tasks := S.tasks.take i ++ ((H.next t S.state).1.toList ++ S.tasks.drop (i + 1)) }

def machine : Machine (Running σ τ) (Action ε) := ⟨H.step⟩

/-- The handlers one after another -/
def finishAll (ts : List τ) (s : σ) : σ := ts.foldl (fun s t => H.finish t s) s

@[simp] theorem finishAll_nil (s : σ) : H.finishAll [] s = s := rfl

theorem finishAll_cons (t : τ) (ts : List τ) (s : σ) :
    H.finishAll (t :: ts) s = H.finishAll ts (H.finish t s) := rfl

theorem finishAll_append (ts us : List τ) (s : σ) :
    H.finishAll (ts ++ us) s = H.finishAll us (H.finishAll ts s) := List.foldl_append

theorem finishAll_toList (o : Option τ) (s : σ) : H.finishAll o.toList s = H.finish? o s := by
  cases o <;> rfl

/-- What a handler may still use, and what of it it may still write, and what taking up an
event reads; `get` has what the state has under a key. -/
structure Footprint (K : Type x) (V : Type y) where
  get : σ → K → V
  ext : ∀ {s s'}, (∀ k, get s k = get s' k) → s = s'
  uses : τ → List K
  writes : τ → List K
  reads : ε → List K
  writes_uses : ∀ {t k}, k ∈ writes t → k ∈ uses t
  frame : ∀ {t s k}, k ∉ writes t → get (H.next t s).2 k = get s k
  congr : ∀ {t s s'}, (∀ k ∈ uses t, get s k = get s' k) → (H.next t s).1 = (H.next t s').1 ∧
    ∀ k ∈ writes t, get (H.next t s).2 k = get (H.next t s').2 k
  next_uses : ∀ {t t' s}, (H.next t s).1 = some t' → ∀ k ∈ uses t', k ∈ uses t
  next_writes : ∀ {t t' s}, (H.next t s).1 = some t' → ∀ k ∈ writes t', k ∈ writes t
  start_congr : ∀ {e s s'}, (∀ k ∈ reads e, get s k = get s' k) → H.start e s = H.start e s'

namespace Footprint

variable {H} {K : Type x} {V : Type y} (F : H.Footprint K V)

/-- Neither writes what the other may use. -/
def Apart (t u : τ) : Prop := (∀ k ∈ F.writes t, k ∉ F.uses u) ∧ ∀ k ∈ F.writes u, k ∉ F.uses t

/-- The condition on a step -/
def Clear (S : Running σ τ) : Action ε → Prop
  | .take e => ∀ t ∈ S.tasks, ∀ k ∈ F.reads e, k ∉ F.writes t
  | .run i => ∀ t ∈ S.tasks[i]?, ∀ u ∈ S.tasks.take i, F.Apart t u

instance [DecidableEq K] (t u : τ) : Decidable (F.Apart t u) := inferInstanceAs (Decidable (_ ∧ _))

instance [DecidableEq K] (S : Running σ τ) (act : Action ε) : Decidable (F.Clear S act) := by
  cases act <;> dsimp only [Clear] <;> infer_instance

theorem finish_frame {t : τ} {s : σ} {k : K} (hk : k ∉ F.writes t) :
    F.get (H.finish t s) k = F.get s k := by
  refine H.finish_inv (P := fun u => k ∉ F.writes u) (I := fun s' => F.get s' k = F.get s k)
    (fun hu hs => ?_) hk rfl
  exact ⟨(F.frame hu).trans hs, fun u' hu' hmem => hu (F.next_writes hu' k hmem)⟩

theorem finish_congr {t : τ} {s s' : σ} (h : ∀ k ∈ F.uses t, F.get s k = F.get s' k) :
    ∀ k ∈ F.writes t, F.get (H.finish t s) k = F.get (H.finish t s') k := by
  induction hn : H.size t using Nat.strongRecOn generalizing t s s' with
  | ind n ih =>
    intro k hk
    obtain ⟨hnext, hwrites⟩ := F.congr h
    rw [H.finish_eq t s, H.finish_eq t s', ← hnext]
    cases ho : (H.next t s).1 with
    | none => exact hwrites k hk
    | some t' =>
      by_cases hk' : k ∈ F.writes t'
      · refine ih _ (hn ▸ H.next_size ho) (fun j hj => ?_) rfl k hk'
        by_cases hjw : j ∈ F.writes t
        · exact hwrites j hjw
        · rw [F.frame hjw, F.frame hjw]
          exact h j (F.next_uses ho j hj)
      · rw [H.finish?_some, H.finish?_some, F.finish_frame hk', F.finish_frame hk']
        exact hwrites k hk

/-- A step and the rest of a handler that is apart from it, in either order -/
theorem next_finish {t u : τ} (h : F.Apart t u) (s : σ) :
    (H.next t (H.finish u s)).1 = (H.next t s).1 ∧
      (H.next t (H.finish u s)).2 = H.finish u (H.next t s).2 := by
  have huses : ∀ k ∈ F.uses t, F.get (H.finish u s) k = F.get s k :=
    fun k hk => F.finish_frame fun hw => h.2 k hw hk
  obtain ⟨hnext, hwrites⟩ := F.congr huses
  refine ⟨hnext, F.ext fun k => ?_⟩
  by_cases hk : k ∈ F.writes t
  · have hku : k ∉ F.writes u := fun hw => h.2 k hw (F.writes_uses hk)
    rw [hwrites k hk, F.finish_frame hku]
  · rw [F.frame hk]
    by_cases hku : k ∈ F.writes u
    · refine F.finish_congr (fun j hj => (F.frame fun hw => ?_).symm) k hku
      exact h.1 j hw hj
    · rw [F.finish_frame hku, F.finish_frame hku, F.frame hk]

theorem next_finishAll {t : τ} {us : List τ} (h : ∀ u ∈ us, F.Apart t u) (s : σ) :
    (H.next t (H.finishAll us s)).1 = (H.next t s).1 ∧
      (H.next t (H.finishAll us s)).2 = H.finishAll us (H.next t s).2 := by
  induction us generalizing s with
  | nil => exact ⟨rfl, rfl⟩
  | cons u us ih =>
    obtain ⟨hu, hus⟩ := List.forall_mem_cons.mp h
    obtain ⟨hnext, hstate⟩ := ih hus (H.finish u s)
    obtain ⟨hnext', hstate'⟩ := F.next_finish hu s
    rw [H.finishAll_cons, H.finishAll_cons]
    exact ⟨hnext.trans hnext', by rw [hstate, hstate']⟩

theorem finishAll_frame {ts : List τ} {s : σ} {k : K} (hk : ∀ t ∈ ts, k ∉ F.writes t) :
    F.get (H.finishAll ts s) k = F.get s k := by
  induction ts generalizing s with
  | nil => rfl
  | cons t ts ih =>
    obtain ⟨ht, hts⟩ := List.forall_mem_cons.mp hk
    rw [H.finishAll_cons, ih hts, F.finish_frame ht]

/-- What the handlers that have not ended lead to -/
def ahead (H : Handlers σ ε τ) (S : Running σ τ) : σ := H.finishAll S.tasks S.state

/-- A step changes what is ahead as the event that it takes up, if any. -/
theorem ahead_step {S T : Running σ τ} {act : Action ε} (hclear : F.Clear S act)
    (hs : H.machine.step S act = some T) : ahead H T = H.inOrder act.event?.toList (ahead H S) := by
  cases act with
  | take e =>
    cases hs
    have hstart : H.start e (H.finishAll S.tasks S.state) = H.start e S.state :=
      F.start_congr fun k hk => F.finishAll_frame fun t ht => hclear t ht k hk
    show H.finishAll (S.tasks ++ (H.start e S.state).toList) S.state =
      H.finish? (H.start e (H.finishAll S.tasks S.state)) (H.finishAll S.tasks S.state)
    rw [H.finishAll_append, H.finishAll_toList, hstart]
  | run i =>
    obtain ⟨t, ht, rfl⟩ := Option.map_eq_some_iff.mp hs
    obtain ⟨hi, rfl⟩ := List.getElem?_eq_some_iff.mp ht
    obtain ⟨hnext, hstate⟩ := F.next_finishAll (hclear _ ht) S.state
    have hsplit : S.tasks = S.tasks.take i ++ S.tasks[i] :: S.tasks.drop (i + 1) := by
      rw [← List.drop_eq_getElem_cons hi, List.take_append_drop]
    show H.finishAll (S.tasks.take i ++ ((H.next S.tasks[i] S.state).1.toList ++ _)) _ =
      H.finishAll S.tasks S.state
    conv => rhs; rw [hsplit, H.finishAll_append, H.finishAll_cons, H.finish_eq, hnext, hstate]
    rw [H.finishAll_append, H.finishAll_append, H.finishAll_toList]

/-- The events that a run takes up -/
def events (acts : List (Action ε)) : List ε := acts.filterMap Action.event?

theorem ahead_of_run {S T : Running σ τ} {acts : List (Action ε)}
    (hr : H.machine.run S acts = some T) (hclear : H.machine.Along F.Clear S acts) :
    ahead H T = H.inOrder (events acts) (ahead H S) := by
  induction acts generalizing S with
  | nil =>
    cases hr
    rfl
  | cons act acts ih =>
    obtain ⟨S', hs, hr'⟩ := H.machine.run_cons_eq_some.mp hr
    obtain ⟨hact, hclear'⟩ := H.machine.along_cons hclear hs
    rw [ih hr' hclear', F.ahead_step hact hs]
    cases act <;> rfl

/-- In the end the state is that of the events one after another. -/
theorem inOrder_of_run {s : σ} {T : Running σ τ} {acts : List (Action ε)}
    (hr : H.machine.run ⟨s, []⟩ acts = some T) (hclear : H.machine.Along F.Clear ⟨s, []⟩ acts)
    (hended : T.tasks = []) : T.state = H.inOrder (events acts) s := by
  have h := F.ahead_of_run hr hclear
  rw [ahead, hended] at h
  exact h

end Footprint

end Handlers

end Seiran
