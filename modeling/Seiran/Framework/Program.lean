import Mathlib.Order.Defs.Unbundled

/-!
# Programs with a state and errors

A `Program` changes its state step by step; an error ends it, and what it has
changed up to then stays. `wp` is its weakest precondition:

* `wp_bind`: a sequence, the second part only where the first succeeds;
* `wp_get`, `wp_throw`, `wp_ite`: the other steps;
* `Within`: every state a program leaves is related to the first, and `Ends`:
  every state it leaves with a given error.
-/

namespace Seiran

/-- The result of a program and the state it leaves. -/
def Program (σ ε α : Type) : Type := σ → Except ε α × σ

namespace Program

variable {σ ε α β : Type}

instance : Monad (Program σ ε) where
  pure a := fun s => (.ok a, s)
  bind m f := fun s =>
    match m s with
    | (.ok a, s') => f a s'
    | (.error e, s') => (.error e, s')

def get : Program σ ε σ := fun s => (.ok s, s)

def modify (f : σ → σ) : Program σ ε Unit := fun s => (.ok (), f s)

def throw (e : ε) : Program σ ε α := fun s => (.error e, s)

/-- `Q` holds of the result and of the state at the end. -/
def wp (m : Program σ ε α) (Q : Except ε α → σ → Prop) (s : σ) : Prop := Q (m s).1 (m s).2

variable {m : Program σ ε α} {f : α → Program σ ε β} {s : σ}

@[simp] theorem wp_pure {a : α} {Q : Except ε α → σ → Prop} :
    wp (pure a : Program σ ε α) Q s ↔ Q (.ok a) s := Iff.rfl

@[simp] theorem wp_get {Q : Except ε σ → σ → Prop} :
    wp (get : Program σ ε σ) Q s ↔ Q (.ok s) s := Iff.rfl

@[simp] theorem wp_throw {e : ε} {Q : Except ε α → σ → Prop} :
    wp (throw e : Program σ ε α) Q s ↔ Q (.error e) s := Iff.rfl

/-- The postcondition of the first part of a sequence. -/
def seq (f : α → Program σ ε β) (Q : Except ε β → σ → Prop) : Except ε α → σ → Prop
  | .ok a, s => wp (f a) Q s
  | .error e, s => Q (.error e) s

@[simp] theorem seq_ok {Q : Except ε β → σ → Prop} {a : α} :
    seq f Q (.ok a) s ↔ wp (f a) Q s := Iff.rfl

@[simp] theorem wp_bind {Q : Except ε β → σ → Prop} :
    wp (m >>= f) Q s ↔ wp m (seq f Q) s := by
  show Q (bind m f s).1 (bind m f s).2 ↔ seq f Q (m s).1 (m s).2
  simp only [bind]
  split <;> rename_i h <;> rw [h] <;> rfl

@[simp] theorem wp_ite {p : Prop} [Decidable p] {m m' : Program σ ε α}
    {Q : Except ε α → σ → Prop} :
    wp (if p then m else m') Q s ↔ if p then wp m Q s else wp m' Q s := by
  split <;> rfl

/-! ## What a program does to the state -/

/-- Every state a program leaves is related to the one it began in. -/
def Within (R : σ → σ → Prop) (m : Program σ ε α) : Prop := ∀ s, R s (m s).2

namespace Within

variable {R : σ → σ → Prop}

theorem pure [Std.Refl R] (a : α) : Within R (Pure.pure a : Program σ ε α) := fun s =>
  Std.Refl.refl s

theorem get [Std.Refl R] : Within R (Program.get : Program σ ε σ) := fun s => Std.Refl.refl s

theorem throw [Std.Refl R] (e : ε) : Within R (Program.throw e : Program σ ε α) := fun s =>
  Std.Refl.refl s

theorem bind [IsTrans σ R] (hm : Within R m) (hf : ∀ a, Within R (f a)) :
    Within R (m >>= f) := by
  intro s
  have hms := hm s
  show R s (Bind.bind m f s).2
  simp only [Bind.bind]
  split
  · rename_i a s' heq
    rw [heq] at hms
    exact IsTrans.trans _ _ _ hms (hf a s')
  · rename_i e s' heq
    rw [heq] at hms
    exact hms

theorem ite {p : Prop} [Decidable p] {m m' : Program σ ε α} (h : Within R m) (h' : Within R m') :
    Within R (if p then m else m') := by
  split
  · exact h
  · exact h'

end Within

/-- Every state a program leaves with a result of `E` is related to the first. -/
def Ends (E : Except ε α → Prop) (R : σ → σ → Prop) (m : Program σ ε α) : Prop :=
  ∀ s, E (m s).1 → R s (m s).2

namespace Ends

variable {E : Except ε α → Prop} {E' : Except ε β → Prop} {R S : σ → σ → Prop}

theorem of_within (h : Within R m) : Ends E R m := fun s _ => h s

theorem bind (hm : Ends E R m) (herr : ∀ e, E' (.error e) → E (.error e))
    (hf : ∀ s a, (m s).1 = .ok a → E' (f a (m s).2).1 → R s (f a (m s).2).2) :
    Ends E' R (m >>= f) := by
  intro s hE
  have hms := hm s
  have hfs := hf s
  change E' (Bind.bind m f s).1 at hE
  show R s (Bind.bind m f s).2
  simp only [Bind.bind] at hE ⊢
  split at hE <;> rename_i heq
  · rw [heq] at hfs
    exact hfs _ rfl hE
  · rw [heq] at hms
    exact hms (herr _ hE)

/-- A first part that moves by `S` whatever its result. -/
theorem bind_within (hSR : ∀ {s s'}, S s s' → R s s')
    (hS : ∀ {s s' s''}, S s s' → R s' s'' → R s s'') (hm : Within S m)
    (hf : ∀ a, Ends E' R (f a)) : Ends E' R (m >>= f) :=
  bind (E := fun _ => True) (fun s _ => hSR (hm s)) (fun _ _ => trivial)
    fun s a _ hE => hS (hm s) (hf a _ hE)

/-- A second part without a result of `E`. -/
theorem bind_last (hm : Ends E R m) (herr : ∀ e, E' (.error e) → E (.error e))
    (hf : ∀ a s, ¬ E' (f a s).1) : Ends E' R (m >>= f) :=
  bind hm herr fun _ a _ hE => absurd hE (hf a _)

theorem ite {p : Prop} [Decidable p] {m m' : Program σ ε α} (h : Ends E R m) (h' : Ends E R m') :
    Ends E R (if p then m else m') := by
  split
  · exact h
  · exact h'

end Ends

end Program

end Seiran
