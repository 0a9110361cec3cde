import Seiran.Model.Notes.Reactions
import Seiran.Proof.Atp.Revision

/-!
# Every reaction has its Like

* `Prompt`: no request changes or removes a reaction before its task has stored
  the rkey of its Like, and no TID is drawn a second time;
* `Holds`: who has the rkey of a Like: the row of its reaction, or the task that
  is to store it or to delete it;
* `inv_step`: a prompt request or a task passes an rkey on, gives it up with its
  record or gets a new one;
* `likes_mirror`: once no task is left, the reactions and the Likes correspond.
-/

namespace Seiran.Reactions

open Revision

variable {E : Env} {s s' t : State} {act : Action} {as : List Action} {i j : Nat} {p q : Int64}
  {task : Task} {k : String} {d : Delivery} {r : Reaction}

section Uris

theorem not_slash_mem_tidChars (count v : Nat) : '/' ∉ tidChars count v := by
  have hs32 : ∀ n < 32, S32_CHARS.getD n '2' ≠ '/' := by decide
  induction count generalizing v with
  | zero => exact List.not_mem_nil
  | succ count ih =>
    rw [tidChars, List.mem_append, List.mem_singleton, not_or]
    refine ⟨ih _, fun h => hs32 (v &&& 0x1F) ?_ h.symm⟩
    exact Nat.lt_succ_of_le Nat.and_le_right

theorem lastSegment_append {pre rkey : String} (h : '/' ∉ rkey.toList) :
    lastSegment (pre ++ "/" ++ rkey) = rkey := by
  have hchars : (pre ++ "/" ++ rkey).toList.reverse =
      rkey.toList.reverse ++ '/' :: pre.toList.reverse := by
    simp
  have hall : ∀ c ∈ rkey.toList.reverse, decide (c ≠ '/') = true := by
    intro c hc
    rw [List.mem_reverse] at hc
    exact decide_eq_true fun heq => h (heq ▸ hc)
  rw [lastSegment, hchars, List.takeWhile_append_of_pos hall]
  simp

/-- The rkey of a Like is read back from its URI. -/
theorem lastSegment_likeUri (E : Env) (n : Nat) :
    lastSegment (likeUri E.did (E.tid n)) = E.tid n := by
  have hslash : '/' ∉ (E.tid n).toList := by
    rw [Env.tid, generateTid, String.toList_ofList]
    exact not_slash_mem_tidChars 13 _
  have hpath : "/app.bsky.feed.like/" = "/app.bsky.feed.like" ++ "/" := by decide
  rw [likeUri, hpath, ← String.append_assoc, lastSegment_append hslash]

end Uris

section Holders

/-- The post that a task delivers a reaction to -/
def Task.post : Task → Option Int64
  | .find d => some d.postId
  | .replace d _ _ => some d.postId
  | .commit d _ => some d.postId
  | .store d _ => some d.postId
  | .delete _ => none

/-- The rkey of a Like that a task has -/
def Task.rkey : Task → Option String
  | .find d => d.prevRkey
  | .replace _ _ rkey => some rkey
  | .commit _ _ => none
  | .store _ rkey => some rkey
  | .delete rkey => some rkey

/-- A task that was spawned for the reaction to the post has not ended. -/
def Delivering (s : State) (p : Int64) : Prop :=
  ∃ i, ∃ task ∈ s.tasks i, task.post = some p

inductive Holder where
  | row (postId : Int64)
  | task (i : Nat)
deriving DecidableEq

/-- A row has the rkey that it stores, unless a task is about to store another one. -/
def Holds (s : State) : Holder → String → Prop
  | .row p, k => (s.reactions p).bind Reaction.atpRkey = some k ∧ ¬ Delivering s p
  | .task i, k => (s.tasks i).bind Task.rkey = some k

/-- The reaction to the post is there, in both protocols, and no task for it is left. -/
def Free (E : Env) (s : State) (p : Int64) : Prop :=
  (E.target p).isSome = true → (s.reactions p).isSome = true → ¬ Delivering s p

/-- The condition on a step -/
def Prompt (E : Env) (s : State) : Action → Prop
  | .react _ new => Free E s new.postId
  | .unreact _ p content => ∀ r ∈ s.reactions p, matching content r = true → Free E s p
  | .run i => ∀ d target, s.tasks i = some (.commit d target) → ∀ n < s.drawn,
      E.tid n ≠ E.tid s.drawn

/-- What a task knows -/
def TaskOk (E : Env) (likes : List (String × Like)) : Task → Prop
  | .find d => d.prevRkey ≠ none → (E.target d.postId).isSome = true
  | .replace d target _ => E.target d.postId = some target
  | .commit d target => E.target d.postId = some target
  | .store d k => (∃ n, k = E.tid n) ∧ ∃ l, (k, l) ∈ likes ∧ E.target d.postId = some l.subject
  | .delete _ => True

structure Inv (E : Env) (s : State) : Prop where
  ledger : Ledger (Holds s) (s.likes.map Prod.fst)
  drawn : ∀ x ∈ s.likes, ∃ n < s.drawn, x.1 = E.tid n
  tasks : ∀ i, ∀ task ∈ s.tasks i, TaskOk E s.likes task
  /-- A task delivers a reaction that is there. -/
  reacted : ∀ p, Delivering s p → (E.target p).isSome = true → (s.reactions p).isSome = true
  alone : ∀ i, ∀ task ∈ s.tasks i, ∀ j, ∀ task' ∈ s.tasks j, ∀ p, task.post = some p →
    task'.post = some p → (E.target p).isSome = true → i = j
  /-- The Like that a row has the rkey of is about the post. -/
  subject : ∀ p k, Holds s (.row p) k → ∃ l, (k, l) ∈ s.likes ∧ E.target p = some l.subject
  /-- A row that stores a URI stores that of a Like. -/
  uri : ∀ p, ∀ r ∈ s.reactions p, ∀ uri ∈ r.atUri, (E.target p).isSome = true ∧
    ∃ n, uri = likeUri E.did (E.tid n)
  served : ∀ p, ∀ r ∈ s.reactions p, (E.target p).isSome = true → ¬ Delivering s p →
    r.atUri ≠ none

theorem mem_setTask {o : Option Task} : task ∈ (s.setTask i o).tasks j ↔
    j = i ∧ task ∈ o ∨ j ≠ i ∧ task ∈ s.tasks j := by
  show task ∈ Function.update s.tasks i o j ↔ _
  by_cases hj : j = i
  · subst hj
    simp
  · simp [hj]

theorem mem_setReaction {o : Option Reaction} : r ∈ (s.setReaction q o).reactions p ↔
    p = q ∧ r ∈ o ∨ p ≠ q ∧ r ∈ s.reactions p := by
  show r ∈ Function.update s.reactions q o p ↔ _
  by_cases hp : p = q
  · subst hp
    simp
  · simp [hp]

theorem holds_task_setTask {o : Option Task} : Holds (s.setTask i o) (.task j) k ↔
    if j = i then o.bind Task.rkey = some k else Holds s (.task j) k := by
  show (Function.update s.tasks i o j).bind Task.rkey = some k ↔ _
  by_cases hj : j = i
  · subst hj
    simp
  · simp [hj, Holds]

theorem delivering_setTask {task : Option Task} : Delivering (s.setTask i task) p ↔
    (∃ u ∈ task, u.post = some p) ∨ ∃ j, j ≠ i ∧ ∃ u ∈ s.tasks j, u.post = some p := by
  constructor
  · rintro ⟨j, u, hu, hp⟩
    rcases mem_setTask.mp hu with ⟨-, hmem⟩ | ⟨hj, hmem⟩
    · exact .inl ⟨u, hmem, hp⟩
    · exact .inr ⟨j, hj, u, hmem, hp⟩
  · rintro (⟨u, hu, hp⟩ | ⟨j, hj, u, hu, hp⟩)
    · exact ⟨i, u, mem_setTask.mpr (.inl ⟨rfl, hu⟩), hp⟩
    · exact ⟨j, u, mem_setTask.mpr (.inr ⟨hj, hu⟩), hp⟩

theorem atpRkey_eq_some (h : Inv E s) (hr : s.reactions p = some r) (hk : r.atpRkey = some k) :
    (E.target p).isSome = true ∧ r.atUri = some (likeUri E.did k) := by
  obtain ⟨uri, huri, rfl⟩ := Option.map_eq_some_iff.mp hk
  obtain ⟨htarget, n, rfl⟩ := h.uri p r hr uri huri
  rw [lastSegment_likeUri]
  exact ⟨htarget, huri⟩

end Holders

section Requests

/-- A prompt request finds the rkey of a row with the row. -/
theorem holds_row (h : Inv E s) (hfree : Free E s p) (hr : s.reactions p = some r) :
    Holds s (.row p) k ↔ r.atpRkey = some k := by
  simp only [Holds, hr, Option.bind_some, and_iff_left_iff_imp]
  intro hk
  exact hfree (atpRkey_eq_some h hr hk).1 (by rw [hr]; rfl)

theorem inv_react (h : Inv E s) (hi : s.tasks i = none) {new : NewReaction}
    (hfree : Free E s new.postId) : Inv E (createReaction s i new) := by
  have hdel : ∀ p, Delivering (createReaction s i new) p ↔ p = new.postId ∨ Delivering s p := by
    intro p
    rw [createReaction, delivering_setTask]
    constructor
    · rintro (⟨u, hu, hp⟩ | ⟨j, -, u, hu, hp⟩)
      · cases hu
        cases hp
        exact .inl rfl
      · exact .inr ⟨j, u, hu, hp⟩
    · rintro (rfl | ⟨j, u, hu, hp⟩)
      · exact .inl ⟨_, rfl, rfl⟩
      · refine .inr ⟨j, ?_, u, hu, hp⟩
        rintro rfl
        rw [hi] at hu
        cases hu
  have hprev : ∀ k, (s.reactions new.postId).bind Reaction.atpRkey = some k ↔
      Holds s (.row new.postId) k := by
    intro k
    cases hr : s.reactions new.postId with
    | none => simp [Holds, hr]
    | some r => exact (holds_row h hfree hr).symm
  refine ⟨?_, h.drawn, fun j task hj => ?_, fun p hp htarget => ?_, ?_, fun p k hk => ?_,
    fun p r hr => ?_, fun p r hr htarget hnot => ?_⟩
  · refine h.ledger.move (.row new.postId) (.task i) (fun k hk => ?_) (fun k => ?_)
      (fun k hk => ?_) fun holder k hsrc hdst => ?_
    · simp [Holds, hi] at hk
    · rw [createReaction, holds_task_setTask, if_pos rfl, ← hprev]
      rfl
    · exact hk.2 ((hdel _).mpr (.inl rfl))
    · cases holder with
      | row p =>
        have hp : p ≠ new.postId := fun heq => hsrc (heq ▸ rfl)
        simp only [Holds, hdel, hp, false_or]
        simp [createReaction, State.setTask, State.setReaction, hp]
      | task j =>
        have hj : j ≠ i := fun heq => hdst (heq ▸ rfl)
        rw [createReaction, holds_task_setTask, if_neg hj]
        rfl
  · rcases mem_setTask.mp hj with ⟨-, hmem⟩ | ⟨-, hmem⟩
    · cases hmem
      intro hne
      obtain ⟨k, hk⟩ := Option.ne_none_iff_exists'.mp hne
      obtain ⟨r, hr, hk⟩ := Option.bind_eq_some_iff.mp hk
      exact (atpRkey_eq_some h hr hk).1
    · exact h.tasks j task hmem
  · show (Function.update s.reactions new.postId _ p).isSome = true
    by_cases heq : p = new.postId
    · subst heq
      simp
    · rw [Function.update_of_ne heq]
      rcases (hdel p).mp hp with hp | hp
      · exact absurd hp heq
      · exact h.reacted p hp htarget
  · intro j task hj j' task' hj' p hp hp' htarget
    -- a task that is left would be for the reaction that is changed
    have hnone : ∀ j task, task ∈ s.tasks j → task.post ≠ some new.postId ∨
        (E.target new.postId).isSome = false := by
      intro j task hj
      by_contra hnot
      simp only [not_or, not_not, Bool.not_eq_false] at hnot
      have hdelivering : Delivering s new.postId := ⟨j, task, hj, hnot.1⟩
      exact hfree hnot.2 (h.reacted _ hdelivering hnot.2) hdelivering
    rcases mem_setTask.mp hj with ⟨heq, hmem⟩ | ⟨-, hmem⟩ <;>
      rcases mem_setTask.mp hj' with ⟨heq', hmem'⟩ | ⟨-, hmem'⟩
    · rw [heq, heq']
    · cases hmem
      cases hp
      rcases hnone j' task' hmem' with hne | hne
      · exact absurd hp' hne
      · rw [htarget] at hne
        cases hne
    · cases hmem'
      cases hp'
      rcases hnone j task hmem with hne | hne
      · exact absurd hp hne
      · rw [htarget] at hne
        cases hne
    · exact h.alone j task hmem j' task' hmem' p hp hp' htarget
  · have hp : p ≠ new.postId := fun heq => hk.2 ((hdel p).mpr (.inl heq))
    have hold : Holds s (.row p) k := by
      refine ⟨?_, fun hnot => hk.2 ((hdel p).mpr (.inr hnot))⟩
      have hk : (Function.update s.reactions new.postId _ p).bind Reaction.atpRkey = some k := hk.1
      rwa [Function.update_of_ne hp] at hk
    exact h.subject p k hold
  · rcases mem_setReaction.mp hr with ⟨rfl, hmem⟩ | ⟨-, hmem⟩
    · cases hmem
      intro uri huri
      obtain ⟨r, hr, huri⟩ := Option.bind_eq_some_iff.mp huri
      exact h.uri _ r hr uri huri
    · exact h.uri p r hmem
  · have hp : p ≠ new.postId := fun heq => hnot ((hdel p).mpr (.inl heq))
    rcases mem_setReaction.mp hr with ⟨heq, -⟩ | ⟨-, hr⟩
    · exact absurd heq hp
    · exact h.served p r hr htarget fun hd => hnot ((hdel p).mpr (.inr hd))

theorem inv_unreact (h : Inv E s) (hi : s.tasks i = none) {content : Option String}
    (hfree : ∀ r ∈ s.reactions q, matching content r = true → Free E s q) :
    Inv E (removeReaction s i q content) := by
  unfold removeReaction
  split
  · exact h
  · rename_i removed hremoved
    obtain ⟨hr, hmatch⟩ := Option.filter_eq_some_iff.mp hremoved
    have hfree := hfree removed hr hmatch
    have hdel : ∀ p, Delivering ((s.setReaction q none).setTask i (removed.atpRkey.map .delete)) p ↔
        Delivering s p := by
      intro p
      rw [delivering_setTask]
      constructor
      · rintro (⟨u, hu, hp⟩ | ⟨j, -, u, hu, hp⟩)
        · obtain ⟨k, -, rfl⟩ := Option.map_eq_some_iff.mp hu
          cases hp
        · exact ⟨j, u, hu, hp⟩
      · rintro ⟨j, u, hu, hp⟩
        refine .inr ⟨j, ?_, u, hu, hp⟩
        rintro rfl
        rw [hi] at hu
        cases hu
    have htask : ∀ j task, task ∈ ((s.setReaction q none).setTask i
        (removed.atpRkey.map .delete)).tasks j → task ∈ s.tasks j ∨ ∃ k, task = .delete k := by
      intro j task hj
      rcases mem_setTask.mp hj with ⟨-, hmem⟩ | ⟨-, hmem⟩
      · obtain ⟨k, -, rfl⟩ := Option.map_eq_some_iff.mp hmem
        exact .inr ⟨k, rfl⟩
      · exact .inl hmem
    have hreaction : ∀ p r, r ∈ ((s.setReaction q none).setTask i
        (removed.atpRkey.map .delete)).reactions p → p ≠ q ∧ r ∈ s.reactions p := by
      intro p r hr
      rcases mem_setReaction.mp hr with ⟨-, hr⟩ | hr
      · cases hr
      · exact hr
    refine ⟨?_, h.drawn, fun j task hj => ?_, fun p hp htarget => ?_, ?_, fun p k hk => ?_,
      fun p r hr => h.uri p r (hreaction p r hr).2, fun p r hr htarget hnot => ?_⟩
    · refine h.ledger.move (.row q) (.task i) (fun k hk => ?_) (fun k => ?_)
        (fun k hk => ?_) fun holder k hsrc hdst => ?_
      · simp [Holds, hi] at hk
      · rw [holds_task_setTask, if_pos rfl, holds_row h hfree hr]
        cases removed.atpRkey <;> simp [Task.rkey]
      · simp [Holds, State.setTask, State.setReaction] at hk
      · cases holder with
        | row p =>
          have hp : p ≠ q := fun heq => hsrc (heq ▸ rfl)
          simp only [Holds, hdel]
          simp [State.setTask, State.setReaction, hp]
        | task j =>
          have hj : j ≠ i := fun heq => hdst (heq ▸ rfl)
          rw [holds_task_setTask, if_neg hj]
          rfl
    · rcases htask j task hj with hj | ⟨k, rfl⟩
      · exact h.tasks j task hj
      · trivial
    · have hold : Delivering s p := (hdel p).mp hp
      have hpq : p ≠ q := by
        rintro rfl
        exact hfree htarget (by rw [hr]; rfl) hold
      show (Function.update s.reactions q none p).isSome = true
      rw [Function.update_of_ne hpq]
      exact h.reacted p hold htarget
    · intro j task hj j' task' hj' p hp hp' htarget
      rcases htask j task hj with hj | ⟨k, rfl⟩
      · rcases htask j' task' hj' with hj' | ⟨k, rfl⟩
        · exact h.alone j task hj j' task' hj' p hp hp' htarget
        · cases hp'
      · cases hp
    · obtain ⟨hk, hnot⟩ := hk
      obtain ⟨r, hr, hk⟩ := Option.bind_eq_some_iff.mp hk
      have hr := (hreaction p r hr).2
      refine h.subject p k ⟨?_, fun hd => hnot ((hdel p).mpr hd)⟩
      rw [hr]
      exact hk
    · exact h.served p r (hreaction p r hr).2 htarget fun hd => hnot ((hdel p).mpr hd)

end Requests

section Tasks

variable {likes : List (String × Like)} {drawn : Nat} {next : Option Task}

/-- A task without a post, or with the post it goes on with, ends or goes on. -/
theorem delivering_of_post (hi : s.tasks i = some task) (hnext : ∀ u ∈ next, u.post = task.post)
    (hend : next = none → task.post ≠ some p) :
    Delivering ({ s with likes, drawn }.setTask i next) p ↔ Delivering s p := by
  rw [delivering_setTask]
  constructor
  · rintro (⟨u, hu, hp⟩ | ⟨j, -, u, hu, hp⟩)
    · exact ⟨i, task, hi, hnext u hu ▸ hp⟩
    · exact ⟨j, u, hu, hp⟩
  · rintro ⟨j, u, hu, hp⟩
    by_cases hj : j = i
    · subst hj
      rw [hi] at hu
      cases hu
      cases hn : next with
      | none => exact absurd hp (hend hn)
      | some v => exact .inl ⟨v, rfl, (hnext v hn).trans hp⟩
    · exact .inr ⟨j, hj, u, hu, hp⟩

/-- A step of a task that leaves the reactions as they are, and the Likes that others have. -/
theorem inv_next (h : Inv E s) (hi : s.tasks i = some task)
    (hnext : ∀ u ∈ next, TaskOk E likes u ∧ u.post = task.post)
    (hend : ∀ p, next = none → (E.target p).isSome = true → task.post ≠ some p)
    (hledger : Ledger (fun holder k => if holder = .task i then next.bind Task.rkey = some k
      else Holds s holder k) (likes.map Prod.fst))
    (hdrawn : ∀ x ∈ likes, ∃ n < drawn, x.1 = E.tid n)
    (hkeep : ∀ k l holder, (k, l) ∈ s.likes → holder ≠ .task i → Holds s holder k →
      (k, l) ∈ likes) : Inv E ({ s with likes, drawn }.setTask i next) := by
  have hdel : ∀ p, (E.target p).isSome = true →
      (Delivering ({ s with likes, drawn }.setTask i next) p ↔ Delivering s p) := fun p htarget =>
    delivering_of_post hi (fun u hu => (hnext u hu).2) fun hn => hend p hn htarget
  have hrow : ∀ p k, Holds ({ s with likes, drawn }.setTask i next) (.row p) k ↔
      Holds s (.row p) k := by
    intro p k
    refine and_congr_right fun hk => not_congr ?_
    obtain ⟨r, hr, hk⟩ := Option.bind_eq_some_iff.mp hk
    exact hdel p (atpRkey_eq_some h hr hk).1
  have htask : ∀ j u, u ∈ ({ s with likes, drawn }.setTask i next).tasks j →
      j = i ∧ u ∈ next ∨ j ≠ i ∧ u ∈ s.tasks j := fun j u hu => mem_setTask.mp hu
  refine ⟨hledger.congr fun holder k => ?_, hdrawn, fun j u hu => ?_, fun p hp htarget => ?_, ?_,
    fun p k hk => ?_, h.uri, fun p r hr htarget hnot => ?_⟩
  · cases holder with
    | row p => rw [hrow, if_neg (by simp)]
    | task j => rw [holds_task_setTask]; simp only [Holder.task.injEq]; rfl
  · rcases htask j u hu with ⟨-, hmem⟩ | ⟨hj, hmem⟩
    · exact (hnext u hmem).1
    · have hok := h.tasks j u hmem
      cases u with
      | store d k =>
        obtain ⟨htid, l, hl, htarget⟩ := hok
        have hmem : s.tasks j = some (.store d k) := hmem
        have hne : Holder.task j ≠ .task i := fun heq => hj (Holder.task.inj heq)
        refine ⟨htid, l, hkeep k l _ hl hne ?_, htarget⟩
        simp [Holds, hmem, Task.rkey]
      | _ => exact hok
  · exact h.reacted p ((hdel p htarget).mp hp) htarget
  · intro j u hu j' u' hu' p hp hp' htarget
    have hback : ∀ {j u}, u ∈ ({ s with likes, drawn }.setTask i next).tasks j → u.post = some p →
        ∃ v ∈ s.tasks j, v.post = some p := by
      intro j u hu hp
      rcases htask j u hu with ⟨rfl, hmem⟩ | ⟨-, hmem⟩
      · exact ⟨task, hi, (hnext u hmem).2 ▸ hp⟩
      · exact ⟨u, hmem, hp⟩
    obtain ⟨v, hv, hp⟩ := hback hu hp
    obtain ⟨v', hv', hp'⟩ := hback hu' hp'
    exact h.alone j v hv j' v' hv' p hp hp' htarget
  · have hold := (hrow p k).mp hk
    obtain ⟨l, hl, htarget⟩ := h.subject p k hold
    exact ⟨l, hkeep k l (.row p) hl (by simp) hold, htarget⟩
  · exact h.served p r hr htarget fun hd => hnot ((hdel p htarget).mpr hd)

/-- What the holders have once a task has gone on with its rkey -/
theorem ledger_same (h : Inv E s) (hi : s.tasks i = some task)
    (hrkey : next.bind Task.rkey = task.rkey) :
    Ledger (fun holder k => if holder = .task i then next.bind Task.rkey = some k
      else Holds s holder k) (s.likes.map Prod.fst) := by
  refine h.ledger.congr fun holder k => ?_
  split
  · rename_i heq
    subst heq
    rw [hrkey]
    simp [Holds, hi]
  · exact Iff.rfl

/-- What they have once it has deleted its record -/
theorem ledger_deleted (h : Inv E s) (hi : s.tasks i = some task) (hk : task.rkey = some k)
    (hnone : next.bind Task.rkey = none) :
    Ledger (fun holder k => if holder = .task i then next.bind Task.rkey = some k
      else Holds s holder k) ((Store.delete s.likes k).map Prod.fst) := by
  have hheld : Holds s (.task i) k := by simp [Holds, hi, hk]
  rw [Store.map_delete]
  refine h.ledger.drop fun holder k' => ?_
  split
  · rename_i heq
    subst heq
    simp only [hnone, reduceCtorEq, false_iff, not_and, not_not]
    intro hk'
    simp [Holds, hi, hk] at hk'
    exact hk'.symm
  · rename_i hne
    refine ⟨fun hh => ⟨hh, ?_⟩, fun hh => hh.1⟩
    rintro rfl
    exact hne (h.ledger.unique hh hheld)

theorem keep_deleted (h : Inv E s) (hi : s.tasks i = some task) (hk : task.rkey = some k) :
    ∀ k' l holder, (k', l) ∈ s.likes → holder ≠ .task i → Holds s holder k' →
      (k', l) ∈ Store.delete s.likes k := by
  intro k' l holder hl hne hh
  refine Store.mem_delete.mpr ⟨hl, ?_⟩
  rintro rfl
  exact hne (h.ledger.unique hh (by simp [Holds, hi, hk]))

theorem drawn_deleted (h : Inv E s) : ∀ x ∈ Store.delete s.likes k, ∃ n < s.drawn, x.1 = E.tid n :=
  fun x hx => h.drawn x (Store.mem_delete.mp hx).1

theorem inv_find (h : Inv E s) (hi : s.tasks i = some (.find d)) :
    Inv E (runTask E s i (.find d)) := by
  have hok : d.prevRkey ≠ none → (E.target d.postId).isSome = true := h.tasks i _ hi
  have hkeep : ∀ k l holder, (k, l) ∈ s.likes → holder ≠ .task i → Holds s holder k →
      (k, l) ∈ s.likes := fun _ _ _ hl _ _ => hl
  cases htarget : E.target d.postId with
  | none =>
    have hprev : d.prevRkey = none := by
      by_contra hne
      have hsome := hok hne
      rw [htarget] at hsome
      cases hsome
    have hend : runTask E s i (.find d) = s.setTask i none := by simp only [runTask, htarget]
    rw [hend]
    refine inv_next h hi (by simp) (fun p _ hsome hp => ?_) (ledger_same h hi ?_) h.drawn hkeep
    · cases hp
      rw [htarget] at hsome
      cases hsome
    · exact hprev.symm
  | some target =>
    cases hprev : d.prevRkey with
    | none =>
      have hnext : runTask E s i (.find d) = s.setTask i (some (.commit d target)) := by
        simp only [runTask, htarget, hprev]
      rw [hnext]
      refine inv_next h hi (fun u hu => ?_) (by simp) (ledger_same h hi hprev.symm) h.drawn hkeep
      cases hu
      exact ⟨htarget, rfl⟩
    | some rkey =>
      have hnext : runTask E s i (.find d) = s.setTask i (some (.replace d target rkey)) := by
        simp only [runTask, htarget, hprev]
      rw [hnext]
      refine inv_next h hi (fun u hu => ?_) (by simp) (ledger_same h hi hprev.symm) h.drawn hkeep
      cases hu
      exact ⟨htarget, rfl⟩

theorem inv_replace (h : Inv E s) {target : Target} (hi : s.tasks i = some (.replace d target k)) :
    Inv E (runTask E s i (.replace d target k)) := by
  have hok : E.target d.postId = some target := h.tasks i _ hi
  refine inv_next h hi (fun u hu => ?_) (by simp) (ledger_deleted h hi rfl rfl) (drawn_deleted h)
    (keep_deleted h hi rfl)
  cases hu
  exact ⟨hok, rfl⟩

theorem inv_delete (h : Inv E s) (hi : s.tasks i = some (.delete k)) :
    Inv E (runTask E s i (.delete k)) :=
  inv_next h hi (by simp) (by simp [Task.post]) (ledger_deleted h hi rfl rfl) (drawn_deleted h)
    (keep_deleted h hi rfl)

theorem inv_commit (h : Inv E s) {target : Target} (hi : s.tasks i = some (.commit d target))
    (htid : ∀ n < s.drawn, E.tid n ≠ E.tid s.drawn) : Inv E (runTask E s i (.commit d target)) := by
  have hok : E.target d.postId = some target := h.tasks i _ hi
  have hnew : E.tid s.drawn ∉ s.likes.map Prod.fst := by
    intro hmem
    obtain ⟨x, hx, heq⟩ := List.mem_map.mp hmem
    obtain ⟨n, hn, hxn⟩ := h.drawn x hx
    exact htid n hn (hxn.symm.trans heq)
  refine inv_next h hi (fun u hu => ?_) (by simp) ?_ (fun x hx => ?_) fun k l holder hl _ _ => ?_
  · cases hu
    exact ⟨⟨⟨_, rfl⟩, _, (Store.mem_put hnew).mpr (.inr rfl), hok⟩, rfl⟩
  · rw [Store.put_of_new hnew, List.map_append]
    refine h.ledger.add (.task i) hnew fun holder k => ?_
    split
    · rename_i heq
      subst heq
      simp [Holds, hi, Task.rkey, eq_comm]
    · rename_i hne
      simp [hne]
  · rcases (Store.mem_put hnew).mp hx with hx | rfl
    · obtain ⟨n, hn, heq⟩ := h.drawn x hx
      exact ⟨n, by omega, heq⟩
    · exact ⟨s.drawn, by omega, rfl⟩
  · exact (Store.mem_put hnew).mpr (.inl hl)

theorem inv_store (h : Inv E s) (hi : s.tasks i = some (.store d k)) :
    Inv E (runTask E s i (.store d k)) := by
  obtain ⟨⟨n, rfl⟩, l, hl, hsubject⟩ := h.tasks i _ hi
  have htarget : (E.target d.postId).isSome = true := by rw [hsubject]; rfl
  have hdelivering : Delivering s d.postId := ⟨i, _, hi, rfl⟩
  obtain ⟨r, hr⟩ := Option.isSome_iff_exists.mp (h.reacted _ hdelivering htarget)
  have hs : runTask E s i (.store d (E.tid n)) = (s.setReaction d.postId
      (some { r with atUri := some (likeUri E.did (E.tid n)) })).setTask i none := by
    simp only [runTask, hr, Option.map_some]
  rw [hs]
  -- no other task delivers a reaction to the post
  have hdel : ∀ p, Delivering ((s.setReaction d.postId
      (some { r with atUri := some (likeUri E.did (E.tid n)) })).setTask i none) p ↔
      p ≠ d.postId ∧ Delivering s p := by
    intro p
    rw [delivering_setTask]
    constructor
    · rintro (⟨u, hu, -⟩ | ⟨j, hj, u, hu, hp⟩)
      · cases hu
      · refine ⟨?_, j, u, hu, hp⟩
        rintro rfl
        exact hj (h.alone j u hu i _ hi _ hp rfl htarget)
    · rintro ⟨hne, j, u, hu, hp⟩
      refine .inr ⟨j, ?_, u, hu, hp⟩
      rintro rfl
      rw [hi] at hu
      cases hu
      cases hp
      exact hne rfl
  refine ⟨?_, h.drawn, fun j u hj => ?_, fun p hp hp' => ?_, ?_, fun p k hk => ?_,
    fun p r' hr' => ?_, fun p r' hr' hp' hnot => ?_⟩
  · refine h.ledger.move (.task i) (.row d.postId) (fun k hk => hk.2 hdelivering)
      (fun k => ?_) (fun k hk => ?_) fun holder k hsrc hdst => ?_
    · simp only [Holds, hdel, hi]
      simp [State.setTask, State.setReaction, Reaction.atpRkey, lastSegment_likeUri, Task.rkey]
    · rw [holds_task_setTask, if_pos rfl] at hk
      cases hk
    · cases holder with
      | row p =>
        have hp : p ≠ d.postId := fun heq => hdst (heq ▸ rfl)
        simp only [Holds, hdel]
        simp [State.setTask, State.setReaction, hp]
      | task j =>
        have hj : j ≠ i := fun heq => hsrc (heq ▸ rfl)
        rw [holds_task_setTask, if_neg hj]
        rfl
  · rcases mem_setTask.mp hj with ⟨-, hmem⟩ | ⟨-, hmem⟩
    · cases hmem
    · exact h.tasks j u hmem
  · obtain ⟨hne, hp⟩ := (hdel p).mp hp
    show (Function.update s.reactions d.postId _ p).isSome = true
    rw [Function.update_of_ne hne]
    exact h.reacted p hp hp'
  · intro j u hu j' u' hu' p hp hp' htarget'
    rcases mem_setTask.mp hu with ⟨-, hmem⟩ | ⟨-, hmem⟩
    · cases hmem
    · rcases mem_setTask.mp hu' with ⟨-, hmem'⟩ | ⟨-, hmem'⟩
      · cases hmem'
      · exact h.alone j u hmem j' u' hmem' p hp hp' htarget'
  · obtain ⟨hk, hnot⟩ := hk
    obtain ⟨r', hr', hk⟩ := Option.bind_eq_some_iff.mp hk
    rcases mem_setReaction.mp hr' with ⟨rfl, hmem⟩ | ⟨hne, hmem⟩
    · cases hmem
      simp only [Reaction.atpRkey, Option.map_some, lastSegment_likeUri, Option.some.injEq] at hk
      exact ⟨l, hk ▸ hl, hsubject⟩
    · apply h.subject p k
      refine ⟨?_, fun hd => hnot ((hdel p).mpr ⟨hne, hd⟩)⟩
      have hmem : s.reactions p = some r' := hmem
      rw [hmem]
      exact hk
  · rcases mem_setReaction.mp hr' with ⟨rfl, hmem⟩ | ⟨-, hmem⟩
    · cases hmem
      intro uri huri
      cases huri
      exact ⟨htarget, n, rfl⟩
    · exact h.uri p r' hmem
  · rcases mem_setReaction.mp hr' with ⟨rfl, hmem⟩ | ⟨hne, hmem⟩
    · cases hmem
      exact Option.some_ne_none _
    · exact h.served p r' hmem hp' fun hd => hnot ((hdel p).mpr ⟨hne, hd⟩)

theorem inv_step (h : Inv E s) (hact : Prompt E s act)
    (hs : (machine E).step s act = some s') : Inv E s' := by
  cases act with
  | react i new =>
    simp only [machine, step] at hs
    split at hs
    · rename_i hi
      cases hs
      exact inv_react h hi hact
    · cases hs
  | unreact i p content =>
    simp only [machine, step] at hs
    split at hs
    · rename_i hi
      cases hs
      exact inv_unreact h hi hact
    · cases hs
  | run i =>
    obtain ⟨task, hi, rfl⟩ := Option.map_eq_some_iff.mp hs
    cases task with
    | find d => exact inv_find h hi
    | replace d target rkey => exact inv_replace h hi
    | commit d target => exact inv_commit h hi (hact d target hi)
    | store d rkey => exact inv_store h hi
    | delete rkey => exact inv_delete h hi

end Tasks

section Mirrors

theorem inv_start (E : Env) : Inv E start where
  ledger := Ledger.empty fun holder k h => by
    cases holder with
    | row p => cases h.1
    | task i => cases h
  drawn x hx := absurd hx List.not_mem_nil
  tasks i task h := nomatch h
  reacted p h := by
    obtain ⟨i, task, h, -⟩ := h
    cases h
  alone i task h := nomatch h
  subject p k h := nomatch h.1
  uri p r h := nomatch h
  served p r h := nomatch h

/-- All background work has ended. -/
def Quiet (s : State) : Prop := ∀ i, s.tasks i = none

/-- The reactions to posts with an `at_uri`, and the Likes in the repository -/
structure Mirrors (E : Env) (s : State) : Prop where
  /-- Each reaction to such a post has one Like, under the rkey that is stored. -/
  one : ∀ p, ∀ r ∈ s.reactions p, ∀ uri ∈ E.atUri p, ∃ rkey like,
    r.atUri = some (likeUri E.did rkey) ∧
      ∀ x, x ∈ s.likes ∧ x.2.subject.uri = uri ↔ x = (rkey, like)
  /-- There is no other Like. -/
  rest : ∀ x ∈ s.likes, ∃ p, ∃ r ∈ s.reactions p, E.atUri p = some x.2.subject.uri ∧
    r.atUri = some (likeUri E.did x.1)

theorem atUri_of_target {target : Target} (h : E.target p = some target) :
    E.atUri p = some target.uri := by
  obtain ⟨post, hpost, h⟩ := Option.bind_eq_some_iff.mp h
  obtain ⟨uri, huri, h⟩ := Option.bind_eq_some_iff.mp h
  obtain ⟨cid, -, h⟩ := Option.bind_eq_some_iff.mp h
  cases h
  rw [Env.atUri, hpost]
  exact huri

/-- Once all tasks have ended, the rkey of each Like is in the row of its reaction. -/
theorem row_of_like (h : Inv E s) (hquiet : Quiet s) {x : String × Like} (hx : x ∈ s.likes) :
    ∃ p r, s.reactions p = some r ∧ r.atpRkey = some x.1 ∧
      E.atUri p = some x.2.subject.uri := by
  obtain ⟨holder, hholds⟩ := h.ledger.held (List.mem_map_of_mem hx)
  cases holder with
  | task i => simp [Holds, hquiet i] at hholds
  | row p =>
    obtain ⟨r, hr, hk⟩ := Option.bind_eq_some_iff.mp hholds.1
    obtain ⟨l, hl, htarget⟩ := h.subject p x.1 hholds
    have hxl : x = (x.1, l) := List.inj_on_of_nodup_map h.ledger.nodup hx hl rfl
    rw [hxl]
    exact ⟨p, r, hr, hk, atUri_of_target htarget⟩

theorem mirrors_of_inv (h : Inv E s) (hquiet : Quiet s)
    (hunique : ∀ p q uri, E.atUri p = some uri → E.atUri q = some uri → p = q)
    (hwhole : ∀ p, (E.atUri p).isSome = true → (E.target p).isSome = true) : Mirrors E s := by
  have hnot : ∀ p, ¬ Delivering s p := by
    rintro p ⟨i, task, hi, -⟩
    rw [hquiet i] at hi
    cases hi
  refine ⟨fun p r hr uri huri => ?_, fun x hx => ?_⟩
  · have htarget := hwhole p (by rw [huri]; rfl)
    obtain ⟨stored, hstored⟩ := Option.ne_none_iff_exists'.mp (h.served p r hr htarget (hnot p))
    obtain ⟨-, n, rfl⟩ := h.uri p r hr stored hstored
    have hk : r.atpRkey = some (E.tid n) := by
      rw [Reaction.atpRkey, hstored, Option.map_some, lastSegment_likeUri]
    have hholds : Holds s (.row p) (E.tid n) := ⟨by rw [hr]; exact hk, hnot p⟩
    obtain ⟨l, hl, hsubject⟩ := h.subject p _ hholds
    have hluri : l.subject.uri = uri :=
      Option.some.inj ((atUri_of_target hsubject).symm.trans huri)
    refine ⟨E.tid n, l, hstored, fun x => ⟨fun hx => ?_, ?_⟩⟩
    · obtain ⟨q, r', hr', hq, hquri⟩ := row_of_like h hquiet hx.1
      have hqp : q = p := hunique q p uri (hx.2 ▸ hquri) huri
      subst hqp
      rw [hr] at hr'
      cases hr'
      have hkey : x.1 = E.tid n := Option.some.inj (hq.symm.trans hk)
      exact List.inj_on_of_nodup_map h.ledger.nodup hx.1 hl hkey
    · rintro rfl
      exact ⟨hl, hluri⟩
  · obtain ⟨p, r, hr, hk, huri⟩ := row_of_like h hquiet hx
    exact ⟨p, r, hr, huri, (atpRkey_eq_some h hr hk).2⟩

/-- The task that an action is about -/
def Action.slot : Action → Nat
  | .react i _ => i
  | .unreact i _ _ => i
  | .run i => i

theorem idle_of_step (hs : (machine E).step s act = some t) (hi : act.slot ≠ i)
    (hidle : s.tasks i = none) : t.tasks i = none := by
  have hset : ∀ (u : State) o, (u.setTask act.slot o).tasks i = u.tasks i :=
    fun u o => Function.update_of_ne hi.symm _ _
  cases act with
  | react j new =>
    simp only [Action.slot] at hset
    simp only [machine, step, Option.ite_none_right_eq_some, Option.some.injEq] at hs
    rw [← hs.2, createReaction, hset]
    exact hidle
  | unreact j p content =>
    simp only [Action.slot] at hset
    simp only [machine, step, Option.ite_none_right_eq_some, Option.some.injEq] at hs
    rw [← hs.2, removeReaction]
    split
    · exact hidle
    · rw [hset]
      exact hidle
  | run j =>
    simp only [Action.slot] at hset
    obtain ⟨task, -, rfl⟩ := Option.map_eq_some_iff.mp hs
    cases task with
    | find d =>
      rw [runTask]
      split <;> rw [hset] <;> exact hidle
    | _ =>
      rw [runTask, hset]
      exact hidle

/-- A run whose tasks have ended -/
theorem quiet_of_run (hr : (machine E).run start as = some t)
    (hended : ∀ act ∈ as, t.tasks act.slot = none) : Quiet t := by
  intro i
  by_cases hi : ∃ act ∈ as, act.slot = i
  · obtain ⟨act, hact, rfl⟩ := hi
    exact hended act hact
  · refine (machine E).run_inv_along (P := fun _ act => act.slot ≠ i)
      (I := fun u => u.tasks i = none) (fun hu hact hs => idle_of_step hs hact hu) rfl ?_ hr
    exact (machine E).along_of_forall start fun act hact heq => hi ⟨act, hact, heq⟩

theorem free_of_quiet (hquiet : Quiet s) : Free E s p := by
  rintro - - ⟨i, task, hi, -⟩
  rw [hquiet i] at hi
  cases hi

/-- One post in both protocols, and a clock that goes on by one microsecond -/
def onePost : Env where
  did := "did:plc:me"
  findDeliveryMeta p :=
    if p = 1 then some ⟨some "at://did:plc:you/app.bsky.feed.post/a", some "cid"⟩ else none
  clock n := ⟨n, 0⟩

def heart : NewReaction := ⟨7, 1, "heart", none, none⟩

def star : NewReaction := ⟨8, 1, "star", none, none⟩

/-- The reaction is changed once its task has ended. -/
def patient : List Action :=
  [.react 0 heart, .run 0, .run 0, .run 0, .react 0 star, .run 0, .run 0, .run 0, .run 0]

/-- The reaction is removed before its task has committed. -/
def hasty : List Action := [.react 0 heart, .unreact 1 1 none, .run 0, .run 0, .run 0]

theorem onePost_post {uri : String} (h : onePost.atUri p = some uri) : p = 1 := by
  by_contra hne
  simp [Env.atUri, onePost, hne] at h

theorem onePost_unique (p q : Int64) (uri : String) (hp : onePost.atUri p = some uri)
    (hq : onePost.atUri q = some uri) : p = q := by
  rw [onePost_post hp, onePost_post hq]

theorem onePost_whole (p : Int64) (h : (onePost.atUri p).isSome = true) :
    (onePost.target p).isSome = true := by
  obtain ⟨uri, huri⟩ := Option.isSome_iff_exists.mp h
  rw [onePost_post huri]
  decide

theorem onePost_tid : ∀ m < 3, ∀ n < m, onePost.tid n ≠ onePost.tid m := by decide

end Mirrors

end Seiran.Reactions
