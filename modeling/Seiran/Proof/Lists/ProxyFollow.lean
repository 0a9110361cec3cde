import Seiran.Model.Lists.ProxyFollow

/-!
# The list relay follows whom a list has

* `Settled`: a follow, or a job that will bring it, and no job that undoes it (and
  the other way about);
* `InTurn`: a request puts its job into the queue while no job of the other kind is
  there and while what it has seen of the lists still holds, or is still being
  looked at by another request;
* `inv_step`: then whoever has changed whether the actor is in a list sees to the
  follow;
* `follows_mirror`: so in the end there is a follow if and only if a list has the
  actor.
-/

namespace Seiran.ProxyFollow

open Follows (Follow Statement)

variable {proxyActorId targetActorId : Int64} {s s' t : State} {act : Action} {as : List Action}
  {i : Nat} {r : Request}

section Invariant

/-- The follow is there (is not there), or will be, and nothing changes that. -/
structure Settled (s : State) (wantFollow : Bool) : Prop where
  reached : s.follow.isSome = wantFollow ∨ ∃ job ∈ s.jobs, job.wantFollow = wantFollow
  jobs : ∀ job ∈ s.jobs, job.wantFollow = wantFollow

/-- A request has put the actor into its first list and has still to say so. -/
def State.Joining (s : State) : Prop := .added ∈ s.requests

/-- A request has taken the actor out of a list and has still to look or to say so. -/
def State.Leaving (s : State) : Prop := .removed ∈ s.requests ∨ .unreferenced ∈ s.requests

structure Inv (s : State) : Prop where
  follow : s.referenced = true → s.Joining ∨ Settled s true
  unfollow : s.referenced = false → s.Leaving ∨ Settled s false

/-- The next step of a request is taken while its view of the lists holds. -/
def Request.InTurn (s : State) : Request → Prop
  | .added => (∀ job ∈ s.jobs, job.wantFollow = true) ∧ (s.referenced = true ∨ s.Leaving)
  | .unreferenced => (∀ job ∈ s.jobs, job.wantFollow = false) ∧ (s.referenced = false ∨ s.Joining)
  | .addRead listId wasReferenced => wasReferenced = true → listId ∈ s.lists →
    s.referenced = true ∨ Settled s true
  | .deleteRead listId isMember => isMember = false → listId ∈ s.lists → listId ∈ s.members →
    (∃ l ∈ s.members, l ≠ listId) ∨ s.Leaving
  | _ => True

def InTurn (s : State) : Action → Prop
  | .runRequest i => ∀ r ∈ s.requests[i]?, r.InTurn s
  | _ => True

end Invariant

section Requests

/-- A request that is neither keeps its place or goes: the others are as they were. -/
theorem mem_set_of_ne {r' q : Request} (hi : s.requests[i]? = some r) (hne : r ≠ q)
    (hq : q ∈ s.requests) : q ∈ s.requests.set i r' := by
  obtain ⟨j, hj, rfl⟩ := List.mem_iff_getElem.mp hq
  have hij : i ≠ j := by
    rintro rfl
    rw [List.getElem?_eq_getElem hj] at hi
    exact hne (Option.some.inj hi).symm
  refine List.mem_iff_getElem.mpr ⟨j, by simpa using hj, ?_⟩
  rw [List.getElem_set_ne hij]

theorem mem_eraseIdx_of_ne {q : Request} (hi : s.requests[i]? = some r) (hne : r ≠ q)
    (hq : q ∈ s.requests) : q ∈ s.requests.eraseIdx i := by
  obtain ⟨j, hj, rfl⟩ := List.mem_iff_getElem.mp hq
  refine List.mem_eraseIdx_iff_getElem.mpr ⟨j, hj, ?_, rfl⟩
  rintro rfl
  rw [List.getElem?_eq_getElem hj] at hi
  exact hne (Option.some.inj hi).symm

theorem mem_set_self {r' : Request} (hi : s.requests[i]? = some r) : r' ∈ s.requests.set i r' :=
  List.mem_set (List.getElem?_eq_some_iff.mp hi).1 r'

theorem joining_set {r' : Request} (hi : s.requests[i]? = some r) (hne : r ≠ .added)
    (h : s.Joining) : (s.setRequest i r').Joining :=
  mem_set_of_ne hi hne h

theorem joining_end (hi : s.requests[i]? = some r) (hne : r ≠ .added) (h : s.Joining) :
    (s.endRequest i).Joining :=
  mem_eraseIdx_of_ne hi hne h

theorem leaving_set {r' : Request} (hi : s.requests[i]? = some r) (hne : r ≠ .removed)
    (hne' : r ≠ .unreferenced) (h : s.Leaving) : (s.setRequest i r').Leaving :=
  h.imp (mem_set_of_ne hi hne) (mem_set_of_ne hi hne')

theorem leaving_end (hi : s.requests[i]? = some r) (hne : r ≠ .removed) (hne' : r ≠ .unreferenced)
    (h : s.Leaving) : (s.endRequest i).Leaving :=
  h.imp (mem_eraseIdx_of_ne hi hne) (mem_eraseIdx_of_ne hi hne')

theorem referenced_iff : s.referenced = true ↔ ∃ l, l ∈ s.members := by
  rw [State.referenced, Bool.not_eq_true', List.isEmpty_eq_false_iff_exists_mem]

theorem referenced_addMember (listId : Int64) : (s.addMember listId).referenced = true := by
  refine referenced_iff.mpr ⟨listId, ?_⟩
  rw [State.addMember]
  split
  · assumption
  · exact List.mem_append_right _ (List.mem_singleton_self listId)

/-- A removal takes nothing into a list. -/
theorem referenced_of_removeMember {listId : Int64} (h : (s.removeMember listId).referenced = true) :
    s.referenced = true := by
  obtain ⟨l, hl⟩ := referenced_iff.mp h
  exact referenced_iff.mpr ⟨l, (List.mem_filter.mp hl).1⟩

theorem Settled.congr {wantFollow : Bool} (h : Settled s wantFollow) (hjobs : s'.jobs = s.jobs)
    (hfollow : s'.follow = s.follow) : Settled s' wantFollow :=
  ⟨by rw [hjobs, hfollow]; exact h.reached, by rw [hjobs]; exact h.jobs⟩

/-- A request that decides nothing -/
theorem Inv.of_same (h : Inv s) (hreferenced : s'.referenced = s.referenced)
    (hjobs : s'.jobs = s.jobs) (hfollow : s'.follow = s.follow) (hjoining : s.Joining → s'.Joining)
    (hleaving : s.Leaving → s'.Leaving) : Inv s' where
  follow href := (h.follow (hreferenced ▸ href)).imp hjoining fun hs => hs.congr hjobs hfollow
  unfollow href := (h.unfollow (hreferenced ▸ href)).imp hleaving fun hs => hs.congr hjobs hfollow

theorem Inv.endRequest (h : Inv s) (hi : s.requests[i]? = some r) (hadded : r ≠ .added)
    (hremoved : r ≠ .removed) (hunreferenced : r ≠ .unreferenced) : Inv (s.endRequest i) :=
  h.of_same rfl rfl rfl (joining_end hi hadded) (leaving_end hi hremoved hunreferenced)

theorem inv_added (hi : s.requests[i]? = some .added)
    (hjobs : ∀ job ∈ s.jobs, job.wantFollow = true) (hturn : s.referenced = true ∨ s.Leaving) :
    Inv ((s.enqueue true).endRequest i) := by
  constructor
  · intro _
    refine .inr ⟨.inr ⟨⟨true, .queued⟩, List.mem_append_right _ (List.mem_singleton_self _), rfl⟩, ?_⟩
    intro job hjob
    rcases List.mem_append.mp hjob with hjob | hjob
    · exact hjobs job hjob
    · rw [List.mem_singleton.mp hjob]
  · intro href
    have href : s.referenced = false := href
    rcases hturn with hyes | hleaving
    · rw [href] at hyes
      cases hyes
    · exact .inl (leaving_end hi (by simp) (by simp) hleaving)

theorem inv_unreferenced (hi : s.requests[i]? = some .unreferenced)
    (hjobs : ∀ job ∈ s.jobs, job.wantFollow = false) (hturn : s.referenced = false ∨ s.Joining) :
    Inv ((s.enqueue false).endRequest i) := by
  constructor
  · intro href
    have href : s.referenced = true := href
    rcases hturn with hno | hjoining
    · rw [href] at hno
      cases hno
    · exact .inl (joining_end hi (by simp) hjoining)
  · intro _
    refine .inr ⟨.inr ⟨⟨false, .queued⟩, List.mem_append_right _ (List.mem_singleton_self _), rfl⟩, ?_⟩
    intro job hjob
    rcases List.mem_append.mp hjob with hjob | hjob
    · exact hjobs job hjob
    · rw [List.mem_singleton.mp hjob]

/-- What a request that takes the actor out of a list owes it is still to come. -/
theorem inv_removed (h : Inv s) (hi : s.requests[i]? = some r) (hadded : r ≠ .added)
    (hsub : s'.referenced = true → s.referenced = true) (hrequests : s'.requests = s.requests)
    (hjobs : s'.jobs = s.jobs) (hfollow : s'.follow = s.follow) : Inv (s'.setRequest i .removed) := by
  have hi' : s'.requests[i]? = some r := hrequests ▸ hi
  constructor
  · intro href
    refine (h.follow (hsub href)).imp (fun hj => joining_set hi' hadded ?_) fun hs =>
      hs.congr hjobs hfollow
    rw [State.Joining, hrequests]
    exact hj
  · exact fun _ => .inl (.inl (mem_set_self hi'))

theorem inv_addRead (h : Inv s) {listId : Int64} {wasReferenced : Bool}
    (hi : s.requests[i]? = some (.addRead listId wasReferenced))
    (hturn : Request.InTurn s (.addRead listId wasReferenced)) :
    Inv (s.runRequest i (.addRead listId wasReferenced)) := by
  have href := referenced_addMember (s := s) listId
  rw [State.runRequest]
  split
  · exact h.endRequest hi (by simp) (by simp) (by simp)
  rename_i hlist
  split
  · rename_i hwas
    constructor
    · intro _
      rcases hturn hwas (by simpa using hlist) with hyes | hs
      · refine (h.follow hyes).imp (joining_end (s := s.addMember listId) hi (by simp)) fun hs => ?_
        exact hs.congr rfl rfl
      · exact .inr (hs.congr rfl rfl)
    · intro hno
      have hno : (s.addMember listId).referenced = false := hno
      rw [href] at hno
      cases hno
  · constructor
    · exact fun _ => .inl (mem_set_self (s := s.addMember listId) hi)
    · intro hno
      have hno : (s.addMember listId).referenced = false := hno
      rw [href] at hno
      cases hno

theorem inv_deleteRead (h : Inv s) {listId : Int64} {isMember : Bool}
    (hi : s.requests[i]? = some (.deleteRead listId isMember))
    (hturn : Request.InTurn s (.deleteRead listId isMember)) :
    Inv (s.runRequest i (.deleteRead listId isMember)) := by
  rw [State.runRequest]
  split
  · exact h.endRequest hi (by simp) (by simp) (by simp)
  rename_i hlist
  dsimp only
  split
  · exact inv_removed h hi (by simp) referenced_of_removeMember rfl rfl rfl
  · rename_i hno
    have hno : isMember = false := by simpa using hno
    have hlist : listId ∈ s.lists := by simpa using hlist
    constructor
    · intro href
      refine (h.follow (referenced_of_removeMember href)).imp (joining_end hi (by simp)) fun hs => ?_
      exact hs.congr rfl rfl
    · intro href
      have href : (s.removeMember listId).referenced = false := href
      have hnone : ∀ l ∈ s.members, l = listId := by
        intro l hl
        by_contra hne
        have hmem : (s.removeMember listId).referenced = true :=
          referenced_iff.mpr ⟨l, List.mem_filter.mpr ⟨hl, by simpa using hne⟩⟩
        rw [href] at hmem
        cases hmem
      by_cases hmem : listId ∈ s.members
      · rcases hturn hno hlist hmem with ⟨l, hl, hne⟩ | hleaving
        · exact absurd (hnone l hl) hne
        · exact .inl (leaving_end hi (by simp) (by simp) hleaving)
      · have hout : s.referenced = false := by
          by_contra hyes
          obtain ⟨l, hl⟩ := referenced_iff.mp (by simpa using hyes)
          exact hmem (hnone l hl ▸ hl)
        refine (h.unfollow hout).imp (leaving_end hi (by simp) (by simp)) fun hs => ?_
        exact hs.congr rfl rfl

theorem inv_runRequest (h : Inv s) (hi : s.requests[i]? = some r) (hturn : r.InTurn s) :
    Inv (s.runRequest i r) := by
  cases r with
  | addFound listId =>
    exact h.of_same rfl rfl rfl (joining_set hi (by simp)) (leaving_set hi (by simp) (by simp))
  | addRead listId wasReferenced => exact inv_addRead h hi hturn
  | added => exact inv_added hi hturn.1 hturn.2
  | removeFound listId =>
    rw [State.runRequest]
    split
    · exact inv_removed h hi (by simp) referenced_of_removeMember rfl rfl rfl
    · exact h.endRequest hi (by simp) (by simp) (by simp)
  | deleteRead listId isMember => exact inv_deleteRead h hi hturn
  | removed =>
    rw [State.runRequest]
    split
    · rename_i href
      constructor
      · exact fun _ => (h.follow href).imp (joining_end hi (by simp)) fun hs => hs.congr rfl rfl
      · intro hno
        have hno : s.referenced = false := hno
        rw [href] at hno
        cases hno
    · rename_i href
      constructor
      · exact fun hyes => absurd hyes href
      · exact fun _ => .inl (.inr (mem_set_self hi))
  | unreferenced => exact inv_unreferenced hi hturn.1 hturn.2

end Requests

section Jobs

variable {job : Job} {wantFollow : Bool}

/-- A job that only goes on is there, and as good as before. -/
theorem Settled.setJob (h : Settled s wantFollow) (hi : s.jobs[i]? = some job) (phase : Phase) :
    Settled { s with jobs := s.jobs.set i { job with phase } } wantFollow := by
  have hjob := h.jobs job (List.mem_of_getElem? hi)
  have hlt := (List.getElem?_eq_some_iff.mp hi).1
  refine ⟨?_, fun job' hjob' => ?_⟩
  · rcases h.reached with hfollow | -
    · exact .inl hfollow
    · exact .inr ⟨_, List.mem_set hlt _, hjob⟩
  · rcases List.mem_or_eq_of_mem_set hjob' with hmem | rfl
    · exact h.jobs job' hmem
    · exact hjob

/-- A job that has done its work goes. -/
theorem Settled.endJob (h : Settled s wantFollow) {follow : Option Follow}
    (hfollow : follow.isSome = wantFollow) :
    Settled { s with jobs := s.jobs.eraseIdx i, follow } wantFollow :=
  ⟨.inl hfollow, fun job hjob => h.jobs job (List.mem_of_mem_eraseIdx hjob)⟩

theorem isSome_write_upsertPending (follow : Option Follow) :
    (write (.upsertPending proxyActorId targetActorId) follow).isSome = true := by
  cases follow <;> rfl

theorem isSome_write_deleteByActors (follow : Option Follow) :
    (write (.deleteByActors proxyActorId targetActorId) follow).isSome = false := by
  cases follow <;> rfl

theorem isSome_write_accept (follow : Option Follow) :
    (write (.accept proxyActorId targetActorId) follow).isSome = follow.isSome := by
  cases follow with
  | none => rfl
  | some row =>
    simp only [write, Statement.change, Statement.update]
    split <;> rfl

theorem Settled.runJob (h : Settled s wantFollow) (hi : s.jobs[i]? = some job) :
    Settled (s.runJob proxyActorId targetActorId i job) wantFollow := by
  have hjob := h.jobs job (List.mem_of_getElem? hi)
  rw [State.runJob]
  split
  · split
    · rename_i hdone
      exact h.endJob (hdone.trans hjob)
    · exact h.setJob hi .sending
  · exact h.setJob hi .sent
  · refine h.endJob ?_
    rw [← hjob]
    split
    · rename_i hwant
      rw [hwant]
      exact isSome_write_upsertPending s.follow
    · rename_i hwant
      rw [Bool.not_eq_true _ |>.mp hwant]
      exact isSome_write_deleteByActors s.follow

theorem Settled.redeliverJob (h : Settled s wantFollow) (hi : s.jobs[i]? = some job) :
    Settled { s with jobs := s.jobs ++ [{ job with phase := .queued }] } wantFollow := by
  have hjob := h.jobs job (List.mem_of_getElem? hi)
  refine ⟨.inr ⟨_, List.mem_append_right _ (List.mem_singleton_self _), hjob⟩, fun job' hjob' => ?_⟩
  rcases List.mem_append.mp hjob' with hmem | hmem
  · exact h.jobs job' hmem
  · rw [List.mem_singleton.mp hmem]
    exact hjob

/-- What leaves the lists and the requests as they are -/
theorem Inv.of_settled (h : Inv s) (hmembers : s'.members = s.members)
    (hrequests : s'.requests = s.requests)
    (hsettled : ∀ wantFollow, Settled s wantFollow → Settled s' wantFollow) : Inv s' := by
  constructor
  · intro href
    rw [State.referenced, hmembers] at href
    rw [State.Joining, hrequests]
    exact (h.follow href).imp id (hsettled true)
  · intro href
    rw [State.referenced, hmembers] at href
    rw [State.Leaving, hrequests]
    exact (h.unfollow href).imp id (hsettled false)

end Jobs

section Runs

theorem inv_runJob (h : Inv s) {job : Job} (hi : s.jobs[i]? = some job) :
    Inv (s.runJob proxyActorId targetActorId i job) := by
  refine h.of_settled ?_ ?_ fun _ hs => hs.runJob hi
  all_goals
    rw [State.runJob]
    split
    · split <;> rfl
    · rfl
    · rfl

theorem inv_addRequest (h : Inv s) (r : Request) : Inv { s with requests := s.requests ++ [r] } :=
  h.of_same rfl rfl rfl (List.mem_append_left _)
    (Or.imp (List.mem_append_left _) (List.mem_append_left _))

theorem inv_step (h : Inv s) (hturn : InTurn s act)
    (hs : step proxyActorId targetActorId s act = some s') : Inv s' := by
  cases act with
  | createList listId =>
    simp only [step] at hs
    split at hs
    · cases hs
    · cases hs
      exact h.of_same rfl rfl rfl id id
  | addMember listId =>
    simp only [step] at hs
    split at hs
    · cases hs
      exact inv_addRequest h _
    · cases hs
      exact h
  | removeMember listId =>
    simp only [step] at hs
    split at hs
    · cases hs
      exact inv_addRequest h _
    · cases hs
      exact h
  | deleteList listId =>
    simp only [step] at hs
    split at hs
    · cases hs
      exact inv_addRequest h _
    · cases hs
      exact h
  | runRequest i =>
    obtain ⟨r, hi, rfl⟩ := Option.map_eq_some_iff.mp hs
    exact inv_runRequest h hi (hturn r hi)
  | rejectRequest i =>
    obtain ⟨r, hi, hs⟩ := Option.bind_eq_some_iff.mp hs
    split at hs
    · rename_i hunwritten
      cases hs
      refine h.endRequest hi ?_ ?_ ?_
      all_goals
        rintro rfl
        cases hunwritten
    · cases hs
  | runJob i =>
    obtain ⟨job, hi, rfl⟩ := Option.map_eq_some_iff.mp hs
    exact inv_runJob h hi
  | failJob i =>
    obtain ⟨job, hi, rfl⟩ := Option.map_eq_some_iff.mp hs
    exact h.of_settled rfl rfl fun _ hs => hs.setJob hi .queued
  | redeliverJob i =>
    obtain ⟨job, hi, rfl⟩ := Option.map_eq_some_iff.mp hs
    exact h.of_settled rfl rfl fun _ hs => hs.redeliverJob hi
  | receiveAccept =>
    cases hs
    refine h.of_settled rfl rfl fun _ hs => ⟨?_, hs.jobs⟩
    rw [isSome_write_accept]
    exact hs.reached

theorem inv_start : Inv start :=
  ⟨fun h => absurd h (by decide), fun _ => .inr ⟨.inl rfl, fun job hjob => by cases hjob⟩⟩

/-- When nothing is left to do, there is a follow if and only if a list has the actor. -/
theorem follows_mirror (hr : (machine proxyActorId targetActorId).run start as = some t)
    (hturn : (machine proxyActorId targetActorId).Along InTurn start as)
    (hrequests : t.requests = []) (hjobs : t.jobs = []) :
    t.follow.isSome = true ↔ ∃ listId, listId ∈ t.members := by
  have h := (machine proxyActorId targetActorId).run_inv_along inv_step inv_start hturn hr
  have hjoining : ¬ t.Joining := by simp [State.Joining, hrequests]
  have hleaving : ¬ t.Leaving := by simp [State.Leaving, hrequests]
  have hreached : ∀ wantFollow, Settled t wantFollow → t.follow.isSome = wantFollow := by
    intro wantFollow hs
    exact hs.reached.resolve_right (by simp [hjobs])
  rw [← referenced_iff]
  cases href : t.referenced with
  | true => simp [hreached true ((h.follow href).resolve_left hjoining)]
  | false => simp [hreached false ((h.unfollow href).resolve_left hleaving)]

instance (s : State) : Decidable s.Joining := inferInstanceAs (Decidable (_ ∈ _))

instance (s : State) : Decidable s.Leaving := inferInstanceAs (Decidable (_ ∨ _))

instance (s : State) (wantFollow : Bool) : Decidable (Settled s wantFollow) :=
  decidable_of_iff ((s.follow.isSome = wantFollow ∨ ∃ job ∈ s.jobs, job.wantFollow = wantFollow) ∧
    ∀ job ∈ s.jobs, job.wantFollow = wantFollow) ⟨fun h => ⟨h.1, h.2⟩, fun h => ⟨h.1, h.2⟩⟩

instance (s : State) (r : Request) : Decidable (r.InTurn s) := by
  cases r <;> dsimp only [Request.InTurn] <;> infer_instance

instance (s : State) (act : Action) : Decidable (InTurn s act) := by
  cases act <;> dsimp only [InTurn] <;> infer_instance

/-- The actor is added, and taken out when its follow is there. -/
def patient : List Action :=
  [.createList 1, .addMember 1, .runRequest 0, .runRequest 0, .runRequest 0,
    .runJob 0, .runJob 0, .failJob 0, .runJob 0, .runJob 0, .runJob 0, .receiveAccept,
    .createList 2, .addMember 2, .runRequest 0, .runRequest 0,
    .removeMember 1, .runRequest 0, .runRequest 0]

theorem follows_mirror_patient : ∃ t, (machine 90 7).run start patient = some t ∧
    t.members = [2] ∧ (t.follow.isSome = true ↔ ∃ listId, listId ∈ t.members) := by
  have hr : (machine 90 7).run start patient = some _ := rfl
  exact ⟨_, hr, rfl, follows_mirror hr (by decide) rfl rfl⟩

/-- The unfollow job is run before the follow job. -/
theorem follows_mirror_counterexample : ∃ t, (machine 90 7).run start
    [.createList 1, .addMember 1, .runRequest 0, .runRequest 0, .runRequest 0,
      .removeMember 1, .runRequest 0, .runRequest 0, .runRequest 0,
      .runJob 1, .runJob 0, .runJob 0, .runJob 0] = some t ∧
    t.requests = [] ∧ t.jobs = [] ∧
    ¬ (t.follow.isSome = true ↔ ∃ listId, listId ∈ t.members) := by
  refine ⟨⟨[1], [], [], [], some _⟩, rfl, rfl, rfl, fun h => ?_⟩
  obtain ⟨listId, hmem⟩ := h.mp rfl
  cases hmem

end Runs

end Seiran.ProxyFollow
