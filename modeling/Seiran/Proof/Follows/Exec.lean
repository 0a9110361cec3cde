import Seiran.Proof.Follows.Holders

/-!
# Follows mirror their records

* `inv_request`, …, `inv_deleteRecord`: `Inv` after each statement of a task;
* `inv_step`: after each step that is `Clean`;
* `mirrors_of_inv`: when no task is left, it says that rows and records correspond;
* `records_mirror`: after clean runs the accepted relations and the records correspond.
-/

namespace Seiran.FollowExec

open Follows (Follow FollowTable Statement lookup_write)

variable {E : Env} {s t : State} {i j : Nat} {a b : Int64} {k : String}

section Steps

@[simp] theorem nextTarget_rkey (left : Option (List Int64)) :
    (nextTarget left).bind Task.rkey = none := by
  rcases left with _ | _ | ⟨a, left⟩ <;> rfl

theorem nextTarget_ne_deleteRecord {left left' : Option (List Int64)} :
    nextTarget left ≠ some (.deleteRecord b k left') := by
  rcases left with _ | _ | ⟨a, left⟩ <;> exact nofun

theorem atDid_of_subject {attempt : Attempt} {did : String}
    (h : E.subject a attempt = some did) : E.atDid a = some did := by
  cases attempt with
  | claimed | approved => exact h
  | married | accepted =>
    obtain ⟨actor, hactor, h⟩ := Option.bind_eq_some_iff.mp h
    rw [Env.atDid, hactor]
    split at h
    · exact h
    · cases h

theorem recordless_of_row (h : (s.row E a).bind Follow.atpRkey = none) : Recordless E s a := by
  intro k hk
  rw [State.atpRkey, h] at hk
  cases hk

/-- The rows stay as they are. -/
theorem Inv.sameRows (h : Inv E s) {follows : FollowTable}
    (hrow : ∀ a, ({ s with follows } : State).row E a = s.row E a) : Inv E { s with follows } := by
  have hatp : ∀ a, ({ s with follows } : State).atpRkey E a = s.atpRkey E a := by
    intro a
    rw [State.atpRkey, hrow]
    rfl
  have hholds : ∀ holder k, Holds E { s with follows } holder k ↔ Holds E s holder k := by
    intro holder k
    cases holder with
    | row a =>
      show ({ s with follows } : State).atpRkey E a = some k ∧ _ ↔ _
      rw [hatp]
      rfl
    | task i => exact Iff.rfl
  constructor
  case ledger => exact h.ledger.congr hholds
  case drawn => exact h.drawn
  case subject =>
    exact fun holder x hx hh a ha => h.subject holder x hx ((hholds holder x.1).mp hh) a
      (by cases holder <;> exact ha)
  case rowDrawn => exact fun a k hk => h.rowDrawn a k (hatp a ▸ hk)
  case pending => exact fun a row hmem => h.pending a row (hrow a ▸ hmem)
  case stale => exact fun a k hk => h.stale a k (hatp a ▸ hk)
  case deleting =>
    intro i a k left hi
    obtain ⟨hk, hmem⟩ := h.deleting i a k left hi
    exact ⟨hk, fun hk' => (hatp a).trans (hmem hk')⟩
  case served => exact fun a row hmem => h.served a row (hrow a ▸ hmem)

/-- A statement on the row of a target leaves the others alone. -/
theorem write_other {stmt : Statement} (hkey : stmt.key = (E.actorId, a)) (hb : b ≠ a) :
    (s.write stmt).row E b = s.row E b := by
  rw [row_write hkey, if_neg hb]

theorem write_self {stmt : Statement} (hkey : stmt.key = (E.actorId, a)) {o : Option Follow}
    (ho : stmt.change (s.row E a) = some o) : (s.write stmt).row E a = o := by
  rw [row_write hkey, if_pos rfl, ho]
  rfl

theorem setUncommitted_other {v : Bool} (hb : b ≠ a) :
    (s.setUncommitted a v).uncommitted b = s.uncommitted b := Function.update_of_ne hb _ _

@[simp] theorem setUncommitted_self {v : Bool} : (s.setUncommitted a v).uncommitted a = v :=
  Function.update_self _ _ _

theorem inv_request (h : Inv E s) (hi : s.tasks i = some (.request a)) {ok : Bool} :
    Inv E (runTask E s i ok (.request a)) := by
  have hkey : (Statement.upsertPending E.actorId a).key = (E.actorId, a) := rfl
  cases hrow : s.row E a with
  | none =>
    have hself : (s.write (.upsertPending E.actorId a)).row E a =
        some { followerActorId := E.actorId, targetActorId := a, status := .pending } :=
      write_self hkey (by rw [hrow]; rfl)
    refine h.writeRow (o := none) hi rfl (recordless_of_row (by rw [hrow]; rfl))
      (fun b hb => ⟨write_other hkey hb, rfl⟩) ⟨rfl, rfl, rfl⟩ ?_ ?_ ?_ rfl nofun
    · exact congrArg (·.bind Follow.atpRkey) hself
    · intro row hmem _
      cases hself.symm.trans hmem
      rfl
    · intro row hmem hstatus
      cases hself.symm.trans hmem
      cases hstatus
  | some row =>
    have hsame : ∀ b, (s.write (.upsertPending E.actorId a)).row E b = s.row E b := by
      intro b
      by_cases hb : b = a
      · rw [hb, hrow]
        exact write_self hkey (by rw [hrow]; rfl)
      · exact write_other hkey hb
    refine (h.sameRows hsame).setTask ?_ nofun ?_ nofun ?_
    · show _ = (s.tasks i).bind Task.rkey
      rw [hi]
      rfl
    · intro b left
      show s.tasks i ≠ _
      rw [hi]
      exact nofun
    · intro b hb
      have hb : (s.tasks i).bind Task.claims = some b := hb
      rw [hi] at hb
      cases hb

/-- A task ends, which has no rkey and claims no row. -/
theorem Inv.endTask (h : Inv E s) {u : Task} (hi : s.tasks i = some u) (hrkey : u.rkey = none)
    (hdelete : ∀ a left, u ≠ .delete a left) (hclaims : u.claims = none) :
    Inv E (s.setTask i none) := by
  refine h.setTask ?_ nofun ?_ nofun ?_
  · rw [hi]
    exact hrkey.symm
  · intro a left hd
    rw [hi] at hd
    exact hdelete a left (Option.some.inj hd)
  · intro a ha
    rw [hi] at ha
    have ha : u.claims = some a := ha
    rw [hclaims] at ha
    cases ha

theorem inv_claim (h : Inv E s) (hi : s.tasks i = some (.claim a)) {ok : Bool} :
    Inv E (runTask E s i ok (.claim a)) := by
  have hkey : (Statement.insertAcceptedWithRkey E.actorId a none).key = (E.actorId, a) := rfl
  rw [runTask]
  cases hrow : s.row E a with
  | none =>
    have hself : (s.write (.insertAcceptedWithRkey E.actorId a none)).row E a =
        some { followerActorId := E.actorId, targetActorId := a, status := .accepted } :=
      write_self hkey (by rw [hrow]; rfl)
    refine h.writeRow (o := some (.commit .claimed a)) hi rfl (recordless_of_row (by rw [hrow]; rfl))
      (fun b hb => ⟨write_other hkey hb, setUncommitted_other hb⟩) ⟨rfl, rfl, rfl⟩ ?_ ?_ ?_ rfl nofun
    · exact congrArg (·.bind Follow.atpRkey) hself
    · intro row hmem _
      cases hself.symm.trans hmem
      rfl
    · exact fun _ _ _ _ => .inr rfl
  | some row => exact h.endTask hi rfl nofun rfl

theorem inv_commit (h : Inv E s) {attempt : Attempt} (hi : s.tasks i = some (.commit attempt a))
    {ok : Bool} (hclean : (Task.commit attempt a).Clean E s ok) :
    Inv E (runTask E s i ok (.commit attempt a)) := by
  have hfailed : Inv E (s.setTask i (attempt.failed a)) := by
    refine h.setTask ?_ (fun k hk => ?_) ?_ (fun b k left hb => ?_) fun b hb => ?_
    · rw [hi]
      cases attempt <;> rfl
    · cases attempt <;> cases hk
    · rw [hi]
      exact nofun
    · cases attempt <;> cases hb
    · rw [hi] at hb
      cases attempt with
      | claimed => exact .inl hb
      | _ => cases hb
  simp only [runTask]
  split
  · rename_i did hdid
    exact h.addRecord hi (atDid_of_subject hdid) hclean
  · exact hfailed

theorem inv_record (h : Inv E s) (hi : s.tasks i = some (.record a k)) {ok : Bool}
    (hclean : (Task.record a k).Clean E s ok) : Inv E (runTask E s i ok (.record a k)) := by
  have hkey : (Statement.setAtpRkey E.actorId a k).key = (E.actorId, a) := rfl
  rw [runTask]
  cases hrow : s.row E a with
  | none =>
    refine h.setTask ?_ nofun ?_ nofun fun b hb => ?_
    · rw [hi]
      rfl
    · rw [hi]
      exact nofun
    · rw [hi] at hb
      cases hb
      exact .inr hrow
  | some row =>
    obtain ⟨haccepted, hnone⟩ := hclean row hrow
    have hself : (s.write (.setAtpRkey E.actorId a k)).row E a = some { row with atpRkey := some k } :=
      write_self hkey (by rw [hrow]; rfl)
    refine h.writeRow (o := none) hi rfl (recordless_of_row (by rw [hrow]; exact hnone))
      (fun b hb => ⟨write_other hkey hb, rfl⟩) ⟨rfl, rfl, rfl⟩ ?_ ?_ ?_ rfl nofun
    · exact congrArg (·.bind Follow.atpRkey) hself
    · intro row' hmem hstatus
      cases hself.symm.trans hmem
      cases haccepted.symm.trans hstatus
    · intro row' hmem _ hbare
      cases hself.symm.trans hmem
      cases hbare

theorem inv_undo (h : Inv E s) (hi : s.tasks i = some (.undo k)) {ok : Bool}
    (hclean : (Task.undo k).Clean E s ok) : Inv E (runTask E s i ok (.undo k)) := by
  have hok : ok = true := hclean
  have hholds : Holds E s (.task i) k := by
    show (s.tasks i).bind Task.rkey = some k
    rw [hi]
    rfl
  rw [runTask, if_pos hok]
  refine h.dropRecord (fun k' hk' => ?_) (fun holder hh => .inl (h.ledger.unique hh hholds)) ?_ ?_ rfl
    nofun
  · rw [hi] at hk'
    exact (Option.some.inj hk').symm
  · rw [hi]
    exact nofun
  · rw [hi]
    rfl

/-- The row of a target is deleted. -/
theorem Inv.deleteRow (h : Inv E s) {u : Task} {o : Option Task} (hi : s.tasks i = some u)
    (hu : u.target = some a) (hrkey : u.rkey = none) (hfree : Recordless E s a)
    (ho : o.bind Task.rkey = none) (hread : ∀ b k left, o ≠ some (.deleteRecord b k left)) :
    Inv E ((s.write (.deleteByActors E.actorId a)).setTask i o) := by
  have hkey : (Statement.deleteByActors E.actorId a).key = (E.actorId, a) := rfl
  have hself : (s.write (.deleteByActors E.actorId a)).row E a = none := by
    rw [row_write hkey, if_pos rfl]
    cases s.row E a <;> rfl
  refine h.writeRow hi hu hfree (fun b hb => ⟨write_other hkey hb, rfl⟩) ⟨rfl, rfl, rfl⟩ ?_ ?_ ?_ ho hread
  · exact (congrArg (·.bind Follow.atpRkey) hself).trans hrkey.symm
  · intro row hmem
    cases hself.symm.trans hmem
  · intro row hmem
    cases hself.symm.trans hmem

theorem inv_insert (h : Inv E s) {rkey : Option String} (hi : s.tasks i = some (.insert a rkey))
    {ok : Bool} (hclean : (Task.insert a rkey).Clean E s ok) :
    Inv E (runTask E s i ok (.insert a rkey)) := by
  have hkey : (Statement.insertAcceptedWithRkey E.actorId a rkey).key = (E.actorId, a) := rfl
  rw [runTask]
  cases hrow : s.row E a with
  | none =>
    have hself : (s.write (.insertAcceptedWithRkey E.actorId a rkey)).row E a = some
        { followerActorId := E.actorId, targetActorId := a, status := .accepted, atpRkey := rkey } :=
      write_self hkey (by rw [hrow]; rfl)
    refine h.writeRow (o := none) hi rfl (recordless_of_row (by rw [hrow]; rfl))
      (fun b hb => ⟨write_other hkey hb, setUncommitted_other hb⟩) ⟨rfl, rfl, rfl⟩ ?_ ?_ ?_ rfl nofun
    · exact congrArg (·.bind Follow.atpRkey) hself
    · intro row hmem hstatus
      cases hself.symm.trans hmem
      cases hstatus
    · intro row hmem _ hnone
      cases hself.symm.trans hmem
      have hnone : rkey = none := hnone
      subst hnone
      exact .inl setUncommitted_self
  | some row =>
    have hnone : rkey = none := by
      cases rkey with
      | none => rfl
      | some k => exact absurd (hclean rfl) (by rw [hrow]; exact nofun)
    exact h.endTask hi hnone nofun rfl

theorem inv_accept (h : Inv E s) {rkey : Option String} (hi : s.tasks i = some (.accept a rkey))
    {ok : Bool} (hclean : (Task.accept a rkey).Clean E s ok) :
    Inv E (runTask E s i ok (.accept a rkey)) := by
  have hkey : (Statement.acceptAndSetRkey E.actorId a rkey).key = (E.actorId, a) := rfl
  rw [runTask]
  split
  · rename_i hpending
    obtain ⟨row, hrow, hstatus⟩ := (Option.any_eq_true _ _).mp hpending
    have hstatus : row.status = .pending := of_decide_eq_true hstatus
    have hnone := h.pending a row hrow hstatus
    have hself : (s.write (.acceptAndSetRkey E.actorId a rkey)).row E a =
        some { row with status := .accepted, atpRkey := rkey } := by
      refine write_self hkey ?_
      rw [hrow]
      show (if decide (row.status = .pending) = true then _ else _) = _
      rw [hstatus, if_pos (by decide)]
      show some (some { row with status := .accepted, atpRkey := rkey <|> row.atpRkey }) = _
      rw [hnone]
      cases rkey <;> rfl
    refine h.writeRow (o := none) hi rfl (recordless_of_row (by rw [hrow]; exact hnone))
      (fun b hb => ⟨write_other hkey hb, setUncommitted_other hb⟩) ⟨rfl, rfl, rfl⟩ ?_ ?_ ?_ rfl nofun
    · exact congrArg (·.bind Follow.atpRkey) hself
    · intro row' hmem hstatus'
      cases hself.symm.trans hmem
      cases hstatus'
    · intro row' hmem _ hbare
      cases hself.symm.trans hmem
      have hbare : rkey = none := hbare
      subst hbare
      exact .inl setUncommitted_self
  · rename_i hpending
    have hnone : rkey = none := by
      cases rkey with
      | none => rfl
      | some k => exact absurd (hclean rfl) hpending
    exact h.endTask hi hnone nofun rfl

theorem inv_loadPending (h : Inv E s) {approve : Bool} (hi : s.tasks i = some (.loadPending a approve))
    {ok : Bool} : Inv E (runTask E s i ok (.loadPending a approve)) := by
  rw [runTask]
  split
  · refine h.setTask ?_ (fun k hk => ?_) ?_ (fun b k left hb => ?_) fun b hb => ?_
    · rw [hi]
      cases approve <;> rfl
    · cases approve <;> cases hk
    · rw [hi]
      exact nofun
    · cases approve <;> cases hb
    · rw [hi] at hb
      cases hb
  · exact h.endTask hi rfl nofun rfl

theorem inv_find (h : Inv E s) {left : Option (List Int64)} (hi : s.tasks i = some (.find a left))
    {ok : Bool} : Inv E (runTask E s i ok (.find a left)) := by
  rw [runTask]
  split
  · rename_i k hk
    refine h.setTask ?_ nofun ?_ (fun b k' left' hb => ?_) fun b hb => ?_
    · rw [hi]
      rfl
    · rw [hi]
      exact nofun
    · cases hb
      exact hk
    · rw [hi] at hb
      cases hb
  · refine h.setTask ?_ nofun ?_ nofun fun b hb => ?_
    · rw [hi]
      rfl
    · rw [hi]
      exact nofun
    · rw [hi] at hb
      cases hb

theorem inv_deleteRecord (h : Inv E s) {left : Option (List Int64)}
    (hi : s.tasks i = some (.deleteRecord a k left)) {ok : Bool} :
    Inv E (runTask E s i ok (.deleteRecord a k left)) := by
  have hrow := (h.deleting i a k left hi).2
  rw [runTask]
  split
  · refine h.dropRecord (fun k' hk' => ?_) (fun holder hh => .inr ⟨a, left, ?_, rfl⟩) ?_ ?_ rfl nofun
    · rw [hi] at hk'
      cases hk'
    · have hk := h.ledger.backed hh
      exact h.ledger.unique hh ⟨hrow hk, hk⟩
    · rw [hi]
      exact nofun
    · rw [hi]
      rfl
  · refine h.setTask ?_ (fun k hk => ?_) ?_ (fun b k left' hb => ?_) fun b hb => ?_
    · rw [hi]
      cases left <;> rfl
    · cases left <;> cases hk
    · rw [hi]
      exact nofun
    · cases left <;> cases hb
    · rw [hi] at hb
      cases hb

theorem inv_runTask (h : Inv E s) {u : Task} (hi : s.tasks i = some u) {ok : Bool}
    (hclean : u.Clean E s ok) : Inv E (runTask E s i ok u) := by
  cases u with
  | request a => exact inv_request h hi
  | claim a => exact inv_claim h hi
  | commit attempt a => exact inv_commit h hi hclean
  | record a k => exact inv_record h hi hclean
  | undo k => exact inv_undo h hi hclean
  | rollback a => exact h.deleteRow hi rfl rfl hclean rfl nofun
  | insert a rkey => exact inv_insert h hi hclean
  | accept a rkey => exact inv_accept h hi hclean
  | loadPending a approve => exact inv_loadPending h hi
  | find a left => exact inv_find h hi
  | deleteRecord a k left => exact inv_deleteRecord h hi
  | delete a left =>
    exact h.deleteRow hi rfl rfl hclean (nextTarget_rkey left) fun _ _ _ => nextTarget_ne_deleteRecord

/-- A request starts without an rkey, and claims no row. -/
theorem firstTask_bare {act : Action} {u : Task} (hu : firstTask E s act = some (i, u)) :
    u.rkey = none ∧ ∀ b k left, u ≠ .deleteRecord b k left := by
  cases act with
  | followLocal j a isLocked =>
    simp only [firstTask] at hu
    split_ifs at hu with hlocal hlocked
    · cases hu
      exact ⟨rfl, nofun⟩
    · obtain ⟨did, -, heq⟩ := Option.map_eq_some_iff.mp hu
      cases heq
      exact ⟨rfl, nofun⟩
  | followBsky j a =>
    obtain ⟨did, -, heq⟩ := Option.map_eq_some_iff.mp hu
    cases heq
    exact ⟨rfl, nofun⟩
  | followFedi j a isLocked =>
    simp only [firstTask] at hu
    split_ifs at hu <;> cases hu <;> exact ⟨rfl, nofun⟩
  | approve j a | reject j a | handleAccept j a =>
    simp only [firstTask] at hu
    split_ifs at hu
    cases hu
    exact ⟨rfl, nofun⟩
  | unfollow j a =>
    cases hu
    exact ⟨rfl, nofun⟩
  | withdraw j targets =>
    simp only [firstTask] at hu
    split_ifs at hu
    cases targets with
    | nil => cases hu
    | cons a left =>
      cases hu
      exact ⟨rfl, nofun⟩
  | run j ok => cases hu

/-- A request comes to its first statement. -/
theorem inv_spawn (h : Inv E s) {u : Task} (hi : s.tasks i = none) (hrkey : u.rkey = none)
    (hread : ∀ b k left, u ≠ .deleteRecord b k left) : Inv E (s.setTask i (some u)) := by
  refine h.setTask ?_ (fun k hk => ?_) ?_ (fun b k left hb => ?_) fun b hb => ?_
  · rw [hi]
    exact hrkey
  · have hk : u.rkey = some k := hk
    rw [hrkey] at hk
    cases hk
  · rw [hi]
    exact nofun
  · exact absurd (Option.some.inj hb) (hread b k left)
  · rw [hi] at hb
    cases hb

theorem spawned_of_step {act : Action} (hrun : ∀ i ok, act ≠ .run i ok)
    (hs : step E s act = some t) :
    ∃ i u, firstTask E s act = some (i, u) ∧ s.tasks i = none ∧ s.setTask i (some u) = t := by
  have hfirst : (firstTask E s act).bind (fun x =>
      if s.tasks x.1 = none then some (s.setTask x.1 (some x.2)) else none) = some t := by
    cases act with
    | run i ok => exact absurd rfl (hrun i ok)
    | _ => exact hs
  obtain ⟨⟨i, u⟩, hu, hs⟩ := Option.bind_eq_some_iff.mp hfirst
  simp only [Option.ite_none_right_eq_some, Option.some.injEq] at hs
  exact ⟨i, u, hu, hs.1, hs.2⟩

theorem inv_step {act : Action} (h : Inv E s) (hclean : Clean E s act)
    (hs : (machine E).step s act = some t) : Inv E t := by
  have hs : step E s act = some t := hs
  by_cases hrun : ∃ i ok, act = .run i ok
  · obtain ⟨i, ok, rfl⟩ := hrun
    obtain ⟨u, hi, rfl⟩ := Option.map_eq_some_iff.mp hs
    exact inv_runTask h hi (hclean u hi)
  · obtain ⟨i, u, hu, hi, rfl⟩ := spawned_of_step (fun i ok heq => hrun ⟨i, ok, heq⟩) hs
    obtain ⟨hrkey, hread⟩ := firstTask_bare hu
    exact inv_spawn h hi hrkey hread

theorem row_start (E : Env) (a : Int64) : start.row E a = none := AList.lookup_empty _

theorem inv_start (E : Env) : Inv E start := by
  have hatp : ∀ a k, start.atpRkey E a ≠ some k := by
    intro a k
    rw [State.atpRkey, row_start]
    exact (Option.some_ne_none k).symm
  constructor
  case ledger =>
    refine Ledger.empty fun holder k h => ?_
    cases holder with
    | row a => exact hatp a k h.1
    | task i => cases h
  case drawn =>
    intro k h
    cases h
  case subject =>
    intro holder x hx
    cases hx
  case rowDrawn => exact fun a k h => absurd h (hatp a k)
  case pending =>
    intro a row h
    rw [row_start] at h
    cases h
  case stale => exact fun a k h => absurd h (hatp a k)
  case deleting =>
    intro i a k left h
    cases h
  case served =>
    intro a row h
    rw [row_start] at h
    cases h

end Steps

section Runs

variable {acts : List Action}

/-- All requests and jobs have ended. -/
def Quiet (s : State) : Prop := ∀ i, s.tasks i = none

/-- The accepted relations and the records of the repository -/
structure Mirrors (E : Env) (s : State) : Prop where
  /-- Each accepted relation whose commit succeeded has one record, under the stored rkey. -/
  one : ∀ a, ∀ row ∈ s.row E a, row.status = .accepted → s.uncommitted a = false →
    ∃ rkey did, row.atpRkey = some rkey ∧ E.atDid a = some did ∧
      ∀ x, x ∈ s.records ∧ x.2 = did ↔ x = (rkey, did)
  /-- There is no other record. -/
  rest : ∀ x ∈ s.records, ∃ a, ∃ row ∈ s.row E a, row.status = .accepted ∧
    row.atpRkey = some x.1 ∧ E.atDid a = some x.2

/-- Once all has ended, the rkey of each record is in the row of its target. -/
theorem row_of_record (h : Inv E s) (hquiet : Quiet s) {x : String × String} (hx : x ∈ s.records) :
    ∃ a, ∃ row ∈ s.row E a, row.status = .accepted ∧ row.atpRkey = some x.1 ∧
      E.atDid a = some x.2 := by
  obtain ⟨holder, hholds⟩ := h.ledger.held (List.mem_map_of_mem hx)
  cases holder with
  | task i =>
    have hi : (s.tasks i).bind Task.rkey = some x.1 := hholds
    rw [hquiet i] at hi
    cases hi
  | row a =>
    obtain ⟨row, hrow, hk⟩ := Option.bind_eq_some_iff.mp hholds.1
    refine ⟨a, row, hrow, ?_, hk, h.subject (.row a) x hx hholds a rfl⟩
    cases hstatus : row.status with
    | accepted => rfl
    | pending =>
      rw [h.pending a row hrow hstatus] at hk
      cases hk

theorem mirrors_of_inv (h : Inv E s) (hquiet : Quiet s)
    (hunique : ∀ a b did, E.atDid a = some did → E.atDid b = some did → a = b) : Mirrors E s := by
  refine ⟨fun a row hrow haccepted hcommitted => ?_, fun x hx => row_of_record h hquiet hx⟩
  have hk : ∃ k, row.atpRkey = some k := by
    cases hk : row.atpRkey with
    | some k => exact ⟨k, rfl⟩
    | none =>
      rcases h.served a row hrow haccepted hk with huncommitted | ⟨i, hi⟩
      · rw [hcommitted] at huncommitted
        cases huncommitted
      · rw [hquiet i] at hi
        cases hi
  obtain ⟨k, hk⟩ := hk
  have hatp : s.atpRkey E a = some k := by
    have hrow : s.row E a = some row := hrow
    rw [State.atpRkey, hrow]
    exact hk
  have hlive : k ∈ s.rkeys := by
    rcases h.stale a k hatp with hlive | ⟨i, left, hi⟩
    · exact hlive
    · rw [hquiet i] at hi
      cases hi
  obtain ⟨x, hx, rfl⟩ := List.mem_map.mp hlive
  have hdid : E.atDid a = some x.2 := h.subject (.row a) x hx ⟨hatp, hlive⟩ a rfl
  refine ⟨x.1, x.2, hk, hdid, fun y => ⟨fun hy => ?_, ?_⟩⟩
  · obtain ⟨b, row', hrow', -, hk', hdid'⟩ := row_of_record h hquiet hy.1
    have hba : b = a := hunique b a x.2 (hy.2 ▸ hdid') hdid
    subst hba
    have hrow : s.row E b = some row := hrow
    rw [hrow] at hrow'
    cases hrow'
    rw [hk] at hk'
    exact List.inj_on_of_nodup_map h.ledger.nodup hy.1 hx (Option.some.inj hk').symm
  · rintro rfl
    exact ⟨hx, rfl⟩

/-- Where the attempts keep clear of each other, the records in the repository are, once all
has ended, those of the accepted relations. -/
theorem records_mirror (E : Env)
    (hunique : ∀ a b did, E.atDid a = some did → E.atDid b = some did → a = b)
    (hr : (machine E).run start acts = some t) (hclean : (machine E).Along (Clean E) start acts)
    (hquiet : Quiet t) : Mirrors E t :=
  mirrors_of_inv ((machine E).run_inv_along inv_step (inv_start E) hclean hr) hquiet hunique

instance (E : Env) (s : State) (a : Int64) : Decidable (Recordless E s a) :=
  inferInstanceAs (Decidable (∀ k ∈ s.atpRkey E a, k ∉ s.rkeys))

instance (E : Env) (s : State) (ok : Bool) (u : Task) : Decidable (u.Clean E s ok) := by
  cases u <;> dsimp only [Task.Clean] <;> infer_instance

instance (E : Env) (s : State) (act : Action) : Decidable (Clean E s act) := by
  cases act <;> dsimp only [Clean] <;> infer_instance

/-- The task that an action is about -/
def Action.slot : Action → Nat
  | .followLocal i _ _ | .followBsky i _ | .followFedi i _ _ | .approve i _ | .reject i _
  | .handleAccept i _ | .unfollow i _ | .withdraw i _ | .run i _ => i

theorem slot_of_firstTask {act : Action} {u : Task} (hu : firstTask E s act = some (i, u)) :
    act.slot = i := by
  cases act with
  | followLocal j a isLocked =>
    simp only [firstTask] at hu
    split_ifs at hu
    · cases hu
      rfl
    · obtain ⟨did, -, heq⟩ := Option.map_eq_some_iff.mp hu
      cases heq
      rfl
  | followBsky j a =>
    obtain ⟨did, -, heq⟩ := Option.map_eq_some_iff.mp hu
    cases heq
    rfl
  | withdraw j targets =>
    simp only [firstTask] at hu
    split_ifs at hu
    obtain ⟨u', -, heq⟩ := Option.map_eq_some_iff.mp hu
    cases heq
    rfl
  | run j ok => cases hu
  | unfollow j a =>
    cases hu
    rfl
  | followFedi | approve | reject | handleAccept =>
    simp only [firstTask] at hu
    split_ifs at hu <;> cases hu <;> rfl

theorem tasks_runTask {u : Task} {ok : Bool} (hj : j ≠ i) :
    (runTask E s i ok u).tasks j = s.tasks j := by
  have hset : ∀ (s' : State) o, (s'.setTask i o).tasks j = s'.tasks j := by
    intro s' o
    rw [tasks_setTask, if_neg hj]
  cases u <;> simp only [runTask] <;> (try split) <;> rw [hset] <;> rfl

theorem idle_of_step {act : Action} (hs : (machine E).step s act = some t) (hi : act.slot ≠ i)
    (hidle : s.tasks i = none) : t.tasks i = none := by
  have hs : step E s act = some t := hs
  by_cases hrun : ∃ j ok, act = .run j ok
  · obtain ⟨j, ok, rfl⟩ := hrun
    obtain ⟨u, -, rfl⟩ := Option.map_eq_some_iff.mp hs
    have hi : j ≠ i := hi
    rw [tasks_runTask hi.symm]
    exact hidle
  · obtain ⟨j, u, hu, -, rfl⟩ := spawned_of_step (fun j ok heq => hrun ⟨j, ok, heq⟩) hs
    rw [tasks_setTask, if_neg]
    · exact hidle
    · exact fun heq => hi ((slot_of_firstTask hu).trans heq.symm)

/-- A run whose requests and jobs have ended -/
theorem quiet_of_run (hr : (machine E).run start acts = some t)
    (hended : ∀ act ∈ acts, t.tasks act.slot = none) : Quiet t := by
  intro i
  by_cases hi : ∃ act ∈ acts, act.slot = i
  · obtain ⟨act, hact, rfl⟩ := hi
    exact hended act hact
  · refine (machine E).run_inv_along (P := fun _ act => act.slot ≠ i)
      (I := fun u => u.tasks i = none) (fun hu hact hs => idle_of_step hs hact hu) rfl ?_ hr
    exact (machine E).along_of_forall start fun act hact heq => hi ⟨act, hact, heq⟩

/-- The account 1 is here, 2 is a merged one, and the clock goes on by one microsecond. -/
def twoTargets : Env where
  actorId := 9
  actor a :=
    if a = 1 then some ⟨.localUser, some "did:plc:one"⟩
    else if a = 2 then some ⟨.remoteSeiran, some "did:plc:two"⟩
    else none
  clock n := ⟨n, 0⟩

theorem twoTargets_unique (a b : Int64) (did : String) (ha : twoTargets.atDid a = some did)
    (hb : twoTargets.atDid b = some did) : a = b := by
  have hone : ∀ c, twoTargets.atDid c = some did →
      (c = 1 ∧ did = "did:plc:one") ∨ (c = 2 ∧ did = "did:plc:two") := by
    intro c hc
    simp only [Env.atDid, twoTargets] at hc
    split_ifs at hc with h1 h2
    · exact .inl ⟨h1, (Option.some.inj hc).symm⟩
    · exact .inr ⟨h2, (Option.some.inj hc).symm⟩
    · cases hc
  rcases hone a ha with ⟨rfl, rfl⟩ | ⟨rfl, rfl⟩ <;> rcases hone b hb with ⟨rfl, h⟩ | ⟨rfl, h⟩
  · rfl
  · exact absurd h (by decide)
  · exact absurd h (by decide)
  · rfl

/-- Two requests for 1 overlap, one for 2 is made meanwhile, and an unfollow fails. -/
def overlapping : List Action :=
  [.followLocal 0 1 false, .run 0 true, .followFedi 1 2 false, .followLocal 2 1 false, .run 1 true,
    .run 2 true, .run 0 true, .run 1 true, .run 0 true, .unfollow 0 1, .run 0 true, .run 0 false]

theorem records_mirror_overlapping : ∃ t, (machine twoTargets).run start overlapping = some t ∧
    t.records.length = 2 ∧ Mirrors twoTargets t := by
  have hr : (machine twoTargets).run start overlapping = some _ := rfl
  refine ⟨_, hr, by decide, records_mirror twoTargets twoTargets_unique hr (by decide) ?_⟩
  exact quiet_of_run hr (by decide)

/-- The Accept of a merged account, which is sent at once, makes a second record. -/
theorem records_mirror_counterexample : ∃ t, (machine twoTargets).run start
    [.followFedi 0 2 false, .run 0 true, .run 0 true, .handleAccept 0 2, .run 0 true, .run 0 true] =
      some t ∧
    Quiet t ∧ t.records.map Prod.snd = ["did:plc:two", "did:plc:two"] ∧ ¬ Mirrors twoTargets t := by
  have hr : (machine twoTargets).run start
    [.followFedi 0 2 false, .run 0 true, .run 0 true, .handleAccept 0 2, .run 0 true, .run 0 true] =
      some _ := rfl
  refine ⟨_, hr, quiet_of_run hr (by decide), by decide, fun h => ?_⟩
  obtain ⟨rkey, did, -, hdid, hone⟩ := h.one 2 ⟨9, 2, .accepted, some (twoTargets.tid 0), none⟩
    (by decide) rfl (by decide)
  cases hdid
  have h0 := (hone (twoTargets.tid 0, "did:plc:two")).mp (by decide)
  have h1 := (hone (twoTargets.tid 1, "did:plc:two")).mp (by decide)
  exact absurd (h0.trans h1.symm) (by decide)

end Runs

end Seiran.FollowExec
