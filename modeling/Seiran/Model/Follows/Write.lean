import Mathlib.Data.List.AList
import Seiran.Framework.Int64
import Seiran.Framework.Sql.Recount

/-!
# Writing follows

The statements of `repository/follow.rs` on the table `follows`, each of which is
executed on the pool and so a transaction of its own, and the trigger
`trg_follows_sync_counts`, which sets `following_count` and `followers_count` of
the actors (`20260831000000_follows_count_trigger.sql`).
-/

namespace Seiran.Follows

open Sql

inductive Status where
  | pending
  | accepted
deriving DecidableEq

/-- The unique key of `follows` is the pair of actors. -/
structure Follow where
  followerActorId : Int64
  targetActorId : Int64
  status : Status
  atpRkey : Option String := none
  pendingFollowActivity : Option String := none
deriving DecidableEq

inductive Statement where
  | upsertPending (followerActorId targetActorId : Int64)
  | upsertPendingWithActivity (followerActorId targetActorId : Int64) (activity : String)
  | insertAccepted (followerActorId targetActorId : Int64)
  | insertAcceptedWithRkey (followerActorId targetActorId : Int64) (atpRkey : Option String)
  | insertAcceptedBsky (followerActorId targetActorId : Int64) (atpRkey : String)
  | accept (followerActorId targetActorId : Int64)
  | acceptAndSetRkey (followerActorId targetActorId : Int64) (atpRkey : Option String)
  | setAtpRkey (followerActorId targetActorId : Int64) (atpRkey : String)
  | deleteByActors (followerActorId targetActorId : Int64)
deriving DecidableEq

namespace Statement

def key : Statement → Int64 × Int64
  | upsertPending follower target => (follower, target)
  | upsertPendingWithActivity follower target _ => (follower, target)
  | insertAccepted follower target => (follower, target)
  | insertAcceptedWithRkey follower target _ => (follower, target)
  | insertAcceptedBsky follower target _ => (follower, target)
  | accept follower target => (follower, target)
  | acceptAndSetRkey follower target _ => (follower, target)
  | setAtpRkey follower target _ => (follower, target)
  | deleteByActors follower target => (follower, target)

def isInsert : Statement → Bool
  | upsertPending .. => true
  | upsertPendingWithActivity .. => true
  | insertAccepted .. => true
  | insertAcceptedWithRkey .. => true
  | insertAcceptedBsky .. => true
  | accept .. => false
  | acceptAndSetRkey .. => false
  | setAtpRkey .. => false
  | deleteByActors .. => false

/-- `INSERT … ON CONFLICT (follower_actor_id, target_actor_id) DO NOTHING` -/
def insertOrSkip (row : Follow) : Option Follow → Option (Option Follow)
  | none => some (some row)
  | some _ => none

/-- `INSERT … ON CONFLICT (follower_actor_id, target_actor_id) DO UPDATE SET …` -/
def insertOrUpdate (row : Follow) (f : Follow → Follow) : Option Follow → Option (Option Follow)
  | none => some (some row)
  | some old => some (some (f old))

/-- `UPDATE follows SET … WHERE … AND …` -/
def update (p : Follow → Bool) (f : Follow → Follow) : Option Follow → Option (Option Follow)
  | none => none
  | some old => if p old then some (some (f old)) else none

/-- What becomes of the row of the pair, where the statement affects it -/
def change : Statement → Option Follow → Option (Option Follow)
  | upsertPending followerActorId targetActorId =>
    -- `status = follows.status`
    insertOrUpdate { followerActorId, targetActorId, status := .pending } fun old => old
  | upsertPendingWithActivity followerActorId targetActorId activity =>
    insertOrUpdate
      { followerActorId, targetActorId, status := .pending, pendingFollowActivity := some activity }
      fun old => { old with status := .pending, pendingFollowActivity := some activity }
  | insertAccepted followerActorId targetActorId =>
    insertOrSkip { followerActorId, targetActorId, status := .accepted }
  | insertAcceptedWithRkey followerActorId targetActorId atpRkey =>
    insertOrSkip { followerActorId, targetActorId, status := .accepted, atpRkey }
  | insertAcceptedBsky followerActorId targetActorId atpRkey =>
    insertOrSkip { followerActorId, targetActorId, status := .accepted, atpRkey := some atpRkey }
  | accept _ _ => update (fun old => old.status = .pending) fun old => { old with status := .accepted }
  | acceptAndSetRkey _ _ atpRkey =>
    update (fun old => old.status = .pending) fun old =>
      { old with status := .accepted, atpRkey := atpRkey <|> old.atpRkey }
  | setAtpRkey _ _ atpRkey => update (fun _ => true) fun old => { old with atpRkey := some atpRkey }
  | deleteByActors _ _ => fun old => old.map fun _ => none

end Statement

/-- A counter of an actor -/
inductive Counter where
  | following (actorId : Int64)
  | followers (actorId : Int64)
deriving DecidableEq

namespace Counter

def actorId : Counter → Int64
  | following a => a
  | followers a => a

/-- The condition of its `SELECT COUNT(*)` -/
def counts : Counter → Follow → Bool
  | following a, f => f.followerActorId = a && f.status = .accepted
  | followers a, f => f.targetActorId = a && f.status = .accepted

end Counter

/-- `follows_sync_counts`: the counters that it updates, in order -/
def followsSyncCounts (old new : Option Follow) : List Counter :=
  match new with
  | none =>
    match old with
    | none => []
    | some old => [.following old.followerActorId, .followers old.targetActorId]
  | some new =>
    [.following new.followerActorId, .followers new.targetActorId] ++
      match old with
      | none => []
      | some old =>
        (if old.followerActorId ≠ new.followerActorId then [.following old.followerActorId] else []) ++
          if old.targetActorId ≠ new.targetActorId then [.followers old.targetActorId] else []

/-- The unique key of a row -/
def Follow.key (f : Follow) : Int64 × Int64 := (f.followerActorId, f.targetActorId)

section Laws

variable {old new : Option Follow} {row r : Follow} {f : Follow → Follow}

theorem key_insertOrSkip (h : Statement.insertOrSkip row old = some (some r)) : r.key = row.key := by
  cases old with
  | none => rw [Option.some.inj (Option.some.inj h)]
  | some q => cases h

theorem key_insertOrUpdate (h : Statement.insertOrUpdate row f old = some (some r))
    (hf : ∀ q, (f q).key = q.key) (hkey : ∀ q ∈ old, q.key = row.key) : r.key = row.key := by
  cases old with
  | none => rw [Option.some.inj (Option.some.inj h)]
  | some q =>
    rw [← Option.some.inj (Option.some.inj h), hf]
    exact hkey q rfl

theorem key_update {p : Follow → Bool} {k : Int64 × Int64}
    (h : Statement.update p f old = some (some r)) (hf : ∀ q, (f q).key = q.key)
    (hkey : ∀ q ∈ old, q.key = k) : r.key = k := by
  cases old with
  | none => cases h
  | some q =>
    obtain ⟨-, h⟩ := Option.ite_none_right_eq_some.mp h
    rw [← Option.some.inj (Option.some.inj h), hf]
    exact hkey q rfl

/-- A statement keeps the pair of actors. -/
theorem key_change {stmt : Statement} (hkey : ∀ q ∈ old, q.key = stmt.key)
    (h : stmt.change old = some (some r)) : r.key = stmt.key := by
  cases stmt with
  | upsertPending follower target => exact key_insertOrUpdate h (fun _ => rfl) hkey
  | upsertPendingWithActivity follower target activity =>
    exact key_insertOrUpdate h (fun _ => rfl) hkey
  | insertAccepted follower target => exact key_insertOrSkip h
  | insertAcceptedWithRkey follower target rkey => exact key_insertOrSkip h
  | insertAcceptedBsky follower target rkey => exact key_insertOrSkip h
  | accept follower target => exact key_update h (fun _ => rfl) hkey
  | acceptAndSetRkey follower target rkey => exact key_update h (fun _ => rfl) hkey
  | setAtpRkey follower target rkey => exact key_update h (fun _ => rfl) hkey
  | deleteByActors follower target =>
    obtain ⟨q, -, hq⟩ := Option.map_eq_some_iff.mp h
    cases hq

/-- The trigger recounts every counter that the row concerns, before and after. -/
theorem mem_followsSyncCounts {c : Counter} (hr : r ∈ old ∨ r ∈ new) (hcounts : c.counts r = true) :
    c ∈ followsSyncCounts old new := by
  have hc : c = .following r.followerActorId ∨ c = .followers r.targetActorId := by
    cases c with
    | following a =>
      rw [Counter.counts, Bool.and_eq_true, decide_eq_true_iff] at hcounts
      exact .inl (congrArg _ hcounts.1.symm)
    | followers a =>
      rw [Counter.counts, Bool.and_eq_true, decide_eq_true_iff] at hcounts
      exact .inr (congrArg _ hcounts.1.symm)
  unfold followsSyncCounts
  cases new with
  | none =>
    obtain hr | hr := hr
    · cases hr
      simpa using hc
    · cases hr
  | some new =>
    obtain hr | hr := hr
    · cases hr
      obtain rfl | rfl := hc
      · by_cases hfollower : r.followerActorId = new.followerActorId
        · simp [hfollower]
        · simp [hfollower]
      · by_cases htarget : r.targetActorId = new.targetActorId
        · simp [htarget]
        · simp [htarget]
    · cases hr
      simp only [List.mem_append, List.mem_cons, List.not_mem_nil, or_false]
      exact .inl hc

theorem nodup_followsSyncCounts (old new : Option Follow) : (followsSyncCounts old new).Nodup := by
  unfold followsSyncCounts
  cases new with
  | none => cases old <;> simp
  | some new =>
    cases old with
    | none => simp
    | some old =>
      by_cases hfollower : old.followerActorId = new.followerActorId
      · by_cases htarget : old.targetActorId = new.targetActorId
        · simp [hfollower, htarget]
        · simp [hfollower, htarget, Ne.symm htarget]
      · by_cases htarget : old.targetActorId = new.targetActorId
        · simp [hfollower, htarget, Ne.symm hfollower]
        · simp [hfollower, htarget, Ne.symm hfollower, Ne.symm htarget]

end Laws

/-- The table, the counters of the actors and the trigger -/
def follows : Recount Follow (Int64 × Int64) Statement Counter Int64 where
  key := Follow.key
  target := Statement.key
  inserts := Statement.isInsert
  change := Statement.change
  counts := Counter.counts
  owner := Counter.actorId
  trigger := followsSyncCounts
  key_change := key_change
  mem_trigger := mem_followsSyncCounts
  nodup_trigger := nodup_followsSyncCounts

/-- The committed rows and counters, and the open transactions -/
abbrev Database := Recount.State Follow (Int64 × Int64) Counter

/-- Transactions on `follows` side by side -/
def machine : Machine Database (Recount.Action Statement) := follows.machine

/-! ## The table of follows -/

/-- `follows` by its unique key, the follower and the target -/
abbrev FollowTable := AList fun _ : Int64 × Int64 => Follow

/-- A statement on `follows` -/
def FollowTable.write (follows : FollowTable) (stmt : Statement) : FollowTable :=
  match stmt.change (follows.lookup stmt.key) with
  | some (some row) => follows.insert stmt.key row
  | some none => follows.erase stmt.key
  | none => follows

theorem lookup_write (follows : FollowTable) (stmt : Statement) (k : Int64 × Int64) :
    (follows.write stmt).lookup k = if k = stmt.key then
      (stmt.change (follows.lookup stmt.key)).getD (follows.lookup stmt.key) else follows.lookup k := by
  rw [FollowTable.write]
  by_cases hk : k = stmt.key
  · subst hk
    rw [if_pos rfl]
    split
    · rename_i h
      rw [h, AList.lookup_insert]
      rfl
    · rename_i h
      rw [h, AList.lookup_erase]
      rfl
    · rename_i h
      rw [h]
      rfl
  · rw [if_neg hk]
    split
    · exact AList.lookup_insert_ne hk
    · exact AList.lookup_erase_ne hk
    · rfl

end Seiran.Follows
