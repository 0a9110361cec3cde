import Mathlib.Data.List.AList
import Seiran.Framework.Run

/-!
# Counters that a trigger recounts

A table whose rows are changed by transactions of one statement each, and
counters in the rows of another, which a trigger on the first sets to the number
of rows that they count. The isolation is READ COMMITTED: a statement sees the
rows that are committed when it starts and the change of its own transaction.
The `UPDATE` of a counter then waits for the lock of the row the counter is in,
and writes what it counted when it started.

* `Recount`: the table, the counters and the trigger;
* `State`, `step`, `machine`: transactions side by side;
* `Right`: every counter is what it counts;
* `NotOvertaken`: what is counted is the same when a statement gets its lock as
  when it started.
-/

namespace Seiran.Sql

/-- A table with rows `R` of keys `K`, statements `S` about one row each, and counters `C` in rows
`L`. -/
structure Recount (R K S C L : Type) where
  key : R → K
  /-- The row a statement is about -/
  target : S → K
  inserts : S → Bool
  /-- What becomes of the row, where the statement affects it -/
  change : S → Option R → Option (Option R)
  counts : C → R → Bool
  /-- The row a counter is in -/
  owner : C → L
  /-- The counters the trigger recounts, one statement each -/
  trigger : Option R → Option R → List C
  key_change : ∀ {s old r}, (∀ q ∈ old, key q = target s) → change s old = some (some r) →
    key r = target s
  mem_trigger : ∀ {old new r c}, r ∈ old ∨ r ∈ new → counts c r = true → c ∈ trigger old new
  nodup_trigger : ∀ old new, (trigger old new).Nodup

namespace Recount

variable {R K S C L : Type} [DecidableEq K] [DecidableEq C] [DecidableEq L]

structure Transaction (R K C : Type) where
  /-- The row it has changed, and has locked -/
  key : K
  row : Option R
  /-- The statements of the trigger that are left -/
  queue : List C
  /-- The rows that the first of them saw when it started -/
  snapshot : Option (List R) := none
  /-- What it has written, which locks the rows of these counters -/
  written : AList fun _ : C => Nat := ∅

structure State (R K C : Type) where
  rows : List R := []
  count : C → Nat := fun _ => 0
  transactions : AList fun _ : Nat => Transaction R K C := ∅

inductive Action (S : Type) where
  | execute (id : Nat) (stmt : S)
  | snapshot (id : Nat)
  | write (id : Nat)
  | commit (id : Nat)
  | rollback (id : Nat)
deriving DecidableEq

/-- Whether a transaction other than `id` is in the way -/
def State.waits (st : State R K C) (id : Nat) (holds : Transaction R K C → Bool) : Bool :=
  st.transactions.entries.any fun e => e.1 != id && holds e.2

def State.set (st : State R K C) (id : Nat) (tx : Transaction R K C) : State R K C :=
  { st with transactions := st.transactions.insert id tx }

variable (trg : Recount R K S C L)

/-- The rows once the row with a key is `row` -/
def put (k : K) (row : Option R) (rows : List R) : List R :=
  rows.filter (fun r => trg.key r ≠ k) ++ row.toList

/-- The rows a transaction sees -/
def view (tx : Transaction R K C) (rows : List R) : List R := trg.put tx.key tx.row rows

/-- `SELECT COUNT(*)` -/
def count (rows : List R) (c : C) : Nat := rows.countP (trg.counts c)

/-- Whether a transaction holds the lock of the row with the counter -/
def locks (c : C) (tx : Transaction R K C) : Bool :=
  tx.written.keys.any fun c' => trg.owner c' = trg.owner c

def step (st : State R K C) : Action S → Option (State R K C)
  | .execute id stmt =>
    let waits := st.waits id fun tx => tx.key = trg.target stmt
    let old := st.rows.find? fun r => trg.key r = trg.target stmt
    if id ∈ st.transactions then none
    -- an insertion waits for who may have inserted the row
    else if trg.inserts stmt && waits then none
    else
      match trg.change stmt old with
      | none => some st
      | some row =>
        if waits then none
        else some (st.set id { key := trg.target stmt, row, queue := trg.trigger old row })
  | .snapshot id =>
    (st.transactions.lookup id).bind fun tx =>
      match tx.queue, tx.snapshot with
      | _ :: _, none => some (st.set id { tx with snapshot := some st.rows })
      | _, _ => none
  | .write id =>
    (st.transactions.lookup id).bind fun tx =>
      match tx.queue, tx.snapshot with
      | c :: queue, some rows =>
        if st.waits id (trg.locks c) then none
        else some (st.set id { tx with
          queue
          snapshot := none
          written := tx.written.insert c (trg.count (trg.view tx rows) c) })
      | _, _ => none
  | .commit id =>
    (st.transactions.lookup id).bind fun tx =>
      match tx.queue with
      | [] => some {
          rows := trg.view tx st.rows
          count := fun c => (tx.written.lookup c).getD (st.count c)
          transactions := st.transactions.erase id }
      | _ :: _ => none
  | .rollback id =>
    (st.transactions.lookup id).map fun _ =>
      { st with transactions := st.transactions.erase id }

def machine : Machine (State R K C) (Action S) := ⟨trg.step⟩

/-- Every counter is the number of rows it counts. -/
def Right (st : State R K C) : Prop := ∀ c, st.count c = trg.count st.rows c

/-- When a statement of the trigger gets its lock, as many rows are committed that its counter
counts as when it started. -/
def NotOvertaken (st : State R K C) : Action S → Prop
  | .write id => ∀ tx ∈ st.transactions.lookup id, ∀ rows ∈ tx.snapshot, ∀ c ∈ tx.queue.head?,
      trg.count rows c = trg.count st.rows c
  | _ => True

end Recount

end Seiran.Sql
