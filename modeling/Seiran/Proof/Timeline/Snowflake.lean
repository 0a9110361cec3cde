import Seiran.Model.Timeline.Feed

/-!
# The order of ids, and that they are distinct

* `toInt_generate`, `toInt_floor`: an id is a time of 48 bits with a sign, and a counter.
* `toInt_generateIds`: the counter goes up by one with each call.
* `snowflake_order`: ids are in the order of the times, which are not beyond the present,
  and the floors are those of times from 1970 on.
-/

namespace Seiran.Timeline

theorem toInt_generate (now createdAt : Int) (sequence : Nat) :
    (generateSnowflakeId now createdAt sequence).toInt =
      idTime (min createdAt now) * 2 ^ 16 + sequence % 2 ^ 16 := by
  have htime : (if createdAt > now then now else createdAt) = min createdAt now := by
    split <;> omega
  have hsize : Int64.size = 2 ^ 64 := rfl
  rw [generateSnowflakeId, htime, Int64.toInt_ofInt, hsize, idTime, Int.bmod_def, Int.bmod_def]
  split <;> split <;> omega

theorem toInt_floor (bound : Int) :
    (snowflakeIdFloor bound).toInt = idTime (max bound 0) * 2 ^ 16 := by
  have hsize : Int64.size = 2 ^ 64 := rfl
  rw [snowflakeIdFloor, Int64.toInt_ofInt, hsize, idTime, Int.bmod_def, Int.bmod_def]
  split <;> split <;> omega

theorem idTime_of_range {ms : Int} (hlow : -2 ^ 47 ≤ ms) (hhigh : ms < 2 ^ 47) :
    idTime ms = ms := Int.bmod_eq_of_le hlow hhigh

theorem floor_le_generate_iff (now createdAt bound : Int) (sequence : Nat) :
    snowflakeIdFloor bound ≤ generateSnowflakeId now createdAt sequence ↔
      idTime (max bound 0) ≤ idTime (min createdAt now) := by
  rw [I64.le_iff, toInt_floor, toInt_generate]
  omega

/-- The counter of a call is that of the first one and the calls since. -/
theorem generateIds_counter {sequence : UInt32} {calls : List Call} {i : Nat} {id : Int64}
    (h : (generateIds sequence calls)[i]? = some id) :
    id.toInt % 2 ^ 16 = (sequence.toNat + i : Nat) % 2 ^ 16 := by
  induction calls generalizing sequence i with
  | nil => cases h
  | cons call calls ih =>
    rw [generateIds] at h
    cases i with
    | zero =>
      obtain rfl := Option.some.inj h
      rw [toInt_generate]
      omega
    | succ i =>
      have hnext := ih h
      rw [UInt32.toNat_add, UInt32.toNat_one] at hnext
      omega

/-- For the times that there are ids of, an id has the time of its post, or the present
one for a post from the future, and compares with a floor as that compares with the bound,
or with 1970 for a bound before then. Ids less than 65536 calls apart are distinct. -/
theorem snowflake_order :
    (∀ now createdAt bound sequence,
      (snowflakeIdFloor bound ≤ generateSnowflakeId now createdAt sequence ↔
        idTime (max bound 0) ≤ idTime (min createdAt now)) ∧
      (-2 ^ 47 ≤ min createdAt now → min createdAt now < 2 ^ 47 → bound < 2 ^ 47 →
        (snowflakeIdFloor bound ≤ generateSnowflakeId now createdAt sequence ↔
          max bound 0 ≤ min createdAt now))) ∧
    ∀ sequence calls i j id id', (generateIds sequence calls)[i]? = some id →
      (generateIds sequence calls)[j]? = some id' → i < j → j - i < 65536 → id ≠ id' := by
  refine ⟨fun now createdAt bound sequence =>
    ⟨floor_le_generate_iff now createdAt bound sequence, fun hlow hhigh hbound => ?_⟩,
    fun sequence calls i j id id' hi hj hij happart heq => ?_⟩
  · rw [floor_le_generate_iff, idTime_of_range (by omega) (by omega), idTime_of_range hlow hhigh]
  · have hcounter := generateIds_counter hi
    have hcounter' := generateIds_counter hj
    rw [heq] at hcounter
    omega

/-- A bound before 1970, a post from the future, times beyond those of ids, and ids that
are 65536 calls apart. -/
theorem snowflake_order_counterexample :
    ¬ (snowflakeIdFloor (-1) ≤ generateSnowflakeId 0 (-1) 0 ↔ (-1 : Int) ≤ -1) ∧
    ¬ (snowflakeIdFloor 1 ≤ generateSnowflakeId 0 1 0 ↔ (1 : Int) ≤ 1) ∧
    ¬ (snowflakeIdFloor (2 ^ 47) ≤ generateSnowflakeId 0 0 0 ↔ (2 ^ 47 : Int) ≤ 0) ∧
    ¬ (snowflakeIdFloor 0 ≤ generateSnowflakeId 0 (-2 ^ 47 - 1) 0 ↔ (0 : Int) ≤ -2 ^ 47 - 1) ∧
    generateSnowflakeId 0 0 0 = generateSnowflakeId 0 0 65536 := by
  refine ⟨by decide, by decide, by decide, by decide, by decide⟩

end Seiran.Timeline
