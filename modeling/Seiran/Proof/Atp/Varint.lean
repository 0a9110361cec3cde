import Seiran.Framework.Digits
import Seiran.Model.Atp.Car

/-!
# Lengths of a CAR file, byte for byte

`read_uvarint` shifts each group of seven bits into a `u64`. The tenth group is
shifted by 63, and what goes beyond the `u64` is lost.

* `readUvarint_of_leb128`, `leb128_of_readUvarint`: what is read is the number
  modulo `2 ^ 64`;
* `leb128_encodeUvarint`, `readUvarint_encodeUvarint`: a length is read back;
* `readUvarint_exact_iff`: it is the number itself unless a tenth group ends it
  that has more than one bit.
-/

namespace Seiran.Atp

/-! ## The loop -/

/-- Or-ing a group in adds it, modulo the size of the `u64`. -/
theorem or_shiftLeft {acc m s : Nat} (hacc : acc < 2 ^ s) (hs : s ≤ 64) :
    acc ||| (m <<< s) % 2 ^ 64 = (acc + m * 2 ^ s) % 2 ^ 64 := by
  have hpow : 2 ^ (64 - s) * 2 ^ s = 2 ^ 64 := by rw [← Nat.pow_add, Nat.sub_add_cancel hs]
  have hmod : m % 2 ^ (64 - s) + 1 ≤ 2 ^ (64 - s) := Nat.mod_lt _ (Nat.two_pow_pos _)
  have hfit : (m % 2 ^ (64 - s) + 1) * 2 ^ s ≤ 2 ^ 64 := hpow ▸ Nat.mul_le_mul_right _ hmod
  have hshift : m * 2 ^ s % 2 ^ 64 = m % 2 ^ (64 - s) * 2 ^ s := by
    rw [← hpow, Nat.mul_mod_mul_right]
  rw [Nat.add_mul, Nat.one_mul] at hfit
  have hlt : acc + m % 2 ^ (64 - s) * 2 ^ s < 2 ^ 64 := by omega
  calc acc ||| (m <<< s) % 2 ^ 64 = acc ||| m % 2 ^ (64 - s) * 2 ^ s := by
        rw [Nat.shiftLeft_eq, hshift]
    _ = acc + m % 2 ^ (64 - s) * 2 ^ s := by
        rw [Nat.or_comm, ← Nat.shiftLeft_eq, ← Nat.shiftLeft_add_eq_or_of_lt hacc, Nat.add_comm]
    _ = (acc + m * 2 ^ s % 2 ^ 64) % 2 ^ 64 := by rw [hshift, Nat.mod_eq_of_lt hlt]
    _ = (acc + m * 2 ^ s) % 2 ^ 64 := Nat.add_mod_mod ..

/-- Before the tenth round a group is added as it is. -/
theorem or_shiftLeft_round {acc k m : Nat} (hacc : acc < 2 ^ (7 * k)) (hk : k < 9) (hm : m < 128) :
    acc ||| (m <<< (7 * k)) % 2 ^ 64 = acc + m * 2 ^ (7 * k) ∧
      acc + m * 2 ^ (7 * k) < 2 ^ (7 * (k + 1)) := by
  have hnext : 2 ^ (7 * (k + 1)) = 128 * 2 ^ (7 * k) := by
    rw [show 7 * (k + 1) = 7 * k + 7 by omega, Nat.pow_add]
    omega
  have hle : (m + 1) * 2 ^ (7 * k) ≤ 128 * 2 ^ (7 * k) := Nat.mul_le_mul_right _ hm
  rw [Nat.add_mul, Nat.one_mul] at hle
  have hlt : acc + m * 2 ^ (7 * k) < 2 ^ (7 * (k + 1)) := by omega
  have h64 : 2 ^ (7 * (k + 1)) ≤ 2 ^ 64 := Nat.pow_le_pow_right (by decide) (by omega)
  refine ⟨?_, hlt⟩
  rw [or_shiftLeft hacc (by omega), Nat.mod_eq_of_lt (Nat.lt_of_lt_of_le hlt h64)]

/-- What a round adds, and what the rounds after it add to that. -/
theorem add_groups (acc m n k : Nat) :
    acc + m * 2 ^ (7 * k) + n * 2 ^ (7 * (k + 1)) = acc + (m + 128 * n) * 2 ^ (7 * k) := by
  rw [show 7 * (k + 1) = 7 + 7 * k by omega, Nat.pow_add, ← Nat.mul_assoc, Nat.add_assoc,
    ← Nat.add_mul, show (2 : Nat) ^ 7 = 128 by decide, Nat.mul_comm n]

theorem readUvarintLoop_of_leb128 {used : Bytes} {n acc k : Nat} (h : Leb128 used n)
    (hacc : acc < 2 ^ (7 * k)) (hk : k + used.length ≤ 10) (rest : Bytes) :
    readUvarintLoop acc (7 * k) (used ++ rest) = .ok ((acc + n * 2 ^ (7 * k)) % 2 ^ 64, rest) := by
  induction h generalizing acc k with
  | @last b hb =>
    rw [List.length_singleton] at hk
    rw [List.singleton_append, readUvarintLoop, if_pos hb, Nat.mod_eq_of_lt hb,
      or_shiftLeft hacc (by omega)]
  | @more b bytes n hb h ih =>
    have hpos : 0 < bytes.length := by cases h <;> simp
    rw [List.length_cons] at hk
    obtain ⟨hor, hlt⟩ := or_shiftLeft_round hacc (by omega) (Nat.mod_lt b.toNat (by decide))
    rw [List.cons_append, readUvarintLoop, if_neg (by omega), if_neg (by omega), hor,
      show 7 * k + 7 = 7 * (k + 1) by omega, ih hlt (by omega), add_groups]

theorem leb128_of_readUvarintLoop {data rest : Bytes} {acc k v : Nat} (hacc : acc < 2 ^ (7 * k))
    (hk : k < 10) (h : readUvarintLoop acc (7 * k) data = .ok (v, rest)) :
    ∃ used n, data = used ++ rest ∧ Leb128 used n ∧ k + used.length ≤ 10 ∧
      v = (acc + n * 2 ^ (7 * k)) % 2 ^ 64 := by
  induction data generalizing acc k with
  | nil => cases h
  | cons b data ih =>
    rw [readUvarintLoop] at h
    by_cases hb : b.toNat < 128
    · rw [if_pos hb, Nat.mod_eq_of_lt hb, or_shiftLeft hacc (by omega)] at h
      obtain ⟨rfl, rfl⟩ := Prod.mk.inj (Except.ok.inj h)
      exact ⟨[b], b.toNat, rfl, .last hb, by simp; omega, rfl⟩
    · rw [if_neg hb] at h
      by_cases hlast : 64 ≤ 7 * k + 7
      · rw [if_pos hlast] at h
        cases h
      · obtain ⟨hor, hlt⟩ := or_shiftLeft_round hacc (by omega) (Nat.mod_lt b.toNat (by decide))
        rw [if_neg hlast, hor, show 7 * k + 7 = 7 * (k + 1) by omega] at h
        obtain ⟨used, n, rfl, hn, hlen, rfl⟩ := ih hlt (by omega) h
        refine ⟨b :: used, b.toNat % 128 + 128 * n, rfl, .more (by omega) hn, ?_, ?_⟩
        · rw [List.length_cons]
          omega
        · rw [add_groups]

/-! ## The number that is read -/

theorem readUvarint_of_leb128 {used : Bytes} {n : Nat} (h : Leb128 used n)
    (hlen : used.length ≤ 10) (rest : Bytes) :
    readUvarint (used ++ rest) = .ok (n % 2 ^ 64, rest) := by
  have hread := @readUvarintLoop_of_leb128 used n 0 0 h (by decide) (by omega) rest
  rw [readUvarint, hread, Nat.mul_zero, Nat.pow_zero, Nat.mul_one, Nat.zero_add]

theorem leb128_of_readUvarint {data rest : Bytes} {v : Nat} (h : readUvarint data = .ok (v, rest)) :
    ∃ used n, data = used ++ rest ∧ Leb128 used n ∧ used.length ≤ 10 ∧ v = n % 2 ^ 64 := by
  obtain ⟨used, n, hdata, hn, hlen, hv⟩ :=
    @leb128_of_readUvarintLoop data rest 0 0 v (by decide) (by decide) h
  refine ⟨used, n, hdata, hn, by omega, ?_⟩
  rw [hv, Nat.mul_zero, Nat.pow_zero, Nat.mul_one, Nat.zero_add]

/-! ## Lengths that are written -/

theorem leb128_of_div_eq_zero {n : Nat} (hdiv : n / 128 = 0) :
    Leb128 [UInt8.ofNat (n % 128)] n := by
  have hbyte : (UInt8.ofNat n).toNat = n := by
    rw [UInt8.toNat_ofNat']
    omega
  have h := @Leb128.last (UInt8.ofNat n) (by omega)
  rw [hbyte] at h
  rw [Nat.mod_eq_of_lt (by omega)]
  exact h

theorem leb128_encodeUvarintLoop {rounds n : Nat} (hn : n < 128 ^ (rounds + 1)) :
    Leb128 (encodeUvarintLoop (rounds + 1) n) n ∧
      (encodeUvarintLoop (rounds + 1) n).length ≤ rounds + 1 := by
  induction rounds generalizing n with
  | zero =>
    have hdiv : n / 128 = 0 := by omega
    rw [encodeUvarintLoop, if_pos hdiv]
    exact ⟨leb128_of_div_eq_zero hdiv, Nat.le_refl 1⟩
  | succ rounds ih =>
    rw [encodeUvarintLoop]
    by_cases hdiv : n / 128 = 0
    · rw [if_pos hdiv]
      exact ⟨leb128_of_div_eq_zero hdiv, by simp⟩
    · have hbyte : (UInt8.ofNat (n % 128 + 128)).toNat = n % 128 + 128 := by
        rw [UInt8.toNat_ofNat']
        omega
      obtain ⟨h, hlen⟩ := ih (n := n / 128) (by rw [Nat.pow_succ] at hn; omega)
      have hmore := @Leb128.more (UInt8.ofNat (n % 128 + 128)) _ _ (by omega) h
      rw [hbyte, show (n % 128 + 128) % 128 + 128 * (n / 128) = n by omega] at hmore
      rw [if_neg hdiv]
      exact ⟨hmore, Nat.succ_le_succ hlen⟩

theorem leb128_encodeUvarint {n : Nat} (hn : n < 2 ^ 64) :
    Leb128 (encodeUvarint n) n ∧ (encodeUvarint n).length ≤ 10 :=
  @leb128_encodeUvarintLoop 9 n (Nat.lt_of_lt_of_le hn (by decide))

theorem readUvarint_encodeUvarint {n : Nat} (hn : n < 2 ^ 64) (rest : Bytes) :
    readUvarint (encodeUvarint n ++ rest) = .ok (n, rest) := by
  obtain ⟨h, hlen⟩ := leb128_encodeUvarint hn
  rw [readUvarint_of_leb128 h hlen, Nat.mod_eq_of_lt hn]

/-! ## Any input -/

/-- What reading promises of its input. -/
structure ReadsExactly (data : Bytes) : Prop where
  denotes : ∀ v rest, readUvarint data = .ok (v, rest) →
    ∃ used, data = used ++ rest ∧ Leb128 used v ∧ v < 2 ^ 64
  inverts : ∀ v < 2 ^ 64, ∀ rest, data = encodeUvarint v ++ rest →
    readUvarint data = .ok (v, rest)
  refuses : ∀ used n rest, data = used ++ rest → Leb128 used n → 2 ^ 64 ≤ n →
    ∃ e, readUvarint data = .error e

/-- Where nine groups go before it, a tenth that is the last one is one bit. -/
def TenthFits (data : Bytes) : Prop :=
  (∀ b ∈ data.take 9, 128 ≤ b.toNat) → ∀ b, data[9]? = some b → b.toNat < 128 → b.toNat < 2

/-- Up to ten groups fit if the tenth one does. -/
theorem lt_of_tenthFits {used rest : Bytes} {n : Nat} (h : Leb128 used n) (hlen : used.length ≤ 10)
    (hfits : TenthFits (used ++ rest)) : n < 2 ^ 64 := by
  obtain ⟨init, last, low, rfl, hinit, hlast, hlow, rfl⟩ := h.exists_concat
  rw [List.length_append, List.length_singleton] at hlen
  by_cases hnine : init.length = 9
  · have htake : (init ++ [last] ++ rest).take 9 = init := by
      rw [List.append_assoc, List.take_left' hnine]
    have hget : (init ++ [last] ++ rest)[9]? = some last := by
      rw [List.append_assoc, List.getElem?_append_right (by omega), hnine]
      rfl
    have hbit := hfits (by rw [htake]; exact hinit) last hget hlast
    rw [hnine] at hlow ⊢
    omega
  · have hpow : 128 ^ init.length ≤ 128 ^ 8 := Nat.pow_le_pow_right (by decide) (by omega)
    have hmul : 128 ^ init.length * last.toNat ≤ 128 ^ 8 * 127 := Nat.mul_le_mul hpow (by omega)
    omega

/-- Nine groups, and a tenth that is the last one -/
theorem exists_tenth {data : Bytes} {last : UInt8} (hinit : ∀ b ∈ data.take 9, 128 ≤ b.toNat)
    (hget : data[9]? = some last) (hlast : last.toNat < 128) :
    ∃ used low, data = used ++ data.drop 10 ∧ used.length = 10 ∧
      Leb128 used (low + 128 ^ 9 * last.toNat) := by
  obtain ⟨hlt, hval⟩ := List.getElem?_eq_some_iff.mp hget
  have hlen : (data.take 9).length = 9 := by rw [List.length_take]; omega
  obtain ⟨low, h⟩ := exists_leb128_concat hinit hlast
  rw [hlen] at h
  refine ⟨data.take 9 ++ [last], low, ?_, by simp [hlen], h⟩
  rw [← hval, List.take_append_getElem hlt, List.take_append_drop]

theorem readUvarint_exact_iff (data : Bytes) : ReadsExactly data ↔ TenthFits data := by
  constructor
  · intro h hinit b hget hb
    obtain ⟨used, low, hdata, hlen, hused⟩ := exists_tenth hinit hget hb
    have hread := readUvarint_of_leb128 hused (Nat.le_of_eq hlen) (data.drop 10)
    rw [← hdata] at hread
    by_contra hbig
    have h128 : 128 ^ 9 * 2 ≤ 128 ^ 9 * b.toNat := Nat.mul_le_mul_left _ (by omega)
    obtain ⟨e, he⟩ := h.refuses used _ _ hdata hused (by omega)
    rw [hread] at he
    cases he
  · intro hfits
    refine ⟨?_, ?_, ?_⟩
    · intro v rest hread
      obtain ⟨used, n, rfl, hn, hlen, rfl⟩ := leb128_of_readUvarint hread
      have hlt := lt_of_tenthFits hn hlen hfits
      rw [Nat.mod_eq_of_lt hlt]
      exact ⟨used, rfl, hn, hlt⟩
    · intro v hv rest hdata
      rw [hdata, readUvarint_encodeUvarint hv]
    · intro used n rest hdata hn hbig
      match hread : readUvarint data with
      | .error e => exact ⟨e, rfl⟩
      | .ok (v, rest') =>
        obtain ⟨used', n', hdata', hn', hlen, -⟩ := leb128_of_readUvarint hread
        obtain ⟨rfl, rfl, -⟩ := hn.unique hn' (hdata ▸ hdata')
        rw [hdata] at hfits
        exact absurd (lt_of_tenthFits hn hlen hfits) (Nat.not_lt.mpr hbig)

/-- Nine groups of ones and `0x7F`: of the last seven bits one is left. -/
theorem readUvarint_exact_counterexample :
    readUvarint (List.replicate 9 255 ++ [127]) = .ok (2 ^ 64 - 1, []) ∧
      ¬ ReadsExactly (List.replicate 9 255 ++ [127]) := by
  have hread : readUvarint (List.replicate 9 255 ++ [127]) = .ok (2 ^ 64 - 1, []) := by
    decide
  have hgroups : ∀ b ∈ (List.replicate 9 255 ++ [127] : Bytes).take 9, 128 ≤ b.toNat := by
    intro b hb
    rw [List.eq_of_mem_replicate (show b ∈ List.replicate 9 255 from hb)]
    decide
  refine ⟨hread, fun h => ?_⟩
  obtain ⟨used, low, hdata, -, hused⟩ := exists_tenth hgroups rfl (by decide)
  obtain ⟨e, he⟩ := h.refuses used _ _ hdata hused
    (Nat.le_trans (by decide) (Nat.le_add_left (128 ^ 9 * 127) low))
  rw [hread] at he
  cases he

end Seiran.Atp
