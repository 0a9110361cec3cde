import Mathlib.Algebra.Group.Nat.Defs
import Mathlib.Data.List.Basic
import Mathlib.Data.List.Induction

/-!
# Numbers in a fixed number of digits

`toDigits base len n` is `n` in `len` digits, the first one the highest.
`ofDigits_toDigits` and `toDigits_ofDigits` are the two ways back; the digits are
in the order of the numbers (`toDigits_lt_iff`).

`encodeBits k alphabet` writes bytes as text with `k` bits a letter, as base 32
and base 64 do (RFC 4648, no padding); `decodeBits_encodeBits` is its way back.

`Leb128` are numbers in as many groups of seven bits as there are, the lowest first; every
byte but the last has its high bit set. Any number of groups may be zero, so a number has
many forms.

* `Leb128.unique`: a byte string begins with one number at most;
* `Leb128.exists_concat`, `exists_leb128_concat`: what the last group adds to the groups
  before it.
-/

namespace Seiran

def toDigits (base : Nat) : Nat → Nat → List Nat
  | 0, _ => []
  | len + 1, n => toDigits base len (n / base) ++ [n % base]

def ofDigits (base : Nat) (digits : List Nat) : Nat :=
  digits.foldl (fun n d => n * base + d) 0

variable {base : Nat}

theorem ofDigits_append_singleton (digits : List Nat) (d : Nat) :
    ofDigits base (digits ++ [d]) = ofDigits base digits * base + d := by
  simp [ofDigits]

theorem length_toDigits (len n : Nat) : (toDigits base len n).length = len := by
  induction len generalizing n with
  | zero => rfl
  | succ len ih => simp [toDigits, ih]

theorem toDigits_lt (h : 0 < base) (len n : Nat) : ∀ d ∈ toDigits base len n, d < base := by
  induction len generalizing n with
  | zero => simp [toDigits]
  | succ len ih =>
    intro d hd
    rcases List.mem_append.mp hd with hd | hd
    · exact ih _ d hd
    · rw [List.mem_singleton.mp hd]
      exact Nat.mod_lt _ h

theorem ofDigits_toDigits {len n : Nat} (hn : n < base ^ len) :
    ofDigits base (toDigits base len n) = n := by
  induction len generalizing n with
  | zero =>
    have h0 : n = 0 := by simpa using hn
    simp [toDigits, ofDigits, h0]
  | succ len ih =>
    have hdiv : n / base < base ^ len := by
      rw [Nat.pow_succ, Nat.mul_comm] at hn
      exact Nat.div_lt_of_lt_mul hn
    rw [toDigits, ofDigits_append_singleton, ih hdiv, Nat.mul_comm]
    exact Nat.div_add_mod n base

theorem ofDigits_lt {digits : List Nat} (h : ∀ d ∈ digits, d < base) :
    ofDigits base digits < base ^ digits.length := by
  induction digits using List.reverseRecOn with
  | nil => exact Nat.one_pos
  | append_singleton digits d ih =>
    have hd : d < base := h d (by simp)
    have hlt := ih fun x hx => h x (by simp [hx])
    rw [ofDigits_append_singleton, List.length_append, List.length_singleton, Nat.pow_succ]
    calc ofDigits base digits * base + d < ofDigits base digits * base + base := by omega
      _ = (ofDigits base digits + 1) * base := by rw [Nat.add_mul, Nat.one_mul]
      _ ≤ base ^ digits.length * base := Nat.mul_le_mul_right base hlt

theorem toDigits_ofDigits {digits : List Nat} (h : ∀ d ∈ digits, d < base) :
    toDigits base digits.length (ofDigits base digits) = digits := by
  induction digits using List.reverseRecOn with
  | nil => rfl
  | append_singleton digits d ih =>
    have hd : d < base := h d (by simp)
    have hpos : 0 < base := by omega
    rw [ofDigits_append_singleton, List.length_append, List.length_singleton, toDigits,
      Nat.mul_comm, Nat.mul_add_div hpos, Nat.div_eq_of_lt hd, Nat.add_zero, Nat.mul_add_mod,
      Nat.mod_eq_of_lt hd, ih fun x hx => h x (by simp [hx])]

/-! ## The order of numbers -/

theorem append_singleton_lt {α : Type} [LT α] {l l' : List α}
    (hlen : l.length = l'.length) (a b : α) : l ++ [a] < l' ++ [b] ↔ l < l' ∨ l = l' ∧ a < b := by
  induction l generalizing l' with
  | nil =>
    obtain rfl := List.length_eq_zero_iff.mp hlen.symm
    rw [List.nil_append, List.nil_append, List.cons_lt_cons_iff]
    simp
  | cons x l ih =>
    cases l' with
    | nil => cases hlen
    | cons y l' =>
      rw [List.cons_append, List.cons_append, List.cons_lt_cons_iff, List.cons_lt_cons_iff,
        ih (Nat.succ.inj hlen), List.cons.injEq]
      constructor
      · rintro (h | ⟨rfl, h | ⟨rfl, h⟩⟩)
        · exact .inl (.inl h)
        · exact .inl (.inr ⟨rfl, h⟩)
        · exact .inr ⟨⟨rfl, rfl⟩, h⟩
      · rintro ((h | ⟨rfl, h⟩) | ⟨⟨rfl, rfl⟩, h⟩)
        · exact .inl h
        · exact .inr ⟨rfl, .inl h⟩
        · exact .inr ⟨rfl, .inr ⟨rfl, h⟩⟩

theorem toDigits_inj {len n m : Nat} (hn : n < base ^ len) (hm : m < base ^ len) :
    toDigits base len n = toDigits base len m ↔ n = m := by
  constructor
  · intro h
    rw [← ofDigits_toDigits hn, h, ofDigits_toDigits hm]
  · intro h
    rw [h]

theorem div_lt_or_mod_lt (n m : Nat) :
    (n / base < m / base ∨ n / base = m / base ∧ n % base < m % base) ↔ n < m := by
  have hn := Nat.div_add_mod n base
  have hm := Nat.div_add_mod m base
  rcases Nat.lt_trichotomy (n / base) (m / base) with h | h | h
  · have : n < m := by
      by_contra hle
      have : m / base ≤ n / base := Nat.div_le_div_right (Nat.not_lt.mp hle)
      omega
    omega
  · rw [h] at hn
    omega
  · have : m ≤ n := by
      by_contra hlt
      have : n / base ≤ m / base := Nat.div_le_div_right (Nat.le_of_lt (Nat.not_le.mp hlt))
      omega
    omega

theorem toDigits_lt_iff {len n m : Nat} (hn : n < base ^ len) (hm : m < base ^ len) :
    toDigits base len n < toDigits base len m ↔ n < m := by
  induction len generalizing n m with
  | zero =>
    rw [Nat.pow_zero] at hn hm
    obtain rfl : n = 0 := by omega
    obtain rfl : m = 0 := by omega
    simp [toDigits]
  | succ len ih =>
    have hdiv {k : Nat} (hk : k < base ^ (len + 1)) : k / base < base ^ len := by
      rw [Nat.pow_succ, Nat.mul_comm] at hk
      exact Nat.div_lt_of_lt_mul hk
    rw [toDigits, toDigits, append_singleton_lt (by rw [length_toDigits, length_toDigits]),
      ih (hdiv hn) (hdiv hm), toDigits_inj (hdiv hn) (hdiv hm)]
    exact div_lt_or_mod_lt n m

theorem map_lt_map {α β : Type} [LT α] [LT β] {f : α → β} {l l' : List α}
    (h : ∀ a ∈ l, ∀ b ∈ l', f a < f b ↔ a < b) (h' : ∀ a ∈ l, ∀ b ∈ l', f a = f b ↔ a = b) :
    l.map f < l'.map f ↔ l < l' := by
  induction l generalizing l' with
  | nil => cases l' <;> simp
  | cons a l ih =>
    cases l' with
    | nil => simp
    | cons b l' =>
      have hrest := ih (fun x hx y hy => h x (List.mem_cons_of_mem a hx) y (List.mem_cons_of_mem b hy))
        fun x hx y hy => h' x (List.mem_cons_of_mem a hx) y (List.mem_cons_of_mem b hy)
      rw [List.map_cons, List.map_cons, List.cons_lt_cons_iff, List.cons_lt_cons_iff, hrest,
        h a List.mem_cons_self b List.mem_cons_self, h' a List.mem_cons_self b List.mem_cons_self]

/-! ## Bytes as text -/

/-- The letter of a digit. -/
def letter (alphabet : List Char) (d : Nat) : Char := alphabet.getD d 'A'

/-- The bits of the bytes, filled up with zeros at the end, `k` a letter. -/
def encodeBits (k : Nat) (alphabet : List Char) (bytes : List UInt8) : List Char :=
  let letters := (8 * bytes.length + (k - 1)) / k
  let n := ofDigits 256 (bytes.map UInt8.toNat) * 2 ^ (k * letters - 8 * bytes.length)
  (toDigits (2 ^ k) letters n).map (letter alphabet)

/-- The whole bytes of the text. -/
def decodeBits (k : Nat) (alphabet text : List Char) : List UInt8 :=
  let len := k * text.length / 8
  let n := ofDigits (2 ^ k) (text.map alphabet.idxOf) / 2 ^ (k * text.length - 8 * len)
  (toDigits 256 len n).map UInt8.ofNat

section Text

variable {k : Nat} {alphabet : List Char}

theorem map_idxOf_letter (h : ∀ d < 2 ^ k, alphabet.idxOf (letter alphabet d) = d)
    {digits : List Nat} (hlt : ∀ d ∈ digits, d < 2 ^ k) :
    (digits.map (letter alphabet)).map alphabet.idxOf = digits := by
  rw [List.map_map]
  exact (List.map_congr_left fun d hd => h d (hlt d hd)).trans (List.map_id _)

theorem map_toNat_ofNat (bytes : List UInt8) :
    (bytes.map UInt8.toNat).map UInt8.ofNat = bytes := by
  rw [List.map_map]
  exact (List.map_congr_left fun b _ => by simp).trans (List.map_id _)

theorem length_encodeBits (bytes : List UInt8) :
    (encodeBits k alphabet bytes).length = (8 * bytes.length + (k - 1)) / k := by
  rw [encodeBits, List.length_map, length_toDigits]

/-- There are at most seven bits more than the bytes have. -/
theorem letters_bounds (hk : 0 < k) (hk8 : k ≤ 8) (len : Nat) :
    8 * len ≤ k * ((8 * len + (k - 1)) / k) ∧ k * ((8 * len + (k - 1)) / k) / 8 = len := by
  have hdiv := Nat.div_add_mod (8 * len + (k - 1)) k
  have hmod := Nat.mod_lt (8 * len + (k - 1)) hk
  generalize k * ((8 * len + (k - 1)) / k) = total at hdiv ⊢
  omega

theorem decodeBits_encodeBits (hk : 0 < k) (hk8 : k ≤ 8)
    (h : ∀ d < 2 ^ k, alphabet.idxOf (letter alphabet d) = d) (bytes : List UInt8) :
    decodeBits k alphabet (encodeBits k alphabet bytes) = bytes := by
  have hlt : ∀ d ∈ bytes.map UInt8.toNat, d < 256 := by
    intro d hd
    obtain ⟨b, -, rfl⟩ := List.mem_map.mp hd
    exact b.toNat_lt
  have hn := ofDigits_lt hlt
  have hback := toDigits_ofDigits hlt
  rw [List.length_map] at hn hback
  obtain ⟨hle, hlen⟩ := letters_bounds hk hk8 bytes.length
  unfold decodeBits
  simp only [length_encodeBits, hlen]
  unfold encodeBits
  simp only
  generalize (8 * bytes.length + (k - 1)) / k = letters at hle ⊢
  have hfit : ofDigits 256 (bytes.map UInt8.toNat) * 2 ^ (k * letters - 8 * bytes.length) <
      (2 ^ k) ^ letters := by
    have hpow : (2 ^ k) ^ letters =
        256 ^ bytes.length * 2 ^ (k * letters - 8 * bytes.length) := by
      rw [show (256 : Nat) = 2 ^ 8 by decide, ← Nat.pow_mul, ← Nat.pow_mul, ← Nat.pow_add,
        Nat.add_sub_cancel' hle]
    rw [hpow]
    exact Nat.mul_lt_mul_of_pos_right hn (Nat.two_pow_pos _)
  rw [map_idxOf_letter h (toDigits_lt (Nat.two_pow_pos k) _ _), ofDigits_toDigits hfit,
    Nat.mul_div_cancel _ (Nat.two_pow_pos _), hback, map_toNat_ofNat]

end Text

/-! ## Groups of seven bits -/

inductive Leb128 : List UInt8 → Nat → Prop where
  | last {b : UInt8} : b.toNat < 128 → Leb128 [b] b.toNat
  | more {b : UInt8} {bytes : List UInt8} {n : Nat} : 128 ≤ b.toNat → Leb128 bytes n →
      Leb128 (b :: bytes) (b.toNat % 128 + 128 * n)

theorem Leb128.unique {used used' rest rest' : List UInt8} {n m : Nat} (h : Leb128 used n)
    (h' : Leb128 used' m) (heq : used ++ rest = used' ++ rest') :
    used = used' ∧ n = m ∧ rest = rest' := by
  induction h generalizing used' m with
  | last hb =>
    cases h' with
    | last hb' =>
      obtain ⟨rfl, rfl⟩ := List.cons.inj heq
      exact ⟨rfl, rfl, rfl⟩
    | more hb' _ =>
      obtain ⟨rfl, -⟩ := List.cons.inj heq
      omega
  | more hb _ ih =>
    cases h' with
    | last hb' =>
      obtain ⟨rfl, -⟩ := List.cons.inj heq
      omega
    | more hb' h' =>
      obtain ⟨rfl, hrest⟩ := List.cons.inj heq
      obtain ⟨rfl, rfl, rfl⟩ := ih h' hrest
      exact ⟨rfl, rfl, rfl⟩

/-- The groups before the last one are a number below `128 ^ init.length`. -/
theorem Leb128.exists_concat {used : List UInt8} {n : Nat} (h : Leb128 used n) :
    ∃ init last low, used = init ++ [last] ∧ (∀ b ∈ init, 128 ≤ b.toNat) ∧ last.toNat < 128 ∧
      low < 128 ^ init.length ∧ n = low + 128 ^ init.length * last.toNat := by
  induction h with
  | @last b hb => exact ⟨[], b, 0, rfl, by simp, hb, by decide, by simp⟩
  | @more b bytes n hb _ ih =>
    obtain ⟨init, last, low, rfl, hinit, hlast, hlow, rfl⟩ := ih
    refine ⟨b :: init, last, b.toNat % 128 + 128 * low, rfl, ?_, hlast, ?_, ?_⟩
    · intro c hc
      obtain rfl | hc := List.mem_cons.mp hc
      · exact hb
      · exact hinit c hc
    · rw [List.length_cons, Nat.pow_succ]
      omega
    · rw [List.length_cons, Nat.pow_succ, Nat.mul_comm (128 ^ init.length) 128, Nat.mul_assoc]
      omega

theorem exists_leb128_concat {init : List UInt8} {last : UInt8} (hinit : ∀ b ∈ init, 128 ≤ b.toNat)
    (hlast : last.toNat < 128) :
    ∃ low, Leb128 (init ++ [last]) (low + 128 ^ init.length * last.toNat) := by
  induction init with
  | nil =>
    refine ⟨0, ?_⟩
    rw [List.length_nil, Nat.pow_zero, Nat.one_mul, Nat.zero_add]
    exact .last hlast
  | cons b init ih =>
    obtain ⟨low, h⟩ := ih fun c hc => hinit c (List.mem_cons_of_mem b hc)
    refine ⟨b.toNat % 128 + 128 * low, ?_⟩
    rw [List.length_cons, Nat.pow_succ, Nat.mul_comm (128 ^ init.length) 128, Nat.mul_assoc,
      Nat.add_assoc, ← Nat.mul_add]
    exact .more (hinit b List.mem_cons_self) h

end Seiran
