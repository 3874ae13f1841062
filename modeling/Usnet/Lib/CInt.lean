import Mathlib.Data.UInt
import Mathlib.Tactic

/-! # C integers

    Conversions between the fixed-width unsigned types and the mathematical
    integers in which C's `int` arithmetic is carried out, and serial-number
    arithmetic on `UInt32` as TCP uses it.
-/

namespace CInt

/-! ## Section 1: Conversions -/

/-- The largest `int`. -/
def INT_MAX : Nat := 2147483647

/-- The cast `(int)x` of an unsigned 32-bit value. -/
def sint (x : UInt32) : Int := x.toInt32.toInt

/-- The conversion of an `int` to an unsigned 32-bit value. -/
def u32 (i : Int) : UInt32 := UInt32.ofInt i

/-- The conversion of an `int` to an unsigned 16-bit value. -/
def u16 (i : Int) : UInt16 := UInt16.ofInt i

/-- The conversion of an `int` to a signed 16-bit value. -/
def s16 (i : Int) : Int := i.bmod (2 ^ 16)

theorem s16_of_lt {i : Int} (h₀ : 0 ≤ i) (h : i < 2 ^ 15) : s16 i = i :=
  Int.bmod_eq_of_le (by omega) (by omega)

theorem sint_eq (x : UInt32) :
    sint x = if x.toNat < 2 ^ 31 then (x.toNat : Int) else (x.toNat : Int) - 2 ^ 32 := by
  have h : sint x = x.toBitVec.toInt := rfl
  rw [h, BitVec.toInt_eq_toNat_cond]
  have hx : x.toBitVec.toNat = x.toNat := rfl
  rw [hx]
  split <;> split <;> omega

/-- Below `2^31` the cast to `int` changes nothing. -/
theorem sint_of_lt {x : UInt32} (h : x.toNat < 2 ^ 31) : sint x = x.toNat := by
  rw [sint_eq, if_pos h]

theorem sint_of_ge {x : UInt32} (h : 2 ^ 31 ≤ x.toNat) : sint x = x.toNat - 2 ^ 32 := by
  rw [sint_eq, if_neg (by omega)]

/-- What is not behind is ahead, except half the sequence space away. -/
theorem sint_sub_pos {a b : UInt32} (h : ¬ sint (a - b) ≥ 0) (hne : b ≠ a + 0x80000000) :
    0 < sint (b - a) := by
  have hne' : (b - a).toNat ≠ 2 ^ 31 := by
    intro heq
    refine hne ?_
    have : b - a = 0x80000000 := UInt32.toNat_inj.mp heq
    rw [← this, add_comm, UInt32.sub_add_cancel]
  have hsum : (a - b).toNat = (2 ^ 32 - (b - a).toNat) % 2 ^ 32 := by
    rw [UInt32.toNat_sub, UInt32.toNat_sub]
    have := a.toNat_lt
    have := b.toNat_lt
    omega
  rw [sint_eq] at h ⊢
  have hlt := (b - a).toNat_lt
  split at h <;> split <;> omega

/-- Two values neither of which is behind the other are the same. -/
theorem eq_of_not_behind {a b : UInt32} (hab : ¬ sint (a - b) < 0) (hba : ¬ sint (b - a) < 0) :
    b = a := by
  have hsmall : ∀ x : UInt32, ¬ sint x < 0 → x.toNat < 2 ^ 31 := by
    intro x hx
    have hlt := x.toNat_lt
    rw [sint_eq] at hx
    split at hx <;> omega
  have h₁ := hsmall _ hab
  have h₂ := hsmall _ hba
  rw [UInt32.toNat_sub] at h₁ h₂
  have ha := a.toNat_lt
  have hb := b.toNat_lt
  apply UInt32.toNat_inj.mp
  omega

theorem sint_lower (x : UInt32) : -2 ^ 31 ≤ sint x := by
  rw [sint_eq]; split <;> omega

theorem sint_upper (x : UInt32) : sint x < 2 ^ 31 := by
  rw [sint_eq]
  have := x.toNat_lt
  split <;> omega

theorem toNat_u32 (i : Int) : (u32 i).toNat = (i % 2 ^ 32).toNat := by
  unfold u32 UInt32.ofInt
  rw [UInt32.toNat_ofNat']
  omega

theorem toNat_u16 (i : Int) : (u16 i).toNat = (i % 2 ^ 16).toNat := by
  unfold u16 UInt16.ofInt
  rw [UInt16.toNat_ofNat']
  omega

theorem toNat_u32_of_lt {n : Nat} (h : n < 2 ^ 32) : (u32 n).toNat = n := by
  rw [toNat_u32]; omega

theorem toNat_u16_of_lt {n : Nat} (h : n < 2 ^ 16) : (u16 n).toNat = n := by
  rw [toNat_u16]; omega

@[simp] theorem u32_zero : u32 0 = 0 := rfl

@[simp] theorem u32_one : u32 1 = 1 := rfl

/-- The two conversions to and from `int` cancel. -/
theorem u32_sint (x : UInt32) : u32 (sint x) = x := by
  apply UInt32.toNat_inj.mp
  rw [toNat_u32, sint_eq]
  have := x.toNat_lt
  split <;> omega

/-! ## Section 2: Sums and differences modulo 2^32 -/

theorem toNat_add (a b : UInt32) : (a + b).toNat = (a.toNat + b.toNat) % 2 ^ 32 :=
  UInt32.toNat_add a b

theorem toNat_sub (a b : UInt32) : (a - b).toNat = (2 ^ 32 - b.toNat + a.toNat) % 2 ^ 32 :=
  UInt32.toNat_sub a b

theorem add_toNat_of_lt {a b : UInt32} (h : a.toNat + b.toNat < 2 ^ 32) :
    (a + b).toNat = a.toNat + b.toNat := by
  rw [toNat_add]; omega

theorem sub_toNat_of_le {a b : UInt32} (h : b.toNat ≤ a.toNat) :
    (a - b).toNat = a.toNat - b.toNat := by
  rw [toNat_sub]
  have := a.toNat_lt
  have := b.toNat_lt
  omega

/-! ## Section 3: Distances -/

/-- The distance from `a` forward to `b` modulo `2^32`. -/
def ahead (a b : UInt32) : Nat := (b - a).toNat

theorem ahead_lt (a b : UInt32) : ahead a b < 2 ^ 32 := (b - a).toNat_lt

@[simp] theorem ahead_self (a : UInt32) : ahead a a = 0 := by
  simp [ahead]

theorem ahead_eq_zero {a b : UInt32} : ahead a b = 0 ↔ b = a := by
  unfold ahead
  constructor
  · intro h
    have h' : b - a = 0 := UInt32.toNat_inj.mp h
    grind
  · rintro rfl
    simp

/-- Two values at one distance from a base are equal. -/
theorem ahead_inj {a b c : UInt32} (h : ahead a b = ahead a c) : b = c := by
  have h' : b - a = c - a := UInt32.toNat_inj.mp h
  grind

/-- Moving the far end forward. -/
theorem ahead_add_right {a b : UInt32} {n : Nat} (h : ahead a b + n < 2 ^ 32) :
    ahead a (b + u32 n) = ahead a b + n := by
  unfold ahead at *
  simp only [toNat_sub, toNat_add, toNat_u32] at *
  have := a.toNat_lt
  have := b.toNat_lt
  omega

theorem ahead_of_add {a b : UInt32} {n : Nat} (hb : b = a + u32 n) (hn : n < 2 ^ 32) :
    ahead a b = n := by
  rw [hb, ahead_add_right (by rw [ahead_self]; omega), ahead_self, Nat.zero_add]

/-- The distance leads there. -/
theorem add_ahead (a b : UInt32) : a + u32 (ahead a b) = b :=
  ahead_inj (ahead_of_add rfl (ahead_lt a b))

theorem ahead_succ {a b : UInt32} (h : ahead a b + 1 < 2 ^ 32) :
    ahead a (b + 1) = ahead a b + 1 := by
  have hone : (1 : UInt32) = u32 ((1 : Nat) : Int) := rfl
  rw [hone, ahead_add_right h]

/-- Moving the base forward. -/
theorem ahead_add_left {a b : UInt32} {n : Nat} (h : n ≤ ahead a b) :
    ahead (a + u32 n) b = ahead a b - n := by
  unfold ahead at *
  simp only [toNat_sub, toNat_add, toNat_u32] at *
  have := a.toNat_lt
  have := b.toNat_lt
  omega

theorem ahead_trans {a b c : UInt32} (h : ahead a b + ahead b c < 2 ^ 32) :
    ahead a c = ahead a b + ahead b c := by
  unfold ahead at *
  simp only [toNat_sub] at *
  have := a.toNat_lt
  have := b.toNat_lt
  have := c.toNat_lt
  omega

/-- The signed difference of two values less than `2^31` ahead of a common base. -/
theorem sint_sub_eq {h a b : UInt32} (ha : ahead h a < 2 ^ 31) (hb : ahead h b < 2 ^ 31) :
    sint (a - b) = ahead h a - ahead h b := by
  unfold ahead at *
  rw [sint_eq, toNat_sub]
  simp only [toNat_sub] at *
  have := a.toNat_lt
  have := b.toNat_lt
  have := h.toNat_lt
  split <;> omega

/-- A value that is not behind in signed comparison is at most half the range ahead. -/
theorem ahead_le_of_sint_sub {a b : UInt32} (h : sint (a - b) ≤ 0) : ahead a b ≤ 2 ^ 31 := by
  unfold ahead
  rw [sint_eq] at h
  simp only [toNat_sub] at *
  have := a.toNat_lt
  have := b.toNat_lt
  split at h <;> omega

theorem u32_add (i j : Int) : u32 (i + j) = u32 i + u32 j := UInt32.ofInt_add i j

theorem u32_natCast_add (m n : Nat) : u32 ((m + n : Nat) : Int) = u32 m + u32 n := by
  rw [Nat.cast_add, u32_add]

/-! ## Section 4: Bytes in network order -/

/-- Four bytes cut out of a word make it up again. -/
theorem bytes_join (x : BitVec 32) :
    ((x >>> 24).setWidth 8).setWidth 32 <<< 24 ||| ((x >>> 16).setWidth 8).setWidth 32 <<< 16 |||
      ((x >>> 8).setWidth 8).setWidth 32 <<< 8 ||| (x.setWidth 8).setWidth 32 = x := by
  apply BitVec.eq_of_getLsbD_eq
  intro i hi
  simp only [BitVec.getLsbD_or, BitVec.getLsbD_shiftLeft, BitVec.getLsbD_setWidth,
    BitVec.getLsbD_ushiftRight]
  -- each bit comes from the byte it lies in
  rcases Nat.lt_or_ge i 8 with h | h
  · simp [hi, h, show i < 16 by omega, show i < 24 by omega]
  · rcases Nat.lt_or_ge i 16 with h' | h'
    · simp [hi, show ¬ i < 8 by omega, h', show i < 24 by omega, show i - 8 < 8 by omega,
        show 8 + (i - 8) = i by omega, show i - 8 < 32 by omega]
    · rcases Nat.lt_or_ge i 24 with h'' | h''
      · simp [hi, show ¬ i < 8 by omega, show ¬ i < 16 by omega, h'',
          show ¬ i - 8 < 8 by omega, show i - 16 < 8 by omega, show 16 + (i - 16) = i by omega,
          show i - 16 < 32 by omega]
      · simp [hi, show ¬ i < 8 by omega, show ¬ i < 16 by omega, show ¬ i < 24 by omega,
          show ¬ i - 8 < 8 by omega, show ¬ i - 16 < 8 by omega, show i - 24 < 8 by omega,
          show 24 + (i - 24) = i by omega, show i - 24 < 32 by omega]

theorem word_of_bytes (x : UInt32) :
    (x >>> 24).toUInt8.toUInt32 <<< 24 ||| (x >>> 16).toUInt8.toUInt32 <<< 16 |||
      (x >>> 8).toUInt8.toUInt32 <<< 8 ||| x.toUInt8.toUInt32 = x :=
  UInt32.toBitVec_inj.mp (bytes_join x.toBitVec)

theorem half_of_bytes (x : UInt16) :
    (x >>> 8).toUInt8.toUInt16 <<< 8 + x.toUInt8.toUInt16 = x := by
  apply UInt16.toNat_inj.mp
  have hx := x.toNat_lt
  simp [Nat.shiftLeft_eq, Nat.shiftRight_eq_div_pow]
  omega

end CInt
