import Mathlib.Tactic.Common
import Mathlib.Order.Basic
import Mathlib.Algebra.Order.Ring.Nat

/-!
# Machine words as numbers

Masking, shifting and or-ing of 64-bit words, read as arithmetic of natural numbers. Code that
computes page indices, rounds an address to a power of two or puts flag bits under an aligned
address is translated with the bit operators of the source; the lemmas here say once what each of
these idioms computes, so that everything above them is linear arithmetic.

The power of two is kept as a hypothesis `a.toNat = 2 ^ k` rather than as a literal: the rounding
idiom `(x + a - 1) & ~(a - 1)` is used with an alignment chosen by the caller.
-/

namespace Words

/-- Clearing the low `k` bits of a `w`-bit number rounds it down to a multiple of `2 ^ k`. -/
theorem and_two_pow_sub_two_pow {w k x : ℕ} (hk : k ≤ w) (hx : x < 2 ^ w) :
    x &&& (2 ^ w - 2 ^ k) = x / 2 ^ k * 2 ^ k := by
  have hkpos := Nat.two_pow_pos k
  have hle : 2 ^ k ≤ 2 ^ w := Nat.pow_le_pow_right (by omega) hk
  have hmask : 2 ^ w - 2 ^ k = 2 ^ w - ((2 ^ k - 1) + 1) := by omega
  refine Nat.eq_of_testBit_eq fun i ↦ ?_
  rw [Nat.testBit_and, hmask, Nat.testBit_two_pow_sub_succ (by omega),
    Nat.testBit_two_pow_sub_one, Nat.testBit_mul_two_pow, Nat.testBit_div_two_pow]
  rcases Nat.lt_or_ge i k with hik | hik
  · simp [hik, Nat.not_le.2 hik]
  · rw [Nat.sub_add_cancel hik]
    rcases Nat.lt_or_ge i w with hiw | hiw
    · simp [hik, hiw]
    · have hhigh : x.testBit i = false :=
        Nat.testBit_lt_two_pow (Nat.lt_of_lt_of_le hx (Nat.pow_le_pow_right (by omega) hiw))
      simp [hhigh]

/-- The exponent of a 64-bit power of two is below 64. -/
theorem exponent_lt {a : UInt64} {k : ℕ} (ha : a.toNat = 2 ^ k) : k < 64 := by
  have hlt := a.toNat_lt
  rw [ha] at hlt
  exact (Nat.pow_lt_pow_iff_right (by omega)).1 hlt

/-- The mask `~(a - 1)` of a power of two `a` keeps the bits from its exponent up. -/
theorem toNat_not_sub_one {a : UInt64} {k : ℕ} (ha : a.toNat = 2 ^ k) :
    (~~~(a - 1)).toNat = 2 ^ 64 - 2 ^ k := by
  have hone : (1 : UInt64) ≤ a := by
    rw [UInt64.le_iff_toNat_le, ha]
    exact Nat.two_pow_pos k
  have hpos := Nat.two_pow_pos k
  have hlt : 2 ^ k < 2 ^ 64 := ha ▸ a.toNat_lt
  rw [UInt64.toNat_not, UInt64.toNat_sub_of_le _ _ hone, ha]
  simp only [UInt64.size, UInt64.toNat_one]
  omega

/-- `x & ~(a - 1)` rounds `x` down to a multiple of the power of two `a`. -/
theorem toNat_and_not_sub_one {x a : UInt64} {k : ℕ} (ha : a.toNat = 2 ^ k) :
    (x &&& ~~~(a - 1)).toNat = x.toNat / 2 ^ k * 2 ^ k := by
  rw [UInt64.toNat_and, toNat_not_sub_one ha,
    and_two_pow_sub_two_pow (exponent_lt ha).le x.toNat_lt]

/-- Rounding up to a multiple of `2 ^ k`, as a number. -/
def roundUp (x a : ℕ) : ℕ := (x + (a - 1)) / a * a

theorem le_roundUp {x a : ℕ} (ha : 0 < a) : x ≤ roundUp x a := by
  have hdiv := Nat.div_add_mod (x + (a - 1)) a
  have hmod := Nat.mod_lt (x + (a - 1)) ha
  rw [roundUp, Nat.mul_comm]
  omega

theorem dvd_roundUp (x a : ℕ) : a ∣ roundUp x a := Nat.dvd_mul_left _ _

/-- Rounding up stays within any multiple that bounds the number. -/
theorem roundUp_le {x a m : ℕ} (ha : 0 < a) (hm : a ∣ m) (hx : x ≤ m) : roundUp x a ≤ m := by
  obtain ⟨q, rfl⟩ := hm
  rw [roundUp, Nat.mul_comm a q]
  refine Nat.mul_le_mul_right a (Nat.lt_succ_iff.1 ((Nat.div_lt_iff_lt_mul ha).2 ?_))
  rw [Nat.succ_mul, Nat.mul_comm q a]
  omega

/-- **The rounding idiom.** `(x + a - 1) & ~(a - 1)` is rounding up to a multiple of the power of
two `a`, modulo the word size. The only value that wraps is `2 ^ 64` itself. -/
theorem toNat_align {x a : UInt64} {k : ℕ} (ha : a.toNat = 2 ^ k) :
    ((x + a - 1) &&& ~~~(a - 1)).toNat = roundUp x.toNat (2 ^ k) % 2 ^ 64 := by
  have hpos := Nat.two_pow_pos k
  have hx := x.toNat_lt
  have hak : 2 ^ k < 2 ^ 64 := ha ▸ a.toNat_lt
  have hdvd : 2 ^ k ∣ 2 ^ 64 := Nat.pow_dvd_pow 2 (exponent_lt ha).le
  have hsum : (x + a - 1).toNat = (x.toNat + (2 ^ k - 1)) % 2 ^ 64 := by
    rw [UInt64.toNat_sub, UInt64.toNat_add, ha, UInt64.toNat_one]
    omega
  rw [toNat_and_not_sub_one ha, hsum, roundUp]
  rcases Nat.lt_or_ge (x.toNat + (2 ^ k - 1)) (2 ^ 64) with hlt | hge
  · have hle := Nat.div_mul_le_self (x.toNat + (2 ^ k - 1)) (2 ^ k)
    rw [Nat.mod_eq_of_lt hlt, Nat.mod_eq_of_lt (Nat.lt_of_le_of_lt hle hlt)]
  · -- past the top the rounded value is exactly the word size, and both sides are zero
    have hround : roundUp x.toNat (2 ^ k) = 2 ^ 64 := by
      refine Nat.le_antisymm (roundUp_le hpos hdvd hx.le) ?_
      obtain ⟨q, hq⟩ := hdvd
      rw [roundUp, hq, Nat.mul_comm]
      exact Nat.mul_le_mul_right _ ((Nat.le_div_iff_mul_le hpos).2 (by rw [Nat.mul_comm]; omega))
    rw [roundUp] at hround
    rw [hround, Nat.mod_self, Nat.div_eq_of_lt (by omega), Nat.zero_mul]

/-! ### Words with one bit -/

/-- The test `x && !(x & (x - 1))` for a power of two. -/
theorem isPowerOfTwo_iff16 (x : UInt16) :
    x ≠ 0 ∧ x &&& (x - 1) = 0 ↔ x.toNat.isPowerOfTwo := by
  have hzero (y : UInt16) : y = 0 ↔ y.toNat = 0 := UInt16.toNat_inj.symm
  rw [← Nat.ne_zero_and_sub_one_eq_zero_iff_isPowerOfTwo, ne_eq, hzero, hzero]
  refine and_congr_right fun hne ↦ ?_
  have hone : (1 : UInt16) ≤ x := by
    rw [UInt16.le_iff_toNat_le, UInt16.toNat_one]
    omega
  rw [UInt16.toNat_and, UInt16.toNat_sub_of_le _ _ hone, UInt16.toNat_one]

theorem isPowerOfTwo_iff8 (x : UInt8) :
    x ≠ 0 ∧ x &&& (x - 1) = 0 ↔ x.toNat.isPowerOfTwo := by
  have hzero (y : UInt8) : y = 0 ↔ y.toNat = 0 := UInt8.toNat_inj.symm
  rw [← Nat.ne_zero_and_sub_one_eq_zero_iff_isPowerOfTwo, ne_eq, hzero, hzero]
  refine and_congr_right fun hne ↦ ?_
  have hone : (1 : UInt8) ≤ x := by
    rw [UInt8.le_iff_toNat_le, UInt8.toNat_one]
    omega
  rw [UInt8.toNat_and, UInt8.toNat_sub_of_le _ _ hone, UInt8.toNat_one]

/-- A power of two has room for itself below the next one. -/
theorem le_of_isPowerOfTwo {x w : ℕ} (h : x.isPowerOfTwo) (hlt : x < 2 ^ (w + 1)) : x ≤ 2 ^ w := by
  obtain ⟨k, rfl⟩ := h
  have hk : k < w + 1 := (Nat.pow_lt_pow_iff_right (by decide)).1 hlt
  exact Nat.pow_le_pow_right (by decide) (Nat.le_of_lt_succ hk)

/-! ### Fields of small words -/

/-- Masking the low `k` bits. -/
theorem toNat_and_mask8 {w mask : UInt8} {k : ℕ} (hmask : mask.toNat = 2 ^ k - 1) :
    (w &&& mask).toNat = w.toNat % 2 ^ k := by
  rw [UInt8.toNat_and, hmask, Nat.and_two_pow_sub_one_eq_mod]

theorem toNat_and_mask16 {w mask : UInt16} {k : ℕ} (hmask : mask.toNat = 2 ^ k - 1) :
    (w &&& mask).toNat = w.toNat % 2 ^ k := by
  rw [UInt16.toNat_and, hmask, Nat.and_two_pow_sub_one_eq_mod]

theorem toNat_and_mask32 {w mask : UInt32} {k : ℕ} (hmask : mask.toNat = 2 ^ k - 1) :
    (w &&& mask).toNat = w.toNat % 2 ^ k := by
  rw [UInt32.toNat_and, hmask, Nat.and_two_pow_sub_one_eq_mod]

/-- Shifting right by less than the width. -/
theorem toNat_shiftRight8 (w : UInt8) {d : UInt8} (hd : d.toNat < 8) :
    (w >>> d).toNat = w.toNat / 2 ^ d.toNat := by
  rw [UInt8.toNat_shiftRight, Nat.mod_eq_of_lt hd, Nat.shiftRight_eq_div_pow]

theorem toNat_shiftRight16 (w : UInt16) {d : UInt16} (hd : d.toNat < 16) :
    (w >>> d).toNat = w.toNat / 2 ^ d.toNat := by
  rw [UInt16.toNat_shiftRight, Nat.mod_eq_of_lt hd, Nat.shiftRight_eq_div_pow]

theorem toNat_shiftRight32 (w : UInt32) {d : UInt32} (hd : d.toNat < 32) :
    (w >>> d).toNat = w.toNat / 2 ^ d.toNat := by
  rw [UInt32.toNat_shiftRight, Nat.mod_eq_of_lt hd, Nat.shiftRight_eq_div_pow]

/-- `w & 0xFF`, as a byte. -/
theorem toNat_lowByte (w : UInt16) : (w &&& 0xFF).toUInt8.toNat = w.toNat % 256 := by
  rw [UInt16.toNat_toUInt8, toNat_and_mask16 (k := 8) rfl]
  omega

/-- `(w >> 8) & 0xFF`, as a byte. -/
theorem toNat_highByte (w : UInt16) : ((w >>> 8) &&& 0xFF).toUInt8.toNat = w.toNat / 256 := by
  have hlt := w.toNat_lt
  have hshift : (w >>> 8).toNat = w.toNat / 2 ^ 8 := toNat_shiftRight16 w (by decide)
  rw [toNat_lowByte, hshift]
  omega

end Words
