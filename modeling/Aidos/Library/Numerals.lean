import Mathlib.Data.Nat.Digits.Lemmas

/-!
# Numerals

The digits of a number as they are written: the most significant first, no zero in front, and one
zero for zero itself. Mathlib's `Nat.digits` are these digits from the other end, without any for
zero.
-/

namespace Numerals

/-- The digits of a number in base `b`, as they are written. -/
def numeral (b n : ℕ) : List ℕ := if n = 0 then [0] else (Nat.digits b n).reverse

variable {b n : ℕ}

theorem numeral_of_lt (h : n < b) : numeral b n = [n] := by
  rw [numeral]
  split
  · next hn => rw [hn]
  · next hn => rw [Nat.digits_of_lt b n hn h, List.reverse_singleton]

/-- The last digit is the remainder. -/
theorem numeral_of_le (hb : 1 < b) (h : b ≤ n) : numeral b n = numeral b (n / b) ++ [n % b] := by
  have hquot : n / b ≠ 0 := (Nat.div_pos h (by omega)).ne'
  rw [numeral, numeral, if_neg (by omega), if_neg hquot, Nat.digits_def' hb (by omega),
    List.reverse_cons]

theorem lt_of_mem_numeral (hb : 1 < b) {d : ℕ} (hd : d ∈ numeral b n) : d < b := by
  rw [numeral] at hd
  split at hd
  · rw [List.mem_singleton.1 hd]
    omega
  · exact Nat.digits_lt_base hb (List.mem_reverse.1 hd)

theorem length_numeral_le (hb : 1 < b) {k : ℕ} (hk : 0 < k) (h : n < b ^ k) :
    (numeral b n).length ≤ k := by
  rw [numeral]
  split
  · exact hk
  · rw [List.length_reverse]
    exact (Nat.digits_length_le_iff hb n).2 h

theorem length_numeral_pos : 0 < (numeral b n).length := by
  rw [numeral]
  split
  · exact Nat.one_pos
  · next hn =>
    rw [List.length_reverse]
    exact List.length_pos_of_ne_nil (Nat.digits_ne_nil_iff_ne_zero.2 hn)

/-- **A numeral is read back** digit by digit. -/
theorem foldl_numeral (b n : ℕ) : (numeral b n).foldl (fun m d ↦ b * m + d) 0 = n := by
  rw [numeral]
  split
  · next hn => rw [hn, List.foldl_cons, List.foldl_nil, Nat.mul_zero, Nat.zero_add]
  · rw [List.foldl_reverse]
    calc (Nat.digits b n).foldr (fun d m ↦ b * m + d) 0
        = Nat.ofDigits b (Nat.digits b n) := by
          rw [Nat.ofDigits_eq_foldr]
          exact congrArg (fun f ↦ (Nat.digits b n).foldr f 0)
            (funext fun d ↦ funext fun m ↦ Nat.add_comm _ _)
      _ = n := Nat.ofDigits_digits b n

end Numerals
