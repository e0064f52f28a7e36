import Mathlib.Tactic.Common
import Mathlib.Algebra.Order.Ring.Nat
import Mathlib.Data.List.GetD

/-!
# Byte-addressed memory

A memory is a function from addresses to bytes. Words are stored little-endian; `read64` and
`write64` are the 64-bit accesses, and `fillRun` replaces a run of consecutive bytes. What a program
logic over such a memory needs is here: a word written is read back, and an access does not see what
happens to bytes it does not cover.
-/

namespace ByteMemory

/-- The number stored in the `n` bytes from address `p` on, least significant byte first. -/
def littleEndian (mem : ℕ → UInt8) : ℕ → ℕ → ℕ
  | 0, _ => 0
  | n + 1, p => (mem p).toNat + 256 * littleEndian mem n (p + 1)

/-- The 64-bit word at address `p`. -/
def read64 (mem : ℕ → UInt8) (p : ℕ) : UInt64 := UInt64.ofNat (littleEndian mem 8 p)

/-- The memory after storing the 64-bit word `x` at address `p`. -/
def write64 (mem : ℕ → UInt8) (p : ℕ) (x : UInt64) (q : ℕ) : UInt8 :=
  if p ≤ q ∧ q < p + 8 then UInt8.ofNat (x.toNat / 256 ^ (q - p)) else mem q

/-- The memory after storing `f 0`, …, `f (n - 1)` at the addresses from `p` on. -/
def fillRun (mem : ℕ → UInt8) (p : ℕ) (f : ℕ → UInt8) (n : ℕ) (q : ℕ) : UInt8 :=
  if p ≤ q ∧ q < p + n then f (q - p) else mem q

variable {mem mem' : ℕ → UInt8}

theorem littleEndian_congr {n p p' : ℕ} (h : ∀ i < n, mem (p + i) = mem' (p' + i)) :
    littleEndian mem n p = littleEndian mem' n p' := by
  induction n generalizing p p' with
  | zero => rfl
  | succ n ih =>
    have hhead : mem p = mem' p' := h 0 (Nat.succ_pos n)
    have htail : ∀ i < n, mem (p + 1 + i) = mem' (p' + 1 + i) := by
      intro i hi
      rw [Nat.add_assoc, Nat.add_assoc, Nat.add_comm 1 i]
      exact h (i + 1) (Nat.succ_lt_succ hi)
    rw [littleEndian, littleEndian, hhead, ih htail]

/-- Bytes behind others count for more. -/
theorem littleEndian_add (mem : ℕ → UInt8) (n k p : ℕ) :
    littleEndian mem (n + k) p = littleEndian mem n p + 256 ^ n * littleEndian mem k (p + n) := by
  induction n generalizing p with
  | zero => rw [Nat.zero_add, littleEndian, Nat.zero_add, Nat.pow_zero, Nat.one_mul, Nat.add_zero]
  | succ n ih =>
    have hnext : p + 1 + n = p + (n + 1) := by omega
    rw [Nat.succ_add, littleEndian, littleEndian, ih, hnext, Nat.pow_succ', Nat.mul_add,
      Nat.mul_assoc, Nat.add_assoc]

/-- The bytes of a number, from its `k`-th on, spell the number without its `k` low bytes. -/
theorem littleEndian_digits {n p k x : ℕ}
    (h : ∀ i < n, mem (p + i) = UInt8.ofNat (x / 256 ^ (k + i))) :
    littleEndian mem n p = x / 256 ^ k % 256 ^ n := by
  induction n generalizing p k with
  | zero => rw [littleEndian, Nat.pow_zero, Nat.mod_one]
  | succ n ih =>
    have hhead : (mem p).toNat = x / 256 ^ k % 256 := by
      have hzero := h 0 (Nat.succ_pos n)
      rw [Nat.add_zero, Nat.add_zero] at hzero
      rw [hzero, UInt8.toNat_ofNat']
    have htail : ∀ i < n, mem (p + 1 + i) = UInt8.ofNat (x / 256 ^ (k + 1 + i)) := by
      intro i hi
      rw [Nat.add_assoc, Nat.add_assoc, Nat.add_comm 1 i]
      exact h (i + 1) (Nat.succ_lt_succ hi)
    rw [littleEndian, hhead, ih htail, Nat.pow_succ, ← Nat.div_div_eq_div_mul,
      Nat.pow_succ' (n := n), Nat.mod_mul]

theorem littleEndian_lt (mem : ℕ → UInt8) (n p : ℕ) : littleEndian mem n p < 256 ^ n := by
  induction n generalizing p with
  | zero => exact Nat.one_pos
  | succ n ih =>
    have hhead := (mem p).toNat_lt
    have htail := ih (p + 1)
    rw [littleEndian, Nat.pow_succ']
    omega

/-- The bytes can be read off a number. -/
theorem byte_of_littleEndian {n p i : ℕ} (hi : i < n) :
    mem (p + i) = UInt8.ofNat (littleEndian mem n p / 256 ^ i) := by
  induction n generalizing p i with
  | zero => exact absurd hi (Nat.not_lt_zero i)
  | succ n ih =>
    have hhead := (mem p).toNat_lt
    rw [littleEndian]
    cases i with
    | zero =>
      refine UInt8.toNat_inj.1 ?_
      rw [UInt8.toNat_ofNat', Nat.pow_zero, Nat.div_one, Nat.add_zero]
      omega
    | succ i =>
      have hrest : ((mem p).toNat + 256 * littleEndian mem n (p + 1)) / 256 =
          littleEndian mem n (p + 1) := by
        omega
      have hnext := ih (p := p + 1) (Nat.lt_of_succ_lt_succ hi)
      rw [Nat.pow_succ', ← Nat.div_div_eq_div_mul, hrest, ← hnext, Nat.add_assoc, Nat.add_comm 1 i]

theorem read64_congr {p p' : ℕ} (h : ∀ i < 8, mem (p + i) = mem' (p' + i)) :
    read64 mem p = read64 mem' p' := by
  rw [read64, read64, littleEndian_congr h]

/-- Where the words agree, the bytes do. -/
theorem eq_of_read64_eq {p i : ℕ} (h : read64 mem p = read64 mem' p) (hi : i < 8) :
    mem (p + i) = mem' (p + i) := by
  have hlt : littleEndian mem 8 p < 2 ^ 64 := littleEndian_lt mem 8 p
  have hlt' : littleEndian mem' 8 p < 2 ^ 64 := littleEndian_lt mem' 8 p
  have hnum := congrArg UInt64.toNat h
  rw [read64, read64, UInt64.toNat_ofNat_of_lt' hlt, UInt64.toNat_ofNat_of_lt' hlt'] at hnum
  have hbyte : mem (p + i) = UInt8.ofNat (littleEndian mem 8 p / 256 ^ i) := byte_of_littleEndian hi
  rw [hbyte, hnum]
  exact (byte_of_littleEndian hi).symm

/-- A word written is read back. -/
theorem read64_write64_self (mem : ℕ → UInt8) (p : ℕ) (x : UInt64) :
    read64 (write64 mem p x) p = x := by
  have hdigits : littleEndian (write64 mem p x) 8 p = x.toNat / 256 ^ 0 % 256 ^ 8 := by
    refine littleEndian_digits fun i hi ↦ ?_
    rw [write64, if_pos ⟨Nat.le_add_right p i, Nat.add_lt_add_left hi p⟩, Nat.add_sub_cancel_left,
      Nat.zero_add]
  have hlt : x.toNat < 256 ^ 8 := x.toNat_lt
  rw [read64, hdigits, Nat.pow_zero, Nat.div_one, Nat.mod_eq_of_lt hlt, UInt64.ofNat_toNat]

/-- A write is not seen at addresses it does not cover. -/
theorem write64_of_not_mem {p q : ℕ} (x : UInt64) (h : q < p ∨ p + 8 ≤ q) :
    write64 mem p x q = mem q := if_neg (by omega)

theorem read64_write64_of_disjoint {p q : ℕ} (x : UInt64) (h : q + 8 ≤ p ∨ p + 8 ≤ q) :
    read64 (write64 mem p x) q = read64 mem q :=
  read64_congr fun i hi ↦ write64_of_not_mem x (by omega)

/-- The memory that holds the word `w i` at each address `8 * i`. -/
def ofWords (w : ℕ → UInt64) (q : ℕ) : UInt8 := UInt8.ofNat ((w (q / 8)).toNat / 256 ^ (q % 8))

theorem read64_ofWords (w : ℕ → UInt64) (i : ℕ) : read64 (ofWords w) (8 * i) = w i := by
  have hdigits : littleEndian (ofWords w) 8 (8 * i) = (w i).toNat / 256 ^ 0 % 256 ^ 8 := by
    refine littleEndian_digits fun j hj ↦ ?_
    have hdiv : (8 * i + j) / 8 = i := by omega
    have hmod : (8 * i + j) % 8 = j := by omega
    rw [ofWords, hdiv, hmod, Nat.zero_add]
  have hlt : (w i).toNat < 256 ^ 8 := (w i).toNat_lt
  rw [read64, hdigits, Nat.pow_zero, Nat.div_one, Nat.mod_eq_of_lt hlt, UInt64.ofNat_toNat]

/-! ### Runs of bytes -/

theorem fillRun_of_mem {p i n : ℕ} {f : ℕ → UInt8} (h : i < n) :
    fillRun mem p f n (p + i) = f i := by
  rw [fillRun, if_pos ⟨Nat.le_add_right p i, Nat.add_lt_add_left h p⟩, Nat.add_sub_cancel_left]

theorem fillRun_of_not_mem {p q n : ℕ} {f : ℕ → UInt8} (h : q < p ∨ p + n ≤ q) :
    fillRun mem p f n q = mem q := if_neg (by omega)

@[simp] theorem fillRun_zero (mem : ℕ → UInt8) (p : ℕ) (f : ℕ → UInt8) : fillRun mem p f 0 = mem :=
  funext fun _ ↦ fillRun_of_not_mem (by omega)

theorem fillRun_congr {p n : ℕ} {f g : ℕ → UInt8} (h : ∀ i < n, f i = g i) :
    fillRun mem p f n = fillRun mem p g n := by
  funext q
  rw [fillRun, fillRun]
  split
  · next hq => exact h _ (by omega)
  · rfl

/-- A run is filled byte by byte. -/
theorem fillRun_succ (mem : ℕ → UInt8) (p : ℕ) (f : ℕ → UInt8) (n : ℕ) :
    Function.update (fillRun mem p f n) (p + n) (f n) = fillRun mem p f (n + 1) := by
  funext q
  rcases eq_or_ne q (p + n) with rfl | hne
  · rw [Function.update_self, fillRun_of_mem (Nat.lt_succ_self n)]
  · rw [Function.update_of_ne hne, fillRun, fillRun]
    exact if_congr (by omega) rfl rfl

/-- Runs of bytes, one behind the other. -/
theorem fillRun_append {mem : ℕ → UInt8} {p n k : ℕ} {f g : ℕ → UInt8}
    (hg : ∀ i < k, g i = f (n + i)) :
    fillRun (fillRun mem p f n) (p + n) g k = fillRun mem p f (n + k) := by
  funext q
  rcases Nat.lt_or_ge q (p + n) with hlt | hge
  · rw [fillRun_of_not_mem (Or.inl hlt), fillRun, fillRun]
    exact if_congr (by omega) rfl rfl
  · obtain ⟨i, rfl⟩ := Nat.exists_eq_add_of_le hge
    rcases Nat.lt_or_ge i k with hik | hik
    · rw [fillRun_of_mem hik, hg i hik, Nat.add_assoc, fillRun_of_mem (by omega)]
    · rw [fillRun_of_not_mem (by omega), fillRun_of_not_mem (by omega),
        fillRun_of_not_mem (by omega)]

/-! ### Numbers of any width -/

/-- The memory after storing the `n` low bytes of a number from address `p` on. -/
def writeNumber (mem : ℕ → UInt8) (p n x : ℕ) : ℕ → UInt8 :=
  fillRun mem p (fun i ↦ UInt8.ofNat (x / 256 ^ i)) n

theorem littleEndian_writeNumber (mem : ℕ → UInt8) (p n x : ℕ) :
    littleEndian (writeNumber mem p n x) n p = x % 256 ^ n := by
  have hdigits : littleEndian (writeNumber mem p n x) n p = x / 256 ^ 0 % 256 ^ n := by
    refine littleEndian_digits fun i hi ↦ ?_
    rw [writeNumber, fillRun_of_mem hi, Nat.zero_add]
  rw [hdigits, Nat.pow_zero, Nat.div_one]

theorem writeNumber_of_not_mem {p q n x : ℕ} (h : q < p ∨ p + n ≤ q) :
    writeNumber mem p n x q = mem q := fillRun_of_not_mem h

theorem littleEndian_writeNumber_of_disjoint {p q n k x : ℕ} (h : q + k ≤ p ∨ p + n ≤ q) :
    littleEndian (writeNumber mem p n x) k q = littleEndian mem k q :=
  littleEndian_congr fun i hi ↦ writeNumber_of_not_mem (by omega)

/-- Storing the low half of a word that is zero. -/
theorem read64_writeNumber_of_zero {p x : ℕ} (hzero : read64 mem p = 0) (hx : x < 2 ^ 32) :
    read64 (writeNumber mem p 4 x) p = UInt64.ofNat x := by
  have hlt : littleEndian mem 8 p < 2 ^ 64 := littleEndian_lt mem 8 p
  have hword : littleEndian mem 8 p = 0 := by
    have hnum := congrArg UInt64.toNat hzero
    rwa [read64, UInt64.toNat_ofNat_of_lt' hlt] at hnum
  have hhigh : littleEndian mem 4 (p + 4) = 0 := by
    rw [littleEndian_add mem 4 4 p] at hword
    omega
  have hlow : littleEndian (writeNumber mem p 4 x) 4 p = x :=
    (littleEndian_writeNumber mem p 4 x).trans (Nat.mod_eq_of_lt hx)
  have hkept : littleEndian (writeNumber mem p 4 x) 4 (p + 4) = 0 :=
    (littleEndian_writeNumber_of_disjoint (Or.inr (Nat.le_refl _))).trans hhigh
  rw [read64, littleEndian_add _ 4 4 p, hlow, hkept, Nat.mul_zero, Nat.add_zero]

/-- The memory after storing a list of bytes from address `p` on. -/
def writeBytes (mem : ℕ → UInt8) (p : ℕ) (bytes : List UInt8) : ℕ → UInt8 :=
  fillRun mem p (bytes.getD · 0) bytes.length

theorem writeBytes_append (mem : ℕ → UInt8) (p : ℕ) (l l' : List UInt8) :
    writeBytes mem p (l ++ l') = writeBytes (writeBytes mem p l) (p + l.length) l' := by
  have hfirst : fillRun mem p (l.getD · 0) l.length =
      fillRun mem p ((l ++ l').getD · 0) l.length :=
    fillRun_congr fun i hi ↦ (List.getD_append l l' 0 i hi).symm
  rw [writeBytes, writeBytes, writeBytes, hfirst, List.length_append, fillRun_append]
  intro i _
  rw [List.getD_append_right _ _ _ _ (Nat.le_add_right _ i), Nat.add_sub_cancel_left]

/-- The `n` low bytes of a number, the lowest first. -/
def numberBytes (n x : ℕ) : List UInt8 := (List.range n).map fun i ↦ UInt8.ofNat (x / 256 ^ i)

@[simp] theorem length_numberBytes (n x : ℕ) : (numberBytes n x).length = n := by
  rw [numberBytes, List.length_map, List.length_range]

theorem writeBytes_numberBytes (mem : ℕ → UInt8) (p n x : ℕ) :
    writeBytes mem p (numberBytes n x) = writeNumber mem p n x := by
  rw [writeBytes, writeNumber, length_numberBytes]
  refine fillRun_congr fun i hi ↦ ?_
  rw [List.getD_eq_getElem _ _ (by rw [length_numberBytes]; exact hi)]
  simp [numberBytes]

end ByteMemory
