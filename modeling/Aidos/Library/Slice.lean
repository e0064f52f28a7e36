import Mathlib.Algebra.Order.Ring.Nat
import Mathlib.Data.List.Basic

/-!
# Slices of a stream

A stream is a function from positions to values: the contents of a buffer, of a disk, of a file.
`slice f p n` lists the `n` values from position `p` on. Reading a stream piecewise is reading it at
once (`slice_append`), and a slice only depends on the positions it covers (`slice_congr`); these
two facts are what a sequential reader is verified with.
-/

/-- The `len` values of the stream `f` from position `start`, in order. -/
def slice {α : Type*} (f : ℕ → α) (start len : ℕ) : List α :=
  (List.range len).map fun i ↦ f (start + i)

section Slice

variable {α : Type*} {f g : ℕ → α}

@[simp] theorem length_slice (f : ℕ → α) (p n : ℕ) : (slice f p n).length = n := by
  simp [slice]

@[simp] theorem slice_zero (f : ℕ → α) (p : ℕ) : slice f p 0 = [] := rfl

theorem getElem?_slice {p n i : ℕ} (h : i < n) : (slice f p n)[i]? = some (f (p + i)) := by
  simp [slice, h]

/-- Two reads in sequence are one read. -/
theorem slice_append (f : ℕ → α) (p m n : ℕ) :
    slice f p (m + n) = slice f p m ++ slice f (p + m) n := by
  rw [slice, List.range_add, List.map_append, List.map_map]
  simp [slice, Function.comp_def, Nat.add_assoc]

/-- A slice depends only on the positions it covers. -/
theorem slice_congr {p q n : ℕ} (h : ∀ i < n, f (p + i) = g (q + i)) :
    slice f p n = slice g q n :=
  List.map_congr_left fun i hi ↦ h i (List.mem_range.1 hi)

/-- A part of a slice from the start. -/
theorem take_drop_slice (f : ℕ → α) {p size : ℕ} (hp : p ≤ size) (n : ℕ) :
    ((slice f 0 size).drop p).take n = slice f p (min n (size - p)) := by
  have hsplit : slice f 0 size = slice f 0 p ++ slice f p (size - p) := by
    have happend := slice_append f 0 p (size - p)
    rwa [Nat.zero_add, Nat.add_sub_cancel' hp] at happend
  rw [hsplit, List.drop_left' (length_slice f 0 p), slice, slice, ← List.map_take, List.take_range]

end Slice
