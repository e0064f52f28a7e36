import Mathlib.Data.Finset.Card

/-!
# Deterministic sequences

A sequence of states is deterministic when equal states have equal successors. If such a sequence
ever leaves a finite set, it does so before it has been through all of it: the states in front of
the first exit are distinct (`injOn_of_firstExit`), so there are no more of them than the set has
elements.
-/

section Orbit

variable {α : Type*} {f : ℕ → α} {P : α → Prop} {K : ℕ}

/-- Equal states have equal successors. -/
def Deterministic (f : ℕ → α) : Prop := ∀ i j, f i = f j → f (i + 1) = f (j + 1)

theorem Deterministic.add (h : Deterministic f) {i j : ℕ} (hij : f i = f j) (n : ℕ) :
    f (i + n) = f (j + n) := by
  induction n with
  | zero => exact hij
  | succ n ih => exact h _ _ ih

/-- The states in front of the first one with the property `P` are distinct. -/
theorem Deterministic.injOn_of_firstExit (h : Deterministic f) (hK : P (f K))
    (hbefore : ∀ k < K, ¬ P (f k)) : Set.InjOn f (Set.Iio K) := by
  -- of two equal states, the first would reach `P` as soon as the second does
  have hlt {i j : ℕ} (hij : i < j) (hj : j < K) : f i ≠ f j := by
    intro heq
    have hreach := h.add heq (K - j)
    rw [Nat.add_sub_cancel' (Nat.le_of_lt hj)] at hreach
    exact hbefore (i + (K - j)) (by omega) (hreach ▸ hK)
  intro i hi j hj heq
  rcases Nat.lt_trichotomy i j with h' | h' | h'
  · exact absurd heq (hlt h' hj)
  · exact h'
  · exact absurd heq.symm (hlt h' hi)

/-- **The first exit from a finite set** comes no later than its size. -/
theorem Deterministic.firstExit_le_card (h : Deterministic f) {S : Finset α} (hK : P (f K))
    (hbefore : ∀ k < K, ¬ P (f k)) (hmem : ∀ k < K, f k ∈ S) : K ≤ S.card := by
  have hcard := Finset.card_le_card_of_injOn (s := Finset.range K) f
    (fun k hk ↦ hmem k (Finset.mem_range.1 hk))
    (fun i hi j hj heq ↦ h.injOn_of_firstExit hK hbefore (Finset.mem_range.1 hi)
      (Finset.mem_range.1 hj) heq)
  rwa [Finset.card_range] at hcard

end Orbit
