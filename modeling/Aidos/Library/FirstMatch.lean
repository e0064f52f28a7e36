import Mathlib.Data.List.Basic
import Mathlib.Data.List.Infix
import Mathlib.Data.Nat.Notation
import Mathlib.Tactic.Common

/-!
# The first match of a scan

A scan that is given more and more steps sees longer and longer prefixes of the same list. `First`
is its first element to pass a test, however many steps it takes to get there. Two tests pick the
same first elements exactly when they agree on the first element that passes either of them
(`first_iff_first_iff`).
-/

namespace Aidos.FirstMatch

variable {α : Type*} {L : ℕ → List α} {p q : α → Bool} {l : List α} {e : α}

theorem find?_of_find?_or (h : l.find? (fun a ↦ p a || q a) = some e) (hp : p e = true) :
    l.find? p = some e := by
  obtain ⟨-, before, after, hl, hbefore⟩ := List.find?_eq_some_iff_append.1 h
  refine List.find?_eq_some_iff_append.2 ⟨hp, before, after, hl, fun a ha ↦ ?_⟩
  have hnot := hbefore a ha
  simp only [Bool.not_or, Bool.and_eq_true] at hnot
  exact hnot.1

theorem exists_find?_or (h : l.find? p = some e) :
    ∃ e', l.find? (fun a ↦ p a || q a) = some e' := by
  refine Option.isSome_iff_exists.1 (List.find?_isSome.2 ⟨e, List.mem_of_find?_eq_some h, ?_⟩)
  rw [List.find?_some h, Bool.true_or]

/-- `e` is the first element of the growing lists that passes the test. -/
def First (L : ℕ → List α) (p : α → Bool) (e : α) : Prop := ∃ n, (L n).find? p = some e

theorem First.test (h : First L p e) : p e = true := by
  obtain ⟨n, hn⟩ := h
  exact List.find?_some hn

/-- Once a list has all the others for prefixes, it holds what there is to find. -/
theorem First.find?_eq {n : ℕ} (h : First L p e) (hlast : ∀ m, L m <+: L n) :
    (L n).find? p = some e := by
  obtain ⟨m, hm⟩ := h
  exact (hlast m).find?_eq_some hm

/-- There is one first match at most. -/
theorem First.unique (hL : ∀ {m n}, m ≤ n → L m <+: L n) {e' : α} (h : First L p e)
    (h' : First L p e') : e = e' := by
  obtain ⟨m, hm⟩ := h
  obtain ⟨n, hn⟩ := h'
  have hm' := (hL (Nat.le_max_left m n)).find?_eq_some hm
  have hn' := (hL (Nat.le_max_right m n)).find?_eq_some hn
  exact Option.some.inj (hm'.symm.trans hn')

theorem First.of_or (h : First L (fun a ↦ p a || q a) e) (hp : p e = true) : First L p e := by
  obtain ⟨n, hn⟩ := h
  exact ⟨n, find?_of_find?_or hn hp⟩

theorem First.or_comm (h : First L (fun a ↦ p a || q a) e) : First L (fun a ↦ q a || p a) e := by
  simpa only [Bool.or_comm] using h

/-- A first match is the first match of either test, when this one passes the other test too. -/
theorem First.trans_or (hL : ∀ {m n}, m ≤ n → L m <+: L n)
    (hagree : ∀ e, First L (fun a ↦ p a || q a) e → p e = true ∧ q e = true) (h : First L p e) :
    First L q e := by
  obtain ⟨n, hn⟩ := h
  obtain ⟨e', he'⟩ := exists_find?_or (q := q) hn
  have hboth := hagree e' ⟨n, he'⟩
  have hfirst : First L p e' := First.of_or ⟨n, he'⟩ hboth.1
  rw [First.unique hL ⟨n, hn⟩ hfirst]
  exact First.of_or (First.or_comm ⟨n, he'⟩) hboth.2

/-- **Two tests pick the same first elements** exactly when they agree on the first element that
passes either. -/
theorem first_iff_first_iff (hL : ∀ {m n}, m ≤ n → L m <+: L n) :
    (∀ e, First L p e ↔ First L q e) ↔
      ∀ e, First L (fun a ↦ p a || q a) e → p e = true ∧ q e = true := by
  constructor
  · intro h e he
    have heither := he.test
    rw [Bool.or_eq_true] at heither
    rcases heither with hp | hq
    · exact ⟨hp, ((h e).1 (he.of_or hp)).test⟩
    · exact ⟨((h e).2 (he.or_comm.of_or hq)).test, hq⟩
  · intro h e
    exact ⟨First.trans_or hL h, First.trans_or hL fun e' he' ↦ (h e' he'.or_comm).symm⟩

end Aidos.FirstMatch
