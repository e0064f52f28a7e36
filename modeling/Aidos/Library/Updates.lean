import Mathlib.Data.List.Basic

/-!
# Histories of partial updates

A function changed by a history of updates, each of which assigns new values to some arguments and
leaves the others alone: an argument has the value that the latest update covering it assigned, and
the original value if none covers it.
-/

section Updates

variable {C A B : Type*}

/-- The value after a history, oldest update first: the latest update that assigns one decides. -/
def latest (assign : C → A → Option B) (history : List C) (f : A → B) (a : A) : B :=
  (history.reverse.findSome? fun c ↦ assign c a).getD (f a)

variable (assign : C → A → Option B) (f : A → B) (a : A)

/-- One more update. -/
theorem latest_snoc (history : List C) (c : C) :
    latest assign (history ++ [c]) f a = (assign c a).getD (latest assign history f a) := by
  rw [latest, List.reverse_append, List.reverse_singleton, List.singleton_append,
    List.findSome?_cons]
  cases assign c a <;> rfl

variable {assign f a}

/-- An argument that no update covers keeps its value. -/
theorem latest_of_not_covered {history : List C} (h : ∀ c ∈ history, assign c a = none) :
    latest assign history f a = f a := by
  have hnone : (history.reverse.findSome? fun c ↦ assign c a) = none :=
    List.findSome?_eq_none_iff.2 fun c hc ↦ h c (List.mem_reverse.1 hc)
  rw [latest, hnone, Option.getD_none]

/-- When all updates that cover an argument agree, it has the value they assign. -/
theorem latest_of_agree {history : List C} {c : C} {b : B} (hc : c ∈ history)
    (hb : assign c a = some b)
    (hagree : ∀ c' ∈ history, ∀ b', assign c' a = some b' → b' = b) :
    latest assign history f a = b := by
  rw [latest]
  cases hfind : history.reverse.findSome? fun c ↦ assign c a with
  | none =>
    have hnone := List.findSome?_eq_none_iff.1 hfind c (List.mem_reverse.2 hc)
    rw [hb] at hnone
    exact absurd hnone (by simp)
  | some b' =>
    obtain ⟨c', hc', hb'⟩ := List.exists_of_findSome?_eq_some hfind
    rw [Option.getD_some]
    exact hagree c' (List.mem_reverse.1 hc') b' hb'

/-- The value after a history is the original one or one that an update assigned. -/
theorem latest_cases (assign : C → A → Option B) (history : List C) (f : A → B) (a : A) :
    latest assign history f a = f a ∨ ∃ c ∈ history, assign c a =
      some (latest assign history f a) := by
  rw [latest]
  cases hfind : history.reverse.findSome? fun c ↦ assign c a with
  | none => exact Or.inl rfl
  | some b =>
    obtain ⟨c, hc, hb⟩ := List.exists_of_findSome?_eq_some hfind
    exact Or.inr ⟨c, List.mem_reverse.1 hc, hb⟩

end Updates
