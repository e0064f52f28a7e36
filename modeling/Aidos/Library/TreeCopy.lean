import Mathlib.Data.List.Forall2
import Mathlib.Data.Set.Insert
import Aidos.Library.TableTree

/-!
# Copies of trees of tables

A copy of a tree in a second store: entries that point to a table point to a copy of that table, and
agree with the original in whatever `Agree` says (their flags, for instance); all other entries are
the same. `Copied n d e e'` says this of two entries in tables of depth `d`, `n` levels down; the
copied tables are all in a given set, which may be shared with other copies, and nothing is said
about how the original shares its tables.

A path meets the same leaf in a tree and in its copy, and entries that agree (`Copied.look_cons`,
`Copied.walk_cons`).
-/

namespace TreeFormat

variable {T I E : Type*} (F : TreeFormat T E) (Agree : E → E → Prop)
    (mem₀ mem : T → I → E) (A : Set T)

/-- The entry `e'` of a table of depth `d` is a copy, `n` levels down, of the entry `e`; the tables
of the copy are in `A`. -/
def Copied : ℕ → ℕ → E → E → Prop
  | 0, _, e, e' => e' = e
  | n + 1, d, e, e' =>
    (F.child d e = none ∧ e' = e) ∨
      ∃ t s, F.child d e = some t ∧ F.child d e' = some s ∧ s ∈ A ∧ Agree e e' ∧
        ∀ i, Copied n (d + 1) (mem₀ t i) (mem s i)

variable {F Agree mem₀ mem A} {mem' : T → I → E} {A' : Set T}

/-- A copy stays one as long as its tables are not changed. -/
theorem Copied.congr {n d : ℕ} {e e' : E} (h : F.Copied Agree mem₀ mem A n d e e') (hA : A ⊆ A')
    (hmem : ∀ t ∈ A, ∀ i, mem' t i = mem t i) : F.Copied Agree mem₀ mem' A' n d e e' := by
  induction n generalizing d e e' with
  | zero => exact h
  | succ n ih =>
    rcases h with hsame | ⟨t, s, ht, hs, hin, hagree, hbelow⟩
    · exact Or.inl hsame
    · refine Or.inr ⟨t, s, ht, hs, hA hin, hagree, fun i ↦ ?_⟩
      rw [hmem s hin i]
      exact ih (hbelow i)

section Paths

variable {bottom : ℕ} (hbottom : ∀ e, F.child bottom e = none)
include hbottom

/-- Below a copied entry a path meets the same leaf as below the original. -/
theorem Copied.look_cons {n d : ℕ} {t s : T} {i : I} (hd : d + n = bottom)
    (h : F.Copied Agree mem₀ mem A n d (mem₀ t i) (mem s i)) (p : List I) :
    F.look mem d s (i :: p) = F.look mem₀ d t (i :: p) := by
  induction n generalizing d t s i p with
  | zero =>
    have hsame : mem s i = mem₀ t i := h
    obtain rfl : d = bottom := hd
    rw [look_cons_of_none p (hbottom _), look_cons_of_none p (hbottom _), hsame]
  | succ n ih =>
    rcases h with ⟨hnone, hsame⟩ | ⟨t', s', ht, hs, -, -, hbelow⟩
    · have hnone' : F.child d (mem s i) = none := hsame ▸ hnone
      rw [look_cons_of_none p hnone', look_cons_of_none p hnone, hsame]
    · rw [look_cons_of_child p hs, look_cons_of_child p ht]
      cases p with
      | nil => rfl
      | cons j p => exact ih (by omega) (hbelow j) p

/-- Below a copied entry a path of full length meets entries that agree with the original ones, and
the same entry at its end. -/
theorem Copied.walk_cons {n d : ℕ} {t s : T} {i : I} (hd : d + n = bottom)
    (h : F.Copied Agree mem₀ mem A n d (mem₀ t i) (mem s i)) {p : List I} (hp : p.length = n) :
    ∃ before before' last, F.walk mem₀ d t (i :: p) = before ++ [last] ∧
      F.walk mem d s (i :: p) = before' ++ [last] ∧ List.Forall₂ Agree before before' := by
  induction n generalizing d t s i p with
  | zero =>
    have hsame : mem s i = mem₀ t i := h
    obtain rfl : d = bottom := hd
    refine ⟨[], [], mem₀ t i, ?_, ?_, List.Forall₂.nil⟩
    · rw [walk, hbottom]
      rfl
    · rw [walk, hbottom, hsame]
      rfl
  | succ n ih =>
    rcases h with ⟨hnone, hsame⟩ | ⟨t', s', ht, hs, -, hagree, hbelow⟩
    · refine ⟨[], [], mem₀ t i, ?_, ?_, List.Forall₂.nil⟩
      · rw [walk, hnone]
        rfl
      · rw [walk, hsame, hnone]
        rfl
    · obtain ⟨j, p, rfl⟩ := List.exists_cons_of_length_eq_add_one hp
      obtain ⟨before, before', last, h₁, h₂, hall⟩ := ih (by omega) (hbelow j) (Nat.succ.inj hp)
      refine ⟨mem₀ t i :: before, mem s i :: before', last, ?_, ?_, List.Forall₂.cons hagree hall⟩
      · rw [walk, ht, List.cons_append, ← h₁]
      · rw [walk, hs, List.cons_append, ← h₂]

/-- The tables below a copied entry are tables of the copy. -/
theorem Copied.mem_of_tableAt {n d : ℕ} {s u : T} {e : E} {i : I} (hd : d + n = bottom)
    (h : F.Copied Agree mem₀ mem A n d e (mem s i)) {p : List I}
    (hu : F.tableAt mem d s (i :: p) = some u) : u ∈ A := by
  obtain ⟨s', hs', hrest⟩ := Option.bind_eq_some_iff.1 hu
  induction n generalizing d s e i p s' with
  | zero =>
    obtain rfl : d = bottom := hd
    exact absurd ((hbottom _).symm.trans hs') (by simp)
  | succ n ih =>
    rcases h with ⟨hnone, hsame⟩ | ⟨t, r, -, hr, hin, -, hbelow⟩
    · rw [hsame, hnone] at hs'
      exact absurd hs' (by simp)
    · obtain rfl := Option.some.inj (hr.symm.trans hs')
      cases p with
      | nil => exact Option.some.inj hrest ▸ hin
      | cons j p =>
        obtain ⟨r', hr', hrest'⟩ := Option.bind_eq_some_iff.1 hrest
        exact ih (by omega) (hbelow j) hrest r' hr' hrest'

end Paths

end TreeFormat
