import Mathlib.Data.Set.Insert
import Aidos.Library.TableTree

/-!
# Trees in tables of their own

A tree is `Spread` over a set of tables when the subtrees below the entries of a table are in
disjoint parts of the set, none of which holds the table itself. Then no table is reached by two
paths (`Spread.separated`). A tree is put together entry by entry: `Parts` is what is known of a
table when the subtrees below some of its entries are spread out, in whatever order that was done.
-/

namespace TreeFormat

variable {T I E : Type*} (F : TreeFormat T E) (Good : E → Prop) (mem : T → I → E)

/-- The tree under the table `t` of depth `d` is spread over `A`, and the entries that point to its
tables are good. -/
inductive Spread : ℕ → Set T → T → Prop
  /-- The table is in `A`, and the trees below its entries are in parts of the rest. -/
  | mk {d : ℕ} {A : Set T} {t : T} (B : I → Set T) : t ∈ A → (∀ i, B i ⊆ A) → (∀ i, t ∉ B i) →
      (∀ i j s, s ∈ B i → s ∈ B j → i = j) →
      (∀ i s, F.child d (mem t i) = some s → Good (mem t i)) →
      (∀ i s, F.child d (mem t i) = some s → Spread (d + 1) (B i) s) → Spread d A t

/-- The trees below those entries of the table `t` of depth `d` that are in `S` are spread over
disjoint parts of `A`. -/
def Parts (d : ℕ) (A : Set T) (t : T) (S : Set I) : Prop :=
  ∃ B : I → Set T, (∀ i, B i ⊆ A) ∧ (∀ i j s, s ∈ B i → s ∈ B j → i = j) ∧
    ∀ i ∈ S, ∀ s, F.child d (mem t i) = some s →
      Good (mem t i) ∧ F.Spread Good mem (d + 1) (B i) s

variable {F Good mem} {mem' : T → I → E} {d : ℕ} {A A' : Set T} {t : T} {S S' : Set I}

/-! ### What it is for -/

/-- The tables of the tree are in the set. -/
theorem Spread.mem_of_tableAt (h : F.Spread Good mem d A t) {p : List I} {u : T}
    (hu : F.tableAt mem d t p = some u) : u ∈ A := by
  induction h generalizing p with
  | @mk d A t B ht hB hout hdisjoint hgood hbelow ih =>
    cases p with
    | nil => exact Option.some.inj hu ▸ ht
    | cons i p =>
      obtain ⟨s, hs, hrest⟩ := Option.bind_eq_some_iff.1 hu
      exact hB i (ih i s hs hrest)

/-- Different paths lead to different tables. -/
theorem Spread.path_unique (h : F.Spread Good mem d A t) {p q : List I} {u : T}
    (hp : F.tableAt mem d t p = some u) (hq : F.tableAt mem d t q = some u) : p = q := by
  induction h generalizing p q with
  | @mk d A t B ht hB hout hdisjoint hgood hbelow ih =>
    -- a table below an entry is in the part of that entry
    have hpart : ∀ {i : I} {r : List I} {u : T}, F.tableAt mem d t (i :: r) = some u → u ∈ B i := by
      intro i r u hu
      obtain ⟨s, hs, hrest⟩ := Option.bind_eq_some_iff.1 hu
      exact (hbelow i s hs).mem_of_tableAt hrest
    cases p with
    | nil =>
      obtain rfl := Option.some.inj hp
      cases q with
      | nil => rfl
      | cons j q => exact absurd (hpart hq) (hout j)
    | cons i p =>
      cases q with
      | nil =>
        obtain rfl := Option.some.inj hq
        exact absurd (hpart hp) (hout i)
      | cons j q =>
        obtain rfl := hdisjoint i j u (hpart hp) (hpart hq)
        obtain ⟨s, hs, hp'⟩ := Option.bind_eq_some_iff.1 hp
        obtain ⟨s', hs', hq'⟩ := Option.bind_eq_some_iff.1 hq
        obtain rfl := Option.some.inj (hs.symm.trans hs')
        rw [ih i s hs hp' hq']

/-- **A tree that is spread out is separated.** -/
theorem Spread.separated (h : F.Spread Good mem 0 A t) : F.Separated mem t :=
  fun _ _ _ hp hq ↦ h.path_unique hp hq

/-- The entries that point to tables are good. -/
theorem Spread.good (h : F.Spread Good mem d A t) {p : List I} {u s : T} {i : I}
    (hu : F.tableAt mem d t p = some u) (hs : F.child (d + p.length) (mem u i) = some s) :
    Good (mem u i) := by
  induction h generalizing p with
  | @mk d A t B ht hB hout hdisjoint hgood hbelow ih =>
    cases p with
    | nil =>
      obtain rfl := Option.some.inj hu
      exact hgood i s hs
    | cons j p =>
      obtain ⟨t', ht', hrest⟩ := Option.bind_eq_some_iff.1 hu
      rw [List.length_cons, ← Nat.add_assoc, Nat.add_right_comm] at hs
      exact ih j t' ht' hrest hs

/-! ### How it comes about -/

/-- A tree stays spread out as long as its tables are not changed. -/
theorem Spread.congr (h : F.Spread Good mem d A t) (hA : A ⊆ A')
    (hmem : ∀ s ∈ A, ∀ i, mem' s i = mem s i) : F.Spread Good mem' d A' t := by
  induction h generalizing A' with
  | @mk d A t B ht hB hout hdisjoint hgood hbelow ih =>
    refine .mk B (hA ht) (fun i ↦ (hB i).trans hA) hout hdisjoint (fun i s hs ↦ ?_) fun i s hs ↦ ?_
    · rw [hmem t ht i] at hs ⊢
      exact hgood i s hs
    · rw [hmem t ht i] at hs
      exact ih i s hs subset_rfl fun s' hs' ↦ hmem s' (hB i hs')

/-- Entries that point to no tables. -/
theorem Parts.of_none (h : ∀ i ∈ S, F.child d (mem t i) = none) : F.Parts Good mem d A t S :=
  ⟨fun _ ↦ ∅, fun _ ↦ Set.empty_subset A, fun _ _ _ hs ↦ absurd hs (Set.notMem_empty _),
    fun i hi s hs ↦ absurd ((h i hi).symm.trans hs) (by simp)⟩

/-- Fewer entries. -/
theorem Parts.mono (h : F.Parts Good mem d A t S) (hS : S' ⊆ S) : F.Parts Good mem d A t S' := by
  obtain ⟨B, hB, hdis, hbelow⟩ := h
  exact ⟨B, hB, hdis, fun i hi ↦ hbelow i (hS hi)⟩

/-- One entry, with its tree. -/
theorem Parts.single [DecidableEq I] {i : I} {s : T} (hs : F.child d (mem t i) = some s)
    (hgood : Good (mem t i)) (h : F.Spread Good mem (d + 1) A s) :
    F.Parts Good mem d A t {i} := by
  refine ⟨fun j ↦ if j = i then A else ∅, fun j ↦ ?_, fun j j' u hj hj' ↦ ?_, fun j hj u hu ↦ ?_⟩
  · dsimp only
    split
    · exact subset_rfl
    · exact Set.empty_subset A
  · have hmem : ∀ {k : I}, u ∈ (if k = i then A else ∅ : Set T) → k = i := by
      intro k hk
      by_contra hne
      rw [if_neg hne] at hk
      exact hk
    exact (hmem hj).trans (hmem hj').symm
  · obtain rfl := Set.mem_singleton_iff.1 hj
    obtain rfl := Option.some.inj (hs.symm.trans hu)
    dsimp only
    rw [if_pos rfl]
    exact ⟨hgood, h⟩

/-- More entries, with trees in tables that the others do not have. -/
theorem Parts.union (h : F.Parts Good mem d A t S) (h' : F.Parts Good mem' d A' t S')
    (hdisjoint : ∀ s ∈ A, s ∉ A') (hkept : ∀ s ∈ A, ∀ i, mem' s i = mem s i)
    (hsame : ∀ i ∈ S, mem' t i = mem t i) {A'' : Set T} (hA : A ⊆ A'') (hA' : A' ⊆ A'') :
    F.Parts Good mem' d A'' t (S ∪ S') := by
  classical
  obtain ⟨B, hB, hdis, hbelow⟩ := h
  obtain ⟨B', hB', hdis', hbelow'⟩ := h'
  refine ⟨fun i ↦ if i ∈ S then B i else B' i, fun i ↦ ?_, fun i j s hi hj ↦ ?_,
    fun i hi s hs ↦ ?_⟩
  · dsimp only
    split
    · exact (hB i).trans hA
    · exact (hB' i).trans hA'
  · dsimp only at hi hj
    split at hi <;> split at hj
    · exact hdis i j s hi hj
    · exact absurd (hB' j hj) (hdisjoint s (hB i hi))
    · exact absurd (hB' i hi) (hdisjoint s (hB j hj))
    · exact hdis' i j s hi hj
  · dsimp only
    split
    · next hiS =>
      rw [hsame i hiS] at hs ⊢
      obtain ⟨hgood, hspread⟩ := hbelow i hiS s hs
      exact ⟨hgood, hspread.congr subset_rfl fun u hu ↦ hkept u (hB i hu)⟩
    · next hiS => exact hbelow' i (hi.resolve_left hiS) s hs

/-- The whole table. -/
theorem Parts.spread (h : F.Parts Good mem d A t Set.univ) (ht : t ∉ A) (hA : A ⊆ A')
    (ht' : t ∈ A') : F.Spread Good mem d A' t := by
  obtain ⟨B, hB, hdis, hbelow⟩ := h
  exact .mk B ht' (fun i ↦ (hB i).trans hA) (fun i hi ↦ ht (hB i hi)) hdis
    (fun i s hs ↦ (hbelow i (Set.mem_univ i) s hs).1) fun i s hs ↦
    (hbelow i (Set.mem_univ i) s hs).2

end TreeFormat
