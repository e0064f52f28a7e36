import Mathlib.Data.List.Basic
import Mathlib.Data.List.Infix

/-!
# Trees of tables

A radix tree kept in a store: every table `t` holds one entry `mem t i` for each index `i`, and an
entry either points to a table one level down, or is a leaf, or is neither. Where entries point is
said by a `TreeFormat`, which may depend on the depth of the table the entry stands in, so that a
leaf may end a path early. Nothing prevents tables from being shared, or from being reached again
from below.

`look` follows a path of indices to the leaf on it, `tableAt` to the table it leads to, and `walk`
lists the entries met. A tree is `Separated` when no table is reached by two paths. Then a change of
one entry is a change of the paths through that entry and of no others (`EditsAt`), which is all
that is needed to hang a fresh table into a tree (`EditsAt.separated_link`) or to replace
a leaf (`EditsAt.separated_prune`).
-/

/-- How entries are read: the table an entry in a table of depth `d` points to, and whether it is a
leaf there. -/
structure TreeFormat (T E : Type*) where
  /-- The table an entry points to. -/
  child : ℕ → E → Option T
  /-- Whether an entry is a leaf. -/
  leaf : ℕ → E → Bool
  /-- An entry that points to a table is not a leaf. -/
  leaf_of_child : ∀ {d e t}, child d e = some t → leaf d e = false

namespace TreeFormat

variable {T I E : Type*} (F : TreeFormat T E) (mem : T → I → E)

/-- The table a path leads to from table `t`, which stands at depth `d`. -/
def tableAt : ℕ → T → List I → Option T
  | _, t, [] => some t
  | d, t, i :: p => (F.child d (mem t i)).bind fun t' ↦ tableAt (d + 1) t' p

/-- The leaf on a path, with its depth. -/
def look : ℕ → T → List I → Option (ℕ × E)
  | _, _, [] => none
  | d, t, i :: p =>
    match F.child d (mem t i) with
    | some t' => look (d + 1) t' p
    | none => if F.leaf d (mem t i) then some (d, mem t i) else none

/-- The entries met on a path, until one does not point to a table. -/
def walk : ℕ → T → List I → List E
  | _, _, [] => []
  | d, t, i :: p =>
    mem t i ::
      match F.child d (mem t i) with
      | some t' => walk (d + 1) t' p
      | none => []

/-- A table of the tree under `root`. -/
def Reached (root t : T) : Prop := ∃ p, F.tableAt mem 0 root p = some t

/-- No table is reached by two paths. -/
def Separated (root : T) : Prop :=
  ∀ p q t, F.tableAt mem 0 root p = some t → F.tableAt mem 0 root q = some t → p = q

variable {F mem} {mem' : T → I → E} {root : T}

theorem tableAt_append {d : ℕ} {t : T} (p q : List I) :
    F.tableAt mem d t (p ++ q) =
      (F.tableAt mem d t p).bind fun t' ↦ F.tableAt mem (d + p.length) t' q := by
  induction p generalizing d t with
  | nil => rfl
  | cons i p ih =>
    rw [List.cons_append, tableAt, tableAt]
    cases F.child d (mem t i) with
    | none => rfl
    | some t' =>
      rw [Option.bind_some, Option.bind_some, ih, List.length_cons, Nat.add_assoc, Nat.add_comm 1]

theorem tableAt_snoc {d : ℕ} {t : T} (p : List I) (i : I) :
    F.tableAt mem d t (p ++ [i]) =
      (F.tableAt mem d t p).bind fun t' ↦ F.child (d + p.length) (mem t' i) := by
  rw [tableAt_append]
  refine Option.bind_congr fun t' _ ↦ ?_
  rw [tableAt]
  cases F.child (d + p.length) (mem t' i) <;> rfl

theorem look_append {d : ℕ} {t t' : T} {p : List I} (q : List I)
    (h : F.tableAt mem d t p = some t') :
    F.look mem d t (p ++ q) = F.look mem (d + p.length) t' q := by
  induction p generalizing d t with
  | nil =>
    obtain rfl := Option.some.inj h
    rfl
  | cons i p ih =>
    obtain ⟨s, hs, hrest⟩ := Option.bind_eq_some_iff.1 h
    rw [List.cons_append, look, hs, List.length_cons, Nat.add_comm p.length, ← Nat.add_assoc]
    exact ih hrest

theorem look_cons_of_child {d : ℕ} {t t' : T} {i : I} (p : List I)
    (h : F.child d (mem t i) = some t') :
    F.look mem d t (i :: p) = F.look mem (d + 1) t' p := by
  rw [look, h]

theorem look_cons_of_none {d : ℕ} {t : T} {i : I} (p : List I) (h : F.child d (mem t i) = none) :
    F.look mem d t (i :: p) = if F.leaf d (mem t i) then some (d, mem t i) else none := by
  rw [look, h]

/-- Every prefix of a path to a table leads to a table. -/
theorem reached_of_child {p : List I} {i : I} {t t' : T} (h : F.tableAt mem 0 root p = some t)
    (hc : F.child p.length (mem t i) = some t') : F.tableAt mem 0 root (p ++ [i]) = some t' := by
  rw [tableAt_snoc, h, Option.bind_some, Nat.zero_add, hc]

/-- What holds of the root and is handed down from table to table holds of every table. -/
theorem tableAt_induction {P : List I → T → Prop} (hroot : P [] root)
    (hstep : ∀ p t i t', P p t → F.child p.length (mem t i) = some t' → P (p ++ [i]) t')
    {p : List I}
    {t : T} (h : F.tableAt mem 0 root p = some t) : P p t := by
  induction p using List.reverseRecOn generalizing t with
  | nil =>
    obtain rfl := Option.some.inj h
    exact hroot
  | append_singleton p i ih =>
    rw [tableAt_snoc, Nat.zero_add] at h
    obtain ⟨s, hs, hc⟩ := Option.bind_eq_some_iff.1 h
    exact hstep p s i t (ih hs) hc

/-- A list of tables with their paths that holds the root and is closed under following entries
holds every table. -/
theorem mem_of_closed {L : List (List I × T)} (hroot : ([], root) ∈ L)
    (hclosed : ∀ a ∈ L, ∀ i, ∀ s ∈ F.child a.1.length (mem a.2 i), (a.1 ++ [i], s) ∈ L) {p : List I}
    {t : T} (h : F.tableAt mem 0 root p = some t) : (p, t) ∈ L :=
  tableAt_induction (P := fun p t ↦ (p, t) ∈ L) hroot (fun _ _ i s ht hs ↦ hclosed _ ht i s hs) h

/-- Before its leaf, a path goes on to the next table. -/
theorem child_of_look {d : ℕ} {t : T} {i : I} {p : List I} {l : ℕ × E}
    (h : F.look mem d t (i :: p) = some l) (hl : l.1 ≠ d) :
    ∃ t', F.child d (mem t i) = some t' ∧ F.look mem (d + 1) t' p = some l := by
  cases hc : F.child d (mem t i) with
  | some t' => exact ⟨t', rfl, (look_cons_of_child p hc).symm.trans h⟩
  | none =>
    rw [look_cons_of_none p hc] at h
    split at h
    · exact absurd (congrArg Prod.fst (Option.some.inj h)).symm hl
    · exact absurd h (by simp)

/-- A leaf is an entry of a table on the path. -/
theorem exists_of_look {p q : List I} {t : T} {l : ℕ × E} (ht : F.tableAt mem 0 root p = some t)
    (h : F.look mem p.length t q = some l) :
    ∃ r s i, F.tableAt mem 0 root r = some s ∧ r ++ [i] <+: p ++ q ∧ l = (r.length, mem s i) ∧
      F.leaf r.length (mem s i) = true := by
  induction q generalizing p t with
  | nil => exact absurd h (by simp [look])
  | cons i q ih =>
    have happ : p ++ i :: q = p ++ [i] ++ q := by simp
    cases hc : F.child p.length (mem t i) with
    | some t' =>
      rw [look_cons_of_child q hc] at h
      have hnext := ih (reached_of_child ht hc)
      rw [List.length_append, List.length_singleton, ← happ] at hnext
      exact hnext h
    | none =>
      rw [look_cons_of_none q hc] at h
      split at h
      · next hleaf =>
        exact ⟨p, t, i, ht, happ ▸ List.prefix_append _ q, (Option.some.inj h).symm, hleaf⟩
      · exact absurd h (by simp)

/-! ### Changes outside the tree -/

/-- The tables below a table only depend on the entries of reached tables. -/
theorem tableAt_congr (h : ∀ t i, F.Reached mem root t → mem' t i = mem t i) (p : List I) :
    F.tableAt mem' 0 root p = F.tableAt mem 0 root p := by
  induction p using List.reverseRecOn with
  | nil => rfl
  | append_singleton p i ih =>
    rw [tableAt_snoc, tableAt_snoc, ih]
    refine Option.bind_congr fun t ht ↦ ?_
    rw [h t i ⟨p, ht⟩]

theorem look_congr_below (h : ∀ t i, F.Reached mem root t → mem' t i = mem t i) {p : List I} {t : T}
    (ht : F.tableAt mem 0 root p = some t) (q : List I) :
    F.look mem' p.length t q = F.look mem p.length t q := by
  induction q generalizing p t with
  | nil => rfl
  | cons i q ih =>
    rw [look, look, h t i ⟨p, ht⟩]
    cases hc : F.child p.length (mem t i) with
    | none => rfl
    | some t' =>
      have hnext := ih (reached_of_child ht hc)
      rw [List.length_append, List.length_singleton] at hnext
      exact hnext

theorem look_congr (h : ∀ t i, F.Reached mem root t → mem' t i = mem t i) (p : List I) :
    F.look mem' 0 root p = F.look mem 0 root p :=
  look_congr_below (p := []) h rfl p

theorem separated_congr (h : ∀ t i, F.Reached mem root t → mem' t i = mem t i)
    (hs : F.Separated mem root) : F.Separated mem' root := by
  intro p q t hp hq
  rw [tableAt_congr h] at hp hq
  exact hs p q t hp hq

/-! ### Changing one entry -/

variable (F mem mem' root)

/-- `mem'` differs from `mem`, on the tables of a separated tree, at most in entry `i₀` of the table
`t₀` that the path `p₀` leads to. -/
structure EditsAt (p₀ : List I) (t₀ : T) (i₀ : I) : Prop where
  /-- The tree is separated before the change. -/
  separated : F.Separated mem root
  /-- The table of the changed entry. -/
  table : F.tableAt mem 0 root p₀ = some t₀
  /-- All other entries are kept. -/
  same : ∀ t i, F.Reached mem root t → (t, i) ≠ (t₀, i₀) → mem' t i = mem t i

variable {F mem mem' root}

namespace EditsAt

variable {p₀ : List I} {t₀ : T} {i₀ : I} (h : F.EditsAt mem mem' root p₀ t₀ i₀)
include h

/-- The entry that a path outside the changed one takes next is kept. -/
theorem same_of_not_prefix {p : List I} {i : I} {t : T} (hp : ¬ p₀ ++ [i₀] <+: p ++ [i])
    (ht : F.tableAt mem 0 root p = some t) : mem' t i = mem t i := by
  refine h.same t i ⟨p, ht⟩ fun heq ↦ hp ?_
  obtain ⟨rfl, rfl⟩ := Prod.mk.inj heq
  rw [h.separated _ _ _ h.table ht]

theorem tableAt_of_not_prefix {q : List I} (hq : ¬ p₀ ++ [i₀] <+: q) :
    F.tableAt mem' 0 root q = F.tableAt mem 0 root q := by
  induction q using List.reverseRecOn with
  | nil => rfl
  | append_singleton q i ih =>
    have hq' : ¬ p₀ ++ [i₀] <+: q := fun hpre ↦ hq (hpre.trans (List.prefix_append q [i]))
    rw [tableAt_snoc, tableAt_snoc, ih hq']
    refine Option.bind_congr fun t ht ↦ ?_
    rw [h.same_of_not_prefix hq ht]

/-- The changed table is still where it was. -/
theorem table' : F.tableAt mem' 0 root p₀ = some t₀ := by
  rw [h.tableAt_of_not_prefix, h.table]
  intro hpre
  have hlen := hpre.length_le
  rw [List.length_append, List.length_singleton] at hlen
  omega

theorem tableAt_below (r : List I) :
    F.tableAt mem' 0 root (p₀ ++ i₀ :: r) =
      (F.child p₀.length (mem' t₀ i₀)).bind fun t ↦ F.tableAt mem' (p₀.length + 1) t r := by
  rw [tableAt_append, h.table', Option.bind_some, Nat.zero_add, tableAt]

theorem look_of_not_prefix_below {p q : List I} {t : T} (hq : ¬ p₀ ++ [i₀] <+: p ++ q)
    (ht : F.tableAt mem 0 root p = some t) :
    F.look mem' p.length t q = F.look mem p.length t q := by
  induction q generalizing p t with
  | nil => rfl
  | cons i q ih =>
    have happ : p ++ i :: q = p ++ [i] ++ q := by simp
    have hpi : ¬ p₀ ++ [i₀] <+: p ++ [i] := by
      intro hpre
      rw [happ] at hq
      exact hq (hpre.trans (List.prefix_append _ q))
    rw [look, look, h.same_of_not_prefix hpi ht]
    cases hc : F.child p.length (mem t i) with
    | none => rfl
    | some t' =>
      have hnext := ih (happ ▸ hq) (reached_of_child ht hc)
      rw [List.length_append, List.length_singleton] at hnext
      exact hnext

/-- A path outside the changed entry has the leaf it had. -/
theorem look_of_not_prefix {q : List I} (hq : ¬ p₀ ++ [i₀] <+: q) :
    F.look mem' 0 root q = F.look mem 0 root q :=
  h.look_of_not_prefix_below (p := []) hq rfl

theorem look_below (r : List I) :
    F.look mem' 0 root (p₀ ++ i₀ :: r) = F.look mem' p₀.length t₀ (i₀ :: r) := by
  rw [look_append _ h.table', Nat.zero_add]

/-! #### The entry now ends its paths -/

section Prune

variable (hc : F.child p₀.length (mem' t₀ i₀) = none)
include hc

/-- When the changed entry points to no table, the tables of the new tree are those of the old one
that are not below it. -/
theorem tableAt_prune {q : List I} {t : T} :
    F.tableAt mem' 0 root q = some t ↔ F.tableAt mem 0 root q = some t ∧ ¬ p₀ ++ [i₀] <+: q := by
  by_cases hq : p₀ ++ [i₀] <+: q
  · obtain ⟨r, rfl⟩ := hq
    rw [List.append_assoc, List.singleton_append, h.tableAt_below, hc, Option.bind_none]
    simp
  · rw [h.tableAt_of_not_prefix hq]
    exact (and_iff_left hq).symm

theorem look_prune_below (r : List I) :
    F.look mem' 0 root (p₀ ++ i₀ :: r) =
      if F.leaf p₀.length (mem' t₀ i₀) then some (p₀.length, mem' t₀ i₀) else none := by
  rw [h.look_below, look_cons_of_none r hc]

theorem separated_prune : F.Separated mem' root := by
  intro p q t hp hq
  exact h.separated p q t ((h.tableAt_prune hc).1 hp).1 ((h.tableAt_prune hc).1 hq).1

end Prune

/-! #### A fresh empty table is hung into the tree -/

section Link

variable {n : T} (hold : F.child p₀.length (mem t₀ i₀) = none)
  (hleaf : F.leaf p₀.length (mem t₀ i₀) = false) (hnew : F.child p₀.length (mem' t₀ i₀) = some n)
  (hempty : ∀ d i, F.child d (mem' n i) = none) (hbare : ∀ d i, F.leaf d (mem' n i) = false)
  (hfresh : ¬ F.Reached mem root n)

include hnew hempty in
theorem tableAt_link_below (r : List I) :
    F.tableAt mem' 0 root (p₀ ++ i₀ :: r) = if r = [] then some n else none := by
  rw [h.tableAt_below, hnew, Option.bind_some]
  cases r with
  | nil => rfl
  | cons i r => rw [tableAt, hempty, Option.bind_none, if_neg (List.cons_ne_nil i r)]

include hold in
theorem tableAt_old_below (r : List I) : F.tableAt mem 0 root (p₀ ++ i₀ :: r) = none := by
  rw [tableAt_append, h.table, Option.bind_some, Nat.zero_add, tableAt, hold, Option.bind_none]

include hnew hempty in
theorem tableAt_link : F.tableAt mem' 0 root (p₀ ++ [i₀]) = some n := by
  rw [h.tableAt_link_below hnew hempty, if_pos rfl]

include hnew hempty in
/-- The tables of the new tree are the old ones and the fresh one. -/
theorem tableAt_link_cases {q : List I} {t : T} (hq : F.tableAt mem' 0 root q = some t) :
    F.tableAt mem 0 root q = some t ∨ (q = p₀ ++ [i₀] ∧ t = n) := by
  by_cases hpre : p₀ ++ [i₀] <+: q
  · obtain ⟨r, rfl⟩ := hpre
    rw [List.append_assoc, List.singleton_append, h.tableAt_link_below hnew hempty] at hq
    rcases r with - | ⟨i, r⟩
    · exact Or.inr ⟨List.append_nil _, (Option.some.inj hq).symm⟩
    · rw [if_neg (List.cons_ne_nil i r)] at hq
      exact absurd hq (by simp)
  · rw [h.tableAt_of_not_prefix hpre] at hq
    exact Or.inl hq

include hold in
/-- The old tables keep their paths. -/
theorem tableAt_link_old {q : List I} {t : T} (hq : F.tableAt mem 0 root q = some t) :
    F.tableAt mem' 0 root q = some t := by
  rw [h.tableAt_of_not_prefix, hq]
  rintro ⟨r, rfl⟩
  rw [List.append_assoc, List.singleton_append, h.tableAt_old_below hold] at hq
  exact absurd hq (by simp)

include hold hleaf hnew hempty hbare in
/-- Hanging in an empty table changes no leaf. -/
theorem look_link (q : List I) : F.look mem' 0 root q = F.look mem 0 root q := by
  by_cases hpre : p₀ ++ [i₀] <+: q
  · obtain ⟨r, rfl⟩ := hpre
    have hafter : F.look mem' 0 root (p₀ ++ i₀ :: r) = none := by
      rw [h.look_below, look_cons_of_child r hnew]
      cases r with
      | nil => rfl
      | cons i r => simp [look_cons_of_none r (hempty _ i), hbare]
    have hbefore : F.look mem 0 root (p₀ ++ i₀ :: r) = none := by
      rw [look_append _ h.table, Nat.zero_add, look_cons_of_none r hold, hleaf]
      rfl
    rw [List.append_assoc, List.singleton_append, hafter, hbefore]
  · exact h.look_of_not_prefix hpre

include hnew hempty hfresh in
theorem separated_link : F.Separated mem' root := by
  intro p q t hp hq
  rcases h.tableAt_link_cases hnew hempty hp with hp | ⟨rfl, rfl⟩ <;>
    rcases h.tableAt_link_cases hnew hempty hq with hq | ⟨rfl, hqn⟩
  · exact h.separated p q t hp hq
  · exact absurd ⟨p, hqn ▸ hp⟩ hfresh
  · exact absurd ⟨q, hq⟩ hfresh
  · rfl

end Link

end EditsAt

end TreeFormat
