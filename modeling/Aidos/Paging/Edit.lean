import Aidos.Paging.Space

/-!
# Walking down the tree and changing an entry

The routines of both programs that map or unmap a page have one shape: walk down from the PML4 with
a helper that returns the next table, hanging in a fresh one where there is none, and write one
entry. `GetsTable` is what the helper has to do at one level; `Descended` is what holds after some
levels, kept by one more call of the helper (`Descended.step`); `Remapped` is what the final store
leaves (`Descended.store`).

The helper's contract excludes one case: it says nothing about an entry that maps a large page.
-/

namespace Aidos.Paging

open ByteMemory Memory

namespace Machine

variable (m : Machine)

/-- The machine after storing `x` as entry `i` of the table in frame `t`. -/
def setEntry (t : ℕ) (i : Index) (x : UInt64) : Machine :=
  { m with mem := write64 m.mem (4096 * t + 8 * i) x }

variable {m} {p : List Index} {t : ℕ}

/-- Only the frame of the table is written. -/
theorem setEntry_mem_of_ne {i : Index} {x : UInt64} {q : ℕ} (hq : q / 4096 ≠ t) :
    (m.setEntry t i x).mem q = m.mem q :=
  write64_of_not_mem (p := 4096 * t + 8 * i) x (by omega)

/-- A leaf met on the path of an address is what the walk of that address finds. -/
theorem look_of_leaf {v : UInt64} {i : Index} {rest : List Index} (hv : pathOf v = p ++ i :: rest)
    (ht : m.tableAt p = some t) (hp : present (entryAt m.mem t i) = true)
    (hl : large (entryAt m.mem t i) = true) : m.look v = some (p.length, entryAt m.mem t i) := by
  rw [look, lookAt, hv, TreeFormat.look_append _ ht, Nat.zero_add,
    TreeFormat.look_cons_of_none rest (child_of_large hl), leaf_of_large hl, if_pos hp]

theorem look_of_not_present {v : UInt64} {i : Index} {rest : List Index}
    (hv : pathOf v = p ++ i :: rest)
    (ht : m.tableAt p = some t) (hp : present (entryAt m.mem t i) = false) : m.look v = none := by
  rw [look, lookAt, hv, TreeFormat.look_append _ ht, Nat.zero_add,
    TreeFormat.look_cons_of_none rest (child_of_not_present hp), leaf_of_not_present hp]
  rfl

end Machine

namespace Space

variable {S : Space} {m m' m₀ : Machine}

theorem Sound.edits (h : S.Sound m) {p : List Index} {t : ℕ} (ht : m.tableAt p = some t) (i : Index)
    (x : UInt64) :
    x86.EditsAt (entryAt m.mem) (entryAt (m.setEntry t i x).mem) m.root p t i where
  separated := h.separated
  table := ht
  same := fun _ _ _ hne ↦ entryAt_write64_of_ne _ x hne

/-! ### Hanging in a fresh table -/

/-- Hanging an empty page of the region, which is neither a table nor free, into an unused entry. -/
theorem Sound.link (h : S.Sound m) {p : List Index} {t n : ℕ} {i : Index} {x : UInt64}
    (ht : m.tableAt p = some t) (hold : present (entryAt m.mem t i) = false)
    (hn : ¬ m.IsTable n) (hreg : (S.pointer n).toNat / 4096 ∈ S.region)
    (hfree : ∀ q, S.Free m q → S.frame q ≠ n) (hzero : ∀ j, entryAt m.mem n j = 0)
    (hx : x86.child p.length x = some n) (hclear : x.toNat < 2 ^ 52) :
    S.Sound (m.setEntry t i x) ∧ (∀ v, (m.setEntry t i x).look v = m.look v) ∧
      (∀ q s, m.tableAt q = some s → (m.setEntry t i x).tableAt q = some s) ∧
      (m.setEntry t i x).tableAt (p ++ [i]) = some n := by
  have hed := h.edits ht i x
  have hnt : n ≠ t := fun heq ↦ hn ⟨p, heq ▸ ht⟩
  have hentry : entryAt (m.setEntry t i x).mem t i = x := entryAt_write64_self m.mem t i x
  have hnew : x86.child p.length (entryAt (m.setEntry t i x).mem t i) = some n := by rw [hentry, hx]
  have hzero' : ∀ j, entryAt (m.setEntry t i x).mem n j = 0 := fun j ↦
    (entryAt_write64_of_ne _ x fun heq ↦ hnt (congrArg Prod.fst heq)).trans (hzero j)
  have hempty : ∀ d j, x86.child d (entryAt (m.setEntry t i x).mem n j) = none := by
    intro d j
    rw [hzero' j, child_zero]
  have hbare : ∀ d j, x86.leaf d (entryAt (m.setEntry t i x).mem n j) = false := by
    intro d j
    rw [hzero' j, leaf_zero]
  have hchild : x86.child p.length (entryAt m.mem t i) = none := child_of_not_present hold
  have hleaf : x86.leaf p.length (entryAt m.mem t i) = false := leaf_of_not_present hold
  have hlook : ∀ v, (m.setEntry t i x).look v = m.look v := fun v ↦
    hed.look_link hchild hleaf hnew hempty hbare (pathOf v)
  have hcases : ∀ q s, (m.setEntry t i x).tableAt q = some s →
      m.tableAt q = some s ∨ (q = p ++ [i] ∧ s = n) := fun q s hs ↦
    hed.tableAt_link_cases hnew hempty hs
  have htables : ∀ s, (m.setEntry t i x).IsTable s → m.IsTable s ∨ s = n := by
    rintro s ⟨q, hs⟩
    exact (hcases q s hs).imp (fun hs ↦ ⟨q, hs⟩) And.right
  refine ⟨⟨h.heapOffset_le, h.root, hed.separated_link hnew hempty hn, ?_, h.free_mem, ?_, ?_, ?_⟩,
    hlook,
    fun q s hs ↦ hed.tableAt_link_old hchild hs, hed.tableAt_link hnew hempty⟩
  · exact fun v hv ↦ (Machine.translate_congr_of_look (hlook v)).trans (h.linear v hv)
  · intro s hs
    rcases htables s hs with hs | rfl
    · exact h.tables s hs
    · exact hreg
  · intro q s j r hs hr
    rcases hcases q s hs with hs | ⟨-, rfl⟩
    · by_cases hsj : (s, j) = (t, i)
      · obtain ⟨rfl, rfl⟩ := Prod.mk.inj hsj
        rw [hentry]
        exact hclear
      · rw [hed.same s j ⟨q, hs⟩ hsj] at hr ⊢
        exact h.clear q s j r hs hr
    · rw [hempty] at hr
      exact absurd hr (by simp)
  · intro q hq hs
    rcases htables _ hs with hs | hs
    · exact h.fresh q hq hs
    · exact hfree q hq hs

/-! ### Replacing an entry that ends its paths -/

/-- Writing an entry that points to no table, such that the pages of the region below it, if any,
keep their frames. -/
theorem Sound.setEntry (h : S.Sound m) {p : List Index} {t : ℕ} {i : Index} {x : UInt64}
    (ht : m.tableAt p = some t) (hx : x86.child p.length x = none)
    (hstay : ∀ v : UInt64, v.toNat / 4096 ∈ S.region → p ++ [i] <+: pathOf v →
      x86.leaf p.length x = true ∧ physical v (p.length, x) = some (v - S.offset).toNat) :
    S.Sound (m.setEntry t i x) ∧
      (∀ v, (m.setEntry t i x).look v =
        if p ++ [i] <+: pathOf v then
          if x86.leaf p.length x then some (p.length, x) else none
        else m.look v) ∧
      ∀ q s, (m.setEntry t i x).tableAt q = some s ↔ m.tableAt q = some s ∧ ¬ p ++ [i] <+: q := by
  have hed := h.edits ht i x
  have hentry : entryAt (m.setEntry t i x).mem t i = x := entryAt_write64_self m.mem t i x
  have hnone : x86.child p.length (entryAt (m.setEntry t i x).mem t i) = none := by rw [hentry, hx]
  have hlook : ∀ v, (m.setEntry t i x).look v =
      if p ++ [i] <+: pathOf v then
        if x86.leaf p.length x then some (p.length, x) else none
      else m.look v := by
    intro v
    split
    · next hpre =>
      obtain ⟨r, hr⟩ := hpre
      have hbelow := hed.look_prune_below hnone r
      rw [hentry] at hbelow
      rw [List.append_assoc, List.singleton_append] at hr
      rw [Machine.look, lookAt, ← hr]
      exact hbelow
    · next hpre => exact hed.look_of_not_prefix hpre
  have htable : ∀ q s, (m.setEntry t i x).tableAt q = some s ↔
      m.tableAt q = some s ∧ ¬ p ++ [i] <+: q := fun q s ↦ hed.tableAt_prune hnone
  have htables : ∀ s, (m.setEntry t i x).IsTable s → m.IsTable s := by
    rintro s ⟨q, hs⟩
    exact ⟨q, ((htable q s).1 hs).1⟩
  refine ⟨⟨h.heapOffset_le, h.root, hed.separated_prune hnone, ?_, h.free_mem, ?_, ?_,
    ?_⟩, hlook, htable⟩
  · intro v hv
    have hlin := h.linear v hv
    have hv' := hlook v
    by_cases hpre : p ++ [i] <+: pathOf v
    · obtain ⟨hleaf, hphys⟩ := hstay v hv hpre
      rw [if_pos hpre, if_pos hleaf] at hv'
      rw [Machine.translate_of_look (Machine.canonical_of_translate hlin) hv', hphys]
    · rw [if_neg hpre] at hv'
      rw [Machine.translate_congr_of_look hv', hlin]
  · exact fun s hs ↦ h.tables s (htables s hs)
  · intro q s j r hs hr
    obtain ⟨hq, -⟩ := (htable q s).1 hs
    have hsj : (s, j) ≠ (t, i) := by
      intro heq
      obtain ⟨rfl, rfl⟩ := Prod.mk.inj heq
      have hqp := h.path_unique hq ht
      rw [hqp, hnone] at hr
      exact absurd hr (by simp)
    rw [hed.same s j ⟨q, hq⟩ hsj] at hr ⊢
    exact h.clear q s j r hq hr
  · exact fun q hq hs ↦ h.fresh q hq (htables _ hs)

/-! ### Runs that only hang in tables -/

/-- The bytes changed from `m` to `m'` are in tables of depth at most `d`. -/
def ChangedIn (d : ℕ) (m m' : Machine) : Prop :=
  ∀ q, m'.mem q ≠ m.mem q → ∃ p, p.length ≤ d ∧ m'.tableAt p = some (q / 4096)

/-- `m'` has the tables of `m` and possibly fresh ones, of depth at most `d`, that map nothing. -/
structure Extends (d : ℕ) (m m' : Machine) : Prop where
  /-- Every address has the leaf it had. -/
  look : ∀ v, m'.look v = m.look v
  /-- Every table is where it was. -/
  tableAt : ∀ p t, m.tableAt p = some t → m'.tableAt p = some t
  /-- Only tables are written. -/
  changed : ChangedIn d m m'
  /-- `KERNEL_OFFSET` is kept. -/
  kernelOffset : m'.kernelOffset = m.kernelOffset

theorem Extends.refl (d : ℕ) (m : Machine) : Extends d m m :=
  ⟨fun _ ↦ rfl, fun _ _ ht ↦ ht, fun _ hq ↦ absurd rfl hq, rfl⟩

theorem Extends.trans {d d' : ℕ} {m₁ m₂ m₃ : Machine} (h : Extends d m₁ m₂) (h' : Extends d' m₂ m₃)
    (hd : d ≤ d') : Extends d' m₁ m₃ where
  look := fun v ↦ (h'.look v).trans (h.look v)
  tableAt := fun p t ht ↦ h'.tableAt p t (h.tableAt p t ht)
  changed := by
    intro q hq
    by_cases hq' : m₃.mem q = m₂.mem q
    · rw [hq'] at hq
      obtain ⟨p, hp, ht⟩ := h.changed q hq
      exact ⟨p, hp.trans hd, h'.tableAt p _ ht⟩
    · exact h'.changed q hq'
  kernelOffset := h'.kernelOffset.trans h.kernelOffset

/-! ### The helper that returns the next table -/

/-- What `get_or_create_table` has to do on an entry that does not map a large page: return the
pointer to the table below, which may be fresh. The parameter `k` is the value of `KERNEL_OFFSET`.
-/
def GetsTable (S : Space) (k : UInt64) (get : UInt64 → UInt64 → Prog UInt64) : Prop :=
  ∀ ⦃m : Machine⦄ ⦃p : List Index⦄ ⦃t : ℕ⦄ ⦃i : UInt64⦄ ⦃idx : Index⦄, S.Sound m →
    m.kernelOffset = k →
    m.tableAt p = some t → p.length < 3 → i.toNat = idx →
    (present (entryAt m.mem t idx) = true → large (entryAt m.mem t idx) = false) →
    (get (S.pointer t) i).wp Event.Allocates (fun a m' ↦ S.Sound m' ∧ Extends (p.length + 1) m m' ∧
      ∃ s, a = S.pointer s ∧ m'.tableAt (p ++ [idx]) = some s) m

theorem toNat_and_not_fff (e : UInt64) : (e &&& ~~~0xFFF).toNat = e.toNat / 4096 * 4096 :=
  Words.toNat_and_not_sub_one (a := 4096) (k := 12) rfl

/-- The pointer conversion of the source, `(entry & ~0xFFF) + offset`. -/
theorem Sound.pointer_of_entry (h : S.Sound m) {p : List Index} {t s : ℕ} {i : Index}
    (ht : m.tableAt p = some t) (hs : x86.child p.length (entryAt m.mem t i) = some s) :
    (entryAt m.mem t i &&& ~~~0xFFF) + S.offset = S.pointer s := by
  have hclear := h.clear p t i s ht hs
  obtain ⟨-, -, -, rfl⟩ := child_eq_some hs
  have hmul : (entryAt m.mem t i &&& ~~~0xFFF).toNat = 4096 * frameOf (entryAt m.mem t i) := by
    rw [toNat_and_not_fff, frameOf]
    omega
  rw [pointer, ← hmul, UInt64.ofNat_toNat]

/-- The entry for the table at the page-aligned pointer `a`. -/
theorem child_presentRw {a : UInt64} {d : ℕ} (ha : a.toNat % 4096 = 0)
    (hlt : (a - S.offset).toNat < 2 ^ 52) (hd : d < 3) :
    x86.child d (presentRw (a - S.offset)) = some (S.frame a) ∧
      (presentRw (a - S.offset)).toNat < 2 ^ 52 := by
  have hmul := toNat_sub_offset (S := S) ha
  obtain ⟨hpres, hsmall, hframe, hnum⟩ := presentRw_fields (x := a - S.offset) (by omega)
  have hof : frameOf (a - S.offset) = S.frame a := by
    rw [frameOf, hmul]
    omega
  refine ⟨?_, by omega⟩
  rw [child_of_pointer hpres hsmall hd, hframe, hof]

/-- A free page is mapped, whole, to its frame. -/
theorem Sound.translate_free (h : S.Sound m) {a : UInt64} (ha : S.Free m a) {x : UInt64}
    (hx : x.toNat < 4096) :
    m.translate (a + x) = some (4096 * S.frame a + x.toNat) ∧ a.toNat / 4096 ∈ S.region ∧
      (a - S.offset).toNat < 2 ^ 52 := by
  obtain ⟨hmod, hlow, hend⟩ := ha
  have hreg := h.free_mem a ⟨hmod, hlow, hend⟩
  have hsum : (a + x).toNat = a.toNat + x.toNat := by
    have hlt := S.heap.heapEnd.toNat_lt
    rw [UInt64.toNat_add]
    omega
  have hpage : (a + x).toNat / 4096 = a.toNat / 4096 := by omega
  have hbase := h.linear a hreg
  have hphys : (a - S.offset).toNat < 2 ^ 52 := by
    obtain ⟨l, -, hl⟩ := Option.bind_eq_some_iff.1
      ((Machine.translate_eq (Machine.canonical_of_translate hbase)).symm.trans hbase)
    exact physical_lt hl
  refine ⟨?_, hreg, hphys⟩
  have hmove := (Machine.translate_page hpage.symm hbase).2
  rw [toNat_sub_offset hmod] at hmove
  rw [hmove]
  refine congrArg some ?_
  omega

/-- The machine after the page at `a` has been handed out and cleared. -/
def withPage (S : Space) (m : Machine) (a o : UInt64) : Machine :=
  { m with
    heapOffset := o
    mem := fillRun m.mem (4096 * S.frame a) (fun _ ↦ 0) 4096 }

/-- Only the page is written. -/
theorem withPage_mem_of_ne {a o : UInt64} {q : ℕ} (hq : q / 4096 ≠ S.frame a) :
    (S.withPage m a o).mem q = m.mem q := by
  show fillRun m.mem (4096 * S.frame a) (fun _ ↦ 0) 4096 q = m.mem q
  exact fillRun_of_not_mem (by omega)

/-- Clearing a free page that has just been handed out. -/
theorem Sound.wp_clearPage (h : S.Sound m) {a o : UInt64} (ha : S.Free m a)
    {assume : Event → Prop} {Q : Unit → Machine → Prop} (hQ : Q () (S.withPage m a o)) :
    (memset a 0 4096).wp assume Q { m with heapOffset := o } := by
  have hnot := h.fresh a ha
  refine wp_memset (b := 4096 * S.frame a) (fun i hi ↦ ?_) (fun i hi ht ↦ hnot ?_) hQ
  · have hi' : i < 4096 := hi
    have hofNat : (UInt64.ofNat i).toNat = i :=
      UInt64.toNat_ofNat_of_lt' (Nat.lt_trans hi' (by decide))
    have htr := (h.translate_free ha (x := UInt64.ofNat i) (by omega)).1
    rw [hofNat] at htr
    exact htr
  · have hi' : i < 4096 := hi
    have hdiv : (4096 * S.frame a + i) / 4096 = S.frame a := by omega
    rw [hdiv] at ht
    exact ht

theorem keepsTables_withPage (h : S.Sound m) {a : UInt64} (ha : S.Free m a) (o : UInt64) :
    m.KeepsTables (S.withPage m a o) where
  root := rfl
  mem := by
    intro q hq
    refine withPage_mem_of_ne fun heq ↦ ?_
    rw [heq] at hq
    exact h.fresh a ha hq

theorem Sound.withPage (h : S.Sound m) {a o : UInt64} (ha : S.Free m a)
    (ho : a.toNat + 4096 = S.heap.heapStart.toNat + o.toNat)
    (hos : o.toNat ≤ S.heap.heapSize.toNat) :
    S.Sound (S.withPage m a o) :=
  have hle : m.heapOffset.toNat ≤ o.toNat := by
    have hlow := ha.2.1
    omega
  (h.alloc hle hos).keeps
    ⟨(keepsTables_withPage h ha o).root, (keepsTables_withPage h ha o).mem⟩ rfl

/-- **Creating a table**: a free page is handed out, cleared, and entered where there was no
table. -/
theorem Sound.createTable (h : S.Sound m) {p : List Index} {t : ℕ} {idx : Index} {a o : UInt64}
    (ht : m.tableAt p = some t) (hp : p.length < 3) (hold : present (entryAt m.mem t idx) = false)
    (ha : S.Free m a) (ho : a.toNat + 4096 = S.heap.heapStart.toNat + o.toNat)
    (hos : o.toNat ≤ S.heap.heapSize.toNat) {x : UInt64}
    (hx : x = presentRw (a - S.offset)) :
    S.Sound ((S.withPage m a o).setEntry t idx x) ∧
      Extends (p.length + 1) m ((S.withPage m a o).setEntry t idx x) ∧
      ((S.withPage m a o).setEntry t idx x).tableAt (p ++ [idx]) = some (S.frame a) := by
  have hkeep := keepsTables_withPage h ha o
  have hsound := h.withPage ha ho hos
  have hnot := h.fresh a ha
  obtain ⟨-, hreg, hphys⟩ := h.translate_free ha (x := 0) (by decide)
  obtain ⟨hchild, hclear⟩ := child_presentRw (S := S) (d := p.length) ha.1 hphys hp
  have ht₂ : (S.withPage m a o).tableAt p = some t := (hkeep.tableAt p).trans ht
  have hold₂ : present (entryAt (S.withPage m a o).mem t idx) = false := by
    rw [hkeep.entry t idx ⟨p, ht⟩]
    exact hold
  have hfree : ∀ q, S.Free (S.withPage m a o) q → S.frame q ≠ S.frame a := by
    intro q hq heq
    have hlow : S.heap.heapStart.toNat + o.toNat ≤ q.toNat := hq.2.1
    have hsame : q = a := by rw [← pointer_frame hq.1, heq, pointer_frame ha.1]
    rw [hsame] at hlow
    omega
  rw [← hx] at hchild hclear
  obtain ⟨hs, hlook, htable, hat⟩ := hsound.link ht₂ hold₂ (fun hn ↦ hnot (hkeep.isTable.1 hn))
    (by rw [pointer_frame ha.1]; exact hreg) hfree
    (fun j ↦ entryAt_fillRun_zero m.mem (S.frame a) j) hchild hclear
  have hkept : ∀ q s, m.tableAt q = some s →
      ((S.withPage m a o).setEntry t idx x).tableAt q = some s :=
    fun q s hq ↦ htable q s ((hkeep.tableAt q).trans hq)
  refine ⟨hs, ⟨fun v ↦ (hlook v).trans (hkeep.look v), hkept, ?_, rfl⟩, hat⟩
  -- a changed byte is in the entry written or in the page cleared
  intro q hq
  by_cases hqt : q / 4096 = t
  · rw [hqt]
    exact ⟨p, Nat.le_succ _, hkept p t ht⟩
  · have hqa : q / 4096 = S.frame a := by
      by_contra hne
      exact hq ((Machine.setEntry_mem_of_ne hqt).trans (withPage_mem_of_ne hne))
    rw [hqa]
    exact ⟨p ++ [idx], by simp, hat⟩

/-! ### A walk from the PML4 -/

/-- After `n` levels of a walk for the address `v` that started in `m₀`, at the table pointer `a`.
-/
structure Descended (S : Space) (m₀ : Machine) (v : UInt64) (n : ℕ) (a : UInt64)
    (m : Machine) : Prop where
  /-- The invariant. -/
  sound : S.Sound m
  /-- Only fresh tables have been hung in. -/
  grown : Extends n m₀ m
  /-- The pointer is the one of the table on the path. -/
  table : ∃ t, a = S.pointer t ∧ m.tableAt ((pathOf v).take n) = some t

/-- A path around its `n`-th index. -/
theorem pathOf_split {v : UInt64} {n : ℕ} {idx : Index}
    (hpath : (pathOf v).take (n + 1) = (pathOf v).take n ++ [idx]) :
    pathOf v = (pathOf v).take n ++ idx :: (pathOf v).drop (n + 1) := by
  have happ := List.take_append_drop (n + 1) (pathOf v)
  rw [hpath, List.append_assoc, List.singleton_append] at happ
  exact happ.symm

theorem Descended.start (h : S.Sound m) (v : UInt64) : Descended S m v 0 S.pml4 m where
  sound := h
  grown := Extends.refl 0 m
  table := ⟨m.root, by rw [h.root, pointer_frame S.pml4_aligned], rfl⟩

/-- One more level, as long as no large page is met on the path. -/
theorem Descended.step {get : UInt64 → UInt64 → Prog UInt64} (hg : GetsTable S m₀.kernelOffset get)
    {v a i : UInt64} {n : ℕ} {idx : Index} (h : Descended S m₀ v n a m) (hn : n < 3)
    (hpath : (pathOf v).take (n + 1) = (pathOf v).take n ++ [idx]) (hi : i.toNat = idx)
    (hbig : ∀ l, m₀.look v = some l → n < l.1) :
    (get a i).wp Event.Allocates (fun b m' ↦ Descended S m₀ v (n + 1) b m') m := by
  obtain ⟨t, rfl, ht⟩ := h.table
  have hlen : ((pathOf v).take n).length = n := length_take_pathOf v (by omega)
  have hsplit := pathOf_split hpath
  have hsmall : present (entryAt m.mem t idx) = true → large (entryAt m.mem t idx) = false := by
    intro hp
    by_contra hl
    have hlook := Machine.look_of_leaf hsplit ht hp (by simpa using hl)
    rw [h.grown.look, hlen] at hlook
    exact absurd (hbig _ hlook) (lt_irrefl n)
  refine Exec.wp_mono (hg h.sound h.grown.kernelOffset ht (by omega) hi hsmall) ?_
  rintro b m' ⟨hs, hext, s, rfl, hat⟩
  rw [hlen] at hext
  refine ⟨hs, h.grown.trans hext (Nat.le_succ n), s, rfl, ?_⟩
  rw [hpath, hat]

/-! ### The store at the end -/

/-- `m'` maps the addresses that share their first `n + 1` indices with `v` by the entry `x` at
depth `n`, and all others as `m` does. -/
structure Remapped (n : ℕ) (v x : UInt64) (m m' : Machine) : Prop where
  /-- The leaves after the store. -/
  look : ∀ w, m'.look w =
    if (pathOf v).take (n + 1) <+: pathOf w then if x86.leaf n x then some (n, x) else none
    else m.look w
  /-- The tables down to depth `n` are where they were. -/
  tableAt : ∀ p t, p.length ≤ n → m.tableAt p = some t → m'.tableAt p = some t
  /-- Only tables down to depth `n` are written. -/
  changed : ChangedIn n m m'
  /-- `KERNEL_OFFSET` is kept. -/
  kernelOffset : m'.kernelOffset = m.kernelOffset

theorem Descended.store {v a i x : UInt64} {n : ℕ} {idx : Index} (h : Descended S m₀ v n a m)
    (hn : n ≤ 3) (hpath : (pathOf v).take (n + 1) = (pathOf v).take n ++ [idx]) (hi : i.toNat = idx)
    (hx : x86.child n x = none)
    (hstay : ∀ w : UInt64, w.toNat / 4096 ∈ S.region → (pathOf v).take (n + 1) <+: pathOf w →
      x86.leaf n x = true ∧ physical w (n, x) = some (w - S.offset).toNat)
    {assume : Event → Prop} :
    (store64 (a + 8 * i) x).wp assume (fun _ m' ↦ S.Sound m' ∧ Remapped n v x m₀ m') m := by
  obtain ⟨t, rfl, ht⟩ := h.table
  have hlen : ((pathOf v).take n).length = n := length_take_pathOf v (by omega)
  refine h.sound.wp_storeEntry ⟨_, ht⟩ hi ?_
  have hset := h.sound.setEntry (i := idx) (x := x) ht (by rw [hlen, hx])
    (by rw [hlen, ← hpath]; exact hstay)
  rw [hlen, ← hpath] at hset
  obtain ⟨hs, hlook, htable⟩ := hset
  have hkept : ∀ p s, p.length ≤ n → m.tableAt p = some s →
      (m.setEntry t idx x).tableAt p = some s := by
    intro p s hp hps
    refine (htable p s).2 ⟨hps, fun hpre ↦ ?_⟩
    have hle := hpre.length_le
    rw [hpath, List.length_append, hlen, List.length_singleton] at hle
    omega
  refine ⟨hs, fun w ↦ ?_, fun p s hp hps ↦ hkept p s hp (h.grown.tableAt p s hps), ?_,
    h.grown.kernelOffset⟩
  · exact (hlook w).trans (if_congr Iff.rfl rfl (h.grown.look w))
  · intro q hq
    by_cases hqt : q / 4096 = t
    · rw [hqt]
      exact ⟨_, hlen.le, hkept _ t hlen.le ht⟩
    · have hsame : (m.setEntry t idx x).mem q = m.mem q := Machine.setEntry_mem_of_ne hqt
      obtain ⟨p, hp, hps⟩ := h.grown.changed q fun heq ↦ hq (hsame.trans heq)
      exact ⟨p, hp, hkept p _ hp hps⟩

end Space

end Aidos.Paging
