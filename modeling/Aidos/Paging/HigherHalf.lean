import Aidos.Paging.KernelCopy

/-!
# The higher half survives `setup_paging`

The tree the kernel switches to is a copy of the upper half of the old one, in memory of its own
(`UpperCopy`). If the image of the kernel is mapped at the distance from physical memory that
`setup_paging` is given (`Placed`), it is also a tree that the mapping calls can work on
(`SetUp.sound`).
-/

namespace Aidos.Paging

open ByteMemory Memory

/-- The entries met on the walk of an address, from the PML4 down. -/
def Machine.entries (m : Machine) (v : UInt64) : List UInt64 :=
  x86.walk (entryAt m.mem) 0 m.root (pathOf v)

/-- Bit 47 of an address, which tells the upper half of the address space. -/
def Upper (v : UInt64) : Prop := v.toNat / 2 ^ 47 % 2 = 1

instance (v : UInt64) : Decidable (Upper v) := inferInstanceAs (Decidable (_ = _))

/-- The tree of `m` has the upper half of the tree of `m₀`, and shares no table with it. -/
structure UpperCopy (m₀ m : Machine) : Prop where
  /-- The walks meet entries with the same flags, and the same entry at their ends. -/
  entries : ∀ v, Upper v → ∃ before before' last, m₀.entries v = before ++ [last] ∧
    m.entries v = before' ++ [last] ∧ List.Forall₂ SameFlags before before'
  /-- So they end in the same leaf, or in none. -/
  look : ∀ v, Upper v → m.look v = m₀.look v
  /-- The lower half is empty. -/
  lower : ∀ v, ¬ Upper v → m.entries v = [0] ∧ m.look v = none
  /-- No table is shared. -/
  apart : ∀ t, m.IsTable t → ¬ m₀.IsTable t
  /-- The old tables are as they were. -/
  kept : ∀ q, m₀.IsTable (q / 4096) → m.mem q = m₀.mem q

theorem upper_iff {v : UInt64} : Upper v ↔ 256 ≤ (index 39 v : ℕ) := by
  rw [Upper, toNat_index]
  omega

theorem upper_of_imagePages {K : Kernel} {p : UInt64}
    (h : p.toNat / 4096 ∈ K.imagePages) : Upper p := by
  have hlow : 0xFFFF800000000 ≤ p.toNat / 4096 := h.1
  have hlt := p.toNat_lt
  rw [Upper]
  omega

/-- From the copied entries of the PML4 to the whole tree. -/
theorem UpperCopy.of_copied {m₀ m : Machine} {s : ℕ} {A : Set ℕ} (hroot : m.root = s)
    (hmem : ∀ q, m₀.IsTable (q / 4096) → m.mem q = m₀.mem q) (hs : ¬ m₀.IsTable s)
    (hA : ∀ f ∈ A, ¬ m₀.IsTable f) (hlow : ∀ i : Index, (i : ℕ) < 256 → entryAt m.mem s i = 0)
    (hcopied : ∀ i : Index, 256 ≤ (i : ℕ) →
      x86.Copied SameFlags (entryAt m₀.mem) (entryAt m.mem) A 3 0
      (entryAt m₀.mem m₀.root i) (entryAt m.mem s i)) : UpperCopy m₀ m where
  entries := by
    intro v hv
    rw [Machine.entries, Machine.entries, hroot, pathOf]
    exact (hcopied _ (upper_iff.1 hv)).walk_cons child_bottom rfl rfl
  look := by
    intro v hv
    rw [Machine.look, Machine.look, lookAt, lookAt, hroot, pathOf]
    exact (hcopied _ (upper_iff.1 hv)).look_cons child_bottom rfl _
  lower := by
    intro v hv
    have hzero := hlow (index 39 v) (by rw [upper_iff] at hv; omega)
    have hnone : x86.child 0 (entryAt m.mem s (index 39 v)) = none := by rw [hzero, child_zero]
    refine ⟨?_, ?_⟩
    · rw [Machine.entries, hroot, pathOf, TreeFormat.walk, hnone, hzero]
    · rw [Machine.look, lookAt, hroot, pathOf, TreeFormat.look_cons_of_none _ hnone,
        hzero, leaf_zero]
      rfl
  apart := by
    rintro t ⟨p, hp⟩
    rw [Machine.tableAt, hroot] at hp
    cases p with
    | nil =>
      obtain rfl := Option.some.inj hp
      exact hs
    | cons i p =>
      rcases Nat.lt_or_ge i 256 with hi | hi
      · obtain ⟨t', ht', -⟩ := Option.bind_eq_some_iff.1 hp
        rw [hlow i hi, child_zero] at ht'
        exact absurd ht' (by simp)
      · exact hA t ((hcopied i hi).mem_of_tableAt child_bottom rfl hp)
  kept := hmem

namespace Kernel

variable {K : Kernel} {k old : UInt64} {m₀ m : Machine} {s : ℕ}

/-- The machine before the copy loops: the PML4 holds the upper half of the old one. -/
structure Halved (K : Kernel) (k : UInt64) (m₀ : Machine) (s cleared : ℕ) (m : Machine) : Prop where
  /-- The run may go on. -/
  copying : K.Copying k m₀ m
  /-- Nothing is allocated yet. -/
  heapOffset : m.heapOffset = m₀.heapOffset
  /-- The first entries are cleared, the others are the old ones. -/
  entries : ∀ i : Index,
    entryAt m.mem s i = if (i : ℕ) < cleared then 0 else entryAt m₀.mem m₀.root i

/-- The new PML4 is a page of its own. -/
theorem HandedOver.page_pml4 (h : K.HandedOver old m₀) : ∃ s, m₀.Page K.pml4 s ∧ ¬ m₀.IsTable s ∧
    s ∉ K.heapFrames m₀ m₀.heapOffset K.heap.heapSize := by
  obtain ⟨q, hq⟩ := h.pml4.1
  have hpage := Machine.Page.of_translate K.pml4_aligned hq
  have himage : K.pml4.toNat / 4096 ∈ K.imagePages := by
    have hlow := K.pml4_mem.1
    have hend := K.pml4_mem.2
    exact ⟨by omega, by omega⟩
  refine ⟨q / 4096, hpage, h.apart _ _ himage hq, ?_⟩
  rintro ⟨p, hp, hlow, hend, hheap⟩
  have hsame :=
    h.own p K.pml4 _ (mem_imagePages_of_heap (by omega) hheap) himage hp.translate hpage.translate
  rw [hsame] at hlow hheap
  rcases K.heap_apart with hapart | hapart <;> omega

/-- With `KERNEL_OFFSET` set the run may start. -/
theorem HandedOver.copying (h : K.HandedOver old m₀) (k : UInt64) :
    K.Copying k m₀ { m₀ with kernelOffset := k } :=
  ⟨⟨rfl, fun _ _ ↦ rfl⟩, h.heapOffset_le, rfl⟩

/-- The new PML4 after the first copy. -/
theorem HandedOver.halved (h : K.HandedOver old m₀) (hs : ¬ m₀.IsTable s) :
    Halved K k m₀ s 0 (withCopy { m₀ with kernelOffset := k } m₀.heapOffset s m₀.root) := by
  refine ⟨(h.copying k).withCopy hs h.heapOffset_le, rfl, fun i ↦ ?_⟩
  rw [if_neg (Nat.not_lt_zero _)]
  exact entryAt_fillRun_self (fun _ _ ↦ rfl) i

/-- Clearing the lower half of the new PML4. -/
theorem wp_clearLower (hpage : m₀.Page K.pml4 s) (hs : ¬ m₀.IsTable s) (h : Halved K k m₀ s 0 m)
    {assume : Event → Prop} :
    (Exec.forUpTo 256 fun i ↦ store64 (K.pml4 + 8 * UInt64.ofNat i) 0).wp assume
      (fun _ m' ↦ Halved K k m₀ s 256 m' ∧ ∀ q, q / 4096 ≠ s → m'.mem q = m.mem q) m := by
  refine Exec.wp_forUpTo
    (fun j m' ↦ Halved K k m₀ s j m' ∧ ∀ q, q / 4096 ≠ s → m'.mem q = m.mem q) ⟨h, fun _ _ ↦ rfl⟩ ?_
  rintro j hj m' ⟨hm', hmem⟩
  have hidx : (UInt64.ofNat j).toNat = ((⟨j, by omega⟩ : Index) : ℕ) :=
    UInt64.toNat_ofNat_of_lt' (Nat.lt_trans hj (by decide))
  refine (hpage.congr hm'.copying.keeps).wp_storeEntry hidx
    ⟨⟨hm'.copying.setEntry hs _ _, hm'.heapOffset, fun i ↦ ?_⟩, fun q hq ↦ ?_⟩
  · rcases eq_or_ne i ⟨j, by omega⟩ with rfl | hne
    · rw [if_pos (Nat.lt_succ_self j)]
      exact entryAt_write64_self m'.mem s _ 0
    · have hval : (i : ℕ) ≠ j := fun heq ↦ hne (Fin.ext heq)
      refine (entryAt_write64_of_ne m'.mem 0 fun heq ↦ hne (congrArg Prod.snd heq)).trans ?_
      rw [hm'.entries i]
      exact if_congr (by omega) rfl rfl
  · rw [Machine.setEntry_mem_of_ne hq, hmem q hq]

/-- What `setup_paging` does to the machine `m₀`, where `pml4` is in the frame `s`. -/
structure SetUp (K : Kernel) (k : UInt64) (Good : UInt64 → Prop) (m₀ : Machine) (s : ℕ)
    (m : Machine) : Prop where
  /-- The frame of `pml4`. -/
  page : m₀.Page K.pml4 s
  /-- It was no table before. -/
  not_isTable : ¬ m₀.IsTable s
  /-- It is not in the heap. -/
  not_heap : s ∉ K.heapFrames m₀ m₀.heapOffset K.heap.heapSize
  /-- `KERNEL_OFFSET` is set. -/
  kernelOffset : m.kernelOffset = k
  /-- The new PML4 is in use. -/
  cr3 : m.cr3.toNat = 4096 * s
  /-- The allocator is within its heap. -/
  heapOffset_le : m.heapOffset.toNat ≤ K.heap.heapSize.toNat
  /-- Only the new tables are written. -/
  changed : ∀ q, m.mem q ≠ m₀.mem q →
    q / 4096 = s ∨ q / 4096 ∈ K.heapFrames m₀ m₀.heapOffset m.heapOffset
  /-- The lower half of the PML4 is cleared. -/
  lower : ∀ i : Index, (i : ℕ) < 256 → entryAt m.mem s i = 0
  /-- The upper half is copied. -/
  upper : ∀ i : Index, 256 ≤ (i : ℕ) → x86.Copied SameFlags (entryAt m₀.mem) (entryAt m.mem)
    (K.heapFrames m₀ m₀.heapOffset m.heapOffset) 3 0 (entryAt m₀.mem m₀.root i) (entryAt m.mem s i)
  /-- The new tables are pages of their own. -/
  spread : x86.Spread Good (entryAt m.mem) 0
    (insert s (K.heapFrames m₀ m₀.heapOffset m.heapOffset)) s

variable {Good : UInt64 → Prop}

theorem SetUp.root (h : K.SetUp k Good m₀ s m) : m.root = s := by
  have hlt := h.page.frame_lt
  have hcr3 := h.cr3
  rw [Machine.root, frameOf]
  omega

theorem SetUp.upperCopy (h : K.SetUp k Good m₀ s m) (h₀ : K.HandedOver old m₀) :
    UpperCopy m₀ m := by
  refine UpperCopy.of_copied h.root (fun q hq ↦ ?_) h.not_isTable (fun f hf ↦ h₀.not_isTable hf)
    h.lower h.upper
  by_contra hne
  rcases h.changed q hne with heq | hin
  · exact h.not_isTable (heq ▸ hq)
  · exact h₀.not_isTable hin hq

/-- Upper addresses are translated as before. -/
theorem SetUp.translate (h : K.SetUp k Good m₀ s m) (h₀ : K.HandedOver old m₀) {v : UInt64}
    (hv : Upper v) : m.translate v = m₀.translate v :=
  Machine.translate_congr_of_look ((h.upperCopy h₀).look v hv)

/-- **`setup_paging` of the kernel** copies the upper half of the old tree into pages of its own,
whatever it is that makes its allocations and the answers of `virt_to_phys` right. -/
theorem HandedOver.wp_setupPaging_of_trusts (Good : UInt64 → Prop) (h : K.HandedOver old m₀)
    {assume : Event → Prop} (htrusts : K.Trusts old m₀ assume)
    (hgood : ∀ p t i s (x : UInt64), m₀.tableAt p = some t →
      x86.child p.length (entryAt m₀.mem t i) = some s → x.toNat < 2 ^ 52 →
      Good (x ||| (entryAt m₀.mem t i &&& flagsMask))) (k : UInt64) :
    (K.setupPaging old k).wp assume (fun _ m ↦ ∃ s, K.SetUp k Good m₀ s m) m₀ := by
  obtain ⟨s, hpage, hs, hfresh⟩ := h.page_pml4
  have hroot : m₀.IsTable m₀.root := ⟨[], rfl⟩
  have hstart := h.copying k
  refine Exec.wp_bind (Exec.wp_modify (Exec.wp_bind ?_))
  refine (hpage.congr hstart.keeps).wp_memcpy (h.page_root.congr hstart.keeps)
    (fun heq ↦ hs (heq ▸ hroot)) (fun ht ↦ hs (hstart.keeps.isTable.1 ht)) ?_
  refine Exec.wp_bind_of (wp_clearLower hpage hs (h.halved hs)) ?_
  rintro _ m₁ ⟨hm₁, hmem₁⟩
  have hdepth : ([] : List Index).length = 0 := rfl
  refine Exec.wp_bind_of (wp_spreadTables Good h htrusts hgood (by omega) hdepth rfl hm₁.copying rfl
    hpage hs (by rw [hm₁.heapOffset]; exact hfresh) fun i hi ↦ ?_) fun _ m₂ hm₂ ↦ ?_
  · rw [hm₁.entries i, if_neg (Nat.not_lt.2 hi)]
  refine Exec.wp_bind_of (htrusts.resolve_pml4 hm₂.copied.copying.keeps) ?_
  rintro x m₃ ⟨rfl, hx⟩
  have hlow : ∀ i : Index, (i : ℕ) < 256 → entryAt m₃.mem s i = 0 := by
    intro i hi
    rw [hm₂.copied.rest i (Or.inl hi), hm₁.entries i, if_pos hi]
  have hparts := hm₂.parts
  have hcopied := hm₂.copied.copied
  have hchanged := hm₂.copied.changed
  rw [hm₁.heapOffset] at hparts hcopied hchanged
  refine Exec.wp_modify ⟨s, hpage, hs, hfresh, hm₂.copied.copying.kernelOffset,
    Option.some.inj (hx.symm.trans hpage.translate), hm₂.copied.copying.heapOffset_le,
    fun q hq ↦ ?_, hlow, fun i hi ↦ hcopied i hi (by omega), ?_⟩
  · by_cases hsame : m₃.mem q = m₁.mem q
    · refine Or.inl ?_
      by_contra hne
      exact hq (hsame.trans ((hmem₁ q hne).trans (withCopy_mem_of_ne hne)))
    · exact hchanged q hsame
  · have hempty : x86.Parts Good (entryAt m₃.mem) 0 ∅ s {i : Index | (i : ℕ) < 256} :=
      .of_none fun i hi ↦ by rw [hlow i hi, child_zero]
    refine ((hempty.union hparts (fun _ hf ↦ absurd hf (Set.notMem_empty _)) (fun _ _ _ ↦ rfl)
      (fun _ _ ↦ rfl) (Set.empty_subset _) subset_rfl).mono fun i _ ↦ ?_).spread
      (fun hin ↦ hfresh (heapFrames_mono (Nat.le_refl _) hm₂.copied.copying.heapOffset_le hin))
      (Set.subset_insert _ _) (Set.mem_insert _ _)
    rcases Nat.lt_or_ge i 256 with hi | hi
    · exact Or.inl hi
    · exact Or.inr ⟨hi, by omega⟩

/-- **`setup_paging` of the kernel** leaves a copy of the upper half of the old tree. -/
theorem HandedOver.wp_setupPaging (h : K.HandedOver old m₀) (k : UInt64) :
    (K.setupPaging old k).wp (Truthful m₀ old)
      (fun _ m ↦ UpperCopy m₀ m ∧ m.kernelOffset = k ∧ m.cr3.toNat = 4096 * m.root) m₀ := by
  refine Exec.wp_mono (h.wp_setupPaging_of_trusts (fun _ ↦ True) h.trusts
    (fun _ _ _ _ _ _ _ _ ↦ trivial) k) ?_
  rintro _ m ⟨s, hm⟩
  exact ⟨hm.upperCopy h, hm.kernelOffset, by rw [hm.cr3, hm.root]⟩

/-! ### A tree to work on -/

/-- The space of the kernel's paging code, with `KERNEL_OFFSET` at `k`: a region of its image. -/
def space (K : Kernel) (k : UInt64) (hk : k.toNat % 4096 = 0) (region : Set ℕ) : Space where
  heap := K.heap
  offset := k
  pml4 := K.pml4
  region := region
  offset_aligned := hk
  pml4_aligned := K.pml4_aligned
  lt_heapStart := K.lt_heapStart

/-- The image of the kernel is mapped at one distance from physical memory, and that is the one that
`setup_paging` is given. -/
structure Placed (K : Kernel) (k : UInt64) (m : Machine) : Prop where
  /-- The distance is a whole number of pages. -/
  offset_aligned : k.toNat % 4096 = 0
  /-- The image is mapped at that distance. -/
  linear : ∀ p : UInt64, p.toNat / 4096 ∈ K.imagePages → m.translate p = some (p - k).toNat
  /-- Bit 63 of the entries that point to tables is clear. -/
  clear : ∀ p t i s, m.tableAt p = some t → x86.child p.length (entryAt m.mem t i) = some s →
    (entryAt m.mem t i).toNat < 2 ^ 63

theorem pml4_page : K.pml4.toNat / 4096 ∈ K.imagePages := by
  have hlow := K.pml4_mem.1
  have hend := K.pml4_mem.2
  exact ⟨by omega, by omega⟩

/-- The new entries have the flags of the old ones and an address below `2 ^ 52`. -/
theorem Placed.good (h : K.Placed k m₀) {p : List Index} {t : ℕ} {i : Index} {s : ℕ} {x : UInt64}
    (ht : m₀.tableAt p = some t) (hs : x86.child p.length (entryAt m₀.mem t i) = some s)
    (hx : x.toNat < 2 ^ 52) : (x ||| (entryAt m₀.mem t i &&& flagsMask)).toNat < 2 ^ 52 := by
  have hclear := h.clear p t i s ht hs
  generalize entryAt m₀.mem t i = e at hclear ⊢
  rw [UInt64.toNat_or]
  refine Nat.or_lt_two_pow hx (Nat.lt_pow_two_of_testBit _ fun i hi ↦ ?_)
  rw [UInt64.toNat_and, Nat.testBit_and, testBit_flagsMask]
  rcases eq_or_ne i 63 with rfl | hne
  · rw [Nat.testBit_lt_two_pow hclear, Bool.false_and]
  · have hfar : ¬ i < 12 := by omega
    simp [hfar, hne]

section Tree

variable (h₀ : K.HandedOver old m₀) (hplaced : K.Placed k m₀)
    (h : K.SetUp k (fun e ↦ e.toNat < 2 ^ 52) m₀ s m)
include h₀ hplaced h

omit h₀ in
/-- The tables are `pml4` and pages of the heap that have been handed out. -/
theorem SetUp.exists_page {t : ℕ} (ht : m.IsTable t) : ∃ p : UInt64,
    (p - k).toNat = 4096 * t ∧ p.toNat / 4096 ∈ K.imagePages ∧
      (p = K.pml4 ∨ p.toNat + 4096 ≤ K.heap.heapStart.toNat + m.heapOffset.toNat ∧
        K.heap.heapStart.toNat ≤ p.toNat) := by
  obtain ⟨path, hpath⟩ := ht
  rw [Machine.tableAt, h.root] at hpath
  rcases h.spread.mem_of_tableAt hpath with rfl | ⟨p, hp, hlow, hend, hheap⟩
  · refine ⟨K.pml4, ?_, pml4_page, Or.inl rfl⟩
    exact Option.some.inj ((hplaced.linear _ pml4_page).symm.trans h.page.translate)
  · have himage := mem_imagePages_of_heap (by omega) hheap
    refine ⟨p, ?_, himage, Or.inr ⟨hend, by omega⟩⟩
    exact Option.some.inj ((hplaced.linear _ himage).symm.trans hp.translate)

/-- **The tree that is left** is one that the mapping calls can work on. -/
theorem SetUp.sound : (K.space k hplaced.offset_aligned K.imagePages).Sound m where
  heapOffset_le := h.heapOffset_le
  root := by
    have hpml4 := Option.some.inj ((hplaced.linear _ pml4_page).symm.trans h.page.translate)
    show m.root = (K.pml4 - k).toNat / 4096
    rw [h.root, hpml4, Nat.mul_div_cancel_left s (by decide)]
  separated := by
    rw [h.root]
    exact h.spread.separated
  linear := fun v hv ↦
    (h.translate h₀ (upper_of_imagePages hv)).trans (hplaced.linear v hv)
  free_mem := by
    rintro p ⟨-, hlow, hend⟩
    exact mem_imagePages_of_heap ((Nat.le_add_right _ _).trans hlow) hend
  tables := by
    intro t ht
    obtain ⟨p, hp, himage, -⟩ := h.exists_page hplaced ht
    have hpointer : UInt64.ofNat (4096 * t) + k = p := by
      rw [← hp, UInt64.ofNat_toNat, UInt64.sub_add_cancel]
    show (UInt64.ofNat (4096 * t) + k).toNat / 4096 ∈ K.imagePages
    rwa [hpointer]
  clear := by
    intro p t i u ht hu
    rw [Machine.tableAt, h.root] at ht
    exact h.spread.good ht (by rwa [Nat.zero_add])
  fresh := by
    rintro p ⟨hp, hlow, hend⟩ ht
    have hlow' : K.heap.heapStart.toNat + m.heapOffset.toNat ≤ p.toNat := hlow
    have hend' : p.toNat + 4096 ≤ K.heap.heapEnd.toNat := hend
    obtain ⟨p', hp', -, hold⟩ := h.exists_page hplaced ht
    -- the page is the one the table is in
    have hframe : (p - k).toNat = 4096 * (K.space k hplaced.offset_aligned K.imagePages).frame p :=
      Space.toNat_sub_offset (S := K.space k hplaced.offset_aligned K.imagePages) hp
    have hsame : p' - k = p - k := UInt64.toNat_inj.1 (hp'.trans hframe.symm)
    obtain rfl : p' = p := by
      rw [← UInt64.sub_add_cancel p' k, hsame, UInt64.sub_add_cancel]
    rcases hold with rfl | ⟨hpast, -⟩
    · have happart := K.heap_apart
      omega
    · omega

end Tree

end Kernel

end Aidos.Paging
