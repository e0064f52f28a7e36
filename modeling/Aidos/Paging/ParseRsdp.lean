import Aidos.Paging.HeapRoom
import Aidos.Paging.HigherHalf
import Aidos.Paging.TlbCoherence

/-!
# Copying the RSDP through a temporary mapping

`ACPI::parseRSDP` of `kernel/dev/acpi/rsdp.cpp`. The lower half of the address space is empty after
`setup_paging`, so the kernel maps the page of the structure to itself, copies the structure and
unmaps the page again. The mapping is for one page, whatever the place of the structure in it: a
structure that goes on in the next page is not copied whole (`Kernel.AfterSetup.parsesRsdp_iff`).
-/

namespace Aidos.Paging

open ByteMemory Memory

/-- `sizeof(AcpiRsdp)`: 36 bytes of fields, rounded up to the alignment of `xsdt_address`. -/
def sizeofAcpiRsdp : UInt64 := 40

namespace Kernel

/-- `ACPI::parseRSDP(RSDP)`, where `rsdp` is the address of the member `_rsdp`. -/
def parseRsdp (K : Kernel) (rsdp a : UInt64) : Prog Unit := do
  K.map4k a a 1
  memcpy rsdp a sizeofAcpiRsdp
  K.unmap4k a 1

/-- The call as far as the copies of the first `n` bytes. -/
def parseRsdpUpTo (K : Kernel) (rsdp a : UInt64) (n : ℕ) : Prog Unit := do
  K.map4k a a 1
  memcpy rsdp a (UInt64.ofNat n)

/-- What a call is for. -/
structure ParsesRsdp (K : Kernel) (rsdp a : UInt64) (m : Machine) : Prop where
  /-- Each byte is read while its page is mapped to the same physical address. -/
  identical : ∀ i < sizeofAcpiRsdp.toNat, ((K.parseRsdpUpTo rsdp a i).run m).value = some () ∧
    ((K.parseRsdpUpTo rsdp a i).run m).state.translate (a + UInt64.ofNat i) = some (a.toNat + i)
  /-- The call returns, and every address is translated as before. -/
  kept : ((K.parseRsdp rsdp a).run m).value = some () ∧
    ∀ v, ((K.parseRsdp rsdp a).run m).state.translate v = m.translate v

/-- What a call finds: a page-table state of the kernel with nothing in the lower half, and the
member at `rsdp`, which is an object of its own. -/
structure AfterSetup (K : Kernel) (S : Space) (rsdp : UInt64) (m : Machine) : Prop where
  /-- The paging code can run. -/
  serves : K.Serves S m
  /-- Tables are allocated from the heap of the kernel. -/
  heap : S.heap = K.heap
  /-- The lower half is empty. -/
  lower : ∀ v, ¬ Upper v → m.look v = none
  /-- The bytes of `_rsdp` are mapped, to memory that is neither a page table nor free. -/
  object : ∀ i < sizeofAcpiRsdp.toNat, ∃ q, m.translate (rsdp + UInt64.ofNat i) = some q ∧
    ¬ m.IsTable (q / 4096) ∧ ∀ p, S.Free m p → S.frame p ≠ q / 4096

end Kernel

/-! ### Copying -/

/-- A copy that stays outside the tables keeps them, wherever the bytes are. -/
theorem wp_memcpy_keeps {m : Machine} {dest src num : UInt64}
    (hdest : ∀ i < num.toNat, ∃ q, m.translate (dest + UInt64.ofNat i) = some q ∧
      ¬ m.IsTable (q / 4096))
    (hsrc : ∀ i < num.toNat, ∃ q, m.translate (src + UInt64.ofNat i) = some q)
    {assume : Event → Prop} :
    (memcpy dest src num).wp assume (fun _ m' ↦ m.KeepsTables m' ∧
      m'.heapOffset = m.heapOffset ∧ m'.kernelOffset = m.kernelOffset) m := by
  refine Exec.wp_forUpTo (fun _ m' ↦ m.KeepsTables m' ∧ m'.heapOffset = m.heapOffset ∧
    m'.kernelOffset = m.kernelOffset) ⟨⟨rfl, fun _ _ ↦ rfl⟩, rfl, rfl⟩ ?_
  rintro i hi m' ⟨hk, hheap, hoffset⟩
  obtain ⟨p, hp⟩ := hsrc i hi
  obtain ⟨q, hq, hfree⟩ := hdest i hi
  refine Exec.wp_bind (wp_load8 ((hk.translate _).trans hp) ?_)
  refine wp_store8 ((hk.translate _).trans hq) ⟨⟨hk.root, fun r hr ↦ ?_⟩, hheap, hoffset⟩
  have hne : r ≠ q := fun heq ↦ hfree (heq ▸ hr)
  exact (Function.update_of_ne hne _ _).trans (hk.mem r hr)

/-! ### The call -/

/-- Only the page of `va` is covered by a range of one page. -/
theorem pageOf_rangePage_zero (va : UInt64) : pageOf (rangePage va 0) = pageOf va := by
  have hlt : pageOf va < 2 ^ 36 := Nat.mod_lt _ (by decide)
  rw [rangePage, pageOf_and_not_fff, pageOf_page va (by decide), Nat.add_zero]
  exact Nat.mod_eq_of_lt hlt

namespace Kernel

/-- The machine after `map_4k(a, a, 1)`: the page of `a` is mapped to itself, and the pages that
hold the tables of `m` and its free heap are all that the tables are in. -/
structure PageMapped (S : Space) (a : UInt64) (m m' : Machine) : Prop where
  /-- The invariant. -/
  sound : (S.narrow m).Sound m'
  /-- `KERNEL_OFFSET` is kept. -/
  offset : m'.kernelOffset = m.kernelOffset
  /-- The page of `a`. -/
  covered : ∀ w, pageOf a = pageOf w → m'.look w = some (3, presentRw (rangePage a 0))
  /-- All other pages. -/
  others : ∀ w, pageOf a ≠ pageOf w → m'.look w = m.look w

namespace AfterSetup

variable {K : Kernel} {S : Space} {m m' : Machine} {rsdp a : UInt64}

/-- The pages in use are in the upper half. -/
theorem upper_of_region (h : K.AfterSetup S rsdp m) {w : UInt64}
    (hw : w.toNat / 4096 ∈ (S.narrow m).region) : Upper w := by
  have hlinear := h.serves.sound.narrow.linear w hw
  by_contra hlow
  rw [Machine.translate_eq (Machine.canonical_of_translate hlinear), h.lower w hlow] at hlinear
  exact absurd hlinear (by simp)

theorem page_ne (h : K.AfterSetup S rsdp m) (ha : a.toNat < 2 ^ 47) {w : UInt64}
    (hw : w.toNat / 4096 ∈ (S.narrow m).region) : pageOf a ≠ pageOf w := by
  have hupper := h.upper_of_region hw
  intro heq
  rw [Upper] at hupper
  simp only [pageOf] at heq
  omega

/-- The page of the structure is not mapped. -/
theorem look_page (h : K.AfterSetup S rsdp m) (ha : a.toNat < 2 ^ 47) {w : UInt64}
    (hw : pageOf a = pageOf w) : m.look w = none := by
  have hlow : ¬ Upper a := by
    rw [Upper]
    omega
  rw [Machine.look, lookAt, ← pathOf_eq_iff.2 hw]
  exact h.lower a hlow

/-- Mapping the page of the structure. -/
theorem wp_mapPage (h : K.AfterSetup S rsdp m) (ha : a.toNat < 2 ^ 47) :
    (K.map4k a a 1).wp Event.Allocates (fun _ m' ↦ PageMapped S a m m') m := by
  have hloop : (K.map4k a a 1).wp Event.Allocates (fun _ ↦ (S.narrow m).Stage 3 m
      (Space.overlay 3 (rangePage a) (fun i ↦ presentRw (rangePage a i)) m.look 1)) m := by
    refine Space.Stage.loop h.serves.sound.narrow fun i hi m' hm' ↦ ?_
    obtain rfl : i = 0 := Nat.lt_one_iff.1 hi
    have hpml4 : (S.narrow m).pml4 = K.pml4 := h.serves.pml4
    rw [← hpml4]
    refine hm'.sound.wp_place4k ?_ (fun l hl ↦ ?_) fun w hw hpre ↦ ?_
    · rw [hm'.kernelOffset, h.serves.offset]
      exact getsTable h.heap
    · have hnone : m.look (rangePage a 0) = none := h.look_page ha (pageOf_rangePage_zero a).symm
      rw [hm'.look] at hl
      exact absurd (hl.symm.trans hnone) (by simp)
    · rw [prefix_four_iff, pageOf_rangePage_zero] at hpre
      exact absurd hpre (h.page_ne ha hw)
  refine Exec.wp_mono hloop fun _ m' hm' ↦ ⟨hm'.sound, hm'.kernelOffset, fun w hw ↦ ?_,
    fun w hw ↦ ?_⟩
  · have hpre : (pathOf (rangePage a 0)).take 4 <+: pathOf w :=
      prefix_four_iff.2 ((pageOf_rangePage_zero a).trans hw)
    rw [hm'.look, Space.overlay_of_covered (rangePage a) (fun i ↦ presentRw (rangePage a i))
      Nat.one_pos hpre, if_pos (physical_presentRw _ w).1]
    intro j hj _
    rw [Nat.lt_one_iff.1 hj]
  · rw [hm'.look]
    refine Space.overlay_of_not_covered fun j hj hpre ↦ hw ?_
    rw [Nat.lt_one_iff.1 hj, prefix_four_iff, pageOf_rangePage_zero] at hpre
    exact hpre

/-- The bytes of `_rsdp` stay where they are, and none of them gets into a table. -/
theorem object_mapped (h : K.AfterSetup S rsdp m) (hm' : PageMapped S a m m')
    (ha : a.toNat < 2 ^ 47) {i : ℕ} (hi : i < sizeofAcpiRsdp.toNat) :
    ∃ q, m'.translate (rsdp + UInt64.ofNat i) = some q ∧ ¬ m'.IsTable (q / 4096) := by
  obtain ⟨q, hq, htable, hfree⟩ := h.object i hi
  refine ⟨q, ?_, hm'.sound.not_isTable htable hfree⟩
  rw [← hq]
  refine Machine.translate_congr_of_look (hm'.others _ fun hpage ↦ ?_)
  -- the page of `a` was not mapped, the one of the byte was
  rw [Machine.translate_eq (Machine.canonical_of_translate hq), h.look_page ha hpage] at hq
  exact absurd hq (by simp)

end AfterSetup

namespace PageMapped

variable {S : Space} {m m' : Machine} {a : UInt64}

theorem toNat_add (ha : a.toNat < 2 ^ 47) {i : ℕ} (hi : i ≤ 4096) :
    (a + UInt64.ofNat i).toNat = a.toNat + i := by
  rw [UInt64.toNat_add, UInt64.toNat_ofNat']
  omega

/-- The bytes of the page are where they are. -/
theorem translate (h : PageMapped S a m m') (ha : a.toNat < 2 ^ 47) {i : ℕ}
    (hi : a.toNat % 4096 + i < 4096) :
    m'.translate (a + UInt64.ofNat i) = some (a.toNat + i) := by
  have hsum := toNat_add ha (i := i) (by omega)
  have hpage : pageOf a = pageOf (a + UInt64.ofNat i) := by
    rw [pageOf, pageOf, hsum]
    omega
  have hcanonical : Canonical (a + UInt64.ofNat i) := Or.inl (by omega)
  rw [Machine.translate_of_look hcanonical (h.covered _ hpage), (physical_presentRw _ _).2,
    frameOf_rangePage (by omega), hsum]
  refine congrArg some ?_
  omega

/-- The first byte of the next page is nowhere. -/
theorem translate_next (h : PageMapped S a m m') (hlower : ∀ v, ¬ Upper v → m.look v = none)
    (ha : a.toNat < 2 ^ 47) :
    m'.translate (a + UInt64.ofNat (4096 - a.toNat % 4096)) = none := by
  have hsum := toNat_add ha (i := 4096 - a.toNat % 4096) (by omega)
  by_cases hcanonical : Canonical (a + UInt64.ofNat (4096 - a.toNat % 4096))
  · have hlow : ¬ Upper (a + UInt64.ofNat (4096 - a.toNat % 4096)) := by
      rw [Canonical] at hcanonical
      rw [Upper]
      omega
    have hpage : pageOf a ≠ pageOf (a + UInt64.ofNat (4096 - a.toNat % 4096)) := by
      rw [pageOf, pageOf, hsum]
      omega
    rw [Machine.translate_eq hcanonical, h.others _ hpage, hlower _ hlow]
    rfl
  · rw [Machine.translate, if_neg hcanonical]

end PageMapped

namespace AfterSetup

variable {K : Kernel} {S : Space} {m m₁ m₂ : Machine} {rsdp a : UInt64}

/-- Copying bytes of the page. -/
theorem wp_copy (h : K.AfterSetup S rsdp m) (hm₁ : PageMapped S a m m₁) (ha : a.toNat < 2 ^ 47)
    {n : UInt64} (hn : n.toNat ≤ sizeofAcpiRsdp.toNat) (hpage : a.toNat % 4096 + n.toNat ≤ 4096) :
    (memcpy rsdp a n).wp (fun _ ↦ True) (fun _ m₂ ↦ PageMapped S a m m₂) m₁ := by
  refine Exec.wp_mono (wp_memcpy_keeps (fun i hi ↦ h.object_mapped hm₁ ha (by omega))
    fun i hi ↦ ⟨_, hm₁.translate ha (by omega)⟩) ?_
  rintro _ m₂ ⟨hk, hheap, hoffset⟩
  exact ⟨hm₁.sound.keeps hk hheap, hoffset.trans hm₁.offset,
    fun w hw ↦ (hk.look w).trans (hm₁.covered w hw), fun w hw ↦ (hk.look w).trans (hm₁.others w hw)⟩

/-- Unmapping the page again. -/
theorem wp_unmapPage (h : K.AfterSetup S rsdp m) (hm₂ : PageMapped S a m m₂)
    (ha : a.toNat < 2 ^ 47) :
    (K.unmap4k a 1).wp (fun _ ↦ True) (fun _ m₃ ↦ ∀ v, m₃.translate v = m.translate v) m₂ := by
  have hserves : K.Serves (S.narrow m) m₂ :=
    ⟨hm₂.sound, hm₂.offset.trans h.serves.offset, h.serves.pml4,
      fun hzero ↦ absurd (h.upper_of_region (w := 0) hzero) (by decide)⟩
  have hcovers : ∀ v, (UnmapCall.unmap4k a 1).Covers v ↔ pageOf a = pageOf v := by
    intro v
    constructor
    · rintro ⟨i, hi, hpre⟩
      obtain rfl : i = 0 := Nat.lt_one_iff.1 hi
      exact (pageOf_rangePage_zero a).symm.trans (prefix_four_iff.1 hpre)
    · intro heq
      exact ⟨0, Nat.one_pos, prefix_four_iff.2 ((pageOf_rangePage_zero a).trans heq)⟩
  have haway : (UnmapCall.unmap4k a 1).Away (S.narrow m) := fun w hw hcov ↦
    h.page_ne ha hw ((hcovers w).1 hcov)
  have hfits : (UnmapCall.unmap4k a 1).Fits m₂ := by
    intro v l hcov hl
    rw [hm₂.covered v ((hcovers v).1 hcov)] at hl
    exact (congrArg Prod.fst (Option.some.inj hl)).le
  have hprog : (K.unmap4k a 1).wp (fun _ ↦ True) _ m₂ := UnmapCall.wp_prog hserves haway hfits
  refine Exec.wp_mono hprog ?_
  rintro _ m₃ ⟨hgone, hkeep⟩ v
  refine Machine.translate_congr_of_look ?_
  by_cases hv : pageOf a = pageOf v
  · rw [hgone v ((hcovers v).2 hv), h.look_page ha hv]
  · rw [hkeep v fun hcov ↦ hv ((hcovers v).1 hcov), hm₂.others v hv]

/-- Mapping the page, where no allocation fails. -/
theorem exists_mapped (h : K.AfterSetup S rsdp m) (ha : a.toNat < 2 ^ 47)
    (hev : ∀ e ∈ ((K.map4k a a 1).run m).events, e.Allocates) :
    ∃ m₁ es, (K.map4k a a 1).run m = ⟨some (), m₁, es⟩ ∧ PageMapped S a m m₁ := by
  obtain ⟨_, hvalue, hm₁⟩ := h.wp_mapPage ha hev
  exact ⟨_, _, Exec.run_eq_of_value hvalue, hm₁⟩

/-- A structure within one page. -/
theorem parsesRsdp (h : K.AfterSetup S rsdp m) (ha : a.toNat < 2 ^ 47)
    (hev : ∀ e ∈ ((K.map4k a a 1).run m).events, e.Allocates)
    (hpage : a.toNat % 4096 + sizeofAcpiRsdp.toNat ≤ 4096) : K.ParsesRsdp rsdp a m := by
  obtain ⟨m₁, es, hmap, hm₁⟩ := h.exists_mapped ha hev
  refine ⟨fun i hi ↦ ?_, ?_⟩
  · have hnum : (UInt64.ofNat i).toNat = i :=
      UInt64.toNat_ofNat_of_lt' (Nat.lt_trans hi (by decide))
    obtain ⟨_, m₂, es', hcopy, hm₂⟩ := Exec.exists_run_of_wp
      (h.wp_copy hm₁ ha (n := UInt64.ofNat i) (by omega) (by omega))
    rw [parseRsdpUpTo, Exec.run_bind_of_some hmap, hcopy]
    exact ⟨rfl, hm₂.translate ha (by omega)⟩
  · obtain ⟨_, m₂, es₂, hcopy, hm₂⟩ := Exec.exists_run_of_wp (h.wp_copy hm₁ ha le_rfl hpage)
    obtain ⟨_, m₃, es₃, hunmap, hm₃⟩ := Exec.exists_run_of_wp (h.wp_unmapPage hm₂ ha)
    rw [parseRsdp, Exec.run_bind_of_some hmap, Exec.run_bind_of_some hcopy, hunmap]
    exact ⟨rfl, hm₃⟩

/-- A structure that goes on in the next page: when the copy comes to that page, it is not mapped.
-/
theorem not_parsesRsdp (h : K.AfterSetup S rsdp m) (ha : a.toNat < 2 ^ 47)
    (hev : ∀ e ∈ ((K.map4k a a 1).run m).events, e.Allocates)
    (hpage : 4096 < a.toNat % 4096 + sizeofAcpiRsdp.toNat) : ¬ K.ParsesRsdp rsdp a m := by
  obtain ⟨m₁, es, hmap, hm₁⟩ := h.exists_mapped ha hev
  intro hparses
  have hsize : sizeofAcpiRsdp.toNat = 40 := rfl
  have hnum : (UInt64.ofNat (4096 - a.toNat % 4096)).toNat = 4096 - a.toNat % 4096 :=
    UInt64.toNat_ofNat_of_lt' (Nat.lt_of_le_of_lt (Nat.sub_le _ _) (by decide))
  obtain ⟨_, m₂, es', hcopy, hm₂⟩ := Exec.exists_run_of_wp
    (h.wp_copy hm₁ ha (n := UInt64.ofNat (4096 - a.toNat % 4096)) (by omega) (by omega))
  obtain ⟨-, hread⟩ := hparses.identical (4096 - a.toNat % 4096) (by omega)
  rw [parseRsdpUpTo, Exec.run_bind_of_some hmap, hcopy] at hread
  exact absurd ((hm₂.translate_next h.lower ha).symm.trans hread) (by simp)

/-- **The RSDP.** On a page-table state with nothing in the lower half, where no allocation of
`map_4k` fails, every byte of the structure at `a` is read while its page is mapped to itself, and
the call leaves every translation as it was, if and only if the structure is within one page. -/
theorem parsesRsdp_iff (h : K.AfterSetup S rsdp m) (ha : a.toNat < 2 ^ 47)
    (hev : ∀ e ∈ ((K.map4k a a 1).run m).events, e.Allocates) :
    K.ParsesRsdp rsdp a m ↔ a.toNat % 4096 + sizeofAcpiRsdp.toNat ≤ 4096 := by
  refine ⟨fun hparses ↦ ?_, h.parsesRsdp ha hev⟩
  by_contra hcross
  exact h.not_parsesRsdp ha hev (Nat.not_le.1 hcross) hparses

end AfterSetup

/-! ### On the small kernel -/

/-- The lower half of the small kernel is empty. -/
theorem look_twoPages_lower {v : UInt64} (hv : ¬ Upper v) : twoPages.look v = none := by
  have hindex : ¬ (256 ≤ (index 39 v : ℕ)) := fun h ↦ hv (upper_iff.2 h)
  have hne : ∀ i, ¬ [256, 0, 0, i] <+: pathOf v := by
    intro i hpre
    have hpath : [256, 0, 0, i] = pathOf v := hpre.eq_of_length rfl
    simp only [pathOf, List.cons.injEq] at hpath
    exact hindex (by rw [← hpath.1]; decide)
  have hfirst := small_smallMachine.setEntry (i := 256) (x := presentRw 0x300000) (by decide)
  have hsecond := hfirst.1.setEntry (i := 257) (x := presentRw 0x301000) (by decide)
  have hzero : entryAt smallMachine.mem 256 (index 39 v) = 0 := by
    refine (entryAt_ofEntries smallEntries 256 _).trans ?_
    rw [smallEntries, if_neg (by omega)]
  rw [twoPages, hsecond.2, if_neg (hne _), hfirst.2, if_neg (hne _), Machine.look, lookAt]
  have hroot : smallMachine.root = 256 := rfl
  rw [hroot, pathOf, TreeFormat.look_cons_of_none _ (by rw [hzero, child_zero]), hzero, leaf_zero]
  rfl

/-- The first of the two pages holds `_rsdp`. -/
theorem afterSetup_twoPages :
    small.AfterSetup ready_smallMachine.space 0xFFFF800000100000 twoPages where
  serves := small_twoPages.serves
  heap := rfl
  lower := fun _ ↦ look_twoPages_lower
  object := by
    intro i hi
    have hall : ∀ i < 40, twoPages.translate (0xFFFF800000100000 + UInt64.ofNat i) =
        some (0x300000 + i) ∧ (0x300000 + i) / 4096 = 0x300 := by decide
    obtain ⟨htranslate, hframe⟩ := hall i hi
    -- the pointer to this frame is above the image
    have hpointer : ready_smallMachine.space.pointer 0x300 = 0xFFFF800000200000 := by decide
    refine ⟨_, htranslate, fun ht ↦ ?_, fun p hp heq ↦ ?_⟩
    · rw [hframe] at ht
      have himage := (small_twoPages.serves.sound.tables _ ht).1
      rw [hpointer] at himage
      exact absurd himage.2 (by decide)
    · rw [hframe] at heq
      have hend : p.toNat + 4096 ≤ 0xFFFF800000011000 := hp.2.2
      rw [← Space.pointer_frame (S := ready_smallMachine.space) hp.1, heq, hpointer] at hend
      exact absurd hend (by decide)

/-- The heap of the small kernel has room for the three tables. -/
theorem allocates_twoPages (a : UInt64) :
    ∀ e ∈ ((small.map4k a a 1).run twoPages).events, e.Allocates :=
  (map4k_yields (k := 0) a a 1 (by decide)).1

theorem parsesRsdp_iff_twoPages : small.ParsesRsdp 0xFFFF800000100000 0xF5A20 twoPages :=
  (afterSetup_twoPages.parsesRsdp_iff (by decide) (allocates_twoPages _)).2 (by decide)

/-- A structure 32 bytes before the end of a page. -/
theorem not_parsesRsdp_crossing :
    (small.AfterSetup ready_smallMachine.space 0xFFFF800000100000 twoPages ∧
      ∀ e ∈ ((small.map4k 0xF5FE0 0xF5FE0 1).run twoPages).events, e.Allocates) ∧
    ¬ small.ParsesRsdp 0xFFFF800000100000 0xF5FE0 twoPages :=
  ⟨⟨afterSetup_twoPages, allocates_twoPages _⟩,
    afterSetup_twoPages.not_parsesRsdp (by decide) (allocates_twoPages _) (by decide)⟩

end Kernel

end Aidos.Paging
