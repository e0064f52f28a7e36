import Aidos.Paging.Ranges

/-!
# Mapping and unmapping in the kernel

`get_or_create_table`, `map_4k`, `map_2m`, `get_table_if_exists`, `unmap_4k` and `unmap_2m` of
`kernel/memory.cpp`. The kernel reaches a table in frame `F` at `F + KERNEL_OFFSET` and turns a
table pointer back into a frame by subtracting `KERNEL_OFFSET`.

The routines are correct entry by entry: `get_or_create_table` does its part (`getsTable`), `map_4k`
places one entry in each turn (`wp_map4k`), and the two routines that unmap clear one
(`wp_unmapPage`, `wp_unmapLarge`), as long as no larger page is in the way and the range keeps away
from the pages the kernel relies on.
-/

namespace Aidos.Paging

open Memory

/-- `KERNEL_BASE`, where the image is linked. -/
def kernelBase : UInt64 := 0xFFFF800000000000

/-- The symbols of the kernel image. -/
structure Kernel where
  /-- The heap between `__heap_start` and `__heap_end`. -/
  heap : Heap
  /-- The static table `pml4`. -/
  pml4 : UInt64
  /-- `__end`. -/
  imageEnd : UInt64
  /-- `alignas(0x1000)`. -/
  pml4_aligned : pml4.toNat % 4096 = 0
  /-- The table is in the image. -/
  pml4_mem : kernelBase.toNat ≤ pml4.toNat ∧ pml4.toNat + 4096 ≤ imageEnd.toNat
  /-- The heap is in the image. -/
  heap_mem : kernelBase.toNat ≤ heap.heapStart.toNat ∧ heap.heapEnd.toNat ≤ imageEnd.toNat
  /-- The table and the heap are different objects. -/
  heap_apart : pml4.toNat + 4096 ≤ heap.heapStart.toNat ∨ heap.heapEnd.toNat ≤ pml4.toNat

namespace Kernel

variable (K : Kernel)

theorem lt_heapStart : 4096 < K.heap.heapStart.toNat :=
  Nat.lt_of_lt_of_le (by decide) K.heap_mem.1

/-- `get_or_create_table(parent, index)`; zero stands for `nullptr`. -/
def getOrCreateTable (parent index : UInt64) : Prog UInt64 := do
  let entry ← load64 (parent + 8 * index)
  if !present entry then do
    let newTable ← kmalloc K.heap 4096 4096
    if newTable = 0 then
      pure 0
    else do
      memset newTable 0 4096
      let m ← Exec.get
      store64 (parent + 8 * index) (presentRw (newTable - m.kernelOffset))
      pure newTable
  else do
    let entry ← load64 (parent + 8 * index)
    let m ← Exec.get
    pure ((entry &&& ~~~0xFFF) + m.kernelOffset)

/-- `map_4k(virt, phys, count)`. -/
def map4k (virt phys count : UInt64) : Prog Unit :=
  Exec.forUpTo count.toNat fun i ↦
    let va := rangePage virt i
    let pa := rangePage phys i
    place4k K.getOrCreateTable K.pml4 va (presentRw pa)

/-- `map_2m(virt, phys, count)`. The loop strides over 4 KiB, as in `map_4k`. -/
def map2m (virt phys count : UInt64) : Prog Unit :=
  Exec.forUpTo count.toNat fun i ↦
    let va := rangePage virt i
    let pa := rangePage phys i
    place2m K.getOrCreateTable K.pml4 va (presentRw pa ||| pagePse)

/-- `get_table_if_exists(parent, index)`; zero stands for `nullptr`. -/
def getTableIfExists (parent index : UInt64) : Prog UInt64 := do
  let entry ← load64 (parent + 8 * index)
  if !present entry then
    pure 0
  else do
    let entry ← load64 (parent + 8 * index)
    let m ← Exec.get
    pure ((entry &&& ~~~0xFFF) + m.kernelOffset)

/-- `flush_tlb_single(va)`. -/
def flushTlbSingle (va : UInt64) : Prog Unit := Exec.emit (Event.invlpg va)

/-- The body of `unmap_4k`: `va` is the page of this turn, `virt` the argument of the call. -/
def unmapPage (virt va : UInt64) : Prog Unit := do
  let pdptTbl ← getTableIfExists K.pml4 (pml4Index va)
  if pdptTbl = 0 then pure () else do
    let pdTbl ← getTableIfExists pdptTbl (pdptIndex va)
    if pdTbl = 0 then pure () else do
      let ptTbl ← getTableIfExists pdTbl (pdIndex va)
      if ptTbl = 0 then pure () else do
        store64 (ptTbl + 8 * ptIndex va) 0
        flushTlbSingle virt

/-- `unmap_4k(virt, count)`. -/
def unmap4k (virt count : UInt64) : Prog Unit :=
  Exec.forUpTo count.toNat fun i ↦
    let va := rangePage virt i
    K.unmapPage virt va

/-- The body of `unmap_2m`: `va` is the page of this turn, `virt` the argument of the call. -/
def unmapLarge (virt va : UInt64) : Prog Unit := do
  let pdptTbl ← getTableIfExists K.pml4 (pml4Index va)
  if pdptTbl = 0 then pure () else do
    let pdTbl ← getTableIfExists pdptTbl (pdptIndex va)
    if pdTbl = 0 then pure () else do
      store64 (pdTbl + 8 * pdIndex va) 0
      flushTlbSingle virt

/-- `unmap_2m(virt, count)`. The loop strides over 4 KiB, as in `unmap_4k`. -/
def unmap2m (virt count : UInt64) : Prog Unit :=
  Exec.forUpTo count.toNat fun i ↦
    let va := rangePage virt i
    K.unmapLarge virt va

/-! ### The state the kernel maps pages in -/

/-- The numbers of the pages of the image, the heap included. -/
def imagePages : Set ℕ := {n | kernelBase.toNat / 4096 ≤ n ∧ n * 4096 < K.imageEnd.toNat}

/-- A tree as the kernel's `setup_paging` leaves it. -/
structure Ready (m : Machine) : Prop where
  /-- `KERNEL_OFFSET` is a whole number of pages. -/
  offset_aligned : m.kernelOffset.toNat % 4096 = 0
  /-- The allocator is within its heap. -/
  heapOffset_le : m.heapOffset.toNat ≤ K.heap.heapSize.toNat
  /-- The tree in use is the one under `pml4`. -/
  root : m.root = (K.pml4 - m.kernelOffset).toNat / 4096
  /-- Each table is reached by one path. -/
  separated : x86.Separated (entryAt m.mem) m.root
  /-- Every table `F` is in the image and accessible at `F + KERNEL_OFFSET`. -/
  tables : ∀ t, m.IsTable t →
    (UInt64.ofNat (4096 * t) + m.kernelOffset).toNat / 4096 ∈ K.imagePages ∧
      m.translate (UInt64.ofNat (4096 * t) + m.kernelOffset) = some (4096 * t)
  /-- So are the free pages of the heap, which further tables will be made of. -/
  heap : ∀ p : UInt64, p.toNat % 4096 = 0 →
    K.heap.heapStart.toNat + m.heapOffset.toNat ≤ p.toNat → p.toNat + 4096 ≤ K.heap.heapEnd.toNat →
    m.translate p = some (p - m.kernelOffset).toNat
  /-- No table is in the part of the heap that has not been handed out. -/
  fresh : ∀ p : UInt64, p.toNat % 4096 = 0 →
    K.heap.heapStart.toNat + m.heapOffset.toNat ≤ p.toNat → p.toNat + 4096 ≤ K.heap.heapEnd.toNat →
    ¬ m.IsTable ((p - m.kernelOffset).toNat / 4096)
  /-- Bits 52 to 63 of the entries that point to tables are clear. -/
  clear : ∀ p t i s, m.tableAt p = some t → x86.child p.length (entryAt m.mem t i) = some s →
    (entryAt m.mem t i).toNat < 2 ^ 52
  /-- There are no large pages. -/
  small : ∀ v l, m.look v = some l → l.1 = 3

variable {K} {m : Machine}

/-- A page whose first byte is mapped at the distance `offset` is mapped at it as a whole. -/
theorem translate_page_linear {offset p v : UInt64} (hoff : offset.toNat % 4096 = 0)
    (hp : p.toNat % 4096 = 0) (h : m.translate p = some (p - offset).toNat)
    (hv : v.toNat / 4096 = p.toNat / 4096) : m.translate v = some (v - offset).toNat := by
  obtain ⟨hmod, hmove⟩ := Machine.translate_page hv.symm h
  rw [hmove]
  refine congrArg some ?_
  have hpl := p.toNat_lt
  have hvl := v.toNat_lt
  have hol := offset.toNat_lt
  rw [UInt64.toNat_sub, UInt64.toNat_sub]
  omega

/-- What the kernel's paging code relies on: the pages of the image that are mapped at the distance
`KERNEL_OFFSET`. -/
def Ready.space (h : K.Ready m) : Space where
  heap := K.heap
  offset := m.kernelOffset
  pml4 := K.pml4
  region := {n | n ∈ K.imagePages ∧
    ∀ v : UInt64, v.toNat / 4096 = n → m.translate v = some (v - m.kernelOffset).toNat}
  offset_aligned := h.offset_aligned
  pml4_aligned := K.pml4_aligned
  lt_heapStart := K.lt_heapStart

theorem Ready.sound (h : K.Ready m) : h.space.Sound m where
  heapOffset_le := h.heapOffset_le
  root := h.root
  separated := h.separated
  linear := fun v hv ↦ hv.2 v rfl
  free_mem := by
    rintro p ⟨hp, hlow, hend⟩
    have hbase := K.heap_mem.1
    have hfin := K.heap_mem.2
    have hlow' : K.heap.heapStart.toNat + m.heapOffset.toNat ≤ p.toNat := hlow
    have hend' : p.toNat + 4096 ≤ K.heap.heapEnd.toNat := hend
    refine ⟨⟨by omega, by omega⟩, fun v hv ↦ ?_⟩
    exact translate_page_linear h.offset_aligned hp (h.heap p hp hlow' hend') hv
  tables := by
    intro t ht
    obtain ⟨hmem, htr⟩ := h.tables t ht
    have hlt := Machine.isTable_lt ht
    have hsub := Space.toNat_pointer_sub (S := h.space) hlt
    have hmod := Space.toNat_pointer_mod (S := h.space) hlt
    exact ⟨hmem, fun v hv ↦
      translate_page_linear h.offset_aligned hmod (htr.trans (congrArg some hsub.symm)) hv⟩
  clear := h.clear
  fresh := fun p hp ↦ h.fresh p hp.1 hp.2.1 hp.2.2

/-! ### The helpers -/

section Helpers

variable {S : Space} (hheap : S.heap = K.heap)
include hheap

/-- `get_or_create_table` does its part at every entry that does not map a large page. -/
theorem getsTable : Space.GetsTable S S.offset K.getOrCreateTable := by
  intro m p t i idx h hk ht hp hi hsmall
  refine Exec.wp_bind (h.wp_loadEntry ⟨p, ht⟩ hi ?_)
  cases hpres : present (entryAt m.mem t idx) with
  | false =>
    rw [if_pos (by simp)]
    have halloc := Space.wp_kmallocPage h.heapOffset_le
    rw [hheap] at halloc
    refine Exec.wp_bind_of halloc ?_
    rintro a m₁ ⟨hne, hfree, o, rfl, hos, ho⟩
    rw [if_neg hne]
    rw [← hheap] at hos ho
    refine Exec.wp_bind (h.wp_clearPage hfree (Exec.wp_bind (Exec.wp_get ?_)))
    have hkeep := Space.keepsTables_withPage h hfree o
    have hsound := h.withPage hfree ho hos
    refine Exec.wp_bind (hsound.wp_storeEntry ⟨p, (hkeep.tableAt p).trans ht⟩ hi (Exec.wp_pure ?_))
    have hoff : (S.withPage m a o).kernelOffset = S.offset := hk
    obtain ⟨hs, hext, hat⟩ := h.createTable ht hp hpres hfree ho hos
      (congrArg (fun k ↦ presentRw (a - k)) hoff)
    exact ⟨hs, hext, S.frame a, (Space.pointer_frame hfree.1).symm, hat⟩
  | true =>
    rw [if_neg (by simp)]
    refine Exec.wp_bind (h.wp_loadEntry ⟨p, ht⟩ hi (Exec.wp_bind (Exec.wp_get (Exec.wp_pure ?_))))
    have hchild := child_of_pointer (d := p.length) hpres (hsmall hpres) hp
    refine ⟨h, Space.Extends.refl _ m, _, ?_, TreeFormat.reached_of_child ht hchild⟩
    rw [hk]
    exact h.pointer_of_entry ht hchild

end Helpers

/-- `get_table_if_exists` at an entry that does not map a large page: the pointer to the table
below, or `nullptr` when nothing is mapped through the entry. -/
theorem wp_getTableIfExists {S : Space} (h : S.Sound m) (hk : m.kernelOffset = S.offset)
    (hzero : 0 ∉ S.region) {v i : UInt64} {n t : ℕ} {idx : Index} (hn : n < 3)
    (ht : m.tableAt ((pathOf v).take n) = some t) (hi : i.toNat = idx)
    (hpath : (pathOf v).take (n + 1) = (pathOf v).take n ++ [idx])
    (hbig : ∀ l, m.look v = some l → n < l.1) {assume : Event → Prop} :
    (getTableIfExists (S.pointer t) i).wp assume (fun b m' ↦ m' = m ∧
      ((b = 0 ∧ ∀ w, (pathOf v).take (n + 1) <+: pathOf w → m.look w = none) ∨
        (b ≠ 0 ∧ ∃ s, b = S.pointer s ∧ m.tableAt ((pathOf v).take (n + 1)) = some s))) m := by
  have hlen : ((pathOf v).take n).length = n := length_take_pathOf v (by omega)
  have hsplit := Space.pathOf_split hpath
  refine Exec.wp_bind (h.wp_loadEntry ⟨_, ht⟩ hi ?_)
  cases hpres : present (entryAt m.mem t idx) with
  | false =>
    rw [if_pos (by simp)]
    refine Exec.wp_pure ⟨rfl, Or.inl ⟨rfl, fun w hpre ↦ ?_⟩⟩
    obtain ⟨rest, hrest⟩ := hpre
    rw [hpath, List.append_assoc, List.singleton_append] at hrest
    exact Machine.look_of_not_present hrest.symm ht hpres
  | true =>
    rw [if_neg (by simp)]
    refine Exec.wp_bind (h.wp_loadEntry ⟨_, ht⟩ hi (Exec.wp_bind (Exec.wp_get (Exec.wp_pure ?_))))
    have hsmall : large (entryAt m.mem t idx) = false := by
      by_contra hl
      have hlook := Machine.look_of_leaf hsplit ht hpres (by simpa using hl)
      rw [hlen] at hlook
      exact absurd (hbig _ hlook) (lt_irrefl n)
    have hchild := child_of_pointer (d := ((pathOf v).take n).length) hpres hsmall (by omega)
    have hnext : m.tableAt ((pathOf v).take (n + 1)) = some (frameOf (entryAt m.mem t idx)) := by
      rw [hpath]
      exact TreeFormat.reached_of_child ht hchild
    have hptr := h.pointer_of_entry ht hchild
    rw [hk, hptr]
    refine ⟨rfl, Or.inr ⟨fun hb ↦ hzero ?_, _, rfl, hnext⟩⟩
    have hreg := h.tables _ ⟨_, hnext⟩
    rw [hb] at hreg
    exact hreg

/-- One level of the routines that unmap: go on with the table below, if there is one. -/
theorem wp_ifTable {S : Space} (h : S.Sound m) (hk : m.kernelOffset = S.offset)
    (hzero : 0 ∉ S.region) {v i : UInt64} {n t : ℕ} {idx : Index} (hn : n < 3)
    (ht : m.tableAt ((pathOf v).take n) = some t) (hi : i.toNat = idx)
    (hpath : (pathOf v).take (n + 1) = (pathOf v).take n ++ [idx])
    (hbig : ∀ l, m.look v = some l → n < l.1) {assume : Event → Prop} {f : UInt64 → Prog Unit}
    {Q : Unit → Machine → Prop}
    (hnone : (∀ w, (pathOf v).take (n + 1) <+: pathOf w → m.look w = none) → Q () m)
    (hsome : ∀ s, m.tableAt ((pathOf v).take (n + 1)) = some s →
      (f (S.pointer s)).wp assume Q m) :
    (do let b ← getTableIfExists (S.pointer t) i
        if b = 0 then pure () else f b : Prog Unit).wp assume Q m := by
  refine Exec.wp_bind_of (wp_getTableIfExists h hk hzero hn ht hi hpath hbig) ?_
  rintro b m' ⟨rfl, ⟨rfl, hempty⟩ | ⟨hne, s, rfl, hs⟩⟩
  · rw [if_pos rfl]
    exact Exec.wp_pure (hnone hempty)
  · rw [if_neg hne]
    exact hsome s hs

/-! ### One page -/

section Pages

variable {S : Space} (hheap : S.heap = K.heap) (hpml4 : S.pml4 = K.pml4)

include hheap hpml4 in
/-- `map_4k` on a tree without large pages, away from the region. -/
theorem wp_map4k (h : S.Sound m) (hk : m.kernelOffset = S.offset) {virt phys count : UInt64}
    (hsmall : ∀ v l, m.look v = some l → l.1 = 3)
    (havoid : ∀ i < count.toNat, ∀ w : UInt64, w.toNat / 4096 ∈ S.region →
      pageOf (rangePage virt i) ≠ pageOf w) :
    (K.map4k virt phys count).wp Event.Allocates (fun _ ↦ S.Stage 3 m
      (Space.overlay 3 (rangePage virt) (fun i ↦ presentRw (rangePage phys i)) m.look count.toNat))
        m := by
  refine Space.Stage.loop h fun i hi m' hm' ↦ ?_
  rw [← hpml4]
  refine hm'.sound.wp_place4k ?_ (fun l hl ↦ ?_) (fun w hw hpre ↦ ?_)
  · rw [hm'.kernelOffset, hk]
    exact getsTable hheap
  · rw [hm'.look] at hl
    exact (Space.overlay_cases hl).elim (hsmall _ l) id
  · exact absurd (prefix_four_iff.1 hpre) (havoid i hi w hw)

/-- Where nothing is mapped below an entry, clearing the entry is nothing to do. -/
theorem remapped_of_none {va : UInt64} {n : ℕ}
    (h : ∀ w, (pathOf va).take (n + 1) <+: pathOf w → m.look w = none) :
    Space.Remapped n va 0 m m := by
  refine ⟨fun w ↦ ?_, fun _ _ _ ht ↦ ht, fun _ hq ↦ absurd rfl hq, rfl⟩
  split
  · next hpre => exact h w hpre
  · rfl

/-- A shorter prefix. -/
theorem take_prefix_of_le {va w : UInt64} {k n : ℕ} (hkn : k ≤ n)
    (h : (pathOf va).take n <+: pathOf w) :
    (pathOf va).take k <+: pathOf w :=
  (List.take_prefix_take_left hkn).trans h

include hpml4 in
/-- Clearing the entry of one page. If an entry is cleared, `virt` is flushed. -/
theorem wp_unmapPage (h : S.Sound m) (hk : m.kernelOffset = S.offset) (hzero : 0 ∉ S.region)
    {virt va : UInt64} (hsmall : ∀ l, m.look va = some l → l.1 = 3)
    (havoid : ∀ w : UInt64, w.toNat / 4096 ∈ S.region → ¬ (pathOf va).take 4 <+: pathOf w)
    {assume : Event → Prop} :
    (K.unmapPage virt va).wp assume (fun _ m' ↦ (S.Sound m' ∧ Space.Remapped 3 va 0 m m') ∧
      (m' = m ∨ assume (Event.invlpg virt))) m := by
  have hdepth : ∀ n < 3, ∀ l, m.look va = some l → n < l.1 := fun n hn l hl ↦ by
    rw [hsmall l hl]
    exact hn
  -- where nothing is mapped the call does nothing, and nothing is what it has to leave
  have hskip {k : ℕ} (hk : k < 4) (hnone : ∀ w, (pathOf va).take (k + 1) <+: pathOf w →
      m.look w = none) :
      (S.Sound m ∧ Space.Remapped 3 va 0 m m) ∧ (m = m ∨ assume (Event.invlpg virt)) :=
    ⟨⟨h, remapped_of_none fun w hpre ↦ hnone w (take_prefix_of_le hk hpre)⟩, Or.inl rfl⟩
  have hroot : S.pointer m.root = K.pml4 := by
    rw [h.root, Space.pointer_frame S.pml4_aligned, hpml4]
  rw [unmapPage, ← hroot]
  refine wp_ifTable h hk hzero (by omega) rfl (toNat_pml4Index va) rfl (hdepth 0 (by omega))
    (hskip (k := 0) (by omega)) fun s₁ ht₁ ↦ ?_
  refine wp_ifTable h hk hzero (by omega) ht₁ (toNat_pdptIndex va) rfl (hdepth 1 (by omega))
    (hskip (k := 1) (by omega)) fun s₂ ht₂ ↦ ?_
  refine wp_ifTable h hk hzero (by omega) ht₂ (toNat_pdIndex va) rfl (hdepth 2 (by omega))
    (hskip (k := 2) (by omega)) fun s₃ ht₃ ↦ ?_
  have hdesc : Space.Descended S m va 3 (S.pointer s₃) m :=
    ⟨h, Space.Extends.refl 3 m, s₃, rfl, ht₃⟩
  refine Exec.wp_bind_of (hdesc.store (le_refl 3) rfl (toNat_ptIndex va) (child_zero 3) ?_) ?_
  · exact fun w hw hpre ↦ absurd hpre (havoid w hw)
  · exact fun _ m' hm' ↦ Exec.wp_emit fun hflush ↦ ⟨hm', Or.inr hflush⟩

include hpml4 in
/-- Clearing the entry of a page directory, whatever it maps. -/
theorem wp_unmapLarge (h : S.Sound m) (hk : m.kernelOffset = S.offset) (hzero : 0 ∉ S.region)
    {virt va : UInt64} (hsize : ∀ l, m.look va = some l → 2 ≤ l.1)
    (havoid : ∀ w : UInt64, w.toNat / 4096 ∈ S.region → ¬ (pathOf va).take 3 <+: pathOf w)
    {assume : Event → Prop} :
    (K.unmapLarge virt va).wp assume (fun _ m' ↦ (S.Sound m' ∧ Space.Remapped 2 va 0 m m') ∧
      (m' = m ∨ assume (Event.invlpg virt))) m := by
  have hskip {k : ℕ} (hk : k < 3) (hnone : ∀ w, (pathOf va).take (k + 1) <+: pathOf w →
      m.look w = none) :
      (S.Sound m ∧ Space.Remapped 2 va 0 m m) ∧ (m = m ∨ assume (Event.invlpg virt)) :=
    ⟨⟨h, remapped_of_none fun w hpre ↦ hnone w (take_prefix_of_le hk hpre)⟩, Or.inl rfl⟩
  have hroot : S.pointer m.root = K.pml4 := by
    rw [h.root, Space.pointer_frame S.pml4_aligned, hpml4]
  rw [unmapLarge, ← hroot]
  refine wp_ifTable (n := 0) h hk hzero (by omega) rfl (toNat_pml4Index va) rfl
    (fun l hl ↦ Nat.lt_of_lt_of_le (by decide) (hsize l hl)) (hskip (k := 0) (by omega))
    fun s₁ ht₁ ↦ ?_
  refine wp_ifTable h hk hzero (by omega) ht₁ (toNat_pdptIndex va) rfl (fun l hl ↦ hsize l hl)
    (hskip (k := 1) (by omega)) fun s₂ ht₂ ↦ ?_
  have hdesc : Space.Descended S m va 2 (S.pointer s₂) m :=
    ⟨h, Space.Extends.refl 2 m, s₂, rfl, ht₂⟩
  refine Exec.wp_bind_of (hdesc.store (by omega) rfl (toNat_pdIndex va) (child_zero 2) ?_) ?_
  · exact fun w hw hpre ↦ absurd hpre (havoid w hw)
  · exact fun _ m' hm' ↦ Exec.wp_emit fun hflush ↦ ⟨hm', Or.inr hflush⟩

include hpml4 in
/-- `unmap_4k` on a tree without large pages, away from the region. -/
theorem wp_unmap4k (h : S.Sound m) (hk : m.kernelOffset = S.offset) (hzero : 0 ∉ S.region)
    {virt count : UInt64} (hsmall : ∀ v l, m.look v = some l → l.1 = 3)
    (havoid : ∀ i < count.toNat, ∀ w : UInt64, w.toNat / 4096 ∈ S.region →
      pageOf (rangePage virt i) ≠ pageOf w) {assume : Event → Prop} :
    (K.unmap4k virt count).wp assume (fun _ ↦ S.Stage 3 m
      (Space.overlay 3 (rangePage virt) (fun _ ↦ 0) m.look count.toNat)) m := by
  refine Space.Stage.loop h fun i hi m' hm' ↦ ?_
  refine Exec.wp_mono
    (wp_unmapPage hpml4 hm'.sound (hm'.kernelOffset.trans hk) hzero (fun l hl ↦ ?_)
    fun w hw hpre ↦ havoid i hi w hw (prefix_four_iff.1 hpre)) fun _ _ h ↦ h.1
  rw [hm'.look] at hl
  exact (Space.overlay_cases hl).elim (hsmall _ l) id

end Pages

end Kernel

end Aidos.Paging
