import Aidos.Paging.HigherHalf
import Aidos.Paging.KernelMapping
import Aidos.Paging.VirtToPhys

/-!
# From the tables of the bootloader to those of the kernel

The mapping calls of the kernel work on a tree that is `Ready` for them. What `setup_paging` has to
find for this is that the image was loaded page by page at one distance from physical memory
(`Booted`). Then `virt_to_phys`, which looks for large pages one level too high, is right about the
image, and the tree that `setup_paging` leaves is ready (`Booted.setup_paging_ready`).
-/

namespace Aidos.Paging

open ByteMemory Memory

/-- The walk to a small page. -/
theorem Machine.exists_of_look_small {m : Machine} {v e : UInt64} (h : m.look v = some (3, e)) :
    ∃ t₁ t₂ t₃, x86.child 0 (entryAt m.mem m.root (index 39 v)) = some t₁ ∧
      x86.child 1 (entryAt m.mem t₁ (index 30 v)) = some t₂ ∧
      x86.child 2 (entryAt m.mem t₂ (index 21 v)) = some t₃ ∧
      e = entryAt m.mem t₃ (index 12 v) ∧ present e = true := by
  rw [Machine.look, lookAt, pathOf] at h
  obtain ⟨t₁, h₁, h⟩ := TreeFormat.child_of_look h (by simp)
  obtain ⟨t₂, h₂, h⟩ := TreeFormat.child_of_look h (by simp)
  obtain ⟨t₃, h₃, h⟩ := TreeFormat.child_of_look h (by simp)
  rw [TreeFormat.look_cons_of_none [] (child_bottom _), leaf_bottom] at h
  split at h
  · next hpresent =>
    obtain rfl := congrArg Prod.snd (Option.some.inj h)
    exact ⟨t₁, t₂, t₃, h₁, h₂, h₃, rfl, hpresent⟩
  · exact absurd h (by simp)

namespace Kernel

/-- The machine that the kernel starts on: its image was loaded page by page, at the distance `k`
from physical memory. The old PML4 is at the pointer `old`. -/
structure Booted (K : Kernel) (old k : UInt64) (m : Machine) : Prop where
  /-- The old PML4 is in use. -/
  root : old.toNat = 4096 * m.root
  /-- The old tables are identity-mapped. -/
  identity : ∀ t, m.IsTable t → m.translate (UInt64.ofNat (4096 * t)) = some (4096 * t)
  /-- Bit 63 of the entries that point to tables is clear. -/
  clear : ∀ p t i s, m.tableAt p = some t → x86.child p.length (entryAt m.mem t i) = some s →
    (entryAt m.mem t i).toNat < 2 ^ 63
  /-- The distance is a whole number of pages. -/
  offset_aligned : k.toNat % 4096 = 0
  /-- The image is mapped at that distance, below `2 ^ 48`. -/
  linear : ∀ p : UInt64, p.toNat / 4096 ∈ K.imagePages →
    m.translate p = some (p - k).toNat ∧ (p - k).toNat < 2 ^ 48
  /-- The upper half has no large pages. -/
  small : ∀ v, Upper v → ∀ l, m.look v = some l → l.1 = 3
  /-- Memory of the image is not memory of the old tables. -/
  apart : ∀ p : UInt64, p.toNat / 4096 ∈ K.imagePages → ¬ m.IsTable ((p - k).toNat / 4096)
  /-- The allocator is within its heap. -/
  heapOffset_le : m.heapOffset.toNat ≤ K.heap.heapSize.toNat

variable {K : Kernel} {old k : UInt64} {m₀ m : Machine}

namespace Booted

variable (h : K.Booted old k m₀)
include h

theorem page_root : m₀.Page old m₀.root := by
  have hid := h.identity m₀.root ⟨[], rfl⟩
  have hpage := (page_of_identity ⟨[], rfl⟩ hid).1
  rwa [← h.root, UInt64.ofNat_toNat] at hpage

/-- The next table, at the address in an entry. -/
theorem page_child {p : List Index} {t s : ℕ} {i : Index} (ht : m₀.tableAt p = some t)
    (hs : x86.child p.length (entryAt m₀.mem t i) = some s) :
    m₀.tableAt (p ++ [i]) = some s ∧ m₀.Page (entryAt m₀.mem t i &&& addrMask) s := by
  have hnext := TreeFormat.reached_of_child ht hs
  obtain ⟨hpage, hlt⟩ := page_of_identity ⟨_, hnext⟩ (h.identity s ⟨_, hnext⟩)
  obtain ⟨-, -, -, rfl⟩ := child_eq_some hs
  rw [← toNat_and_addrMask (Nat.lt_trans hlt (by decide)), UInt64.ofNat_toNat] at hpage
  exact ⟨hnext, hpage⟩

/-- **`virt_to_phys` is right about the image**, as long as the old tables are kept. -/
theorem wp_virtToPhys (hk : m₀.KeepsTables m) {p : UInt64} (hp : p.toNat / 4096 ∈ K.imagePages)
    {assume : Event → Prop} :
    (virtToPhys p old).wp assume (fun x m' ↦ m' = m ∧ m₀.translate p = some x.toNat) m := by
  obtain ⟨hlinear, hlow⟩ := h.linear p hp
  have hcanonical := Machine.canonical_of_translate hlinear
  rw [Machine.translate_eq hcanonical] at hlinear
  obtain ⟨⟨depth, e⟩, hlook, hphysical⟩ := Option.bind_eq_some_iff.1 hlinear
  obtain rfl : depth = 3 := h.small p (upper_of_imagePages hp) _ hlook
  obtain ⟨t₁, t₂, t₃, h₁, h₂, h₃, he, hpresent⟩ := Machine.exists_of_look_small hlook
  have hroot : m₀.tableAt [] = some m₀.root := rfl
  obtain ⟨ht₁, hpage₁⟩ := h.page_child hroot h₁
  obtain ⟨ht₂, hpage₂⟩ := h.page_child ht₁ h₂
  obtain ⟨ht₃, hpage₃⟩ := h.page_child ht₂ h₃
  obtain ⟨hp₁, -, hl₁, -⟩ := child_eq_some h₁
  obtain ⟨hp₂, -, hl₂, -⟩ := child_eq_some h₂
  obtain ⟨hp₃, -, -, -⟩ := child_eq_some h₃
  refine Exec.wp_bind (wp_loadOld hk ⟨[], rfl⟩ h.page_root (toNat_pml4Index p) ?_)
  rw [if_neg (by simp [hp₁]), if_neg (by simp [hl₁])]
  refine Exec.wp_bind (wp_loadOld hk ⟨_, ht₁⟩ hpage₁ (toNat_pdptIndex p) ?_)
  rw [if_neg (by simp [hp₂]), if_neg (by simp [hl₂])]
  refine Exec.wp_bind (wp_loadOld hk ⟨_, ht₂⟩ hpage₂ (toNat_pdIndex p) ?_)
  rw [if_neg (by simp [hp₃])]
  refine Exec.wp_bind (wp_loadOld hk ⟨_, ht₃⟩ hpage₃ (toNat_ptIndex p) ?_)
  rw [← he, if_neg (by simp [hpresent])]
  have hframe : frameOf e < 2 ^ 36 := by
    have hsum := Option.some.inj ((physical_bottom p e).symm.trans hphysical)
    omega
  rw [Machine.answer_page4k hframe hphysical, UInt64.ofNat_toNat]
  exact Exec.wp_pure ⟨rfl, (h.linear p hp).1⟩

/-- Asking it for a page of the image. -/
theorem wp_resolve (hk : m₀.KeepsTables m) {p : UInt64} (hp : p.toNat / 4096 ∈ K.imagePages)
    {assume : Event → Prop} :
    (resolve p old).wp assume (fun x m' ↦ m' = m ∧ m₀.translate p = some x.toNat) m := by
  refine Exec.wp_bind_of (h.wp_virtToPhys hk hp) ?_
  rintro x _ ⟨rfl, hx⟩
  exact Exec.wp_bind (Exec.wp_emit fun _ ↦ Exec.wp_pure ⟨rfl, hx⟩)

omit h in
/-- Its image is mapped where `setup_paging` takes it to be. -/
theorem placed (h : K.Booted old k m₀) : K.Placed k m₀ where
  offset_aligned := h.offset_aligned
  linear := fun p hp ↦ (h.linear p hp).1
  clear := h.clear

/-- It is a machine that is handed over. -/
theorem handedOver : K.HandedOver old m₀ where
  root := h.root
  identity := h.identity
  apart := by
    intro p q hp hq
    rw [(h.linear p hp).1] at hq
    exact Option.some.inj hq ▸ h.apart p hp
  own := by
    intro p p' q hp hp' hq hq'
    rw [(h.linear p hp).1] at hq
    rw [(h.linear p' hp').1] at hq'
    have hsame : p - k = p' - k := UInt64.toNat_inj.1 (Option.some.inj (hq.trans hq'.symm))
    rw [← UInt64.sub_add_cancel p k, hsame, UInt64.sub_add_cancel]
  heapOffset_le := h.heapOffset_le
  pml4 := by
    have hwp : (virtToPhys K.pml4 old).wp (fun _ ↦ True) _ m₀ :=
      h.wp_virtToPhys ⟨rfl, fun _ _ ↦ rfl⟩ pml4_page
    obtain ⟨x, m', es, hrun, -⟩ := Exec.exists_run_of_wp hwp
    exact ⟨⟨_, (h.linear _ pml4_page).1⟩, x, m', es, hrun⟩

/-- Where no allocation fails, `setup_paging` gets what it relies on. -/
theorem trusts : K.Trusts old m₀ Event.Allocates where
  nonzero := fun _ hp hzero ↦ hp (congrArg Event.alloc hzero)
  mapped := fun p hp _ ↦ ⟨_, (h.linear p hp).1⟩
  resolve := fun _ hp _ hk ↦ h.wp_resolve hk hp
  resolve_pml4 := fun hk ↦ h.wp_resolve hk pml4_page

end Booted

/-- **The tree that is left is ready** for the mapping calls. -/
theorem SetUp.ready {s : ℕ} (h₀ : K.Booted old k m₀)
    (h : K.SetUp k (fun e ↦ e.toNat < 2 ^ 52) m₀ s m) : K.Ready m := by
  refine Working.ready (S := K.space k h₀.offset_aligned K.imagePages) rfl rfl subset_rfl
    ⟨h.sound h₀.handedOver h₀.placed, h.kernelOffset, fun v l hl ↦ ?_⟩
  have hcopy := h.upperCopy h₀.handedOver
  by_cases hv : Upper v
  · exact h₀.small v hv l ((hcopy.look v hv).symm.trans hl)
  · rw [(hcopy.lower v hv).2] at hl
    exact absurd hl (by simp)

/-- **`setup_paging` makes the kernel ready.** On an image that was loaded page by page at one
distance from physical memory, if no allocation fails, `setup_paging` with that distance returns.
The tree it leaves has the upper half of the old tree, in pages of its own, and the mapping calls of
the kernel can work on it. -/
theorem Booted.setup_paging_ready (h : K.Booted old k m₀) :
    (K.setupPaging old k).wp Event.Allocates
      (fun _ m ↦ K.Ready m ∧ UpperCopy m₀ m ∧ m.kernelOffset = k) m₀ := by
  refine Exec.wp_mono (h.handedOver.wp_setupPaging_of_trusts
    (fun e ↦ e.toNat < 2 ^ 52) h.trusts
    (fun _ _ _ _ _ ht hs hx ↦ h.placed.good ht hs hx) k) ?_
  rintro _ m ⟨s, hm⟩
  exact ⟨hm.ready h, hm.upperCopy h.handedOver, hm.kernelOffset⟩

/-! ### A kernel of eighteen pages -/

theorem kernelBase_aligned : kernelBase.toNat % 4096 = 0 := rfl

/-- A kernel image of eighteen pages: the PML4, a page for other objects, and a heap of sixteen
pages. -/
def roomy : Kernel where
  heap :=
    { heapStart := 0xFFFF800000002000
      heapEnd := 0xFFFF800000012000
      start_pos := by decide
      start_le_end := by decide }
  pml4 := 0xFFFF800000000000
  imageEnd := 0xFFFF800000012000
  pml4_aligned := kernelBase_aligned
  pml4_mem := by decide
  heap_mem := by decide
  heap_apart := by decide

/-- The memory it starts on. The first GiB is mapped to itself, and the image to the pages from 1
MiB on. Frame 2 holds the first structure of the bootloader, frame 3 the second one, whose members
lie across the words, and frame 245 the RSDP with its signature. -/
def bootedEntries (f i : ℕ) : UInt64 :=
  match f, i with
  | 2, 256 => 0xF5A2000000000
  | 3, 0 => 0x1000000
  | 3, 1 => 0x10000000
  | 16, 0 => 0x11003
  | 16, 256 => 0x12003
  | 17, 0 => 0x83
  | 18, 0 => 0x13003
  | 19, 0 => 0x14003
  | 20, i => if i < 18 then UInt64.ofNat (0x100003 + 4096 * i) else 0
  | 245, 324 => 0x2052545020445352
  | _, _ => 0

/-- The machine on which the kernel starts. -/
def bootedMachine : Machine where
  mem := ofEntries bootedEntries
  cr3 := 0x10000
  heapOffset := 0
  kernelOffset := 0

/-- The old tables and their paths. -/
def bootedTables : List (List Index × ℕ) :=
  [([], 16), ([0], 17), ([256], 18), ([256, 0], 19), ([256, 0, 0], 20)]

theorem entryAt_bootedMachine (t : ℕ) (i : Index) :
    entryAt bootedMachine.mem t i = bootedEntries t i := entryAt_ofEntries bootedEntries t i

theorem mem_bootedTables {p : List Index} {t : ℕ} (h : bootedMachine.tableAt p = some t) :
    (p, t) ∈ bootedTables := by
  have hclosed : ∀ a ∈ bootedTables, ∀ i : Index,
      ∀ s ∈ x86.child a.1.length (bootedEntries a.2 i), (a.1 ++ [i], s) ∈ bootedTables := by
    decide +kernel
  refine TreeFormat.mem_of_closed (by decide) (fun a ha i s hs ↦ hclosed a ha i s ?_) h
  rw [← entryAt_bootedMachine a.2 i]
  exact hs

/-- The image is mapped from 1 MiB on. -/
theorem translate_bootedMachine {p : UInt64} (hp : p.toNat / 4096 ∈ roomy.imagePages) :
    bootedMachine.translate p = some (p - 0xFFFF7FFFFFF00000).toNat ∧
      (p - 0xFFFF7FFFFFF00000).toNat = 0x100000 + (p.toNat - kernelBase.toNat) ∧
      p.toNat - kernelBase.toNat < 18 * 4096 := by
  have hlow : 0xFFFF800000000 ≤ p.toNat / 4096 := hp.1
  have hend : p.toNat / 4096 * 4096 < 0xFFFF800000012000 := hp.2
  have hbase : kernelBase.toNat = 0xFFFF800000000000 := rfl
  have hall : ∀ i < 18, bootedMachine.translate (0xFFFF800000000000 + UInt64.ofNat (4096 * i)) =
      some (0xFFFF800000000000 + UInt64.ofNat (4096 * i) - 0xFFFF7FFFFFF00000).toNat ∧
      (0xFFFF800000000000 + UInt64.ofNat (4096 * i)).toNat = 0xFFFF800000000000 + 4096 * i := by
    decide +kernel
  obtain ⟨htranslate, hpage⟩ := hall ((p.toNat - kernelBase.toNat) / 4096) (by omega)
  refine ⟨translate_page_linear (by decide) (by omega) htranslate (by omega), ?_, by omega⟩
  have hoffset : (0xFFFF7FFFFFF00000 : UInt64).toNat = 0xFFFF7FFFFFF00000 := rfl
  rw [UInt64.toNat_sub, hoffset]
  omega

theorem booted_bootedMachine : roomy.Booted 0x10000 0xFFFF7FFFFFF00000 bootedMachine where
  root := rfl
  identity := by
    rintro t ⟨p, hp⟩
    have hall : ∀ a ∈ bootedTables,
        bootedMachine.translate (UInt64.ofNat (4096 * a.2)) = some (4096 * a.2) := by
      decide +kernel
    exact hall _ (mem_bootedTables hp)
  clear := by
    intro p t i s ht hs
    have hall : ∀ a ∈ bootedTables, ∀ i : Index, (bootedEntries a.2 i).toNat < 2 ^ 63 := by
      decide +kernel
    rw [entryAt_bootedMachine]
    exact hall _ (mem_bootedTables ht) i
  offset_aligned := by decide
  linear := by
    intro p hp
    obtain ⟨htranslate, hphys, hlt⟩ := translate_bootedMachine hp
    exact ⟨htranslate, by omega⟩
  small := by
    intro v hv l hl
    have hall : ∀ a ∈ bootedTables, ∀ i : Index,
        x86.leaf a.1.length (bootedEntries a.2 i) = true → a.1 = [0] ∨ a.1.length = 3 := by
      decide +kernel
    obtain ⟨p, t, i, ht, hpre, rfl, hleaf⟩ := Machine.exists_of_look hl
    rw [entryAt_bootedMachine] at hleaf
    refine (hall _ (mem_bootedTables ht) i hleaf).resolve_left fun hp ↦ ?_
    -- the only large page is in the lower half
    have hp' : p = [0] := hp
    obtain ⟨rest, hrest⟩ := hpre
    rw [hp', pathOf, List.cons_append, List.cons_append, List.cons.injEq] at hrest
    rw [upper_iff, ← hrest.1] at hv
    exact absurd hv (by decide)
  apart := by
    rintro p hp ⟨path, hpath⟩
    obtain ⟨-, hphys, hlt⟩ := translate_bootedMachine hp
    have hall : ∀ a ∈ bootedTables, a.2 < 21 := by decide
    have hframe := hall _ (mem_bootedTables hpath)
    dsimp only at hframe
    omega
  heapOffset_le := by decide

theorem setup_paging_ready_booted :
    (roomy.setupPaging 0x10000 0xFFFF7FFFFFF00000).wp Event.Allocates
      (fun _ m ↦ roomy.Ready m ∧ UpperCopy bootedMachine m ∧
        m.kernelOffset = 0xFFFF7FFFFFF00000) bootedMachine :=
  booted_bootedMachine.setup_paging_ready

end Kernel

end Aidos.Paging
