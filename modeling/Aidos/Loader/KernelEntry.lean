import Aidos.Loader.LoadedKernel
import Aidos.Paging.KernelMain
import Aidos.Stage2.MemoryMap

/-!
# From `stage2_main` into the kernel

`stage2_main` once more, with the two structures that it hands over where they are in memory:
`boot_info`, which it finds filled, and `bootInfoExtended`, which it fills (`stage2MainAt`). Where
`stage2Main`, to which the two are values, jumps to a kernel, it jumps there too and leaves the same
values in memory (`wp_stage2Main`, `wp_jump`).

The jump takes it to the kernel's `main`. From `setup_paging` to the kernel's endless loop nothing
faults, and in the end the image of the kernel is all that is mapped (`wp_boot`).
-/

namespace Aidos.Loader

open ByteMemory Paging
open Aidos.Stage2 (Image memMapCountOffset searchFrom searchFrom_fst regionSearch regionBase
  regionLength regionType usable)

variable {σ : Type}

/-! ### `stage2_main` and its structures -/

/-- Store a member of `n` bytes of a packed structure. -/
def storePacked (v : UInt64) (n x : ℕ) : Prog Unit :=
  storeRun v (fun i ↦ UInt8.ofNat (x / 256 ^ i)) n

/-- The structures of the second stage. -/
structure Structures where
  /-- `boot_info`. -/
  bootInfo : UInt64
  /-- `bootInfoExtended`. -/
  bootInfoExtended : UInt64

/-- The loop over the memory map, from entry `i` on with `n` entries left; zero stands for
`nullptr`. -/
def findKernelStart (G : Structures) : ℕ → ℕ → Prog UInt64
  | 0, _ => pure 0
  | n + 1, i => do
    let region := G.bootInfo + UInt64.ofNat (24 * i)
    let base ← loadPacked region 8
    if 0x100000 ≤ base then do
      let length ← loadPacked (region + 8) 8
      if 0x100000 ≤ length then do
        let type ← loadPacked (region + 16) 4
        if type = 1 then do
          storePacked G.bootInfoExtended 1 i
          pure (UInt64.ofNat base)
        else findKernelStart G n (i + 1)
      else findKernelStart G n (i + 1)
    else findKernelStart G n (i + 1)

/-- `sizeof(FAT12FileSystem)`. -/
def sizeofFat12FileSystem : UInt64 := 9584

/-- `stage2_main()`, without the text it prints: the entry point it jumps to, if it does. -/
def stage2MainAt (B : Boot) (D : Drivers σ) (G : Structures) (rest : Leftovers) :
    Load σ (Option UInt64) := do
  Exec.onFst LoadEvent.paging B.setupPaging
  Exec.onFst LoadEvent.paging (storePacked (G.bootInfoExtended + pml4AddressOffset) 8 B.pml4.toNat)
  if !D.ata then pure none
  else match D.fs with
    | none => pure none
    | some fs => do
      -- the driver object that `detectAndMount` has made with `new`
      let _ ← Exec.onFst LoadEvent.paging (kmalloc B.heap sizeofFat12FileSystem 8)
      if !D.kernel then pure none
      else do
        let count ← Exec.onFst LoadEvent.paging
          (loadPacked (G.bootInfo + UInt64.ofNat memMapCountOffset) 4)
        let kernelStart ← Exec.onFst LoadEvent.paging (findKernelStart G count 0)
        if kernelStart = 0 then pure none
        else do
          let info ← readElf B fs rest kernelStart
          Exec.onFst LoadEvent.paging
            (storePacked (G.bootInfoExtended + kernelPhysicalBaseOffset) 8 info.physBase.toNat)
          pure (some info.entry)

/-- `stage2_main()` and the `main` of the kernel behind the jump. -/
def boot (B : Boot) (D : Drivers σ) (G : Structures) (rest : Leftovers) (K : Kernel)
    (O : Objects) : Load σ (Option UInt64) := do
  match ← stage2MainAt B D G rest with
  | none => pure none
  | some entry => do
    Exec.modify fun s ↦ (enterKernel s.1, s.2)
    Exec.onFst LoadEvent.paging (K.main O G.bootInfo G.bootInfoExtended)
    pure (some entry)

variable {B : Boot} {D : Drivers σ} {G : Structures} {S : Source σ} {K : Kernel} {O : Objects}
  {img : Image} {file : List UInt8} {data a : UInt64} {mem : ℕ → UInt8} {m m₀ m₁ : Machine}

/-! ### Low memory that the paging code leaves alone -/

/-- A byte of low memory that is neither in a static table nor on the heap. -/
structure Spare (B : Boot) (q : ℕ) : Prop where
  /-- It is low memory. -/
  low : q < 0x100000
  /-- It is not in a static table. -/
  statics : ∀ p ∈ B.statics, q / 4096 ≠ p.toNat / 4096
  /-- It is not on the heap. -/
  heap : q < B.heap.heapStart.toNat ∨ B.heap.heapEnd.toNat ≤ q

theorem Spare.not_inUse {q : ℕ} (h : Spare B q) (hm : B.Started m) : q / 4096 ∉ B.inUse m := by
  rintro (ht | ⟨p, ⟨hmod, hlow, hend⟩, heq⟩)
  · obtain ⟨t, ht', heq⟩ := hm.exists_static ht
    exact h.statics t ht' heq
  · have hlow' : B.heap.heapStart.toNat + m.heapOffset.toNat ≤ p.toNat := hlow
    have hend' : p.toNat + 4096 ≤ B.heap.heapEnd.toNat := hend
    have hheap := h.heap
    omega

/-- An object of `n` bytes in such memory. -/
def LowObject (B : Boot) (p : UInt64) (n : ℕ) : Prop := ∀ i < n, Spare B (p.toNat + i)

/-- Low memory is mapped to itself. -/
def LowMapped (m : Machine) : Prop :=
  ∀ v : UInt64, v.toNat < 0x100000 → m.translate v = some v.toNat

theorem LowObject.toNat_add {p : UInt64} {n i : ℕ} (h : LowObject B p n) (hi : i < n) :
    (p + UInt64.ofNat i).toNat = p.toNat + i := by
  have hlow := (h i hi).low
  rw [UInt64.toNat_add, UInt64.toNat_ofNat']
  omega

theorem LowObject.translate {p : UInt64} {n i : ℕ} (h : LowObject B p n) (hm : LowMapped m)
    (hi : i < n) : m.translate (p + UInt64.ofNat i) = some (p.toNat + i) := by
  have hsum := h.toNat_add hi
  rw [hm _ (hsum ▸ (h i hi).low), hsum]

/-- A member of the object. -/
theorem LowObject.member {p o : UInt64} {n k : ℕ} (h : LowObject B p n) (hk : o.toNat + k ≤ n)
    (hpos : 0 < k) : LowObject B (p + o) k ∧ (p + o).toNat = p.toNat + o.toNat := by
  have hsum : (p + o).toNat = p.toNat + o.toNat := by
    have hlow := (h o.toNat (by omega)).low
    rw [UInt64.toNat_add]
    omega
  refine ⟨fun i hi ↦ ?_, hsum⟩
  rw [hsum, Nat.add_assoc]
  exact h _ (by omega)

theorem LowObject.wp_loadPacked {p : UInt64} {n : ℕ} (h : LowObject B p n) (hm : LowMapped m)
    {assume : Event → Prop} :
    (loadPacked p n).wp assume (fun x m' ↦ m' = m ∧ x = littleEndian m.mem n p.toNat) m :=
  Paging.wp_loadPacked (fun _ hi ↦ h.translate hm hi) ⟨rfl, rfl⟩

theorem LowObject.wp_storePacked {p : UInt64} {n x : ℕ} (h : LowObject B p n) (hm : LowMapped m)
    (hfree : ∀ q, Spare B q → ¬ m.IsTable (q / 4096)) {assume : Event → Prop} :
    (storePacked p n x).wp assume
      (fun _ m' ↦ m' = { m with mem := writeNumber m.mem p.toNat n x }) m :=
  wp_storeRun (fun _ hi ↦ h.translate hm hi) (fun i hi ↦ hfree _ (h i hi)) rfl

/-! ### The search -/

/-- What the search leaves: the pointer, and the machine. -/
def found (G : Structures) (m : Machine) : Option (ℕ × UInt8) → UInt64 × Machine
  | none => (0, m)
  | some (base, i) =>
    (UInt64.ofNat base, { m with mem := writeNumber m.mem G.bootInfoExtended.toNat 1 i.toNat })

/-- **The search** finds what the memory map says. -/
theorem wp_findKernelStart (hlow : LowMapped m) (hfree : ∀ q, Spare B q → ¬ m.IsTable (q / 4096))
    (hinfo : LowObject B G.bootInfo sizeofBootInfo.toNat)
    (hext : LowObject B G.bootInfoExtended sizeofBootInfoExtended.toNat)
    (hG : G.bootInfo.toNat = img.bootInfo.toNat) (hmem : ∀ j < sizeofBootInfo.toNat,
      m.mem (img.bootInfo.toNat + j) = mem (img.bootInfo.toNat + j)) {assume : Event → Prop} :
    ∀ {n i : ℕ}, i + n ≤ 85 → (findKernelStart G n i).wp assume
      (fun x m' ↦ (x, m') = found G m (searchFrom img mem n i).1) m := by
  have hsize : sizeofBootInfo.toNat = 2061 := rfl
  intro n
  induction n with
  | zero => exact fun _ ↦ Exec.wp_pure rfl
  | succ n ih =>
    intro i hi
    have hrest := ih (i := i + 1) (by omega)
    have hof : (UInt64.ofNat (24 * i)).toNat = 24 * i := UInt64.toNat_ofNat_of_lt'
      (Nat.lt_of_lt_of_le (show 24 * i < 2061 by omega) (by decide))
    have hread : ∀ (o : UInt64) (k : ℕ), 0 < k → o.toNat + k ≤ 24 →
        (loadPacked (G.bootInfo + UInt64.ofNat (24 * i) + o) k).wp assume
          (fun x m' ↦ m' = m ∧
            x = littleEndian mem k (img.bootInfo.toNat + 24 * i + o.toNat)) m := by
      intro o k hpos hk
      obtain ⟨hregion, hregionNat⟩ := hinfo.member (o := UInt64.ofNat (24 * i)) (k := 24)
        (by omega) (by decide)
      obtain ⟨hobject, hnat⟩ := hregion.member hk hpos
      refine Exec.wp_mono (hobject.wp_loadPacked hlow) ?_
      rintro x _ ⟨rfl, rfl⟩
      refine ⟨rfl, littleEndian_congr fun j hj ↦ ?_⟩
      rw [hnat, hregionNat, hof, hG, Nat.add_assoc, Nat.add_assoc]
      exact hmem _ (by omega)
    have hbase : (loadPacked (G.bootInfo + UInt64.ofNat (24 * i)) 8).wp assume
        (fun x m' ↦ m' = m ∧ x = regionBase img mem i) m := by
      have hfirst := hread 0 8 (by decide) (by decide)
      rw [UInt64.add_zero] at hfirst
      exact hfirst
    have hlength : (loadPacked (G.bootInfo + UInt64.ofNat (24 * i) + 8) 8).wp assume
        (fun x m' ↦ m' = m ∧ x = regionLength img mem i) m := hread 8 8 (by decide) (by decide)
    have htype : (loadPacked (G.bootInfo + UInt64.ofNat (24 * i) + 16) 4).wp assume
        (fun x m' ↦ m' = m ∧ x = regionType img mem i) m := hread 16 4 (by decide) (by decide)
    rw [findKernelStart, searchFrom]
    refine Exec.wp_bind_of hbase ?_
    rintro _ _ ⟨rfl, rfl⟩
    by_cases hb : 0x100000 ≤ regionBase img mem i
    · rw [if_pos hb, if_pos hb]
      refine Exec.wp_bind_of hlength ?_
      rintro _ _ ⟨rfl, rfl⟩
      by_cases hl : 0x100000 ≤ regionLength img mem i
      · rw [if_pos hl, if_pos hl]
        refine Exec.wp_bind_of htype ?_
        rintro _ _ ⟨rfl, rfl⟩
        by_cases ht : regionType img mem i = 1
        · rw [if_pos ht, if_pos ht]
          have hindex : LowObject B G.bootInfoExtended 1 := fun j hj ↦
            hext j (Nat.lt_of_lt_of_le hj (by decide))
          refine Exec.wp_bind_of (hindex.wp_storePacked hlow hfree) ?_
          rintro _ _ rfl
          refine Exec.wp_pure ?_
          have hbyte : (UInt8.ofNat i).toNat = i := UInt8.toNat_ofNat_of_lt' (show i < 256 by omega)
          rw [found, hbyte]
        · rw [if_neg ht, if_neg ht]
          exact hrest
      · rw [if_neg hl, if_neg hl]
        exact hrest
    · rw [if_neg hb, if_neg hb]
      exact hrest

/-- Entry `k` of the memory map. -/
def regionAt (img : Image) (mem : ℕ → UInt8) (k : ℕ) : MemoryRegion where
  base := UInt64.ofNat (regionBase img mem k)
  length := UInt64.ofNat (regionLength img mem k)
  type := UInt32.ofNat (regionType img mem k)

/-- The memory map, as the list that `stage2Main` searches. -/
def memoryMapAt (img : Image) (mem : ℕ → UInt8)
    (hcount : littleEndian mem 4 (img.bootInfo.toNat + memMapCountOffset) ≤ 85) : BootInfo where
  memMap := (List.range (littleEndian mem 4 (img.bootInfo.toNat + memMapCountOffset))).map
    (regionAt img mem)
  length_le := by simpa using hcount

theorem suits_regionAt (img : Image) (mem : ℕ → UInt8) (k : ℕ) :
    (regionAt img mem k).suits = usable img mem k := by
  have hbase : (regionAt img mem k).base.toNat = regionBase img mem k :=
    UInt64.toNat_ofNat_of_lt' (littleEndian_lt _ _ _)
  have hlength : (regionAt img mem k).length.toNat = regionLength img mem k :=
    UInt64.toNat_ofNat_of_lt' (littleEndian_lt _ _ _)
  have htype : (regionAt img mem k).type.toNat = regionType img mem k :=
    UInt32.toNat_ofNat_of_lt' (littleEndian_lt _ _ _)
  rw [Bool.eq_iff_iff, MemoryRegion.suits, usable]
  simp only [ge_iff_le, UInt64.le_iff_toNat_le, Bool.and_eq_true, decide_eq_true_eq, beq_iff_eq,
    ← UInt32.toNat_inj, hbase, hlength, htype, and_assoc]
  rfl

theorem selectRegion_regionAt (img : Image) (mem : ℕ → UInt8) (n i : ℕ) :
    selectRegion i ((List.range' i n).map (regionAt img mem)) =
      ((List.range' i n).find? (usable img mem)).map fun k ↦ (k, regionAt img mem k) := by
  induction n generalizing i with
  | zero => rfl
  | succ n ih =>
    rw [List.range'_succ, List.map_cons, selectRegion, suits_regionAt, List.find?_cons, ih]
    cases usable img mem i <;> rfl

/-- The two searches find the same region. -/
theorem selectRegion_of_regionSearch
    (hcount : littleEndian mem 4 (img.bootInfo.toNat + memMapCountOffset) ≤ 85) {i : UInt8}
    (hregion : (regionSearch img mem).1 = some (data.toNat, i)) :
    ∃ k region, selectRegion 0 (memoryMapAt img mem hcount).memMap = some (k, region) ∧
      UInt8.ofNat k = i ∧ region.base = data := by
  rw [regionSearch, searchFrom_fst] at hregion
  obtain ⟨k, hfind, heq⟩ := Option.map_eq_some_iff.1 hregion
  obtain ⟨hbase, hindex⟩ := Prod.mk.inj heq
  refine ⟨k, regionAt img mem k, ?_, hindex, ?_⟩
  · show selectRegion 0 ((List.range _).map (regionAt img mem)) = _
    rw [List.range_eq_range', selectRegion_regionAt, hfind, Option.map_some]
  · rw [regionAt, hbase, UInt64.ofNat_toNat]

/-! ### `bootInfoExtended` -/

theorem lowMapped_of_started (h : B.Started m) : LowMapped m := fun _ hv ↦ h.translate hv

theorem Spare.not_isTable {q : ℕ} (h : Spare B q) (hm : B.Started m) : ¬ m.IsTable (q / 4096) :=
  fun ht ↦ h.not_inUse hm (Or.inl ht)

/-- The tables stay as they are when an object is written. -/
theorem LowObject.started {p : UInt64} {n x : ℕ} (h : LowObject B p n) (hm : B.Started m) :
    B.Started { m with mem := writeNumber m.mem p.toNat n x } where
  cr3 := hm.cr3
  entries := by
    intro t ht i
    refine Eq.trans (read64_congr fun j hj ↦ writeNumber_of_not_mem ?_) (hm.entries t ht i)
    by_contra hin
    have hspare := (h (4096 * (t.toNat / 4096) + 8 * i + j - p.toNat) (by omega)).statics t ht
    have hi := i.isLt
    omega
  heapOffset_le := hm.heapOffset_le

/-- `stage2_main` before it loads the kernel: `PML4Address` is set, and nothing else in low memory
has changed but the tables. -/
structure Running (B : Boot) (G : Structures) (m₀ m : Machine) : Prop where
  /-- `setup_paging` has run. -/
  started : B.Started m
  /-- Other memory is kept. -/
  kept : ∀ q, Spare B q → (q < G.bootInfoExtended.toNat ∨
    G.bootInfoExtended.toNat + sizeofBootInfoExtended.toNat ≤ q) → m.mem q = m₀.mem q
  /-- `PML4Address`. -/
  pml4Address : littleEndian m.mem 8 (G.bootInfoExtended.toNat + pml4AddressOffset.toNat) =
    B.pml4.toNat

section Structures

variable (hext : LowObject B G.bootInfoExtended sizeofBootInfoExtended.toNat)
include hext

/-- The first store. -/
theorem wp_running (hm : B.Started m) (hkept : ∀ q, Spare B q → m.mem q = m₀.mem q)
    {assume : Event → Prop} :
    (storePacked (G.bootInfoExtended + pml4AddressOffset) 8 B.pml4.toNat).wp assume
      (fun _ m' ↦ Running B G m₀ m') m := by
  obtain ⟨hmember, hnat⟩ := hext.member (o := pml4AddressOffset) (k := 8) (by decide) (by decide)
  refine Exec.wp_mono (hmember.wp_storePacked (lowMapped_of_started hm)
    fun q hq ↦ hq.not_isTable hm) ?_
  rintro _ _ rfl
  have hoffset : pml4AddressOffset.toNat = 1 := rfl
  have hsize : sizeofBootInfoExtended.toNat = 17 := rfl
  refine ⟨hmember.started hm, fun q hq hout ↦ ?_, ?_⟩
  · refine (writeNumber_of_not_mem ?_).trans (hkept q hq)
    omega
  · rw [← hnat]
    exact (littleEndian_writeNumber _ _ _ _).trans (Nat.mod_eq_of_lt B.pml4.toNat_lt)

omit hext in
/-- Allocating the driver changes no byte. -/
theorem Running.wp_kmalloc (h : Running B G m₀ m) {assume : Event → Prop} (size : UInt64) :
    (kmalloc B.heap size 8).wp assume (fun _ m' ↦ Running B G m₀ m') m := by
  refine Exec.wp_bind (Exec.wp_get (Exec.wp_bind (Exec.wp_modify (Exec.wp_bind
    (Exec.wp_emit fun _ ↦ Exec.wp_pure ?_)))))
  exact ⟨⟨h.started.cr3, h.started.entries,
    Memory.Heap.kmalloc_offset_le size (show (8 : UInt64).toNat = 2 ^ 3 from rfl)
      h.started.heapOffset_le⟩, h.kept, h.pml4Address⟩

/-- The search sets `memoryMapIndex`. -/
theorem Running.index (h : Running B G m₀ m) (i : ℕ) :
    Running B G m₀ { m with mem := writeNumber m.mem G.bootInfoExtended.toNat 1 i } where
  started := by
    have hfirst : LowObject B G.bootInfoExtended 1 := fun j hj ↦
      hext j (Nat.lt_of_lt_of_le hj (by decide))
    exact hfirst.started h.started
  kept := by
    intro q hq hout
    have hsize : sizeofBootInfoExtended.toNat = 17 := rfl
    exact (writeNumber_of_not_mem (by omega)).trans (h.kept q hq hout)
  pml4Address := by
    have hoffset : pml4AddressOffset.toNat = 1 := rfl
    exact (littleEndian_writeNumber_of_disjoint (by omega)).trans h.pml4Address

end Structures

/-! ### Into the kernel -/

/-- Where the objects of the second stage, the RSDP and the objects of the kernel are. -/
structure Handoff (B : Boot) (G : Structures) (K : Kernel) (O : Objects) (a : UInt64) : Prop where
  /-- `boot_info`. -/
  bootInfo : LowObject B G.bootInfo sizeofBootInfo.toNat
  /-- `bootInfoExtended`. -/
  bootInfoExtended : LowObject B G.bootInfoExtended sizeofBootInfoExtended.toNat
  /-- They are two objects. -/
  apart : G.bootInfo.toNat + sizeofBootInfo.toNat ≤ G.bootInfoExtended.toNat ∨
    G.bootInfoExtended.toNat + sizeofBootInfoExtended.toNat ≤ G.bootInfo.toNat
  /-- The RSDP is in low memory, -/
  rsdp : LowObject B a sizeofAcpiRsdp.toNat
  /-- apart from `bootInfoExtended`, -/
  rsdp_apart : a.toNat + sizeofAcpiRsdp.toNat ≤ G.bootInfoExtended.toNat ∨
    G.bootInfoExtended.toNat + sizeofBootInfoExtended.toNat ≤ a.toNat
  /-- and within one page. -/
  rsdp_page : a.toNat % 4096 + sizeofAcpiRsdp.toNat ≤ 4096
  /-- `bootInfoStatic` of the kernel. -/
  bootInfoStatic : K.Object O.bootInfoStatic sizeofBootInfo.toNat
  /-- `bootInfoExtendedStatic` of the kernel. -/
  bootInfoExtendedStatic : K.Object O.bootInfoExtendedStatic sizeofBootInfoExtended.toNat
  /-- They are two objects. -/
  statics : O.bootInfoStatic.toNat + sizeofBootInfo.toNat ≤ O.bootInfoExtendedStatic.toNat ∨
    O.bootInfoExtendedStatic.toNat + sizeofBootInfoExtended.toNat ≤ O.bootInfoStatic.toNat
  /-- `acpi` of the kernel. -/
  acpi : K.Object O.acpi sizeofAcpiRsdp.toNat

section Loaded

variable {base : UInt64} (hboot : Bootable K file data) (hbase : IsBase file data base)
  (hrun : Running B G m₀ m₁) (hmapped : Mapped B file data (fileCount file) m)
  (hkept : Undisturbed B m₁ m)

include hrun hkept in
/-- The loader does not touch the structures. -/
theorem spare_kept {q : ℕ} (hq : Spare B q) :
    m.mem q = m₁.mem q ∧ ¬ m.IsTable (q / 4096) := by
  refine ⟨hkept.low q hq.low (hq.not_inUse hrun.started), fun ht ↦ ?_⟩
  have hin := hkept.sound.tables _ ht
  rw [Boot.page_pointer_space (Machine.isTable_lt ht)] at hin
  exact hq.not_inUse hrun.started hin

include hmapped in
theorem lowMapped_of_mapped : LowMapped m := by
  intro v hv
  have hlinear := hmapped.sound.linear v (show v.toNat / 4096 < 256 by omega)
  rwa [show (B.space lowPages).offset = 0 from rfl, UInt64.sub_zero] at hlinear

/-- The machine at the jump, with the last member of `bootInfoExtended` set. -/
def atJump (G : Structures) (base : UInt64) (m : Machine) : Machine :=
  { m with
    mem := writeNumber m.mem (G.bootInfoExtended + kernelPhysicalBaseOffset).toNat 8 base.toNat }

/-- The machine on which the kernel starts. -/
def handedOver (G : Structures) (base : UInt64) (m : Machine) : Machine :=
  enterKernel (atJump G base m)

include hrun hkept in
theorem pml4Address_atJump (hext : LowObject B G.bootInfoExtended sizeofBootInfoExtended.toNat) :
    littleEndian (atJump G base m).mem 8 (G.bootInfoExtended.toNat + pml4AddressOffset.toNat) =
      B.pml4.toNat := by
  obtain ⟨-, hnat⟩ := hext.member (o := kernelPhysicalBaseOffset) (k := 8) (by decide) (by decide)
  have hsize : sizeofBootInfoExtended.toNat = 17 := rfl
  have hoffset : kernelPhysicalBaseOffset.toNat = 9 := rfl
  have hoffset' : pml4AddressOffset.toNat = 1 := rfl
  refine Eq.trans (littleEndian_writeNumber_of_disjoint (by omega)) ?_
  rw [← hrun.pml4Address]
  refine littleEndian_congr fun i hi ↦ ?_
  rw [Nat.add_assoc]
  exact (spare_kept hrun hkept (hext _ (by omega))).1

theorem kernelPhysicalBase_atJump
    (hext : LowObject B G.bootInfoExtended sizeofBootInfoExtended.toNat) :
    littleEndian (atJump G base m).mem 8
      (G.bootInfoExtended.toNat + kernelPhysicalBaseOffset.toNat) = base.toNat := by
  obtain ⟨-, hnat⟩ := hext.member (o := kernelPhysicalBaseOffset) (k := 8) (by decide) (by decide)
  rw [← hnat]
  exact (littleEndian_writeNumber _ _ _ _).trans (Nat.mod_eq_of_lt base.toNat_lt)

include hrun hkept in
/-- The last member is not in a table. -/
theorem keepsTables_handedOver
    (hext : LowObject B G.bootInfoExtended sizeofBootInfoExtended.toNat) :
    (enterKernel m).KeepsTables (handedOver G base m) := by
  obtain ⟨hmember, -⟩ := hext.member (o := kernelPhysicalBaseOffset) (k := 8) (by decide)
    (by decide)
  have hfree : ∀ i < 8, ¬ (enterKernel m).IsTable
      (((G.bootInfoExtended + kernelPhysicalBaseOffset).toNat + i) / 4096) := fun i hi ↦
    (spare_kept hrun hkept (hmember i hi)).2
  exact Machine.keepsTables_fillRun (fun i ↦ UInt8.ofNat (base.toNat / 256 ^ i)) hfree

include hboot hbase hrun hmapped hkept in
/-- **The kernel starts as it expects to.** -/
theorem started_handedOver (h : Handoff B G K O a)
    (hrsdp : littleEndian m₀.mem 4 (G.bootInfo.toNat + rsdpAddrOffset.toNat) = a.toNat) :
    K.Started O G.bootInfo G.bootInfoExtended B.pml4 (kernelBase - base) a
      (handedOver G base m) := by
  obtain ⟨hmember, hnat⟩ := h.bootInfoExtended.member (o := kernelPhysicalBaseOffset) (k := 8)
    (by decide) (by decide)
  have hsize : sizeofBootInfo.toNat = 2061 := rfl
  have hsize' : sizeofBootInfoExtended.toNat = 17 := rfl
  have hoffset : kernelPhysicalBaseOffset.toNat = 9 := rfl
  have hoffset' : rsdpAddrOffset.toNat = 2052 := rfl
  have hkeep : (enterKernel m).KeepsTables (handedOver G base m) :=
    keepsTables_handedOver hrun hkept h.bootInfoExtended
  have hlent : ∀ {p : UInt64} {n : ℕ}, LowObject B p n →
      K.Lent (kernelBase - base) (handedOver G base m) p n := by
    intro p n hp
    refine ⟨fun i hi ↦ ?_, fun v hv i hi heq ↦ ?_⟩
    · have hlow := hp.translate (lowMapped_of_mapped hmapped) hi
      exact (hkeep.translate _).trans hlow
    · have hlow := (hboot.translate hbase hmapped hv).2.1
      have hspare := (hp i hi).low
      omega
  refine ⟨Kernel.Booted.keeps (hboot.booted hbase hmapped hkept) hkeep rfl, h.bootInfoStatic,
    h.bootInfoExtendedStatic, h.statics, h.acpi, hlent h.bootInfo, hlent h.bootInfoExtended,
    pml4Address_atJump hrun hkept h.bootInfoExtended, ?_, ?_, h.rsdp_page, (hlent h.rsdp).outside⟩
  · have hsub : kernelBase - (kernelBase - base) = base := by
      have hlt := base.toNat_lt
      have hltb := kernelBase.toNat_lt
      refine UInt64.toNat_inj.1 ?_
      rw [UInt64.toNat_sub, UInt64.toNat_sub]
      omega
    rw [hsub]
    exact kernelPhysicalBase_atJump h.bootInfoExtended
  · have hapart := h.apart
    refine Eq.trans (littleEndian_writeNumber_of_disjoint (by omega)) ?_
    rw [← hrsdp]
    refine littleEndian_congr fun i hi ↦ ?_
    rw [Nat.add_assoc]
    have hspare := h.bootInfo (rsdpAddrOffset.toNat + i) (by omega)
    exact (spare_kept hrun hkept hspare).1.trans (hrun.kept _ hspare (by omega))

include hboot hmapped in
/-- Nothing else is mapped in the upper half. -/
theorem look_eq_none {v : UInt64} (hv : Upper v) (hcanonical : Canonical v)
    (hout : v.toNat / 4096 ∉ K.imagePages) : m.look v = none := by
  by_contra hlook
  have hlt := v.toNat_lt
  rw [Upper] at hv
  rw [Canonical] at hcanonical
  rcases hmapped.only v hlook with hlow | ⟨j, -, hseg, hcov⟩
  · rw [pageOf] at hlow
    omega
  · obtain ⟨hlow, hhigh⟩ := ((hboot.loadable.loadable j hseg).covers_iff v).1 hcov
    have hend := hboot.image.virt_end j hseg
    have hal := hboot.image.virt_aligned j hseg
    have hbase : kernelBase.toNat = 0xFFFF800000000000 := rfl
    obtain ⟨l, -, -, hlin⟩ := hboot.image.exists_lowest hboot.physicalRanges
    have hvirt := (hlin j hseg).1
    rw [span] at hhigh
    exact hout ((hboot.fills _).2 ⟨j, hseg, by omega, by omega⟩)

end Loaded

/-- The kernel in its endless loop: its page tables are ready, of all addresses those of its image
are mapped and no others, and `acpi` holds the RSDP. -/
structure Arrived (K : Kernel) (O : Objects) (base a : UInt64) (mem : ℕ → UInt8) (m : Machine) :
    Prop where
  /-- The mapping calls can work. -/
  ready : K.Ready m
  /-- `KERNEL_OFFSET`. -/
  kernelOffset : m.kernelOffset = kernelBase - base
  /-- The image is mapped to where it was loaded. -/
  image : ∀ v : UInt64, v.toNat / 4096 ∈ K.imagePages →
    m.translate v = some (v - (kernelBase - base)).toNat
  /-- Nothing else is mapped. -/
  only : ∀ v, Canonical v → v.toNat / 4096 ∉ K.imagePages → m.translate v = none
  /-- The RSDP has been copied. -/
  rsdp : ∀ i < sizeofAcpiRsdp.toNat, ∃ q, m.translate (O.acpi + UInt64.ofNat i) = some q ∧
    m.mem q = mem (a.toNat + i)

/-- The members of `bootInfoExtended` in memory. -/
structure ExtendedAt (G : Structures) (mem : ℕ → UInt8) (ext : BootInfoExtended) : Prop where
  /-- `memoryMapIndex`. -/
  memoryMapIndex : littleEndian mem 1 G.bootInfoExtended.toNat = ext.memoryMapIndex.toNat
  /-- `PML4Address`. -/
  pml4Address : littleEndian mem 8 (G.bootInfoExtended.toNat + pml4AddressOffset.toNat) =
    ext.pml4Address.toNat
  /-- `kernelPhysicalBase`. -/
  kernelPhysicalBase :
    littleEndian mem 8 (G.bootInfoExtended.toNat + kernelPhysicalBaseOffset.toNat) =
      ext.kernelPhysicalBase.toNat

/-- What the loader finds there it leaves there. -/
theorem extendedAt_atJump {base : UInt64} {i : UInt8} (hrun : Running B G m₀ m₁)
    (hkept : Undisturbed B m₁ m)
    (hext : LowObject B G.bootInfoExtended sizeofBootInfoExtended.toNat)
    (hindex : littleEndian m₁.mem 1 G.bootInfoExtended.toNat = i.toNat) :
    ExtendedAt G (atJump G base m).mem ⟨i, B.pml4, base⟩ := by
  refine ⟨?_, pml4Address_atJump hrun hkept hext, kernelPhysicalBase_atJump hext⟩
  obtain ⟨-, hnat⟩ := hext.member (o := kernelPhysicalBaseOffset) (k := 8) (by decide) (by decide)
  have hsize : sizeofBootInfoExtended.toNat = 17 := rfl
  have hoffset : kernelPhysicalBaseOffset.toNat = 9 := rfl
  refine Eq.trans (littleEndian_writeNumber_of_disjoint (by omega)) ?_
  rw [← hindex]
  exact littleEndian_congr fun j hj ↦ (spare_kept hrun hkept (hext j (by omega))).1

/-- The last store is not to the kernel. -/
theorem filled_atJump {base : UInt64} (hfilled : Filled file data (fileCount file) m)
    (habove : 0x100000 ≤ data.toNat)
    (hext : LowObject B G.bootInfoExtended sizeofBootInfoExtended.toNat) :
    Filled file data (fileCount file) (atJump G base m) := by
  intro j hj hseg b hb
  obtain ⟨hmember, -⟩ := hext.member (o := kernelPhysicalBaseOffset) (k := 8) (by decide)
    (by decide)
  have hlast := (hmember 7 (by decide)).low
  exact (writeNumber_of_not_mem (by omega)).trans (hfilled j hj hseg b hb)

section Boot

variable (hserves : Serves S.fs file) (hboot : Bootable K file data) (h : Handoff B G K O a)
  (hata : D.ata = true) (hfs : D.fs = some S.fs) (hkernel : D.kernel = true)
  (hG : G.bootInfo.toNat = img.bootInfo.toNat)
  (hinfo : ∀ j < sizeofBootInfo.toNat,
    m₀.mem (img.bootInfo.toNat + j) = mem (img.bootInfo.toNat + j))
  (hcount : littleEndian mem 4 (img.bootInfo.toNat + memMapCountOffset) ≤ 85)
  {i : UInt8} (hregion : (regionSearch img mem).1 = some (data.toNat, i))
  (hm : B.Entered m₀)
include hserves hboot h hata hfs hkernel hG hinfo hcount hregion hm

/-- **`stage2_main` reaches the kernel**: what it leaves in memory before the jump. -/
theorem wp_stage2MainAt :
    (stage2MainAt B D G S.rest).wp LoadEvent.Allocates (fun entry s' ↦
      entry = some (S.info data).entry ∧ ∃ m₁ m, Running B G m₀ m₁ ∧
        littleEndian m₁.mem 1 G.bootInfoExtended.toNat = i.toNat ∧
        Mapped B file data (fileCount file) m ∧ Filled file data (fileCount file) m ∧
        Undisturbed B m₁ m ∧ s'.1 = atJump G (S.info data).physBase m) (m₀, S.start) := by
  have hpositive : UInt64.ofNat data.toNat = data := UInt64.ofNat_toNat
  have hsize : sizeofBootInfo.toNat = 2061 := rfl
  have hoffset : (UInt64.ofNat memMapCountOffset).toNat = 2048 := rfl
  have hapart := h.apart
  -- the tables of the second stage
  refine Exec.wp_bind_of (Exec.wp_onFst (Q := fun _ s' ↦ (B.Started s'.1 ∧
    ∀ q, Spare B q → s'.1.mem q = m₀.mem q) ∧ s'.2 = S.start) (Exec.wp_mono (Exec.wp_and
      (Boot.wp_setupPaging_started hm) (Boot.wp_setupPaging hm)) fun _ m' hm' ↦
        ⟨⟨hm'.1, fun q hq ↦ hm'.2.2.mem q hq.statics⟩, rfl⟩)) ?_
  rintro _ ⟨m₁, _⟩ ⟨⟨hstarted, hspare⟩, rfl⟩
  refine Exec.wp_bind_of (Exec.wp_onFst (Q := fun _ s' ↦ Running B G m₀ s'.1 ∧ s'.2 = S.start)
    (Exec.wp_mono (wp_running h.bootInfoExtended hstarted hspare) fun _ m' hm' ↦ ⟨hm', rfl⟩)) ?_
  rintro _ ⟨m₂, _⟩ ⟨hrun, rfl⟩
  rw [hata, hfs, hkernel]
  simp only [Bool.not_true, Bool.false_eq_true, if_false]
  refine Exec.wp_bind_of (Exec.wp_onFst (Q := fun _ s' ↦ Running B G m₀ s'.1 ∧ s'.2 = S.start)
    (Exec.wp_mono (hrun.wp_kmalloc _) fun _ m' hm' ↦ ⟨hm', rfl⟩)) ?_
  clear hrun
  rintro _ ⟨m₂, _⟩ ⟨hrun, rfl⟩
  -- the memory map is as it was
  have hmem : ∀ j < sizeofBootInfo.toNat,
      m₂.mem (img.bootInfo.toNat + j) = mem (img.bootInfo.toNat + j) := by
    intro j hj
    have hbyte := h.bootInfo j hj
    rw [← hinfo j hj, ← hG]
    exact hrun.kept _ hbyte (by omega)
  have hlow := lowMapped_of_started hrun.started
  obtain ⟨hmember, hnat⟩ := h.bootInfo.member (o := UInt64.ofNat memMapCountOffset) (k := 4)
    (by decide) (by decide)
  refine Exec.wp_bind_of (Exec.wp_onFst (Q := fun x s' ↦
    x = littleEndian mem 4 (img.bootInfo.toNat + memMapCountOffset) ∧ s' = (m₂, S.start))
      (Exec.wp_mono (hmember.wp_loadPacked hlow) ?_)) ?_
  · rintro x _ ⟨rfl, rfl⟩
    refine ⟨littleEndian_congr fun j hj ↦ ?_, rfl⟩
    rw [hnat, hoffset, hG, Nat.add_assoc, Nat.add_assoc]
    exact hmem _ (by omega)
  rintro _ _ ⟨rfl, rfl⟩
  -- the region
  have hsearch : (findKernelStart G _ 0).wp Event.Allocates
      (fun x m' ↦ (x, m') = found G m₂ _) m₂ :=
    wp_findKernelStart hlow (fun q hq ↦ hq.not_isTable hrun.started) h.bootInfo h.bootInfoExtended
      hG hmem ((Nat.zero_add _).trans_le hcount)
  rw [show (searchFrom img mem _ 0).1 = _ from hregion, found] at hsearch
  refine Exec.wp_bind_of (Exec.wp_onFst (Q := fun x s' ↦ x = data ∧ Running B G m₀ s'.1 ∧
    littleEndian s'.1.mem 1 G.bootInfoExtended.toNat = i.toNat ∧ s'.2 = S.start)
      (Exec.wp_mono hsearch ?_)) ?_
  · rintro x m' heq
    obtain ⟨rfl, rfl⟩ := Prod.mk.inj heq
    refine ⟨hpositive, hrun.index h.bootInfoExtended _, ?_, rfl⟩
    exact (littleEndian_writeNumber _ _ _ _).trans (Nat.mod_eq_of_lt i.toNat_lt)
  rintro _ ⟨m₃, _⟩ ⟨rfl, hrun₃, hindex, rfl⟩
  have habove := hboot.above
  rw [if_neg fun hzero ↦ by
    rw [hzero] at habove
    exact absurd habove (by decide)]
  -- the kernel
  refine Exec.wp_bind_of
    (wp_readElf_undisturbed hserves hboot.loadable hboot.small hrun₃.started) ?_
  rintro _ ⟨m, s⟩ ⟨rfl, ⟨hmapped, hfilled⟩, hkept⟩
  obtain ⟨hlast, -⟩ := h.bootInfoExtended.member (o := kernelPhysicalBaseOffset) (k := 8)
    (by decide) (by decide)
  refine Exec.wp_bind (Exec.wp_onFst (Exec.wp_mono (hlast.wp_storePacked
    (lowMapped_of_mapped hmapped) fun q hq ↦ (spare_kept hrun₃ hkept hq).2) ?_))
  rintro _ _ rfl
  exact Exec.wp_pure ⟨rfl, m₃, m, hrun₃, hindex, hmapped, hfilled, hkept, rfl⟩

/-- The kernel is in memory when `stage2_main` jumps to it, and `bootInfoExtended` is complete. -/
theorem wp_jump :
    (stage2MainAt B D G S.rest).wp LoadEvent.Allocates (fun entry s' ↦
      entry = some (S.info data).entry ∧ Filled file data (fileCount file) s'.1 ∧
        ExtendedAt G s'.1.mem ⟨i, B.pml4, (S.info data).physBase⟩) (m₀, S.start) := by
  refine Exec.wp_mono (wp_stage2MainAt hserves hboot h hata hfs hkernel hG hinfo hcount hregion
    hm) ?_
  rintro entry s' ⟨hentry, m₁, m, hrun, hindex, -, hfilled, hkept, hs'⟩
  rw [hs']
  exact ⟨hentry, filled_atJump hfilled hboot.above h.bootInfoExtended,
    extendedAt_atJump hrun hkept h.bootInfoExtended hindex⟩

omit h hG hinfo hregion in
/-- **The abstract `stage2_main`**, which takes the memory map as a list and returns
`bootInfoExtended`, jumps with the values that `stage2MainAt` jumps with and leaves in memory. -/
theorem wp_stage2Main (hregion : (regionSearch img mem).1 = some (data.toNat, i)) :
    (stage2Main B D (memoryMapAt img mem hcount) S.rest).wp LoadEvent.Allocates (fun out _ ↦
      out = Stage2.jumped (S.info data).entry ⟨i, B.pml4, (S.info data).physBase⟩)
      (m₀, S.start) := by
  obtain ⟨k, region, hselect, hindex, hbase⟩ := selectRegion_of_regionSearch hcount hregion
  refine Exec.wp_bind_of (Exec.wp_onFst (Q := fun _ s' ↦ B.Started s'.1 ∧ s'.2 = S.start)
    (Exec.wp_mono (Boot.wp_setupPaging_started hm) fun _ _ hm' ↦ ⟨hm', rfl⟩)) ?_
  rintro _ ⟨m₁, _⟩ ⟨hstarted, rfl⟩
  rw [hata, hfs, hkernel]
  simp only [Bool.not_true, Bool.false_eq_true, if_false, hselect]
  rw [hbase]
  refine Exec.wp_bind_of
    (wp_readElf_undisturbed hserves hboot.loadable hboot.small hstarted) ?_
  rintro _ _ ⟨rfl, -⟩
  rw [hindex]
  exact Exec.wp_pure rfl

/-- **From `stage2_main` to the kernel's endless loop.** If the drivers work, the file system serves
a kernel that can be booted to the region that the memory map offers, and no allocation fails, the
second stage jumps to the entry point of the kernel, and the kernel's `main` gets to its loop. -/
theorem wp_boot (hrsdp : littleEndian mem 4 (img.bootInfo.toNat + rsdpAddrOffset.toNat) = a.toNat) :
    (boot B D G S.rest K O).wp LoadEvent.Allocates (fun entry s' ↦
    entry = some (fileHeader file).entry ∧
      ∃ base, IsBase file data base ∧ Arrived K O base a m₀.mem s'.1) (m₀, S.start) := by
  refine Exec.wp_bind_of (wp_stage2MainAt hserves hboot h hata hfs hkernel hG hinfo hcount hregion
    hm) ?_
  rintro _ ⟨m', _⟩ ⟨rfl, m₁, m, hrun, -, hmapped, -, hkept, rfl⟩
  obtain ⟨hentry, hbase⟩ := hserves.info_spec hboot.loadable
  have hrsdp₀ : littleEndian m₀.mem 4 (G.bootInfo.toNat + rsdpAddrOffset.toNat) = a.toNat := by
    rw [← hrsdp, hG]
    refine littleEndian_congr fun j hj ↦ ?_
    rw [Nat.add_assoc]
    exact hinfo _ (Nat.lt_of_lt_of_le (Nat.add_lt_add_left hj _) (by decide))
  have hstarted := started_handedOver hboot hbase hrun hmapped hkept h hrsdp₀
  refine Exec.wp_bind (Exec.wp_modify (Exec.wp_bind (Exec.wp_onFst ?_)))
  refine Exec.wp_mono hstarted.main_runs ?_
  rintro _ m₂ ⟨hready, hoffset, hwalk, hrsdp₂⟩
  refine Exec.wp_pure ⟨congrArg some hentry, _, hbase, hready, hoffset, fun v hv ↦ ?_,
    fun v hv hout ↦ ?_, fun i hi ↦ ?_⟩
  · have hlinear := (hstarted.booted.linear v hv).1
    have hcanonical := Machine.canonical_of_translate hlinear
    rw [Machine.translate, if_pos hcanonical] at hlinear ⊢
    rw [hwalk, if_pos (upper_of_imagePages hv), hlinear]
  · rw [Machine.translate, if_pos hv, hwalk]
    by_cases hupper : Upper v
    · have hkeep : (enterKernel m).KeepsTables (handedOver G (S.info data).physBase m) :=
        keepsTables_handedOver hrun hkept h.bootInfoExtended
      have hnone := (hkeep.look v).trans (look_eq_none hboot hmapped hupper hv hout)
      rw [if_pos hupper, Machine.walk_eq, hnone]
      rfl
    · rw [if_neg hupper]
  · obtain ⟨q, hq, hbyte⟩ := hrsdp₂ i hi
    refine ⟨q, hq, hbyte.trans ?_⟩
    obtain ⟨-, hnat⟩ := h.bootInfoExtended.member (o := kernelPhysicalBaseOffset) (k := 8)
      (by decide) (by decide)
    have hoffset₂ : kernelPhysicalBaseOffset.toNat = 9 := rfl
    have hsize : sizeofBootInfoExtended.toNat = 17 := rfl
    have hspare := h.rsdp i hi
    have hapart := h.rsdp_apart
    refine (writeNumber_of_not_mem (by omega)).trans ?_
    exact (spare_kept hrun hkept hspare).1.trans (hrun.kept _ hspare (by omega))

end Boot

end Aidos.Loader
