import Aidos.Paging.KernelTables
import Aidos.Loader.LoadedImage

/-!
# The linear offset of the kernel

The kernel turns pointers into physical addresses by subtracting `KERNEL_OFFSET`, which its `main`
computes as `KERNEL_BASE` minus the physical base that the loader reports. If all segments of the
kernel are linked at one distance from their physical addresses and the lowest of them at
`KERNEL_BASE`, this is what the page tables of the loader do to every address of a segment
(`readElf_linear`), as long as the kernel is loaded to physical addresses above low memory.
-/

namespace Aidos.Loader

open ByteMemory Paging

variable {σ : Type} {B : Boot} {S : Source σ} {file : List UInt8} {data : UInt64} {m : Machine}

/-- A kernel as its linker script lays it out: whole pages, all at one distance from their physical
addresses, the lowest at `KERNEL_BASE`. -/
structure KernelImage (file : List UInt8) : Prop where
  /-- The headers are in the file. -/
  headers : HasHeaders file
  /-- The virtual ranges start at page boundaries. -/
  virt_aligned : ∀ i, IsSegment file i → (filePhdr file i).vaddr.toNat % 4096 = 0
  /-- So do the physical ones. -/
  phys_aligned : ∀ i, IsSegment file i → (filePhdr file i).paddr.toNat % 4096 = 0
  /-- The part in the file is not longer than the one in memory. -/
  filesz_le : ∀ i, IsSegment file i → (filePhdr file i).filesz.toNat ≤ (filePhdr file i).memsz.toNat
  /-- The part in the file is in the file. -/
  inFile : ∀ i, IsSegment file i →
    (filePhdr file i).offset.toNat + (filePhdr file i).filesz.toNat ≤ file.length
  /-- The virtual ranges end in the address space. -/
  virt_end : ∀ i, IsSegment file i →
    (filePhdr file i).vaddr.toNat + (filePhdr file i).memsz.toNat ≤ 2 ^ 64
  /-- No two segments share a page. -/
  disjoint : ∀ i j, IsSegment file i → IsSegment file j → i ≠ j →
    Disjoint (pages (filePhdr file i).vaddr.toNat (filePhdr file i).memsz.toNat)
      (pages (filePhdr file j).vaddr.toNat (filePhdr file j).memsz.toNat)
  /-- One distance. -/
  linear : ∀ i j, IsSegment file i → IsSegment file j →
    (filePhdr file i).vaddr - (filePhdr file i).paddr = (filePhdr file j).vaddr -
      (filePhdr file j).paddr
  /-- The lowest segment starts at `KERNEL_BASE`. -/
  lowest : ∃ i, IsSegment file i ∧ (filePhdr file i).vaddr = kernelBase ∧
    ∀ j, IsSegment file j → kernelBase ≤ (filePhdr file j).vaddr

/-- `kernelOffset` of the kernel's `main`. -/
def kernelOffset (info : ElfInfo) : UInt64 := kernelBase - info.physBase

/-- Pointers to the bytes of a segment become physical addresses by subtraction, and physical
addresses become pointers by addition. -/
def Linear (file : List UInt8) (offset : UInt64) (m : Machine) : Prop :=
  ∀ i, IsSegment file i → ∀ v : UInt64, (filePhdr file i).vaddr.toNat ≤ v.toNat →
    v.toNat < (filePhdr file i).vaddr.toNat + (filePhdr file i).memsz.toNat →
    m.translate v = some (v - offset).toNat ∧
      ∀ p, m.translate v = some p → UInt64.ofNat p = v - offset ∧ UInt64.ofNat p + offset = v

namespace KernelImage

variable (h : KernelImage file) (hphys : PhysicalRanges file data)
include h hphys

/-- The physical addresses, counted from the lowest segment. -/
theorem exists_lowest : ∃ l, IsSegment file l ∧ (filePhdr file l).vaddr = kernelBase ∧
    ∀ i, IsSegment file i → kernelBase.toNat ≤ (filePhdr file i).vaddr.toNat ∧
      (filePhdr file i).paddr.toNat =
        (filePhdr file l).paddr.toNat + ((filePhdr file i).vaddr.toNat - kernelBase.toNat) := by
  obtain ⟨l, hl, hbase, hmin⟩ := h.lowest
  refine ⟨l, hl, hbase, fun i hi ↦ ?_⟩
  have hle := UInt64.le_iff_toNat_le.1 (hmin i hi)
  have hlin := congrArg UInt64.toNat (h.linear i l hi hl)
  have hiend := hphys i hi
  have hlend := hphys l hl
  have hlt := (filePhdr file i).vaddr.toNat_lt
  have hnum : kernelBase.toNat = 0xFFFF800000000000 := rfl
  rw [hbase, UInt64.toNat_sub, UInt64.toNat_sub] at hlin
  omega

/-- A kernel that is loaded above low memory can be loaded. -/
theorem loadable (hdata : 0x100000 ≤ data.toNat) (hpage : data.toNat % 4096 = 0) :
    LoadableImage file data := by
  obtain ⟨l, hl, hbase, hlin⟩ := h.exists_lowest hphys
  have hnum : kernelBase.toNat = 0xFFFF800000000000 := rfl
  refine ⟨h.headers,
    fun i hi ↦ ⟨h.virt_aligned i hi, ?_, h.filesz_le i hi, h.inFile i hi, ?_,
    fun _ ↦ Or.inr ⟨?_, ?_⟩,
    ?_, hphys i hi⟩, h.disjoint, fun i j hi hj hne ↦ ?_⟩
  · have hal := h.phys_aligned i hi
    omega
  · have hle := (hlin i hi).1
    omega
  · have hle := (hlin i hi).1
    omega
  · exact h.virt_end i hi
  · omega
  · obtain ⟨hile, hip⟩ := hlin i hi
    obtain ⟨hjle, hjp⟩ := hlin j hj
    have hvirt := h.disjoint i j hi hj hne
    refine Set.disjoint_left.2 ?_
    rintro x ⟨hi₁, hi₂⟩ ⟨hj₁, hj₂⟩
    -- the same page, counted from `KERNEL_BASE`
    have hin : kernelBase.toNat + (x - (data.toNat + (filePhdr file l).paddr.toNat)) ∈
        pages (filePhdr file i).vaddr.toNat (filePhdr file i).memsz.toNat := ⟨by omega, by omega⟩
    have hjn : kernelBase.toNat + (x - (data.toNat + (filePhdr file l).paddr.toNat)) ∈
        pages (filePhdr file j).vaddr.toNat (filePhdr file j).memsz.toNat := ⟨by omega, by omega⟩
    exact Set.disjoint_left.1 hvirt hin hjn

end KernelImage

/-- **The hand-off to the kernel.** If a kernel is loaded to a page-aligned address at or above 1
MiB, to physical addresses, and no allocation fails, its offset is what the tables of the loader
subtract. -/
theorem readElf_linear (hserves : Serves S.fs file) (h : KernelImage file)
    (hpage : data.toNat % 4096 = 0)
    (hdata : 0x100000 ≤ data.toNat) (hphys : PhysicalRanges file data) (hm : B.Started m) :
    (readElf B S.fs S.rest data).wp LoadEvent.Allocates
      (fun info s' ↦ Linear file (kernelOffset info) s'.1) (m, S.start) := by
  have himage := h.loadable hphys hdata hpage
  refine Exec.wp_mono (wp_readElf hserves himage (prepared_of_started hm)) ?_
  rintro _ s' ⟨rfl, hmapped, -⟩ i hi v hlow hhigh
  obtain ⟨l, hl, hbase, hlin⟩ := h.exists_lowest hphys
  -- the physical base is where the lowest segment is
  have hphysBase : (S.info data).physBase.toNat = data.toNat + (filePhdr file l).paddr.toNat := by
    rcases (hserves.info_spec himage).2 with ⟨k, hk, hkbase, hkmin⟩ | ⟨hnone, -⟩
    · have hle := UInt64.le_iff_toNat_le.1 (hkmin l hl)
      have hkp := (hlin k hk).2
      rw [hkbase, (himage.loadable k hk).toNat_phys]
      omega
    · exact absurd hl (hnone l)
  obtain ⟨hile, hip⟩ := hlin i hi
  have hend := hphys i hi
  have hlt := v.toNat_lt
  have hnum : kernelBase.toNat = 0xFFFF800000000000 := rfl
  have hsub : (v - kernelOffset (S.info data)).toNat =
      data.toNat + (filePhdr file i).paddr.toNat + (v.toNat - (filePhdr file i).vaddr.toNat) := by
    rw [kernelOffset, UInt64.toNat_sub, UInt64.toNat_sub, hphysBase, hnum]
    omega
  have hv : (filePhdr file i).vaddr +
      UInt64.ofNat (v.toNat - (filePhdr file i).vaddr.toNat) = v := by
    have hofNat : (UInt64.ofNat (v.toNat - (filePhdr file i).vaddr.toNat)).toNat =
        v.toNat - (filePhdr file i).vaddr.toNat :=
      UInt64.toNat_ofNat_of_lt' (Nat.lt_of_le_of_lt (Nat.sub_le _ _) hlt)
    refine UInt64.toNat_inj.1 ?_
    rw [UInt64.toNat_add, hofNat]
    omega
  have htr := hmapped.placed i hi.1 hi (v.toNat - (filePhdr file i).vaddr.toNat) (by omega)
  rw [hv, ← hsub] at htr
  refine ⟨htr, fun p hp ↦ ?_⟩
  obtain rfl := Option.some.inj (htr.symm.trans hp)
  rw [UInt64.ofNat_toNat]
  exact ⟨rfl, UInt64.sub_add_cancel _ _⟩

/-! ### A kernel of one page -/

/-- One page of zeros at `KERNEL_BASE`. -/
def kernelPage : List UInt8 :=
  image 0xFFFF800000000000 [⟨ptLoad, 120, 0xFFFF800000000000, 0, 0, 0x1000⟩] []

theorem phdr_kernelPage : kernelPage.length = 120 ∧ fileCount kernelPage = 1 ∧
    (fileHeader kernelPage).ident = elfMagic ∧ fileOffset kernelPage 0 = 64 ∧
    filePhdr kernelPage 0 = ⟨ptLoad, 120, 0xFFFF800000000000, 0, 0, 0x1000⟩ := by decide +kernel

theorem isSegment_kernelPage {i : ℕ} (h : IsSegment kernelPage i) : i = 0 := by
  have hi := h.1
  rw [phdr_kernelPage.2.1] at hi
  exact Nat.lt_one_iff.1 hi

theorem kernelImage_kernelPage : KernelImage kernelPage := by
  obtain ⟨hlength, hcount, hmagic, hoffset, hphdr⟩ := phdr_kernelPage
  have hseg : IsSegment kernelPage 0 := by
    rw [IsSegment, hcount, hphdr]
    decide
  have hall : ∀ {P : ℕ → Prop}, P 0 → ∀ i, IsSegment kernelPage i → P i :=
    fun h i hi ↦ isSegment_kernelPage hi ▸ h
  refine ⟨⟨hmagic, by omega, fun i hi ↦ ?_, fun i hi ↦ ?_⟩, hall ?_, hall ?_, hall ?_,
    hall ?_, hall ?_,
    fun i j hi hj hne ↦ ?_, fun i j hi hj ↦ ?_, ⟨0, hseg, ?_, hall ?_⟩⟩
  · obtain rfl : i = 0 := by omega
    omega
  · obtain rfl : i = 0 := by omega
    omega
  · rw [hphdr]
    decide
  · rw [hphdr]
    decide
  · rw [hphdr]
    decide
  · rw [hphdr, hlength]
    decide
  · rw [hphdr]
    decide
  · exact absurd ((isSegment_kernelPage hi).trans (isSegment_kernelPage hj).symm) hne
  · rw [isSegment_kernelPage hi, isSegment_kernelPage hj]
  · rw [hphdr]
    rfl
  · rw [hphdr]
    decide

theorem readElf_linear_kernelPage : ∃ info s' es,
    (readElf Boot.small (Source.ofBytes kernelPage).fs
      (Source.ofBytes kernelPage).rest 0x400000).run
      (Boot.smallReady, (Source.ofBytes kernelPage).start) = ⟨some info, s', es⟩ ∧
      Linear kernelPage (kernelOffset info) s'.1 := by
  obtain ⟨hphys, hroom⟩ : PhysicalRanges kernelPage 0x400000 ∧
      Boot.small.Room
        ((Source.ofBytes kernelPage).tables 0x400000 (Source.ofBytes kernelPage).count)
        Boot.smallReady := by decide +kernel
  have hserves : Serves (Source.ofBytes kernelPage).fs kernelPage :=
    serves_ofBytes (by rw [phdr_kernelPage.1]; decide)
  have hevents := (Source.readElf_room _ _ _ hroom).1
  obtain ⟨info, hvalue, hlinear⟩ :=
    readElf_linear hserves kernelImage_kernelPage (by decide) (by decide) hphys
    started_smallReady hevents
  exact ⟨info, _, _, Exec.run_eq_of_value hvalue, hlinear⟩

/-- Loaded to `2 ^ 52`, the kernel is not at its offset: no table entry holds so large an address.
-/
theorem not_linear_beyond : KernelImage kernelPage ∧ Boot.small.Started Boot.smallReady ∧
    Serves (Source.ofBytes kernelPage).fs kernelPage ∧
      (0x10000000000000 : UInt64).toNat % 4096 = 0 ∧
    ¬ (readElf Boot.small (Source.ofBytes kernelPage).fs (Source.ofBytes kernelPage).rest
      0x10000000000000).wp
      LoadEvent.Allocates (fun info s' ↦ Linear kernelPage (kernelOffset info) s'.1)
      (Boot.smallReady, (Source.ofBytes kernelPage).start) := by
  have hserves : Serves (Source.ofBytes kernelPage).fs kernelPage :=
    serves_ofBytes (by rw [phdr_kernelPage.1]; decide)
  refine ⟨kernelImage_kernelPage, started_smallReady, hserves, by decide, fun h ↦ ?_⟩
  obtain ⟨hroom, hseg, hmagic, hbase⟩ :
      Boot.small.Room ((Source.ofBytes kernelPage).tables 0x10000000000000
        (Source.ofBytes kernelPage).count) Boot.smallReady ∧ IsSegment kernelPage 0 ∧
      (Source.ofBytes kernelPage).elfHeader.ident = elfMagic ∧
      ((Source.ofBytes kernelPage).info 0x10000000000000).physBase = 0x10000000000000 := by
    decide +kernel
  obtain ⟨info, hvalue, hlinear⟩ := h (Source.readElf_room _ _ _ hroom).1
  have hdone :=
    ((Source.ofBytes kernelPage).readElf_yields Boot.small 0x10000000000000 Boot.smallReady).2
    info hvalue
  rw [(hdone.turns hmagic).1] at hlinear
  obtain ⟨htr, -⟩ := hlinear 0 hseg kernelBase
    (by rw [phdr_kernelPage.2.2.2.2]; decide) (by rw [phdr_kernelPage.2.2.2.2]; decide)
  have hcanonical := Machine.canonical_of_translate htr
  rw [Machine.translate_eq hcanonical] at htr
  obtain ⟨l, -, hl⟩ := Option.bind_eq_some_iff.1 htr
  have hlt := physical_lt hl
  rw [kernelOffset, hbase] at hlt
  exact absurd hlt (by decide)

end Aidos.Loader
