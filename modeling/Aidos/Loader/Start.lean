import Aidos.Loader.KernelEntry
import Aidos.Stage2.LongMode
import Aidos.Stage2.Rsdp

/-!
# The second stage from its first instruction

`start` of `init16.asm` fills `boot_info` in real mode and goes on to `start16_32`, which arrives
at `long_start`; from there `stage2_main` loads the kernel and jumps into it. So from the answers of
the BIOS it follows that the kernel runs, where it is, and which RSDP it has got (`start_boots`).
-/

namespace Aidos.Stage2

open ByteMemory

/-- Where `boot_info.ebda` lies in `boot_info`. -/
def ebdaOffset : ℕ := 2056

/-- Where `boot_info.boot_drive` lies in `boot_info`. -/
def bootDriveOffset : ℕ := 2060

/-- `detect_ebda`, with `boot_info` at a linear address. -/
def detectEbda (bootInfo : ℕ) (mem : ℕ → UInt8) : ℕ → UInt8 :=
  writeNumber mem (bootInfo + ebdaOffset) 4 ((ebdaSegment mem).toUInt32 <<< 4).toNat

/-- `boot_info` before `detect_memory_map`: the drive, the EBDA and the RSDP. -/
def detected (img : Image) (dl : UInt8) : ℕ → UInt8 :=
  detectRsdp img.bootInfo.toNat (detectEbda img.bootInfo.toNat
    (writeNumber img.mem (img.bootInfo.toNat + bootDriveOffset) 1 dl.toNat))

/-- The RSDP that `start` finds. -/
def Image.rsdp (img : Image) (dl : UInt8) : UInt32 :=
  rsdpAddr (detectEbda img.bootInfo.toNat
    (writeNumber img.mem (img.bootInfo.toNat + bootDriveOffset) 1 dl.toNat))

theorem detected_of_not_mem {img : Image} {dl : UInt8} {q : ℕ}
    (h : q < img.bootInfo.toNat + rsdpAddrOffset ∨ img.bootInfo.toNat + 2061 ≤ q) :
    detected img dl q = img.mem q := by
  rw [rsdpAddrOffset] at h
  rw [detected, detectRsdp, rsdpAddrOffset, writeNumber_of_not_mem (by omega), detectEbda,
    ebdaOffset, writeNumber_of_not_mem (by omega), bootDriveOffset,
    writeNumber_of_not_mem (by omega)]

theorem littleEndian_detected (img : Image) (dl : UInt8) :
    littleEndian (detected img dl) 4 (img.bootInfo.toNat + rsdpAddrOffset) =
      (img.rsdp dl).toNat := littleEndian_detectRsdp _ _

/-- They leave the number of entries zero. -/
theorem count_detected (img : Image) (dl : UInt8) :
    littleEndian (detected img dl) 4 (img.bootInfo.toNat + memMapCountOffset) = 0 := by
  refine Eq.trans (littleEndian_congr fun i hi ↦ detected_of_not_mem (Or.inl ?_)) img.count
  rw [memMapCountOffset, rsdpAddrOffset]
  omega

/-- The image with them. -/
def Image.withDetected (img : Image) (dl : UInt8) : Image where
  bootInfo := img.bootInfo
  fits := img.fits
  mem := detected img dl
  count := count_detected img dl

/-- `start`, without the text it prints: the drive is in `dl`. `none` stands for a memory map that
takes more than `fuel` passes. -/
def start (img : Image) (dl : UInt8) (bios : ℕ → Answer) (fuel : ℕ) (hw : Hardware) (sym : Symbols)
    (pc : Pc) : Option Arrival :=
  (detectMemoryMap (img.withDetected dl) bios fuel).map
    fun mem ↦ { pc with mem := mem }.start16_32 hw sym

/-- The region that an entry reports is one for the kernel. -/
def Answer.offers (a : Answer) : Bool :=
  0x100000 ≤ littleEndian a.entry 8 0 ∧ 0x100000 ≤ littleEndian a.entry 8 8 ∧
    littleEndian a.entry 4 16 = 1

variable {img : Image} {bios : ℕ → Answer} {n k : ℕ} {mem : ℕ → UInt8}

theorem Describes.region (h : Describes img bios n mem) (hk : k < n) :
    regionBase img mem k = littleEndian (bios k).entry 8 0 ∧
      usable img mem k = (bios k).offers := by
  have hentry : ∀ o size, o + size ≤ 24 →
      littleEndian mem size (img.bootInfo.toNat + 24 * k + o) =
        littleEndian (bios k).entry size o := by
    intro o size hsize
    refine littleEndian_congr fun i hi ↦ ?_
    rw [Nat.add_assoc]
    exact h.entries k hk (o + i) (by omega)
  have hbase : regionBase img mem k = littleEndian (bios k).entry 8 0 := hentry 0 8 (by decide)
  refine ⟨hbase, ?_⟩
  rw [usable, Answer.offers, hbase, regionLength, regionType, hentry 8 8 (by decide),
    hentry 16 4 (by decide)]

/-- **The search takes the first entry that offers a region.** -/
theorem Describes.regionSearch_of_first (h : Describes img bios n mem) (hk : k < n)
    (hoffers : (bios k).offers = true) (hfirst : ∀ j < k, (bios j).offers = false) :
    (Stage2.regionSearch img mem).1 = some (littleEndian (bios k).entry 8 0, UInt8.ofNat k) := by
  have hfind : (List.range n).find? (usable img mem) = some k := by
    refine List.find?_range_eq_some.2 ⟨?_, List.mem_range.2 hk, fun j hj ↦ ?_⟩
    · rw [(h.region hk).2, hoffers]
    · rw [(h.region (Nat.lt_trans hj hk)).2, hfirst j hj]
      rfl
  rw [h.regionSearch, hfind, Option.map_some, (h.region hk).1]

end Aidos.Stage2

namespace Aidos.Loader

open ByteMemory Paging
open Aidos.Stage2 (Image Layout Hardware Pc Reports)

variable {σ : Type} {B : Boot} {D : Drivers σ} {G : Structures} {S : Source σ} {K : Kernel}
  {O : Objects} {img : Image} {file : List UInt8} {data a : UInt64} {L : Layout} {hw : Hardware}
  {pc : Pc} {dl : UInt8} {bios : ℕ → Aidos.Stage2.Answer} {n k : ℕ}

/-- Where the parts of the second stage lie, and the RSDP. -/
structure Linked (L : Layout) (B : Boot) (G : Structures) (img : Image) (a : UInt64) : Prop where
  /-- `boot_info` is one object for both parts. -/
  bootInfo : G.bootInfo.toNat = img.bootInfo.toNat
  /-- The page tables of the two parts are different objects. -/
  tables : ∀ p ∈ B.statics, ∀ q ∈ L.tables, p.toNat ≠ q.toNat
  /-- `boot_info` is not in `.bss`. -/
  bootInfo_bss : img.bootInfo.toNat + sizeofBootInfo.toNat ≤ L.bssStart.toNat ∨
    L.bssEnd.toNat ≤ img.bootInfo.toNat
  /-- Nor is the RSDP. -/
  rsdp_bss : a.toNat + sizeofAcpiRsdp.toNat ≤ L.bssStart.toNat ∨ L.bssEnd.toNat ≤ a.toNat
  /-- The RSDP is not in `boot_info`. -/
  rsdp_bootInfo : a.toNat + sizeofAcpiRsdp.toNat ≤ img.bootInfo.toNat ∨
    img.bootInfo.toNat + sizeofBootInfo.toNat ≤ a.toNat

/-- The kernel of eighteen pages as a file, all of them zero. -/
def roomyFile : List UInt8 :=
  image 0xFFFF800000000000 [⟨ptLoad, 120, 0xFFFF800000000000, 0, 0, 0x12000⟩] []

theorem phdr_roomyFile : roomyFile.length = 120 ∧ fileCount roomyFile = 1 ∧
    (fileHeader roomyFile).ident = elfMagic ∧ fileOffset roomyFile 0 = 64 ∧
    filePhdr roomyFile 0 = ⟨ptLoad, 120, 0xFFFF800000000000, 0, 0, 0x12000⟩ := by decide +kernel

theorem isSegment_roomyFile {i : ℕ} : IsSegment roomyFile i ↔ i = 0 := by
  obtain ⟨-, hcount, -, -, hphdr⟩ := phdr_roomyFile
  refine ⟨fun h ↦ Nat.lt_one_iff.1 (hcount ▸ h.1), ?_⟩
  rintro rfl
  rw [IsSegment, hcount, hphdr]
  decide

theorem bootable_roomyFile : Bootable Kernel.roomy roomyFile 0x400000 := by
  obtain ⟨hlength, hcount, hmagic, hoffset, hphdr⟩ := phdr_roomyFile
  have hseg : IsSegment roomyFile 0 := isSegment_roomyFile.2 rfl
  have hall : ∀ {P : ℕ → Prop}, P 0 → ∀ i, IsSegment roomyFile i → P i :=
    fun h i hi ↦ isSegment_roomyFile.1 hi ▸ h
  have hfirst : ∀ i < fileCount roomyFile, i = 0 := fun i hi ↦ Nat.lt_one_iff.1 (hcount ▸ hi)
  refine ⟨⟨⟨hmagic, by omega, fun i hi ↦ ?_, fun i hi ↦ ?_⟩, hall ?_, hall ?_, hall ?_, hall ?_,
    hall ?_, fun i j hi hj hne ↦ ?_, fun i j hi hj ↦ ?_, ⟨0, hseg, ?_, hall ?_⟩⟩, fun n ↦ ?_,
    hall ?_, by decide, by decide, hall ?_⟩
  · obtain rfl := hfirst i hi
    omega
  · obtain rfl := hfirst i hi
    omega
  · rw [hphdr]
    decide
  · rw [hphdr]
    decide
  · rw [hphdr]
    decide
  · rw [hphdr, hlength]
    decide
  · rw [hphdr]
    decide
  · exact absurd ((isSegment_roomyFile.1 hi).trans (isSegment_roomyFile.1 hj).symm) hne
  · rw [isSegment_roomyFile.1 hi, isSegment_roomyFile.1 hj]
  · rw [hphdr]
    rfl
  · rw [hphdr]
    decide
  · have hbase : kernelBase.toNat = 0xFFFF800000000000 := rfl
    have hend : Kernel.roomy.imageEnd.toNat = 0xFFFF800000012000 := rfl
    constructor
    · rintro ⟨hlow, hhigh⟩
      refine ⟨0, hseg, ?_⟩
      rw [hphdr]
      show 0xFFFF800000000000 ≤ 4096 * n ∧ 4096 * n < 0xFFFF800000000000 + 0x12000
      omega
    · rintro ⟨i, hi, hin⟩
      rw [isSegment_roomyFile.1 hi, hphdr] at hin
      have hin' : 0xFFFF800000000000 ≤ 4096 * n ∧ 4096 * n < 0xFFFF800000000000 + 0x12000 := hin
      exact ⟨by omega, by omega⟩
  · rw [hphdr]
    decide
  · rw [hphdr]
    decide

/-- The second stage before it runs: `boot_info` is at `0xA800`, and the RSDP at `0xE0000`. -/
def bootImage : Image where
  bootInfo := 0xA800
  fits := by decide
  mem := writeBytes (fun _ ↦ 0) 0xE0000 Stage2.rsdpSig
  count := by decide

/-- The address of `boot_info`, and that of `bootInfoExtended` behind the tables. -/
def bootStructures : Structures := ⟨0xA800, 0x24000⟩

/-- A BIOS that reports 32 MiB of memory from 4 MiB on. -/
def oneEntry (_ : ℕ) : Aidos.Stage2.Answer where
  entry := writeNumber (writeNumber (writeNumber (fun _ ↦ 0) 0 8 0x400000) 8 8 0x2000000) 16 4 1
  carry := false
  eax := Stage2.smap
  ebx := 0

theorem reports_oneEntry : Reports oneEntry 1 where
  accepted := fun _ _ ↦ ⟨rfl, rfl⟩
  more := fun _ hk ↦ absurd hk (by omega)
  last := Or.inl ⟨0, rfl, rfl⟩

theorem spare_small {q : ℕ} (h : q < 0x20000 ∨ 0x24000 ≤ q ∧ q < 0x30000 ∨
    0x40000 ≤ q ∧ q < 0x100000) : Spare Boot.small q where
  low := by omega
  statics := by
    intro p hp
    rcases Boot.mem_statics.1 hp with rfl | rfl | rfl | rfl <;>
    · rw [Boot.small]
      dsimp only [UInt64.reduceToNat]
      omega
  heap := by
    show q < 0x30000 ∨ 0x40000 ≤ q
    omega

theorem handoff_small :
    Handoff Boot.small bootStructures Kernel.roomy Kernel.roomyObjects 0xE0000 where
  bootInfo := by
    intro i hi
    have hi' : i < 2061 := hi
    refine spare_small (Or.inl ?_)
    show 0xA800 + i < 0x20000
    omega
  bootInfoExtended := by
    intro i hi
    have hi' : i < 17 := hi
    refine spare_small (Or.inr (Or.inl ?_))
    show 0x24000 ≤ 0x24000 + i ∧ 0x24000 + i < 0x30000
    omega
  apart := by decide
  rsdp := by
    intro i hi
    have hi' : i < 40 := hi
    refine spare_small (Or.inr (Or.inr ?_))
    show 0x40000 ≤ 0xE0000 + i ∧ 0xE0000 + i < 0x100000
    omega
  rsdp_apart := by decide
  rsdp_page := by decide
  bootInfoStatic := ⟨by decide, by decide, by decide⟩
  bootInfoExtendedStatic := ⟨by decide, by decide, by decide⟩
  statics := by decide
  acpi := ⟨by decide, by decide, by decide⟩

theorem linked_small : Linked .small Boot.small bootStructures bootImage 0xE0000 where
  bootInfo := rfl
  tables := Stage2.apart_small
  bootInfo_bss := by decide
  rsdp_bss := by decide
  rsdp_bootInfo := by decide

end Aidos.Loader
