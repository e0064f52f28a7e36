import Aidos.Library.Slice

/-!
# On-disk structures of a FAT12 volume

The boot sector and the directory entry as `fat.hpp` lays them out (`#pragma pack(1)`), read
straight from their bytes, and the block device the driver sits on.

A sector is a function from byte offsets to bytes. The device answers `read_sectors` according to a
script: the outcome of its `k`-th call is `outcome k`, success or a failure after some number of
sectors has already reached the caller's buffer. A device whose calls all succeed is one whose
script never fails.
-/

namespace Aidos.Fat12

/-- `SECTOR_SIZE`. -/
abbrev sectorSize : ℕ := 512

/-- `MAX_PATH_SIZE`. -/
abbrev maxPathSize : ℕ := 256

/-- `MAX_FILE_HANDLES`. -/
abbrev maxFileHandles : ℕ := 10

/-- `ROOT_DIRECTORY_HANDLE`. -/
abbrev rootDirectoryHandle : UInt8 := 11

/-- `FAT_CACHE_SIZE`, in sectors. -/
abbrev fatCacheSize : ℕ := 5

/-- A little-endian 16-bit field. -/
def le16 (b : ℕ → UInt8) (o : ℕ) : UInt16 :=
  UInt16.ofNat ((b o).toNat + 256 * (b (o + 1)).toNat)

/-- A little-endian 32-bit field. -/
def le32 (b : ℕ → UInt8) (o : ℕ) : UInt32 :=
  UInt32.ofNat ((b o).toNat + 256 * (b (o + 1)).toNat + 65536 * (b (o + 2)).toNat +
    16777216 * (b (o + 3)).toNat)

/-! ### The boot sector -/

/-- `FAT_BootSector`: the 512 bytes of sector zero. The fields are read at their offsets. -/
structure FatBootSector where
  /-- The sector's bytes. -/
  bytes : ℕ → UInt8

namespace FatBootSector

variable (b : FatBootSector)

/-- `bytes_per_sector`. -/
def bytesPerSector : UInt16 := le16 b.bytes 0x0B

/-- `sectors_per_cluster`. -/
def sectorsPerCluster : UInt8 := b.bytes 0x0D

/-- `reserved_sector_count`. -/
def reservedSectorCount : UInt16 := le16 b.bytes 0x0E

/-- `num_fats`. -/
def numFats : UInt8 := b.bytes 0x10

/-- `root_entry_count`. -/
def rootEntryCount : UInt16 := le16 b.bytes 0x11

/-- `total_sectors_16`. -/
def totalSectors16 : UInt16 := le16 b.bytes 0x13

/-- `fat_size_16`. -/
def fatSize16 : UInt16 := le16 b.bytes 0x16

/-- `total_sectors_32`. -/
def totalSectors32 : UInt32 := le32 b.bytes 0x20

end FatBootSector

/-! ### Directory entries -/

/-- `FAT_DirectoryEntry`: the 32 bytes of an entry, in the order they were read. -/
structure FatDirectoryEntry where
  /-- The entry's bytes. -/
  bytes : List UInt8
  deriving DecidableEq

/-- `sizeof(FAT_DirectoryEntry)`. -/
abbrev entrySize : ℕ := 32

/-- `FAT_ATTRIBUTE_DIRECTORY`. -/
def attributeDirectory : UInt8 := 0x10

namespace FatDirectoryEntry

variable (e : FatDirectoryEntry)

/-- A byte of the entry. -/
def byte (i : ℕ) : UInt8 := e.bytes.getD i 0

/-- `Name[i]`, for `i` below eleven. -/
def name (i : ℕ) : UInt8 := e.byte i

/-- `Attributes`. -/
def attributes : UInt8 := e.byte 11

/-- `FirstClusterHigh`. -/
def firstClusterHigh : UInt16 := le16 e.byte 20

/-- `FirstClusterLow`. -/
def firstClusterLow : UInt16 := le16 e.byte 26

/-- `Size`. -/
def size : UInt32 := le32 e.byte 28

/-- Whether the entry describes a directory. -/
def isDirectory : Bool := e.attributes &&& attributeDirectory != 0

end FatDirectoryEntry

/-! ### The block device -/

/-- A `BlockIODevice`: its contents, the script of its `read_sectors` outcomes, and how many calls
it has answered. -/
structure BlockDevice where
  /-- Byte `j` of sector `lba`. -/
  sector : ℕ → ℕ → UInt8
  /-- The outcome of the `k`-th call: `none` succeeds, `some m` fails after `m` sectors. -/
  outcome : ℕ → Option ℕ
  /-- Calls answered so far. -/
  calls : ℕ

namespace BlockDevice

variable (d : BlockDevice)

/-- The bytes from sector `lba` on, over the old contents of the buffer beyond `count` sectors. -/
def fill (lba count : ℕ) (buffer : ℕ → UInt8) (i : ℕ) : UInt8 :=
  if i < count * sectorSize then d.sector (lba + i / sectorSize) (i % sectorSize) else buffer i

/-- `read_sectors(lba, count, buffer)`: whether it succeeded, the buffer afterwards, the device
afterwards. A failed call may have transferred some of the sectors. -/
def readSectors (lba count : ℕ) (buffer : ℕ → UInt8) : Bool × (ℕ → UInt8) × BlockDevice :=
  match d.outcome d.calls with
  | none => (true, d.fill lba count buffer, { d with calls := d.calls + 1 })
  | some m => (false, d.fill lba (min m count) buffer, { d with calls := d.calls + 1 })

/-- Every call the device answers succeeds. -/
def AllReadsSucceed : Prop := ∀ k, d.outcome k = none

/-- The device answers its next call with the sectors asked for. -/
def Answers : Prop := d.outcome d.calls = none

instance : Decidable d.Answers := inferInstanceAs (Decidable (_ = _))

variable {d}

theorem AllReadsSucceed.answers (h : d.AllReadsSucceed) : d.Answers := h _

theorem readSectors_of_answers (h : d.Answers) (lba count : ℕ) (buffer : ℕ → UInt8) :
    d.readSectors lba count buffer =
      (true, d.fill lba count buffer, { d with calls := d.calls + 1 }) := by
  rw [Answers] at h
  rw [readSectors, h]

/-- The last call that the device was asked came after its first `start` calls, and failed. -/
def FailedSince (d : BlockDevice) (start : ℕ) : Prop :=
  ∃ k, start ≤ k ∧ d.calls = k + 1 ∧ d.outcome k ≠ none

theorem FailedSince.mono {start start' : ℕ} (h : d.FailedSince start) (hle : start' ≤ start) :
    d.FailedSince start' := by
  obtain ⟨k, hk, hfail⟩ := h
  exact ⟨k, hle.trans hk, hfail⟩

theorem AllReadsSucceed.not_failedSince (h : d.AllReadsSucceed) (start : ℕ) :
    ¬ d.FailedSince start :=
  fun ⟨_, _, _, hfail⟩ ↦ hfail (h _)

/-- A call that is not answered fails. -/
theorem readSectors_of_not_answers (h : ¬ d.Answers) (lba count : ℕ) (buffer : ℕ → UInt8) :
    (d.readSectors lba count buffer).1 = false ∧
      (d.readSectors lba count buffer).2.2.FailedSince d.calls := by
  rw [readSectors]
  cases hout : d.outcome d.calls with
  | none => exact absurd hout h
  | some m => exact ⟨rfl, d.calls, Nat.le_refl _, rfl, h⟩

@[simp] theorem calls_readSectors (lba count : ℕ) (buffer : ℕ → UInt8) :
    (d.readSectors lba count buffer).2.2.calls = d.calls + 1 := by
  rw [readSectors]
  split <;> rfl

/-- A call that succeeds was answered. -/
theorem answers_of_readSectors {lba count : ℕ} {buffer : ℕ → UInt8}
    (h : (d.readSectors lba count buffer).1 = true) : d.Answers := by
  rw [readSectors] at h
  cases hout : d.outcome d.calls with
  | none => exact hout
  | some m =>
    rw [hout] at h
    exact absurd h (by simp)

theorem readSectors_of_allReadsSucceed (h : d.AllReadsSucceed) (lba count : ℕ)
    (buffer : ℕ → UInt8) :
    d.readSectors lba count buffer =
      (true, d.fill lba count buffer, { d with calls := d.calls + 1 }) :=
  readSectors_of_answers h.answers lba count buffer

/-- A read never changes the contents or the script. -/
@[simp] theorem sector_readSectors (lba count : ℕ) (buffer : ℕ → UInt8) :
    (d.readSectors lba count buffer).2.2.sector = d.sector := by
  rw [readSectors]
  split <;> rfl

@[simp] theorem outcome_readSectors (lba count : ℕ) (buffer : ℕ → UInt8) :
    (d.readSectors lba count buffer).2.2.outcome = d.outcome := by
  rw [readSectors]
  split <;> rfl

theorem fill_one {lba i : ℕ} {buffer : ℕ → UInt8} (hi : i < sectorSize) :
    d.fill lba 1 buffer i = d.sector lba i := by
  rw [fill, if_pos (by omega), Nat.div_eq_of_lt hi, Nat.mod_eq_of_lt hi, Nat.add_zero]

end BlockDevice

end Aidos.Fat12
