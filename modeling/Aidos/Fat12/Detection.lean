import Aidos.Fat12.Mount
import Aidos.Library.Words

/-!
# What is taken for a FAT12 volume

`FAT12FileSystem::detect` computes with unsigned words of 32 bits. It has no check that the regions
in front of the data fit into the volume; when they do not, the difference wraps. `Fat12Volume` says
what should be accepted, over the natural numbers, and `detect_isSome_iff` that the checks come to
this: the regions take fewer than `2 ^ 25` sectors, so that a difference that wraps leaves too many
clusters whatever the size of a cluster.
-/

namespace Aidos.Fat12

/-! ### The code and its purpose -/

/-- `FAT12FileSystem::detect(disk)`. `sector` is the local buffer, not initialised, and `fresh` the
memory of the new object. -/
def detect (disk : BlockDevice) (sector : ℕ → UInt8) (fresh : FatData) : Option Fat12FileSystem :=
  match disk.readSectors 0 1 sector with
  | (false, _, _) => none
  | (true, sector, disk) =>
    if detectAccepts ⟨sector⟩ then
      some
        { data := fresh, dataSectionLba := 0, totalSectors := 0, sectorsPerFat := 0,
          disk := disk, trace := [] }
    else none

theorem detectAndMount_eq (disk : BlockDevice) (fresh : FatData) :
    detectAndMount disk fresh =
      (detect disk fresh.bs.bytes fresh).bind fun fs ↦
        match fs.initializeFs with
        | (true, fs) => some fs
        | (false, _) => none := by
  rw [detectAndMount, detect]
  rcases disk.readSectors 0 1 fresh.bs.bytes with ⟨- | -, sector, disk⟩
  · rfl
  · dsimp only
    split <;> rfl

namespace FatBootSector

variable (b : FatBootSector)

/-- The sectors of the volume. -/
def volumeSectors : ℕ :=
  if b.totalSectors16.toNat = 0 then b.totalSectors32.toNat else b.totalSectors16.toNat

/-- The sectors that the root directory takes. -/
def rootSectors : ℕ :=
  (b.rootEntryCount.toNat * 32 + (b.bytesPerSector.toNat - 1)) / b.bytesPerSector.toNat

/-- The sectors in front of the data. -/
def regionSectors : ℕ :=
  b.reservedSectorCount.toNat + b.numFats.toNat * b.fatSize16.toNat + b.rootSectors

end FatBootSector

/-- **A boot sector of a FAT12 volume**, as far as its numbers go. -/
structure Fat12Volume (b : FatBootSector) : Prop where
  /-- The size of a sector. -/
  bytesPerSector : b.bytesPerSector.toNat.isPowerOfTwo
  /-- The size of a cluster. -/
  sectorsPerCluster : b.sectorsPerCluster.toNat.isPowerOfTwo
  /-- There is a FAT. -/
  fatSize16 : b.fatSize16.toNat ≠ 0
  /-- The regions fit into the volume. -/
  fits : b.regionSectors ≤ b.volumeSectors
  /-- There are few clusters. -/
  clusters : (b.volumeSectors - b.regionSectors) / b.sectorsPerCluster.toNat < 4085

/-! ### The checks -/

variable (b : FatBootSector)

/-- The regions take no more sectors than a word counts, by far. -/
theorem regionSectors_lt : b.regionSectors < 2 ^ 25 := by
  have hreserved := b.reservedSectorCount.toNat_lt
  have hroot := b.rootEntryCount.toNat_lt
  have hbytes := b.bytesPerSector.toNat_lt
  have hfats : b.numFats.toNat * b.fatSize16.toNat ≤ 255 * 65535 :=
    Nat.mul_le_mul (Nat.le_of_lt_succ b.numFats.toNat_lt) (Nat.le_of_lt_succ b.fatSize16.toNat_lt)
  have hdiv := Nat.div_le_self (b.rootEntryCount.toNat * 32 + (b.bytesPerSector.toNat - 1))
    b.bytesPerSector.toNat
  rw [FatBootSector.regionSectors, FatBootSector.rootSectors]
  omega

/-- `totSec`. -/
theorem toNat_totSec :
    (if b.totalSectors16 = 0 then b.totalSectors32 else b.totalSectors16.toUInt32).toNat =
      b.volumeSectors := by
  have hzero : b.totalSectors16 = 0 ↔ b.totalSectors16.toNat = 0 := UInt16.toNat_inj.symm
  rw [FatBootSector.volumeSectors]
  rcases Decidable.em (b.totalSectors16 = 0) with h | h
  · rw [if_pos h, if_pos (hzero.1 h)]
  · rw [if_neg h, if_neg fun h' ↦ h (hzero.2 h'), UInt16.toNat_toUInt32]

/-- What `totSec` is diminished by. -/
theorem toNat_regions (h : b.bytesPerSector.toNat ≠ 0) :
    (b.reservedSectorCount.toUInt32 + b.numFats.toUInt32 * b.fatSize16.toUInt32 +
      (b.rootEntryCount.toUInt32 * 32 + (b.bytesPerSector.toUInt32 - 1)) /
        b.bytesPerSector.toUInt32).toNat = b.regionSectors := by
  have hlt := regionSectors_lt b
  have hroot := b.rootEntryCount.toNat_lt
  have hbytes := b.bytesPerSector.toNat_lt
  have hone : (1 : UInt32) ≤ b.bytesPerSector.toUInt32 := by
    rw [UInt32.le_iff_toNat_le, UInt32.toNat_one, UInt16.toNat_toUInt32]
    omega
  have hnum : (b.rootEntryCount.toUInt32 * 32 + (b.bytesPerSector.toUInt32 - 1)).toNat =
      b.rootEntryCount.toNat * 32 + (b.bytesPerSector.toNat - 1) := by
    rw [UInt32.toNat_add, UInt32.toNat_mul, UInt32.toNat_sub_of_le _ _ hone, UInt32.toNat_one,
      UInt16.toNat_toUInt32, UInt16.toNat_toUInt32, show (32 : UInt32).toNat = 32 from rfl]
    omega
  have hfats : (b.numFats.toUInt32 * b.fatSize16.toUInt32).toNat =
      b.numFats.toNat * b.fatSize16.toNat := by
    rw [UInt32.toNat_mul, UInt8.toNat_toUInt32, UInt16.toNat_toUInt32]
    refine Nat.mod_eq_of_lt ?_
    rw [FatBootSector.regionSectors] at hlt
    omega
  rw [UInt32.toNat_add, UInt32.toNat_add, UInt32.toNat_div, hnum, hfats, UInt16.toNat_toUInt32,
    UInt16.toNat_toUInt32]
  rw [FatBootSector.regionSectors, FatBootSector.rootSectors] at hlt ⊢
  generalize (b.rootEntryCount.toNat * 32 + (b.bytesPerSector.toNat - 1)) /
    b.bytesPerSector.toNat = root at hlt ⊢
  omega

/-- **A difference that wraps is too large**, whatever it is divided by. -/
theorem clusters_lt_iff {totSec regions : UInt32} {spc : UInt8} (hregions : regions.toNat < 2 ^ 25)
    (hspc : spc ≠ 0) :
    (totSec - regions) / spc.toUInt32 < 4085 ↔
      regions.toNat ≤ totSec.toNat ∧ (totSec.toNat - regions.toNat) / spc.toNat < 4085 := by
  have hlt := spc.toNat_lt
  have htot := totSec.toNat_lt
  have hpos : 0 < spc.toNat := Nat.pos_of_ne_zero fun hzero ↦ hspc (UInt8.toNat_inj.1 hzero)
  have hlit : (4085 : UInt32).toNat = 4085 := rfl
  rw [UInt32.lt_iff_toNat_lt, UInt32.toNat_div, UInt8.toNat_toUInt32, hlit, UInt32.toNat_sub]
  rcases Nat.lt_or_ge totSec.toNat regions.toNat with hwrap | hfits
  · refine iff_of_false ?_ fun h ↦ absurd h.1 (Nat.not_le_of_lt hwrap)
    rw [Nat.not_lt, Nat.le_div_iff_mul_le hpos]
    have hbound : 4085 * spc.toNat ≤ 4085 * 255 := Nat.mul_le_mul_left _ (by omega)
    omega
  · have hdiff : (2 ^ 32 - regions.toNat + totSec.toNat) % 2 ^ 32 =
        totSec.toNat - regions.toNat := by omega
    rw [hdiff, and_iff_right hfits]

/-- **What the checks come to.** -/
theorem detectAccepts_iff (h55 : b.bytes 510 = 0x55) (hAA : b.bytes 511 = 0xAA) :
    detectAccepts b = true ↔ Fat12Volume b := by
  have hchecks : detectAccepts b = true ↔
      (b.bytesPerSector ≠ 0 ∧ b.bytesPerSector &&& (b.bytesPerSector - 1) = 0) ∧
      (b.sectorsPerCluster ≠ 0 ∧ b.sectorsPerCluster &&& (b.sectorsPerCluster - 1) = 0) ∧
      b.fatSize16.toUInt32 ≠ 0 ∧
      ((if b.totalSectors16 = 0 then b.totalSectors32 else b.totalSectors16.toUInt32) -
        (b.reservedSectorCount.toUInt32 + b.numFats.toUInt32 * b.fatSize16.toUInt32 +
          (b.rootEntryCount.toUInt32 * 32 + (b.bytesPerSector.toUInt32 - 1)) /
            b.bytesPerSector.toUInt32)) / b.sectorsPerCluster.toUInt32 < 4085 := by
    simp only [detectAccepts, h55, hAA, beq_self_eq_true, Bool.true_and, Bool.and_eq_true,
      bne_iff_ne, beq_iff_eq, decide_eq_true_eq, and_assoc]
  have hfat : b.fatSize16.toUInt32 ≠ 0 ↔ b.fatSize16.toNat ≠ 0 := by
    rw [ne_eq, ← UInt32.toNat_inj, UInt16.toNat_toUInt32, UInt32.toNat_zero]
  rw [hchecks, Words.isPowerOfTwo_iff16, Words.isPowerOfTwo_iff8, hfat]
  constructor
  · rintro ⟨hbytes, hspc, hsize, hclusters⟩
    have hregions := toNat_regions b (Nat.pos_of_isPowerOfTwo hbytes).ne'
    rw [clusters_lt_iff (hregions ▸ regionSectors_lt b) ((Words.isPowerOfTwo_iff8 _).2 hspc).1,
      hregions, toNat_totSec] at hclusters
    exact ⟨hbytes, hspc, hsize, hclusters.1, hclusters.2⟩
  · rintro ⟨hbytes, hspc, hsize, hfits, hclusters⟩
    have hregions := toNat_regions b (Nat.pos_of_isPowerOfTwo hbytes).ne'
    refine ⟨hbytes, hspc, hsize, ?_⟩
    rw [clusters_lt_iff (hregions ▸ regionSectors_lt b) ((Words.isPowerOfTwo_iff8 _).2 hspc).1,
      hregions, toNat_totSec]
    exact ⟨hfits, hclusters⟩

/-- **`detect` accepts exactly the FAT12 volumes**, when it gets to read a boot sector with its
signature. -/
theorem detect_isSome_iff {disk disk' : BlockDevice} {buffer sector : ℕ → UInt8}
    (hread : disk.readSectors 0 1 buffer = (true, sector, disk')) (h55 : sector 510 = 0x55)
    (hAA : sector 511 = 0xAA) (fresh : FatData) :
    (detect disk buffer fresh).isSome = true ↔ Fat12Volume ⟨sector⟩ := by
  rw [← detectAccepts_iff ⟨sector⟩ h55 hAA, detect, hread]
  dsimp only
  split
  · next haccepts => exact iff_of_true rfl haccepts
  · next hnot => exact iff_of_false Bool.false_ne_true hnot

theorem detect_isSome_iff_filledFloppy :
    ∃ sector disk', filledFloppy.readSectors 0 1 (fun _ ↦ 0) = (true, sector, disk') ∧
      ((detect filledFloppy (fun _ ↦ 0) blankData).isSome = true ↔ Fat12Volume ⟨sector⟩) :=
  ⟨_, _, rfl, detect_isSome_iff rfl (by decide) (by decide) blankData⟩

end Aidos.Fat12
