import Aidos.Fat12.FatCache
import Aidos.Library.Words

/-!
# Mounting

What `detectAndMount` leaves behind on a device whose reads succeed: the boot sector in memory is
sector zero, the detection accepted it, the root record describes the root directory with its first
sector in the buffer, no file is open, and the FAT window has never been loaded.

The second half is the correctness of FAT lookups over arbitrary histories, counted from a mount.
-/

namespace Aidos.Fat12

namespace Fat12FileSystem

/-- The driver state a successful mount leaves. -/
structure Mounted (disk : BlockDevice) (fs : Fat12FileSystem) : Prop where
  /-- The boot sector in memory is sector zero. -/
  bs : ∀ j < sectorSize, fs.bs.bytes j = disk.sector 0 j
  /-- Detection accepted it. -/
  accepts : detectAccepts fs.bs = true
  /-- It is not a FAT32 volume. -/
  totalSectors16_ne : fs.bs.totalSectors16 ≠ 0
  /-- The device still has its contents. -/
  sector : fs.disk.sector = disk.sector
  /-- The device still has its script. -/
  outcome : fs.disk.outcome = disk.outcome
  /-- Where the data section starts. -/
  dataSectionLba : fs.dataSectionLba = rootDirLba fs.bs + rootDirSectors fs.bs
  /-- The root record, apart from its buffer. -/
  root : fs.data.rootDirectory =
    { buffer := fs.data.rootDirectory.buffer
      pub :=
        { handle := rootDirectoryHandle
          isDirectory := true
          size := rootDirSize fs.bs
          position := 0 }
      opened := true
      firstCluster := rootDirLba fs.bs
      currentCluster := rootDirLba fs.bs
      currentSectorInCluster := 0 }
  /-- The root's first sector is in its buffer. -/
  rootBuffer : ∀ j < sectorSize,
    fs.data.rootDirectory.buffer j = disk.sector (rootDirLba fs.bs).toNat j
  /-- No file is open. -/
  closed : ∀ i < maxFileHandles, (fs.data.openedFiles i).opened = false
  /-- The FAT window has not been loaded. -/
  fatCachePosition : fs.data.fatCachePosition = 0xFFFFFFFF

/-- **What mounting establishes**, whatever the device does: it has answered the reads it took. -/
theorem mounted_of_detectAndMount {disk : BlockDevice} {fresh : FatData} {fs : Fat12FileSystem}
    (hm : detectAndMount disk fresh = some fs) : Mounted disk fs := by
  rw [detectAndMount] at hm
  split at hm
  · exact absurd hm (by simp)
  next sector disk₁ hread =>
  have hanswer := BlockDevice.answers_of_readSectors (congrArg Prod.fst hread)
  rw [BlockDevice.readSectors_of_answers hanswer] at hread
  obtain ⟨-, rfl, rfl⟩ := hread
  split at hm
  swap
  · exact absurd hm (by simp)
  next haccept =>
  split at hm
  swap
  · exact absurd hm (by simp)
  next heq =>
  obtain rfl := Option.some.inj hm
  rw [initializeFs] at heq
  split at heq
  · exact absurd (congrArg Prod.fst heq) Bool.false_ne_true
  next hread' =>
  have hanswer' := BlockDevice.answers_of_readSectors (congrArg Prod.fst hread')
  rw [BlockDevice.readSectors_of_answers hanswer'] at hread'
  obtain ⟨-, rfl, rfl⟩ := hread'
  dsimp only at heq
  split at heq
  · exact absurd (congrArg Prod.fst heq) Bool.false_ne_true
  next htotal =>
  split at heq
  · exact absurd (congrArg Prod.fst heq) Bool.false_ne_true
  generalize hroot : readSector _ _ _ = root at heq
  obtain ⟨ok, fs₁⟩ := root
  cases ok
  · exact absurd (congrArg Prod.fst heq) Bool.false_ne_true
  obtain rfl := (Prod.mk.inj heq).2
  have hanswer'' : ({ disk with calls := disk.calls + 1 + 1 } : BlockDevice).Answers :=
    BlockDevice.answers_of_readSectors (congrArg Prod.fst hroot)
  simp only [readSector, setFileData, fileData,
    BlockDevice.readSectors_of_answers hanswer''] at hroot
  obtain rfl := (Prod.mk.inj hroot).2
  exact
    { bs := fun j hj ↦ BlockDevice.fill_one hj
      accepts := haccept
      totalSectors16_ne := htotal
      sector := rfl
      outcome := rfl
      dataSectionLba := rfl
      root := rfl
      rootBuffer := fun j hj ↦ BlockDevice.fill_one hj
      closed := fun i hi ↦ by simp [hi]
      fatCachePosition := rfl }

/-- **What mounting needs**: on a device whose reads succeed, a sector zero that detection accepts
and that is not FAT32's. -/
theorem exists_detectAndMount {disk : BlockDevice} (hd : disk.AllReadsSucceed) (fresh : FatData)
    (hb : ∀ j < sectorSize, disk.sector 0 j = fresh.bs.bytes j)
    (ha : detectAccepts fresh.bs = true) (ht : fresh.bs.totalSectors16 ≠ 0) :
    ∃ fs, detectAndMount disk fresh = some fs ∧ fs.bs = fresh.bs := by
  have hd' : ({ disk with calls := disk.calls + 1 } : BlockDevice).AllReadsSucceed := hd
  have hd'' : ({ disk with calls := disk.calls + 1 + 1 } : BlockDevice).AllReadsSucceed := hd
  have hfill (d : BlockDevice) (hs : d.sector = disk.sector) :
      d.fill 0 1 fresh.bs.bytes = fresh.bs.bytes := by
    funext i
    by_cases hi : i < sectorSize
    · rw [BlockDevice.fill_one hi, hs, hb i hi]
    · rw [BlockDevice.fill, if_neg (by simpa using hi)]
  have hsize : fresh.bs.fatSize16 ≠ 0 := fun hzero ↦ by
    rw [detectAccepts, hzero] at ha
    exact absurd ha (by simp)
  rw [detectAndMount, BlockDevice.readSectors_of_allReadsSucceed hd]
  simp only [hfill disk rfl, ha, ↓reduceIte, initializeFs,
    BlockDevice.readSectors_of_allReadsSucceed hd', hfill { disk with calls := disk.calls + 1 } rfl,
    ht, hsize, readSector, setFileData, fileData, BlockDevice.readSectors_of_allReadsSucceed hd'']
  exact ⟨_, rfl, rfl⟩

namespace Mounted

variable {disk : BlockDevice} {fs : Fat12FileSystem}

theorem allReadsSucceed (h : Mounted disk fs) (hd : disk.AllReadsSucceed) :
    fs.disk.AllReadsSucceed := by
  intro k
  rw [h.outcome]
  exact hd k

theorem cacheValid (h : Mounted disk fs) : fs.CacheValid := Or.inl h.fatCachePosition

end Mounted

/-! ### FAT lookups over arbitrary histories -/

/-- The state after a history of lookups. -/
def lookups (fs : Fat12FileSystem) (history : List UInt32) : Fat12FileSystem :=
  history.foldl (fun fs c ↦ (fs.nextCluster c).2) fs

theorem frame_lookups (fs : Fat12FileSystem) (history : List UInt32) :
    Frame ∅ fs (fs.lookups history) := by
  induction history generalizing fs with
  | nil => exact Frame.refl ∅ fs
  | cons c history ih => exact (frame_nextCluster fs c).trans (ih _)

end Fat12FileSystem

/-- Detection only lets powers of two through, for the sizes of sectors and of clusters. -/
theorem isPowerOfTwo_of_detectAccepts {b : FatBootSector} (h : detectAccepts b = true) :
    b.bytesPerSector.toNat.isPowerOfTwo ∧ b.sectorsPerCluster.toNat.isPowerOfTwo := by
  simp only [detectAccepts, Bool.and_eq_true, bne_iff_ne, beq_iff_eq] at h
  obtain ⟨⟨⟨⟨⟨⟨-, hbps⟩, hbpsAnd⟩, hspc⟩, hspcAnd⟩, -⟩, -⟩ := h
  exact ⟨(Words.isPowerOfTwo_iff16 _).1 ⟨hbps, hbpsAnd⟩,
    (Words.isPowerOfTwo_iff8 _).1 ⟨hspc, hspcAnd⟩⟩

theorem toNat_bytesPerSector_le {b : FatBootSector} (h : detectAccepts b = true) :
    b.bytesPerSector.toNat ≤ 2 ^ 15 :=
  Words.le_of_isPowerOfTwo (isPowerOfTwo_of_detectAccepts h).1 b.bytesPerSector.toNat_lt

/-- An entry inside the FAT is at an offset that the driver's 32-bit arithmetic computes exactly. -/
theorem toNat_mul_three_lt {b : FatBootSector} (h : detectAccepts b = true) {c : UInt32}
    (hin : c.toNat + c.toNat / 2 + 1 < b.fatSize16.toNat * b.bytesPerSector.toNat) :
    c.toNat * 3 < 2 ^ 32 := by
  have hbps := toNat_bytesPerSector_le h
  have hsize := b.fatSize16.toNat_lt
  have hmul : b.fatSize16.toNat * b.bytesPerSector.toNat ≤ 65535 * 2 ^ 15 :=
    Nat.mul_le_mul (by omega) hbps
  omega

namespace Fat12FileSystem

/-- A mounted driver, after any sequence of lookups. -/
theorem lookupCorrect_of_mounted {disk : BlockDevice} {fs : Fat12FileSystem}
    (hmount : Mounted disk fs) (hd : disk.AllReadsSucceed) (history : List UInt32) {c : UInt32}
    (hin : c.toNat + c.toNat / 2 + 1 < fs.bs.fatSize16.toNat * fs.bs.bytesPerSector.toNat) :
    (fs.lookups history).LookupCorrect c ↔
      ¬ (fs.lookups history).Straddles c ∧ fs.FatAgrees c := by
  have hframe := frame_lookups fs history
  have hfs := hmount.allReadsSucceed hd
  rw [← hframe.fatAgrees]
  exact lookupCorrect_iff (not_fetchFails (hframe.allReadsSucceed hfs) _)
    (hframe.cacheValid hfs hmount.cacheValid)
    (toNat_mul_three_lt hmount.accepts hin)

/-- **FAT lookups over any history.** After a mount on a device whose reads succeed and any sequence
of earlier lookups, looking up a cluster whose entry lies inside the FAT is correct if and only if
the entry does not straddle the end of the window cached at that moment and the disk holds it where
the driver looks, as it does on every volume with sectors of 512 bytes. -/
theorem nextCluster_correct_iff {disk : BlockDevice} (hd : disk.AllReadsSucceed) {fresh : FatData}
    {fs : Fat12FileSystem} (hm : detectAndMount disk fresh = some fs) (history : List UInt32)
    {c : UInt32}
    (hin : c.toNat + c.toNat / 2 + 1 < fs.bs.fatSize16.toNat * fs.bs.bytesPerSector.toNat) :
    (fs.lookups history).LookupCorrect c ↔
      ¬ (fs.lookups history).Straddles c ∧ fs.FatAgrees c :=
  lookupCorrect_of_mounted (mounted_of_detectAndMount hm) hd history hin

end Fat12FileSystem

/-! ### A floppy disk -/

/-- Memory of a driver object nothing was written to yet. -/
def blankData : FatData :=
  let blank : FatFileData :=
    { buffer := fun _ ↦ 0, pub := ⟨0, false, 0, 0⟩, opened := false
      firstCluster := 0, currentCluster := 0, currentSectorInCluster := 0 }
  { bs := ⟨fun _ ↦ 0⟩, rootDirectory := blank, openedFiles := fun _ ↦ blank
    fatCache := fun _ ↦ 0, fatCachePosition := 0 }

/-- The boot sector of a 1.44 MB floppy disk: one reserved sector, two FATs of nine sectors, 224
root entries, 2880 sectors, one sector to the cluster. -/
def floppyBoot (j : ℕ) : UInt8 :=
  if j = 510 then 0x55 else if j = 511 then 0xAA
  else [0xEB, 0x3C, 0x90, 0, 0, 0, 0, 0, 0, 0, 0, 0x00, 0x02, 1, 1, 0, 2, 0xE0, 0x00, 0x40, 0x0B,
    0xF0, 9, 0].getD j 0

/-- A floppy disk whose other sectors are filled with `0xFF`, so that every FAT entry is an end
mark. -/
def filledFloppy : BlockDevice where
  sector lba j := if lba = 0 then floppyBoot j else 0xFF
  outcome _ := none
  calls := 0

/-- The driver after mounting that disk. -/
def filledFloppyFs : Fat12FileSystem :=
  (detectAndMount filledFloppy blankData).get (by decide)

theorem detectAndMount_filledFloppy :
    detectAndMount filledFloppy blankData = some filledFloppyFs := by
  rw [filledFloppyFs, Option.some_get]

namespace Fat12FileSystem

/-- The first lookup after mounting cannot straddle. -/
theorem nextCluster_correct_iff_filledFloppy :
    (filledFloppyFs.lookups []).LookupCorrect 1706 ↔
      ¬ (filledFloppyFs.lookups []).Straddles 1706 ∧ filledFloppyFs.FatAgrees 1706 :=
  nextCluster_correct_iff (fun _ ↦ rfl) detectAndMount_filledFloppy [] (by decide)

end Fat12FileSystem

/-- The boot sector of a volume with sectors of 1024 bytes: one reserved sector, one FAT of one
sector, 16 root entries, 64 sectors, one sector to the cluster. -/
def wideBoot (j : ℕ) : UInt8 :=
  if j = 510 then 0x55 else if j = 511 then 0xAA
  else [0xEB, 0x3C, 0x90, 0, 0, 0, 0, 0, 0, 0, 0, 0x00, 0x04, 1, 1, 0, 1, 16, 0, 64, 0,
    0xF0, 1, 0].getD j 0

/-- A disk with that volume: `0x11` in the second half of the boot sector, `0xFF` from the FAT on.
-/
def wideDisk : BlockDevice where
  sector lba j := if lba = 0 then wideBoot j else if lba = 1 then 0x11 else 0xFF
  outcome _ := none
  calls := 0

/-- The driver after mounting that disk. -/
def wideDiskFs : Fat12FileSystem :=
  (detectAndMount wideDisk blankData).get (by decide)

theorem detectAndMount_wideDisk : detectAndMount wideDisk blankData = some wideDiskFs := by
  rw [wideDiskFs, Option.some_get]

namespace Fat12FileSystem

/-- **The lookups that fail.** With the window at the start of the FAT, the entry of cluster 1706
has its second byte in the sector after the window. The disk says end of chain; the driver answers
cluster 255, from the byte of `FatCachePosition`. On the volume with sectors of 1024 bytes the FAT
is at byte 1024 and says end of chain for cluster 2; the driver reads the second half of the boot
sector. -/
theorem not_lookupCorrect_filledFloppy :
    (fatEntry (filledFloppyFs.lookups [0]).volumeFatByte 1706 = 0xFFFFFFFF ∧
      ((filledFloppyFs.lookups [0]).nextCluster 1706).1 = 255 ∧
      ¬ (filledFloppyFs.lookups [0]).LookupCorrect 1706) ∧
    (fatEntry wideDiskFs.volumeFatByte 2 = 0xFFFFFFFF ∧
      (wideDiskFs.nextCluster 2).1 = 0x111 ∧
      ¬ (wideDiskFs.lookups []).LookupCorrect 2) := by
  have hfloppy := mounted_of_detectAndMount detectAndMount_filledFloppy
  have hwide := mounted_of_detectAndMount detectAndMount_wideDisk
  refine ⟨⟨by decide, by decide, fun h ↦ ?_⟩, by decide, by decide, fun h ↦ ?_⟩
  · exact ((lookupCorrect_of_mounted hfloppy (fun _ ↦ rfl) [0] (by decide)).1 h).1 (by decide)
  · exact absurd ((lookupCorrect_of_mounted hwide (fun _ ↦ rfl) [] (by decide)).1 h).2 (by decide)

end Fat12FileSystem

end Aidos.Fat12
