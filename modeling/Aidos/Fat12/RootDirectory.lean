import Aidos.Fat12.Opening

/-!
# Reading the root directory

The root directory is a run of consecutive sectors, `rootStream`, but the driver reads it through
the loop for cluster chains, with its first *sector* in place of a first cluster. Inside the first
sector that makes no difference. At the first sector boundary the loop either looks for the next
sector of "cluster" `rootDirLba`, somewhere in the data section, or asks the FAT for its successor.

`RootReadable` says what reading the root should do: sequences of reads deliver the consecutive
bytes of the region up to `32 * root_entry_count`, and `FindFile` finds the first matching entry in
front of the terminator. `RootInReach` is when the driver gets that far: the directory has an entry
and fits one sector (or, on a volume without a FAT whose root starts in sector one, one cluster,
which the data section's addressing then happens to hit). `rootReadable_iff` says that for a given
boot sector the root is readable on every disk exactly then. An empty directory is not: its size is
zero, which the cap in `read` takes for "unknown".
-/

namespace Aidos.Fat12

/-! ### The region and what reading it means -/

/-- The root directory as a stream. -/
def rootStream (b : FatBootSector) : Stream where
  isDirectory := true
  firstCluster := Fat12FileSystem.rootDirLba b
  size := 32 * b.rootEntryCount.toNat
  place k := ⟨Fat12FileSystem.rootDirLba b, k, (Fat12FileSystem.rootDirLba b).toNat + k⟩

/-- The `k`-th entry of the root directory. -/
def rootEntry (disk : BlockDevice) (b : FatBootSector) (k : ℕ) : FatDirectoryEntry :=
  ⟨slice ((rootStream b).byteAt disk) (entrySize * k) entrySize⟩

/-- The entries of the root directory. -/
def rootEntries (disk : BlockDevice) (b : FatBootSector) : List FatDirectoryEntry :=
  (List.range b.rootEntryCount.toNat).map (rootEntry disk b)

/-- The first of the entries in front of the terminator that has the name. -/
def firstMatch (entries : List FatDirectoryEntry) (name : List UInt8) : Search :=
  match (entries.takeWhile fun e ↦ e.name 0 != 0).find? (nameMatches name) with
  | some e => .found e
  | none => .notFound

/-- What a sequence of reads of `ns` bytes each delivers of a stream of `size` bytes. -/
def pieces (src : ℕ → UInt8) (size : ℕ) : ℕ → List UInt32 → List (List UInt8)
  | _, [] => []
  | p, n :: ns =>
    slice src p (min n.toNat (size - p)) :: pieces src size (p + min n.toNat (size - p)) ns

namespace Fat12FileSystem

/-- A sequence of reads. -/
def readAll (file : FileRef) : List UInt32 → Fat12FileSystem → List (List UInt8)
  | [], _ => []
  | n :: ns, fs => (fs.read file n).1 :: readAll file ns (fs.read file n).2

/-- **Reading the root works**: any sequence of reads delivers the consecutive bytes of the region,
and any name is looked up among all the entries. -/
structure RootReadable (disk : BlockDevice) (fs : Fat12FileSystem) : Prop where
  /-- Sequences of reads. -/
  reads : ∀ ns, fs.readAll .root ns =
    pieces ((rootStream fs.bs).byteAt disk) (32 * fs.bs.rootEntryCount.toNat) 0 ns
  /-- Lookups by name. -/
  find : ∀ name fuel, fs.bs.rootEntryCount.toNat < fuel →
    (fs.findFile fuel .root name).1 = firstMatch (rootEntries disk fs.bs) name

end Fat12FileSystem

open Fat12FileSystem in
/-- **How far the driver reads the root**: it has an entry, and it fits its first sector, or it is
one cluster long and starts in sector one. -/
def RootInReach (b : FatBootSector) : Prop :=
  1 ≤ b.rootEntryCount.toNat ∧
    (b.rootEntryCount.toNat ≤ 16 ∨
      (rootDirLba b = 1 ∧ rootDirSectors b = b.sectorsPerCluster.toUInt32))

open Fat12FileSystem in
instance (b : FatBootSector) : Decidable (RootInReach b) :=
  inferInstanceAs (Decidable (_ ∧ (_ ∨ (_ ∧ _))))

namespace Fat12FileSystem

variable {disk : BlockDevice} {b : FatBootSector} {fs fs' : Fat12FileSystem} {p : ℕ}

/-! ### Sector boundaries of the root -/

theorem toNat_rootDirLba_le (b : FatBootSector) : (rootDirLba b).toNat ≤ 256 * 65535 := by
  have hres := b.reservedSectorCount.toNat_lt
  have hsize := b.fatSize16.toNat_lt
  have hnum := b.numFats.toNat_lt
  have hmul : b.numFats.toNat * b.fatSize16.toNat ≤ 255 * 65535 :=
    Nat.mul_le_mul (by omega) (by omega)
  rw [toNat_rootDirLba]
  omega

/-- The root's first sector is no end mark. -/
theorem rootDirLba_lt (b : FatBootSector) : ¬ rootDirLba b ≥ 0xFFFFFFF8 := by
  have hlt := toNat_rootDirLba_le b
  rw [ge_iff_le, UInt32.le_iff_toNat_le]
  simp only [UInt32.reduceToNat]
  omega

/-- The next sector of the root is where the driver looks for it: inside the "cluster" that starts
at `rootDirLba`. -/
def NextInReach (b : FatBootSector) : Prop :=
  ∀ k, (k + 1) * 512 < 32 * b.rootEntryCount.toNat → k + 1 < spc b ∧
    ∀ s : UInt32, s.toNat = k + 1 →
      (rootDirLba b + rootDirSectors b + (rootDirLba b - 2) * b.sectorsPerCluster.toUInt32 +
        s).toNat = (rootDirLba b).toNat + (k + 1)

/-- **Using up the buffer of the root** keeps it in step when its next sector is in reach, or when
there is none. -/
theorem crosses_rootStream (hreach : NextInReach b) (final : List Event) :
    Crosses disk b (rootStream b) .root final := by
  intro p fs t h ht hle _
  change p + t.toNat ≤ 32 * b.rootEntryCount.toNat at hle
  have hcount := b.rootEntryCount.toNat_lt
  have hp : p < 32 * b.rootEntryCount.toNat := by omega
  have hnext : (p + t.toNat) / 512 = p / 512 + 1 := by omega
  have hframe := frame_movePosition fs .root t
  have hs := h.serves.of_frame hframe
  have hposition : ((fs.fileData .root).pub.position + t).toNat = p + t.toNat := by
    rw [UInt32.toNat_add, h.record.position]
    omega
  have hfd := fileData_movePosition fs .root t
  have hcluster : (fs.fileData .root).currentCluster = rootDirLba b := h.record.cluster hp
  have hsector : (fs.fileData .root).currentSectorInCluster.toNat = p / 512 := h.record.sector hp
  generalize fs.movePosition .root t = fs₁ at hframe hs hfd ⊢
  by_cases hend : p + t.toNat = 32 * b.rootEntryCount.toNat
  · -- the last byte was delivered: whatever is fetched now is never used
    refine ⟨?_, fun hlt ↦ absurd hend (Nat.ne_of_lt hlt)⟩
    have hsame := sameFile_advance fs₁ .root
    have hadv := frame_advance fs₁ .root
    have hpub := pub_advance fs₁ .root
    have hsize : (fs.fileData .root).pub.size.toNat = (rootStream b).size := h.record.size
    have hstop : ((fs.fileData .root).pub.position + t).toNat = (rootStream b).size :=
      hposition.trans hend
    have hmoved : SameFile (fs.fileData .root) (fs₁.fileData .root) := by
      rw [hfd]
      exact ⟨rfl, rfl, rfl, rfl⟩
    have hsame' := hmoved.trans hsame
    rw [hfd] at hpub
    rw [hend]
    have hs' := hs.of_frame hadv
    refine (h.placed.of_end hs'.volume hsame' ?_ ?_).inStep hs'
    · rcases hpub with hpub | hpub <;> rw [hpub] <;> exact hstop
    · rcases hpub with hpub | hpub <;> rw [hpub]
      · exact hsize
      · exact hstop
  · obtain ⟨hspc, hlba⟩ := hreach (p / 512) (by omega)
    have hsucc : ((fs.fileData .root).currentSectorInCluster + 1).toNat = p / 512 + 1 := by
      rw [UInt32.toNat_add, hsector]
      simp only [UInt32.reduceToNat]
      omega
    have hstay : ¬ (fs₁.fileData .root).currentSectorInCluster + 1 ≥
        fs₁.bs.sectorsPerCluster.toUInt32 := by
      rw [hfd, ge_iff_le, UInt32.le_iff_toNat_le, hs.toNat_sectorsPerCluster]
      dsimp only
      omega
    have hdata : ¬ (fs₁.fileData .root).currentCluster ≥ 0xFFFFFFF8 := by
      rw [hfd, hcluster]
      exact rootDirLba_lt b
    have hset := hs.of_frame (frame_setFileData fs₁ .root { fs₁.fileData .root with
      currentSectorInCluster := (fs₁.fileData .root).currentSectorInCluster + 1 })
    have hplace : (fs₁.clusterToLba (fs₁.fileData .root).currentCluster +
        ((fs₁.fileData .root).currentSectorInCluster + 1)).toNat =
          ((rootStream b).place ((p + t.toNat) / sectorSize)).lba := by
      rw [hfd, hcluster, clusterToLba, hs.dataSectionLba, hs.bs, hnext]
      exact hlba _ hsucc
    rw [advance_of_stay hstay hdata]
    obtain ⟨hok, hstep⟩ := readSector_inStep (rootStream b) (p + t.toNat) hset
      (by
        rw [Fat12FileSystem.target, fileData_setFileData_self, hfd]
        exact h.target)
      hplace
      (fun B hB ↦ by
        rw [fileData_setFileData_self, hfd]
        exact { h.record with
          position := hposition
          le := hle
          cluster := fun _ ↦ hcluster
          sector := fun _ ↦ hsucc.trans hnext.symm
          buffer := fun _ ↦ hB })
    exact ⟨hstep, fun _ ↦ hok⟩

theorem nextInReach_of_rootInReach (ha : detectAccepts b = true) (h512 : b.bytesPerSector = 512)
    (h : RootInReach b) : NextInReach b := by
  intro k hk
  rcases h.2 with hsmall | ⟨hone, hfull⟩
  · omega
  have hsectors := toNat_rootDirSectors ha
  rw [hfull, UInt8.toNat_toUInt32, ← spc, h512] at hsectors
  simp only [UInt16.reduceToNat] at hsectors
  have hcount := b.rootEntryCount.toNat_lt
  refine ⟨by omega, fun s hs ↦ ?_⟩
  -- `R + S + (1 - 2) * S` is `R` again
  have hwrap : rootDirLba b + rootDirSectors b +
      (rootDirLba b - 2) * b.sectorsPerCluster.toUInt32 = 1 := by
    rw [hone, hfull]
    have hneg : (1 - 2 : UInt32) * b.sectorsPerCluster.toUInt32 =
        -b.sectorsPerCluster.toUInt32 := by
      rw [show (1 - 2 : UInt32) = -1 by decide, UInt32.neg_mul, UInt32.one_mul]
    rw [hneg, UInt32.add_assoc, UInt32.add_right_neg, UInt32.add_zero]
  rw [hwrap, hone, UInt32.toNat_add, hs]
  simp only [UInt32.reduceToNat]
  omega

/-- Mounting puts the root in step at position zero. -/
theorem Mounted.inStep_root (hd : disk.AllReadsSucceed) (h : Mounted disk fs) :
    InStep disk fs.bs (rootStream fs.bs) .root 0 fs := by
  have hroot : fs.fileData .root = _ := h.root
  refine ⟨h.serves hd, ?_, ?_⟩
  · rw [target, hroot]
    rfl
  · rw [hroot]
    exact
      { opened := rfl
        isDirectory := rfl
        firstCluster := rfl
        size := toNat_rootDirSize fs.bs
        position := rfl
        le := Nat.zero_le _
        cluster := fun _ ↦ rfl
        sector := fun _ ↦ rfl
        buffer := fun _ ↦ h.rootBuffer }

/-! ### Reading the whole directory -/

section InReach

variable (hcount : b.rootEntryCount.toNat ≠ 0) (hreach : NextInReach b)

include hcount hreach

/-- A read of the root in step. -/
theorem read_root_inStep (h : InStep disk b (rootStream b) .root p fs) (n : UInt32) :
    (fs.read .root n).1 = slice ((rootStream b).byteAt disk) p
        (min n.toNat (32 * b.rootEntryCount.toNat - p)) ∧
      InStep disk b (rootStream b) .root (p + min n.toNat (32 * b.rootEntryCount.toNat - p))
        (fs.read .root n).2 :=
  h.read (fun _ hzero ↦ hcount ((Nat.mul_eq_zero.1 hzero).resolve_left (by decide))) n
    (crosses_rootStream hreach _)

/-- Sequences of reads deliver consecutive bytes. -/
theorem readAll_root (ns : List UInt32) (h : InStep disk b (rootStream b) .root p fs) :
    fs.readAll .root ns =
      pieces ((rootStream b).byteAt disk) (32 * b.rootEntryCount.toNat) p ns := by
  induction ns generalizing fs p with
  | nil => rfl
  | cons n ns ih =>
    obtain ⟨hout, hstep⟩ := read_root_inStep hcount hreach h n
    rw [readAll, pieces, hout, ih hstep]

end InReach

end Fat12FileSystem

/-- What the scan does with one entry. -/
theorem firstMatch_cons (e : FatDirectoryEntry) (es : List FatDirectoryEntry) (name : List UInt8) :
    firstMatch (e :: es) name =
      if e.name 0 = 0 then .notFound
      else if nameMatches name e then .found e else firstMatch es name := by
  rw [firstMatch, List.takeWhile_cons]
  by_cases hend : e.name 0 = 0
  · simp [hend]
  · rw [if_pos (by simpa using hend), if_neg hend, List.find?_cons]
    cases nameMatches name e
    · rfl
    · rfl

theorem length_rootEntries (disk : BlockDevice) (b : FatBootSector) :
    (rootEntries disk b).length = b.rootEntryCount.toNat := by
  simp [rootEntries]

/-- The entries from the `k`-th on. -/
theorem drop_rootEntries (disk : BlockDevice) {b : FatBootSector} {k : ℕ}
    (hk : k < b.rootEntryCount.toNat) :
    (rootEntries disk b).drop k = rootEntry disk b k :: (rootEntries disk b).drop (k + 1) := by
  rw [List.drop_eq_getElem_cons (by rw [length_rootEntries]; exact hk)]
  simp [rootEntries]

namespace Fat12FileSystem

variable {disk : BlockDevice} {b : FatBootSector} {fs fs' : Fat12FileSystem} {p : ℕ}

/-- **The scan of the root** from its `k`-th entry on. -/
theorem findFileLoop_root (hcount : b.rootEntryCount.toNat ≠ 0) (hreach : NextInReach b)
    (name : List UInt8) (fuel : ℕ) :
    ∀ {k : ℕ} {fs : Fat12FileSystem}, k ≤ b.rootEntryCount.toNat →
      b.rootEntryCount.toNat < k + fuel →
      InStep disk b (rootStream b) .root (entrySize * k) fs →
      (findFileLoop .root name fuel fs).1 = firstMatch ((rootEntries disk b).drop k) name := by
  induction fuel with
  | zero => exact fun hk hfuel _ ↦ absurd hfuel (by omega)
  | succ fuel ih =>
    intro k fs hk hfuel h
    obtain ⟨hout, hstep⟩ := read_root_inStep hcount hreach h 32
    simp only [UInt32.reduceToNat, entrySize] at hout hstep
    rw [findFileLoop_succ]
    rcases Nat.lt_or_ge k b.rootEntryCount.toNat with hlt | hge
    · -- the entry is there
      have hmin : min 32 (32 * b.rootEntryCount.toNat - 32 * k) = 32 := by omega
      rw [hmin] at hout hstep
      rw [drop_rootEntries disk hlt, firstMatch_cons, rootEntry, hout, length_slice]
      by_cases hend : (⟨slice ((rootStream b).byteAt disk) (32 * k) 32⟩ :
          FatDirectoryEntry).name 0 = 0
      · rw [if_neg (fun h ↦ h.2 hend), if_pos hend]
      · rw [if_pos ⟨rfl, hend⟩, if_neg hend]
        split
        · rfl
        · exact ih (by omega) (by omega) (by rw [Nat.mul_succ]; exact hstep)
    · -- the directory is used up
      have hmin : min 32 (32 * b.rootEntryCount.toNat - 32 * k) = 0 := by omega
      rw [hmin] at hout
      rw [hout, slice_zero, if_neg (fun h ↦ absurd h.1 (by decide)),
        List.drop_of_length_le (by rw [length_rootEntries]; exact hge)]
      rfl

/-- **The root is readable when it is in reach.** -/
theorem Mounted.rootReadable (hd : disk.AllReadsSucceed) (h : Mounted disk fs)
    (h512 : fs.bs.bytesPerSector = 512) (hreach : RootInReach fs.bs) : RootReadable disk fs := by
  have hcount : fs.bs.rootEntryCount.toNat ≠ 0 := Nat.ne_of_gt hreach.1
  have hnext := nextInReach_of_rootInReach h.accepts h512 hreach
  have hroot := h.inStep_root hd
  refine ⟨fun ns ↦ readAll_root hcount hnext ns hroot, fun name fuel hfuel ↦ ?_⟩
  exact findFileLoop_root hcount hnext name fuel (Nat.zero_le _) (by omega) hroot

/-! ### Roots out of reach -/

/-- A read of one byte from a full buffer. -/
theorem readLoop_one (ref : FileRef) (fuel : ℕ) (out : List UInt8)
    (hposition : (fs.fileData ref).pub.position.toNat % 512 = 0) :
    (readLoop ref (fuel + 1) 1 out fs).1 = out ++ [(fs.fileData ref).buffer 0] := by
  rw [readLoop_of_lt (by decide) rfl (by rw [hposition]; decide), hposition]
  rfl

/-- **What a read of 513 bytes from the start delivers**: the buffer, and the first byte of whatever
`advance` fetched. -/
theorem readLoop_cross (ref : FileRef) (hposition : (fs.fileData ref).pub.position = 0) :
    (readLoop ref 513 513 [] fs).1 =
      slice (fs.fileData ref).buffer 0 512 ++
        if ((fs.movePosition ref 512).advance ref).1 = true then
          [(((fs.movePosition ref 512).advance ref).2.fileData ref).buffer 0]
        else [] := by
  have hmoved : ((fs.movePosition ref 512).fileData ref).pub.position = 512 := by
    rw [fileData_movePosition, hposition]
    exact (by decide : (0 : UInt32) + 512 = 512)
  have hadvanced : (((fs.movePosition ref 512).advance ref).2.fileData ref).pub.position = 512 := by
    rcases pub_advance (fs.movePosition ref 512) ref with hpub | hpub <;> rw [hpub] <;> exact hmoved
  rw [readLoop_succ ref 512 (by decide)]
  dsimp only
  rw [hposition, show min (513 : UInt32) (512 - 0 % 512) = 512 by decide, if_pos (by decide),
    show ((0 : UInt32) % 512).toNat = 0 by decide, show (512 : UInt32).toNat = 512 by decide,
    List.nil_append]
  split
  · rw [show (513 - 512 : UInt32) = 1 by decide, readLoop_one]
    rw [hadvanced]
    decide
  · rw [List.append_nil]

/-- A long root is read through the buffer and one crossing. -/
theorem Mounted.read_root_cross (h : Mounted disk fs)
    (hlong : 17 ≤ fs.bs.rootEntryCount.toNat) :
    (fs.read .root 513).1 = slice (fs.fileData .root).buffer 0 512 ++
      if ((fs.movePosition .root 512).advance .root).1 = true then
        [(((fs.movePosition .root 512).advance .root).2.fileData .root).buffer 0]
      else [] := by
  have hroot : fs.fileData .root = _ := h.root
  have hsize := toNat_rootDirSize fs.bs
  have hcapped : (!(fs.fileData .root).pub.isDirectory || (fs.fileData .root).pub.isDirectory &&
      (fs.fileData .root).pub.size != 0) = true := by
    have hne : rootDirSize fs.bs ≠ 0 := fun hzero ↦ by
      rw [hzero] at hsize
      simp only [UInt32.reduceToNat] at hsize
      omega
    rw [hroot]
    simpa using hne
  have hmin : min (513 : UInt32)
      ((fs.fileData .root).pub.size - (fs.fileData .root).pub.position) = 513 := by
    rw [hroot]
    dsimp only
    rw [← UInt32.toNat_inj, toNat_min, UInt32.toNat_sub_of_le _ _ (UInt32.le_iff_toNat_le.2 (by
      simp only [UInt32.reduceToNat]
      omega)), hsize]
    simp only [UInt32.reduceToNat]
    omega
  have htarget : fs.target .root = .root := by
    rw [target, hroot]
    rfl
  have hopened : (fs.fileData .root).opened = true := by rw [hroot]
  rw [read]
  dsimp only
  rw [htarget, if_pos hopened, if_pos hcapped, hmin]
  exact readLoop_cross .root (by rw [hroot])

/-- The root of every disk with boot sector `b` is readable. -/
def AlwaysReadable (b : FatBootSector) : Prop :=
  ∀ (disk : BlockDevice) (fresh : FatData) (fs : Fat12FileSystem), disk.AllReadsSucceed →
    detectAndMount disk fresh = some fs → fs.bs = b → RootReadable disk fs

/-- A disk with boot sector `b` and sectors that are constant otherwise. -/
def patternDisk (b : FatBootSector) (pattern : ℕ → UInt8) : BlockDevice where
  sector lba j := if lba = 0 then b.bytes j else pattern lba
  outcome _ := none
  calls := 0

theorem sector_patternDisk {pattern : ℕ → UInt8} {lba : ℕ} (h : lba ≠ 0) (j : ℕ) :
    (patternDisk b pattern).sector lba j = pattern lba :=
  if_neg h

/-- The pattern disks can be mounted. -/
theorem exists_mounted_patternDisk (ha : detectAccepts b = true) (ht : b.totalSectors16 ≠ 0)
    (h : AlwaysReadable b) (pattern : ℕ → UInt8) :
    ∃ fs, Mounted (patternDisk b pattern) fs ∧ fs.bs = b ∧
      RootReadable (patternDisk b pattern) fs := by
  have hd : (patternDisk b pattern).AllReadsSucceed := fun _ ↦ rfl
  obtain ⟨fs, hm, hb⟩ := exists_detectAndMount hd { blankData with bs := b } (fun _ _ ↦ rfl) ha ht
  exact ⟨fs, mounted_of_detectAndMount hm, hb, h _ _ _ hd hm hb⟩

/-- An empty directory still delivers its first byte. -/
theorem rootEntryCount_pos_of_alwaysReadable (ha : detectAccepts b = true)
    (ht : b.totalSectors16 ≠ 0) (h : AlwaysReadable b) : 1 ≤ b.rootEntryCount.toNat := by
  by_contra hzero
  have hcount : b.rootEntryCount = 0 := by
    rw [← UInt16.toNat_inj]
    simp only [UInt16.reduceToNat]
    omega
  obtain ⟨fs, hmount, rfl, hread⟩ := exists_mounted_patternDisk ha ht h fun _ ↦ 0
  have hroot : fs.fileData .root = _ := hmount.root
  have hsize : rootDirSize fs.bs = 0 := by
    rw [rootDirSize, hcount]
    decide
  have hreads := hread.reads [1]
  have hout : (fs.read .root 1).1 = [(fs.fileData .root).buffer 0] := by
    have htarget : fs.target .root = .root := by
      rw [target, hroot]
      rfl
    have huncapped : ¬ (!(fs.fileData .root).pub.isDirectory ||
        (fs.fileData .root).pub.isDirectory && (fs.fileData .root).pub.size != 0) = true := by
      rw [hroot]
      simpa using hsize
    rw [read]
    dsimp only
    rw [htarget, if_pos (by rw [hroot]), if_neg huncapped]
    rw [show (1 : UInt32).toNat = 0 + 1 by decide, readLoop_one]
    · rfl
    · rw [hroot]
      exact (by decide : (0 : UInt32).toNat % 512 = 0)
  rw [readAll, hout, pieces, hcount] at hreads
  exact absurd (congrArg List.length (List.cons.inj hreads).1) (by simp)

section LongRoot

variable (ha : detectAccepts b = true) (ht : b.totalSectors16 ≠ 0) (h : AlwaysReadable b)
  (hlong : 17 ≤ b.rootEntryCount.toNat)

include ha ht h hlong

/-- On a long root the crossing must fetch the byte that comes next on the disk. -/
theorem advance_of_alwaysReadable (pattern : ℕ → UInt8) :
    ∃ fs, Serves (patternDisk b pattern) b fs ∧
      fs.data.fatCachePosition = 0xFFFFFFFF ∧
      (fs.fileData .root).currentCluster = rootDirLba b ∧
      (fs.fileData .root).currentSectorInCluster = 0 ∧
      (fs.advance .root).1 = true ∧
      ((fs.advance .root).2.fileData .root).buffer 0 = pattern ((rootDirLba b).toNat + 1) := by
  obtain ⟨fs, hmount, rfl, hread⟩ := exists_mounted_patternDisk ha ht h pattern
  have hroot : fs.fileData .root = _ := hmount.root
  have hframe := frame_movePosition fs .root 512
  have hserves := hmount.serves (fun _ ↦ rfl)
  have hreads := (List.cons.inj (hread.reads [513])).1
  rw [hmount.read_root_cross hlong] at hreads
  -- compare the last byte
  have hlast := congrArg (fun l ↦ l[512]?) hreads
  have hmin : min (513 : UInt32).toNat (32 * fs.bs.rootEntryCount.toNat - 0) = 513 := by
    simp only [UInt32.reduceToNat]
    omega
  rw [hmin, getElem?_slice (by decide), List.getElem?_append_right (by simp), length_slice] at hlast
  have hbyte : (rootStream fs.bs).byteAt (patternDisk fs.bs pattern) (0 + 512) =
      pattern ((rootDirLba fs.bs).toNat + 1) := by
    have hplace : ((rootStream fs.bs).place ((0 + 512) / sectorSize)).lba =
        (rootDirLba fs.bs).toNat + 1 := rfl
    rw [Stream.byteAt, hplace, sector_patternDisk (Nat.succ_ne_zero _)]
  replace hlast := hlast.trans (congrArg some hbyte)
  refine ⟨fs.movePosition .root 512, hserves.of_frame hframe, ?_, ?_, ?_, ?_⟩
  · rw [movePosition, fatCachePosition_setFileData]
    exact hmount.fatCachePosition
  · rw [fileData_movePosition, hroot]
  · rw [fileData_movePosition, hroot]
  · split at hlast
    · next hok =>
      exact ⟨hok, Option.some.inj hlast⟩
    · exact absurd hlast (by simp)

/-- With more than one sector to the cluster, the next sector is looked for in the data section. -/
theorem rootDirLba_eq_one_of_alwaysReadable (h512 : b.bytesPerSector = 512) (hspc : 2 ≤ spc b)
    (hres : 1 ≤ b.reservedSectorCount.toNat) :
    rootDirLba b = 1 ∧ rootDirSectors b = b.sectorsPerCluster.toUInt32 := by
  obtain ⟨fs, hs, -, hcluster, hsector, -, hbyte⟩ := advance_of_alwaysReadable ha ht h hlong
    fun lba ↦ if lba = (rootDirLba b).toNat + 1 then b.bytes 0 + 1 else b.bytes 0
  have hstay : ¬ (fs.fileData .root).currentSectorInCluster + 1 ≥
      fs.bs.sectorsPerCluster.toUInt32 := by
    rw [hsector, ge_iff_le, UInt32.le_iff_toNat_le, hs.toNat_sectorsPerCluster]
    simp only [UInt32.reduceAdd, UInt32.reduceToNat]
    omega
  have hdata : ¬ (fs.fileData .root).currentCluster ≥ 0xFFFFFFF8 := by
    rw [hcluster]
    exact rootDirLba_lt b
  rw [advance_of_stay hstay hdata, hcluster, hsector, fileData_readSector,
    BlockDevice.readSectors_of_allReadsSucceed (by rw [disk_setFileData]; exact hs.reads)] at hbyte
  dsimp only at hbyte
  rw [BlockDevice.fill_one (by decide), disk_setFileData, hs.sector, if_pos rfl, clusterToLba,
    hs.dataSectionLba, hs.bs] at hbyte
  -- only the right address holds the marked byte
  have hne : b.bytes 0 ≠ b.bytes 0 + 1 := fun heq ↦ by
    have := congrArg (fun x ↦ x - b.bytes 0) heq
    simp only [UInt8.sub_self] at this
    rw [UInt8.add_comm, UInt8.add_sub_cancel] at this
    exact absurd this (by decide)
  have hlba : (rootDirLba b + rootDirSectors b +
      (rootDirLba b - 2) * b.sectorsPerCluster.toUInt32 + (0 + 1)).toNat =
        (rootDirLba b).toNat + 1 := by
    by_contra hother
    by_cases hzero : (rootDirLba b + rootDirSectors b +
        (rootDirLba b - 2) * b.sectorsPerCluster.toUInt32 + (0 + 1)).toNat = 0
    · rw [hzero] at hbyte
      exact hne hbyte
    · rw [sector_patternDisk hzero, if_neg hother] at hbyte
      exact hne hbyte
  have hsectors := toNat_rootDirSectors ha
  rw [h512] at hsectors
  simp only [UInt16.reduceToNat] at hsectors
  have hcount := b.rootEntryCount.toNat_lt
  have hspc' := spc_lt b
  have hS : b.sectorsPerCluster.toUInt32.toNat = spc b := UInt8.toNat_toUInt32 _
  have hR := toNat_rootDirLba b
  have hRle := toNat_rootDirLba_le b
  rw [UInt32.toNat_add, UInt32.toNat_add, UInt32.toNat_add, UInt32.toNat_mul, hS] at hlba
  simp only [UInt32.reduceAdd, UInt32.reduceToNat] at hlba
  rcases Nat.lt_or_ge (rootDirLba b).toNat 2 with hsmall | hlarge
  · have hone : rootDirLba b = 1 := by
      rw [← UInt32.toNat_inj]
      simp only [UInt32.reduceToNat]
      omega
    refine ⟨hone, ?_⟩
    rw [hone] at hlba
    simp only [UInt32.reduceSub, UInt32.reduceToNat] at hlba
    rw [← UInt32.toNat_inj, hS]
    omega
  · -- the address of the wrong sector is computed without overflow, and it is too large
    exfalso
    rw [UInt32.toNat_sub_of_le _ _ (show (2 : UInt32) ≤ rootDirLba b from
      UInt32.le_iff_toNat_le.2 hlarge)] at hlba
    simp only [UInt32.reduceToNat] at hlba
    have hmul : ((rootDirLba b).toNat - 2) * spc b ≤ (256 * 65535 - 2) * 255 :=
      Nat.mul_le_mul (by omega) (by omega)
    omega

/-- With one sector to the cluster, the FAT is asked for the next one. -/
theorem two_le_spc_of_alwaysReadable (hres : 1 ≤ b.reservedSectorCount.toNat) : 2 ≤ spc b := by
  by_contra hone
  have hpos := spc_pos ha
  obtain ⟨fs, hs, hposition, hcluster, hsector, hok, -⟩ :=
    advance_of_alwaysReadable ha ht h hlong fun _ ↦ 0xFF
  have hgo : (fs.fileData .root).currentSectorInCluster + 1 ≥
      fs.bs.sectorsPerCluster.toUInt32 := by
    rw [hsector, ge_iff_le, UInt32.le_iff_toNat_le, hs.toNat_sectorsPerCluster]
    simp only [UInt32.reduceAdd, UInt32.reduceToNat]
    omega
  have hfat (k : ℕ) : fs.fatByte k = 0xFF := by
    rw [hs.fatByte, diskFat, sector_patternDisk
      (Nat.ne_of_gt (Nat.lt_of_lt_of_le hres (Nat.le_add_right _ _)))]
  have hstraddle : ¬ fs.Straddles (rootDirLba b) := by
    have hlt := (rootDirLba b * 3 / 2).toNat_lt
    rw [Straddles, hposition]
    simp only [UInt32.reduceToNat, fatCacheSize, sectorSize]
    omega
  have hnext := nextCluster_of_not_straddles (not_fetchFails hs.reads _) hs.cacheValid hstraddle
  have hend (c : ℕ) : decodeEntry c 0xFF 0xFF = 0xFFFFFFFF := by
    rw [decodeEntry]
    split <;> decide
  rw [hfat, hfat, hend] at hnext
  rw [advance_eq, stepCounters] at hok
  dsimp only at hok
  rw [if_pos hgo, fileData_setFileData_self] at hok
  dsimp only at hok
  rw [hcluster, hnext, if_pos (by decide)] at hok
  exact absurd hok (by simp)

end LongRoot

/-- **Where the root can be read.** On volumes with 512-byte sectors a root in reach is readable on
every disk; and if the boot sector lies in the reserved region, as it should, a root that is
readable on every disk is in reach. -/
theorem rootReadable_iff (ha : detectAccepts b = true) (ht : b.totalSectors16 ≠ 0)
    (h512 : b.bytesPerSector = 512) :
    (RootInReach b → AlwaysReadable b) ∧
      (1 ≤ b.reservedSectorCount.toNat → (AlwaysReadable b ↔ RootInReach b)) := by
  have henough : RootInReach b → AlwaysReadable b := by
    rintro hreach disk fresh fs hd hm rfl
    exact (mounted_of_detectAndMount hm).rootReadable hd h512 hreach
  refine ⟨henough, fun hres ↦ ⟨fun h ↦ ?_, henough⟩⟩
  refine ⟨rootEntryCount_pos_of_alwaysReadable ha ht h, ?_⟩
  rcases Nat.lt_or_ge b.rootEntryCount.toNat 17 with hshort | hlong
  · exact Or.inl (Nat.le_of_lt_succ hshort)
  · have hspc := two_le_spc_of_alwaysReadable ha ht h hlong hres
    exact Or.inr (rootDirLba_eq_one_of_alwaysReadable ha ht h hlong h512 hspc hres)

/-- The boot sector of a floppy disk with a root directory of 16 entries. -/
def smallRootBoot : FatBootSector := ⟨fun j ↦ if j = 0x11 then 16 else floppyBoot j⟩

/-- Its root is readable, whatever the disk holds. -/
theorem rootReadable_iff_smallRootBoot :
    (RootInReach smallRootBoot → AlwaysReadable smallRootBoot) ∧
      (1 ≤ smallRootBoot.reservedSectorCount.toNat →
        (AlwaysReadable smallRootBoot ↔ RootInReach smallRootBoot)) :=
  rootReadable_iff (by decide) (by decide) (by decide)

/-- A floppy disk whose root directory has sixteen entries `A` in its first sector and the entry
`KERNEL.ELF` in its second one; the FAT is filled with end marks. -/
def longRootFloppy : BlockDevice where
  sector lba j :=
    if lba = 0 then floppyBoot j
    else if lba = 19 then (if j % 32 = 0 then 0x41 else 32)
    else if lba = 20 then
      [0x4B, 0x45, 0x52, 0x4E, 0x45, 0x4C, 32, 32, 0x45, 0x4C, 0x46, 0x20].getD j 0
    else 0xFF
  outcome _ := none
  calls := 0

/-- The driver after mounting that disk. -/
def longRootFs : Fat12FileSystem :=
  (detectAndMount longRootFloppy blankData).get (by decide)

/-- The name looked for. -/
def kernelName : List UInt8 := [0x4B, 0x45, 0x52, 0x4E, 0x45, 0x4C, 0x2E, 0x45, 0x4C, 0x46]

/-- **The entry that is not found.** The seventeenth of 224 entries is `KERNEL.ELF`, and the scan
for it ends after the sixteenth. -/
theorem not_rootReadable_longRootFloppy :
    firstMatch (rootEntries longRootFloppy longRootFs.bs) kernelName ≠ .notFound ∧
      (longRootFs.findFile 225 .root kernelName).1 = .notFound ∧
      ¬ RootReadable longRootFloppy longRootFs := by
  have hthere : firstMatch (rootEntries longRootFloppy longRootFs.bs) kernelName ≠ .notFound := by
    decide
  have hmissed : (longRootFs.findFile 225 .root kernelName).1 = .notFound := by decide
  refine ⟨hthere, hmissed, fun h ↦ ?_⟩
  rw [h.find kernelName 225 (by decide)] at hmissed
  exact hthere hmissed

end Fat12FileSystem

end Aidos.Fat12
