import Aidos.Fat12.Parallel
import Aidos.Fat12.RootDirectory
import Aidos.Fat12.Sessions

/-!
# Opening after a history

Every `open` scans the one root record and `close` rewinds it: the position goes back to zero and
the current cluster to the first. The buffer, the sector counter and the size are not put back, so
the rewinding is complete only when the scan did not use the buffer up, that is, when it ended
within the first fifteen entries.

`StopsEarly` says so of a path. Then the scan moves nothing but the position
(`findFileLoop_rootAt`), `close` undoes it, and the root record is back to what mounting left
(`rootDirectory_openPath`). In a session whose opens all stop early the root is restored in every
state, and `open` behaves as it did right after mounting (`open_of_history`), as far as the FAT
lookups of the two do not read past the cache.
-/

namespace Aidos.Fat12

namespace Fat12FileSystem

variable {disk : BlockDevice} {b : FatBootSector} {fs : Fat12FileSystem} {root : FatFileData}

/-! ### The root at a position -/

/-- The driver with the root record at a given position. -/
def rootAt (fs : Fat12FileSystem) (root : FatFileData) (position : UInt32) : Fat12FileSystem :=
  fs.setFileData .root { root with pub := { root.pub with position := position } }

@[simp] theorem fileData_rootAt (position : UInt32) :
    (fs.rootAt root position).fileData .root =
      { root with pub := { root.pub with position := position } } :=
  fileData_setFileData_self

theorem movePosition_rootAt (position take : UInt32) :
    (fs.rootAt root position).movePosition .root take = fs.rootAt root (position + take) := rfl

theorem rootAt_zero (hroot : fs.data.rootDirectory = root) (hzero : root.pub.position = 0) :
    fs.rootAt root 0 = fs := by
  subst hroot
  rw [rootAt, ← hzero]
  rfl

/-- What mounting leaves in the root record. -/
structure RootRecord (disk : BlockDevice) (b : FatBootSector) (root : FatFileData) : Prop where
  /-- Its handle. -/
  handle : root.pub.handle = rootDirectoryHandle
  /-- It is a directory. -/
  isDirectory : root.pub.isDirectory = true
  /-- Its size. -/
  size : root.pub.size = rootDirSize b
  /-- Its position. -/
  position : root.pub.position = 0
  /-- It is open. -/
  opened : root.opened = true
  /-- The current cluster is the first. -/
  currentCluster : root.currentCluster = root.firstCluster
  /-- The first sector is in the buffer. -/
  buffer : ∀ j < sectorSize, root.buffer j = disk.sector (rootDirLba b).toNat j

theorem Mounted.rootRecord (h : Mounted disk fs) :
    RootRecord disk fs.bs fs.data.rootDirectory where
  handle := by rw [h.root]
  isDirectory := by rw [h.root]
  size := by rw [h.root]
  position := by rw [h.root]
  opened := by rw [h.root]
  currentCluster := by rw [h.root]
  buffer := h.rootBuffer

theorem RootRecord.target_rootAt (h : RootRecord disk b root) (position : UInt32) :
    (fs.rootAt root position).target .root = .root := by
  rw [target, fileData_rootAt]
  dsimp only
  rw [h.handle]
  rfl

/-- Closing rewinds the root. -/
theorem RootRecord.close_rootAt (h : RootRecord disk b root) (position : UInt32) :
    (fs.rootAt root position).close .root = fs.rootAt root 0 := by
  rw [close, h.target_rootAt]
  simp only [rootAt, setFileData, fileData, h.currentCluster]

/-! ### Scans that stop early -/

/-- The fifteen entries in front of the last one of the root's first sector. -/
theorem slice_buffer_eq (h : RootRecord disk b root) {k : ℕ} (hk : k < 16) :
    slice root.buffer (32 * k) 32 = (rootEntry disk b k).bytes := by
  refine slice_congr fun i hi ↦ ?_
  have hdiv : (32 * k + i) / sectorSize = 0 := by
    simp only [sectorSize]
    omega
  have hmod : (32 * k + i) % sectorSize = 32 * k + i := by
    simp only [sectorSize]
    omega
  rw [h.buffer _ (by simp only [sectorSize]; omega), Stream.byteAt, hdiv, hmod]
  rfl

/-- Reading one of them delivers it and moves the position. -/
theorem RootRecord.read_rootAt (h : RootRecord disk b root) {k : ℕ} (hk : k < 15)
    (hsize : b.rootEntryCount.toNat = 0 ∨ k < b.rootEntryCount.toNat) :
    (fs.rootAt root (UInt32.ofNat (32 * k))).read .root 32 =
      ((rootEntry disk b k).bytes, fs.rootAt root (UInt32.ofNat (32 * (k + 1)))) := by
  have hcount := b.rootEntryCount.toNat_lt
  have hposition : (UInt32.ofNat (32 * k)).toNat = 32 * k :=
    UInt32.toNat_ofNat_of_lt' (Nat.lt_trans (by omega : 32 * k < 512) (by decide))
  have hsum : UInt32.ofNat (32 * k) + 32 = UInt32.ofNat (32 * (k + 1)) := by
    rw [Nat.mul_succ, UInt32.ofNat_add]
    rfl
  have hcap : (if (!true || true && root.pub.size != 0) = true then
      min 32 (root.pub.size - UInt32.ofNat (32 * k)) else 32) = 32 := by
    split
    · next hne =>
      have hroom : 32 * (k + 1) ≤ root.pub.size.toNat := by
        rw [h.size, toNat_rootDirSize]
        rcases hsize with hzero | hlt
        · exact absurd hne (by simp [h.size, rootDirSize, ← UInt32.toNat_inj, hzero])
        · omega
      rw [← UInt32.toNat_inj, toNat_min, UInt32.toNat_sub_of_le _ _
        (UInt32.le_iff_toNat_le.2 (by rw [hposition]; omega)), hposition]
      simp only [UInt32.reduceToNat]
      omega
    · rfl
  rw [read]
  dsimp only
  rw [h.target_rootAt, fileData_rootAt]
  dsimp only
  rw [h.isDirectory, hcap, if_pos h.opened]
  have hmod : 32 * k % 512 = 32 * k := by omega
  rw [show (32 : UInt32).toNat = 31 + 1 by decide, readLoop_of_lt (p := 32 * k) (by decide)
    (by rw [fileData_rootAt]; exact hposition) (by rw [hmod]; exact (by omega : 32 * k + 32 < 512)),
    movePosition_rootAt, hsum, fileData_rootAt, hmod, List.nil_append]
  exact congrArg (·, _) (slice_buffer_eq h (by omega))

/-- Behind the last entry nothing is delivered. -/
theorem RootRecord.read_rootAt_end (h : RootRecord disk b root)
    (hsize : b.rootEntryCount.toNat ≠ 0) :
    (fs.rootAt root (UInt32.ofNat (32 * b.rootEntryCount.toNat))).read .root 32 =
      ([], fs.rootAt root (UInt32.ofNat (32 * b.rootEntryCount.toNat))) := by
  have hcount := b.rootEntryCount.toNat_lt
  have hsame : UInt32.ofNat (32 * b.rootEntryCount.toNat) = root.pub.size := by
    rw [h.size, ← UInt32.toNat_inj, toNat_rootDirSize]
    exact UInt32.toNat_ofNat_of_lt' (Nat.lt_trans
      (by omega : 32 * b.rootEntryCount.toNat < 2 ^ 22) (by decide))
  have hne : (!true || true && root.pub.size != 0) = true := by
    have hval := toNat_rootDirSize b
    rw [← h.size] at hval
    simp only [Bool.not_true, Bool.true_and, Bool.false_or, bne_iff_ne, ne_eq]
    rw [← UInt32.toNat_inj, hval]
    simp only [UInt32.reduceToNat]
    omega
  have hnone : (min 32 (root.pub.size - UInt32.ofNat (32 * b.rootEntryCount.toNat))).toNat = 0 := by
    rw [toNat_min, hsame, UInt32.sub_self]
    rfl
  rw [read]
  dsimp only
  rw [h.target_rootAt, fileData_rootAt]
  dsimp only
  rw [h.isDirectory, if_pos h.opened, if_pos hne, readLoop_of_eq_zero hnone]

end Fat12FileSystem

/-- A scan for `name` ends within the first fifteen entries of the root: there are no more, or one
of them is the terminator or the entry looked for. -/
def StopsEarly (disk : BlockDevice) (b : FatBootSector) (name : List UInt8) : Prop :=
  (1 ≤ b.rootEntryCount.toNat ∧ b.rootEntryCount.toNat ≤ 15) ∨
    ∃ k < 15, (rootEntry disk b k).name 0 = 0 ∨ nameMatches name (rootEntry disk b k) = true

instance (disk : BlockDevice) (b : FatBootSector) (name : List UInt8) :
    Decidable (StopsEarly disk b name) :=
  inferInstanceAs (Decidable ((_ ∧ _) ∨ ∃ k < 15, (_ ∨ _)))

namespace Fat12FileSystem

variable {disk : BlockDevice} {b : FatBootSector} {fs : Fat12FileSystem} {root : FatFileData}

/-- **A scan that stops early moves nothing but the position.** -/
theorem findFileLoop_rootAt (h : RootRecord disk b root) (fs : Fat12FileSystem)
    (name : List UInt8) (fuel : ℕ) :
    ∀ k, ((1 ≤ b.rootEntryCount.toNat ∧ b.rootEntryCount.toNat ≤ 15 ∧
          k ≤ b.rootEntryCount.toNat) ∨
        ((b.rootEntryCount.toNat = 0 ∨ 15 < b.rootEntryCount.toNat) ∧ ∃ j, k ≤ j ∧ j < 15 ∧
          ((rootEntry disk b j).name 0 = 0 ∨ nameMatches name (rootEntry disk b j) = true))) →
      ∃ position, (findFileLoop .root name fuel (fs.rootAt root (UInt32.ofNat (32 * k)))).2 =
        fs.rootAt root position := by
  induction fuel with
  | zero => exact fun k _ ↦ ⟨_, rfl⟩
  | succ fuel ih =>
    intro k hk
    rw [findFileLoop_succ]
    by_cases hend : 1 ≤ b.rootEntryCount.toNat ∧ k = b.rootEntryCount.toNat
    · rw [hend.2, h.read_rootAt_end (by omega), if_neg (fun h ↦ absurd h.1 (by simp))]
      exact ⟨_, rfl⟩
    have hlt : k < 15 := by
      rcases hk with hk | ⟨-, j, hj⟩ <;> omega
    have hin : b.rootEntryCount.toNat = 0 ∨ k < b.rootEntryCount.toNat := by
      rcases hk with hk | ⟨hk, j, hj⟩ <;> omega
    rw [h.read_rootAt hlt hin]
    by_cases hentry : (rootEntry disk b k).bytes.length = entrySize ∧
        FatDirectoryEntry.name ⟨(rootEntry disk b k).bytes⟩ 0 ≠ 0
    · rw [if_pos hentry]
      by_cases hmatch : nameMatches name ⟨(rootEntry disk b k).bytes⟩ = true
      · rw [if_pos hmatch]
        exact ⟨_, rfl⟩
      · rw [if_neg hmatch]
        refine ih (k + 1) ?_
        rcases hk with hk | ⟨hk, j, hle, hlt', hstop⟩
        · exact Or.inl (by omega)
        · refine Or.inr ⟨hk, j, ?_, hlt', hstop⟩
          -- the entry just read is not the one that stops the scan
          rcases Nat.eq_or_lt_of_le hle with rfl | hlt
          · rcases hstop with hzero | hfound
            · exact absurd hzero hentry.2
            · exact absurd hfound hmatch
          · exact hlt
    · rw [if_neg hentry]
      exact ⟨_, rfl⟩

end Fat12FileSystem

/-- What `open` resolves: the path without a leading slash. -/
def relativePath (path : List UInt8) : List UInt8 :=
  if path.head? = some 47 then path.tail else path

/-- The call ended, in one of the two ways the source defines. -/
def Opened.returned : Opened → Bool
  | .null => true
  | .file _ _ => true
  | _ => false

namespace Fat12FileSystem

variable {disk : BlockDevice} {b : FatBootSector} {fs : Fat12FileSystem} {root : FatFileData}

/-- Behind its first component a path is resolved without touching the root. -/
theorem rootDirectory_openLoop (htarget : fs.target .root = .root) (e : FatDirectoryEntry)
    (fuel n : ℕ) (path : List UInt8) :
    (openLoop fuel n (fs.openEntry e).1 (some e) path (fs.openEntry e).2).2.data.rootDirectory =
      fs.data.rootDirectory := by
  have hstart : Resolving fs.freeSlots fs none fs :=
    ⟨Frame.refl _ fs, htarget, fun _ h ↦ absurd h (by simp)⟩
  have hlast : LastOpened fs.freeSlots fs (fs.openEntry e).1 (some e) (fs.openEntry e).2 := by
    intro e' he'
    obtain rfl := Option.some.inj he'
    exact ⟨fs, Frame.refl _ fs, rfl⟩
  have hframe : Frame fs.freeSlots fs
      (openLoop fuel n (fs.openEntry e).1 (some e) path (fs.openEntry e).2).2 :=
    (openLoop_spec (Set.Subset.refl _) fuel n (hstart.openEntry (Set.Subset.refl _) e) hlast).1
  exact hframe.fileData .root (fun ⟨_, h, _⟩ ↦ absurd h (by simp))

/-- **An `open` that stops early puts the root back.** -/
theorem rootDirectory_openPath (h : RootRecord disk b root) (hroot : fs.data.rootDirectory = root)
    (fuel : ℕ) {path : List UInt8}
    (hstops : relativePath path = [] ∨ StopsEarly disk b (nextName (relativePath path)).1)
    (hreturned : (fs.openPath fuel path).1.returned = true) :
    (fs.openPath fuel path).2.data.rootDirectory = root := by
  have hself := rootAt_zero hroot h.position
  have htarget : fs.target .root = .root := hself ▸ h.target_rootAt 0
  change (openLoop fuel (relativePath path).length (some .root) none
    (relativePath path) fs).1.returned
    = true at hreturned
  change (openLoop fuel (relativePath path).length (some .root) none (relativePath path)
    fs).2.data.rootDirectory = root
  rcases hpath : relativePath path with - | ⟨c, rest⟩
  · exact hroot
  rw [hpath] at hstops hreturned
  rw [List.length_cons, openLoop_some] at hreturned ⊢
  split
  · exact hroot
  next hshort =>
  rw [if_neg hshort] at hreturned
  obtain ⟨position, hscan⟩ := findFileLoop_rootAt h fs (nextName (c :: rest)).1 fuel 0
    (by
      rcases hstops with hnil | hcount | ⟨k, hk, hstop⟩
      · exact absurd hnil (by simp)
      · exact Or.inl ⟨hcount.1, hcount.2, Nat.zero_le _⟩
      · by_cases hcount : 1 ≤ b.rootEntryCount.toNat ∧ b.rootEntryCount.toNat ≤ 15
        · exact Or.inl ⟨hcount.1, hcount.2, Nat.zero_le _⟩
        · exact Or.inr ⟨by omega, k, Nat.zero_le _, hk, hstop⟩)
  have hclose : (fs.rootAt root position).close .root = fs :=
    (h.close_rootAt position).trans hself
  rw [Nat.mul_zero, show UInt32.ofNat 0 = 0 from rfl, hself] at hscan
  generalize findFileLoop .root (nextName (c :: rest)).1 fuel fs = scan at hscan hreturned ⊢
  obtain ⟨found, gs⟩ := scan
  obtain rfl : gs = fs.rootAt root position := hscan
  cases found with
  | running => exact absurd hreturned (by simp [afterScan, Opened.returned])
  | notFound =>
    rw [afterScan, hclose]
    exact hroot
  | found e =>
    rw [afterScan, hclose]
    split
    · exact hroot
    · rw [rootDirectory_openLoop htarget]
      exact hroot

end Fat12FileSystem

/-! ### Sessions whose opens stop early -/

namespace Session

/-- Every call of a run meets a condition on the session it is made in. -/
def Meets (P : Session → Op → Prop) : Session → List Op → Prop
  | _, [] => True
  | s, op :: ops => P s op ∧ Meets P (s.step op) ops

/-- The call returns. -/
def Returns (s : Session) : Op → Prop
  | .openFile path fuel => (s.fs.openPath fuel path).1.returned = true
  | _ => True

instance (s : Session) : (op : Op) → Decidable (s.Returns op)
  | .openFile path fuel =>
    inferInstanceAs (Decidable ((s.fs.openPath fuel path).1.returned = true))
  | .read _ _ => .isTrue trivial
  | .seek _ _ => .isTrue trivial
  | .close _ => .isTrue trivial
  | .closeRoot => .isTrue trivial

end Session

/-- If the call is an `open`, its scan of the root stops early. -/
def Op.StopsEarly (disk : BlockDevice) (b : FatBootSector) : Op → Prop
  | .openFile path _ =>
    relativePath path = [] ∨
      Fat12.StopsEarly disk b (Fat12FileSystem.nextName (relativePath path)).1
  | _ => True

open Fat12FileSystem

variable {disk : BlockDevice} {b : FatBootSector} {root : FatFileData}

/-- One call keeps the root record as mounting left it. -/
theorem SessionInv.rootDirectory_step {s : Session} (hinv : SessionInv disk b s)
    (h : RootRecord disk b root) (hroot : s.fs.data.rootDirectory = root) {op : Op}
    (hreturns : s.Returns op) (hstops : op.StopsEarly disk b) :
    (s.step op).fs.data.rootDirectory = root := by
  obtain ⟨path, fuel, rfl⟩ | rfl | ⟨i, hframe⟩ := hinv.base.frame_handle op
  · exact rootDirectory_openPath h hroot fuel hstops hreturns
  · have hself := rootAt_zero hroot h.position
    rw [Session.step]
    dsimp only
    rw [← hself, h.close_rootAt, hself]
    exact hroot
  · exact (hframe.fileData .root (by simp)).trans hroot

/-- A run whose opens stop early keeps it. -/
theorem SessionInv.rootDirectory_run {s : Session} (hinv : SessionInv disk b s)
    (ha : detectAccepts b = true) (h : RootRecord disk b root)
    (hroot : s.fs.data.rootDirectory = root) {ops : List Op}
    (hops : s.Meets (fun s op ↦ s.Returns op ∧ op.StopsEarly disk b) ops) :
    (s.run ops).fs.data.rootDirectory = root := by
  induction ops generalizing s with
  | nil => exact hroot
  | cons op ops ih =>
    obtain ⟨⟨hreturns, hstops⟩, hrest⟩ := hops
    exact ih (hinv.step ha op) (hinv.rootDirectory_step h hroot hreturns hstops) hrest

/-- **`open` does not depend on the history.** After a mount on a device whose reads succeed, let
any sequence of opens, reads, seeks and closes be made in which every `open` returns and its scan of
the root stops early. Then the root record is as mounting left it; and if a handle is free, opening
any path finds the same entry, or fails the same way, as it does right after mounting, provided the
FAT lookups of neither read outside the cache. -/
theorem Session.open_of_history {disk : BlockDevice} (hd : disk.AllReadsSucceed) {fresh : FatData}
    {fs : Fat12FileSystem} (hm : detectAndMount disk fresh = some fs) (ops : List Op)
    (hops : (Session.mount fs).Meets (fun s op ↦ s.Returns op ∧ op.StopsEarly disk fs.bs) ops) :
    ((Session.mount fs).run ops).fs.data.rootDirectory = fs.data.rootDirectory ∧
      ∀ path fuel, ((Session.mount fs).run ops).fs.freeHandle.isSome →
        InCache (fs.openPath fuel path).2.trace →
        InCache (((Session.mount fs).run ops).fs.openPath fuel path).2.trace →
        Opened.Same (fs.openPath fuel path).1
          (((Session.mount fs).run ops).fs.openPath fuel path).1 := by
  have hmount := mounted_of_detectAndMount hm
  have hstart := SessionInv.mount hd hmount
  have hinv := hstart.run hmount.accepts ops
  have hroot := hstart.rootDirectory_run hmount.accepts hmount.rootRecord rfl hops
  refine ⟨hroot, fun path fuel hfree hin hin' ↦ ?_⟩
  have hvol : SameVolume fs ((Session.mount fs).run ops).fs :=
    { bs := hinv.serves.bs
      dataSectionLba := hinv.serves.dataSectionLba.trans hmount.dataSectionLba.symm
      sector := hinv.serves.sector.trans hmount.sector.symm
      reads := hmount.allReadsSucceed hd
      reads' := hinv.serves.reads
      cacheValid := hmount.cacheValid
      cacheValid' := hinv.serves.cacheValid }
  have halike : Alike (fs.fileData .root) (((Session.mount fs).run ops).fs.fileData .root) := by
    rw [show ((Session.mount fs).run ops).fs.fileData .root = fs.fileData .root from hroot]
    exact Alike.refl _
  have hunused : fs.freeHandle.isSome := by
    rw [isSome_freeHandle_iff]
    exact ⟨0, by decide, hmount.closed 0 (by decide)⟩
  exact openPath_parallel hvol hstart.root hinv.root halike hunused hfree fuel path hin hin'

/-- That a given trace stays in the cache can be computed. -/
theorem inCache_of_all {trace : List Event}
    (h : (trace.all fun
      | .cacheByte i => decide (i < fatCacheSize * sectorSize)
      | _ => true) = true) : InCache trace := by
  intro i hmem
  have hev := List.all_eq_true.1 h _ hmem
  exact of_decide_eq_true hev

/-- Open and close `A`, then look for a file that is not there. -/
def missingFileOps : List Op := [.openFile [0x2F, 0x61] 8, .close 0, .openFile [0x2F, 0x62] 8]

/-- After that `A` is found as at first. -/
theorem Session.open_of_history_missingFile :
    Opened.Same (twoClusterFs.openPath 8 [0x2F, 0x61]).1
      (((Session.mount twoClusterFs).run missingFileOps).fs.openPath 8 [0x2F, 0x61]).1 := by
  refine (Session.open_of_history (fun _ ↦ rfl) detectAndMount_twoClusterFloppy missingFileOps
    ⟨⟨?_, Or.inr ?_⟩, ⟨trivial, trivial⟩, ⟨?_, Or.inr ?_⟩, trivial⟩).2 [0x2F, 0x61] 8 ?_
    (inCache_of_all ?_) (inCache_of_all ?_)
  · decide
  · decide
  · decide
  · decide
  · decide
  · decide
  · decide

/-! ### A root that is not put back -/

/-- A floppy disk whose root directory begins with `KERNEL.ELF` and fifteen more entries; everything
else is zero. -/
def fullSectorFloppy : BlockDevice where
  sector lba j :=
    if lba = 0 then floppyBoot j
    else if lba = 19 then
      if j < 32 then
        [0x4B, 0x45, 0x52, 0x4E, 0x45, 0x4C, 32, 32, 0x45, 0x4C, 0x46, 0x20, 0, 0, 0, 0, 0, 0, 0, 0,
          0, 0, 0, 0, 0, 0, 2].getD j 0
      else if j % 32 = 0 then 0x41 else 32
    else 0
  outcome _ := none
  calls := 0

/-- The driver after mounting that disk. -/
def fullSectorFs : Fat12FileSystem :=
  (detectAndMount fullSectorFloppy blankData).get (by decide)

/-- The session in which a missing file was looked for. -/
def fullSectorSession : Session :=
  (Session.mount fullSectorFs).run [.openFile [0x2F, 0x7A] 300]

/-- **The file that is lost.** Looking for a missing name uses up the first sector, and `close`
leaves the sector fetched next in the buffer. `/KERNEL.ELF`, which was found before, is not found
again. -/
theorem not_open_of_history_fullSector :
    fullSectorSession.fs.freeHandle.isSome ∧
      (fullSectorFs.openPath 300 (47 :: kernelName)).1 ≠ .null ∧
      (fullSectorSession.fs.openPath 300 (47 :: kernelName)).1 = .null ∧
      ¬ Opened.Same (fullSectorFs.openPath 300 (47 :: kernelName)).1
        (fullSectorSession.fs.openPath 300 (47 :: kernelName)).1 ∧
      fullSectorSession.fs.data.rootDirectory.buffer 0 ≠
        fullSectorFs.data.rootDirectory.buffer 0 := by
  have hfound : (fullSectorFs.openPath 300 (47 :: kernelName)).1 ≠ .null := by decide
  have hlost : (fullSectorSession.fs.openPath 300 (47 :: kernelName)).1 = .null := by decide
  refine ⟨by decide, hfound, hlost, fun hsame ↦ ?_, by decide⟩
  rw [hlost] at hsame
  generalize (fullSectorFs.openPath 300 (47 :: kernelName)).1 = outcome at hfound hsame
  cases hsame
  exact hfound rfl

end Aidos.Fat12
