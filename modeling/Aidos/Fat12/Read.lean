import Mathlib.Data.Set.Insert
import Aidos.Fat12.Mount

/-!
# Reading and positioning

The frames of `read`, `seek` and the steps they are made of, and the rule their loop is verified
with.

A handle is read through a one-sector buffer. `readLoop_spec` is the loop's Hoare rule: an invariant
`I p`, saying that the handle is in step at position `p`, is kept when the position moves inside the
buffer and when a used-up buffer is replaced by `advance`; then the loop delivers the slice of the
stream the buffers are taken from, and ends in step at the position behind it. What differs between
a file, the root directory and a subdirectory is the invariant.
-/

namespace Aidos.Fat12

namespace Fat12FileSystem

variable {fs : Fat12FileSystem} {ref : FileRef}

/-! ### Frames -/

theorem frame_readSector (fs : Fat12FileSystem) (ref : FileRef) (lba : UInt32) :
    Frame {ref} fs (fs.readSector ref lba).2 := by
  have hset := frame_setFileData fs ref
    { fs.fileData ref with
      buffer := (fs.disk.readSectors lba.toNat 1 (fs.fileData ref).buffer).2.1 }
  refine hset.trans ⟨rfl, rfl, ?_, ?_, fun r _ ↦ by cases r <;> rfl, ?_, ?_⟩
  · simp [readSector]
  · simp [readSector]
  · simp only [readSector, trace_setFileData]
    exact List.suffix_cons _ _
  · exact fun _ hc ↦ hc.congr rfl rfl rfl (by simp [readSector])

/-- A sector read that the device answers succeeds and fills the buffer. -/
theorem readSector_of_answers (hd : fs.disk.Answers) (ref : FileRef) (lba : UInt32) :
    (fs.readSector ref lba).1 = true ∧
      (fs.readSector ref lba).2.fileData ref =
        { fs.fileData ref with buffer := fs.disk.fill lba.toNat 1 (fs.fileData ref).buffer } := by
  simp only [readSector, BlockDevice.readSectors_of_answers hd]
  refine ⟨trivial, ?_⟩
  cases ref <;> simp [fileData, setFileData]

/-- A sector read that the device does not answer fails. -/
theorem readSector_of_not_answers (hd : ¬ fs.disk.Answers) (ref : FileRef) (lba : UInt32) :
    (fs.readSector ref lba).1 = false ∧ (fs.readSector ref lba).2.disk.FailedSince fs.disk.calls :=
  BlockDevice.readSectors_of_not_answers hd _ _ _

/-- The counters of a record after the sector step of `advance`. -/
def stepCounters (fs : Fat12FileSystem) (ref : FileRef) : Fat12FileSystem :=
  let fd := fs.fileData ref
  if fd.currentSectorInCluster + 1 ≥ fs.bs.sectorsPerCluster.toUInt32 then
    (fs.nextCluster fd.currentCluster).2.setFileData ref
      { fd with
        currentSectorInCluster := 0
        currentCluster := (fs.nextCluster fd.currentCluster).1 }
  else
    fs.setFileData ref { fd with currentSectorInCluster := fd.currentSectorInCluster + 1 }

/-- `advance` moves the counters, then marks the end of the file or fetches a sector. -/
theorem advance_eq (fs : Fat12FileSystem) (ref : FileRef) :
    fs.advance ref =
      let fs := fs.stepCounters ref
      let fd := fs.fileData ref
      if fd.currentCluster ≥ 0xFFFFFFF8 then
        (false, fs.setFileData ref { fd with pub := { fd.pub with size := fd.pub.position } })
      else
        fs.readSector ref (fs.clusterToLba fd.currentCluster + fd.currentSectorInCluster) := by
  simp only [advance, stepCounters, ge_iff_le]

theorem frame_stepCounters (fs : Fat12FileSystem) (ref : FileRef) :
    Frame {ref} fs (fs.stepCounters ref) := by
  rw [stepCounters]
  split
  · exact ((frame_nextCluster fs _).mono (Set.empty_subset _)).trans (frame_setFileData _ _ _)
  · exact frame_setFileData _ _ _

theorem frame_advance (fs : Fat12FileSystem) (ref : FileRef) :
    Frame {ref} fs (fs.advance ref).2 := by
  rw [advance_eq]
  refine (frame_stepCounters fs ref).trans ?_
  dsimp only
  split
  · exact frame_setFileData _ _ _
  · exact frame_readSector _ _ _

@[simp] theorem clusterToLba_setFileData (fs : Fat12FileSystem) (ref : FileRef) (fd : FatFileData)
    (c : UInt32) : (fs.setFileData ref fd).clusterToLba c = fs.clusterToLba c := by
  cases ref <;> rfl

/-- Inside a cluster `advance` fetches the cluster's next sector. -/
theorem advance_of_stay
    (hstay : ¬ (fs.fileData ref).currentSectorInCluster + 1 ≥ fs.bs.sectorsPerCluster.toUInt32)
    (hdata : ¬ (fs.fileData ref).currentCluster ≥ 0xFFFFFFF8) :
    fs.advance ref =
      (fs.setFileData ref { fs.fileData ref with
        currentSectorInCluster := (fs.fileData ref).currentSectorInCluster + 1 }).readSector ref
        (fs.clusterToLba (fs.fileData ref).currentCluster +
          ((fs.fileData ref).currentSectorInCluster + 1)) := by
  rw [advance_eq, stepCounters]
  dsimp only
  rw [if_neg hstay, fileData_setFileData_self]
  dsimp only
  rw [if_neg hdata, clusterToLba_setFileData]

/-- Move the position of a record. -/
def movePosition (fs : Fat12FileSystem) (ref : FileRef) (take : UInt32) : Fat12FileSystem :=
  let fd := fs.fileData ref
  fs.setFileData ref { fd with pub := { fd.pub with position := fd.pub.position + take } }

theorem frame_movePosition (fs : Fat12FileSystem) (ref : FileRef) (take : UInt32) :
    Frame {ref} fs (fs.movePosition ref take) :=
  frame_setFileData _ _ _

@[simp] theorem fileData_movePosition (fs : Fat12FileSystem) (ref : FileRef) (take : UInt32) :
    (fs.movePosition ref take).fileData ref =
      { fs.fileData ref with
        pub := { (fs.fileData ref).pub with position := (fs.fileData ref).pub.position + take } } :=
  fileData_setFileData_self

/-- `advance` asks the device for more, or for nothing. -/
theorem calls_le_stepCounters (fs : Fat12FileSystem) (ref : FileRef) :
    fs.disk.calls ≤ (fs.stepCounters ref).disk.calls := by
  rw [stepCounters]
  split
  · rw [disk_setFileData]
    show fs.disk.calls ≤ (fs.ensureWindow _).disk.calls
    rw [ensureWindow]
    split
    · simp only [readFat, BlockDevice.calls_readSectors]
      omega
    · exact Nat.le_refl _
  · rw [disk_setFileData]

theorem calls_le_advance (fs : Fat12FileSystem) (ref : FileRef) :
    fs.disk.calls ≤ (fs.advance ref).2.disk.calls := by
  have hle := calls_le_stepCounters fs ref
  rw [advance_eq]
  dsimp only
  split
  · rw [disk_setFileData]
    exact hle
  · simp only [readSector, BlockDevice.calls_readSectors]
    omega

/-- One iteration of the loop of `read`. -/
theorem readLoop_succ (ref : FileRef) (fuel : ℕ) {n : UInt32} (hn : 0 < n.toNat)
    (out : List UInt8) (fs : Fat12FileSystem) :
    readLoop ref (fuel + 1) n out fs =
      let fd := fs.fileData ref
      let left := 512 - fd.pub.position % 512
      let take := min n left
      let out := out ++ slice fd.buffer (fd.pub.position % 512).toNat take.toNat
      let fs := fs.movePosition ref take
      if left = take then
        if (fs.advance ref).1 = true then readLoop ref fuel (n - take) out (fs.advance ref).2
        else (out, (fs.advance ref).2)
      else readLoop ref fuel (n - take) out fs := by
  have hpos : n > 0 := UInt32.lt_iff_toNat_lt.2 hn
  rw [readLoop, if_pos hpos]
  simp only [movePosition]
  split
  · split
    · next h => simp [h]
    · next h => simp [h]
  · rfl

/-- Nothing asked for, nothing done. -/
theorem readLoop_of_eq_zero {fuel : ℕ} {n : UInt32} (hn : n.toNat = 0) {out : List UInt8}
    {fs : Fat12FileSystem} : readLoop ref fuel n out fs = (out, fs) := by
  cases fuel with
  | zero => rfl
  | succ fuel =>
    have hzero : ¬ n > 0 := fun h ↦ by
      have := UInt32.lt_iff_toNat_lt.1 h
      simp only [UInt32.reduceToNat] at this
      omega
    rw [readLoop, if_neg hzero]

theorem frame_readLoop (ref : FileRef) (fuel : ℕ) :
    ∀ (n : UInt32) (out : List UInt8) (fs : Fat12FileSystem),
      Frame {ref} fs (readLoop ref fuel n out fs).2 := by
  induction fuel with
  | zero => exact fun n out fs ↦ Frame.refl _ fs
  | succ fuel ih =>
    intro n out fs
    rcases Nat.eq_zero_or_pos n.toNat with hn | hn
    · rw [readLoop_of_eq_zero hn]
      exact Frame.refl _ fs
    · rw [readLoop_succ ref fuel hn]
      dsimp only
      refine (frame_movePosition fs ref
        (min n (512 - (fs.fileData ref).pub.position % 512))).trans ?_
      split
      · split
        · exact (frame_advance _ _).trans (ih _ _ _)
        · exact frame_advance _ _
      · exact ih _ _ _

/-- A read touches only the record its handle names. -/
theorem frame_read (fs : Fat12FileSystem) (file : FileRef) (n : UInt32) :
    Frame {fs.target file} fs (fs.read file n).2 := by
  rw [read]
  dsimp only
  split
  · exact frame_readLoop _ _ _ _ _
  · exact Frame.refl _ fs

theorem frame_seekLoop (clusterSize : UInt32) (fuel : ℕ) :
    ∀ (cluster offset : UInt32) (fs : Fat12FileSystem),
      Frame ∅ fs (seekLoop clusterSize fuel cluster offset fs).2 := by
  induction fuel with
  | zero => exact fun _ _ fs ↦ Frame.refl _ fs
  | succ fuel ih =>
    intro cluster offset fs
    rw [seekLoop]
    dsimp only
    split
    · split
      · exact frame_nextCluster fs cluster
      · exact (frame_nextCluster fs cluster).trans (ih _ _ _)
    · exact Frame.refl _ fs

/-! ### The ends of a seek -/

/-- The driver when `seek` has set the position. -/
def setPosition (fs : Fat12FileSystem) (ref : FileRef) (position : UInt32) : Fat12FileSystem :=
  let fd := fs.fileData ref
  fs.setFileData ref { fd with pub := { fd.pub with position := position } }

/-- The driver when `seek` has set the counters. -/
def setCounters (fs : Fat12FileSystem) (ref : FileRef) (cluster sector : UInt32) :
    Fat12FileSystem :=
  fs.setFileData ref
    { fs.fileData ref with currentCluster := cluster, currentSectorInCluster := sector }

/-- The cluster walk that `seek` makes. -/
def seekWalk (fs : Fat12FileSystem) (ref : FileRef) (position : UInt32) :
    Option (UInt32 × UInt32) × Fat12FileSystem :=
  seekLoop (fs.bs.sectorsPerCluster.toUInt32 * 512) position.toNat (fs.fileData ref).firstCluster
    position (fs.setPosition ref position)

/-- What `seek` can do. -/
inductive Seeks (fs : Fat12FileSystem) (file : FileRef) (position : UInt32) :
    Bool × Fat12FileSystem → Prop
  /-- The position is behind the end of a file. -/
  | behind : (fs.fileData file).pub.isDirectory = false → (fs.fileData file).pub.size < position →
      Seeks fs file position (false, fs)
  /-- The handle is not open. -/
  | closed : (fs.fileData (fs.target file)).opened = false → Seeks fs file position (false, fs)
  /-- The chain ends before the position. -/
  | off {fs' : Fat12FileSystem} :
      (fs.fileData file).pub.isDirectory = true ∨ position ≤ (fs.fileData file).pub.size →
      (fs.fileData (fs.target file)).opened = true →
      fs.seekWalk (fs.target file) position = (none, fs') → Seeks fs file position (false, fs')
  /-- The sector of the position is asked for. -/
  | found {c o : UInt32} {fs' : Fat12FileSystem} :
      (fs.fileData file).pub.isDirectory = true ∨ position ≤ (fs.fileData file).pub.size →
      (fs.fileData (fs.target file)).opened = true →
      fs.seekWalk (fs.target file) position = (some (c, o), fs') →
      Seeks fs file position
        ((fs'.setCounters (fs.target file) c (o / 512)).readSector (fs.target file)
          (fs'.clusterToLba c + o / 512))

/-- **`seek` ends in one of these ways.** -/
theorem seeks (fs : Fat12FileSystem) (file : FileRef) (position : UInt32) :
    fs.Seeks file position (fs.seek file position) := by
  rw [seek]
  dsimp only
  split
  · next hbound =>
    simp only [Bool.and_eq_true, Bool.not_eq_true', decide_eq_true_eq] at hbound
    exact .behind hbound.1 hbound.2
  next hbound =>
  have hroom : (fs.fileData file).pub.isDirectory = true ∨
      position ≤ (fs.fileData file).pub.size := by
    by_contra hnot
    rw [not_or, UInt32.not_le] at hnot
    exact hbound (by simpa using hnot)
  split
  swap
  · next hclosed => exact .closed (Bool.eq_false_of_not_eq_true hclosed)
  next hopened =>
  have hbs {fd : FatFileData} : (fs.setFileData (fs.target file) fd).bs = fs.bs := bs_setFileData
  rw [hbs]
  split
  · next hwalk => exact .off hroom hopened hwalk
  · next c o fs' hwalk =>
    rw [clusterToLba_setFileData]
    exact .found hroom hopened hwalk

section SeekWalk

variable (fs : Fat12FileSystem) (ref : FileRef) (position : UInt32)

@[simp] theorem fileData_setPosition :
    (fs.setPosition ref position).fileData ref =
      { fs.fileData ref with pub := { (fs.fileData ref).pub with position := position } } :=
  fileData_setFileData_self

@[simp] theorem fileData_setCounters (cluster sector : UInt32) :
    (fs.setCounters ref cluster sector).fileData ref =
      { fs.fileData ref with currentCluster := cluster, currentSectorInCluster := sector } :=
  fileData_setFileData_self

theorem frame_setPosition : Frame {ref} fs (fs.setPosition ref position) := frame_setFileData _ _ _

theorem frame_setCounters (cluster sector : UInt32) :
    Frame {ref} fs (fs.setCounters ref cluster sector) :=
  frame_setFileData _ _ _

variable {fs ref position} {found : Option (UInt32 × UInt32)} {fs' : Fat12FileSystem}

/-- The walk changes no record behind the position. -/
theorem fileData_of_seekWalk (h : fs.seekWalk ref position = (found, fs')) :
    fs'.fileData ref =
      { fs.fileData ref with pub := { (fs.fileData ref).pub with position := position } } := by
  have hframe := frame_seekLoop (fs.bs.sectorsPerCluster.toUInt32 * 512) position.toNat
    (fs.fileData ref).firstCluster position (fs.setPosition ref position)
  rw [← seekWalk, h] at hframe
  rw [hframe.fileData ref (Set.notMem_empty ref), fileData_setPosition]

theorem frame_of_seekWalk (h : fs.seekWalk ref position = (found, fs')) : Frame {ref} fs fs' := by
  have hframe := frame_seekLoop (fs.bs.sectorsPerCluster.toUInt32 * 512) position.toNat
    (fs.fileData ref).firstCluster position (fs.setPosition ref position)
  rw [← seekWalk, h] at hframe
  exact (fs.frame_setPosition ref position).trans (hframe.mono (Set.empty_subset _))

end SeekWalk

/-- A seek touches only the record its handle names. -/
theorem frame_seek (fs : Fat12FileSystem) (file : FileRef) (position : UInt32) :
    Frame {fs.target file} fs (fs.seek file position).2 := by
  have h := fs.seeks file position
  generalize fs.seek file position = result at h ⊢
  cases h with
  | behind => exact Frame.refl _ fs
  | closed => exact Frame.refl _ fs
  | off _ _ hwalk => exact frame_of_seekWalk hwalk
  | found _ _ hwalk =>
    exact (frame_of_seekWalk hwalk).trans
      ((frame_setCounters _ _ _ _).trans (frame_readSector _ _ _))

/-! ### What a record keeps -/

end Fat12FileSystem

/-- The parts of a record that reading and seeking never change. -/
structure SameFile (fd fd' : FatFileData) : Prop where
  /-- The handle. -/
  handle : fd'.pub.handle = fd.pub.handle
  /-- Whether it is a directory. -/
  isDirectory : fd'.pub.isDirectory = fd.pub.isDirectory
  /-- Whether it is open. -/
  opened : fd'.opened = fd.opened
  /-- The first cluster. -/
  firstCluster : fd'.firstCluster = fd.firstCluster

namespace SameFile

variable {fd fd' fd'' : FatFileData}

theorem refl (fd : FatFileData) : SameFile fd fd := ⟨rfl, rfl, rfl, rfl⟩

theorem trans (h : SameFile fd fd') (h' : SameFile fd' fd'') : SameFile fd fd'' :=
  ⟨h'.handle.trans h.handle, h'.isDirectory.trans h.isDirectory, h'.opened.trans h.opened,
    h'.firstCluster.trans h.firstCluster⟩

end SameFile

namespace Fat12FileSystem

variable {fs : Fat12FileSystem} {ref : FileRef}

theorem sameFile_setFileData {fd : FatFileData} (h : SameFile (fs.fileData ref) fd) :
    SameFile (fs.fileData ref) ((fs.setFileData ref fd).fileData ref) := by
  rwa [fileData_setFileData_self]

theorem fileData_readSector (fs : Fat12FileSystem) (ref : FileRef) (lba : UInt32) :
    (fs.readSector ref lba).2.fileData ref =
      { fs.fileData ref with
        buffer := (fs.disk.readSectors lba.toNat 1 (fs.fileData ref).buffer).2.1 } := by
  cases ref <;> simp [readSector, fileData, setFileData]

theorem sameFile_readSector (fs : Fat12FileSystem) (ref : FileRef) (lba : UInt32) :
    SameFile (fs.fileData ref) ((fs.readSector ref lba).2.fileData ref) := by
  rw [fileData_readSector]
  exact ⟨rfl, rfl, rfl, rfl⟩

theorem sameFile_stepCounters (fs : Fat12FileSystem) (ref : FileRef) :
    SameFile (fs.fileData ref) ((fs.stepCounters ref).fileData ref) := by
  rw [stepCounters]
  split
  · rw [fileData_setFileData_self]
    exact ⟨rfl, rfl, rfl, rfl⟩
  · rw [fileData_setFileData_self]
    exact ⟨rfl, rfl, rfl, rfl⟩

theorem sameFile_advance (fs : Fat12FileSystem) (ref : FileRef) :
    SameFile (fs.fileData ref) ((fs.advance ref).2.fileData ref) := by
  rw [advance_eq]
  refine (sameFile_stepCounters fs ref).trans ?_
  dsimp only
  split
  · exact sameFile_setFileData ⟨rfl, rfl, rfl, rfl⟩
  · exact sameFile_readSector _ _ _

theorem sameFile_readLoop (ref : FileRef) (fuel : ℕ) :
    ∀ (n : UInt32) (out : List UInt8) (fs : Fat12FileSystem),
      SameFile (fs.fileData ref) ((readLoop ref fuel n out fs).2.fileData ref) := by
  induction fuel with
  | zero => exact fun n out fs ↦ SameFile.refl _
  | succ fuel ih =>
    intro n out fs
    rcases Nat.eq_zero_or_pos n.toNat with hn | hn
    · rw [readLoop_of_eq_zero hn]
      exact SameFile.refl _
    · rw [readLoop_succ ref fuel hn]
      dsimp only
      have hmove : SameFile (fs.fileData ref) ((fs.movePosition ref
          (min n (512 - (fs.fileData ref).pub.position % 512))).fileData ref) := by
        rw [fileData_movePosition]
        exact ⟨rfl, rfl, rfl, rfl⟩
      refine hmove.trans ?_
      split
      · split
        · exact (sameFile_advance _ _).trans (ih _ _ _)
        · exact sameFile_advance _ _
      · exact ih _ _ _

theorem sameFile_read (fs : Fat12FileSystem) (file : FileRef) (n : UInt32) :
    SameFile (fs.fileData (fs.target file)) ((fs.read file n).2.fileData (fs.target file)) := by
  rw [read]
  dsimp only
  split
  · exact sameFile_readLoop _ _ _ _ _
  · exact SameFile.refl _

theorem sameFile_seek (fs : Fat12FileSystem) (file : FileRef) (position : UInt32) :
    SameFile (fs.fileData (fs.target file))
      ((fs.seek file position).2.fileData (fs.target file)) := by
  have h := fs.seeks file position
  generalize fs.seek file position = result at h ⊢
  cases h with
  | behind => exact SameFile.refl _
  | closed => exact SameFile.refl _
  | off _ _ hwalk =>
    rw [fileData_of_seekWalk hwalk]
    exact ⟨rfl, rfl, rfl, rfl⟩
  | found _ _ hwalk =>
    refine SameFile.trans ?_ (sameFile_readSector _ _ _)
    rw [fileData_setCounters, fileData_of_seekWalk hwalk]
    exact ⟨rfl, rfl, rfl, rfl⟩

/-! ### Through a pointer that keeps its handle -/

/-- A record with its own handle keeps it when the record stays the same file. -/
theorem target_of_sameFile {fs fs' : Fat12FileSystem} {ref : FileRef}
    (h : fs.target ref = ref)
    (hsame : SameFile (fs.fileData ref) (fs'.fileData ref)) : fs'.target ref = ref := by
  rw [target, hsame.handle]
  exact h

section OfTarget

variable {fs : Fat12FileSystem} {ref : FileRef} (h : fs.target ref = ref)
include h

theorem frame_read_of_target (n : UInt32) : Frame {ref} fs (fs.read ref n).2 := by
  have hframe := frame_read fs ref n
  rwa [h] at hframe

theorem sameFile_read_of_target (n : UInt32) :
    SameFile (fs.fileData ref) ((fs.read ref n).2.fileData ref) := by
  have hsame := sameFile_read fs ref n
  rwa [h] at hsame

theorem frame_seek_of_target (position : UInt32) : Frame {ref} fs (fs.seek ref position).2 := by
  have hframe := frame_seek fs ref position
  rwa [h] at hframe

theorem sameFile_seek_of_target (position : UInt32) :
    SameFile (fs.fileData ref) ((fs.seek ref position).2.fileData ref) := by
  have hsame := sameFile_seek fs ref position
  rwa [h] at hsame

end OfTarget

/-- The sector step moves neither the position nor the size. -/
theorem pub_stepCounters (fs : Fat12FileSystem) (ref : FileRef) :
    ((fs.stepCounters ref).fileData ref).pub = (fs.fileData ref).pub := by
  rw [stepCounters]
  split
  · rw [fileData_setFileData_self]
  · rw [fileData_setFileData_self]

/-- Using up the buffer leaves the position alone, and marks the end of the file at an end mark. -/
theorem pub_advance (fs : Fat12FileSystem) (ref : FileRef) :
    ((fs.advance ref).2.fileData ref).pub = (fs.fileData ref).pub ∨
      ((fs.advance ref).2.fileData ref).pub =
        { (fs.fileData ref).pub with size := (fs.fileData ref).pub.position } := by
  have hpub := pub_stepCounters fs ref
  rw [advance_eq]
  dsimp only
  split
  · right
    rw [fileData_setFileData_self, hpub]
  · left
    rw [fileData_readSector, hpub]

/-! ### The loop rule -/

theorem toNat_min (m n : UInt32) : (min m n).toNat = min m.toNat n.toNat := by
  rw [show min m n = if m ≤ n then m else n from rfl]
  split
  · next h => rw [Nat.min_eq_left (UInt32.le_iff_toNat_le.1 h)]
  · next h => rw [Nat.min_eq_right (Nat.le_of_not_le fun h' ↦ h (UInt32.le_iff_toNat_le.2 h'))]

/-- Where a read inside the buffer stops: the buffer is used up exactly when the rest of it was
asked for. -/
theorem take_spec {n position : UInt32} {p : ℕ} (hp : position.toNat = p) :
    (512 - position % 512 : UInt32).toNat = 512 - p % 512 ∧
      (min n (512 - position % 512)).toNat = min n.toNat (512 - p % 512) ∧
      (512 - position % 512 = min n (512 - position % 512) ↔ 512 - p % 512 ≤ n.toNat) := by
  have hmod : (position % 512).toNat = p % 512 := by
    rw [UInt32.toNat_mod, hp]
    rfl
  have hle : position % 512 ≤ 512 := by
    rw [UInt32.le_iff_toNat_le, hmod]
    simp only [UInt32.reduceToNat]
    omega
  have hleft : (512 - position % 512 : UInt32).toNat = 512 - p % 512 := by
    rw [UInt32.toNat_sub_of_le _ _ hle, hmod]
    rfl
  have hmin : (min n (512 - position % 512)).toNat = min n.toNat (512 - p % 512) := by
    rw [toNat_min, hleft]
  refine ⟨hleft, hmin, ?_⟩
  rw [← UInt32.toNat_inj, hleft, hmin]
  omega

/-- A read that does not use the buffer up. -/
theorem readLoop_of_lt {ref : FileRef} {fuel p : ℕ} {n : UInt32} (hn : 0 < n.toNat)
    (hp : (fs.fileData ref).pub.position.toNat = p) (hlt : p % 512 + n.toNat < 512)
    (out : List UInt8) :
    readLoop ref (fuel + 1) n out fs =
      (out ++ slice (fs.fileData ref).buffer (p % 512) n.toNat, fs.movePosition ref n) := by
  obtain ⟨hleft, htake, hfull⟩ := take_spec (n := n) hp
  have hmod : ((fs.fileData ref).pub.position % 512).toNat = p % 512 := by
    rw [UInt32.toNat_mod, hp]
    rfl
  have hall : min n (512 - (fs.fileData ref).pub.position % 512) = n := by
    rw [← UInt32.toNat_inj, htake]
    omega
  have hnot : ¬ (512 - (fs.fileData ref).pub.position % 512 =
      min n (512 - (fs.fileData ref).pub.position % 512)) := fun h ↦ by
    have := hfull.1 h
    omega
  rw [readLoop_succ ref fuel hn]
  dsimp only
  rw [if_neg hnot, hall, hmod, readLoop_of_eq_zero (by rw [UInt32.sub_self]; rfl)]

/-- **The rule for the loop of `read`**, for a loop that may stop early. Let `I p` be kept by moving
the position inside the buffer and by replacing a used-up buffer, unless the loop stops there, and
then let `J p` hold; and let the buffer hold the sector of the stream `src` that `p` lies in. Then
the loop delivers a slice of `src` from `p`, and ends behind it in `I` if it was asked for no more,
and in `J` otherwise. Facts about the lookups made on the way come from `final`, a trace that the
one of the final state is part of. -/
theorem readLoop_stops (ref : FileRef) (src : ℕ → UInt8) (limit : ℕ)
    (I J : ℕ → Fat12FileSystem → Prop) (final : List Event)
    (position : ∀ {p fs}, I p fs → (fs.fileData ref).pub.position.toNat = p)
    (buffer : ∀ {p fs}, I p fs → p < limit →
      ∀ j < 512, (fs.fileData ref).buffer j = src (p / 512 * 512 + j))
    (move : ∀ {p fs} (t : UInt32), I p fs → p % 512 + t.toNat < 512 → p + t.toNat ≤ limit →
      I (p + t.toNat) (fs.movePosition ref t))
    (cross : ∀ {p fs} (t : UInt32), I p fs → t.toNat = 512 - p % 512 → p + t.toNat ≤ limit →
      ((fs.movePosition ref t).advance ref).2.trace <:+ final →
      (((fs.movePosition ref t).advance ref).1 = true →
          I (p + t.toNat) ((fs.movePosition ref t).advance ref).2) ∧
        (((fs.movePosition ref t).advance ref).1 = false →
          J (p + t.toNat) ((fs.movePosition ref t).advance ref).2))
    (fuel : ℕ) :
    ∀ {n : UInt32} (out : List UInt8) {p : ℕ} {fs : Fat12FileSystem}, I p fs → n.toNat ≤ fuel →
      p + n.toNat ≤ limit → (readLoop ref fuel n out fs).2.trace <:+ final →
      ∃ k ≤ n.toNat, (readLoop ref fuel n out fs).1 = out ++ slice src p k ∧
        (k = n.toNat ∧ I (p + k) (readLoop ref fuel n out fs).2 ∨
          J (p + k) (readLoop ref fuel n out fs).2) := by
  induction fuel with
  | zero =>
    intro n out p fs hI hfuel _ _
    have hn : n.toNat = 0 := by omega
    refine ⟨0, Nat.zero_le _, ?_, Or.inl ⟨hn.symm, hI⟩⟩
    rw [readLoop, slice_zero, List.append_nil]
  | succ fuel ih =>
    intro n out p fs hI hfuel hle htrace
    rcases Nat.eq_zero_or_pos n.toNat with hn | hn
    · rw [readLoop_of_eq_zero hn]
      refine ⟨0, Nat.zero_le _, ?_, Or.inl ⟨hn.symm, hI⟩⟩
      rw [slice_zero, List.append_nil]
    -- this iteration delivers `take` bytes of the buffer
    have hpos := position hI
    obtain ⟨hleft, htake, hfull⟩ := take_spec (n := n) hpos
    set take := min n (512 - (fs.fileData ref).pub.position % 512) with hdef
    have hmod : ((fs.fileData ref).pub.position % 512).toNat = p % 512 := by
      rw [UInt32.toNat_mod, hpos]
      rfl
    have hlow := Nat.mod_lt p (show 0 < 512 by omega)
    have hbytes : slice (fs.fileData ref).buffer (p % 512) take.toNat = slice src p take.toNat := by
      refine slice_congr fun i hi ↦ ?_
      rw [buffer hI (by omega) _ (by omega)]
      exact congrArg src (by omega)
    have hsub : (n - take).toNat = n.toNat - take.toNat :=
      UInt32.toNat_sub_of_le _ _ (UInt32.le_iff_toNat_le.2 (by omega))
    rw [readLoop_succ ref fuel hn] at htrace ⊢
    dsimp only at htrace ⊢
    rw [← hdef, hmod, hbytes] at htrace ⊢
    -- what the rest of the loop delivers comes behind it
    have hjoin {r : List UInt8 × Fat12FileSystem}
        (h : ∃ k ≤ (n - take).toNat,
          r.1 = out ++ slice src p take.toNat ++ slice src (p + take.toNat) k ∧
          (k = (n - take).toNat ∧ I (p + take.toNat + k) r.2 ∨ J (p + take.toNat + k) r.2)) :
        ∃ k ≤ n.toNat, r.1 = out ++ slice src p k ∧
          (k = n.toNat ∧ I (p + k) r.2 ∨ J (p + k) r.2) := by
      obtain ⟨k, hk, hout, hend⟩ := h
      rw [List.append_assoc, ← slice_append] at hout
      rw [Nat.add_assoc] at hend
      refine ⟨take.toNat + k, by omega, hout, hend.imp_left fun hall ↦ ⟨by omega, hall.2⟩⟩
    by_cases hall : 512 - p % 512 ≤ n.toNat
    · -- the buffer is used up
      rw [if_pos (hfull.2 hall)] at htrace ⊢
      have htrace' : ((fs.movePosition ref take).advance ref).2.trace <:+ final := by
        refine List.IsSuffix.trans ?_ htrace
        split
        · exact (frame_readLoop _ _ _ _ _).trace
        · exact List.suffix_refl _
      obtain ⟨hgo, hstop⟩ := cross take hI (by omega) (by omega) htrace'
      cases hadv : ((fs.movePosition ref take).advance ref).1 with
      | true =>
        rw [if_pos hadv] at htrace
        rw [if_pos rfl]
        exact hjoin (ih _ (hgo hadv) (by omega) (by omega) htrace)
      | false =>
        rw [if_neg Bool.false_ne_true]
        exact ⟨take.toNat, by omega, rfl, Or.inr (hstop hadv)⟩
    · rw [if_neg (fun h ↦ hall (hfull.1 h))] at htrace ⊢
      exact hjoin (ih _ (move take hI (by omega) (by omega)) (by omega) (by omega) htrace)

/-- The rule for a loop that only stops at the end of the stream: it delivers all that it was asked
for. -/
theorem readLoop_spec (ref : FileRef) (src : ℕ → UInt8) (limit : ℕ)
    (I : ℕ → Fat12FileSystem → Prop) (final : List Event)
    (position : ∀ {p fs}, I p fs → (fs.fileData ref).pub.position.toNat = p)
    (buffer : ∀ {p fs}, I p fs → p < limit →
      ∀ j < 512, (fs.fileData ref).buffer j = src (p / 512 * 512 + j))
    (move : ∀ {p fs} (t : UInt32), I p fs → p % 512 + t.toNat < 512 → p + t.toNat ≤ limit →
      I (p + t.toNat) (fs.movePosition ref t))
    (cross : ∀ {p fs} (t : UInt32), I p fs → t.toNat = 512 - p % 512 → p + t.toNat ≤ limit →
      ((fs.movePosition ref t).advance ref).2.trace <:+ final →
      I (p + t.toNat) ((fs.movePosition ref t).advance ref).2 ∧
        (p + t.toNat < limit → ((fs.movePosition ref t).advance ref).1 = true))
    (fuel : ℕ) {n : UInt32} (out : List UInt8) {p : ℕ} {fs : Fat12FileSystem} (hI : I p fs)
    (hfuel : n.toNat ≤ fuel) (hle : p + n.toNat ≤ limit)
    (htrace : (readLoop ref fuel n out fs).2.trace <:+ final) :
    (readLoop ref fuel n out fs).1 = out ++ slice src p n.toNat ∧
      I (p + n.toNat) (readLoop ref fuel n out fs).2 := by
  obtain ⟨k, hk, hout, hend⟩ := readLoop_stops ref src limit I (fun q fs ↦ q = limit ∧ I q fs) final
    position buffer move (fun {q fs} t hI ht hle htrace ↦ by
      obtain ⟨hnext, hgo⟩ := cross t hI ht hle htrace
      refine ⟨fun _ ↦ hnext, fun hstop ↦ ⟨?_, hnext⟩⟩
      by_contra hne
      rw [hgo (Nat.lt_of_le_of_ne hle hne)] at hstop
      exact absurd hstop (by simp))
    fuel out hI hfuel hle htrace
  have hall : k = n.toNat ∧ I (p + k) (readLoop ref fuel n out fs).2 :=
    hend.elim id fun h ↦ ⟨by omega, h.2⟩
  rw [← hall.1]
  exact ⟨hout, hall.2⟩

end Fat12FileSystem

end Aidos.Fat12
