import Mathlib.Logic.Function.Iterate
import Aidos.Fat12.DirectoryWalk

/-!
# Directory scans

A scan reads the directory entry by entry, each one out of the buffer, and a sector step follows
every sixteenth. How long it goes on depends on the `size` field of the directory. If that is not
zero, `read` stops there. Directories usually have size zero, and then nothing but the contents of
the disk ends the scan: an entry that is the terminator or has the name, or an end mark in the
directory's chain.

`findFile_ends_iff` says that a scan ends exactly when one of these three is there.
-/

namespace Aidos.Fat12

/-- An entry that ends a scan for `name`: the terminator, or one with that name. -/
def FatDirectoryEntry.Stops (e : FatDirectoryEntry) (name : List UInt8) : Prop :=
  e.name 0 = 0 ∨ nameMatches name e = true

instance (e : FatDirectoryEntry) (name : List UInt8) : Decidable (e.Stops name) :=
  inferInstanceAs (Decidable (_ ∨ _))

namespace Fat12FileSystem

variable {disk : BlockDevice} {b : FatBootSector} {fs fs' : Fat12FileSystem} {ref : FileRef}
  {name : List UInt8}

/-! ### What a directory holds -/

/-- The `k`-th sector that a scan of the directory `ref` goes through: the one in the buffer, then
the ones that the counters name. -/
def dirSector (fs : Fat12FileSystem) (ref : FileRef) : ℕ → ℕ → UInt8
  | 0, j => (fs.fileData ref).buffer j
  | k + 1, j =>
    let fd := (fs.sectorSteps ref (k + 1)).fileData ref
    fs.disk.sector (fs.clusterToLba fd.currentCluster + fd.currentSectorInCluster).toNat j

/-- The `i`-th entry of that sector. -/
def dirEntry (fs : Fat12FileSystem) (ref : FileRef) (k i : ℕ) : FatDirectoryEntry :=
  ⟨slice (fs.dirSector ref k) (entrySize * i) entrySize⟩

/-- The chain of the directory comes to an end mark. -/
def ChainEnds (fs : Fat12FileSystem) (ref : FileRef) : Prop :=
  ∃ k, 0 < k ∧ ((fs.sectorSteps ref k).fileData ref).currentCluster ≥ 0xFFFFFFF8

/-- **What ends a scan**: the directory's size, the end of its chain, or one of its entries. -/
def ScanEnds (fs : Fat12FileSystem) (ref : FileRef) (name : List UInt8) : Prop :=
  (fs.fileData ref).pub.size ≠ 0 ∨ fs.ChainEnds ref ∨
    ∃ k, ∃ i < 16, (fs.dirEntry ref k i).Stops name

/-- A directory that a scan can start with: open, at its beginning, on a device whose reads succeed.
-/
structure Scannable (disk : BlockDevice) (b : FatBootSector) (ref : FileRef)
    (fs : Fat12FileSystem) :
    Prop where
  /-- The driver serves the volume. -/
  serves : Serves disk b fs
  /-- The handle stored in the record is its own. -/
  target : fs.target ref = ref
  /-- The directory is open. -/
  opened : (fs.fileData ref).opened = true
  /-- It is a directory. -/
  isDirectory : (fs.fileData ref).pub.isDirectory = true
  /-- It stands at its beginning. -/
  position : (fs.fileData ref).pub.position = 0

/-! ### The loop -/

/-- The driver after `j` entries. -/
def afterEntries (fs : Fat12FileSystem) (ref : FileRef) (j : ℕ) : Fat12FileSystem :=
  (fun g : Fat12FileSystem ↦ (g.read ref 32).2)^[j] fs

/-- The scan goes on behind the next entry. -/
def GoesOn (fs : Fat12FileSystem) (ref : FileRef) (name : List UInt8) : Prop :=
  (fs.read ref 32).1.length = entrySize ∧ ¬ FatDirectoryEntry.Stops ⟨(fs.read ref 32).1⟩ name

theorem afterEntries_succ (fs : Fat12FileSystem) (ref : FileRef) (j : ℕ) :
    fs.afterEntries ref (j + 1) = ((fs.afterEntries ref j).read ref 32).2 :=
  Function.iterate_succ_apply' _ _ _

theorem afterEntries_succ_eq (fs : Fat12FileSystem) (ref : FileRef) (j : ℕ) :
    fs.afterEntries ref (j + 1) = (fs.read ref 32).2.afterEntries ref j :=
  Function.iterate_succ_apply _ _ _

/-- A scan that has looked at `fuel` entries has gone on behind each of them. -/
theorem findFileLoop_running_iff (ref : FileRef) (name : List UInt8) (fuel : ℕ) :
    ∀ fs : Fat12FileSystem, (findFileLoop ref name fuel fs).1 = .running ↔
      ∀ j < fuel, (fs.afterEntries ref j).GoesOn ref name := by
  induction fuel with
  | zero => exact fun fs ↦ ⟨fun _ j hj ↦ absurd hj (Nat.not_lt_zero j), fun _ ↦ rfl⟩
  | succ fuel ih =>
    intro fs
    have hsplit : (∀ j < fuel + 1, (fs.afterEntries ref j).GoesOn ref name) ↔
        fs.GoesOn ref name ∧
          ∀ j < fuel, ((fs.read ref 32).2.afterEntries ref j).GoesOn ref name := by
      constructor
      · intro h
        refine ⟨h 0 (Nat.succ_pos fuel), fun j hj ↦ ?_⟩
        rw [← afterEntries_succ_eq]
        exact h (j + 1) (Nat.succ_lt_succ hj)
      · rintro ⟨hfirst, hrest⟩ j hj
        cases j with
        | zero => exact hfirst
        | succ j =>
          rw [afterEntries_succ_eq]
          exact hrest j (Nat.lt_of_succ_lt_succ hj)
    rw [hsplit, findFileLoop_succ, GoesOn, FatDirectoryEntry.Stops, not_or]
    split
    · next hentry =>
      split
      · next hmatch => simp [hmatch]
      · next hother => simp [hentry, hother, ih]
    · next hend =>
      constructor
      · intro h
        exact absurd h (by simp)
      · rintro ⟨⟨hlength, hzero, -⟩, -⟩
        exact absurd ⟨hlength, hzero⟩ hend

/-- A scan ends unless it always goes on. -/
theorem findFile_ends_iff_exists (fs : Fat12FileSystem) (ref : FileRef) (name : List UInt8) :
    (∃ fuel, (fs.findFile fuel ref name).1 ≠ .running) ↔
      ∃ j, ¬ (fs.afterEntries ref j).GoesOn ref name := by
  constructor
  · rintro ⟨fuel, hends⟩
    by_contra hnone
    rw [not_exists] at hnone
    refine hends ((findFileLoop_running_iff ref name fuel fs).2 fun j _ ↦ ?_)
    exact Classical.not_not.1 (hnone j)
  · rintro ⟨j, hstop⟩
    refine ⟨j + 1, fun hrunning ↦ hstop ?_⟩
    exact (findFileLoop_running_iff ref name (j + 1) fs).1 hrunning j (Nat.lt_succ_self j)

/-! ### One entry -/

/-- What is left of a directory whose size is known. -/
def entryCount (fd : FatFileData) : UInt32 :=
  if fd.pub.size = 0 then 32 else min 32 (fd.pub.size - fd.pub.position)

theorem read_entry_eq (htarget : fs.target ref = ref) (hopened : (fs.fileData ref).opened = true)
    (hdir : (fs.fileData ref).pub.isDirectory = true) :
    fs.read ref 32 = readLoop ref (entryCount (fs.fileData ref)).toNat
      (entryCount (fs.fileData ref)) [] fs := by
  rw [read]
  dsimp only
  rw [htarget, if_pos hopened, hdir, entryCount]
  by_cases hsize : (fs.fileData ref).pub.size = 0
  · simp [hsize]
  · simp [hsize]

/-- **Reading an entry** takes it out of the buffer, and uses the buffer up with its sixteenth
entry. -/
theorem read_entry (htarget : fs.target ref = ref) (hopened : (fs.fileData ref).opened = true)
    (hdir : (fs.fileData ref).pub.isDirectory = true) (hcount : entryCount (fs.fileData ref) = 32)
    (hpos : (fs.fileData ref).pub.position.toNat % 32 = 0) :
    fs.read ref 32 =
      (slice (fs.fileData ref).buffer ((fs.fileData ref).pub.position.toNat % 512) 32,
        if (fs.fileData ref).pub.position.toNat % 512 = 480 then
          ((fs.movePosition ref 32).advance ref).2
        else fs.movePosition ref 32) := by
  obtain ⟨hleft, htake, hfull⟩ :=
    take_spec (n := 32) (rfl : (fs.fileData ref).pub.position.toNat = _)
  have hmod : ((fs.fileData ref).pub.position % 512).toNat =
      (fs.fileData ref).pub.position.toNat % 512 := UInt32.toNat_mod _ _
  have hall : min 32 (512 - (fs.fileData ref).pub.position % 512) = 32 := by
    rw [← UInt32.toNat_inj, htake]
    simp only [UInt32.reduceToNat]
    omega
  have hif : (512 - (fs.fileData ref).pub.position % 512 = 32) ↔
      (fs.fileData ref).pub.position.toNat % 512 = 480 := by
    rw [hall] at hfull
    rw [hfull]
    simp only [UInt32.reduceToNat]
    omega
  rw [read_entry_eq htarget hopened hdir, hcount, show (32 : UInt32).toNat = 31 + 1 by decide,
    readLoop_succ ref 31 (by decide)]
  dsimp only
  rw [hall, hmod, List.nil_append, UInt32.sub_self, readLoop_of_eq_zero rfl,
    readLoop_of_eq_zero rfl,
    ite_self]
  by_cases h : (fs.fileData ref).pub.position.toNat % 512 = 480
  · rw [if_pos h, if_pos (hif.2 h)]
    rfl
  · rw [if_neg h, if_neg fun h' ↦ h (hif.1 h')]
    rfl

/-- Less than an entry in front of the end of the directory is not enough. -/
theorem length_read_lt (htarget : fs.target ref = ref) (hopened : (fs.fileData ref).opened = true)
    (hdir : (fs.fileData ref).pub.isDirectory = true)
    (hcount : (entryCount (fs.fileData ref)).toNat < 32)
    (hpos : (fs.fileData ref).pub.position.toNat % 32 = 0) :
    (fs.read ref 32).1.length < entrySize := by
  rw [read_entry_eq htarget hopened hdir]
  rcases Nat.eq_zero_or_pos (entryCount (fs.fileData ref)).toNat with hzero | hsome
  · rw [readLoop_of_eq_zero hzero]
    exact Nat.succ_pos _
  · obtain ⟨fuel, hfuel⟩ := Nat.exists_eq_succ_of_ne_zero hsome.ne'
    rw [hfuel, readLoop_of_lt hsome rfl (by omega), List.nil_append, length_slice]
    exact hcount

/-! ### Directories with a size -/

/-- The invariant of a scan of a directory whose size is known. -/
structure Sized (ref : FileRef) (fs : Fat12FileSystem) : Prop where
  /-- The handle stored in the record is its own. -/
  target : fs.target ref = ref
  /-- The directory is open. -/
  opened : (fs.fileData ref).opened = true
  /-- It is a directory. -/
  isDirectory : (fs.fileData ref).pub.isDirectory = true
  /-- Its size is not zero. -/
  size : (fs.fileData ref).pub.size ≠ 0
  /-- The position does not pass the size. -/
  le : (fs.fileData ref).pub.position.toNat ≤ (fs.fileData ref).pub.size.toNat
  /-- It is at the start of an entry. -/
  aligned : (fs.fileData ref).pub.position.toNat % 32 = 0

/-- How much of it is left. -/
def bytesLeft (fs : Fat12FileSystem) (ref : FileRef) : ℕ :=
  (fs.fileData ref).pub.size.toNat - (fs.fileData ref).pub.position.toNat

/-- What reading an entry does to the position and the size. -/
theorem pub_read_entry (htarget : fs.target ref = ref) (hopened : (fs.fileData ref).opened = true)
    (hdir : (fs.fileData ref).pub.isDirectory = true) (hcount : entryCount (fs.fileData ref) = 32)
    (hpos : (fs.fileData ref).pub.position.toNat % 32 = 0) :
    ((fs.read ref 32).2.fileData ref).pub.position = (fs.fileData ref).pub.position + 32 ∧
      (((fs.read ref 32).2.fileData ref).pub.size = (fs.fileData ref).pub.size ∨
        ((fs.read ref 32).2.fileData ref).pub.size = (fs.fileData ref).pub.position + 32) := by
  rw [read_entry htarget hopened hdir hcount hpos]
  dsimp only
  split
  · rcases pub_advance (fs.movePosition ref 32) ref with hpub | hpub
    · rw [hpub, fileData_movePosition]
      exact ⟨rfl, Or.inl rfl⟩
    · rw [hpub, fileData_movePosition]
      exact ⟨rfl, Or.inr rfl⟩
  · rw [fileData_movePosition]
    exact ⟨rfl, Or.inl rfl⟩

/-- **An entry of a directory with a size** brings the scan closer to its end. -/
theorem Sized.read (h : Sized ref fs) (hgo : fs.GoesOn ref name) :
    Sized ref (fs.read ref 32).2 ∧ (fs.read ref 32).2.bytesLeft ref < fs.bytesLeft ref := by
  have hsub : ((fs.fileData ref).pub.size - (fs.fileData ref).pub.position).toNat =
      fs.bytesLeft ref :=
    UInt32.toNat_sub_of_le _ _ (UInt32.le_iff_toNat_le.2 h.le)
  have hcount : (entryCount (fs.fileData ref)).toNat = min 32 (fs.bytesLeft ref) := by
    rw [entryCount, if_neg h.size, toNat_min, hsub]
    rfl
  have hroom : 32 ≤ fs.bytesLeft ref := by
    by_contra hshort
    have hlt := length_read_lt h.target h.opened h.isDirectory (by omega) h.aligned
    have hfull := hgo.1
    omega
  have hall : entryCount (fs.fileData ref) = 32 := by
    rw [← UInt32.toNat_inj, hcount, Nat.min_eq_left hroom]
    rfl
  obtain ⟨hposition, hsize⟩ := pub_read_entry h.target h.opened h.isDirectory hall h.aligned
  have hlt := (fs.fileData ref).pub.size.toNat_lt
  have hleft : fs.bytesLeft ref =
    (fs.fileData ref).pub.size.toNat - (fs.fileData ref).pub.position.toNat := rfl
  have hadd : ((fs.fileData ref).pub.position + 32).toNat =
      (fs.fileData ref).pub.position.toNat + 32 := by
    rw [UInt32.toNat_add]
    simp only [UInt32.reduceToNat]
    omega
  have hsame := sameFile_read_of_target h.target 32
  have hsize' :
      (fs.fileData ref).pub.position.toNat + 32 ≤ ((fs.read ref 32).2.fileData ref).pub.size.toNat ∧
      ((fs.read ref 32).2.fileData ref).pub.size.toNat ≤ (fs.fileData ref).pub.size.toNat := by
    rcases hsize with hsize | hsize
    · rw [hsize]
      omega
    · rw [hsize, hadd]
      omega
  refine ⟨⟨target_of_sameFile h.target hsame, hsame.opened.trans h.opened,
    hsame.isDirectory.trans h.isDirectory, fun hzero ↦ ?_, ?_, ?_⟩, ?_⟩
  · rw [hzero, UInt32.toNat_zero] at hsize'
    omega
  · rw [hposition, hadd]
    exact hsize'.1
  · have haligned := h.aligned
    rw [hposition, hadd]
    omega
  · rw [bytesLeft, hposition, hadd]
    omega

/-- **The scan of a directory with a size ends.** -/
theorem Sized.ends (h : Sized ref fs) (name : List UInt8) :
    ∃ j, ¬ (fs.afterEntries ref j).GoesOn ref name := by
  induction hleft : fs.bytesLeft ref using Nat.strong_induction_on generalizing fs with
  | _ left ih =>
    by_cases hgo : fs.GoesOn ref name
    · obtain ⟨hnext, hlt⟩ := h.read hgo
      obtain ⟨j, hstop⟩ := ih _ (hleft ▸ hlt) hnext rfl
      refine ⟨j + 1, ?_⟩
      rwa [afterEntries_succ_eq]
    · exact ⟨0, hgo⟩

/-! ### Directories of size zero -/

/-- The invariant of a scan that has looked at `j` entries of a directory of size zero: it has
walked through `j / 16` sectors, and has the next one in its buffer. -/
structure Scanning (disk : BlockDevice) (b : FatBootSector) (ref : FileRef)
    (fs : Fat12FileSystem) (j : ℕ)
    (g : Fat12FileSystem) : Prop where
  /-- What the scan leaves alone. -/
  frame : Frame {ref} fs g
  /-- It stays the same directory. -/
  same : SameFile (fs.fileData ref) (g.fileData ref)
  /-- Its size is still zero. -/
  size : (g.fileData ref).pub.size = 0
  /-- The position counts the entries. -/
  position : (g.fileData ref).pub.position.toNat = 32 * j % 2 ^ 32
  /-- The counters and the window are those of the walk. -/
  walk : g.walkState ref = (fs.sectorSteps ref (j / 16)).walkState ref
  /-- The buffer holds the walk's sector. -/
  buffer : ∀ i < sectorSize, (g.fileData ref).buffer i = fs.dirSector ref (j / 16) i

section Zero

variable (h : Scannable disk b ref fs)

include h

theorem Scannable.scanning (hsize : (fs.fileData ref).pub.size = 0) :
    Scanning disk b ref fs 0 fs where
  frame := Frame.refl _ fs
  same := SameFile.refl _
  size := hsize
  position := by
    rw [h.position]
    rfl
  walk := rfl
  buffer _ _ := rfl

variable {j : ℕ} {g : Fat12FileSystem}

/-- The next entry. -/
theorem Scanning.read_eq (hs : Scanning disk b ref fs j g) :
    g.read ref 32 = ((fs.dirEntry ref (j / 16) (j % 16)).bytes,
      if j % 16 = 15 then ((g.movePosition ref 32).advance ref).2 else g.movePosition ref 32) := by
  have hposition := hs.position
  have hmod : (g.fileData ref).pub.position.toNat % 512 = 32 * (j % 16) := by omega
  have hcount : entryCount (g.fileData ref) = 32 := if_pos hs.size
  rw [read_entry (target_of_sameFile h.target hs.same) (hs.same.opened.trans h.opened)
    (hs.same.isDirectory.trans h.isDirectory) hcount (by omega), hmod]
  have hslice : slice (g.fileData ref).buffer (32 * (j % 16)) 32 =
      (fs.dirEntry ref (j / 16) (j % 16)).bytes := by
    refine slice_congr fun i hi ↦ hs.buffer _ ?_
    simp only [sectorSize]
    omega
  have hif : 32 * (j % 16) = 480 ↔ j % 16 = 15 := by omega
  rw [hslice]
  exact Prod.ext rfl (if_congr hif rfl rfl)

/-- It ends the scan or not. -/
theorem Scanning.goesOn_iff (hs : Scanning disk b ref fs j g) :
    g.GoesOn ref name ↔ ¬ (fs.dirEntry ref (j / 16) (j % 16)).Stops name := by
  rw [GoesOn, hs.read_eq h]
  have hlength : (fs.dirEntry ref (j / 16) (j % 16)).bytes.length = entrySize := length_slice _ _ _
  exact ⟨fun hgo ↦ hgo.2, fun hnot ↦ ⟨hlength, hnot⟩⟩

/-- Behind it the scan is at the next entry, unless the chain has come to its end. -/
theorem Scanning.read (hs : Scanning disk b ref fs j g) :
    Scanning disk b ref fs (j + 1) (g.read ref 32).2 ∧
        (j % 16 = 15 →
          ¬ ((fs.sectorSteps ref (j / 16 + 1)).fileData ref).currentCluster ≥ 0xFFFFFFF8) ∨
      j % 16 = 15 ∧ ((fs.sectorSteps ref (j / 16 + 1)).fileData ref).currentCluster ≥ 0xFFFFFFF8 ∧
        ((g.read ref 32).2.fileData ref).pub.size = ((g.read ref 32).2.fileData ref).pub.position ∧
        ((g.read ref 32).2.fileData ref).pub.position.toNat = 32 * (j + 1) % 2 ^ 32 := by
  have hframe := frame_read_of_target (target_of_sameFile h.target hs.same) 32
  have hsame := sameFile_read_of_target (target_of_sameFile h.target hs.same) 32
  have hposition : ((g.fileData ref).pub.position + 32).toNat = 32 * (j + 1) % 2 ^ 32 := by
    rw [UInt32.toNat_add, hs.position]
    simp only [UInt32.reduceToNat]
    omega
  rw [hs.read_eq h] at hframe hsame ⊢
  dsimp only at hframe hsame ⊢
  by_cases hlast : j % 16 = 15
  · -- the buffer is used up
    rw [if_pos hlast] at hframe hsame ⊢
    have hserves := (h.serves.of_frame hs.frame).of_frame (frame_movePosition g ref 32)
    have hfd := fileData_movePosition g ref 32
    have hwalk : (g.movePosition ref 32).walkState ref =
        (fs.sectorSteps ref (j / 16)).walkState ref := by
      rw [← hs.walk, walkState, walkState, hfd, fatCachePosition_movePosition]
    have hlba (c : UInt32) : (g.movePosition ref 32).clusterToLba c = fs.clusterToLba c :=
      ((frame_movePosition g ref 32).clusterToLba c).trans (hs.frame.clusterToLba c)
    have hsector : (g.movePosition ref 32).disk.sector = fs.disk.sector :=
      (frame_movePosition g ref 32).sector.trans hs.frame.sector
    have hpub := pub_stepCounters (g.movePosition ref 32) ref
    rw [hfd] at hpub
    clear hfd
    generalize g.movePosition ref 32 = g₁ at hframe hsame hserves hwalk hlba hsector hpub ⊢
    have hstep : (g₁.stepCounters ref).walkState ref =
        (fs.sectorSteps ref (j / 16 + 1)).walkState ref :=
      walkState_stepCounters (h.serves.of_frame (frame_sectorSteps fs ref (j / 16))) hserves hwalk
    have hframe' := frame_stepCounters g₁ ref
    have hserves' := hserves.of_frame hframe'
    obtain ⟨hc, hsec, hw⟩ : _ ∧ _ ∧ _ := by simpa only [walkState, Prod.mk.injEq] using hstep
    rw [advance_eq] at hframe hsame ⊢
    dsimp only at hframe hsame ⊢
    rw [hc, hsec] at hframe hsame ⊢
    split at hframe
    · next hend =>
      rw [if_pos hend]
      refine Or.inr ⟨hlast, hend, ?_, ?_⟩
      · rw [fileData_setFileData_self]
      · rw [fileData_setFileData_self, hpub]
        exact hposition
    · next hdata =>
      rw [if_neg hdata] at hsame ⊢
      left
      have hdiv : (j + 1) / 16 = j / 16 + 1 := by omega
      have hread := (readSector_of_answers hserves'.reads.answers ref
        ((g₁.stepCounters ref).clusterToLba
          ((fs.sectorSteps ref (j / 16 + 1)).fileData ref).currentCluster +
          ((fs.sectorSteps ref (j / 16 + 1)).fileData ref).currentSectorInCluster)).2
      refine ⟨⟨hs.frame.trans hframe, hs.same.trans hsame, ?_, ?_, ?_, fun i hi ↦ ?_⟩,
        fun _ ↦ hdata⟩
      · rw [hread, hpub]
        exact hs.size
      · rw [hread, hpub]
        exact hposition
      · rw [hdiv, ← hstep, walkState, walkState, hread, fatCachePosition_readSector]
      · rw [hread, hdiv, dirSector]
        dsimp only
        rw [BlockDevice.fill_one hi, hframe'.clusterToLba, hlba, hframe'.sector,
          hsector]
  · rw [if_neg hlast] at hframe hsame ⊢
    left
    have hdiv : (j + 1) / 16 = j / 16 := by omega
    have hfd := fileData_movePosition g ref 32
    refine ⟨⟨hs.frame.trans hframe, hs.same.trans hsame, ?_, ?_, ?_, fun i hi ↦ ?_⟩,
      fun hlast' ↦ absurd hlast' hlast⟩
    · rw [hfd]
      exact hs.size
    · rw [hfd]
      exact hposition
    · rw [hdiv, ← hs.walk, walkState, walkState, hfd, fatCachePosition_movePosition]
    · rw [hfd, hdiv]
      exact hs.buffer i hi

/-- A scan for which nothing stops is at the next entry for ever. -/
theorem Scannable.scanning_afterEntries (hsize : (fs.fileData ref).pub.size = 0)
    (hchain : ¬ fs.ChainEnds ref) (j : ℕ) : Scanning disk b ref fs j (fs.afterEntries ref j) := by
  induction j with
  | zero => exact h.scanning hsize
  | succ j ih =>
    rw [afterEntries_succ]
    rcases ih.read h with hnext | ⟨-, hend, -⟩
    · exact hnext.1
    · exact absurd ⟨j / 16 + 1, Nat.succ_pos _, hend⟩ hchain

/-- Behind the end of the chain no entry is delivered. -/
theorem Scannable.length_read_of_end (hsame : SameFile (fs.fileData ref) (g.fileData ref))
    (hsize : (g.fileData ref).pub.size = (g.fileData ref).pub.position) {K : ℕ} (hpos : 0 < K)
    (hK : K < 2 ^ 23) (hposition : (g.fileData ref).pub.position.toNat = 512 * K) :
    (g.read ref 32).1.length < entrySize := by
  have hne : ¬ (g.fileData ref).pub.size = 0 := by
    intro hzero
    rw [hsize] at hzero
    rw [hzero, UInt32.toNat_zero] at hposition
    omega
  have hcount : (entryCount (g.fileData ref)).toNat = 0 := by
    rw [entryCount, if_neg hne, toNat_min, hsize, UInt32.sub_self]
    rfl
  exact length_read_lt (target_of_sameFile h.target hsame) (hsame.opened.trans h.opened)
    (hsame.isDirectory.trans h.isDirectory) (by omega) (by omega : _ % 32 = 0)

/-- A scan that always goes on never comes to an end mark. -/
theorem Scannable.scanning_of_goesOn (ha : detectAccepts b = true)
    (hsize : (fs.fileData ref).pub.size = 0)
    (hgo : ∀ j, (fs.afterEntries ref j).GoesOn ref name) (j : ℕ) :
    Scanning disk b ref fs j (fs.afterEntries ref j) ∧ ∀ k, 0 < k → k ≤ j / 16 →
      ¬ ((fs.sectorSteps ref k).fileData ref).currentCluster ≥ 0xFFFFFFF8 := by
  induction j with
  | zero => exact ⟨h.scanning hsize, fun k hk hle ↦ by omega⟩
  | succ j ih =>
    obtain ⟨hscan, hbefore⟩ := ih
    have hnext := afterEntries_succ fs ref j
    rcases hscan.read h with ⟨hscan', hdata⟩ | ⟨hlast, hend, hmark, hposition⟩
    · rw [← hnext] at hscan'
      refine ⟨hscan', fun k hk hle ↦ ?_⟩
      rcases Nat.lt_or_ge (j / 16) k with hlt | hge
      · obtain rfl : k = j / 16 + 1 := by omega
        exact hdata (by omega)
      · exact hbefore k hk hge
    · -- the first end mark: the directory's size is now the position
      have hshort :=
        firstEnd_lt ha h.serves (fun k hk hlt ↦ hbefore k hk (Nat.le_of_lt_succ hlt)) hend
      have hsame := sameFile_read_of_target (target_of_sameFile h.target hscan.same) 32
      rw [← hnext] at hmark hposition hsame
      have hlength :=
        h.length_read_of_end (hscan.same.trans hsame) hmark (Nat.succ_pos (j / 16)) hshort
        (by omega)
      exact absurd (hgo (j + 1)).1 (Nat.ne_of_lt hlength)

/-- **When a scan ends**: exactly when the directory has a size, or its chain an end, or one of its
entries stops the scan. -/
theorem Scannable.findFile_ends_iff (ha : detectAccepts b = true) (name : List UInt8) :
    (∃ fuel, (fs.findFile fuel ref name).1 ≠ .running) ↔ fs.ScanEnds ref name := by
  rw [findFile_ends_iff_exists]
  by_cases hsize : (fs.fileData ref).pub.size = 0
  · constructor
    · rintro ⟨j, hstop⟩
      by_contra hnone
      rw [ScanEnds, not_or, not_or] at hnone
      obtain ⟨-, hchain, hentries⟩ := hnone
      have hscan := h.scanning_afterEntries hsize hchain j
      exact hstop ((hscan.goesOn_iff h).2 fun hentry ↦
        hentries ⟨j / 16, j % 16, Nat.mod_lt _ (by decide), hentry⟩)
    · intro hends
      by_contra hnone
      have hgo (j : ℕ) : (fs.afterEntries ref j).GoesOn ref name :=
        Classical.not_not.1 fun hstop ↦ hnone ⟨j, hstop⟩
      have hall := h.scanning_of_goesOn ha hsize hgo
      rcases hends with hne | ⟨k, hk, hend⟩ | ⟨k, i, hi, hentry⟩
      · exact hne hsize
      · exact (hall (16 * k)).2 k hk (by omega) hend
      · have hscan := (hall (16 * k + i)).1
        have hstop := (hscan.goesOn_iff h).1 (hgo (16 * k + i))
        rw [show (16 * k + i) / 16 = k by omega, show (16 * k + i) % 16 = i by omega] at hstop
        exact hstop hentry
  · have hsized : Sized ref fs := by
      refine ⟨h.target, h.opened, h.isDirectory, hsize, ?_, ?_⟩
      · rw [h.position]
        exact Nat.zero_le _
      · rw [h.position]
        rfl
    exact iff_of_true (hsized.ends name) (Or.inl hsize)

end Zero

end Fat12FileSystem

end Aidos.Fat12
