import Aidos.Fat12.Sessions

/-!
# What a failed `seek` leaves behind

`seek` sets the position first. Then it walks the cluster chain and fetches a sector, and either may
fail. A call that is turned down at once changes nothing, and a call that goes through need not: any
other call leaves the handle at the new position, with the cluster and the buffer of the old one or
with a buffer that was not filled (`Fat12FileSystem.seekSound_iff`).

The walk steps to the next cluster once for each whole cluster below the position. So the position
behind the last byte of a full chain, which is the size of a file that fills its clusters, is one
lookup too far (`reaches_iff_of_chain`).
-/

namespace Aidos.Fat12

/-- Where a handle stands: its position, the cluster and the sector of it that is in the buffer, and
the buffer. -/
structure Standing where
  /-- `position`. -/
  position : UInt32
  /-- `CurrentCluster`. -/
  currentCluster : UInt32
  /-- `CurrentSectorInCluster`. -/
  currentSectorInCluster : UInt32
  /-- `Buffer`. -/
  buffer : ℕ → UInt8

/-- Where a record stands. -/
def FatFileData.standing (fd : FatFileData) : Standing :=
  ⟨fd.pub.position, fd.currentCluster, fd.currentSectorInCluster, fd.buffer⟩

/-- The record, standing elsewhere. -/
def FatFileData.stand (fd : FatFileData) (s : Standing) : FatFileData :=
  { fd with
    pub := { fd.pub with position := s.position }
    currentCluster := s.currentCluster
    currentSectorInCluster := s.currentSectorInCluster
    buffer := s.buffer }

namespace Fat12FileSystem

variable (fs : Fat12FileSystem)

/-- The driver, with the handle `ref` standing elsewhere. -/
def stand (ref : FileRef) (s : Standing) : Fat12FileSystem :=
  fs.setFileData ref ((fs.fileData ref).stand s)

/-- `k` lookups of `NextCluster` from cluster `c` on: the cluster they lead to, unless one of them
answers with an end mark. -/
def walkFrom : ℕ → UInt32 → Fat12FileSystem → Option UInt32 × Fat12FileSystem
  | 0, c, fs => (some c, fs)
  | k + 1, c, fs =>
    let (next, fs) := fs.nextCluster c
    if next ≥ 0xFFFFFFF8 then (none, fs) else walkFrom k next fs

/-- The bytes of a cluster. -/
def clusterBytes : ℕ := fs.bs.sectorsPerCluster.toNat * sectorSize

/-- The chain of the file has a cluster for the position, and the device answers the request that
follows the lookups. -/
def Reaches (ref : FileRef) (position : UInt32) : Prop :=
  (walkFrom (position.toNat / fs.clusterBytes) (fs.fileData ref).firstCluster fs).1 ≠ none ∧
    (walkFrom (position.toNat / fs.clusterBytes) (fs.fileData ref).firstCluster fs).2.disk.Answers

/-- The call is turned down before it changes anything: the position is behind the end of a file, or
the handle is not open. -/
def TurnedDown (ref : FileRef) (position : UInt32) : Prop :=
  ((fs.fileData ref).pub.isDirectory = false ∧ (fs.fileData ref).pub.size < position) ∨
    (fs.fileData ref).opened = false

/-- What is asked of a call `seek(file, position)`. -/
structure SeekSound (ref : FileRef) (position : UInt32) : Prop where
  /-- It returns true for an open file with a sound chain on a disk whose reads succeed, up to the
  size of the file. -/
  total : (fs.fileData ref).opened = true → (fs.fileData ref).pub.isDirectory = false →
    (∃ C : ClusterChain (diskFat fs.disk fs.bs),
      C.Covers (fs.fileData ref).firstCluster (fs.fileData ref).pub.size.toNat) →
    fs.disk.AllReadsSucceed → position ≤ (fs.fileData ref).pub.size →
      (fs.seek ref position).1 = true
  /-- If it returns false, the handle stands where it stood, and the next read delivers the bytes it
  would have delivered without the call. -/
  atomic : (fs.seek ref position).1 = false →
    ((fs.seek ref position).2.fileData ref).standing = (fs.fileData ref).standing ∧
      ∀ n, ((fs.seek ref position).2.read ref n).1 = (fs.read ref n).1

/-! ### The walk -/

variable {fs} {ref : FileRef} {fd : FatFileData}

theorem ensureWindow_setFileData (s : UInt32) :
    (fs.setFileData ref fd).ensureWindow s = (fs.ensureWindow s).setFileData ref fd := by
  rw [ensureWindow, ensureWindow, fatCachePosition_setFileData]
  split
  · cases ref <;> rfl
  · rfl

/-- A lookup does not look at the records. -/
theorem nextCluster_setFileData (c : UInt32) :
    (fs.setFileData ref fd).nextCluster c =
      ((fs.nextCluster c).1, (fs.nextCluster c).2.setFileData ref fd) := by
  rw [nextCluster, nextCluster]
  dsimp only
  rw [ensureWindow_setFileData]
  cases ref <;> rfl

theorem walkFrom_setFileData (k : ℕ) (c : UInt32) (fs : Fat12FileSystem) :
    walkFrom k c (fs.setFileData ref fd) =
      ((walkFrom k c fs).1, (walkFrom k c fs).2.setFileData ref fd) := by
  induction k generalizing c fs with
  | zero => rfl
  | succ k ih =>
    rw [walkFrom, walkFrom, nextCluster_setFileData]
    dsimp only
    split
    · rfl
    · exact ih _ _

theorem frame_walkFrom (k : ℕ) (c : UInt32) (fs : Fat12FileSystem) :
    Frame ∅ fs (walkFrom k c fs).2 := by
  induction k generalizing c fs with
  | zero => exact Frame.refl _ fs
  | succ k ih =>
    rw [walkFrom]
    dsimp only
    split
    · exact frame_nextCluster fs c
    · exact (frame_nextCluster fs c).trans (ih _ _)

/-- The loop of `seek` makes one lookup for each whole cluster below the offset. -/
theorem seekLoop_eq {clusterSize : UInt32} (hpos : 0 < clusterSize.toNat) (fuel : ℕ)
    (c offset : UInt32) (fs : Fat12FileSystem) (hfuel : offset.toNat ≤ fuel) :
    seekLoop clusterSize fuel c offset fs =
      ((walkFrom (offset.toNat / clusterSize.toNat) c fs).1.map
          fun c' ↦ (c', UInt32.ofNat (offset.toNat % clusterSize.toNat)),
        (walkFrom (offset.toNat / clusterSize.toNat) c fs).2) := by
  have hstay {fs : Fat12FileSystem} {c offset : UInt32} (hlt : offset.toNat < clusterSize.toNat) :
      (some (c, offset), fs) =
        ((walkFrom (offset.toNat / clusterSize.toNat) c fs).1.map
            fun c' ↦ (c', UInt32.ofNat (offset.toNat % clusterSize.toNat)),
          (walkFrom (offset.toNat / clusterSize.toNat) c fs).2) := by
    rw [Nat.div_eq_of_lt hlt, Nat.mod_eq_of_lt hlt, UInt32.ofNat_toNat]
    rfl
  induction fuel generalizing c offset fs with
  | zero => exact hstay (by omega)
  | succ fuel ih =>
    rw [seekLoop]
    dsimp only
    by_cases hge : offset ≥ clusterSize
    · rw [if_pos hge]
      have hle : clusterSize.toNat ≤ offset.toNat := UInt32.le_iff_toNat_le.1 hge
      have hsub : (offset - clusterSize).toNat = offset.toNat - clusterSize.toNat :=
        UInt32.toNat_sub_of_le _ _ hge
      have hmod : (offset.toNat - clusterSize.toNat) % clusterSize.toNat =
          offset.toNat % clusterSize.toNat := (Nat.mod_eq_sub_mod hle).symm
      have hdiv : offset.toNat / clusterSize.toNat =
          (offset.toNat - clusterSize.toNat) / clusterSize.toNat + 1 :=
        Nat.div_eq_sub_div hpos hle
      rw [hdiv, walkFrom]
      dsimp only
      split
      · rfl
      · rw [ih _ _ _ (by omega), hsub, hmod]
    · rw [if_neg hge]
      exact hstay (by
        rw [ge_iff_le, UInt32.le_iff_toNat_le] at hge
        omega)

/-! ### The call -/

/-- The walk of `seek` is a lookup for each whole cluster below the position. -/
theorem seekWalk_eq (hspc : fs.bs.sectorsPerCluster ≠ 0) (ref : FileRef) (position : UInt32) :
    fs.seekWalk ref position =
      ((walkFrom (position.toNat / fs.clusterBytes) (fs.fileData ref).firstCluster fs).1.map
          fun c ↦ (c, UInt32.ofNat (position.toNat % fs.clusterBytes)),
        (walkFrom (position.toNat / fs.clusterBytes) (fs.fileData ref).firstCluster
          fs).2.setPosition ref position) := by
  have hbytes : (fs.bs.sectorsPerCluster.toUInt32 * 512).toNat = fs.clusterBytes :=
    toNat_clusterSize fs.bs
  have hpos : 0 < (fs.bs.sectorsPerCluster.toUInt32 * 512).toNat := by
    have hne : fs.bs.sectorsPerCluster.toNat ≠ 0 := fun hzero ↦ hspc (UInt8.toNat_inj.1 hzero)
    rw [hbytes, clusterBytes]
    exact Nat.mul_pos (Nat.pos_of_ne_zero hne) (by decide)
  have hfd := (frame_walkFrom (position.toNat / fs.clusterBytes) (fs.fileData ref).firstCluster
    fs).fileData ref (Set.notMem_empty ref)
  rw [seekWalk, seekLoop_eq hpos _ _ _ _ (Nat.le_refl _), hbytes, setPosition, setPosition,
    walkFrom_setFileData, hfd]

theorem seek_of_turnedDown (htarget : fs.target ref = ref) {position : UInt32}
    (h : fs.TurnedDown ref position) : fs.seek ref position = (false, fs) := by
  have hseeks := fs.seeks ref position
  generalize fs.seek ref position = result at hseeks ⊢
  have hnot (hroom : (fs.fileData ref).pub.isDirectory = true ∨
      position ≤ (fs.fileData ref).pub.size)
      (hopened : (fs.fileData (fs.target ref)).opened = true) : False := by
    rw [htarget] at hopened
    rcases h with ⟨hdir, hlt⟩ | hclosed
    · rw [hdir, ← UInt32.not_lt] at hroom
      exact hroom.elim (by simp) fun hle ↦ hle hlt
    · exact absurd (hclosed.symm.trans hopened) (by simp)
  cases hseeks with
  | behind => rfl
  | closed => rfl
  | off hroom hopened => exact (hnot hroom hopened).elim
  | found hroom hopened => exact (hnot hroom hopened).elim

theorem readSector_iff {lba : UInt32} : (fs.readSector ref lba).1 = true ↔ fs.disk.Answers :=
  ⟨BlockDevice.answers_of_readSectors, fun h ↦ (readSector_of_answers h ref lba).1⟩

/-- A call that is not turned down moves the position, whatever comes of it, and returns whether the
position is reached. -/
theorem seek_of_not_turnedDown (hspc : fs.bs.sectorsPerCluster ≠ 0) (htarget : fs.target ref = ref)
    {position : UInt32} (h : ¬ fs.TurnedDown ref position) :
    ((fs.seek ref position).1 = true ↔ fs.Reaches ref position) ∧
      ((fs.seek ref position).2.fileData ref).pub.position = position := by
  have hseeks := fs.seeks ref position
  have heq := seekWalk_eq hspc ref position
  rw [Reaches]
  generalize walkFrom (position.toNat / fs.clusterBytes) (fs.fileData ref).firstCluster fs = walk
    at heq ⊢
  generalize fs.seek ref position = result at hseeks ⊢
  cases hseeks with
  | behind hdir hlt => exact absurd (Or.inl ⟨hdir, hlt⟩) h
  | closed hclosed => exact absurd (Or.inr (htarget ▸ hclosed)) h
  | off _ _ hwalk =>
    -- the walk has met an end mark
    rw [htarget] at hwalk
    obtain ⟨hnone, -⟩ := Prod.mk.inj (heq.symm.trans hwalk)
    rw [fileData_of_seekWalk hwalk, Option.map_eq_none_iff.1 hnone]
    exact ⟨by simp, rfl⟩
  | found _ _ hwalk =>
    rw [htarget] at hwalk ⊢
    obtain ⟨hsome, rfl⟩ := Prod.mk.inj (heq.symm.trans hwalk)
    obtain ⟨c, hc, -⟩ := Option.map_eq_some_iff.1 hsome
    rw [fileData_readSector, fileData_setCounters, fileData_of_seekWalk hwalk, readSector_iff,
      setCounters, disk_setFileData, setPosition, disk_setFileData, hc]
    exact ⟨by simp, rfl⟩

/-! ### Wherever the handle stands -/

section Stand

variable (ref) (s : Standing)

@[simp] theorem fileData_stand : (fs.stand ref s).fileData ref = (fs.fileData ref).stand s :=
  fileData_setFileData_self

theorem target_stand (htarget : fs.target ref = ref) : (fs.stand ref s).target ref = ref := by
  rw [target, fileData_stand]
  exact htarget

theorem turnedDown_stand {position : UInt32} :
    (fs.stand ref s).TurnedDown ref position ↔ fs.TurnedDown ref position := by
  rw [TurnedDown, fileData_stand]
  rfl

theorem reaches_stand {position : UInt32} :
    (fs.stand ref s).Reaches ref position ↔ fs.Reaches ref position := by
  have hbytes : (fs.stand ref s).clusterBytes = fs.clusterBytes := by
    rw [clusterBytes, clusterBytes, bs, bs, stand, bs_setFileData]
  have hfirst : ((fs.fileData ref).stand s).firstCluster = (fs.fileData ref).firstCluster := rfl
  rw [Reaches, Reaches, fileData_stand, hbytes, hfirst, stand, walkFrom_setFileData,
    disk_setFileData]

end Stand

/-- **When `seek` keeps its promises**, wherever the handle stands: the call is turned down before
it changes anything, or the chain has a cluster for the position and the device answers. -/
theorem seekSound_iff (hspc : fs.bs.sectorsPerCluster ≠ 0) (htarget : fs.target ref = ref)
    (position : UInt32) :
    (∀ s : Standing, (fs.stand ref s).SeekSound ref position) ↔
      fs.TurnedDown ref position ∨ fs.Reaches ref position := by
  have hspc' : ∀ s, (fs.stand ref s).bs.sectorsPerCluster ≠ 0 := by
    intro s
    rw [bs, stand, bs_setFileData]
    exact hspc
  constructor
  · intro hall
    by_contra hnot
    rw [not_or] at hnot
    -- let the handle stand somewhere else
    have htarget' := target_stand ref ⟨position + 1, 0, 0, fun _ ↦ 0⟩ htarget
    obtain ⟨hvalue, hmoved⟩ := seek_of_not_turnedDown (hspc' _) htarget'
      (mt (turnedDown_stand ref ⟨position + 1, 0, 0, fun _ ↦ 0⟩).1 hnot.1)
    have hfalse := mt (hvalue.trans (reaches_stand ref _)).1 hnot.2
    have hkept := ((hall _).atomic (by simpa using hfalse)).1
    have hposition := congrArg Standing.position hkept
    rw [fileData_stand] at hposition
    have hsame : position = position + 1 := hmoved.symm.trans hposition
    have hval := congrArg UInt32.toNat hsame
    rw [UInt32.toNat_add, UInt32.toNat_one] at hval
    have hlt := position.toNat_lt
    omega
  · intro h s
    have htarget' := target_stand ref s htarget
    by_cases hdown : fs.TurnedDown ref position
    · have hdown' := (turnedDown_stand ref s).2 hdown
      have heq := seek_of_turnedDown htarget' hdown'
      refine ⟨fun hopen hfile _ _ hle ↦ ?_, fun _ ↦ ?_⟩
      · rcases hdown' with ⟨-, hlt⟩ | hclosed
        · exact absurd hle (UInt32.not_le.2 hlt)
        · exact absurd (hclosed.symm.trans hopen) (by decide)
      · rw [heq]
        exact ⟨rfl, fun _ ↦ rfl⟩
    · have hreach := (reaches_stand ref s).2 (h.resolve_left hdown)
      have htrue := (seek_of_not_turnedDown (hspc' s) htarget'
        (mt (turnedDown_stand ref s).1 hdown)).1.2 hreach
      exact ⟨fun _ _ _ _ _ ↦ htrue, fun hfalse ↦ absurd htrue (by simp [hfalse])⟩

/-! ### Sound chains -/

variable {disk : BlockDevice} {b : FatBootSector}

/-- On a sound chain the walk leads as far as the chain does. -/
theorem walkFrom_chain (C : ClusterChain (diskFat disk b)) (k : ℕ) {i : ℕ} (fs : Fat12FileSystem)
    (hi : i < C.clusters.length)
    (hfaith : Faithful (diskFat disk b) (walkFrom k (C.cluster i) fs).2.trace) :
    (walkFrom k (C.cluster i) fs).1 ≠ none ↔ i + k < C.clusters.length := by
  induction k generalizing i fs with
  | zero => exact iff_of_true (by simp [walkFrom]) hi
  | succ k ih =>
    have hrange := C.inRange _ (ClusterChain.cluster_mem hi)
    have hnext : (fs.nextCluster (C.cluster i)).1 =
        fatEntry (diskFat disk b) (C.cluster i).toNat := by
      refine hfaith _ _ hrange.1 hrange.2 ?_
      rw [walkFrom]
      dsimp only
      split
      · exact List.mem_cons_self
      · exact (frame_walkFrom _ _ _).trace.subset List.mem_cons_self
    rw [walkFrom] at hfaith ⊢
    dsimp only at hfaith ⊢
    rcases Nat.lt_or_ge (i + 1) C.clusters.length with hin | hout
    · rw [hnext, ClusterChain.fatEntry_cluster hin] at hfaith ⊢
      have hnext' := C.inRange _ (ClusterChain.cluster_mem hin)
      have hdata : ¬ C.cluster (i + 1) ≥ 0xFFFFFFF8 := by
        rw [ge_iff_le, UInt32.le_iff_toNat_le]
        simp only [UInt32.reduceToNat]
        omega
      rw [if_neg hdata] at hfaith ⊢
      rw [ih _ hin hfaith]
      omega
    · rw [hnext, if_pos (ClusterChain.fatEntry_last (by omega))]
      exact iff_of_false (by simp) (by omega)

/-- A file on a sound chain, read from a faultless device: the positions reached are those before
the end of the chain. The size of a file that fills its clusters is not among them. -/
theorem reaches_iff_of_chain (C : ClusterChain (diskFat disk b)) {size : ℕ} {position : UInt32}
    (hC : C.Covers (fs.fileData ref).firstCluster size) (hspc : fs.bs.sectorsPerCluster ≠ 0)
    (hreads : fs.disk.AllReadsSucceed)
    (hfaith : Faithful (diskFat disk b)
      (walkFrom (position.toNat / fs.clusterBytes) (fs.fileData ref).firstCluster fs).2.trace) :
    fs.Reaches ref position ↔ position.toNat < C.clusters.length * fs.clusterBytes := by
  have hpos : 0 < fs.clusterBytes := by
    have hne : fs.bs.sectorsPerCluster.toNat ≠ 0 := fun hzero ↦ hspc (UInt8.toNat_inj.1 hzero)
    exact Nat.mul_pos (Nat.pos_of_ne_zero hne) (by decide)
  have hframe := frame_walkFrom (position.toNat / fs.clusterBytes) (fs.fileData ref).firstCluster fs
  have hanswers := (hframe.allReadsSucceed hreads).answers
  rw [← hC.cluster_zero] at hfaith
  have hwalk := walkFrom_chain C (position.toNat / fs.clusterBytes) fs hC.length_pos hfaith
  rw [hC.cluster_zero, Nat.zero_add, Nat.div_lt_iff_lt_mul hpos] at hwalk
  exact ⟨fun h ↦ hwalk.1 h.1, fun h ↦ ⟨hwalk.2 h, hanswers⟩⟩

end Fat12FileSystem

/-! ### A file that fills its clusters -/

open Fat12FileSystem

/-- The floppy with the file `A`, which is 1024 bytes long here, just as long as its two clusters.
-/
def fullFloppy : BlockDevice :=
  { twoClusterFloppy with
    sector := fun lba j ↦ if lba = 19 ∧ (j = 28 ∨ j = 29) then [0, 4].getD (j - 28) 0
      else twoClusterFloppy.sector lba j }

/-- The driver after mounting that disk and opening `A`. -/
def fullFs : Fat12FileSystem :=
  ((detectAndMount fullFloppy blankData).get (by decide)).openPath 8 [0x2F, 0x61] |>.2

/-- The chain of `A`. -/
def fullChain : ClusterChain (diskFat fullFs.disk fullFs.bs) :=
  .pair inRange_two_three (by decide) (by decide)

theorem covers_fullChain : fullChain.Covers (fullFs.fileData (.slot 0)).firstCluster
    (fullFs.fileData (.slot 0)).pub.size.toNat := ⟨by decide, by decide⟩

/-- The handle can be moved into the second cluster from where it stands. -/
theorem seekSound_iff_fullFs :
    (fullFs.stand (.slot 0) (fullFs.fileData (.slot 0)).standing).SeekSound (.slot 0) 600 :=
  (seekSound_iff (by decide) (by decide) 600).2 (Or.inr ⟨by decide, by decide⟩) _

/-- A call for the size of the file returns false and leaves the handle there: a read that would
have delivered the first four bytes delivers nothing. -/
theorem seek_to_size_fails :
    ((fullFs.fileData (.slot 0)).opened = true ∧
      (fullFs.fileData (.slot 0)).pub.isDirectory = false ∧
      fullChain.Covers (fullFs.fileData (.slot 0)).firstCluster
        (fullFs.fileData (.slot 0)).pub.size.toNat ∧
      fullFs.disk.AllReadsSucceed ∧ (fullFs.fileData (.slot 0)).pub.size = 1024 ∧
      (fullFs.seek (.slot 0) 1024).1 = false ∧
      (fullFs.fileData (.slot 0)).pub.position = 0 ∧
      ((fullFs.seek (.slot 0) 1024).2.fileData (.slot 0)).pub.position = 1024 ∧
      (fullFs.read (.slot 0) 4).1 = [33, 34, 35, 36] ∧
      ((fullFs.seek (.slot 0) 1024).2.read (.slot 0) 4).1 = []) ∧
    ¬ fullFs.SeekSound (.slot 0) 1024 := by
  have hreads : fullFs.disk.AllReadsSucceed := fun _ ↦ rfl
  have hfails : (fullFs.seek (.slot 0) 1024).1 = false := by decide
  refine ⟨⟨by decide, by decide, covers_fullChain, hreads, by decide, hfails, by decide, by decide,
    by decide, by decide⟩, fun hsound ↦ ?_⟩
  have htrue :=
    hsound.total (by decide) (by decide) ⟨fullChain, covers_fullChain⟩ hreads (by decide)
  exact absurd (hfails.symm.trans htrue) (by decide)

end Aidos.Fat12
