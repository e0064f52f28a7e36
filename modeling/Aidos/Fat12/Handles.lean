import Aidos.Fat12.Contents

/-!
# Handles in step

A `Stream` says what an open handle reads: for every sector of the file or directory, the counters
that belong to it and where it lies. `InStep disk b σ ref p fs` ties the handle `ref` to the stream:
it stands at position `p`, and, as long as there is anything left to read, its cluster and sector
counters and its buffer belong to the sector `p` lies in. `InStep.read` says what a read then
delivers, for any stream whose sector boundaries the driver crosses right.

For a file on a cluster chain it does (`crosses_stream`), so `read` delivers the slice from the
position (`read_inStep`), and `seek` moves it (`seek_inStep`). At the end of the file the counters
do not matter, and there they may indeed be stale: `seek` to the size of a file that fills its last
cluster walks off the chain and returns early, with the new position already set.

That `NextCluster` answers with the on-disk successor is an assumption here, `Faithful`, about the
lookups recorded in a trace.
-/

namespace Aidos.Fat12

/-- The lookups in a trace of the driver returned the on-disk successors of data clusters. -/
def Faithful (fat : ℕ → UInt8) (trace : List Event) : Prop :=
  ∀ c r : UInt32, 2 ≤ c.toNat → c.toNat ≤ 0xFEF → Event.successor c r ∈ trace →
    r = fatEntry fat c.toNat

theorem Faithful.of_suffix {fat : ℕ → UInt8} {t t' : List Event} (h : Faithful fat t')
    (hsub : t <:+ t') : Faithful fat t :=
  fun c r hlow hhigh hmem ↦ h c r hlow hhigh (hsub.subset hmem)

/-! ### Streams -/

/-- Where a sector of a stream lies: the counters that belong to it and its address. -/
structure Place where
  /-- The current cluster. -/
  cluster : UInt32
  /-- The current sector in the cluster. -/
  sector : ℕ
  /-- The sector's address on the disk. -/
  lba : ℕ

/-- What an open handle reads: a file or a directory of a given size, sector by sector. -/
structure Stream where
  /-- Whether it is a directory. -/
  isDirectory : Bool
  /-- The first cluster. -/
  firstCluster : UInt32
  /-- The size in bytes. -/
  size : ℕ
  /-- Where its `k`-th sector lies. -/
  place : ℕ → Place

/-- Byte `p` of a stream. -/
def Stream.byteAt (disk : BlockDevice) (σ : Stream) (p : ℕ) : UInt8 :=
  disk.sector (σ.place (p / sectorSize)).lba (p % sectorSize)

variable {disk : BlockDevice} {b : FatBootSector}

/-- The stream of a file of `size` bytes on a cluster chain. -/
def ClusterChain.stream (C : ClusterChain (diskFat disk b)) (first : UInt32)
    (size : ℕ) : Stream where
  isDirectory := false
  firstCluster := first
  size := size
  place k := ⟨C.cluster (k / spc b), k % spc b, C.sectorLba k⟩

/-! ### Records -/

variable {σ : Stream} {p : ℕ}

/-- **A record in step** at position `p` of the stream `σ`. -/
structure Tracks (disk : BlockDevice) (σ : Stream) (p : ℕ) (fd : FatFileData) : Prop where
  /-- The file is open. -/
  opened : fd.opened = true
  /-- Whether it is a directory. -/
  isDirectory : fd.pub.isDirectory = σ.isDirectory
  /-- Its first cluster. -/
  firstCluster : fd.firstCluster = σ.firstCluster
  /-- Its size. -/
  size : fd.pub.size.toNat = σ.size
  /-- Its position. -/
  position : fd.pub.position.toNat = p
  /-- The position does not pass the size. -/
  le : p ≤ σ.size
  /-- Before the end, the current cluster is the one the position lies in. -/
  cluster : p < σ.size → fd.currentCluster = (σ.place (p / sectorSize)).cluster
  /-- Before the end, so is the sector. -/
  sector : p < σ.size → fd.currentSectorInCluster.toNat = (σ.place (p / sectorSize)).sector
  /-- Before the end, the buffer holds that sector. -/
  buffer : p < σ.size → ∀ j < sectorSize,
    fd.buffer j = disk.sector (σ.place (p / sectorSize)).lba j

namespace Tracks

variable {fd fd' : FatFileData}

/-- The buffer of a record in step, read off the stream. -/
theorem buffer_eq_byteAt (h : Tracks disk σ p fd) (hp : p < σ.size) {j : ℕ} (hj : j < 512) :
    fd.buffer j = σ.byteAt disk (p / 512 * 512 + j) := by
  rw [h.buffer hp j hj, Stream.byteAt]
  have hdiv : (p / 512 * 512 + j) / 512 = p / 512 := by omega
  have hmod : (p / 512 * 512 + j) % 512 = j := by omega
  rw [hdiv, hmod]

/-- Moving the position inside the buffer keeps a record in step. -/
theorem move (h : Tracks disk σ p fd) {t : UInt32} (ht : p % 512 + t.toNat < 512)
    (hle : p + t.toNat ≤ σ.size) :
    Tracks disk σ (p + t.toNat)
      { fd with pub := { fd.pub with position := fd.pub.position + t } } := by
  have hdiv : (p + t.toNat) / 512 = p / 512 := by omega
  have hlt := fd.pub.size.toNat_lt
  have hsize := h.size
  refine { h with position := ?_, le := hle, cluster := fun hp ↦ ?_, sector := fun hp ↦ ?_
                  buffer := fun hp ↦ ?_ }
  · rw [UInt32.toNat_add, h.position]
    omega
  · rw [hdiv]
    exact h.cluster (by omega)
  · rw [hdiv]
    exact h.sector (by omega)
  · rw [hdiv]
    exact h.buffer (by omega)

/-- At the end of the stream the counters and the buffer do not matter. -/
theorem of_end (h : Tracks disk σ p fd) (hsame : SameFile fd fd')
    (hposition : fd'.pub.position.toNat = σ.size) (hsize : fd'.pub.size.toNat = σ.size) :
    Tracks disk σ σ.size fd' where
  opened := hsame.opened.trans h.opened
  isDirectory := hsame.isDirectory.trans h.isDirectory
  firstCluster := hsame.firstCluster.trans h.firstCluster
  size := hsize
  position := hposition
  le := Nat.le_refl _
  cluster hp := absurd hp (Nat.lt_irrefl _)
  sector hp := absurd hp (Nat.lt_irrefl _)
  buffer hp := absurd hp (Nat.lt_irrefl _)

end Tracks

namespace Fat12FileSystem

variable {ref : FileRef} {fs fs' : Fat12FileSystem}

/-! ### Handles -/

/-- The handle `ref` stands at position `p` of the stream `σ`, whatever the device does. -/
structure Placed (disk : BlockDevice) (b : FatBootSector) (σ : Stream) (ref : FileRef) (p : ℕ)
    (fs : Fat12FileSystem) : Prop where
  /-- The driver is mounted on the volume. -/
  volume : Volume disk b fs
  /-- The handle stored in the record is its own. -/
  target : fs.target ref = ref
  /-- The record is in step. -/
  record : Tracks disk σ p (fs.fileData ref)

/-- **The handle `ref` is in step at position `p`** of the stream `σ`. -/
structure InStep (disk : BlockDevice) (b : FatBootSector) (σ : Stream) (ref : FileRef) (p : ℕ)
    (fs : Fat12FileSystem) : Prop where
  /-- The driver serves the volume. -/
  serves : Serves disk b fs
  /-- The handle stored in the record is its own. -/
  target : fs.target ref = ref
  /-- The record is in step. -/
  record : Tracks disk σ p (fs.fileData ref)

theorem InStep.placed (h : InStep disk b σ ref p fs) : Placed disk b σ ref p fs :=
  ⟨h.serves.volume, h.target, h.record⟩

theorem Placed.inStep (h : Placed disk b σ ref p fs) (hs : Serves disk b fs) :
    InStep disk b σ ref p fs :=
  ⟨hs, h.target, h.record⟩

/-- The place of a handle only depends on the volume and on the record. -/
theorem Placed.of_frame {refs : Set FileRef} (h : Placed disk b σ ref p fs)
    (hf : Frame refs fs fs') (hr : ref ∉ refs) : Placed disk b σ ref p fs' where
  volume := h.volume.of_frame hf
  target := by rw [Fat12FileSystem.target, hf.fileData ref hr]; exact h.target
  record := hf.fileData ref hr ▸ h.record

/-- Moving the position inside the buffer. -/
theorem Placed.movePosition (h : Placed disk b σ ref p fs) {t : UInt32}
    (ht : p % 512 + t.toNat < 512) (hle : p + t.toNat ≤ σ.size) :
    Placed disk b σ ref (p + t.toNat) (fs.movePosition ref t) where
  volume := h.volume.of_frame (frame_movePosition fs ref t)
  target := by
    rw [Fat12FileSystem.target, fileData_movePosition]
    exact h.target
  record := by
    rw [fileData_movePosition]
    exact h.record.move ht hle

/-- A handle at the end of the stream is placed there, whatever its counters and its buffer. -/
theorem Placed.of_end (h : Placed disk b σ ref p fs) (hv : Volume disk b fs')
    (hsame : SameFile (fs.fileData ref) (fs'.fileData ref))
    (hposition : (fs'.fileData ref).pub.position.toNat = σ.size)
    (hsize : (fs'.fileData ref).pub.size.toNat = σ.size) : Placed disk b σ ref σ.size fs' :=
  ⟨hv, target_of_sameFile h.target hsame, h.record.of_end hsame hposition hsize⟩

/-- So does the invariant. -/
theorem InStep.of_frame {refs : Set FileRef} (h : InStep disk b σ ref p fs)
    (hf : Frame refs fs fs') (hr : ref ∉ refs) : InStep disk b σ ref p fs' :=
  (h.placed.of_frame hf hr).inStep (h.serves.of_frame hf)

/-- Moving the position inside the buffer. -/
theorem InStep.movePosition (h : InStep disk b σ ref p fs) {t : UInt32}
    (ht : p % 512 + t.toNat < 512) (hle : p + t.toNat ≤ σ.size) :
    InStep disk b σ ref (p + t.toNat) (fs.movePosition ref t) :=
  (h.placed.movePosition ht hle).inStep (h.serves.of_frame (frame_movePosition fs ref t))

/-- What a used-up buffer must lead to: the handle stays in step, and goes on unless the stream ends
there. -/
def Crosses (disk : BlockDevice) (b : FatBootSector) (σ : Stream) (ref : FileRef)
    (final : List Event) : Prop :=
  ∀ {p : ℕ} {fs : Fat12FileSystem} (t : UInt32), InStep disk b σ ref p fs →
    t.toNat = 512 - p % 512 → p + t.toNat ≤ σ.size →
    ((fs.movePosition ref t).advance ref).2.trace <:+ final →
    InStep disk b σ ref (p + t.toNat) ((fs.movePosition ref t).advance ref).2 ∧
      (p + t.toNat < σ.size → ((fs.movePosition ref t).advance ref).1 = true)

/-- A read of a stream that is read up to its size runs the loop for what is left of it. -/
theorem Placed.read_eq (h : Placed disk b σ ref p fs) (hcap : σ.isDirectory = true → σ.size ≠ 0)
    (n : UInt32) : ∃ count : UInt32, count.toNat = min n.toNat (σ.size - p) ∧
      fs.read ref n = readLoop ref count.toNat count [] fs := by
  have hle := h.record.le
  refine ⟨min n ((fs.fileData ref).pub.size - (fs.fileData ref).pub.position), ?_, ?_⟩
  · have hsub : ((fs.fileData ref).pub.size - (fs.fileData ref).pub.position).toNat =
        σ.size - p := by
      rw [UInt32.toNat_sub_of_le _ _ (UInt32.le_iff_toNat_le.2 (by
        rw [h.record.position, h.record.size]
        exact hle)), h.record.size, h.record.position]
    rw [← hsub]
    exact toNat_min _ _
  have hcapped : (!(fs.fileData ref).pub.isDirectory || (fs.fileData ref).pub.isDirectory &&
      (fs.fileData ref).pub.size != 0) = true := by
    rw [h.record.isDirectory]
    cases hdir : σ.isDirectory
    · rfl
    · have hsize : (fs.fileData ref).pub.size ≠ 0 := fun hzero ↦ by
        have hval := h.record.size
        rw [hzero] at hval
        exact hcap hdir hval.symm
      simpa using hsize
  rw [Fat12FileSystem.read]
  dsimp only
  rw [h.target, if_pos h.record.opened, if_pos hcapped]

/-- **A read delivers the slice from the position** and leaves the handle in step behind it, for
streams that are read up to their size and whose sector boundaries are crossed right. -/
theorem InStep.read (h : InStep disk b σ ref p fs) (hcap : σ.isDirectory = true → σ.size ≠ 0)
    (n : UInt32) (hcross : Crosses disk b σ ref (fs.read ref n).2.trace) :
    (fs.read ref n).1 = slice (σ.byteAt disk) p (min n.toNat (σ.size - p)) ∧
      InStep disk b σ ref (p + min n.toNat (σ.size - p)) (fs.read ref n).2 := by
  have hle := h.record.le
  obtain ⟨count, hcount, heq⟩ := h.placed.read_eq hcap n
  rw [heq] at hcross ⊢
  rw [← hcount]
  have hrule := readLoop_spec ref (σ.byteAt disk) σ.size
    (InStep disk b σ ref) _
    (fun hI ↦ hI.record.position)
    (fun hI hp j hj ↦ hI.record.buffer_eq_byteAt hp hj)
    (fun t hI ht hle ↦ hI.movePosition ht hle)
    hcross
    _ [] h (Nat.le_refl _) (by omega) (List.suffix_refl _)
  rwa [List.nil_append] at hrule

/-- **Fetching the sector of a position** puts the handle there, if the device answers and
everything else in the record already is. -/
theorem readSector_placed (σ : Stream) (q : ℕ) (hv : Volume disk b fs) (hans : fs.disk.Answers)
    (htarget : fs.target ref = ref) {lba : UInt32}
    (hlba : lba.toNat = (σ.place (q / sectorSize)).lba)
    (hrec : ∀ B : ℕ → UInt8,
      (∀ j < sectorSize, B j = disk.sector (σ.place (q / sectorSize)).lba j) →
      Tracks disk σ q { fs.fileData ref with buffer := B }) :
    (fs.readSector ref lba).1 = true ∧ Placed disk b σ ref q (fs.readSector ref lba).2 := by
  obtain ⟨hok, hfd⟩ := readSector_of_answers hans ref lba
  refine ⟨hok, hv.of_frame (frame_readSector fs ref _), ?_, ?_⟩
  · rw [Fat12FileSystem.target, hfd]
    exact htarget
  · rw [hfd]
    refine hrec _ fun j hj ↦ ?_
    rw [BlockDevice.fill_one hj, hlba, hv.sector]

/-- On a faultless device it puts the handle in step. -/
theorem readSector_inStep (σ : Stream) (q : ℕ) (hs : Serves disk b fs)
    (htarget : fs.target ref = ref) {lba : UInt32}
    (hlba : lba.toNat = (σ.place (q / sectorSize)).lba)
    (hrec : ∀ B : ℕ → UInt8,
      (∀ j < sectorSize, B j = disk.sector (σ.place (q / sectorSize)).lba j) →
      Tracks disk σ q { fs.fileData ref with buffer := B }) :
    (fs.readSector ref lba).1 = true ∧ InStep disk b σ ref q (fs.readSector ref lba).2 := by
  obtain ⟨hok, hplaced⟩ := readSector_placed σ q hs.volume hs.reads.answers htarget hlba hrec
  exact ⟨hok, hplaced.inStep (hs.of_frame (frame_readSector fs ref _))⟩

/-- A fetch for the handle `ref` has failed in the middle of the stream `σ`: it stands at position
`p`, but its buffer does not. -/
structure Lost (disk : BlockDevice) (b : FatBootSector) (σ : Stream) (ref : FileRef) (p : ℕ)
    (fs : Fat12FileSystem) : Prop where
  /-- The driver is mounted on the volume. -/
  volume : Volume disk b fs
  /-- The handle stored in the record is its own. -/
  target : fs.target ref = ref
  /-- The file is open. -/
  opened : (fs.fileData ref).opened = true
  /-- Whether it is a directory. -/
  isDirectory : (fs.fileData ref).pub.isDirectory = σ.isDirectory
  /-- Its size. -/
  size : (fs.fileData ref).pub.size.toNat = σ.size
  /-- Its position. -/
  position : (fs.fileData ref).pub.position.toNat = p
  /-- The position is before the end. -/
  lt : p < σ.size

theorem Lost.of_frame {refs : Set FileRef} (h : Lost disk b σ ref p fs) (hf : Frame refs fs fs')
    (hr : ref ∉ refs) : Lost disk b σ ref p fs' := by
  have hsame := hf.fileData ref hr
  refine ⟨h.volume.of_frame hf, ?_, ?_, ?_, ?_, ?_, h.lt⟩
  · rw [Fat12FileSystem.target, hsame]
    exact h.target
  · rw [hsame]
    exact h.opened
  · rw [hsame]
    exact h.isDirectory
  · rw [hsame]
    exact h.size
  · rw [hsame]
    exact h.position

/-- Before the end it is lost. -/
theorem Placed.lost (h : Placed disk b σ ref p fs) {q : ℕ} (hv : Volume disk b fs')
    (hsame : SameFile (fs.fileData ref) (fs'.fileData ref))
    (hposition : (fs'.fileData ref).pub.position.toNat = q)
    (hsize : (fs'.fileData ref).pub.size.toNat = σ.size) (hlt : q < σ.size) :
    Lost disk b σ ref q fs' where
  volume := hv
  target := target_of_sameFile h.target hsame
  opened := hsame.opened.trans h.record.opened
  isDirectory := hsame.isDirectory.trans h.record.isDirectory
  size := hsize
  position := hposition
  lt := hlt

/-! ### Files -/

variable {C : ClusterChain (diskFat disk b)} {first : UInt32} {size : ℕ}

/-- The chain has a cluster for every position before the end. -/
theorem cluster_lt (hC : C.Covers first size) (hspc : 0 < spc b) (hp : p < size) :
    p / sectorSize / spc b < C.clusters.length := by
  have hroom := hC.room
  rw [Nat.div_lt_iff_lt_mul hspc, Nat.div_lt_iff_lt_mul (by decide)]
  exact Nat.lt_of_lt_of_le hp hroom

section Accepted

variable (ha : detectAccepts b = true)

include ha

/-- Where the sectors of a chain are requested. -/
theorem toNat_clusterToLba_chain (hs : Volume disk b fs) {k : ℕ} {c s : UInt32}
    (hlt : k / spc b < C.clusters.length) (hc : c = C.cluster (k / spc b))
    (hsec : s.toNat = k % spc b) : (fs.clusterToLba c + s).toNat = C.sectorLba k := by
  have hrange := C.inRange _ (ClusterChain.cluster_mem hlt)
  rw [← hc] at hrange
  rw [hs.toNat_clusterToLba ha ⟨hrange.1, by omega⟩ (hsec ▸ Nat.mod_lt _ (spc_pos ha)),
    ClusterChain.sectorLba,
    hsec, hc]
/-! ### Crossing a sector boundary -/

/-- The counters after the sector step, if its lookup is right: those of the next sector, unless the
chain ends there. -/
theorem stepCounters_of_next (hs : Volume disk b fs) {k : ℕ}
    (hlt : k / spc b < C.clusters.length)
    (hc : (fs.fileData ref).currentCluster = C.cluster (k / spc b))
    (hsec : (fs.fileData ref).currentSectorInCluster.toNat = k % spc b)
    (hnext : (fs.fileData ref).currentSectorInCluster + 1 ≥ fs.bs.sectorsPerCluster.toUInt32 →
      (fs.nextCluster (fs.fileData ref).currentCluster).1 =
        fatEntry (diskFat disk b) (fs.fileData ref).currentCluster.toNat) :
    ∃ c s : UInt32,
      (fs.stepCounters ref).fileData ref =
        { fs.fileData ref with currentCluster := c, currentSectorInCluster := s } ∧
      ((k + 1) / spc b < C.clusters.length ∧ c = C.cluster ((k + 1) / spc b) ∧
          s.toNat = (k + 1) % spc b ∨
        k + 1 = C.clusters.length * spc b ∧ c ≥ 0xFFFFFFF8) := by
  have hspc := spc_pos ha
  have hspc' := spc_lt b
  have hmod := Nat.mod_lt k hspc
  have hsucc : ((fs.fileData ref).currentSectorInCluster + 1).toNat = k % spc b + 1 := by
    rw [UInt32.toNat_add, hsec]
    simp only [UInt32.reduceToNat]
    omega
  have hkdm := Nat.div_add_mod k (spc b)
  rw [stepCounters]
  dsimp only
  by_cases hlast : (fs.fileData ref).currentSectorInCluster + 1 ≥ fs.bs.sectorsPerCluster.toUInt32
  · -- the last sector of a cluster: the FAT names the next one
    rw [if_pos hlast]
    replace hnext := hnext hlast
    rw [ge_iff_le, UInt32.le_iff_toNat_le, hsucc, hs.toNat_sectorsPerCluster] at hlast
    have hk : k + 1 = (k / spc b + 1) * spc b := by
      rw [Nat.add_mul, Nat.one_mul, Nat.mul_comm]
      omega
    refine ⟨_, 0, fileData_setFileData_self, ?_⟩
    rw [hnext, hc]
    rcases Nat.lt_or_ge (k / spc b + 1) C.clusters.length with h | h
    · left
      have hdiv : (k + 1) / spc b = k / spc b + 1 := by rw [hk, Nat.mul_div_cancel _ hspc]
      have hmod' : (k + 1) % spc b = 0 := by rw [hk, Nat.mul_mod_left]
      rw [hdiv, hmod', ClusterChain.fatEntry_cluster h]
      exact ⟨h, rfl, rfl⟩
    · right
      have heq : k / spc b + 1 = C.clusters.length := by omega
      exact ⟨by rw [hk, heq], ClusterChain.fatEntry_last heq⟩
  · rw [if_neg hlast]
    rw [ge_iff_le, UInt32.le_iff_toNat_le, hsucc, hs.toNat_sectorsPerCluster] at hlast
    have hdiv : (k + 1) / spc b = k / spc b := by
      rw [Nat.div_eq_iff hspc]
      rw [Nat.mul_comm] at hkdm
      omega
    have hmod' : (k + 1) % spc b = k % spc b + 1 := by
      have := Nat.div_add_mod (k + 1) (spc b)
      rw [hdiv] at this
      omega
    refine ⟨_, _, fileData_setFileData_self, Or.inl ?_⟩
    rw [hdiv, hmod']
    exact ⟨hlt, hc, hsucc⟩

/-- The counters after the sector step of a driver whose lookups are right. -/
theorem stepCounters_spec (hs : Volume disk b fs) {k : ℕ}
    (hlt : k / spc b < C.clusters.length)
    (hc : (fs.fileData ref).currentCluster = C.cluster (k / spc b))
    (hsec : (fs.fileData ref).currentSectorInCluster.toNat = k % spc b)
    (hfaith : Faithful (diskFat disk b) (fs.stepCounters ref).trace) :
    ∃ c s : UInt32,
      (fs.stepCounters ref).fileData ref =
        { fs.fileData ref with currentCluster := c, currentSectorInCluster := s } ∧
      ((k + 1) / spc b < C.clusters.length ∧ c = C.cluster ((k + 1) / spc b) ∧
          s.toNat = (k + 1) % spc b ∨
        k + 1 = C.clusters.length * spc b ∧ c ≥ 0xFFFFFFF8) := by
  refine stepCounters_of_next ha hs hlt hc hsec fun hlast ↦ ?_
  have hrange := C.inRange _ (ClusterChain.cluster_mem hlt)
  rw [← hc] at hrange
  refine hfaith _ _ hrange.1 hrange.2 ?_
  rw [stepCounters, if_pos hlast, trace_setFileData, nextCluster_trace]
  exact List.mem_cons_self

/-- **Using up the buffer of a file**, on any device: the handle moves to the next sector, and stops
only at the end of the file, or the fetch fails and the handle is lost. -/
theorem advance_placed (hC : C.Covers first size) {t : UInt32}
    (h : Placed disk b (C.stream first size) ref p fs) (ht : t.toNat = 512 - p % 512)
    (hle : p + t.toNat ≤ size)
    (hfaith : Faithful (diskFat disk b) ((fs.movePosition ref t).advance ref).2.trace) :
    (Placed disk b (C.stream first size) ref (p + t.toNat) ((fs.movePosition ref t).advance ref).2 ∧
        (p + t.toNat < size → ((fs.movePosition ref t).advance ref).1 = true)) ∨
      (Lost disk b (C.stream first size) ref (p + t.toNat) ((fs.movePosition ref t).advance ref).2 ∧
        ((fs.movePosition ref t).advance ref).1 = false ∧
        ((fs.movePosition ref t).advance ref).2.disk.FailedSince fs.disk.calls) := by
  have hp : p < size := by omega
  have hlt := (fs.fileData ref).pub.size.toNat_lt
  have hsize : (fs.fileData ref).pub.size.toNat = size := h.record.size
  have hnext : (p + t.toNat) / 512 = p / 512 + 1 := by omega
  have hframe := frame_movePosition fs ref t
  have hs := h.volume.of_frame hframe
  have hposition : ((fs.fileData ref).pub.position + t).toNat = p + t.toNat := by
    rw [UInt32.toNat_add, h.record.position]
    omega
  have hfd := fileData_movePosition fs ref t
  have hcalls : (fs.movePosition ref t).disk.calls = fs.disk.calls := by
    rw [Fat12FileSystem.movePosition, disk_setFileData]
  generalize fs.movePosition ref t = fs₁ at hfaith hframe hs hfd hcalls ⊢
  have hframe' := frame_stepCounters fs₁ ref
  have hcalls' := calls_le_stepCounters fs₁ ref
  have htrace : (fs₁.stepCounters ref).trace <:+ (fs₁.advance ref).2.trace := by
    rw [advance_eq]
    dsimp only
    split
    · rw [trace_setFileData]
    · exact (frame_readSector _ _ _).trace
  obtain ⟨c, s, hfd', hcase⟩ := stepCounters_spec ha hs
    (cluster_lt hC (spc_pos ha) hp) (by rw [hfd]; exact h.record.cluster hp)
    (by rw [hfd]; exact h.record.sector hp) (hfaith.of_suffix htrace)
  rw [hfd] at hfd'
  have hs' := hs.of_frame hframe'
  rw [advance_eq]
  dsimp only
  generalize fs₁.stepCounters ref = fs₂ at hframe' hcalls' hfd' hs' ⊢
  have htarget : fs₂.target ref = ref := by
    rw [Fat12FileSystem.target, hfd']
    exact h.target
  rw [hfd']
  rcases hcase with ⟨hin, hc, hsec⟩ | ⟨hlast, hend⟩
  · -- the chain goes on
    have hrange := C.inRange _ (ClusterChain.cluster_mem hin)
    have hdata : ¬ c ≥ 0xFFFFFFF8 := by
      rw [ge_iff_le, UInt32.le_iff_toNat_le, hc]
      simp only [UInt32.reduceToNat]
      omega
    rw [if_neg hdata]
    rw [← hnext] at hin hc hsec
    by_cases hans : fs₂.disk.Answers
    · obtain ⟨hok, hstep⟩ := readSector_placed (C.stream first size) (p + t.toNat) hs' hans
        htarget (toNat_clusterToLba_chain ha hs' hin hc hsec) fun B hB ↦ by
          rw [hfd']
          exact { h.record with
            position := hposition
            le := hle
            cluster := fun _ ↦ hc
            sector := fun _ ↦ hsec
            buffer := fun _ ↦ hB }
      exact Or.inl ⟨hstep, fun _ ↦ hok⟩
    · obtain ⟨hfail, hlast⟩ := readSector_of_not_answers hans ref (fs₂.clusterToLba c + s)
      replace hlast := hlast.mono (hcalls ▸ hcalls')
      have hvolume := hs'.of_frame (frame_readSector fs₂ ref (fs₂.clusterToLba c + s))
      have hrecord := fileData_readSector fs₂ ref (fs₂.clusterToLba c + s)
      generalize fs₂.readSector ref (fs₂.clusterToLba c + s) = r at hfail hlast hvolume hrecord ⊢
      rw [hfd'] at hrecord
      have hsame : SameFile (fs.fileData ref) (r.2.fileData ref) := by
        rw [hrecord]
        exact ⟨rfl, rfl, rfl, rfl⟩
      have hposition' : (r.2.fileData ref).pub.position.toNat = p + t.toNat := by
        rw [hrecord]
        exact hposition
      have hsize' : (r.2.fileData ref).pub.size.toNat = size := by
        rw [hrecord]
        exact hsize
      rcases Nat.lt_or_ge (p + t.toNat) size with hbefore | hafter
      · exact Or.inr ⟨h.lost hvolume hsame hposition' hsize' hbefore, hfail, hlast⟩
      · -- nothing was left to fetch
        have hstop : p + t.toNat = (C.stream first size).size := Nat.le_antisymm hle hafter
        refine Or.inl ⟨?_, fun hbefore ↦ absurd hbefore (Nat.not_lt.2 hafter)⟩
        rw [hstop] at hposition' ⊢
        exact h.of_end hvolume hsame hposition' hsize'
  · -- the chain ends, and with it the file
    rw [if_pos hend]
    have hroom := hC.room
    rw [← hlast] at hroom
    simp only [sectorSize] at hroom
    have hstop : p + t.toNat = (C.stream first size).size := by
      change p + t.toNat = size
      omega
    refine Or.inl ⟨?_, fun hlt ↦ absurd hlt (by omega)⟩
    rw [hstop] at hposition ⊢
    refine h.of_end (hs'.of_frame (frame_setFileData _ _ _)) ?_ ?_ ?_ <;>
      rw [fileData_setFileData_self]
    · exact ⟨rfl, rfl, rfl, rfl⟩
    · exact hposition
    · exact hposition

/-- On a faultless device it keeps the handle in step, and stops only at the end. -/
theorem crosses_stream (hC : C.Covers first size) {final : List Event}
    (hfaith : Faithful (diskFat disk b) final) :
    Crosses disk b (C.stream first size) ref final := by
  intro p fs t h ht hle hfinal
  have hs := (h.serves.of_frame (frame_movePosition fs ref t)).of_frame
    (frame_advance (fs.movePosition ref t) ref)
  have hcases := advance_placed ha hC h.placed ht hle (hfaith.of_suffix hfinal)
  rcases hcases with ⟨hplaced, hgo⟩ | ⟨-, -, hfail⟩
  · exact ⟨hplaced.inStep hs, hgo⟩
  · exact absurd hfail (hs.reads.not_failedSince _)

/-- **A read of a file delivers the slice of its chain.** -/
theorem read_inStep (hC : C.Covers first size)
    (h : InStep disk b (C.stream first size) ref p fs) (n : UInt32)
    (hfaith : Faithful (diskFat disk b) (fs.read ref n).2.trace) :
    (fs.read ref n).1 = slice C.byteAt p (min n.toNat (size - p)) ∧
      InStep disk b (C.stream first size) ref (p + min n.toNat (size - p)) (fs.read ref n).2 :=
  h.read (fun hdir ↦ absurd hdir (by simp [ClusterChain.stream])) n (crosses_stream ha hC hfaith)

/-! ### Seeking -/

/-- **The cluster walk of `seek`** finds the cluster of the position, or walks off the chain, which
happens only to a position behind its last cluster. -/
theorem seekLoop_spec (C : ClusterChain (diskFat disk b)) {clusterSize : UInt32}
    (hcs : clusterSize.toNat = sectorSize * spc b) (fuel : ℕ) :
    ∀ (i q : ℕ) (cluster offset : UInt32) (fs : Fat12FileSystem), Serves disk b fs →
      i < C.clusters.length → cluster = C.cluster i →
      i * (sectorSize * spc b) + offset.toNat = q →
      q ≤ C.clusters.length * (sectorSize * spc b) → offset.toNat ≤ fuel →
      Faithful (diskFat disk b) (seekLoop clusterSize fuel cluster offset fs).2.trace →
      (∃ c o, (seekLoop clusterSize fuel cluster offset fs).1 = some (c, o) ∧
          q / (sectorSize * spc b) < C.clusters.length ∧
          c = C.cluster (q / (sectorSize * spc b)) ∧ o.toNat = q % (sectorSize * spc b)) ∨
        (seekLoop clusterSize fuel cluster offset fs).1 = none ∧
          q = C.clusters.length * (sectorSize * spc b) := by
  have hpos : 0 < sectorSize * spc b := Nat.mul_pos (by decide) (spc_pos ha)
  generalize sectorSize * spc b = S at hcs hpos
  have hstop {i q : ℕ} {cluster offset : UInt32} (hi : i < C.clusters.length)
      (hc : cluster = C.cluster i) (hq : i * S + offset.toNat = q) (ho : offset.toNat < S) :
      q / S < C.clusters.length ∧ cluster = C.cluster (q / S) ∧ offset.toNat = q % S := by
    have hdiv : q / S = i := by
      rw [Nat.div_eq_iff hpos, ← hq]
      omega
    have hmod : q % S = offset.toNat := by
      rw [← hq, Nat.mul_add_mod_self_right, Nat.mod_eq_of_lt ho]
    rw [hdiv, hmod]
    exact ⟨hi, hc, rfl⟩
  induction fuel with
  | zero =>
    intro i q cluster offset fs _ hi hc hq _ hfuel _
    exact Or.inl ⟨_, _, rfl, hstop hi hc hq (by omega)⟩
  | succ fuel ih =>
    intro i q cluster offset fs hs hi hc hq hle hfuel hfaith
    rw [seekLoop] at hfaith ⊢
    dsimp only at hfaith ⊢
    by_cases ho : offset ≥ clusterSize
    · -- the position lies in a later cluster
      rw [if_pos ho] at hfaith ⊢
      rw [ge_iff_le, UInt32.le_iff_toNat_le, hcs] at ho
      have hframe := frame_nextCluster fs cluster
      have hnext : (fs.nextCluster cluster).1 = fatEntry (diskFat disk b) (C.cluster i).toNat := by
        have hrange := C.inRange _ (ClusterChain.cluster_mem hi)
        rw [← hc] at hrange ⊢
        refine hfaith _ _ hrange.1 hrange.2 ?_
        split
        · exact List.mem_cons_self
        · exact (frame_seekLoop _ _ _ _ _).trace.subset List.mem_cons_self
      have hmul : (i + 1) * S = i * S + S := Nat.succ_mul i S
      rcases Nat.lt_or_ge (i + 1) C.clusters.length with hin | hout
      · rw [hnext, ClusterChain.fatEntry_cluster hin] at hfaith ⊢
        have hrange := C.inRange _ (ClusterChain.cluster_mem hin)
        have hdata : ¬ C.cluster (i + 1) ≥ 0xFFFFFFF8 := by
          rw [ge_iff_le, UInt32.le_iff_toNat_le]
          simp only [UInt32.reduceToNat]
          omega
        rw [if_neg hdata] at hfaith ⊢
        have hsub : (offset - clusterSize).toNat = offset.toNat - S := by
          rw [UInt32.toNat_sub_of_le _ _ (UInt32.le_iff_toNat_le.2 (hcs ▸ ho)), hcs]
        exact ih _ _ _ _ _ (hs.of_frame hframe) hin rfl (by omega) hle (by omega) hfaith
      · have hlast : i + 1 = C.clusters.length := by omega
        have hend := ClusterChain.fatEntry_last hlast
        rw [hnext, if_pos hend]
        rw [hlast] at hmul
        exact Or.inr ⟨rfl, by omega⟩
    · rw [if_neg ho]
      rw [ge_iff_le, UInt32.le_iff_toNat_le, hcs] at ho
      exact Or.inl ⟨_, _, rfl, hstop hi hc hq (by omega)⟩

/-- **A seek inside the file moves the position**, whatever it returns. -/
theorem seek_inStep (hC : C.Covers first size)
    (h : InStep disk b (C.stream first size) ref p fs) {position : UInt32}
    (hle : position.toNat ≤ size)
    (hfaith : Faithful (diskFat disk b) (fs.seek ref position).2.trace) :
    InStep disk b (C.stream first size) ref position.toNat (fs.seek ref position).2 := by
  have hsize : (fs.fileData ref).pub.size.toNat = size := h.record.size
  have hfirst : (fs.fileData ref).firstCluster = C.cluster 0 :=
    h.record.firstCluster.trans hC.cluster_zero.symm
  have hroom := hC.room
  rw [Nat.mul_assoc, Nat.mul_comm (spc b)] at hroom
  have hcs : (fs.bs.sectorsPerCluster.toUInt32 * 512).toNat = sectorSize * spc b := by
    rw [h.serves.bs, toNat_clusterSize, Nat.mul_comm]
  have hspec := seekLoop_spec ha C hcs position.toNat 0 position.toNat
    (fs.fileData ref).firstCluster position (fs.setPosition ref position)
    (h.serves.of_frame (fs.frame_setPosition ref position))
    hC.length_pos hfirst (by rw [Nat.zero_mul]; omega)
    (by omega) (Nat.le_refl _)
  rw [← seekWalk] at hspec
  have hseeks := fs.seeks ref position
  generalize fs.seek ref position = result at hfaith hseeks ⊢
  cases hseeks with
  | behind _ hlt =>
    have hlt' := UInt32.lt_iff_toNat_lt.1 hlt
    omega
  | closed hclosed =>
    rw [h.target, h.record.opened] at hclosed
    exact absurd hclosed (by simp)
  | off _ _ hwalk =>
    -- off the chain: only at the end of a file that fills its last cluster
    rw [h.target] at hwalk
    have hs := h.serves.of_frame (frame_of_seekWalk hwalk)
    have hfd := fileData_of_seekWalk hwalk
    rw [hwalk] at hspec
    rcases hspec hfaith with ⟨_, _, hsome, -⟩ | ⟨-, hend⟩
    · exact absurd hsome (by simp)
    have hstop : position.toNat = (C.stream first size).size := by
      change position.toNat = size
      omega
    rw [hstop]
    refine Placed.inStep (h.placed.of_end hs.volume ?_ ?_ ?_) hs <;> rw [hfd]
    · exact ⟨rfl, rfl, rfl, rfl⟩
    · exact hstop
    · exact h.record.size
  | @found c o fs' _ _ hwalk =>
    rw [h.target] at hwalk hfaith ⊢
    have hs := h.serves.of_frame (frame_of_seekWalk hwalk)
    have hfd := fileData_of_seekWalk hwalk
    rw [hwalk] at hspec
    have hframe := (frame_setCounters fs' ref c (o / 512)).trans
      (frame_readSector _ ref (fs'.clusterToLba c + o / 512))
    rcases hspec (hfaith.of_suffix hframe.trace) with ⟨c', o', hsome, hin, hc, ho⟩ | ⟨hnone, -⟩
    swap
    · exact absurd hnone (by simp)
    obtain ⟨rfl, rfl⟩ := Prod.mk.inj (Option.some.inj hsome)
    have hdiv : position.toNat / (sectorSize * spc b) = position.toNat / sectorSize / spc b :=
      (Nat.div_div_eq_div_mul _ _ _).symm
    have hsec : (o / 512).toNat = position.toNat / sectorSize % spc b := by
      rw [UInt32.toNat_div, ho]
      exact Nat.mod_mul_right_div_self _ _ _
    rw [hdiv] at hin hc
    have hset := hs.of_frame (frame_setCounters fs' ref c (o / 512))
    refine (readSector_inStep (C.stream first size) position.toNat hset ?_
      (toNat_clusterToLba_chain ha hs.volume hin hc hsec) fun B hB ↦ ?_).2
    · rw [Fat12FileSystem.target, fileData_setCounters, hfd]
      exact h.target
    · rw [fileData_setCounters, hfd]
      exact { h.record with
        position := rfl
        le := hle
        cluster := fun _ ↦ hc
        sector := fun _ ↦ hsec
        buffer := fun _ ↦ hB }

omit ha in
/-- A seek behind the end is turned down. -/
theorem seek_of_lt (h : InStep disk b (C.stream first size) ref p fs) {position : UInt32}
    (hlt : size < position.toNat) : fs.seek ref position = (false, fs) := by
  have hsize : (fs.fileData ref).pub.size.toNat = size := h.record.size
  have hdir : (fs.fileData ref).pub.isDirectory = false := h.record.isDirectory
  have hseeks := fs.seeks ref position
  generalize fs.seek ref position = result at hseeks ⊢
  have hroom : ¬ ((fs.fileData ref).pub.isDirectory = true ∨
      position ≤ (fs.fileData ref).pub.size) := by
    simpa [hdir, UInt32.le_iff_toNat_le, hsize] using hlt
  cases hseeks with
  | behind => rfl
  | closed => rfl
  | off hle => exact absurd hle hroom
  | found hle => exact absurd hle hroom

end Accepted

end Fat12FileSystem

end Aidos.Fat12
