import Aidos.Fat12.Opening

/-!
# Two drivers over one volume

Two driver states over the same volume may differ in which files are open, in which slots, and in
the window of the FAT they have cached. `SameVolume` is what they share, and `Alike` relates two
records that only differ in their handle. Reading the two records then delivers the same bytes and
keeps them alike, and resolving a path from alike directories ends alike, even when the two drivers
pick different slots (`openLoop_parallel`).

The one thing that could tell the two apart is a FAT lookup that reads past its cache, where the
window position lies. `InCache` says that no lookup in a trace did.
-/

namespace Aidos.Fat12

/-- Every byte that lookups in the trace looked at lies in `FatCache`. -/
def InCache (trace : List Event) : Prop :=
  ∀ i, Event.cacheByte i ∈ trace → i < fatCacheSize * sectorSize

theorem InCache.of_suffix {t t' : List Event} (h : InCache t') (hsub : t <:+ t') : InCache t :=
  fun i hmem ↦ h i (hsub.subset hmem)

/-- Two records that agree on everything but the handle. -/
structure Alike (fd fd' : FatFileData) : Prop where
  /-- Whether it is a directory. -/
  isDirectory : fd'.pub.isDirectory = fd.pub.isDirectory
  /-- The size. -/
  size : fd'.pub.size = fd.pub.size
  /-- The position. -/
  position : fd'.pub.position = fd.pub.position
  /-- Whether it is open. -/
  opened : fd'.opened = fd.opened
  /-- The first cluster. -/
  firstCluster : fd'.firstCluster = fd.firstCluster
  /-- The current cluster. -/
  currentCluster : fd'.currentCluster = fd.currentCluster
  /-- The current sector in the cluster. -/
  currentSectorInCluster : fd'.currentSectorInCluster = fd.currentSectorInCluster
  /-- The buffered sector. -/
  buffer : ∀ j < sectorSize, fd'.buffer j = fd.buffer j

theorem Alike.refl (fd : FatFileData) : Alike fd fd :=
  ⟨rfl, rfl, rfl, rfl, rfl, rfl, rfl, fun _ _ ↦ rfl⟩

namespace Fat12FileSystem

/-- The two drivers are mounted on the same volume, on devices whose reads succeed. -/
structure SameVolume (fs fs' : Fat12FileSystem) : Prop where
  /-- The boot sector in memory. -/
  bs : fs'.bs = fs.bs
  /-- The start of the data section. -/
  dataSectionLba : fs'.dataSectionLba = fs.dataSectionLba
  /-- The disk contents. -/
  sector : fs'.disk.sector = fs.disk.sector
  /-- The first device is faultless. -/
  reads : fs.disk.AllReadsSucceed
  /-- So is the second. -/
  reads' : fs'.disk.AllReadsSucceed
  /-- The first cache is valid. -/
  cacheValid : fs.CacheValid
  /-- So is the second. -/
  cacheValid' : fs'.CacheValid

variable {fs fs' fs₁ fs₁' : Fat12FileSystem} {r r' : FileRef} {refs refs' : Set FileRef}

theorem SameVolume.of_frame (h : SameVolume fs fs') (hf : Frame refs fs fs₁)
    (hf' : Frame refs' fs' fs₁') : SameVolume fs₁ fs₁' where
  bs := hf'.bs.trans (h.bs.trans hf.bs.symm)
  dataSectionLba := hf'.dataSectionLba.trans (h.dataSectionLba.trans hf.dataSectionLba.symm)
  sector := hf'.sector.trans (h.sector.trans hf.sector.symm)
  reads := hf.allReadsSucceed h.reads
  reads' := hf'.allReadsSucceed h.reads'
  cacheValid := hf.cacheValid h.reads h.cacheValid
  cacheValid' := hf'.cacheValid h.reads' h.cacheValid'

theorem SameVolume.clusterToLba (h : SameVolume fs fs') (c : UInt32) :
    fs'.clusterToLba c = fs.clusterToLba c := by
  rw [Fat12FileSystem.clusterToLba, Fat12FileSystem.clusterToLba, h.dataSectionLba, h.bs]

/-! ### Lookups -/

/-- A lookup that stayed in the cache did not straddle. -/
theorem not_straddles_of_inCache (hd : fs.disk.AllReadsSucceed) (hc : fs.CacheValid) {c : UInt32}
    (hin : InCache (fs.nextCluster c).2.trace) : ¬ fs.Straddles c := by
  rw [← cacheIndex_succ_lt_iff (not_fetchFails hd _) hc]
  refine hin _ ?_
  rw [nextCluster_trace]
  simp

/-- **Lookups that stay in their caches agree**, whatever the windows are. -/
theorem SameVolume.nextCluster (h : SameVolume fs fs') {c : UInt32}
    (hin : InCache (fs.nextCluster c).2.trace) (hin' : InCache (fs'.nextCluster c).2.trace) :
    (fs'.nextCluster c).1 = (fs.nextCluster c).1 := by
  rw [nextCluster_of_not_straddles (not_fetchFails h.reads _) h.cacheValid
      (not_straddles_of_inCache h.reads h.cacheValid hin),
    nextCluster_of_not_straddles (not_fetchFails h.reads' _) h.cacheValid'
      (not_straddles_of_inCache h.reads' h.cacheValid' hin')]
  have hbyte (k : ℕ) : fs'.fatByte k = fs.fatByte k := by
    rw [fatByte, fatByte, h.sector, h.bs]
  rw [hbyte, hbyte]

/-! ### Reading -/

/-- Alike records stay alike over a sector read from the same address. -/
theorem alike_readSector (h : SameVolume fs fs') (ha : Alike (fs.fileData r) (fs'.fileData r'))
    {lba lba' : UInt32} (hlba : lba' = lba) :
    Alike ((fs.readSector r lba).2.fileData r) ((fs'.readSector r' lba').2.fileData r') := by
  rw [(readSector_of_answers h.reads.answers r lba).2,
    (readSector_of_answers h.reads'.answers r' lba').2, hlba]
  refine { ha with buffer := fun j hj ↦ ?_ }
  dsimp only
  rw [BlockDevice.fill_one hj, BlockDevice.fill_one hj, h.sector]

/-- Alike records stay alike over the sector step. -/
theorem alike_stepCounters (h : SameVolume fs fs') (ha : Alike (fs.fileData r) (fs'.fileData r'))
    (hin : InCache (fs.stepCounters r).trace) (hin' : InCache (fs'.stepCounters r').trace) :
    Alike ((fs.stepCounters r).fileData r) ((fs'.stepCounters r').fileData r') := by
  rw [stepCounters] at hin hin' ⊢
  rw [stepCounters]
  rw [ha.currentSectorInCluster, ha.currentCluster, h.bs] at hin' ⊢
  by_cases hlast : (fs.fileData r).currentSectorInCluster + 1 ≥ fs.bs.sectorsPerCluster.toUInt32
  · rw [if_pos hlast] at hin hin' ⊢
    rw [if_pos hlast, fileData_setFileData_self, fileData_setFileData_self]
    rw [trace_setFileData] at hin hin'
    exact { ha with
      currentCluster := h.nextCluster hin hin'
      currentSectorInCluster := rfl }
  · rw [if_neg hlast, if_neg hlast, fileData_setFileData_self, fileData_setFileData_self]
    exact { ha with
      currentCluster := rfl
      currentSectorInCluster := rfl }

theorem trace_stepCounters_advance (fs : Fat12FileSystem) (r : FileRef) :
    (fs.stepCounters r).trace <:+ (fs.advance r).2.trace := by
  rw [advance_eq]
  dsimp only
  split
  · rw [trace_setFileData]
  · exact (frame_readSector _ _ _).trace

/-- Alike records stay alike over `advance`, and it goes on for both or for neither. -/
theorem alike_advance (h : SameVolume fs fs') (ha : Alike (fs.fileData r) (fs'.fileData r'))
    (hin : InCache (fs.advance r).2.trace) (hin' : InCache (fs'.advance r').2.trace) :
    (fs'.advance r').1 = (fs.advance r).1 ∧
      Alike ((fs.advance r).2.fileData r) ((fs'.advance r').2.fileData r') := by
  have hstep := alike_stepCounters h ha (hin.of_suffix (trace_stepCounters_advance fs r))
    (hin'.of_suffix (trace_stepCounters_advance fs' r'))
  have hvol := h.of_frame (frame_stepCounters fs r) (frame_stepCounters fs' r')
  rw [advance_eq, advance_eq]
  dsimp only
  generalize fs.stepCounters r = gs at hstep hvol ⊢
  generalize fs'.stepCounters r' = gs' at hstep hvol ⊢
  rw [hstep.currentCluster, hstep.currentSectorInCluster, hvol.clusterToLba]
  split
  · rw [fileData_setFileData_self, fileData_setFileData_self]
    exact ⟨rfl, { hstep with
      size := hstep.position
      currentCluster := rfl
      currentSectorInCluster := rfl }⟩
  · refine ⟨?_, alike_readSector hvol hstep rfl⟩
    rw [(readSector_of_answers hvol.reads.answers _ _).1,
      (readSector_of_answers hvol.reads'.answers _ _).1]

theorem alike_movePosition (ha : Alike (fs.fileData r) (fs'.fileData r')) (take : UInt32) :
    Alike ((fs.movePosition r take).fileData r) ((fs'.movePosition r' take).fileData r') := by
  rw [fileData_movePosition, fileData_movePosition]
  exact { ha with position := by dsimp only; rw [ha.position] }

/-- **Alike records are read alike.** -/
theorem readLoop_parallel (fuel : ℕ) :
    ∀ (n : UInt32) (out : List UInt8) {fs fs' : Fat12FileSystem}, SameVolume fs fs' →
      Alike (fs.fileData r) (fs'.fileData r') → InCache (readLoop r fuel n out fs).2.trace →
      InCache (readLoop r' fuel n out fs').2.trace →
      (readLoop r' fuel n out fs').1 = (readLoop r fuel n out fs).1 ∧
        Alike ((readLoop r fuel n out fs).2.fileData r)
          ((readLoop r' fuel n out fs').2.fileData r') := by
  induction fuel with
  | zero => exact fun n out fs fs' _ ha _ _ ↦ ⟨rfl, ha⟩
  | succ fuel ih =>
    intro n out fs fs' h ha hin hin'
    rcases Nat.eq_zero_or_pos n.toNat with hn | hn
    · rw [readLoop_of_eq_zero hn, readLoop_of_eq_zero hn]
      exact ⟨rfl, ha⟩
    rw [readLoop_succ r fuel hn] at hin ⊢
    rw [readLoop_succ r' fuel hn] at hin' ⊢
    dsimp only at hin hin' ⊢
    rw [ha.position] at hin' ⊢
    have hout : slice (fs'.fileData r').buffer ((fs.fileData r).pub.position % 512).toNat
        (min n (512 - (fs.fileData r).pub.position % 512)).toNat =
          slice (fs.fileData r).buffer ((fs.fileData r).pub.position % 512).toNat
            (min n (512 - (fs.fileData r).pub.position % 512)).toNat := by
      obtain ⟨hleft, htake, -⟩ := take_spec (n := n) (rfl : (fs.fileData r).pub.position.toNat = _)
      have hmod : ((fs.fileData r).pub.position % 512).toNat =
        (fs.fileData r).pub.position.toNat % 512 := UInt32.toNat_mod _ _
      have hlt := Nat.mod_lt (fs.fileData r).pub.position.toNat (show 0 < 512 by omega)
      refine slice_congr fun i hi ↦ ha.buffer _ ?_
      rw [sectorSize]
      omega
    rw [hout] at hin' ⊢
    have hmove := alike_movePosition ha (min n (512 - (fs.fileData r).pub.position % 512))
    have hvol := h.of_frame
      (frame_movePosition fs r (min n (512 - (fs.fileData r).pub.position % 512)))
      (frame_movePosition fs' r' (min n (512 - (fs.fileData r).pub.position % 512)))
    generalize min n (512 - (fs.fileData r).pub.position % 512) = take at hin hin' hmove hvol ⊢
    generalize out ++ slice (fs.fileData r).buffer ((fs.fileData r).pub.position % 512).toNat
      take.toNat = out at hin hin' ⊢
    generalize fs.movePosition r take = gs at hin hmove hvol ⊢
    generalize fs'.movePosition r' take = gs' at hin' hmove hvol ⊢
    by_cases hleft : 512 - (fs.fileData r).pub.position % 512 = take
    · rw [if_pos hleft] at hin hin' ⊢
      rw [if_pos hleft]
      -- what `advance` does is part of both traces
      have hadv : InCache (gs.advance r).2.trace := by
        refine hin.of_suffix ?_
        split
        · exact (frame_readLoop _ _ _ _ _).trace
        · exact List.suffix_refl _
      have hadv' : InCache (gs'.advance r').2.trace := by
        refine hin'.of_suffix ?_
        split
        · exact (frame_readLoop _ _ _ _ _).trace
        · exact List.suffix_refl _
      obtain ⟨hok, halike⟩ := alike_advance hvol hmove hadv hadv'
      rw [hok] at hin' ⊢
      by_cases hgo : (gs.advance r).1 = true
      · rw [if_pos hgo] at hin hin' ⊢
        rw [if_pos hgo]
        exact ih _ _ (hvol.of_frame (frame_advance gs r) (frame_advance gs' r')) halike hin hin'
      · rw [if_neg hgo, if_neg hgo]
        exact ⟨rfl, halike⟩
    · rw [if_neg hleft] at hin hin' ⊢
      rw [if_neg hleft]
      exact ih _ _ hvol hmove hin hin'

theorem read_parallel (h : SameVolume fs fs') (ht : fs.target r = r) (ht' : fs'.target r' = r')
    (ha : Alike (fs.fileData r) (fs'.fileData r')) {n : UInt32}
    (hin : InCache (fs.read r n).2.trace) (hin' : InCache (fs'.read r' n).2.trace) :
    (fs'.read r' n).1 = (fs.read r n).1 ∧
      Alike ((fs.read r n).2.fileData r) ((fs'.read r' n).2.fileData r') := by
  rw [read] at hin hin' ⊢
  rw [read]
  dsimp only at hin hin' ⊢
  rw [ht] at hin ⊢
  rw [ht', ha.opened, ha.isDirectory, ha.size, ha.position] at hin' ⊢
  by_cases hopen : (fs.fileData r).opened = true
  · rw [if_pos hopen] at hin hin' ⊢
    rw [if_pos hopen]
    exact readLoop_parallel _ _ _ h ha hin hin'
  · rw [if_neg hopen, if_neg hopen]
    exact ⟨rfl, ha⟩

/-! ### Directory scans -/

theorem trace_findFileLoop (current : FileRef) (name : List UInt8) (fuel : ℕ) :
    ∀ fs : Fat12FileSystem, fs.trace <:+ (findFileLoop current name fuel fs).2.trace := by
  induction fuel with
  | zero => exact fun fs ↦ List.suffix_refl _
  | succ fuel ih =>
    intro fs
    have hread := (frame_read fs current 32).trace
    rw [findFileLoop_succ]
    split
    · split
      · exact hread
      · exact hread.trans (ih _)
    · exact hread

/-- **Alike directories are scanned alike.** -/
theorem findFileLoop_parallel (name : List UInt8) (fuel : ℕ) :
    ∀ {fs fs' : Fat12FileSystem}, SameVolume fs fs' → fs.target r = r → fs'.target r' = r' →
      Alike (fs.fileData r) (fs'.fileData r') → InCache (findFileLoop r name fuel fs).2.trace →
      InCache (findFileLoop r' name fuel fs').2.trace →
      (findFileLoop r' name fuel fs').1 = (findFileLoop r name fuel fs).1 := by
  induction fuel with
  | zero => exact fun _ _ _ _ _ _ ↦ rfl
  | succ fuel ih =>
    intro fs fs' h ht ht' ha hin hin'
    rw [findFileLoop_succ] at hin hin' ⊢
    rw [findFileLoop_succ]
    have hframe := frame_read fs r 32
    have hframe' := frame_read fs' r' 32
    have hsame := sameFile_read fs r 32
    have hsame' := sameFile_read fs' r' 32
    rw [ht] at hsame
    rw [ht'] at hsame'
    have hread : InCache (fs.read r 32).2.trace := by
      refine hin.of_suffix ?_
      split
      · split
        · exact List.suffix_refl _
        · exact trace_findFileLoop _ _ _ _
      · exact List.suffix_refl _
    have hread' : InCache (fs'.read r' 32).2.trace := by
      refine hin'.of_suffix ?_
      split
      · split
        · exact List.suffix_refl _
        · exact trace_findFileLoop _ _ _ _
      · exact List.suffix_refl _
    obtain ⟨hout, halike⟩ := read_parallel h ht ht' ha hread hread'
    have hvol := h.of_frame hframe hframe'
    have hnext := target_of_sameFile ht hsame
    have hnext' := target_of_sameFile ht' hsame'
    rw [hout] at hin' ⊢
    by_cases hentry : (fs.read r 32).1.length = entrySize ∧
        FatDirectoryEntry.name ⟨(fs.read r 32).1⟩ 0 ≠ 0
    · rw [if_pos hentry] at hin hin' ⊢
      rw [if_pos hentry]
      by_cases hmatch : nameMatches name ⟨(fs.read r 32).1⟩ = true
      · rw [if_pos hmatch, if_pos hmatch]
      · rw [if_neg hmatch] at hin hin' ⊢
        rw [if_neg hmatch]
        exact ih hvol hnext hnext' halike hin hin'
    · rw [if_neg hentry, if_neg hentry]

/-! ### Opening -/

theorem isSome_freeHandle_iff :
    fs.freeHandle.isSome ↔ ∃ i < maxFileHandles, (fs.data.openedFiles i).opened = false := by
  rw [freeHandle, List.find?_isSome]
  constructor
  · rintro ⟨i, hi, hfree⟩
    exact ⟨i, List.mem_range.1 hi, by simpa using hfree⟩
  · rintro ⟨i, hi, hfree⟩
    exact ⟨i, List.mem_range.2 hi, by simpa using hfree⟩

/-- **An entry is opened alike**, in whatever slots are free. -/
theorem openEntry_parallel (h : SameVolume fs fs') {i j : ℕ} (hfree : fs.freeHandle = some i)
    (hfree' : fs'.freeHandle = some j) (e : FatDirectoryEntry) :
    ((fs.openEntry e).1 = none ∧ (fs'.openEntry e).1 = none) ∨
      ((fs.openEntry e).1 = some (.slot i) ∧ (fs'.openEntry e).1 = some (.slot j) ∧
        Alike ((fs.openEntry e).2.fileData (.slot i))
        ((fs'.openEntry e).2.fileData (.slot j))) := by
  have hvol : SameVolume (fs.fillSlot i e) (fs'.fillSlot j e) :=
    h.of_frame (frame_setFileData _ _ _) (frame_setFileData _ _ _)
  rw [openEntry_of_freeHandle hfree, openEntry_of_freeHandle hfree']
  split
  · exact Or.inl ⟨rfl, rfl⟩
  · right
    have hread := readSector_of_answers hvol.reads.answers (.slot i)
      ((fs.fillSlot i e).clusterToLba e.firstCluster)
    have hread' := readSector_of_answers hvol.reads'.answers (.slot j)
      ((fs'.fillSlot j e).clusterToLba e.firstCluster)
    have hfill : (fs.fillSlot i e).fileData (.slot i) = _ := fileData_setFileData_self
    have hfill' : (fs'.fillSlot j e).fileData (.slot j) = _ := fileData_setFileData_self
    rw [hvol.clusterToLba] at hread' ⊢
    generalize (fs.fillSlot i e).readSector (.slot i)
      ((fs.fillSlot i e).clusterToLba e.firstCluster) = read at hread ⊢
    generalize (fs'.fillSlot j e).readSector (.slot j)
      ((fs.fillSlot i e).clusterToLba e.firstCluster) = read' at hread' ⊢
    obtain ⟨ok, gs⟩ := read
    obtain ⟨ok', gs'⟩ := read'
    obtain ⟨rfl, hgs⟩ := hread
    obtain ⟨rfl, hgs'⟩ := hread'
    refine ⟨rfl, rfl, ?_⟩
    dsimp only
    rw [fileData_setFileData_self, fileData_setFileData_self]
    change gs.data.openedFiles i = _ at hgs
    change gs'.data.openedFiles j = _ at hgs'
    rw [hgs, hgs', hfill, hfill']
    exact
      { isDirectory := rfl
        size := rfl
        position := rfl
        opened := rfl
        firstCluster := rfl
        currentCluster := rfl
        currentSectorInCluster := rfl
        buffer := fun k hk ↦ by
          dsimp only
          rw [BlockDevice.fill_one hk, BlockDevice.fill_one hk, hvol.sector] }

/-- Closing the file leaves a handle free: it is the root and one is free already, or it is a slot.
-/
def Releases (fs : Fat12FileSystem) : FileRef → Prop
  | .root => fs.freeHandle.isSome
  | .slot i => i < maxFileHandles

theorem Releases.of_frame (h : Releases fs r) (hf : Frame {r} fs fs₁) : Releases fs₁ r := by
  cases r with
  | root =>
    rw [Releases, isSome_freeHandle_iff] at h ⊢
    obtain ⟨i, hi, hfree⟩ := h
    refine ⟨i, hi, ?_⟩
    rw [show fs₁.data.openedFiles i = fs.data.openedFiles i from
      hf.fileData (.slot i) (by simp)]
    exact hfree
  | slot i => exact h

theorem Releases.close (h : Releases fs r) (ht : fs.target r = r) :
    (fs.close r).freeHandle.isSome := by
  cases r with
  | root => exact h.of_frame (frame_close fs ht)
  | slot i =>
    rw [isSome_freeHandle_iff]
    refine ⟨i, h, ?_⟩
    rw [Fat12FileSystem.close, ht]
    simp [setFileData]

/-- The current directories of two resolutions: both missing, or alike. -/
inductive CurrentAlike (fs fs' : Fat12FileSystem) : Option FileRef → Option FileRef → Prop where
  /-- `OpenEntry` failed for both. -/
  | none : CurrentAlike fs fs' none none
  /-- Alike records under their own handles. -/
  | some {r r' : FileRef} (target : fs.target r = r) (target' : fs'.target r' = r')
    (alike : Alike (fs.fileData r) (fs'.fileData r')) (releases : Releases fs r)
    (releases' : Releases fs' r') : CurrentAlike fs fs' (some r) (some r')

end Fat12FileSystem

/-- Two outcomes of `open` that agree on everything but the handle. -/
inductive Opened.Same : Opened → Opened → Prop where
  /-- Neither has ended. -/
  | running : Same .running .running
  /-- Both are undefined. -/
  | undefined : Same .undefined .undefined
  /-- Both fail. -/
  | null : Same .null .null
  /-- Both find the same entry. -/
  | file (r r' : FileRef) (entry : Option FatDirectoryEntry) :
    Same (.file r entry) (.file r' entry)

namespace Fat12FileSystem

variable {fs fs' fs₁ fs₁' : Fat12FileSystem} {r r' : FileRef}

theorem trace_close (fs : Fat12FileSystem) (r : FileRef) : (fs.close r).trace = fs.trace := by
  rw [close]
  split <;> simp

theorem trace_afterScan {fuel n : ℕ}
    (ih : ∀ (current : Option FileRef) (entry : Option FatDirectoryEntry) (path : List UInt8)
      (fs : Fat12FileSystem), fs.trace <:+ (openLoop fuel n current entry path fs).2.trace)
    (file : FileRef) (isLast : Bool) (rest : List UInt8) (scan : Search × Fat12FileSystem) :
    scan.2.trace <:+ (afterScan fuel n file isLast rest scan).2.trace := by
  rcases scan with ⟨- | - | e, fs⟩
  · exact List.suffix_refl _
  · rw [afterScan, trace_close]
  · rw [afterScan]
    split
    · rw [trace_close]
    · refine List.IsSuffix.trans ?_ (ih _ _ _ _)
      rw [← trace_close fs file]
      exact (frame_openEntry _ e).trace

theorem trace_openLoop (fuel n : ℕ) :
    ∀ (current : Option FileRef) (entry : Option FatDirectoryEntry) (path : List UInt8)
      (fs : Fat12FileSystem), fs.trace <:+ (openLoop fuel n current entry path fs).2.trace := by
  induction n with
  | zero =>
    intro current entry path fs
    cases path <;> cases current <;> exact List.suffix_refl _
  | succ n ih =>
    intro current entry path fs
    cases path with
    | nil => cases current <;> exact List.suffix_refl _
    | cons c path =>
      cases current with
      | none =>
        rw [openLoop_none]
      | some file =>
        rw [openLoop_some]
        split
        · exact List.suffix_refl _
        · exact (trace_findFileLoop file _ fuel fs).trans (trace_afterScan ih _ _ _ _)

/-- Opening an entry leads to alike directories. -/
theorem currentAlike_openEntry (h : SameVolume fs fs') (hfree : fs.freeHandle.isSome)
    (hfree' : fs'.freeHandle.isSome) (e : FatDirectoryEntry) :
    CurrentAlike (fs.openEntry e).2 (fs'.openEntry e).2 (fs.openEntry e).1
      (fs'.openEntry e).1 := by
  obtain ⟨i, hi⟩ := Option.isSome_iff_exists.1 hfree
  obtain ⟨j, hj⟩ := Option.isSome_iff_exists.1 hfree'
  rcases openEntry_parallel h hi hj e with ⟨hnone, hnone'⟩ | ⟨hsome, hsome', halike⟩
  · rw [hnone, hnone']
    exact .none
  · obtain ⟨i', -, href, ht, -⟩ := openEntry_of_some (Prod.ext hsome rfl :
      fs.openEntry e = (some (.slot i), (fs.openEntry e).2))
    obtain ⟨j', -, href', ht', -⟩ := openEntry_of_some (Prod.ext hsome' rfl :
      fs'.openEntry e = (some (.slot j), (fs'.openEntry e).2))
    rw [← href] at ht
    rw [← href'] at ht'
    rw [hsome, hsome']
    exact .some ht ht' halike (freeHandle_spec hi).1 (freeHandle_spec hj).1

/-- **Paths are resolved alike** from alike directories, each with a handle to spare. -/
theorem openLoop_parallel (fuel n : ℕ) :
    ∀ {current current' : Option FileRef} (entry : Option FatDirectoryEntry) (path : List UInt8)
      {fs fs' : Fat12FileSystem}, SameVolume fs fs' → CurrentAlike fs fs' current current' →
      InCache (openLoop fuel n current entry path fs).2.trace →
      InCache (openLoop fuel n current' entry path fs').2.trace →
      Opened.Same (openLoop fuel n current entry path fs).1
        (openLoop fuel n current' entry path fs').1 := by
  induction n with
  | zero =>
    rintro current current' entry path fs fs' h (- | ⟨-, -, -, -, -⟩) - -
    · cases path
      · exact .null
      · exact .running
    · cases path
      · exact .file _ _ _
      · exact .running
  | succ n ih =>
    rintro current current' entry path fs fs' h hcur hin hin'
    cases path with
    | nil =>
      cases hcur with
      | none => exact .null
      | some => exact .file _ _ _
    | cons c path =>
      cases hcur with
      | none =>
        rw [openLoop_none, openLoop_none]
        exact .undefined
      | @some r r' ht ht' ha hrel hrel' =>
        rw [openLoop_some] at hin hin' ⊢
        rw [openLoop_some]
        generalize (nextName (c :: path)).1 = name at hin hin' ⊢
        by_cases hlong : maxPathSize ≤ name.length
        · rw [if_pos hlong, if_pos hlong]
          exact .undefined
        rw [if_neg hlong] at hin hin' ⊢
        rw [if_neg hlong]
        -- the scans agree, and closing leaves both with a free handle
        have hfound := findFileLoop_parallel name fuel h ht ht' ha
          (hin.of_suffix (trace_afterScan (trace_openLoop fuel n) _ _ _ _))
          (hin'.of_suffix (trace_afterScan (trace_openLoop fuel n) _ _ _ _))
        obtain ⟨hf, hsame⟩ := frame_findFileLoop r name fuel ht
        obtain ⟨hf', hsame'⟩ := frame_findFileLoop r' name fuel ht'
        have hscan := target_of_sameFile ht hsame
        have hscan' := target_of_sameFile ht' hsame'
        have hvol := h.of_frame hf hf'
        have hfree := (hrel.of_frame hf).close hscan
        have hfree' := (hrel'.of_frame hf').close hscan'
        generalize findFileLoop r name fuel fs = scan at hin hfound hscan hvol hfree ⊢
        generalize findFileLoop r' name fuel fs' = scan' at hin' hfound hscan' hvol hfree' ⊢
        obtain ⟨found, gs⟩ := scan
        obtain ⟨found', gs'⟩ := scan'
        obtain rfl : found' = found := hfound
        cases found' with
        | running => exact .running
        | notFound => exact .null
        | found e =>
          rw [afterScan] at hin hin' ⊢
          rw [afterScan]
          split at hin
          · next hfile =>
            rw [if_pos hfile, if_pos hfile]
            exact .null
          · next hfile =>
            rw [if_neg hfile] at hin' ⊢
            rw [if_neg hfile]
            have hclosed := hvol.of_frame (frame_close gs hscan) (frame_close gs' hscan')
            exact ih _ _ (hclosed.of_frame (frame_openEntry _ e) (frame_openEntry _ e))
              (currentAlike_openEntry hclosed hfree hfree' e) hin hin'

/-- **`open` is the same function** of the path for two drivers over one volume whose roots are
alike, when each has a handle to spare and their lookups stay in the cache. -/
theorem openPath_parallel (h : SameVolume fs fs') (ht : fs.target .root = .root)
    (ht' : fs'.target .root = .root) (ha : Alike (fs.fileData .root) (fs'.fileData .root))
    (hfree : fs.freeHandle.isSome) (hfree' : fs'.freeHandle.isSome) (fuel : ℕ)
    (path : List UInt8) (hin : InCache (fs.openPath fuel path).2.trace)
    (hin' : InCache (fs'.openPath fuel path).2.trace) :
    Opened.Same (fs.openPath fuel path).1 (fs'.openPath fuel path).1 :=
  openLoop_parallel fuel _ none _ h (.some ht ht' ha hfree hfree') hin hin'

end Fat12FileSystem

end Aidos.Fat12
