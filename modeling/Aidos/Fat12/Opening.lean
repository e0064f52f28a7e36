import Aidos.Fat12.Handles

/-!
# Opening files

What `open` touches and what it hands out. A path is resolved through the root and through
directories opened on the way, each in a free slot and closed again, so `open` changes nothing but
the root record and the slots that were free (`frame_openPath`): the files the caller holds are not
disturbed. A file that `open` returns comes out of a single `OpenEntry` at the end
(`openPath_of_file`), and `OpenEntry` leaves the handle in step at position zero
(`inStep_openEntry`).
-/

namespace Aidos.Fat12

/-- The first cluster of an entry, as `OpenEntry` puts it together. -/
def FatDirectoryEntry.firstCluster (e : FatDirectoryEntry) : UInt32 :=
  e.firstClusterLow.toUInt32 + (e.firstClusterHigh.toUInt32 <<< 16)

/-- A slot's number fits its handle. -/
theorem FileRef.ofHandle_slot :
    ∀ i < maxFileHandles, FileRef.ofHandle (UInt8.ofNat i) = .slot i := by
  decide

namespace Fat12FileSystem

variable {fs fs' : Fat12FileSystem} {ref : FileRef}

/-- The slots that are not open. -/
def freeSlots (fs : Fat12FileSystem) : Set FileRef :=
  {r | ∃ i, r = .slot i ∧ (fs.data.openedFiles i).opened = false}

/-- The records `open` may change: the root's, and the free slots'. -/
def freeRefs (fs : Fat12FileSystem) : Set FileRef :=
  {r | r = .root ∨ r ∈ fs.freeSlots}

theorem root_mem_freeRefs (fs : Fat12FileSystem) : .root ∈ fs.freeRefs := Or.inl rfl

theorem freeSlots_subset_freeRefs : fs.freeSlots ⊆ fs.freeRefs := fun _ ↦ Or.inr

theorem slot_not_mem_freeRefs {i : ℕ} (h : (fs.fileData (.slot i)).opened = true) :
    .slot i ∉ fs.freeRefs := by
  rintro (hroot | ⟨j, hj, hclosed⟩)
  · exact absurd hroot (by simp)
  · obtain rfl := FileRef.slot.inj hj
    rw [fileData, hclosed] at h
    exact absurd h (by simp)

theorem freeHandle_spec {i : ℕ} (h : fs.freeHandle = some i) :
    i < maxFileHandles ∧ (fs.data.openedFiles i).opened = false := by
  have hmem := List.mem_of_find?_eq_some h
  have hfree := List.find?_some h
  rw [List.mem_range] at hmem
  exact ⟨hmem, by simpa using hfree⟩

/-! ### Directory scans -/

/-- One entry of a scan. -/
theorem findFileLoop_succ (current : FileRef) (name : List UInt8) (fuel : ℕ)
    (fs : Fat12FileSystem) :
    findFileLoop current name (fuel + 1) fs =
      if (fs.read current 32).1.length = entrySize ∧
          FatDirectoryEntry.name ⟨(fs.read current 32).1⟩ 0 ≠ 0 then
        if nameMatches name ⟨(fs.read current 32).1⟩ = true then
          (.found ⟨(fs.read current 32).1⟩, (fs.read current 32).2)
        else findFileLoop current name fuel (fs.read current 32).2
      else (.notFound, (fs.read current 32).2) := by
  rw [findFileLoop, readEntry]
  dsimp only
  by_cases h : (fs.read current 32).1.length = entrySize ∧
      FatDirectoryEntry.name ⟨(fs.read current 32).1⟩ 0 ≠ 0
  · rw [if_pos h, if_pos h]
  · rw [if_neg h, if_neg h]

theorem target_of_frame {refs : Set FileRef} (h : fs.target ref = ref) (hf : Frame refs fs fs')
    (hr : ref ∉ refs) : fs'.target ref = ref := by
  rw [target, hf.fileData ref hr]
  exact h

/-- A scan of a directory touches only the directory's record, and keeps it the same file. -/
theorem frame_findFileLoop (current : FileRef) (name : List UInt8) (fuel : ℕ) :
    ∀ {fs : Fat12FileSystem}, fs.target current = current →
      Frame {current} fs (findFileLoop current name fuel fs).2 ∧
        SameFile (fs.fileData current)
        ((findFileLoop current name fuel fs).2.fileData current) := by
  induction fuel with
  | zero => exact fun {fs} _ ↦ ⟨Frame.refl _ fs, SameFile.refl _⟩
  | succ fuel ih =>
    intro fs htarget
    have hframe := frame_read_of_target htarget 32
    have hsame := sameFile_read_of_target htarget 32
    rw [findFileLoop_succ]
    split
    · split
      · exact ⟨hframe, hsame⟩
      · obtain ⟨hframe', hsame'⟩ := ih (target_of_sameFile htarget hsame)
        exact ⟨hframe.trans hframe', hsame.trans hsame'⟩
    · exact ⟨hframe, hsame⟩

/-! ### Closing -/

/-- Closing a handle touches only its record. -/
theorem frame_close (fs : Fat12FileSystem) {file : FileRef} (h : fs.target file = file) :
    Frame {file} fs (fs.close file) := by
  rw [close, h]
  cases file with
  | root => exact (frame_setFileData _ _ _).trans (frame_setFileData _ _ _)
  | slot i => exact frame_setFileData _ _ _

theorem handle_close (fs : Fat12FileSystem) {file : FileRef} (h : fs.target file = file) :
    ((fs.close file).fileData file).pub.handle = (fs.fileData file).pub.handle := by
  rw [close, h]
  cases file <;> simp [fileData, setFileData]

/-! ### Opening an entry -/

/-- The slot as `OpenEntry` fills it in. -/
def fillSlot (fs : Fat12FileSystem) (handle : ℕ) (e : FatDirectoryEntry) : Fat12FileSystem :=
  fs.setFileData (.slot handle)
    { fs.data.openedFiles handle with
      pub :=
        { handle := UInt8.ofNat handle
          isDirectory := e.isDirectory
          position := 0
          size := e.size }
      firstCluster := e.firstCluster
      currentCluster := e.firstCluster
      currentSectorInCluster := 0 }

theorem openEntry_of_freeHandle {handle : ℕ} (h : fs.freeHandle = some handle)
    (e : FatDirectoryEntry) :
    fs.openEntry e =
      if e.firstCluster < 2 ∨ e.firstCluster ≥ 0xFF8 then (none, fs.fillSlot handle e)
      else
        match (fs.fillSlot handle e).readSector (.slot handle)
            ((fs.fillSlot handle e).clusterToLba e.firstCluster) with
        | (false, fs) => (none, fs)
        | (true, fs) =>
          (some (.slot handle),
            fs.setFileData (.slot handle) { fs.data.openedFiles handle with opened := true }) := by
  rw [openEntry, h]
  rfl

/-- The slot when its first sector was asked for. -/
def fetchSlot (fs : Fat12FileSystem) (handle : ℕ) (e : FatDirectoryEntry) : Fat12FileSystem :=
  ((fs.fillSlot handle e).readSector (.slot handle)
    ((fs.fillSlot handle e).clusterToLba e.firstCluster)).2

/-- The slot when it is handed out. -/
def openSlot (fs : Fat12FileSystem) (handle : ℕ) (e : FatDirectoryEntry) : Fat12FileSystem :=
  (fs.fetchSlot handle e).setFileData (.slot handle)
    { (fs.fetchSlot handle e).fileData (.slot handle) with opened := true }

/-- What `OpenEntry` can do. -/
inductive OpensEntry (fs : Fat12FileSystem) (e : FatDirectoryEntry) :
    Option FileRef × Fat12FileSystem → Prop
  /-- No slot is free. -/
  | full : fs.freeHandle = none → OpensEntry fs e (none, fs)
  /-- The first cluster is not one of the data region. -/
  | refused {i : ℕ} : fs.freeHandle = some i → (e.firstCluster < 2 ∨ e.firstCluster ≥ 0xFF8) →
      OpensEntry fs e (none, fs.fillSlot i e)
  /-- The device does not answer. -/
  | failed {i : ℕ} : fs.freeHandle = some i → ¬ (e.firstCluster < 2 ∨ e.firstCluster ≥ 0xFF8) →
      ¬ fs.disk.Answers → OpensEntry fs e (none, fs.fetchSlot i e)
  /-- The slot is handed out. -/
  | opened {i : ℕ} : fs.freeHandle = some i → ¬ (e.firstCluster < 2 ∨ e.firstCluster ≥ 0xFF8) →
      fs.disk.Answers → OpensEntry fs e (some (.slot i), fs.openSlot i e)

/-- **`OpenEntry` ends in one of these ways.** -/
theorem opensEntry (fs : Fat12FileSystem) (e : FatDirectoryEntry) :
    fs.OpensEntry e (fs.openEntry e) := by
  rcases hfree : fs.freeHandle with - | i
  · rw [openEntry, hfree]
    exact .full hfree
  have hanswers : (fs.fillSlot i e).disk.Answers ↔ fs.disk.Answers := Iff.rfl
  rw [openEntry_of_freeHandle hfree]
  split
  · next hbad => exact .refused hfree hbad
  next hgood =>
  split
  · next fs₁ hread =>
    have hnot : ¬ fs.disk.Answers := by
      intro hans
      have htrue := (readSector_of_answers (hanswers.2 hans) (.slot i)
        ((fs.fillSlot i e).clusterToLba e.firstCluster)).1
      rw [hread] at htrue
      exact absurd htrue (by simp)
    obtain rfl : fs.fetchSlot i e = fs₁ := congrArg Prod.snd hread
    exact .failed hfree hgood hnot
  · next fs₁ hread =>
    have hans : fs.disk.Answers := by
      by_contra hnot
      have hfalse := (readSector_of_not_answers (hanswers.not.2 hnot) (.slot i)
        ((fs.fillSlot i e).clusterToLba e.firstCluster)).1
      rw [hread] at hfalse
      exact absurd hfalse (by simp)
    obtain rfl : fs.fetchSlot i e = fs₁ := congrArg Prod.snd hread
    exact .opened hfree hgood hans

section Slot

variable (fs : Fat12FileSystem) (i : ℕ) (e : FatDirectoryEntry)

theorem frame_fillSlot : Frame {.slot i} fs (fs.fillSlot i e) := frame_setFileData _ _ _

theorem frame_fetchSlot : Frame {.slot i} fs (fs.fetchSlot i e) :=
  (fs.frame_fillSlot i e).trans (frame_readSector _ _ _)

theorem frame_openSlot : Frame {.slot i} fs (fs.openSlot i e) :=
  (fs.frame_fetchSlot i e).trans (frame_setFileData _ _ _)

theorem sameFile_fetchSlot :
    SameFile ((fs.fillSlot i e).fileData (.slot i)) ((fs.fetchSlot i e).fileData (.slot i)) :=
  sameFile_readSector _ _ _

theorem fileData_openSlot : (fs.openSlot i e).fileData (.slot i) =
    { (fs.fetchSlot i e).fileData (.slot i) with opened := true } :=
  fileData_setFileData_self

variable {fs i} in
/-- The slot is closed until it is handed out. -/
theorem opened_fillSlot (hfree : fs.freeHandle = some i) :
    ((fs.fillSlot i e).fileData (.slot i)).opened = false := by
  rw [fillSlot, fileData_setFileData_self]
  exact (freeHandle_spec hfree).2

end Slot

/-- `OpenEntry` touches only the free slot it picks. -/
theorem frame_openEntry (fs : Fat12FileSystem) (e : FatDirectoryEntry) :
    Frame {r | ∃ i, fs.freeHandle = some i ∧ r = .slot i} fs (fs.openEntry e).2 := by
  have hmem {i : ℕ} (hfree : fs.freeHandle = some i) :
      {FileRef.slot i} ⊆ {r | ∃ j, fs.freeHandle = some j ∧ r = FileRef.slot j} :=
    fun r hr ↦ ⟨i, hfree, hr⟩
  have h := fs.opensEntry e
  generalize fs.openEntry e = result at h ⊢
  cases h with
  | full => exact Frame.refl _ fs
  | refused hfree => exact (fs.frame_fillSlot _ e).mono (hmem hfree)
  | failed hfree => exact (fs.frame_fetchSlot _ e).mono (hmem hfree)
  | opened hfree => exact (fs.frame_openSlot _ e).mono (hmem hfree)

/-- A file that `OpenEntry` returns is the free slot it picked, which now is open under its own
handle. -/
theorem openEntry_of_some {e : FatDirectoryEntry} (h : fs.openEntry e = (some ref, fs')) :
    ∃ i, fs.freeHandle = some i ∧ ref = .slot i ∧ fs'.target (.slot i) = .slot i ∧
      (fs'.data.openedFiles i).opened = true := by
  have hresult := fs.opensEntry e
  rw [h] at hresult
  cases hresult with
  | @opened i hfree =>
    have hrecord := fs.fileData_openSlot i e
    refine ⟨i, hfree, rfl, ?_, congrArg FatFileData.opened hrecord⟩
    have hhandle : ((fs.fetchSlot i e).fileData (.slot i)).pub.handle = UInt8.ofNat i := by
      refine (fs.sameFile_fetchSlot i e).handle.trans ?_
      rw [fillSlot, fileData_setFileData_self]
    rw [target, hrecord]
    dsimp only
    rw [hhandle]
    exact FileRef.ofHandle_slot i (freeHandle_spec hfree).1

/-- The record of the slot `OpenEntry` picked is marked open when it hands it out, and only then. -/
theorem opened_picked {i : ℕ} (hfree : fs.freeHandle = some i) (e : FatDirectoryEntry) :
    ((fs.openEntry e).2.fileData (.slot i)).opened = (fs.openEntry e).1.isSome := by
  have h := fs.opensEntry e
  generalize fs.openEntry e = result at h ⊢
  cases h with
  | full hnone => exact absurd (hnone.symm.trans hfree) (by simp)
  | refused hpicked =>
    obtain rfl := Option.some.inj (hpicked.symm.trans hfree)
    exact opened_fillSlot e hfree
  | failed hpicked =>
    obtain rfl := Option.some.inj (hpicked.symm.trans hfree)
    exact (fs.sameFile_fetchSlot _ e).opened.trans (opened_fillSlot e hfree)
  | opened hpicked =>
    obtain rfl := Option.some.inj (hpicked.symm.trans hfree)
    exact congrArg FatFileData.opened (fs.fileData_openSlot _ e)

/-- The record that `OpenEntry` leaves when it returns a file: the buffer holds the first sector. -/
theorem fileData_openEntry {e : FatDirectoryEntry} {i : ℕ}
    (h : fs.openEntry e = (some (.slot i), fs')) :
    ∃ buffer, (∀ j < sectorSize,
        buffer j = fs.disk.sector (fs.clusterToLba e.firstCluster).toNat j) ∧
      fs'.fileData (.slot i) =
        { buffer := buffer
          pub :=
            { handle := UInt8.ofNat i
              isDirectory := e.isDirectory
              size := e.size
              position := 0 }
          opened := true
          firstCluster := e.firstCluster
          currentCluster := e.firstCluster
          currentSectorInCluster := 0 } := by
  have hresult := fs.opensEntry e
  rw [h] at hresult
  cases hresult with
  | opened _ _ hans =>
    have hans' : (fs.fillSlot i e).disk.Answers := hans
    have hrecord : (fs.fetchSlot i e).fileData (.slot i) = _ :=
      (readSector_of_answers hans' (.slot i) ((fs.fillSlot i e).clusterToLba e.firstCluster)).2
    rw [fileData_openSlot, hrecord, fillSlot, fileData_setFileData_self]
    refine ⟨_, fun j hj ↦ ?_, rfl⟩
    have hframe := fs.frame_fillSlot i e
    dsimp only
    rw [← fillSlot, BlockDevice.fill_one hj, hframe.sector, hframe.clusterToLba]

/-- **`OpenEntry` puts the handle at the start** of the entry's file, on any device: it has fetched
the first sector. -/
theorem placed_openEntry {disk : BlockDevice} {b : FatBootSector}
    {C : ClusterChain (diskFat disk b)} (ha : detectAccepts b = true) (hs : Volume disk b fs)
    {e : FatDirectoryEntry} (hfile : e.isDirectory = false)
    (hC : C.Covers e.firstCluster e.size.toNat) {i : ℕ}
    (h : fs.openEntry e = (some (.slot i), fs')) :
    Placed disk b (C.stream e.firstCluster e.size.toNat) (.slot i) 0 fs' := by
  obtain ⟨j, -, href, htarget, -⟩ := openEntry_of_some h
  obtain rfl := FileRef.slot.inj href
  obtain ⟨buffer, hbuffer, hrecord⟩ := fileData_openEntry h
  have hframe := frame_openEntry fs e
  rw [h] at hframe
  refine ⟨hs.of_frame hframe, htarget, ?_⟩
  have hcluster : e.firstCluster = C.cluster (0 / sectorSize / spc b) := by
    rw [Nat.zero_div, Nat.zero_div]
    exact hC.cluster_zero.symm
  have hsector : (0 : UInt32).toNat = 0 / sectorSize % spc b := by
    rw [Nat.zero_div, Nat.zero_mod]
    rfl
  have hlt : 0 / sectorSize / spc b < C.clusters.length := by
    rw [Nat.zero_div, Nat.zero_div]
    exact hC.length_pos
  have hlba : (fs.clusterToLba e.firstCluster).toNat = C.sectorLba (0 / sectorSize) := by
    rw [← toNat_clusterToLba_chain ha hs hlt hcluster hsector, UInt32.add_zero]
  rw [hrecord]
  exact
    { opened := rfl
      isDirectory := hfile
      firstCluster := rfl
      size := rfl
      position := rfl
      le := Nat.zero_le _
      cluster := fun _ ↦ hcluster
      sector := fun _ ↦ hsector
      buffer := fun _ j hj ↦ by
        dsimp only
        rw [hbuffer j hj, hlba, hs.sector]
        rfl }

/-- On a faultless device it puts the handle in step. -/
theorem inStep_openEntry {disk : BlockDevice} {b : FatBootSector}
    {C : ClusterChain (diskFat disk b)} (ha : detectAccepts b = true) (hs : Serves disk b fs)
    {e : FatDirectoryEntry} (hfile : e.isDirectory = false)
    (hC : C.Covers e.firstCluster e.size.toNat) {i : ℕ}
    (h : fs.openEntry e = (some (.slot i), fs')) :
    InStep disk b (C.stream e.firstCluster e.size.toNat) (.slot i) 0 fs' := by
  have hframe := frame_openEntry fs e
  rw [h] at hframe
  exact (placed_openEntry ha hs.volume hfile hC h).inStep (hs.of_frame hframe)

/-! ### Resolving a path -/

/-- What the loop of `open` does with the result of a scan. -/
def afterScan (fuel n : ℕ) (file : FileRef) (isLast : Bool) (rest : List UInt8) :
    Search × Fat12FileSystem → Opened × Fat12FileSystem
  | (.running, fs) => (.running, fs)
  | (.notFound, fs) => (.null, fs.close file)
  | (.found e, fs) =>
    if (!isLast && !e.isDirectory) = true then (.null, fs.close file)
    else openLoop fuel n ((fs.close file).openEntry e).1 (some e) rest
      ((fs.close file).openEntry e).2

/-- One iteration of the loop of `open`. -/
theorem openLoop_some (fuel n : ℕ) (file : FileRef) (entry : Option FatDirectoryEntry) (c : UInt8)
    (path : List UInt8) (fs : Fat12FileSystem) :
    openLoop fuel (n + 1) (some file) entry (c :: path) fs =
      if maxPathSize ≤ (nextName (c :: path)).1.length then (.undefined, fs)
      else afterScan fuel n file (nextName (c :: path)).2.2 (nextName (c :: path)).2.1
        (findFileLoop file (nextName (c :: path)).1 fuel fs) := by
  rw [openLoop]
  rcases nextName (c :: path) with ⟨name, rest, isLast⟩
  dsimp only [findFile]
  split
  · rfl
  · rcases findFileLoop file name fuel fs with ⟨- | - | e, gs⟩ <;> rfl

theorem openLoop_none (fuel n : ℕ) (entry : Option FatDirectoryEntry) (c : UInt8)
    (path : List UInt8) (fs : Fat12FileSystem) :
    openLoop fuel (n + 1) none entry (c :: path) fs = (.undefined, fs) := by
  rw [openLoop]
  split
  split <;> rfl

/-- What the loop of `open` keeps: it only changes what it may, and its current directory is one of
the records it may change. -/
structure Resolving (refs : Set FileRef) (fs₀ : Fat12FileSystem) (current : Option FileRef)
    (fs : Fat12FileSystem) : Prop where
  /-- Only the allowed records changed. -/
  frame : Frame refs fs₀ fs
  /-- The root record keeps its handle. -/
  root : fs.target .root = .root
  /-- The current directory is an allowed record under its own handle. -/
  current : ∀ file, current = some file → file ∈ refs ∧ fs.target file = file

theorem Resolving.step {refs : Set FileRef} {fs₀ fs₁ : Fat12FileSystem} {file : FileRef}
    (h : Resolving refs fs₀ (some file) fs) (hf : Frame {file} fs fs₁)
    (hhandle : (fs₁.fileData file).pub.handle = (fs.fileData file).pub.handle) :
    Resolving refs fs₀ (some file) fs₁ := by
  obtain ⟨hmem, htarget⟩ := h.current file rfl
  have htarget' : fs₁.target file = file := by
    rw [target, hhandle]
    exact htarget
  refine ⟨h.frame.trans (hf.mono (Set.singleton_subset_iff.2 hmem)), ?_, ?_⟩
  · by_cases hroot : file = .root
    · rwa [hroot] at htarget'
    · exact target_of_frame h.root hf (Ne.symm hroot)
  · rintro r hr
    obtain rfl := Option.some.inj hr
    exact ⟨hmem, htarget'⟩

theorem Resolving.close {refs : Set FileRef} {fs₀ : Fat12FileSystem} {file : FileRef}
    (h : Resolving refs fs₀ (some file) fs) : Resolving refs fs₀ (some file) (fs.close file) :=
  have htarget := (h.current file rfl).2
  h.step (frame_close fs htarget) (handle_close fs htarget)

/-- `OpenEntry` picks a slot that was free from the start. -/
theorem Resolving.openEntry {refs : Set FileRef} {fs₀ : Fat12FileSystem} {file : Option FileRef}
    (hrefs : fs₀.freeSlots ⊆ refs) (h : Resolving refs fs₀ file fs) (e : FatDirectoryEntry) :
    Resolving refs fs₀ (fs.openEntry e).1 (fs.openEntry e).2 := by
  have hfree {i : ℕ} (hi : fs.freeHandle = some i) : FileRef.slot i ∈ refs := by
    by_contra hnot
    have hsame := h.frame.fileData _ hnot
    refine hnot (hrefs ⟨i, rfl, ?_⟩)
    rw [show fs₀.data.openedFiles i = fs.data.openedFiles i from hsame.symm]
    exact (freeHandle_spec hi).2
  have hframe := frame_openEntry fs e
  refine ⟨h.frame.trans (hframe.mono ?_), ?_, ?_⟩
  · rintro r ⟨i, hi, rfl⟩
    exact hfree hi
  · refine target_of_frame h.root hframe ?_
    rintro ⟨i, -, hroot⟩
    exact absurd hroot (by simp)
  · intro r hr
    obtain ⟨i, hi, rfl, htarget, -⟩ := openEntry_of_some (Prod.ext hr rfl :
      fs.openEntry e = (some r, (fs.openEntry e).2))
    exact ⟨hfree hi, htarget⟩

/-- Where the entry that the loop remembers comes from: the last `OpenEntry`. -/
def LastOpened (refs : Set FileRef) (fs₀ : Fat12FileSystem) (current : Option FileRef)
    (entry : Option FatDirectoryEntry) (fs : Fat12FileSystem) : Prop :=
  ∀ e, entry = some e → ∃ fs₁, Frame refs fs₀ fs₁ ∧ fs₁.openEntry e = (current, fs)

/-- **The loop of `open`** keeps to the records it may change, and the file it returns comes out of
`OpenEntry`. -/
theorem openLoop_spec {refs : Set FileRef} {fs₀ : Fat12FileSystem}
    (hrefs : fs₀.freeSlots ⊆ refs) (fuel n : ℕ) :
    ∀ {current : Option FileRef} {entry : Option FatDirectoryEntry} {path : List UInt8}
      {fs : Fat12FileSystem}, Resolving refs fs₀ current fs → LastOpened refs fs₀ current entry fs →
      Frame refs fs₀ (openLoop fuel n current entry path fs).2 ∧
        (openLoop fuel n current entry path fs).2.target .root = .root ∧
        ∀ file e, (openLoop fuel n current entry path fs).1 = .file file (some e) →
          ∃ fs₁, Frame refs fs₀ fs₁ ∧
            fs₁.openEntry e = (some file, (openLoop fuel n current entry path fs).2) := by
  induction n with
  | zero =>
    intro current entry path fs h hlast
    cases path with
    | nil =>
      cases current with
      | none => exact ⟨h.frame, h.root, fun _ _ hfile ↦ absurd hfile (by simp [openLoop])⟩
      | some file =>
        refine ⟨h.frame, h.root, fun r e hfile ↦ ?_⟩
        obtain ⟨rfl, rfl⟩ := Opened.file.inj hfile
        exact hlast e rfl
    | cons c path => exact ⟨h.frame, h.root, fun _ _ hfile ↦ absurd hfile (by simp [openLoop])⟩
  | succ n ih =>
    intro current entry path fs h hlast
    cases path with
    | nil =>
      cases current with
      | none => exact ⟨h.frame, h.root, fun _ _ hfile ↦ absurd hfile (by simp [openLoop])⟩
      | some file =>
        refine ⟨h.frame, h.root, fun r e hfile ↦ ?_⟩
        obtain ⟨rfl, rfl⟩ := Opened.file.inj hfile
        exact hlast e rfl
    | cons c path =>
      cases current with
      | none =>
        rw [openLoop_none]
        exact ⟨h.frame, h.root, fun _ _ hfile ↦ absurd hfile (by simp)⟩
      | some file =>
        rw [openLoop_some]
        split
        · exact ⟨h.frame, h.root, fun _ _ hfile ↦ absurd hfile (by simp)⟩
        obtain ⟨hmem, htarget⟩ := h.current file rfl
        obtain ⟨hframe, hsame⟩ :=
          frame_findFileLoop file (nextName (c :: path)).1 fuel htarget
        have hscan := h.step hframe hsame.handle
        clear hframe hsame
        generalize findFileLoop file (nextName (c :: path)).1 fuel fs = scan at hscan ⊢
        rcases scan with ⟨- | - | e, fs₁⟩
        · exact ⟨hscan.frame, hscan.root, fun _ _ hfile ↦ absurd hfile (by simp [afterScan])⟩
        · have hclose := hscan.close
          exact ⟨hclose.frame, hclose.root, fun _ _ hfile ↦ absurd hfile (by simp [afterScan])⟩
        · have hclose := hscan.close
          rw [afterScan]
          split
          · exact ⟨hclose.frame, hclose.root, fun _ _ hfile ↦ absurd hfile (by simp)⟩
          · refine ih (hclose.openEntry hrefs e) ?_
            intro e' he'
            obtain rfl := Option.some.inj he'
            exact ⟨_, hclose.frame, rfl⟩

section OpenPath

variable (hroot : fs.target .root = .root) (fuel : ℕ) (path : List UInt8)

include hroot

theorem resolving_root : Resolving fs.freeRefs fs (some .root) fs where
  frame := Frame.refl _ fs
  root := hroot
  current _ hr := Option.some.inj hr ▸ ⟨root_mem_freeRefs fs, hroot⟩

/-- **`open` changes only the root record and free slots**: the files the caller holds are not
disturbed. -/
theorem frame_openPath : Frame fs.freeRefs fs (fs.openPath fuel path).2 :=
  (openLoop_spec freeSlots_subset_freeRefs fuel _ (resolving_root hroot)
    (fun _ h ↦ absurd h (by simp))).1

theorem target_root_openPath : (fs.openPath fuel path).2.target .root = .root :=
  (openLoop_spec freeSlots_subset_freeRefs fuel _ (resolving_root hroot)
    (fun _ h ↦ absurd h (by simp))).2.1

/-- A file that `open` returns comes out of `OpenEntry`. -/
theorem openPath_of_file {file : FileRef} {e : FatDirectoryEntry}
    (h : (fs.openPath fuel path).1 = .file file (some e)) :
    ∃ fs₁, Frame fs.freeRefs fs fs₁ ∧
      fs₁.openEntry e = (some file, (fs.openPath fuel path).2) :=
  (openLoop_spec freeSlots_subset_freeRefs fuel _ (resolving_root hroot)
    (fun _ h ↦ absurd h (by simp))).2.2 file e h

end OpenPath

end Fat12FileSystem

end Aidos.Fat12
