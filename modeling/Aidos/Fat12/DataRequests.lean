import Aidos.Fat12.DataRegion

/-!
# Data requests of a session

`open` works through `OpenEntry`, `read` and `close`, so all data sectors of a session are requested
by calls of `OpenEntry`, `read` and `seek`, a `DataCall` each. `Session.calls` lists the ones that a
call of the session makes, with the states they are made in, and `Session.step_makes` says that
there are no others.

A run that is careful keeps every open file on the volume, and all its data requests in the data
region (`Session.calls_inRegion`): it opens no entry whose chain leaves the volume, and reads from
no directory behind the end of its chain.
-/

namespace Aidos.Fat12

/-- A call of one of the functions that request data sectors. -/
inductive DataCall where
  /-- `OpenEntry(entry)`. -/
  | openEntry (e : FatDirectoryEntry)
  /-- `read(file, n)`. -/
  | read (file : FileRef) (n : UInt32)
  /-- `seek(file, position)`. -/
  | seek (file : FileRef) (position : UInt32)
  deriving DecidableEq

deriving instance DecidableEq for Event

open Fat12FileSystem

namespace DataCall

/-- The driver after the call. -/
def exec (fs : Fat12FileSystem) : DataCall → Fat12FileSystem
  | .openEntry e => (fs.openEntry e).2
  | .read file n => (fs.read file n).2
  | .seek file position => (fs.seek file position).2

/-- The call does not work on the root directory. -/
def OnFile : DataCall → Prop
  | .openEntry _ => True
  | .read file _ => file ≠ .root
  | .seek file _ => file ≠ .root

/-- Every sector the call requests is a sector of a cluster of the volume, in the data region. -/
def InRegion (fs : Fat12FileSystem) (call : DataCall) : Prop :=
  ∀ evs, (call.exec fs).trace = evs ++ fs.trace → ∀ lba, Event.sectorRead lba ∈ evs →
    fs.dataSectionLba.toNat ≤ lba ∧ lba < fs.bs.totalSectors16.toNat ∧ DataLba fs.bs lba

/-- **The condition**: an entry that `OpenEntry` lets through has a chain that stays in the volume,
and a read of a file or subdirectory does not go on behind the end of its chain. -/
def Careful (disk : BlockDevice) (b : FatBootSector) (fs : Fat12FileSystem) : DataCall → Prop
  | .openEntry e => Accepts e → StaysInVolume (diskFat disk b) b e.firstCluster
  | .read file n => file ≠ .root → ¬ fs.ReadsPastEnd file n
  | .seek _ _ => True

end DataCall

/-! ### The calls of a session -/

namespace Fat12FileSystem

/-- The calls that a directory scan makes. -/
def scanCalls (current : FileRef) (name : List UInt8) :
    ℕ → Fat12FileSystem → List (Fat12FileSystem × DataCall)
  | 0, _ => []
  | fuel + 1, fs =>
    (fs, .read current 32) ::
      match fs.readEntry current with
      | (none, _) => []
      | (some e, fs) => if nameMatches name e then [] else scanCalls current name fuel fs

/-- The calls that the loop of `open` makes. -/
def openCalls (fuel : ℕ) :
    ℕ → Option FileRef → List UInt8 → Fat12FileSystem → List (Fat12FileSystem × DataCall)
  | _, _, [], _ => []
  | 0, _, _ :: _, _ => []
  | _ + 1, none, _ :: _, _ => []
  | n + 1, some file, c :: path, fs =>
    let (name, rest, isLast) := nextName (c :: path)
    if maxPathSize ≤ name.length then []
    else
      scanCalls file name fuel fs ++
        match fs.findFile fuel file name with
        | (.found e, fs) =>
          let fs := fs.close file
          if !isLast && !e.isDirectory then []
          else (fs, .openEntry e) :: openCalls fuel n (fs.openEntry e).1 rest (fs.openEntry e).2
        | _ => []

end Fat12FileSystem

/-- The calls that a call of the session makes, with the states they are made in. -/
def Session.calls (s : Session) : Op → List (Fat12FileSystem × DataCall)
  | .openFile path fuel =>
    openCalls fuel (relativePath path).length (some .root) (relativePath path) s.fs
  | .read i n => if (s.handles i).isSome then [(s.fs, .read (.slot i) n)] else []
  | .seek i position => if (s.handles i).isSome then [(s.fs, .seek (.slot i) position)] else []
  | .close _ => []
  | .closeRoot => []

namespace Fat12FileSystem

variable {fs fs' fs'' : Fat12FileSystem} {calls calls' : List (Fat12FileSystem × DataCall)}

/-- A pointer that the driver has handed out: the root, or a slot under its own handle. -/
structure Names (fs : Fat12FileSystem) (file : FileRef) : Prop where
  /-- The record has its own handle. -/
  target : fs.target file = file
  /-- A slot is one of the table. -/
  lt : ∀ i, file = .slot i → i < maxFileHandles

/-- The call is made with a pointer that the driver has handed out. -/
def Takes (fs : Fat12FileSystem) : DataCall → Prop
  | .openEntry _ => True
  | .read file _ => fs.Names file
  | .seek file _ => fs.Names file

/-- **Runs of the driver.** From `fs` to `fs'` it makes these calls, and closes files. -/
inductive Makes : Fat12FileSystem → List (Fat12FileSystem × DataCall) → Fat12FileSystem → Prop
  /-- Nothing is called. -/
  | done {fs : Fat12FileSystem} : Makes fs [] fs
  /-- A file is closed. -/
  | close {fs fs' : Fat12FileSystem} {calls : List (Fat12FileSystem × DataCall)} {file : FileRef} :
      fs.Names file → Makes (fs.close file) calls fs' → Makes fs calls fs'
  /-- A call is made. -/
  | call {fs fs' : Fat12FileSystem} {calls : List (Fat12FileSystem × DataCall)} {c : DataCall} :
      fs.Takes c → Makes (c.exec fs) calls fs' → Makes fs ((fs, c) :: calls) fs'

theorem Makes.append (h : Makes fs calls fs') (h' : Makes fs' calls' fs'') :
    Makes fs (calls ++ calls') fs'' := by
  induction h with
  | done => exact h'
  | close hnames _ ih => exact .close hnames (ih h')
  | call htakes _ ih => exact .call htakes (ih h')

/-- Reading and seeking leave the pointer what it is. -/
theorem Names.of_sameFile {file : FileRef} (h : fs.Names file)
    (hsame : SameFile (fs.fileData file) (fs'.fileData file)) : fs'.Names file :=
  ⟨target_of_sameFile h.target hsame, h.lt⟩

/-- A file that `OpenEntry` returns. -/
theorem names_openEntry {e : FatDirectoryEntry} {file : FileRef}
    (h : (fs.openEntry e).1 = some file) : (fs.openEntry e).2.Names file := by
  obtain ⟨i, hfree, rfl, htarget, -⟩ := openEntry_of_some (Prod.ext h rfl :
    fs.openEntry e = (some file, (fs.openEntry e).2))
  refine ⟨htarget, fun j hj ↦ ?_⟩
  obtain rfl := FileRef.slot.inj hj
  exact (freeHandle_spec hfree).1

/-- A directory scan makes its calls, and no others. -/
theorem findFile_makes {file : FileRef} (name : List UInt8) (fuel : ℕ) :
    ∀ {fs : Fat12FileSystem}, fs.Names file →
      Makes fs (scanCalls file name fuel fs) (fs.findFile fuel file name).2 := by
  induction fuel with
  | zero => exact fun _ ↦ .done
  | succ fuel ih =>
    intro fs h
    have hnext : (fs.read file 32).2.Names file := by
      have hsame := sameFile_read_of_target h.target 32
      exact h.of_sameFile hsame
    have hread : (fs.readEntry file).2 = (fs.read file 32).2 := rfl
    rw [scanCalls, findFile, findFileLoop]
    refine .call h ?_
    show Makes (fs.read file 32).2 _ _
    rw [← hread] at hnext ⊢
    generalize fs.readEntry file = entry at hnext ⊢
    obtain ⟨- | e, fs₁⟩ := entry
    · exact .done
    · dsimp only
      split
      · exact .done
      · exact ih hnext

/-- **`open` makes its calls, and no others.** -/
theorem openLoop_makes (fuel n : ℕ) :
    ∀ {current : Option FileRef} {entry : Option FatDirectoryEntry} {path : List UInt8}
      {fs : Fat12FileSystem}, (∀ file, current = some file → fs.Names file) →
      Makes fs (openCalls fuel n current path fs) (openLoop fuel n current entry path fs).2 := by
  induction n with
  | zero =>
    intro current entry path fs _
    cases path with
    | nil => cases current <;> exact .done
    | cons c path => exact .done
  | succ n ih =>
    intro current entry path fs h
    cases path with
    | nil => cases current <;> exact .done
    | cons c path =>
      cases current with
      | none =>
        rw [openLoop_none]
        exact .done
      | some file =>
        have hnames := h file rfl
        rw [openLoop_some, openCalls]
        dsimp only
        split
        · exact .done
        have hscan := findFile_makes (nextName (c :: path)).1 fuel hnames
        have hsame := (frame_findFileLoop file (nextName (c :: path)).1 fuel hnames.target).2
        rw [findFile] at hscan ⊢
        refine hscan.append ?_
        generalize findFileLoop file (nextName (c :: path)).1 fuel fs = scan at hsame ⊢
        obtain ⟨- | - | e, fs₁⟩ := scan
        · exact .done
        · exact .close (hnames.of_sameFile hsame) .done
        · refine .close (hnames.of_sameFile hsame) ?_
          rw [afterScan]
          dsimp only
          split
          · exact .done
          · exact .call trivial (ih fun file hfile ↦ names_openEntry hfile)

/-! ### What a careful run keeps -/

/-- Every open file is on the volume. -/
structure FilesOnVolume (disk : BlockDevice) (b : FatBootSector) (fs : Fat12FileSystem) : Prop where
  /-- The driver is mounted. -/
  volume : Volume disk b fs
  /-- The slots of the table that are open. -/
  slots : ∀ i < maxFileHandles, (fs.fileData (.slot i)).opened = true →
    OnVolume disk b (fs.fileData (.slot i))

variable {disk : BlockDevice} {b : FatBootSector}

/-- Nothing is read from a file that is not open. -/
theorem read_of_closed {file : FileRef} (htarget : fs.target file = file)
    (hclosed : ¬ (fs.fileData file).opened = true) (n : UInt32) : fs.read file n = ([], fs) := by
  rw [read]
  dsimp only
  rw [htarget, if_neg hclosed]

/-- Nor is it moved. -/
theorem seek_of_closed {file : FileRef} (htarget : fs.target file = file)
    (hclosed : ¬ (fs.fileData file).opened = true) (position : UInt32) :
    (fs.seek file position).2 = fs := by
  have h := fs.seeks file position
  generalize fs.seek file position = result at h ⊢
  cases h with
  | behind => rfl
  | closed => rfl
  | off _ hopened => exact absurd (htarget ▸ hopened) hclosed
  | found _ hopened => exact absurd (htarget ▸ hopened) hclosed

/-- A slot that `OpenEntry` does not return is not opened by it. -/
theorem opened_openEntry {e : FatDirectoryEntry} {i : ℕ}
    (hopened : ((fs.openEntry e).2.fileData (.slot i)).opened = true) :
    (fs.openEntry e).1 = some (.slot i) ∨
      (fs.openEntry e).2.fileData (.slot i) = fs.fileData (.slot i) := by
  by_cases hfree : fs.freeHandle = some i
  swap
  · refine Or.inr ((frame_openEntry fs e).fileData _ ?_)
    rintro ⟨j, hj, heq⟩
    obtain rfl := FileRef.slot.inj heq
    exact hfree hj
  have hpicked := opened_picked hfree e
  rw [hopened] at hpicked
  obtain ⟨ref, href⟩ := Option.isSome_iff_exists.1 hpicked.symm
  obtain ⟨j, hj, rfl, -, -⟩ := openEntry_of_some (Prod.ext href rfl)
  obtain rfl := Option.some.inj (hj.symm.trans hfree)
  exact Or.inl href

/-- A record that changes alone stays on the volume if its new contents are. -/
theorem FilesOnVolume.of_frame (h : FilesOnVolume disk b fs) {refs : Set FileRef}
    (hf : Frame refs fs fs')
    (hnew : ∀ i < maxFileHandles, .slot i ∈ refs → (fs'.fileData (.slot i)).opened = true →
      OnVolume disk b (fs'.fileData (.slot i))) : FilesOnVolume disk b fs' := by
  refine ⟨h.volume.of_frame hf, fun i hi hopened ↦ ?_⟩
  by_cases hmem : FileRef.slot i ∈ refs
  · exact hnew i hi hmem hopened
  · rw [hf.fileData _ hmem] at hopened ⊢
    exact h.slots i hi hopened

/-- Closing a file. -/
theorem FilesOnVolume.close (h : FilesOnVolume disk b fs) {file : FileRef}
    (hnames : fs.Names file) :
    FilesOnVolume disk b (fs.close file) := by
  refine h.of_frame (frame_close fs hnames.target) fun i hi hmem hopened ↦ ?_
  obtain rfl : FileRef.slot i = file := hmem
  have hclosed : ((fs.close (.slot i)).fileData (.slot i)).opened = false := by
    rw [Fat12FileSystem.close, hnames.target]
    dsimp only
    rw [fileData_setFileData_self]
  exact absurd (hclosed.symm.trans hopened) (by simp)

/-- Every call keeps to a frame. -/
theorem frame_exec (fs : Fat12FileSystem) (c : DataCall) : ∃ refs, Frame refs fs (c.exec fs) := by
  cases c with
  | openEntry e => exact ⟨_, frame_openEntry fs e⟩
  | read file n => exact ⟨_, frame_read fs file n⟩
  | seek file position => exact ⟨_, frame_seek fs file position⟩

theorem Makes.trace_suffix (h : Makes fs calls fs') : fs.trace <:+ fs'.trace := by
  induction h with
  | done => exact List.suffix_refl _
  | close hnames _ ih => exact (frame_close _ hnames.target).trace.trans ih
  | @call fs _ _ c _ _ ih =>
    obtain ⟨refs, hframe⟩ := frame_exec fs c
    exact hframe.trace.trans ih

/-- Data requests of the volume are in the data region. -/
theorem FilesOnVolume.inRegion (ha : detectAccepts b = true)
    (h : FilesOnVolume disk b fs) {c : DataCall}
    {evs : List Event} (htrace : (c.exec fs).trace = evs ++ fs.trace) (hevs : DataOnly b evs) :
    c.InRegion fs := by
  intro evs' htrace' lba hmem
  rw [htrace] at htrace'
  obtain rfl := List.append_cancel_right htrace'
  have hlba := hevs lba hmem
  rw [h.volume.dataSectionLba, toNat_dataSectionLba ha, h.volume.bs]
  exact ⟨hlba.bounds.1, hlba.bounds.2, hlba⟩

/-- A call that does nothing. -/
theorem FilesOnVolume.of_exec_eq (ha : detectAccepts b = true)
    (h : FilesOnVolume disk b fs) {c : DataCall}
    (hsame : c.exec fs = fs) : FilesOnVolume disk b (c.exec fs) ∧ (c.OnFile → c.InRegion fs) := by
  have htrace : (c.exec fs).trace = [] ++ fs.trace := by rw [hsame, List.nil_append]
  rw [hsame]
  exact ⟨h, fun _ ↦ h.inRegion ha htrace (dataOnly_nil b)⟩

/-- **A careful call** keeps the open files on the volume, and requests data sectors only. -/
theorem FilesOnVolume.call (ha : detectAccepts b = true) (ht : b.totalSectors16 ≠ 0)
    (h : FilesOnVolume disk b fs) {c : DataCall} (htakes : fs.Takes c)
    (hcareful : c.Careful disk b fs)
    (htrue : TrueLinks disk b (c.exec fs).trace) :
    FilesOnVolume disk b (c.exec fs) ∧ (c.OnFile → c.InRegion fs) := by
  cases c with
  | openEntry e =>
    obtain ⟨evs, htrace, hevs, hfile⟩ := onVolume_openEntry ha ht h.volume hcareful
    refine ⟨h.of_frame (frame_openEntry fs e) fun i hi _ hopened ↦ ?_,
      fun _ ↦ h.inRegion ha htrace hevs⟩
    rcases opened_openEntry hopened with hnew | hsame
    · exact hfile _ hnew
    · rw [DataCall.exec, hsame] at hopened ⊢
      exact h.slots i hi hopened
  | read file n =>
    have htarget : fs.target file = file := htakes.target
    have hframe := frame_read_of_target htarget n
    cases file with
    | root =>
      exact ⟨h.of_frame hframe fun i _ hmem ↦ absurd hmem (by simp), fun hfile ↦ absurd rfl hfile⟩
    | slot i =>
      have hlt := htakes.lt i rfl
      by_cases hopened : (fs.fileData (.slot i)).opened = true
      · have hplace := h.slots i hlt hopened
        rw [← htarget] at hplace
        obtain ⟨evs, htrace, hevs, hnext⟩ := hplace.read ha ht h.volume (hcareful (by simp)) htrue
        rw [htarget] at hnext
        refine ⟨h.of_frame hframe fun j _ hmem _ ↦ ?_, fun _ ↦ h.inRegion ha htrace hevs⟩
        obtain rfl := FileRef.slot.inj hmem
        exact hnext
      · have hsame : DataCall.exec fs (.read (.slot i) n) = fs := by
          rw [DataCall.exec, read_of_closed htarget hopened]
        exact h.of_exec_eq ha hsame
  | seek file position =>
    have htarget : fs.target file = file := htakes.target
    have hframe := frame_seek_of_target htarget position
    cases file with
    | root =>
      exact ⟨h.of_frame hframe fun i _ hmem ↦ absurd hmem (by simp), fun hfile ↦ absurd rfl hfile⟩
    | slot i =>
      have hlt := htakes.lt i rfl
      by_cases hopened : (fs.fileData (.slot i)).opened = true
      · have hplace := h.slots i hlt hopened
        rw [← htarget] at hplace
        obtain ⟨evs, htrace, hevs, hnext⟩ := hplace.seek ha ht h.volume htrue
        rw [htarget] at hnext
        refine ⟨h.of_frame hframe fun j _ hmem _ ↦ ?_, fun _ ↦ h.inRegion ha htrace hevs⟩
        obtain rfl := FileRef.slot.inj hmem
        exact hnext
      · have hsame : DataCall.exec fs (.seek (.slot i) position) = fs := by
          rw [DataCall.exec, seek_of_closed htarget hopened]
        exact h.of_exec_eq ha hsame

/-- **A careful run** keeps the open files on the volume, and requests data sectors only. -/
theorem FilesOnVolume.makes (ha : detectAccepts b = true) (ht : b.totalSectors16 ≠ 0)
    (hmakes : Makes fs calls fs') (h : FilesOnVolume disk b fs)
    (hcareful : ∀ c ∈ calls, c.2.Careful disk b c.1) (htrue : TrueLinks disk b fs'.trace) :
    FilesOnVolume disk b fs' ∧ ∀ c ∈ calls, c.2.OnFile → c.2.InRegion c.1 := by
  induction hmakes with
  | done => exact ⟨h, fun c hmem ↦ absurd hmem List.not_mem_nil⟩
  | close hnames _ ih => exact ih (h.close hnames) hcareful htrue
  | @call fs _ calls c htakes hrest ih =>
    obtain ⟨hnext, hregion⟩ := h.call ha ht htakes (hcareful _ List.mem_cons_self)
      (htrue.of_events hrest.trace_suffix.subset)
    obtain ⟨hend, hregions⟩ :=
      ih hnext (fun c hmem ↦ hcareful c (List.mem_cons_of_mem _ hmem)) htrue
    refine ⟨hend, fun c' hmem ↦ ?_⟩
    rcases List.mem_cons.1 hmem with rfl | hmem
    · exact hregion
    · exact hregions c' hmem

/-! ### Where the lookups are true -/

/-- On a device that delivers, the lookups so far are true unless one of them read outside the
cache. -/
structure LooksUpTruly (disk : BlockDevice) (b : FatBootSector) (fs : Fat12FileSystem) : Prop where
  /-- The driver serves the volume. -/
  serves : Serves disk b fs
  /-- The lookups so far. -/
  links : InCache fs.trace → TrueLinks disk b fs.trace

theorem LooksUpTruly.of_noLookup (h : LooksUpTruly disk b fs) {refs : Set FileRef}
    (hf : Frame refs fs fs')
    (htrace : fs'.trace = fs.trace ∨ ∃ lba, fs'.trace = .sectorRead lba :: fs.trace) :
    LooksUpTruly disk b fs' := by
  refine ⟨h.serves.of_frame hf, fun hin ↦ ?_⟩
  have hold := h.links (hin.of_suffix hf.trace)
  rcases htrace with htrace | ⟨lba, htrace⟩
  · rwa [htrace]
  · rw [htrace]
    intro c r hc hmem
    exact hold c r hc ((List.mem_cons.1 hmem).resolve_left (by simp))

theorem LooksUpTruly.setFileData (h : LooksUpTruly disk b fs) (ref : FileRef) (fd : FatFileData) :
    LooksUpTruly disk b (fs.setFileData ref fd) :=
  h.of_noLookup (frame_setFileData _ _ _) (Or.inl trace_setFileData)

theorem LooksUpTruly.readSector (h : LooksUpTruly disk b fs) (ref : FileRef) (lba : UInt32) :
    LooksUpTruly disk b (fs.readSector ref lba).2 :=
  h.of_noLookup (frame_readSector _ _ _) (Or.inr ⟨_, trace_readSector _ _ _⟩)

/-- A lookup that stays in the cache answers what the disk says. -/
theorem LooksUpTruly.nextCluster (ha : detectAccepts b = true)
    (h : LooksUpTruly disk b fs) (c : UInt32) :
    LooksUpTruly disk b (fs.nextCluster c).2 := by
  have hframe := frame_nextCluster fs c
  refine ⟨h.serves.of_frame hframe, fun hin ↦ ?_⟩
  have hold := h.links (hin.of_suffix hframe.trace)
  have hanswer := nextCluster_of_not_straddles (not_fetchFails h.serves.reads _) h.serves.cacheValid
    (not_straddles_of_inCache h.serves.reads h.serves.cacheValid hin)
  obtain ⟨look, htrace, hlook⟩ := nextCluster_looksUp fs c
  rw [htrace]
  intro c' r hc' hmem
  rcases List.mem_append.1 hmem with hmem | hmem
  · obtain ⟨rfl, rfl⟩ := (hlook.answer _ _).1 hmem
    have hle := Nat.le_mul_of_pos_right (c'.toNat - 1) (spc_pos ha)
    have hvolume := hc'.2
    have htotal := b.totalSectors16.toNat_lt
    rw [hanswer, toNat_fatIndex (by omega), h.serves.fatByte]
    rfl
  · exact hold c' r hc' hmem

variable {ref : FileRef}

theorem LooksUpTruly.advance (ha : detectAccepts b = true) (h : LooksUpTruly disk b fs) :
    LooksUpTruly disk b (fs.advance ref).2 := by
  have hstep : LooksUpTruly disk b (fs.stepCounters ref) := by
    rw [stepCounters]
    split
    · exact (h.nextCluster ha _).setFileData _ _
    · exact h.setFileData _ _
  rw [advance_eq]
  dsimp only
  split
  · exact hstep.setFileData _ _
  · exact hstep.readSector _ _

theorem LooksUpTruly.seekLoop (ha : detectAccepts b = true) (clusterSize : UInt32) (fuel : ℕ) :
    ∀ (cluster offset : UInt32) {fs : Fat12FileSystem}, LooksUpTruly disk b fs →
      LooksUpTruly disk b (Fat12FileSystem.seekLoop clusterSize fuel cluster offset fs).2 := by
  induction fuel with
  | zero => exact fun _ _ _ h ↦ h
  | succ fuel ih =>
    intro cluster offset fs h
    have hnext := h.nextCluster ha cluster
    rw [Fat12FileSystem.seekLoop]
    dsimp only
    split
    · split
      · exact hnext
      · exact ih _ _ hnext
    · exact h

/-- **A call whose lookups stay in the cache** follows true links. -/
theorem LooksUpTruly.exec (ha : detectAccepts b = true) (h : LooksUpTruly disk b fs)
    (c : DataCall) :
    LooksUpTruly disk b (c.exec fs) := by
  cases c with
  | openEntry e =>
    rw [DataCall.exec]
    have hfill (i : ℕ) : LooksUpTruly disk b (fs.fillSlot i e) := h.setFileData _ _
    have hfetch (i : ℕ) : LooksUpTruly disk b (fs.fetchSlot i e) := (hfill i).readSector _ _
    have hopen (i : ℕ) : LooksUpTruly disk b (fs.openSlot i e) := (hfetch i).setFileData _ _
    have hresult := fs.opensEntry e
    generalize fs.openEntry e = result at hresult ⊢
    cases hresult with
    | full => exact h
    | refused => exact hfill _
    | failed => exact hfetch _
    | opened => exact hopen _
  | read file n =>
    rw [DataCall.exec]
    rcases exists_read_eq fs file n with hnone | ⟨count, hloop⟩
    · rw [hnone]
      exact h
    · rw [hloop]
      exact (readLoop_rule (fs.target file) (LooksUpTruly disk b) (LooksUpTruly disk b) _
        (fun t h' ↦ h'.setFileData _ _) (fun h' _ ↦ ⟨fun _ ↦ h'.advance ha, fun _ ↦ h'.advance ha⟩)
        count.toNat [] h (List.suffix_refl _)).elim id id
  | seek file position =>
    rw [DataCall.exec, seek]
    dsimp only
    split
    · exact h
    split
    · have hloop := (h.setFileData (fs.target file) { fs.fileData (fs.target file) with
        pub := { (fs.fileData (fs.target file)).pub with position := position } })
      generalize fs.setFileData (fs.target file) _ = fs₁ at hloop ⊢
      have hwalk :=
        LooksUpTruly.seekLoop ha (fs₁.bs.sectorsPerCluster.toUInt32 * 512) position.toNat
        (fs.fileData (fs.target file)).firstCluster position hloop
      split
      · next heq =>
        rw [heq] at hwalk
        exact hwalk
      · next heq =>
        rw [heq] at hwalk
        exact (hwalk.setFileData _ _).readSector _ _
    · exact h

/-- A run whose lookups stay in the cache does. -/
theorem LooksUpTruly.makes (ha : detectAccepts b = true) (hmakes : Makes fs calls fs')
    (h : LooksUpTruly disk b fs) : LooksUpTruly disk b fs' := by
  induction hmakes with
  | done => exact h
  | close hnames _ ih =>
    exact ih (h.of_noLookup (frame_close _ hnames.target) (Or.inl (trace_close _ _)))
  | @call fs _ _ c _ _ ih => exact ih (h.exec ha c)

/-- Mounting requests the root's first sector, and looks nothing up. -/
theorem trace_detectAndMount {fresh : FatData} (hm : detectAndMount disk fresh = some fs) :
    fs.trace = [.sectorRead (rootDirLba fs.bs).toNat] := by
  rw [detectAndMount] at hm
  split at hm
  · exact absurd hm (by simp)
  split at hm
  swap
  · exact absurd hm (by simp)
  split at hm
  swap
  · exact absurd hm (by simp)
  next heq =>
  obtain rfl := Option.some.inj hm
  rw [initializeFs] at heq
  split at heq
  · exact absurd (congrArg Prod.fst heq) Bool.false_ne_true
  dsimp only at heq
  split at heq
  · exact absurd (congrArg Prod.fst heq) Bool.false_ne_true
  split at heq
  · exact absurd (congrArg Prod.fst heq) Bool.false_ne_true
  split at heq
  · exact absurd (congrArg Prod.fst heq) Bool.false_ne_true
  · next hroot =>
    obtain rfl := (Prod.mk.inj heq).2
    obtain rfl := congrArg Prod.snd hroot
    rfl

end Fat12FileSystem

/-! ### Sessions -/

namespace Session

variable {disk : BlockDevice} {b : FatBootSector} {s : Session}

/-- The handles held are slots of the table. -/
def HandlesInTable (s : Session) : Prop := ∀ i v, s.handles i = some v → i < maxFileHandles

theorem HandlesInTable.update (h : s.HandlesInTable) {i : ℕ} (hi : i < maxFileHandles)
    (fs : Fat12FileSystem)
    (v : Option (FatDirectoryEntry × ℕ)) : HandlesInTable ⟨fs, Function.update s.handles i v⟩ := by
  intro j w hj
  by_cases hij : j = i
  · rw [hij]
    exact hi
  · exact h j w ((Function.update_of_ne hij _ _).symm.trans hj)

theorem HandlesInTable.step (h : s.HandlesInTable) (hbase : SessionBase disk b s) (op : Op) :
    (s.step op).HandlesInTable := by
  cases op with
  | openFile path fuel =>
    rw [Session.step]
    split
    · next i e hopened =>
      obtain ⟨fs₁, -, hentry⟩ := openPath_of_file hbase.root fuel path hopened
      have hnames := names_openEntry (congrArg Prod.fst hentry)
      exact h.update (hnames.lt i rfl) _ _
    · exact h
  | read i n =>
    rw [Session.step]
    split
    · exact h
    · next hopen => exact h.update (h i _ hopen) _ _
  | seek i position =>
    rw [Session.step]
    split
    · exact h
    · next hopen => exact h.update (h i _ hopen) _ _
  | close i =>
    rw [Session.step]
    split
    · exact h
    · next hopen => exact h.update (h i _ hopen) _ _
  | closeRoot => exact h

/-- A handle held is a pointer that the driver has handed out. -/
theorem names_of_held (hbase : SessionBase disk b s) (h : s.HandlesInTable) {i : ℕ}
    {v : FatDirectoryEntry × ℕ} (hv : s.handles i = some v) : s.fs.Names (.slot i) :=
  ⟨(hbase.held hv).2, fun _ hj ↦ FileRef.slot.inj hj ▸ h i v hv⟩

/-- **A call of the session makes its calls, and no others.** -/
theorem step_makes (hbase : SessionBase disk b s) (h : s.HandlesInTable) (op : Op) :
    Makes s.fs (s.calls op) (s.step op).fs := by
  have hroot : s.fs.Names .root := ⟨hbase.root, fun i hi ↦ absurd hi (by simp)⟩
  cases op with
  | openFile path fuel =>
    refine openLoop_makes fuel _ fun file hfile ↦ ?_
    obtain rfl := Option.some.inj hfile
    exact hroot
  | read i n =>
    rw [Session.step, Session.calls]
    cases hv : s.handles i with
    | none => exact .done
    | some v => exact .call (names_of_held hbase h hv) .done
  | seek i position =>
    rw [Session.step, Session.calls]
    cases hv : s.handles i with
    | none => exact .done
    | some v => exact .call (names_of_held hbase h hv) .done
  | close i =>
    rw [Session.step, Session.calls]
    cases hv : s.handles i with
    | none => exact .done
    | some v => exact .close (names_of_held hbase h hv) .done
  | closeRoot => exact .close hroot .done

/-- The trace of a session only grows. -/
theorem trace_run (hbase : SessionBase disk b s) (ops : List Op) :
    s.fs.trace <:+ (s.run ops).fs.trace := by
  induction ops generalizing s with
  | nil => exact List.suffix_refl _
  | cons op ops ih =>
    obtain ⟨refs, hframe⟩ := hbase.frame op
    exact hframe.trace.trans (ih (hbase.step op))

theorem looksUpTruly_run (ha : detectAccepts b = true) (hbase : SessionBase disk b s)
    (htable : s.HandlesInTable) (h : LooksUpTruly disk b s.fs) (ops : List Op) :
    LooksUpTruly disk b (s.run ops).fs := by
  induction ops generalizing s with
  | nil => exact h
  | cons op ops ih =>
    exact ih (hbase.step op) (htable.step hbase op) (h.makes ha (step_makes hbase htable op))

/-- **True lookups.** On a device that delivers, the lookups of a session answer what the disk says,
as long as none of them reads outside the cache. -/
theorem trueLinks_run (hd : disk.AllReadsSucceed) {fresh : FatData} {fs : Fat12FileSystem}
    (hm : detectAndMount disk fresh = some fs) (ops : List Op)
    (hin : InCache ((mount fs).run ops).fs.trace) :
    TrueLinks disk fs.bs ((mount fs).run ops).fs.trace := by
  have hmount := mounted_of_detectAndMount hm
  have htrace := trace_detectAndMount hm
  have hstart : LooksUpTruly disk fs.bs (mount fs).fs := by
    refine ⟨hmount.serves hd, fun _ c r _ hmem ↦ ?_⟩
    rw [mount, htrace] at hmem
    exact absurd (List.mem_singleton.1 hmem) (by simp)
  exact (looksUpTruly_run hmount.accepts (SessionBase.mount hmount)
    (fun i v hv ↦ absurd hv (by simp [mount])) hstart ops).links hin

/-- **A careful session** requests data sectors only. -/
theorem calls_inRegion_of_files (ha : detectAccepts b = true) (ht : b.totalSectors16 ≠ 0)
    (hbase : SessionBase disk b s) (htable : s.HandlesInTable) (h : FilesOnVolume disk b s.fs)
    {ops : List Op} (hcareful : s.Meets (fun s op ↦ ∀ c ∈ s.calls op, c.2.Careful disk b c.1) ops)
    (htrue : TrueLinks disk b (s.run ops).fs.trace) :
    s.Meets (fun s op ↦ ∀ c ∈ s.calls op, c.2.OnFile → c.2.InRegion c.1) ops := by
  induction ops generalizing s with
  | nil => trivial
  | cons op ops ih =>
    have hsub := trace_run (hbase.step op) ops
    obtain ⟨hnext, hregion⟩ := FilesOnVolume.makes ha ht (step_makes hbase htable op) h hcareful.1
      (htrue.of_events hsub.subset)
    exact ⟨hregion, ih (hbase.step op) (htable.step hbase op) hnext hcareful.2 htrue⟩

/-- **Data requests stay in the data region.** Mount any volume, and make any sequence of opens,
reads, seeks and closes in which every entry that `OpenEntry` lets through has a chain that stays in
the volume, no read goes on behind the end of a chain, and the FAT lookups answer what the disk
says. Then every sector that a call of `OpenEntry`, `read` or `seek` requests for a file or
subdirectory is in the data region, and in a cluster of the volume. -/
theorem calls_inRegion {fresh : FatData} {fs : Fat12FileSystem}
    (hm : detectAndMount disk fresh = some fs)
    (ops : List Op)
    (hcareful : (mount fs).Meets (fun s op ↦ ∀ c ∈ s.calls op, c.2.Careful disk fs.bs c.1) ops)
    (htrue : TrueLinks disk fs.bs ((mount fs).run ops).fs.trace) :
    (mount fs).Meets (fun s op ↦ ∀ c ∈ s.calls op, c.2.OnFile → c.2.InRegion c.1) ops := by
  have hmount := mounted_of_detectAndMount hm
  refine calls_inRegion_of_files hmount.accepts hmount.totalSectors16_ne (SessionBase.mount hmount)
    (fun i v hv ↦ absurd hv (by simp [mount])) ⟨hmount.volume, fun i hi hopened ↦ ?_⟩ hcareful htrue
  have hclosed : (fs.fileData (.slot i)).opened = false := hmount.closed i hi
  exact absurd (hclosed.symm.trans hopened) (by simp)

/-! ### A chain that stays in the volume -/

/-- That the lookups of a given trace answer what the disk says can be computed. -/
theorem trueLinks_of_all {trace : List Event}
    (h : (trace.all fun
      | .successor c r => decide (r = fatEntry (diskFat disk b) c.toNat)
      | _ => true) = true) : TrueLinks disk b trace := by
  intro c r _ hmem
  have hev := List.all_eq_true.1 h _ hmem
  exact of_decide_eq_true hev

/-- The file on the clusters 2 and 3 stays in the volume. -/
theorem staysInVolume_twoCluster :
    StaysInVolume (diskFat twoClusterFloppy twoClusterFs.bs) twoClusterFs.bs 2 := by
  intro d h
  have hd : d = 2 ∨ d = 3 := by
    induction h with
    | refl => exact Or.inl rfl
    | step _ hdata ih =>
      rcases ih with rfl | rfl
      · exact Or.inr (by decide)
      · exact absurd (by decide) hdata
  rcases hd with rfl | rfl
  · decide
  · decide

/-- Open `A` and read all of it. -/
def readWholeOps : List Op := [.openFile [0x2F, 0x61] 8, .read 0 600]

/-- That keeps to the data region. -/
theorem calls_inRegion_twoCluster :
    (mount twoClusterFs).Meets (fun s op ↦ ∀ c ∈ s.calls op, c.2.OnFile → c.2.InRegion c.1)
      readWholeOps := by
  have hopen : ((mount twoClusterFs).calls (.openFile [0x2F, 0x61] 8)).map Prod.snd =
      [.read .root 32, .openEntry twoClusterEntry] := by decide
  have hread : ∀ c ∈ ((mount twoClusterFs).step (.openFile [0x2F, 0x61] 8)).calls (.read 0 600),
      c.2 = .read (.slot 0) 600 ∧ ¬ c.1.ReadsPastEnd (.slot 0) 600 :=
    List.all_iff_forall_prop.1 (by decide)
  refine calls_inRegion detectAndMount_twoClusterFloppy readWholeOps ⟨fun c hmem ↦ ?_,
    fun c hmem ↦ ?_, trivial⟩
    (trueLinks_of_all (by decide))
  · have hcall := List.mem_map_of_mem (f := Prod.snd) hmem
    rw [hopen] at hcall
    rcases List.mem_pair.1 hcall with heq | heq
    · rw [heq]
      exact fun hfile ↦ absurd rfl hfile
    · rw [heq]
      exact fun _ ↦ staysInVolume_twoCluster
  · obtain ⟨heq, hplace⟩ := hread c hmem
    rw [heq]
    exact fun _ ↦ hplace

/-! ### A link that leads out of it -/

/-- The same floppy disk with a FAT that links cluster 2 to cluster 0. -/
def strayFloppy : BlockDevice where
  sector lba j :=
    if lba = 1 then [0xF0, 0xFF, 0xFF, 0x00, 0x00, 0x00].getD j 0 else twoClusterFloppy.sector lba j
  outcome _ := none
  calls := 0

/-- The driver after mounting it. -/
def strayFs : Fat12FileSystem := (detectAndMount strayFloppy blankData).get (by decide)

/-- The session that has opened the file. -/
def straySession : Session := (mount strayFs).step (.openFile [0x2F, 0x61] 8)

/-- What reading it requests and looks up. -/
theorem trace_read_straySession : (straySession.fs.read (.slot 0) 600).2.trace =
    [.sectorRead 31, .successor 2 0, .cacheByte 4, .cacheByte 3, .fatRead 1] ++
      straySession.fs.trace := by
  decide

/-- **A request before the data region.** Reading the file through, the driver follows the link and
requests sector 31, which belongs to the root directory; the data region begins at sector 33. -/
theorem not_calls_inRegion_strayFloppy :
    (straySession.fs.read (.slot 0) 600).2.trace =
        [.sectorRead 31, .successor 2 0, .cacheByte 4, .cacheByte 3, .fatRead 1] ++
          straySession.fs.trace ∧
      strayFs.dataSectionLba.toNat = 33 ∧
      ¬ (mount strayFs).Meets (fun s op ↦ ∀ c ∈ s.calls op, c.2.OnFile → c.2.InRegion c.1)
        readWholeOps := by
  refine ⟨trace_read_straySession, by decide, fun h ↦ ?_⟩
  have hmem : (straySession.fs, .read (.slot 0) 600) ∈ straySession.calls (.read 0 600) := by
    rw [Session.calls, if_pos (by decide)]
    exact List.mem_cons_self
  have hlba := (h.2.1 _ hmem (by simp [DataCall.OnFile]) _ trace_read_straySession 31
    List.mem_cons_self).1
  have hstart : straySession.fs.dataSectionLba.toNat = 33 := by decide
  dsimp only at hlba
  omega

end Session

end Aidos.Fat12
