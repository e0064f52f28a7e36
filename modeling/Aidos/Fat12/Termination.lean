import Aidos.Fat12.History
import Aidos.Fat12.Scans

/-!
# When `open` comes to an end

`open` resolves a path by one directory scan after the other, so it ends when its scans do. `Scans`
says which they are: the one of the root for the first component, and, behind an entry that was
found and opened, those of the rest of the path. `open_ends_iff` says that after any history of
calls that returned, `open` ends exactly when each of its scans has something that ends it.

A subdirectory whose cluster chain runs in a circle, and whose entries are all in use, has none.
-/

namespace Aidos.Fat12

namespace Fat12FileSystem

variable {disk : BlockDevice} {b : FatBootSector} {fs fs' : Fat12FileSystem} {ref file : FileRef}

/-! ### More fuel -/

/-- A scan that ends does not depend on the bound. -/
theorem findFileLoop_mono (ref : FileRef) (name : List UInt8) {fuel fuel' : ℕ}
    (hle : fuel ≤ fuel') :
    ∀ {fs : Fat12FileSystem}, (findFileLoop ref name fuel fs).1 ≠ .running →
      findFileLoop ref name fuel' fs = findFileLoop ref name fuel fs := by
  induction fuel generalizing fuel' with
  | zero => exact fun {fs} h ↦ absurd rfl h
  | succ fuel ih =>
    intro fs h
    obtain ⟨fuel', rfl⟩ := Nat.exists_eq_succ_of_ne_zero (by omega : fuel' ≠ 0)
    rw [findFileLoop_succ] at h ⊢
    rw [findFileLoop_succ]
    split
    · next hentry =>
      rw [if_pos hentry] at h
      split
      · rfl
      · next hother =>
        rw [if_neg hother] at h
        exact ih (Nat.le_of_succ_le_succ hle) h
    · rfl

/-- An `open` that ends has ended its first scan. -/
theorem findFileLoop_ends_of_openLoop {fuel n : ℕ} {entry : Option FatDirectoryEntry} {c : UInt8}
    {path : List UInt8} (hshort : ¬ (nextName (c :: path)).1.length ≥ maxPathSize)
    (h : (openLoop fuel (n + 1) (some file) entry (c :: path) fs).1 ≠ .running) :
    (findFileLoop file (nextName (c :: path)).1 fuel fs).1 ≠ .running := by
  intro hrunning
  rw [openLoop_some, if_neg hshort] at h
  refine h ?_
  generalize findFileLoop file (nextName (c :: path)).1 fuel fs = scan at hrunning ⊢
  obtain ⟨found, fs₁⟩ := scan
  obtain rfl : found = .running := hrunning
  rfl

/-- Nor does an `open` that ends. -/
theorem openLoop_mono {fuel fuel' : ℕ} (hle : fuel ≤ fuel') (n : ℕ) :
    ∀ {current : Option FileRef} {entry : Option FatDirectoryEntry} {path : List UInt8}
      {fs : Fat12FileSystem}, (openLoop fuel n current entry path fs).1 ≠ .running →
      openLoop fuel' n current entry path fs = openLoop fuel n current entry path fs := by
  induction n with
  | zero =>
    intro current entry path fs h
    cases path with
    | nil => rfl
    | cons c path => exact absurd rfl h
  | succ n ih =>
    intro current entry path fs h
    cases path with
    | nil => rfl
    | cons c path =>
      cases current with
      | none => rw [openLoop_none, openLoop_none]
      | some file =>
        rw [openLoop_some, openLoop_some]
        split
        · rfl
        · next hshort =>
          have hscan := findFileLoop_ends_of_openLoop hshort h
          rw [openLoop_some, if_neg hshort] at h
          rw [findFileLoop_mono file _ hle hscan]
          generalize findFileLoop file (nextName (c :: path)).1 fuel fs = scan at h ⊢
          rcases scan with ⟨- | - | e, fs₁⟩
          · rfl
          · rfl
          · rw [afterScan] at h ⊢
            rw [afterScan]
            split
            · rfl
            · next hdir =>
              rw [if_neg hdir] at h
              exact ih h

/-! ### The scans of a path -/

/-- A directory that has been opened can be scanned. -/
theorem scannable_openEntry (hs : Serves disk b fs) {e : FatDirectoryEntry}
    (hdir : e.isDirectory = true)
    (h : fs.openEntry e = (some file, fs')) : Scannable disk b file fs' := by
  have hframe := frame_openEntry fs e
  rw [h] at hframe
  obtain ⟨i, -, rfl, htarget, -⟩ := openEntry_of_some h
  obtain ⟨buffer, -, hrecord⟩ := fileData_openEntry h
  refine ⟨hs.of_frame hframe, htarget, ?_, ?_, ?_⟩
  · rw [hrecord]
  · rw [hrecord]
    exact hdir
  · rw [hrecord]

/-- **The scans of `open`**: resolving `path` from the directory `file` comes to scanning the
directory `d` for `name`, in the state `g`. -/
inductive Scans (d : FileRef) (name : List UInt8) (g : Fat12FileSystem) :
    FileRef → List UInt8 → Fat12FileSystem → Prop
  /-- The first scan is for the first component. -/
  | here {c : UInt8} {path : List UInt8} : (nextName (c :: path)).1.length < maxPathSize →
      (nextName (c :: path)).1 = name → Scans d name g d (c :: path) g
  /-- The others come behind an entry that was found and opened. -/
  | there {file file' : FileRef} {c : UInt8} {path : List UInt8} {fs fs₁ fs₂ : Fat12FileSystem}
      {fuel : ℕ} {e : FatDirectoryEntry} : (nextName (c :: path)).1.length < maxPathSize →
      fs.findFile fuel file (nextName (c :: path)).1 = (.found e, fs₁) →
      ¬ (!(nextName (c :: path)).2.2 && !e.isDirectory) = true →
      (fs₁.close file).openEntry e = (some file', fs₂) →
      Scans d name g file' (nextName (c :: path)).2.1 fs₂ → Scans d name g file (c :: path) fs

/-- What is behind a component is shorter, and there is nothing behind the last one. -/
theorem nextName_rest (c : UInt8) (path : List UInt8) :
    (nextName (c :: path)).2.1.length ≤ path.length ∧
      ((nextName (c :: path)).2.2 = true → (nextName (c :: path)).2.1 = []) := by
  rw [nextName]
  split
  · refine ⟨?_, fun h ↦ absurd h (by simp)⟩
    rw [List.length_drop, List.length_cons]
    omega
  · exact ⟨Nat.zero_le _, fun _ ↦ rfl⟩

/-- Resolving the rest of a path behind a component whose scan is known. -/
theorem openLoop_of_findFile {n fuel : ℕ} {entry : Option FatDirectoryEntry} {c : UInt8}
    {path : List UInt8} {scan : Search × Fat12FileSystem}
    (hshort : (nextName (c :: path)).1.length < maxPathSize)
    (hscan : fs.findFile fuel file (nextName (c :: path)).1 = scan) :
    openLoop fuel (n + 1) (some file) entry (c :: path) fs =
      afterScan fuel n file (nextName (c :: path)).2.2 (nextName (c :: path)).2.1 scan := by
  rw [openLoop_some, if_neg (by omega)]
  exact congrArg _ hscan

/-- The two scans that end with an answer have the same answer. -/
theorem findFile_eq {fuel fuel' : ℕ} {name : List UInt8}
    (h : (fs.findFile fuel file name).1 ≠ .running)
    (h' : (fs.findFile fuel' file name).1 ≠ .running) :
    fs.findFile fuel' file name = fs.findFile fuel file name := by
  rcases Nat.le_total fuel fuel' with hle | hle
  · exact findFileLoop_mono file name hle h
  · exact (findFileLoop_mono file name hle h').symm

/-- A directory found on the way can be scanned for the rest of the path. -/
theorem Scannable.next (h : Scannable disk b file fs) {name : List UInt8} {fuel : ℕ}
    {e : FatDirectoryEntry}
    {fs₁ fs₂ : Fat12FileSystem} {file' : FileRef}
    (hfind : fs.findFile fuel file name = (.found e, fs₁))
    (hdir : e.isDirectory = true) (hopen : (fs₁.close file).openEntry e = (some file', fs₂)) :
    Scannable disk b file' fs₂ := by
  obtain ⟨hframe, hsame⟩ := frame_findFileLoop file name fuel h.target
  rw [show findFileLoop file name fuel fs = (.found e, fs₁) from hfind] at hframe hsame
  have hclose := frame_close fs₁ (target_of_sameFile h.target hsame)
  exact scannable_openEntry ((h.serves.of_frame hframe).of_frame hclose) hdir hopen

/-- An entry with more of the path behind it is a directory. -/
theorem isDirectory_of_rest {c : UInt8} {path : List UInt8} {e : FatDirectoryEntry}
    (hdir : ¬ (!(nextName (c :: path)).2.2 && !e.isDirectory) = true)
    (hrest : (nextName (c :: path)).2.1 ≠ []) : e.isDirectory = true := by
  have hnot : (nextName (c :: path)).2.2 = false := by
    by_contra htrue
    exact hrest ((nextName_rest c path).2 (Bool.eq_true_of_not_eq_false htrue))
  simpa [hnot] using hdir

/-- There is no scan for nothing. -/
theorem Scans.path_ne_nil {d : FileRef} {name : List UInt8} {g : Fat12FileSystem}
    {path : List UInt8} (h : Scans d name g file path fs) : path ≠ [] := by
  cases h <;> exact List.cons_ne_nil _ _

/-- If resolving a path ends, each of its scans ends. -/
theorem Scans.scanEnds (ha : detectAccepts b = true) {d : FileRef} {name : List UInt8}
    {g : Fat12FileSystem} {path : List UInt8} (h : Scans d name g file path fs) :
    ∀ {n fuel : ℕ} {entry : Option FatDirectoryEntry}, Scannable disk b file fs →
      (openLoop fuel n (some file) entry path fs).1 ≠ .running → g.ScanEnds d name := by
  induction h with
  | here hshort hname =>
    intro n fuel entry hscannable hends
    obtain - | n := n
    · exact absurd rfl hends
    have hscan := findFileLoop_ends_of_openLoop (Nat.not_le.2 hshort) hends
    rw [← hname]
    exact (hscannable.findFile_ends_iff ha _).1 ⟨fuel, hscan⟩
  | there hshort hfind hdir hopen hscans ih =>
    intro n fuel entry hscannable hends
    obtain - | n := n
    · exact absurd rfl hends
    have hscan := findFileLoop_ends_of_openLoop (Nat.not_le.2 hshort) hends
    have hfind' := (findFile_eq (fun hrunning ↦ by simp [hfind] at hrunning) hscan).trans hfind
    rw [openLoop_of_findFile hshort hfind', afterScan, if_neg hdir, hopen] at hends
    exact ih (hscannable.next hfind (isDirectory_of_rest hdir hscans.path_ne_nil) hopen) hends

/-- If each scan of a path ends, resolving it does. -/
theorem openLoop_ends_of_scans (ha : detectAccepts b = true) (n : ℕ) :
    ∀ {file : FileRef} {entry : Option FatDirectoryEntry} {path : List UInt8}
      {fs : Fat12FileSystem}, path.length ≤ n → (path ≠ [] → Scannable disk b file fs) →
      (∀ d name g, Scans d name g file path fs → g.ScanEnds d name) →
      ∃ fuel, (openLoop fuel n (some file) entry path fs).1 ≠ .running := by
  induction n with
  | zero =>
    intro file entry path fs hn _ _
    obtain rfl := List.length_eq_zero_iff.1 (Nat.le_zero.1 hn)
    exact ⟨0, by simp [openLoop]⟩
  | succ n ih =>
    intro file entry path fs hn hready hall
    obtain - | ⟨c, path⟩ := path
    · exact ⟨0, by simp [openLoop]⟩
    by_cases hlong : maxPathSize ≤ (nextName (c :: path)).1.length
    · refine ⟨0, ?_⟩
      rw [openLoop_some, if_pos hlong]
      simp
    have hshort : (nextName (c :: path)).1.length < maxPathSize := by omega
    have hscannable := hready (by simp)
    have hn' : (nextName (c :: path)).2.1.length ≤ n :=
      (nextName_rest c path).1.trans (Nat.le_of_succ_le_succ hn)
    obtain ⟨fuel, hscan⟩ :=
      (hscannable.findFile_ends_iff ha _).2 (hall file _ fs (.here hshort rfl))
    rcases hfind : fs.findFile fuel file (nextName (c :: path)).1 with ⟨- | - | e, fs₁⟩
    · rw [hfind] at hscan
      exact absurd rfl hscan
    · refine ⟨fuel, ?_⟩
      rw [openLoop_of_findFile hshort hfind]
      simp [afterScan]
    by_cases hdir : (!(nextName (c :: path)).2.2 && !e.isDirectory) = true
    · refine ⟨fuel, ?_⟩
      rw [openLoop_of_findFile hshort hfind, afterScan, if_pos hdir]
      simp
    rcases hopen : (fs₁.close file).openEntry e with ⟨- | file', fs₂⟩
    · -- no handle is left, and the rest of the path fails at once
      refine ⟨fuel, ?_⟩
      rw [openLoop_of_findFile hshort hfind, afterScan, if_neg hdir, hopen]
      rcases n with - | n
      · rw [List.length_eq_zero_iff.1 (Nat.le_zero.1 hn')]
        simp [openLoop]
      · rcases (nextName (c :: path)).2.1 with - | ⟨d, rest⟩
        · simp [openLoop]
        · rw [openLoop_none]
          simp
    · obtain ⟨fuel', hends⟩ := @ih file' (some e) _ fs₂ hn'
        (fun hne ↦ hscannable.next hfind (isDirectory_of_rest hdir hne) hopen)
        fun d name g hscans ↦ hall d name g (.there hshort hfind hdir hopen hscans)
      refine ⟨max fuel fuel', ?_⟩
      have hfind' : fs.findFile (max fuel fuel') file (nextName (c :: path)).1 = (.found e, fs₁) :=
        (findFileLoop_mono file _ (Nat.le_max_left _ _) hscan).trans hfind
      rw [openLoop_of_findFile hshort hfind', afterScan, if_neg hdir, hopen,
        openLoop_mono (Nat.le_max_right _ _) n hends]
      exact hends

/-- **Resolving a path ends** exactly when its scans do. -/
theorem openLoop_ends_iff (ha : detectAccepts b = true) {n : ℕ} {entry : Option FatDirectoryEntry}
    {path : List UInt8} (hn : path.length ≤ n) (hready : path ≠ [] → Scannable disk b file fs) :
    (∃ fuel, (openLoop fuel n (some file) entry path fs).1 ≠ .running) ↔
      ∀ d name g, Scans d name g file path fs → g.ScanEnds d name :=
  ⟨fun ⟨_, hends⟩ _ _ _ hscans ↦ hscans.scanEnds ha (hready hscans.path_ne_nil) hends,
    openLoop_ends_of_scans ha n hn hready⟩

/-! ### The root between the calls -/

/-- What a scan of the root starts from, apart from the volume. -/
structure RootReady (fs : Fat12FileSystem) : Prop where
  /-- The root record has its own handle. -/
  target : fs.target .root = .root
  /-- It is open. -/
  opened : (fs.fileData .root).opened = true
  /-- It is a directory. -/
  isDirectory : (fs.fileData .root).pub.isDirectory = true
  /-- It stands at its beginning. -/
  position : (fs.fileData .root).pub.position = 0

theorem Mounted.rootReady (h : Mounted disk fs) : RootReady fs := by
  have hroot : fs.fileData .root = _ := h.root
  refine ⟨?_, ?_, ?_, ?_⟩
  · rw [target, hroot]
    rfl
  · rw [hroot]
  · rw [hroot]
  · rw [hroot]

theorem RootReady.scannable (h : RootReady fs) (hs : Serves disk b fs) :
    Scannable disk b .root fs :=
  ⟨hs, h.target, h.opened, h.isDirectory, h.position⟩

/-- The root stays ready as long as its record is left alone. -/
theorem RootReady.of_eq (h : RootReady fs) (hroot : fs'.fileData .root = fs.fileData .root) :
    RootReady fs' := by
  refine ⟨?_, ?_, ?_, ?_⟩
  · rw [Fat12FileSystem.target, hroot]
    exact h.target
  · rw [hroot]
    exact h.opened
  · rw [hroot]
    exact h.isDirectory
  · rw [hroot]
    exact h.position

/-- Closing the root takes it back to its beginning. -/
theorem RootReady.close (h : RootReady fs)
    (hsame : SameFile (fs.fileData .root) (fs'.fileData .root)) :
    RootReady (fs'.close .root) := by
  have htarget := target_of_sameFile h.target hsame
  have hrecord : (fs'.close .root).fileData .root =
      { fs'.fileData .root with
        pub := { (fs'.fileData .root).pub with position := 0 }
        currentCluster := (fs'.fileData .root).firstCluster } := by
    rw [Fat12FileSystem.close, htarget]
    rfl
  refine ⟨?_, ?_, ?_, ?_⟩
  · rw [Fat12FileSystem.target, hrecord]
    exact htarget
  · rw [hrecord]
    exact hsame.opened.trans h.opened
  · rw [hrecord]
    exact hsame.isDirectory.trans h.isDirectory
  · rw [hrecord]

/-- An `open` that returns leaves the root ready. -/
theorem RootReady.openPath (h : RootReady fs) {path : List UInt8} {fuel : ℕ}
    (hreturned : (fs.openPath fuel path).1.returned = true) :
    RootReady (fs.openPath fuel path).2 := by
  change (openLoop fuel (relativePath path).length (some .root) none
    (relativePath path) fs).1.returned
    = true at hreturned
  change RootReady
    (openLoop fuel (relativePath path).length (some .root) none (relativePath path) fs).2
  generalize relativePath path = path at hreturned ⊢
  rcases path with - | ⟨c, rest⟩
  · exact h
  rw [List.length_cons, openLoop_some] at hreturned ⊢
  split
  · exact h
  next hshort =>
  rw [if_neg hshort] at hreturned
  obtain ⟨hframe, hsame⟩ := frame_findFileLoop .root (nextName (c :: rest)).1 fuel h.target
  generalize findFileLoop .root (nextName (c :: rest)).1 fuel fs = scan at hreturned hframe hsame ⊢
  rcases scan with ⟨- | - | e, fs₁⟩
  · exact absurd hreturned (by simp [afterScan, Opened.returned])
  · exact h.close hsame
  · have hclosed := h.close hsame
    rw [afterScan]
    split
    · exact hclosed
    · exact hclosed.of_eq (rootDirectory_openLoop hclosed.target e fuel rest.length _)

end Fat12FileSystem

open Fat12FileSystem

/-- A call that returns leaves the root ready. -/
theorem SessionInv.rootReady_step {disk : BlockDevice} {b : FatBootSector} {s : Session}
    (hinv : SessionInv disk b s) (h : RootReady s.fs) {op : Op} (hreturns : s.Returns op) :
    RootReady (s.step op).fs := by
  obtain ⟨path, fuel, rfl⟩ | rfl | ⟨i, hframe⟩ := hinv.base.frame_handle op
  · exact h.openPath hreturns
  · exact h.close (SameFile.refl _)
  · exact h.of_eq (hframe.fileData .root (by simp))

/-- So does a run of them. -/
theorem SessionInv.rootReady_run {disk : BlockDevice} {b : FatBootSector} {s : Session}
    (hinv : SessionInv disk b s) (ha : detectAccepts b = true) (h : RootReady s.fs) {ops : List Op}
    (hops : s.Meets (fun s op ↦ s.Returns op) ops) : RootReady (s.run ops).fs := by
  induction ops generalizing s with
  | nil => exact h
  | cons op ops ih => exact ih (hinv.step ha op) (hinv.rootReady_step h hops.1) hops.2

/-- **When `open` ends.** After a mount on a device whose reads succeed and any sequence of calls
that returned, `open` of a path ends if and only if each directory that it comes to scan has a size,
or a cluster chain with an end, or an entry that stops the scan. -/
theorem Session.open_ends_iff {disk : BlockDevice} (hd : disk.AllReadsSucceed) {fresh : FatData}
    {fs : Fat12FileSystem} (hm : detectAndMount disk fresh = some fs) (ops : List Op)
    (hops : (Session.mount fs).Meets (fun s op ↦ s.Returns op) ops) (path : List UInt8) :
    (∃ fuel, (((Session.mount fs).run ops).fs.openPath fuel path).1 ≠ .running) ↔
      ∀ d name g, Scans d name g .root (relativePath path) ((Session.mount fs).run ops).fs →
        g.ScanEnds d name := by
  have hmount := mounted_of_detectAndMount hm
  have hstart := SessionInv.mount hd hmount
  have hinv := hstart.run hmount.accepts ops
  have hready := hstart.rootReady_run hmount.accepts hmount.rootReady hops
  exact openLoop_ends_iff hmount.accepts (Nat.le_refl _) fun _ ↦ hready.scannable hinv.serves

/-- The first `open` after mounting. -/
theorem Session.open_ends_iff_twoCluster :
    (∃ fuel, (((Session.mount twoClusterFs).run []).fs.openPath fuel [0x2F, 0x61]).1 ≠ .running) ↔
      ∀ d name g, Scans d name g .root (relativePath [0x2F, 0x61])
        ((Session.mount twoClusterFs).run []).fs → g.ScanEnds d name :=
  Session.open_ends_iff (fun _ ↦ rfl) detectAndMount_twoClusterFloppy [] trivial [0x2F, 0x61]

/-! ### A directory that runs in a circle -/

/-- A floppy disk with one directory, `D`, whose only cluster is its own successor; its entries are
all named `AAAAAAAA.AAA`. -/
def cyclicFloppy : BlockDevice where
  sector lba j :=
    if lba = 0 then floppyBoot j
    else if lba = 1 then [0xF0, 0xFF, 0xFF, 0x02, 0x00, 0x00].getD j 0
    else if lba = 19 then
      [0x44, 32, 32, 32, 32, 32, 32, 32, 32, 32, 32, 0x10, 0, 0, 0, 0, 0, 0, 0, 0, 0, 0, 0, 0, 0, 0,
        2, 0, 0, 0, 0, 0].getD j 0
    else 0x41
  outcome _ := none
  calls := 0

/-- The driver after mounting that disk. -/
def cyclicFs : Fat12FileSystem := (detectAndMount cyclicFloppy blankData).get (by decide)

theorem detectAndMount_cyclicFloppy : detectAndMount cyclicFloppy blankData = some cyclicFs := by
  rw [cyclicFs, Option.some_get]

/-- The path `/D/X`. -/
def cyclicPath : List UInt8 := [0x2F, 0x44, 0x2F, 0x58]

/-- The driver when it has opened `D`. -/
def cyclicOpenedFs : Fat12FileSystem :=
  (((cyclicFs.findFile 1 .root [0x44]).2.close .root).openEntry
    (rootEntry cyclicFloppy cyclicFs.bs 0)).2

theorem openEntry_cyclicFloppy :
    ((cyclicFs.findFile 1 .root [0x44]).2.close .root).openEntry
      (rootEntry cyclicFloppy cyclicFs.bs 0) =
      (some (.slot 0), cyclicOpenedFs) :=
  Prod.ext (by decide) rfl

/-- What serves the volume while `D` is open. -/
theorem serves_cyclicOpenedFs : Serves cyclicFloppy cyclicFs.bs cyclicOpenedFs := by
  have hmount := mounted_of_detectAndMount detectAndMount_cyclicFloppy
  have hstart := (Mounted.rootReady hmount).target
  obtain ⟨hframe, hsame⟩ := frame_findFileLoop .root [0x44] 1 hstart
  have hclose :=
    frame_close (findFileLoop .root [0x44] 1 cyclicFs).2 (target_of_sameFile hstart hsame)
  have hopen := frame_openEntry ((cyclicFs.findFile 1 .root [0x44]).2.close .root)
    (rootEntry cyclicFloppy cyclicFs.bs 0)
  exact (((hmount.serves fun _ ↦ rfl).of_frame hframe).of_frame hclose).of_frame hopen

/-- From its first sector step on the walk through `D` stands still. -/
theorem walkState_cyclicOpenedFs (k : ℕ) :
    (cyclicOpenedFs.sectorSteps (.slot 0) (k + 1)).walkState (.slot 0) = (2, 0, 0) := by
  have hfirst : (cyclicOpenedFs.sectorSteps (.slot 0) 1).walkState (.slot 0) =
      (2, 0, 0) := by decide
  have hsecond : (cyclicOpenedFs.sectorSteps (.slot 0) 2).walkState (.slot 0) =
      (2, 0, 0) := by decide
  induction k with
  | zero => exact hfirst
  | succ k ih =>
    exact (deterministic_walk serves_cyclicOpenedFs (.slot 0) (k + 1) 1
      (ih.trans hfirst.symm)).trans hsecond

/-- No entry of `D` stops the scan for `X`. -/
theorem not_stops_cyclicOpenedFs (k : ℕ) :
    ∀ i < 16, ¬ (cyclicOpenedFs.dirEntry (.slot 0) k i).Stops [0x58] := by
  cases k with
  | zero => decide
  | succ k =>
    obtain ⟨hcluster, hsector, -⟩ : _ ∧ _ ∧ _ := by
      simpa only [walkState, Prod.mk.injEq] using walkState_cyclicOpenedFs k
    have hlba : (cyclicOpenedFs.clusterToLba 2 + 0).toNat = 33 := by decide
    have hsame : cyclicOpenedFs.dirSector (.slot 0) (k + 1) = cyclicFloppy.sector 33 := by
      funext j
      rw [dirSector, hcluster, hsector, hlba, serves_cyclicOpenedFs.sector]
    have hentries : ∀ i < 16, ¬ (FatDirectoryEntry.mk
        (slice (cyclicFloppy.sector 33) (entrySize * i) entrySize)).Stops [0x58] := by decide
    rw [← hsame] at hentries
    exact hentries

/-- **An `open` that does not end.** However many entries the scan of `D` has looked at, it goes on.
-/
theorem open_running_cyclicFloppy :
    (∀ fuel, (cyclicFs.openPath fuel cyclicPath).1 = .running) ∧
      ¬ ∃ fuel, (cyclicFs.openPath fuel cyclicPath).1 ≠ .running := by
  have hmount := mounted_of_detectAndMount detectAndMount_cyclicFloppy
  have hserves := hmount.serves fun _ ↦ rfl
  have hscans : Scans (.slot 0) [0x58] cyclicOpenedFs .root (relativePath cyclicPath) cyclicFs :=
    .there (by decide) (Prod.ext (by decide) rfl : cyclicFs.findFile 1 .root [0x44] =
      (.found (rootEntry cyclicFloppy cyclicFs.bs 0), _)) (by decide) openEntry_cyclicFloppy
      (.here (by decide) (by decide))
  have hnever : ¬ ∃ fuel, (cyclicFs.openPath fuel cyclicPath).1 ≠ .running := by
    intro hends
    have hends' := (openLoop_ends_iff hmount.accepts (Nat.le_refl _)
      fun _ ↦ hmount.rootReady.scannable hserves).1 hends _ _ _ hscans
    rcases hends' with hsize | ⟨k, hk, hend⟩ | ⟨k, i, hi, hentry⟩
    · exact hsize (by decide)
    · obtain ⟨k, rfl⟩ := Nat.exists_eq_succ_of_ne_zero hk.ne'
      have hcluster :
          ((cyclicOpenedFs.sectorSteps (.slot 0) (k + 1)).fileData (.slot 0)).currentCluster = 2 :=
        congrArg Prod.fst (walkState_cyclicOpenedFs k)
      rw [Nat.succ_eq_add_one, hcluster] at hend
      exact absurd hend (by decide)
    · exact not_stops_cyclicOpenedFs k i hi hentry
  exact ⟨fun fuel ↦ Classical.byContradiction fun hne ↦ hnever ⟨fuel, hne⟩, hnever⟩

end Aidos.Fat12
