import Mathlib.Logic.Relation
import Aidos.Fat12.HandleTable
import Aidos.Fat12.NameBuffers
import Aidos.Fat12.Subdirectories

/-!
# The memory that `open` touches

`open` copies each component of the path to `name` without looking at its length, and takes the file
that `OpenEntry` returns for the next directory without looking whether there is one. The turns of
its loop are followed here with what they touch (`Turn.Does`), for any path and any handle table.

`openPath_safe_iff` says when all of it is well: each component that the loop gets to is shorter
than the buffer, and each directory it finds with more of the path behind it can be opened, which
takes a free handle, a data cluster and a device that answers. Then `open` returns `NULL` whenever a
component cannot be opened.
-/

namespace Aidos.Fat12

open Fat12FileSystem Relation

variable {fs fs₁ : Fat12FileSystem} {path : List UInt8} {file : FileRef} {e : FatDirectoryEntry}

/-! ### Turns -/

/-- A turn of the loop of `open`. -/
structure Turn where
  /-- `current`. -/
  current : Option FileRef
  /-- What is left of the path. -/
  path : List UInt8
  /-- The driver. -/
  fs : Fat12FileSystem

/-- The slots that `OpenEntry` looks at. -/
def Fat12FileSystem.scannedSlots (fs : Fat12FileSystem) : List ℕ :=
  match fs.freeHandle with
  | none => List.range maxFileHandles
  | some handle => List.range (handle + 1)

namespace Turn

variable (t : Turn)

/-- The component of the turn. -/
def name : List UInt8 := (nextName t.path).1

/-- The path behind it. -/
def rest : List UInt8 := (nextName t.path).2.1

/-- `isLast`. -/
def isLast : Bool := (nextName t.path).2.2

/-- The first turn of `open(path)`. -/
def start (fs : Fat12FileSystem) (path : List UInt8) : Turn :=
  ⟨some .root, if path.head? = some 47 then path.tail else path, fs⟩

/-- `FindFile` finds `e` in the directory `file`, and leaves the driver as `fs₁`. -/
def Finds (file : FileRef) (e : FatDirectoryEntry) (fs₁ : Fat12FileSystem) : Prop :=
  t.path ≠ [] ∧ t.current = some file ∧ ∃ fuel, t.fs.findFile fuel file t.name = (.found e, fs₁)

/-- The turn gets to `OpenEntry`, for the entry `e`. -/
inductive Opens : FatDirectoryEntry → Fat12FileSystem → Prop
  /-- The entry was found, is a directory if it has to be one, and the directory was closed. -/
  | mk {file : FileRef} {e : FatDirectoryEntry} {fs₁ : Fat12FileSystem} : t.Finds file e fs₁ →
      ¬ (!t.isLast && !e.isDirectory) = true → Opens e (fs₁.close file)

/-- The turn behind it. -/
inductive Next : Turn → Turn → Prop
  /-- The file that `OpenEntry` returns is the next directory. -/
  | mk {t : Turn} {e : FatDirectoryEntry} {fs₁ : Fat12FileSystem} : t.name.length < maxPathSize →
      t.Opens e fs₁ → Next t ⟨(fs₁.openEntry e).1, t.rest, (fs₁.openEntry e).2⟩

/-- The turns that `open(path)` gets to. -/
def Reached (fs : Fat12FileSystem) (path : List UInt8) : Turn → Prop :=
  ReflTransGen Next (start fs path)

/-- What the turn touches. -/
inductive Does : Access → Prop
  /-- The component and its terminator are copied to `name`. -/
  | copy {i : ℕ} : i ≤ t.name.length → Does (.name i)
  /-- `FindFile` encodes it. -/
  | encode {a : Access} : a ∈ (encodeName t.name).1 → Does a
  /-- `ReadEntry` reads from the current directory. -/
  | file : Does (.file t.current)
  /-- `read` and `close` work on the record of its handle, wherever the scan stands. -/
  | record {file : FileRef} {fuel i : ℕ} : t.current = some file →
      (t.fs.findFile fuel file t.name).2.target file = .slot i → Does (.openedFiles i)
  /-- `OpenEntry` looks for a free slot. -/
  | openEntry {e : FatDirectoryEntry} {fs₁ : Fat12FileSystem} {i : ℕ} : t.Opens e fs₁ →
      i ∈ fs₁.scannedSlots → Does (.openedFiles i)

/-- The component does not fit its buffer, or cannot be opened. -/
inductive Blocked : Prop
  /-- It does not fit. -/
  | long : maxPathSize ≤ t.name.length → Blocked
  /-- There is no such entry. -/
  | missing {file : FileRef} {fuel : ℕ} {fs₁ : Fat12FileSystem} : t.current = some file →
      t.fs.findFile fuel file t.name = (.notFound, fs₁) → Blocked
  /-- It is not the last one, and the entry is no directory. -/
  | plain {file : FileRef} {e : FatDirectoryEntry} {fs₁ : Fat12FileSystem} : t.Finds file e fs₁ →
      t.isLast = false → e.isDirectory = false → Blocked
  /-- `OpenEntry` does not open it. -/
  | refused {e : FatDirectoryEntry} {fs₁ : Fat12FileSystem} : t.Opens e fs₁ →
      (fs₁.openEntry e).1 = none → Blocked

/-- The component fits, and if there is a directory of that name and more of the path behind it,
then the directory can be opened: a handle was free from the start, its first cluster is a data
cluster, and the device answers. -/
structure Passable (fs : Fat12FileSystem) (t : Turn) : Prop where
  /-- The buffer. -/
  fits : t.name.length < maxPathSize
  /-- The directory. -/
  opens : ∀ file e fs₁, t.Finds file e fs₁ → e.isDirectory = true → t.rest ≠ [] →
    (∃ i < maxFileHandles, (fs.fileData (.slot i)).opened = false) ∧
      2 ≤ e.firstCluster ∧ e.firstCluster < 0xFF8 ∧ fs₁.disk.Answers

end Turn

/-- **What is asked of `open`**: it touches only what is there; it returns `NULL` if a component
does not fit or cannot be opened; and its behaviour is defined. -/
structure OpensSafely (fs : Fat12FileSystem) (path : List UInt8) : Prop where
  /-- No array is left, and no null pointer followed. -/
  defined : ∀ t, Turn.Reached fs path t → t.path ≠ [] → ∀ a, t.Does a → a.Defined
  /-- `NULL`, whatever bound on the scans is large enough. -/
  null : ∀ t, Turn.Reached fs path t → t.path ≠ [] → t.Blocked →
    ∃ fuel, ∀ fuel' ≥ fuel, (fs.openPath fuel' path).1 = .null
  /-- The outcome of the loop. -/
  outcome : ∀ fuel, (fs.openPath fuel path).1 ≠ .undefined

/-! ### `OpenEntry` -/

namespace Fat12FileSystem

/-- When `OpenEntry` returns a file. -/
theorem openEntry_isSome_iff (e : FatDirectoryEntry) :
    (fs.openEntry e).1 ≠ none ↔
      (∃ i < maxFileHandles, (fs.fileData (.slot i)).opened = false) ∧
        2 ≤ e.firstCluster ∧ e.firstCluster < 0xFF8 ∧ fs.disk.Answers := by
  have hfree : fs.freeHandle.isSome ↔
      ∃ i < maxFileHandles, (fs.fileData (.slot i)).opened = false := isSome_freeHandle_iff
  rw [← hfree]
  have hrange : ¬ (e.firstCluster < 2 ∨ e.firstCluster ≥ 0xFF8) ↔
      2 ≤ e.firstCluster ∧ e.firstCluster < 0xFF8 := by
    rw [not_or, UInt32.not_lt, ge_iff_le, UInt32.not_le]
  have h := fs.opensEntry e
  generalize fs.openEntry e = result at h ⊢
  cases h with
  | full hfree =>
    rw [hfree]
    simp
  | refused _ hbad =>
    refine iff_of_false (fun hne ↦ hne rfl) ?_
    rintro ⟨-, hlow, hhigh, -⟩
    exact hrange.2 ⟨hlow, hhigh⟩ hbad
  | failed _ _ hnot =>
    refine iff_of_false (fun hne ↦ hne rfl) ?_
    rintro ⟨-, -, -, hans⟩
    exact hnot hans
  | opened hfree hgood hans =>
    obtain ⟨hlow, hhigh⟩ := hrange.1 hgood
    rw [hfree]
    exact iff_of_true (Option.some_ne_none _) ⟨rfl, hlow, hhigh, hans⟩

theorem disk_close (fs : Fat12FileSystem) (file : FileRef) : (fs.close file).disk = fs.disk := by
  rw [close]
  split
  · cases file <;> rfl
  · rfl

theorem scannedSlots_lt {i : ℕ} (h : i ∈ fs.scannedSlots) : i < maxFileHandles := by
  rw [scannedSlots] at h
  split at h
  · exact List.mem_range.1 h
  · next handle hfree =>
    have hlt := (freeHandle_spec hfree).1
    have hle := List.mem_range.1 h
    omega

end Fat12FileSystem

/-! ### Runs of the loop -/

namespace Turn

variable {s t t' : Turn}

theorem Opens.path_ne (h : t.Opens e fs₁) : t.path ≠ [] := by
  cases h with
  | mk hfinds _ => exact hfinds.1

/-- A scan takes nothing of the handle table. -/
theorem Finds.holding (h : Holding fs t.current t.fs) (hfinds : t.Finds file e fs₁) :
    Holding fs (some file) fs₁ := by
  obtain ⟨-, hcurrent, fuel, hscan⟩ := hfinds
  rw [hcurrent] at h
  have hheld := h.findFile t.name fuel
  rw [show findFileLoop file t.name fuel t.fs = (.found e, fs₁) from hscan] at hheld
  exact hheld

/-- Every turn holds no more than the slot of its current directory. -/
theorem Reached.holding (hroot : fs.target .root = .root) (h : Reached fs path t) :
    Holding fs t.current t.fs := by
  induction h with
  | refl => exact Holding.root hroot
  | tail _ hnext ih =>
    cases hnext with
    | mk _ hopens =>
      cases hopens with
      | mk hfinds _ => exact (hfinds.holding ih).openEntry _

/-- The slots that are free when `OpenEntry` looks for one are those that were free when `open` was
called. -/
theorem Reached.free_iff (hroot : fs.target .root = .root) (h : Reached fs path t)
    (hopens : t.Opens e fs₁) : (∃ i < maxFileHandles, (fs₁.fileData (.slot i)).opened = false) ↔
      ∃ i < maxFileHandles, (fs.fileData (.slot i)).opened = false := by
  cases hopens with
  | mk hfinds _ =>
    have hclose := (hfinds.holding (h.holding hroot)).openSlots_close
    refine exists_congr fun i ↦ and_congr_right fun hi ↦ ?_
    have hmem := Set.ext_iff.1 hclose i
    rw [mem_openSlots, mem_openSlots, and_congr_right_iff] at hmem
    rw [← Bool.not_eq_true, ← Bool.not_eq_true, hmem hi]

/-- One iteration. -/
theorem openLoop_turn (hpath : t.path ≠ []) (hcurrent : t.current = some file)
    (hfits : t.name.length < maxPathSize) (n fuel : ℕ) (entry : Option FatDirectoryEntry) :
    openLoop fuel (n + 1) t.current entry t.path t.fs =
      afterScan fuel n file t.isLast t.rest (t.fs.findFile fuel file t.name) := by
  obtain ⟨current, path, fs⟩ := t
  obtain rfl : current = some file := hcurrent
  obtain ⟨c, path, rfl⟩ := List.exists_cons_of_ne_nil hpath
  exact openLoop_of_findFile hfits rfl

/-- It is the same with more fuel, if the scan has ended. -/
theorem openLoop_of_scan {fuel fuel' : ℕ} {scan : Search × Fat12FileSystem} (hpath : t.path ≠ [])
    (hcurrent : t.current = some file) (hfits : t.name.length < maxPathSize)
    (hscan : t.fs.findFile fuel file t.name = scan) (hended : scan.1 ≠ .running)
    (hle : fuel ≤ fuel') (n : ℕ) (entry : Option FatDirectoryEntry) :
    openLoop fuel' (n + 1) t.current entry t.path t.fs =
      afterScan fuel' n file t.isLast t.rest scan := by
  have hmore : t.fs.findFile fuel' file t.name = t.fs.findFile fuel file t.name :=
    findFileLoop_mono file _ hle (by
      rw [show findFileLoop file t.name fuel t.fs = scan from hscan]
      exact hended)
  rw [openLoop_turn hpath hcurrent hfits, hmore, hscan]

/-- The rest of the path is shorter. -/
theorem length_rest (hpath : t.path ≠ []) : t.rest.length < t.path.length := by
  obtain ⟨current, path, fs⟩ := t
  obtain ⟨c, path, rfl⟩ := List.exists_cons_of_ne_nil hpath
  exact Nat.lt_succ_of_le (nextName_rest c path).1

theorem rest_eq_nil (hpath : t.path ≠ []) (hlast : t.isLast = true) : t.rest = [] := by
  obtain ⟨current, path, fs⟩ := t
  obtain ⟨c, path, rfl⟩ := List.exists_cons_of_ne_nil hpath
  exact (nextName_rest c path).2 hlast

/-- The turn that the loop takes behind a turn that gets to `OpenEntry`. -/
theorem Opens.openLoop_eq (h : t.Opens e fs₁) (hfits : t.name.length < maxPathSize) :
    ∃ fuel, ∀ fuel' ≥ fuel, ∀ n entry, openLoop fuel' (n + 1) t.current entry t.path t.fs =
      openLoop fuel' n (fs₁.openEntry e).1 (some e) t.rest (fs₁.openEntry e).2 := by
  cases h with
  | mk hfinds hdir =>
    obtain ⟨hpath, hcurrent, fuel, hscan⟩ := hfinds
    refine ⟨fuel, fun fuel' hle n entry ↦ ?_⟩
    rw [openLoop_of_scan hpath hcurrent hfits hscan (by simp) hle, afterScan, if_neg hdir]

/-- **The loop of `open` goes through the turns** that are reached from where it stands, if the
scans are bounded by enough. -/
theorem openLoop_of_reflTransGen (h : ReflTransGen Next s t) :
    ∃ fuel, ∀ fuel' ≥ fuel, ∀ n, s.path.length ≤ n → ∀ entry, ∃ n' entry', t.path.length ≤ n' ∧
      openLoop fuel' n s.current entry s.path s.fs =
        openLoop fuel' n' t.current entry' t.path t.fs := by
  induction h using ReflTransGen.head_induction_on with
  | refl => exact ⟨0, fun _ _ n hn entry ↦ ⟨n, entry, hn, rfl⟩⟩
  | head hnext _ ih =>
    cases hnext with
    | mk hfits hopens =>
      obtain ⟨fuel₁, hturn⟩ := hopens.openLoop_eq hfits
      obtain ⟨fuel₂, hrest⟩ := ih
      refine ⟨max fuel₁ fuel₂, fun fuel' hle n hn entry ↦ ?_⟩
      have hshorter := length_rest hopens.path_ne
      obtain ⟨n, rfl⟩ := Nat.exists_eq_succ_of_ne_zero (n := n) (by omega)
      rw [hturn fuel' (le_trans (Nat.le_max_left _ _) hle)]
      refine hrest fuel' (le_trans (Nat.le_max_right _ _) hle) n ?_ _
      exact Nat.le_of_lt_succ (Nat.lt_of_lt_of_le hshorter hn)

/-- From here on every turn has a directory and a component that fits. -/
def Sound (s : Turn) : Prop :=
  ∀ t, ReflTransGen Next s t → t.path ≠ [] → t.name.length < maxPathSize ∧ t.current ≠ none

/-- **The loop is defined** if its turns are, whatever the bound on its scans. -/
theorem Sound.openLoop_ne_undefined (fuel n : ℕ) :
    ∀ {s : Turn} (entry : Option FatDirectoryEntry), s.Sound →
      (openLoop fuel n s.current entry s.path s.fs).1 ≠ .undefined := by
  induction n with
  | zero =>
    rintro ⟨current, path, fs⟩ entry -
    rcases path with - | ⟨c, path⟩
    · rcases current with - | file <;> simp [openLoop]
    · simp [openLoop]
  | succ n ih =>
    intro s entry hs
    rcases hpath : s.path with - | ⟨c, path⟩
    · rcases s.current with - | file <;> simp [openLoop]
    have hne : s.path ≠ [] := by simp [hpath]
    obtain ⟨hfits, hfile⟩ := hs s .refl hne
    obtain ⟨file, hcurrent⟩ := Option.ne_none_iff_exists'.1 hfile
    rw [← hpath, openLoop_turn hne hcurrent hfits]
    rcases hscan : s.fs.findFile fuel file s.name with ⟨- | - | e, fs₁⟩
    · simp [afterScan]
    · simp [afterScan]
    · rw [afterScan]
      split
      · simp
      · next hdir =>
        have hopens : s.Opens e (fs₁.close file) := .mk ⟨hne, hcurrent, fuel, hscan⟩ hdir
        exact ih (s := ⟨_, _, _⟩) _ fun t ht ↦ hs t (.head (.mk hfits hopens) ht)

/-- **What a turn touches is there**, if it has a directory and its component fits. -/
theorem Reached.does_defined (hroot : fs.target .root = .root) (h : Reached fs path t)
    (hfits : t.name.length < maxPathSize) (hfile : t.current ≠ none) {a : Access} (ha : t.Does a) :
    a.Defined := by
  have hheld := h.holding hroot
  cases ha with
  | copy hi => exact Nat.lt_of_le_of_lt hi hfits
  | encode hmem => exact encodeName_defined hfits a hmem
  | file => exact hfile
  | @record file fuel i hcurrent htarget =>
    rw [hcurrent] at hheld
    have hafter := hheld.findFile t.name fuel
    obtain rfl : file = .slot i := (hafter.resolving.current file rfl).2.symm.trans htarget
    -- the slot is one of the open ones
    have hopen : i ∈ (findFileLoop (.slot i) t.name fuel t.fs).2.openSlots := by
      rw [hafter.openSlots]
      exact Or.inl rfl
    exact hopen.1
  | openEntry _ hmem => exact scannedSlots_lt hmem

/-- If every turn is passable, every turn has a directory. -/
theorem sound_of_passable (hroot : fs.target .root = .root)
    (h : ∀ t, Reached fs path t → t.path ≠ [] → t.Passable fs) : (start fs path).Sound := by
  intro t ht hpath
  refine ⟨(h t ht hpath).fits, ?_⟩
  rcases ReflTransGen.cases_tail ht with rfl | ⟨s, hs, hnext⟩
  · exact Option.some_ne_none _
  cases hnext with
  | mk hfits hopens =>
    have hrest : s.rest ≠ [] := hpath
    have hfree := Reached.free_iff hroot hs hopens
    refine (openEntry_isSome_iff _).2 ?_
    rw [hfree]
    cases hopens with
    | mk hfinds hdir =>
      -- with more of the path behind it, the entry is a directory
      have hnot : s.isLast = false :=
        Bool.eq_false_iff.2 fun hlast ↦ hrest (rest_eq_nil hfinds.1 hlast)
      rw [disk_close]
      exact (h s hs hfinds.1).opens _ _ _ hfinds (by simpa [hnot] using hdir) hrest

/-- What `open` returns when the component of a turn cannot be opened. -/
theorem Blocked.null (h : t.Blocked) (hpath : t.path ≠ []) (hfits : t.name.length < maxPathSize)
    (hrest : ∀ e fs₁, t.Opens e fs₁ → (fs₁.openEntry e).1 = none → t.rest = []) :
    ∃ fuel, ∀ fuel' ≥ fuel, ∀ n, t.path.length ≤ n → ∀ entry,
      (openLoop fuel' n t.current entry t.path t.fs).1 = .null := by
  have hlength : 0 < t.path.length := List.length_pos_iff.2 hpath
  have hsucc {n : ℕ} (hn : t.path.length ≤ n) : ∃ k, n = k + 1 :=
    Nat.exists_eq_succ_of_ne_zero (by omega)
  cases h with
  | long hlong => exact absurd hfits (Nat.not_lt.2 hlong)
  | @missing file fuel fs₁ hcurrent hscan =>
    refine ⟨fuel, fun fuel' hle n hn entry ↦ ?_⟩
    obtain ⟨n, rfl⟩ := hsucc hn
    rw [openLoop_of_scan hpath hcurrent hfits hscan (by simp) hle, afterScan]
  | plain hfinds hlast hplain =>
    obtain ⟨-, hcurrent, fuel, hscan⟩ := hfinds
    refine ⟨fuel, fun fuel' hle n hn entry ↦ ?_⟩
    obtain ⟨n, rfl⟩ := hsucc hn
    rw [openLoop_of_scan hpath hcurrent hfits hscan (by simp) hle, afterScan,
      if_pos (by rw [hlast, hplain]; rfl)]
  | refused hopens hnone =>
    obtain ⟨fuel, hturn⟩ := hopens.openLoop_eq hfits
    refine ⟨fuel, fun fuel' hle n hn entry ↦ ?_⟩
    obtain ⟨n, rfl⟩ := hsucc hn
    rw [hturn fuel' hle, hrest _ _ hopens hnone, hnone, openLoop]

end Turn

/-! ### The path -/

open Turn in
/-- **`open` is safe** for a path and a handle table if and only if every component that its loop
gets to is shorter than the buffer, and every directory that it finds with more of the path behind
it can be opened: a handle was free when `open` was called, the first cluster is a data cluster, and
the device answers the request for its first sector. -/
theorem openPath_safe_iff (hroot : fs.target .root = .root) (path : List UInt8) :
    OpensSafely fs path ↔ ∀ t, Reached fs path t → t.path ≠ [] → t.Passable fs := by
  constructor
  · intro h t ht hpath
    have hfits : t.name.length < maxPathSize := h.defined t ht hpath _ (.copy le_rfl)
    refine ⟨hfits, fun file e fs₁ hfinds hdir hrest ↦ ?_⟩
    have hopens : t.Opens e (fs₁.close file) := .mk hfinds (by simp [hdir])
    have hnext := h.defined _ (.tail ht (.mk hfits hopens)) hrest _ .file
    rw [← ht.free_iff hroot hopens, ← disk_close fs₁ file]
    exact (openEntry_isSome_iff e).1 hnext
  · intro h
    have hsound := sound_of_passable hroot h
    refine ⟨fun t ht hpath a ha ↦ ?_, fun t ht hpath hblocked ↦ ?_, fun fuel ↦ ?_⟩
    · obtain ⟨hfits, hfile⟩ := hsound t ht hpath
      exact Reached.does_defined hroot ht hfits hfile ha
    · obtain ⟨fuel₁, hrun⟩ := openLoop_of_reflTransGen ht
      obtain ⟨fuel₂, hnull⟩ := hblocked.null hpath (hsound t ht hpath).1 fun e fs₁ hopens hnone ↦ by
        by_contra hrest
        exact (hsound _ (.tail ht (.mk (hsound t ht hpath).1 hopens)) hrest).2 hnone
      refine ⟨max fuel₁ fuel₂, fun fuel' hle ↦ ?_⟩
      obtain ⟨n', entry', hn', hturn⟩ :=
        hrun fuel' (le_trans (Nat.le_max_left _ _) hle) _ le_rfl none
      have hend := hnull fuel' (le_trans (Nat.le_max_right _ _) hle) n' hn' entry'
      rw [openPath]
      exact (congrArg Prod.fst hturn).trans hend
    · exact hsound.openLoop_ne_undefined fuel _ none

/-! ### A floppy disk with a directory -/

/-- `/D/B`. -/
def nestedPath : List UInt8 := [0x2F, 0x44, 0x2F, 0x42]

open Turn in
/-- The directory `D` is opened on the way to `B`. -/
theorem passable_nestedFs (t : Turn) (h : Reached nestedFs nestedPath t) (hpath : t.path ≠ []) :
    t.Passable nestedFs := by
  -- the loop has two turns
  have hturns : t = start nestedFs nestedPath ∨ t.path = [0x42] ∨ t.path = [] := by
    clear hpath
    induction h with
    | refl => exact Or.inl rfl
    | tail _ hnext ih =>
      cases hnext with
      | mk _ hopens =>
        rcases ih with rfl | hlast | hend
        · exact Or.inr (Or.inl (by decide : (start nestedFs nestedPath).rest = [0x42]))
        · refine Or.inr (Or.inr ?_)
          show (nextName _).2.1 = []
          rw [hlast]
          decide
        · exact absurd hend hopens.path_ne
  rcases hturns with rfl | hlast | hend
  · refine ⟨by decide, ?_⟩
    rintro file e fs₁ ⟨-, hcurrent, fuel, hscan⟩ - -
    obtain rfl : FileRef.root = file := Option.some.inj hcurrent
    obtain ⟨hended, hentry, hfree, hanswers⟩ :
        (nestedFs.findFile 1 .root (start nestedFs nestedPath).name).1 ≠ .running ∧
        (nestedFs.findFile 1 .root (start nestedFs nestedPath).name).1 =
          .found (rootEntry nestedFloppy nestedFs.bs 0) ∧
        (nestedFs.fileData (.slot 0)).opened = false ∧
        (nestedFs.findFile 1 .root (start nestedFs nestedPath).name).2.disk.Answers := by
      decide +kernel
    have hscan' : nestedFs.findFile fuel .root (start nestedFs nestedPath).name = (.found e, fs₁) :=
      hscan
    have hfound :
        (nestedFs.findFile fuel .root (start nestedFs nestedPath).name).1 ≠ .running := by
      rw [hscan']
      simp
    have hsame := findFile_eq hfound hended
    rw [hscan'] at hsame
    rw [hsame] at hentry hanswers
    obtain rfl := Search.found.inj hentry
    exact ⟨⟨0, by decide, hfree⟩, by decide, by decide, hanswers⟩
  · refine ⟨?_, fun file e fs₁ _ _ hrest ↦ absurd ?_ hrest⟩
    · show (nextName t.path).1.length < maxPathSize
      rw [hlast]
      decide
    · show (nextName t.path).2.1 = []
      rw [hlast]
      decide
  · exact absurd hend hpath

/-- So `open` is safe there. -/
theorem openPath_safe_nestedFs : OpensSafely nestedFs nestedPath :=
  (openPath_safe_iff (by decide) nestedPath).2 passable_nestedFs

/-- A name of as many characters as `name` has. -/
def longPath : List UInt8 := List.replicate 256 0x61

/-- The caller that has opened `D` ten times. -/
def crowdedLedger : Ledger :=
  ((Ledger.mount nestedFs).run (List.replicate 10 (.openFile [0x2F, 0x44] 1))).get
    (by decide +kernel)

/-- **Two paths that `open` does not survive**: a component that does not fit, and a component
behind a directory when all handles are in use. -/
theorem not_opensSafely :
    (0 ∉ longPath ∧ (nestedFs.openPath 1 longPath).1 = .undefined ∧
        ¬ OpensSafely nestedFs longPath) ∧
      crowdedLedger.fs.target .root = .root ∧
      (crowdedLedger.fs.openPath 1 nestedPath).1 = .undefined ∧
      ¬ OpensSafely crowdedLedger.fs nestedPath := by
  have hlong : (nestedFs.openPath 1 longPath).1 = .undefined := by decide +kernel
  obtain ⟨hroot, hcrowded⟩ : crowdedLedger.fs.target .root = .root ∧
      (crowdedLedger.fs.openPath 1 nestedPath).1 = .undefined := by decide +kernel
  exact ⟨⟨by decide, hlong, fun h ↦ h.outcome 1 hlong⟩, hroot, hcrowded,
    fun h ↦ h.outcome 1 hcrowded⟩

end Aidos.Fat12
