import Mathlib.Data.Bool.AllAny
import Mathlib.Logic.Function.Basic
import Aidos.Fat12.Opening

/-!
# Sessions

A caller of the driver: it opens files by path, reads and seeks in the ones it holds, in any order,
and closes them. Beside the driver a `Session` keeps what the caller knows: for each handle it
holds, the directory entry the file was opened from and the position its own calls have left it at.

`SessionBase` says what holds on any device, and `SessionInv` ties the two together on a faultless
one; `read_of_session` is the result: whatever was done before, and whatever else is open, a read of
a file on a sound cluster chain delivers the slice of the file's on-disk bytes from its own
position.
-/

namespace Aidos.Fat12

/-- The driver and what its caller knows: the entry and the position of each handle it holds. -/
structure Session where
  /-- The driver. -/
  fs : Fat12FileSystem
  /-- The handles held. -/
  handles : ℕ → Option (FatDirectoryEntry × ℕ)

/-- A call the caller makes. -/
inductive Op where
  /-- `open(path)`, each directory scan looking at no more than `fuel` entries. -/
  | openFile (path : List UInt8) (fuel : ℕ)
  /-- `read(handle, n)`. -/
  | read (i : ℕ) (n : UInt32)
  /-- `seek(handle, position)`. -/
  | seek (i : ℕ) (position : UInt32)
  /-- `close(handle)`. -/
  | close (i : ℕ)
  /-- `close` of the root, which `open` returns for an empty path. -/
  | closeRoot

namespace Session

/-- A caller of a freshly mounted driver. -/
def mount (fs : Fat12FileSystem) : Session := ⟨fs, fun _ ↦ none⟩

/-- One call. A caller only uses handles it holds. A read moves the position by what there is to
read, a seek inside the file sets it. -/
def step (s : Session) : Op → Session
  | .openFile path fuel =>
    { fs := (s.fs.openPath fuel path).2
      handles := match (s.fs.openPath fuel path).1 with
        | .file (.slot i) (some e) => Function.update s.handles i (some (e, 0))
        | _ => s.handles }
  | .read i n =>
    match s.handles i with
    | none => s
    | some (e, p) =>
      { fs := (s.fs.read (.slot i) n).2
        handles := Function.update s.handles i (some (e, p + min n.toNat (e.size.toNat - p))) }
  | .seek i position =>
    match s.handles i with
    | none => s
    | some (e, p) =>
      { fs := (s.fs.seek (.slot i) position).2
        handles := Function.update s.handles i
          (some (e, if position.toNat ≤ e.size.toNat then position.toNat else p)) }
  | .close i =>
    match s.handles i with
    | none => s
    | some _ =>
      { fs := s.fs.close (.slot i)
        handles := Function.update s.handles i none }
  | .closeRoot => { s with fs := s.fs.close .root }

/-- A sequence of calls. -/
def run (s : Session) (ops : List Op) : Session := ops.foldl step s

end Session

/-! ### Handles held -/

open Fat12FileSystem in
/-- What holds between the calls of a session on any device: every handle held is an open slot under
its own number. -/
structure SessionBase (disk : BlockDevice) (b : FatBootSector) (s : Session) : Prop where
  /-- The driver is mounted on the volume. -/
  volume : Volume disk b s.fs
  /-- The root record keeps its handle. -/
  root : s.fs.target .root = .root
  /-- The handles held are open slots. -/
  held : ∀ {i e p}, s.handles i = some (e, p) →
    (s.fs.fileData (.slot i)).opened = true ∧ s.fs.target (.slot i) = .slot i

namespace SessionBase

open Fat12FileSystem

variable {disk : BlockDevice} {b : FatBootSector} {s : Session}

theorem mount {fs : Fat12FileSystem} (h : Mounted disk fs) :
    SessionBase disk fs.bs (Session.mount fs) where
  volume := h.volume
  root := by
    rw [Session.mount, target, fileData, h.root]
    rfl
  held hopen := absurd hopen (by simp [Session.mount])

/-- A call on one handle: the others keep their record. -/
theorem of_slot (h : SessionBase disk b s) {fs : Fat12FileSystem} {i : ℕ}
    {v : Option (FatDirectoryEntry × ℕ)} (hf : Frame {.slot i} s.fs fs)
    (hheld : ∀ {e p}, v = some (e, p) →
      (fs.fileData (.slot i)).opened = true ∧ fs.target (.slot i) = .slot i) :
    SessionBase disk b ⟨fs, Function.update s.handles i v⟩ where
  volume := h.volume.of_frame hf
  root := target_of_frame h.root hf (by simp)
  held {j e p} hopen := by
    dsimp only at hopen ⊢
    by_cases hij : j = i
    · subst hij
      rw [Function.update_self] at hopen
      exact hheld hopen
    · rw [Function.update_of_ne hij] at hopen
      have hj : FileRef.slot j ∉ ({.slot i} : Set FileRef) := by simpa using hij
      obtain ⟨hopened, htarget⟩ := h.held hopen
      exact ⟨hf.fileData _ hj ▸ hopened, target_of_frame htarget hf hj⟩

/-- A call that leaves the records of all held handles alone. -/
theorem of_free (h : SessionBase disk b s) {fs : Fat12FileSystem} (hf : Frame s.fs.freeRefs s.fs fs)
    (hroot : fs.target .root = .root) : SessionBase disk b ⟨fs, s.handles⟩ where
  volume := h.volume.of_frame hf
  root := hroot
  held hopen := by
    obtain ⟨hopened, htarget⟩ := h.held hopen
    have hj := slot_not_mem_freeRefs hopened
    exact ⟨hf.fileData _ hj ▸ hopened, target_of_frame htarget hf hj⟩

/-- Reads and seeks on a held handle keep it open under its number. -/
theorem of_sameFile (h : SessionBase disk b s) {i : ℕ} {e : FatDirectoryEntry} {p : ℕ}
    (hopen : s.handles i = some (e, p)) {fs : Fat12FileSystem} (v : Option (FatDirectoryEntry × ℕ))
    (hf : Frame {s.fs.target (.slot i)} s.fs fs)
    (hsame : SameFile (s.fs.fileData (s.fs.target (.slot i)))
      (fs.fileData (s.fs.target (.slot i)))) :
    SessionBase disk b ⟨fs, Function.update s.handles i v⟩ := by
  obtain ⟨hopened, htarget⟩ := h.held hopen
  rw [htarget] at hf hsame
  exact h.of_slot hf fun _ ↦ ⟨hsame.opened.trans hopened, target_of_sameFile htarget hsame⟩

/-- The handle that `open` returns. -/
theorem held_openPath (h : SessionBase disk b s) (path : List UInt8) (fuel : ℕ) {i : ℕ}
    {e : FatDirectoryEntry} (hopen : (s.fs.openPath fuel path).1 = .file (.slot i) (some e)) :
    ((s.fs.openPath fuel path).2.fileData (.slot i)).opened = true ∧
      (s.fs.openPath fuel path).2.target (.slot i) = .slot i := by
  obtain ⟨fs₁, -, hentry⟩ := openPath_of_file h.root fuel path hopen
  obtain ⟨j, -, href, htarget, hopened⟩ := openEntry_of_some hentry
  obtain rfl := FileRef.slot.inj href
  exact ⟨hopened, htarget⟩

theorem frame_closeRoot (h : SessionBase disk b s) :
    Frame s.fs.freeRefs s.fs (s.fs.close .root) ∧ (s.fs.close .root).target .root = .root := by
  refine ⟨(frame_close s.fs h.root).mono (Set.singleton_subset_iff.2 (root_mem_freeRefs s.fs)), ?_⟩
  rw [target, handle_close s.fs h.root]
  exact h.root

/-- A call on a handle of the session touches the record of that handle only. -/
theorem frame_handle (h : SessionBase disk b s) (op : Op) :
    (∃ path fuel, op = .openFile path fuel) ∨ op = .closeRoot ∨
      ∃ i, Frame {.slot i} s.fs (s.step op).fs := by
  cases op with
  | openFile path fuel => exact Or.inl ⟨path, fuel, rfl⟩
  | read i n =>
    refine Or.inr (Or.inr ⟨i, ?_⟩)
    rw [Session.step]
    split
    · exact Frame.refl _ _
    · next hopen => exact frame_read_of_target (h.held hopen).2 n
  | seek i position =>
    refine Or.inr (Or.inr ⟨i, ?_⟩)
    rw [Session.step]
    split
    · exact Frame.refl _ _
    · next hopen => exact frame_seek_of_target (h.held hopen).2 position
  | close i =>
    refine Or.inr (Or.inr ⟨i, ?_⟩)
    rw [Session.step]
    split
    · exact Frame.refl _ _
    · next hopen => exact frame_close s.fs (h.held hopen).2
  | closeRoot => exact Or.inr (Or.inl rfl)

/-- Every call keeps to a frame. -/
theorem frame (h : SessionBase disk b s) (op : Op) : ∃ refs, Frame refs s.fs (s.step op).fs := by
  obtain ⟨path, fuel, rfl⟩ | rfl | ⟨i, hframe⟩ := h.frame_handle op
  · exact ⟨_, frame_openPath h.root fuel path⟩
  · exact ⟨_, h.frame_closeRoot.1⟩
  · exact ⟨_, hframe⟩

/-- Every call keeps the handles held in order. -/
theorem step (h : SessionBase disk b s) (op : Op) : SessionBase disk b (s.step op) := by
  cases op with
  | openFile path fuel =>
    have hfree :=
      h.of_free (frame_openPath h.root fuel path) (target_root_openPath h.root fuel path)
    rw [Session.step]
    split
    · next hopen => exact hfree.of_slot (Frame.refl _ _) fun _ ↦ h.held_openPath path fuel hopen
    · exact hfree
  | read i n =>
    rw [Session.step]
    split
    · exact h
    · next hopen => exact h.of_sameFile hopen _ (frame_read _ _ n) (sameFile_read _ _ n)
  | seek i position =>
    rw [Session.step]
    split
    · exact h
    · next hopen =>
      exact h.of_sameFile hopen _ (frame_seek _ _ position) (sameFile_seek _ _ position)
  | close i =>
    rw [Session.step]
    split
    · exact h
    · next hopen =>
      exact h.of_slot (frame_close s.fs (h.held hopen).2) fun hnone ↦ absurd hnone (by simp)
  | closeRoot => exact h.of_free h.frame_closeRoot.1 h.frame_closeRoot.2

/-- Every sequence of calls does. -/
theorem run (h : SessionBase disk b s) (ops : List Op) : SessionBase disk b (s.run ops) := by
  induction ops generalizing s with
  | nil => exact h
  | cons op ops ih => exact ih (h.step op)

end SessionBase

/-! ### Files in step -/

open Fat12FileSystem in
/-- **The session invariant.** Every handle held is an open slot under its own number; and if the
lookups so far were faithful, every held file on a sound chain is in step at the caller's
position. -/
structure SessionInv (disk : BlockDevice) (b : FatBootSector) (s : Session) : Prop where
  /-- The driver serves the volume. -/
  serves : Serves disk b s.fs
  /-- The root record keeps its handle. -/
  root : s.fs.target .root = .root
  /-- The handles held are open slots. -/
  held : ∀ {i e p}, s.handles i = some (e, p) →
    (s.fs.fileData (.slot i)).opened = true ∧ s.fs.target (.slot i) = .slot i
  /-- The files held are in step. -/
  inStep : Faithful (diskFat disk b) s.fs.trace → ∀ {i e p}, s.handles i = some (e, p) →
    e.isDirectory = false → ∀ C : ClusterChain (diskFat disk b),
      C.Covers e.firstCluster e.size.toNat →
        InStep disk b (C.stream e.firstCluster e.size.toNat) (.slot i) p s.fs

namespace SessionInv

open Fat12FileSystem

variable {disk : BlockDevice} {b : FatBootSector} {s : Session}

theorem base (h : SessionInv disk b s) : SessionBase disk b s := ⟨h.serves.volume, h.root, h.held⟩

theorem mount {fs : Fat12FileSystem} (hd : disk.AllReadsSucceed) (h : Mounted disk fs) :
    SessionInv disk fs.bs (Session.mount fs) where
  serves := h.serves hd
  root := (SessionBase.mount h).root
  held := (SessionBase.mount h).held
  inStep _ _ _ _ hopen := absurd hopen (by simp [Session.mount])

/-- **A call**: apart from the files in step, the handles held are in order on any device. -/
theorem of_base (h : SessionInv disk b s) {op : Op}
    (hstep : Faithful (diskFat disk b) (s.step op).fs.trace → ∀ {i e p},
      (s.step op).handles i = some (e, p) → e.isDirectory = false →
      ∀ C : ClusterChain (diskFat disk b), C.Covers e.firstCluster e.size.toNat →
        InStep disk b (C.stream e.firstCluster e.size.toNat) (.slot i) p (s.step op).fs) :
    SessionInv disk b (s.step op) where
  serves := by
    obtain ⟨refs, hf⟩ := h.base.frame op
    exact h.serves.of_frame hf
  root := (h.base.step op).root
  held := (h.base.step op).held
  inStep := hstep

/-- The files that a call on the handle `i` leaves alone stay in step; only the handle itself has to
be looked at. -/
theorem inStep_update (h : SessionInv disk b s) {fs : Fat12FileSystem} {i : ℕ}
    {v : Option (FatDirectoryEntry × ℕ)} (hf : Frame {.slot i} s.fs fs)
    (hfaith : Faithful (diskFat disk b) fs.trace)
    (hstep : ∀ {e p}, v = some (e, p) → e.isDirectory = false →
      ∀ C : ClusterChain (diskFat disk b), C.Covers e.firstCluster e.size.toNat →
        InStep disk b (C.stream e.firstCluster e.size.toNat) (.slot i) p fs)
    {j : ℕ} {e : FatDirectoryEntry} {p : ℕ} (hopen : Function.update s.handles i v j = some (e, p))
    (hfile : e.isDirectory = false) (C : ClusterChain (diskFat disk b))
    (hC : C.Covers e.firstCluster e.size.toNat) :
    InStep disk b (C.stream e.firstCluster e.size.toNat) (.slot j) p fs := by
  by_cases hij : j = i
  · subst hij
    rw [Function.update_self] at hopen
    exact hstep hopen hfile C hC
  · rw [Function.update_of_ne hij] at hopen
    have hj : FileRef.slot j ∉ ({.slot i} : Set FileRef) := by simpa using hij
    exact (h.inStep (hfaith.of_suffix hf.trace) hopen hfile C hC).of_frame hf hj

/-- The files held stay in step over a call that leaves their records alone. -/
theorem inStep_of_free (h : SessionInv disk b s) {fs : Fat12FileSystem}
    (hf : Frame s.fs.freeRefs s.fs fs)
    (hfaith : Faithful (diskFat disk b) fs.trace) {j : ℕ} {e : FatDirectoryEntry} {p : ℕ}
    (hopen : s.handles j = some (e, p)) (hfile : e.isDirectory = false)
    (C : ClusterChain (diskFat disk b)) (hC : C.Covers e.firstCluster e.size.toNat) :
    InStep disk b (C.stream e.firstCluster e.size.toNat) (.slot j) p fs :=
  (h.inStep (hfaith.of_suffix hf.trace) hopen hfile C hC).of_frame hf
    (slot_not_mem_freeRefs (h.held hopen).1)

variable (ha : detectAccepts b = true)

include ha

theorem step_openFile (h : SessionInv disk b s) (path : List UInt8) (fuel : ℕ) :
    SessionInv disk b (s.step (.openFile path fuel)) := by
  have hframe := frame_openPath h.root fuel path
  refine h.of_base ?_
  rw [Session.step]
  split
  · next i e hopened =>
    obtain ⟨fs₁, hf, hentry⟩ := openPath_of_file h.root fuel path hopened
    intro hfaith j e' p' hopen hfile C hC
    dsimp only at hopen ⊢
    by_cases hij : j = i
    · subst hij
      rw [Function.update_self] at hopen
      obtain ⟨rfl, rfl⟩ := Prod.mk.inj (Option.some.inj hopen)
      exact inStep_openEntry ha (h.serves.of_frame hf) hfile hC hentry
    · rw [Function.update_of_ne hij] at hopen
      exact h.inStep_of_free hframe hfaith hopen hfile C hC
  · exact fun hfaith _ _ _ ↦ h.inStep_of_free hframe hfaith

theorem step_read (h : SessionInv disk b s) (i : ℕ) (n : UInt32) :
    SessionInv disk b (s.step (.read i n)) := by
  refine h.of_base ?_
  rw [Session.step]
  split
  · exact h.inStep
  · next e p hopen =>
    have hframe := frame_read_of_target (h.held hopen).2 n
    intro hfaith _ _ _
    refine h.inStep_update hframe hfaith fun {e' p'} hnew hfile C hC ↦ ?_
    obtain ⟨rfl, rfl⟩ := Prod.mk.inj (Option.some.inj hnew)
    have hold := h.inStep (hfaith.of_suffix hframe.trace) hopen hfile C hC
    exact (read_inStep ha hC hold n hfaith).2

theorem step_seek (h : SessionInv disk b s) (i : ℕ) (position : UInt32) :
    SessionInv disk b (s.step (.seek i position)) := by
  refine h.of_base ?_
  rw [Session.step]
  split
  · exact h.inStep
  · next e p hopen =>
    have hframe := frame_seek_of_target (h.held hopen).2 position
    intro hfaith _ _ _
    refine h.inStep_update hframe hfaith fun {e' p'} hnew hfile C hC ↦ ?_
    obtain ⟨rfl, rfl⟩ := Prod.mk.inj (Option.some.inj hnew)
    have hold := h.inStep (hfaith.of_suffix hframe.trace) hopen hfile C hC
    split
    · next hle => exact seek_inStep ha hC hold hle hfaith
    · next hgt =>
      -- the driver turns the call down
      rw [seek_of_lt hold (by omega)]
      exact hold

omit ha in
theorem step_close (h : SessionInv disk b s) (i : ℕ) : SessionInv disk b (s.step (.close i)) := by
  refine h.of_base ?_
  rw [Session.step]
  split
  · exact h.inStep
  · next hopen =>
    intro hfaith _ _ _
    exact h.inStep_update (frame_close s.fs (h.held hopen).2) hfaith fun hnone ↦
      absurd hnone (by simp)

omit ha in
theorem step_closeRoot (h : SessionInv disk b s) : SessionInv disk b (s.step .closeRoot) :=
  h.of_base fun hfaith _ _ _ ↦ h.inStep_of_free h.base.frame_closeRoot.1 hfaith

/-- Every call keeps the session invariant. -/
theorem step (h : SessionInv disk b s) (op : Op) : SessionInv disk b (s.step op) := by
  cases op with
  | openFile path fuel => exact h.step_openFile ha path fuel
  | read i n => exact h.step_read ha i n
  | seek i position => exact h.step_seek ha i position
  | close i => exact h.step_close i
  | closeRoot => exact h.step_closeRoot

/-- Every sequence of calls keeps it. -/
theorem run (h : SessionInv disk b s) (ops : List Op) : SessionInv disk b (s.run ops) := by
  induction ops generalizing s with
  | nil => exact h
  | cons op ops ih => exact ih (h.step ha op)

end SessionInv

/-- Faithfulness of a given trace can be computed. -/
theorem faithful_of_all {fat : ℕ → UInt8} {trace : List Event}
    (h : (trace.all fun
      | .successor c r => r == fatEntry fat c.toNat
      | _ => true) = true) : Faithful fat trace := by
  intro c r _ _ hmem
  have hev := List.all_eq_true.1 h _ hmem
  exact eq_of_beq hev

/-- **Reads deliver the file.** After a mount on a device whose reads succeed and any sequence of
opens, reads, seeks and closes, let a file be held that was opened from the entry `e` and whose own
calls left it at position `p`; let `C` be a sound chain of the on-disk FAT from its first cluster,
with room for its size. If the FAT lookups made so far returned on-disk successors, a read of `n`
bytes delivers `min n (size - p)` bytes, and they are those of the chain from `p` on. -/
theorem Session.read_of_session {disk : BlockDevice} (hd : disk.AllReadsSucceed) {fresh : FatData}
    {fs : Fat12FileSystem} (hm : detectAndMount disk fresh = some fs) (ops : List Op)
    {i : ℕ} {e : FatDirectoryEntry} {p : ℕ}
    (hopen : ((Session.mount fs).run ops).handles i = some (e, p)) (hfile : e.isDirectory = false)
    (C : ClusterChain (diskFat disk fs.bs)) (hC : C.Covers e.firstCluster e.size.toNat) (n : UInt32)
    (hfaith : Faithful (diskFat disk fs.bs)
      (((Session.mount fs).run ops).fs.read (.slot i) n).2.trace) :
    (((Session.mount fs).run ops).fs.read (.slot i) n).1 =
      slice C.byteAt p (min n.toNat (e.size.toNat - p)) := by
  have hmount := Fat12FileSystem.mounted_of_detectAndMount hm
  have hinv := (SessionInv.mount hd hmount).run hmount.accepts ops
  have htrace := (Fat12FileSystem.frame_read ((Session.mount fs).run ops).fs (.slot i) n).trace
  have hstep := hinv.inStep (hfaith.of_suffix htrace) hopen hfile C hC
  exact (Fat12FileSystem.read_inStep hmount.accepts hC hstep n hfaith).1

/-! ### A file of two clusters -/

/-- A floppy disk with one file, `A`, of 600 bytes on the clusters 2 and 3; byte `j` of sector `lba`
is the sum of the two. -/
def twoClusterFloppy : BlockDevice where
  sector lba j :=
    if lba = 0 then floppyBoot j
    else if lba = 1 then [0xF0, 0xFF, 0xFF, 0x03, 0xF0, 0xFF].getD j 0
    else if lba = 19 then
      [0x41, 32, 32, 32, 32, 32, 32, 32, 32, 32, 32, 0x20, 0, 0, 0, 0, 0, 0, 0, 0, 0, 0, 0, 0, 0, 0,
        2, 0, 0x58, 0x02, 0, 0].getD j 0
    else UInt8.ofNat (lba + j)
  outcome _ := none
  calls := 0

/-- The driver after mounting that disk. -/
def twoClusterFs : Fat12FileSystem :=
  (detectAndMount twoClusterFloppy blankData).get (by decide)

theorem detectAndMount_twoClusterFloppy :
    detectAndMount twoClusterFloppy blankData = some twoClusterFs := by
  rw [twoClusterFs, Option.some_get]

/-- The entry of `A`. -/
def twoClusterEntry : FatDirectoryEntry :=
  ⟨[0x41, 32, 32, 32, 32, 32, 32, 32, 32, 32, 32, 0x20, 0, 0, 0, 0, 0, 0, 0, 0, 0, 0, 0, 0, 0, 0,
    2, 0, 0x58, 0x02, 0, 0]⟩

theorem inRange_two_three : ∀ c ∈ [(2 : UInt32), 3], 2 ≤ c.toNat ∧ c.toNat ≤ 0xFEF :=
  List.all_iff_forall_prop.1 (by decide)

/-- The chain of `A`. -/
def twoClusterChain : ClusterChain (diskFat twoClusterFloppy twoClusterFs.bs) where
  clusters := [2, 3]
  inRange := List.all_iff_forall_prop.1 (by decide)
  linked i h := by
    obtain rfl : i = 0 := by
      simp only [List.length_cons, List.length_nil] at h
      omega
    exact (by decide : fatEntry (diskFat twoClusterFloppy twoClusterFs.bs) 2 = 3)
  ends c h := by
    obtain rfl : 3 = c := by simpa using h
    decide

/-- Open `A` and move to the last two bytes of its first cluster. -/
def twoClusterOps : List Op := [.openFile [0x2F, 0x61] 8, .seek 0 510]

/-- Reading four bytes there crosses into the second cluster. -/
theorem Session.read_of_session_twoCluster :
    (((Session.mount twoClusterFs).run twoClusterOps).fs.read (.slot 0) 4).1 =
      slice twoClusterChain.byteAt 510 4 := by
  refine Session.read_of_session (fun _ ↦ rfl) detectAndMount_twoClusterFloppy twoClusterOps
    (e := twoClusterEntry) rfl (by decide) twoClusterChain ⟨by decide, by decide⟩ 4
    (faithful_of_all (by decide))

end Aidos.Fat12
