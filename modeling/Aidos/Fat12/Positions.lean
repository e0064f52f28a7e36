import Aidos.Fat12.DataRequests
import Aidos.Fat12.HandleTable

/-!
# Positions and sizes

`read` stops at the end of a file by subtracting the position from the size, so it relies on the
position not being behind the end. The size is zero for a subdirectory, which has none in its entry,
until a read meets the end of the chain and sets it; then it bounds reads as the size of a file
does.

A record is `Within` its size if that holds where `read` relies on it. Reading keeps this, also when
it moves the end (`within_readLoop`), opening and closing start at zero, and `seek` checks the size
of a file. It does not check the one of a directory, although the root directory always has one. In
a run whose seeks stay inside the directories that have a size every open record is within its size
(`Client.within_of_reached`).
-/

namespace Aidos.Fat12

namespace FatFileData

variable (fd : FatFileData)

/-- `read` subtracts the position from the size. -/
def HasEnd : Prop := fd.pub.isDirectory = false ∨ fd.pub.size ≠ 0

/-- The position is not behind the end, if there is one. -/
def Within : Prop := fd.HasEnd → fd.pub.position ≤ fd.pub.size

/-- There is no end, or so many bytes in front of it. -/
def Room (n : ℕ) : Prop := fd.HasEnd → fd.pub.position.toNat + n ≤ fd.pub.size.toNat

variable {fd}

theorem Room.within {n : ℕ} (h : fd.Room n) : fd.Within := by
  intro hend
  have hle := h hend
  rw [UInt32.le_iff_toNat_le]
  omega

/-- What `read` takes the number of bytes down to. -/
theorem Within.room (h : fd.Within) (n : UInt32) :
    fd.Room (if (!fd.pub.isDirectory || fd.pub.isDirectory && fd.pub.size != 0) = true then
      min n (fd.pub.size - fd.pub.position) else n).toNat := by
  intro hend
  have hle := h hend
  have hcap : (!fd.pub.isDirectory || fd.pub.isDirectory && fd.pub.size != 0) = true := by
    rcases hend with hfile | hsize
    · simp [hfile]
    · cases hdir : fd.pub.isDirectory <;> simp [hsize]
  rw [if_pos hcap, Fat12FileSystem.toNat_min, UInt32.toNat_sub_of_le _ _ hle]
  have := UInt32.le_iff_toNat_le.1 hle
  omega

/-- Whether there is an end is seen in the record's public part. -/
theorem Within.of_pub {fd' : FatFileData} (h : fd.Within) (hpub : fd'.pub = fd.pub) :
    fd'.Within := by
  rw [Within, HasEnd, hpub]
  exact h

end FatFileData

namespace Fat12FileSystem

variable {fs fs' : Fat12FileSystem} {ref : FileRef}

/-! ### Reading -/

/-- Moving the position uses the room up. -/
theorem room_movePosition {n : ℕ} {take : UInt32} (htake : take.toNat ≤ n)
    (h : (fs.fileData ref).Room n) :
    ((fs.movePosition ref take).fileData ref).Room (n - take.toNat) := by
  rw [fileData_movePosition]
  intro hend
  have hroom := h hend
  have hlt := (fs.fileData ref).pub.size.toNat_lt
  dsimp only
  rw [UInt32.toNat_add]
  omega

/-- Going on to the next sector keeps the room, unless the loop stops at an end mark; then the
position is the end. -/
theorem room_advance {n : ℕ} (h : (fs.fileData ref).Room n) :
    ((fs.advance ref).2.fileData ref).Within ∧
      ((fs.advance ref).1 = true → ((fs.advance ref).2.fileData ref).Room n) := by
  have hpub := pub_stepCounters fs ref
  rw [advance_eq]
  dsimp only
  split
  · rw [fileData_setFileData_self]
    exact ⟨fun _ ↦ UInt32.le_refl _, fun hgo ↦ absurd hgo (by simp)⟩
  · have hroom : (((fs.stepCounters ref).readSector ref
        ((fs.stepCounters ref).clusterToLba ((fs.stepCounters ref).fileData ref).currentCluster +
          ((fs.stepCounters ref).fileData ref).currentSectorInCluster)).2.fileData ref).Room n := by
      rw [fileData_readSector, FatFileData.Room, FatFileData.HasEnd]
      dsimp only
      rw [hpub]
      exact h
    exact ⟨hroom.within, fun _ ↦ hroom⟩

/-- **The loop of `read`** leaves the record within its size if it was asked for no more than there
is room for. -/
theorem within_readLoop (fuel : ℕ) :
    ∀ {n : UInt32} {out : List UInt8} {fs : Fat12FileSystem}, (fs.fileData ref).Room n.toNat →
      ((readLoop ref fuel n out fs).2.fileData ref).Within := by
  induction fuel with
  | zero => exact fun h ↦ h.within
  | succ fuel ih =>
    intro n out fs h
    rcases Nat.eq_zero_or_pos n.toNat with hn | hn
    · rw [readLoop_of_eq_zero hn]
      exact h.within
    rw [readLoop_succ ref fuel hn]
    dsimp only
    obtain ⟨-, htake, -⟩ := take_spec (n := n)
      (rfl : (fs.fileData ref).pub.position.toNat = _)
    have hle : (min n (512 - (fs.fileData ref).pub.position % 512)).toNat ≤ n.toNat := by omega
    generalize min n (512 - (fs.fileData ref).pub.position % 512) = take at hle ⊢
    have hmove := room_movePosition hle h
    rw [← UInt32.toNat_sub_of_le _ _ (UInt32.le_iff_toNat_le.2 hle)] at hmove
    split
    · obtain ⟨hstop, hgo⟩ := room_advance hmove
      split
      · next hadvance => exact ih (hgo hadvance)
      · exact hstop
    · exact ih hmove

/-- The loop delivers no more than it was asked for. -/
theorem length_readLoop_le (fuel : ℕ) :
    ∀ (n : UInt32) (out : List UInt8) (fs : Fat12FileSystem),
      (readLoop ref fuel n out fs).1.length ≤ out.length + n.toNat := by
  induction fuel with
  | zero => exact fun n out fs ↦ Nat.le_add_right _ _
  | succ fuel ih =>
    intro n out fs
    rcases Nat.eq_zero_or_pos n.toNat with hn | hn
    · rw [readLoop_of_eq_zero hn]
      exact Nat.le_add_right _ _
    rw [readLoop_succ ref fuel hn]
    dsimp only
    obtain ⟨-, htake, -⟩ := take_spec (n := n)
      (rfl : (fs.fileData ref).pub.position.toNat = _)
    have hle : (min n (512 - (fs.fileData ref).pub.position % 512)).toNat ≤ n.toNat := by omega
    generalize min n (512 - (fs.fileData ref).pub.position % 512) = take at hle ⊢
    have hsub : (n - take).toNat = n.toNat - take.toNat :=
      UInt32.toNat_sub_of_le _ _ (UInt32.le_iff_toNat_le.2 hle)
    have hlen : (out ++ slice (fs.fileData ref).buffer
        ((fs.fileData ref).pub.position % 512).toNat take.toNat).length =
          out.length + take.toNat := by
      rw [List.length_append, length_slice]
    generalize out ++ slice (fs.fileData ref).buffer
      ((fs.fileData ref).pub.position % 512).toNat take.toNat = out' at hlen ⊢
    split
    · split
      · have := ih (n - take) out' ((fs.movePosition ref take).advance ref).2
        omega
      · dsimp only
        omega
    · have := ih (n - take) out' (fs.movePosition ref take)
      omega

/-- **Reading** leaves the record within its size. -/
theorem within_read (htarget : fs.target ref = ref) (n : UInt32)
    (h : (fs.fileData ref).opened = true → (fs.fileData ref).Within) :
    ((fs.read ref n).2.fileData ref).opened = true →
      ((fs.read ref n).2.fileData ref).Within := by
  intro hopened
  have hsame := sameFile_read_of_target htarget n
  have hopened' := hsame.opened.symm.trans hopened
  rw [read]
  dsimp only
  rw [htarget, if_pos hopened']
  exact within_readLoop _ ((h hopened').room n)

/-- And it delivers no bytes behind the end. -/
theorem length_read_le (htarget : fs.target ref = ref) (n : UInt32)
    (h : (fs.fileData ref).opened = true → (fs.fileData ref).Within)
    (hend : (fs.fileData ref).HasEnd) :
    (fs.read ref n).1.length ≤
      (fs.fileData ref).pub.size.toNat - (fs.fileData ref).pub.position.toNat := by
  rw [read]
  dsimp only
  rw [htarget]
  split
  · next hopened =>
    have hroom := (h hopened).room n hend
    refine (length_readLoop_le _ _ _ _).trans ?_
    rw [List.length_nil]
    omega
  · exact Nat.zero_le _

/-! ### Seeking -/

/-- What `seek` does to the public part of the record: nothing, or it sets the position. -/
theorem pub_seek (htarget : fs.target ref = ref) (position : UInt32) :
    ((fs.seek ref position).2.fileData ref).pub = (fs.fileData ref).pub ∨
      ((fs.fileData ref).pub.isDirectory = true ∨ position ≤ (fs.fileData ref).pub.size) ∧
        (fs.fileData ref).opened = true ∧
        ((fs.seek ref position).2.fileData ref).pub =
          { (fs.fileData ref).pub with position := position } := by
  have h := fs.seeks ref position
  generalize fs.seek ref position = result at h ⊢
  cases h with
  | behind => exact Or.inl rfl
  | closed => exact Or.inl rfl
  | off hroom hopened hwalk =>
    rw [htarget] at hopened hwalk
    refine Or.inr ⟨hroom, hopened, ?_⟩
    rw [fileData_of_seekWalk hwalk]
  | found hroom hopened hwalk =>
    rw [htarget] at hopened hwalk ⊢
    refine Or.inr ⟨hroom, hopened, ?_⟩
    rw [fileData_readSector, fileData_setCounters, fileData_of_seekWalk hwalk]

end Fat12FileSystem

/-- **The condition**: a seek on a directory that has a size stays inside of it. -/
def DataCall.Inside (fs : Fat12FileSystem) : DataCall → Prop
  | .openEntry _ => True
  | .read _ _ => True
  | .seek file position =>
    (fs.fileData file).opened = true → (fs.fileData file).pub.isDirectory = true →
      (fs.fileData file).pub.size ≠ 0 → position ≤ (fs.fileData file).pub.size

namespace Fat12FileSystem

variable {fs fs' : Fat12FileSystem} {ref : FileRef} {calls : List (Fat12FileSystem × DataCall)}

theorem within_seek (htarget : fs.target ref = ref) {position : UInt32}
    (hinside : (DataCall.seek ref position).Inside fs)
    (h : (fs.fileData ref).opened = true → (fs.fileData ref).Within) :
    ((fs.seek ref position).2.fileData ref).opened = true →
      ((fs.seek ref position).2.fileData ref).Within := by
  intro hopened
  have hsame := sameFile_seek_of_target htarget position
  have hopened' := hsame.opened.symm.trans hopened
  rcases pub_seek htarget position with hpub | ⟨hsize, -, hpub⟩
  · exact (h hopened').of_pub hpub
  · intro hend
    rw [FatFileData.HasEnd, hpub] at hend
    rw [hpub]
    rcases hsize with hdir | hsize
    · rcases hend with hfile | hne
      · exact absurd (hfile.symm.trans hdir) (by simp)
      · exact hinside hopened' hdir hne
    · exact hsize

/-! ### The handle table -/

/-- Every open record that a pointer can name is within its size. -/
def Bounded (fs : Fat12FileSystem) : Prop :=
  ∀ file, (∀ i, file = .slot i → i < maxFileHandles) → (fs.fileData file).opened = true →
    (fs.fileData file).Within

/-- A step on one record keeps the others within their sizes. -/
theorem Bounded.of_frame (h : Bounded fs) (hf : Frame {ref} fs fs')
    (hnew : (fs'.fileData ref).opened = true → (fs'.fileData ref).Within) : Bounded fs' := by
  intro file hlt hopened
  by_cases hfile : file = ref
  · rw [hfile] at hopened ⊢
    exact hnew hopened
  · rw [hf.fileData _ hfile] at hopened ⊢
    exact h file hlt hopened

/-- A file that is opened stands at zero. -/
theorem Bounded.openEntry (h : Bounded fs) (e : FatDirectoryEntry) :
    Bounded (fs.openEntry e).2 := by
  have hzero (i : ℕ) : ((fs.openSlot i e).fileData (.slot i)).Within := by
    have hbuffer := fileData_readSector (fs.fillSlot i e) (.slot i)
      ((fs.fillSlot i e).clusterToLba e.firstCluster)
    have hrecord := fs.fileData_openSlot i e
    rw [fetchSlot, hbuffer, fillSlot, fileData_setFileData_self] at hrecord
    rw [hrecord]
    exact fun _ ↦ UInt32.zero_le
  have hresult := fs.opensEntry e
  generalize fs.openEntry e = result at hresult ⊢
  cases hresult with
  | full => exact h
  | refused hfree =>
    refine h.of_frame (fs.frame_fillSlot _ e) fun hopened ↦ ?_
    exact absurd ((opened_fillSlot e hfree).symm.trans hopened) (by simp)
  | failed hfree =>
    refine h.of_frame (fs.frame_fetchSlot _ e) fun hopened ↦ ?_
    have hclosed := (fs.sameFile_fetchSlot _ e).opened.trans (opened_fillSlot e hfree)
    exact absurd (hclosed.symm.trans hopened) (by simp)
  | opened => exact h.of_frame (fs.frame_openSlot _ e) fun _ ↦ hzero _

/-- Closing a file rewinds the root, and takes a slot out of use. -/
theorem Bounded.close (h : Bounded fs) (hnames : fs.Names ref) : Bounded (fs.close ref) := by
  refine h.of_frame (frame_close fs hnames.target) fun hopened ↦ ?_
  rw [Fat12FileSystem.close, hnames.target] at hopened ⊢
  cases ref with
  | root =>
    dsimp only at hopened ⊢
    rw [fileData_setFileData_self]
    exact fun _ ↦ UInt32.zero_le
  | slot i =>
    dsimp only at hopened
    rw [fileData_setFileData_self] at hopened
    exact absurd hopened (by simp)

/-- **One call** keeps every open record within its size. -/
theorem Bounded.exec (h : Bounded fs) {c : DataCall} (htakes : fs.Takes c)
    (hinside : c.Inside fs) : Bounded (c.exec fs) := by
  cases c with
  | openEntry e => exact h.openEntry e
  | read file n =>
    have hframe := frame_read_of_target htakes.target n
    exact h.of_frame hframe (within_read htakes.target n (h file htakes.lt))
  | seek file position =>
    have hframe := frame_seek_of_target htakes.target position
    exact h.of_frame hframe (within_seek htakes.target hinside (h file htakes.lt))

/-- And so does a run of the driver. -/
theorem Makes.bounded (hmakes : Makes fs calls fs') (hinside : ∀ p ∈ calls, p.2.Inside p.1)
    (h : Bounded fs) : Bounded fs' := by
  induction hmakes with
  | done => exact h
  | close hnames _ ih => exact ih hinside (h.close hnames)
  | call htakes _ ih =>
    rw [List.forall_mem_cons] at hinside
    exact ih hinside.2 (h.exec htakes hinside.1)

/-! ### Opening -/

/-- A directory scan does not seek. -/
theorem inside_scanCalls (current : FileRef) (name : List UInt8) (fuel : ℕ) :
    ∀ (fs : Fat12FileSystem), ∀ p ∈ scanCalls current name fuel fs, p.2.Inside p.1 := by
  induction fuel with
  | zero => exact fun _ _ hp ↦ absurd hp List.not_mem_nil
  | succ fuel ih =>
    intro fs
    rw [scanCalls, List.forall_mem_cons]
    refine ⟨trivial, ?_⟩
    split
    · exact fun _ hp ↦ absurd hp List.not_mem_nil
    · split
      · exact fun _ hp ↦ absurd hp List.not_mem_nil
      · exact ih _

/-- Nor does `open`. -/
theorem inside_openCalls (fuel n : ℕ) :
    ∀ (current : Option FileRef) (path : List UInt8) (fs : Fat12FileSystem),
      ∀ p ∈ openCalls fuel n current path fs, p.2.Inside p.1 := by
  induction n with
  | zero =>
    intro current path fs p hp
    cases path with
    | nil => exact absurd hp List.not_mem_nil
    | cons => exact absurd hp List.not_mem_nil
  | succ n ih =>
    intro current path fs
    rcases path with - | ⟨c, path⟩
    · exact fun _ hp ↦ absurd hp List.not_mem_nil
    rcases current with - | file
    · exact fun _ hp ↦ absurd hp List.not_mem_nil
    rw [openCalls]
    dsimp only
    split
    · exact fun _ hp ↦ absurd hp List.not_mem_nil
    refine List.forall_mem_append.2 ⟨inside_scanCalls file _ fuel fs, ?_⟩
    split
    · split
      · exact fun _ hp ↦ absurd hp List.not_mem_nil
      · exact List.forall_mem_cons.2 ⟨trivial, ih _ _ _⟩
    · exact fun _ hp ↦ absurd hp List.not_mem_nil

/-! ### Pointers -/

/-- A slot that `OpenEntry` fills in carries its own number. -/
theorem target_fillSlot (fs : Fat12FileSystem) {i : ℕ} (hi : i < maxFileHandles)
    (e : FatDirectoryEntry) : (fs.fillSlot i e).target (.slot i) = .slot i := by
  rw [target, fillSlot, fileData_setFileData_self]
  exact FileRef.ofHandle_slot i hi

/-- A pointer keeps its handle over a step on its record that keeps it the same file. -/
theorem Names.of_frame {file : FileRef} (h : fs.Names file) (hf : Frame {ref} fs fs')
    (hnew : file = ref → fs'.target file = file) : fs'.Names file := by
  refine ⟨?_, h.lt⟩
  by_cases hfile : file = ref
  · exact hnew hfile
  · exact target_of_frame h.target hf hfile

/-- A pointer that was handed out keeps its handle, also after its file was closed. -/
theorem Names.openEntry {file : FileRef} (h : fs.Names file) (e : FatDirectoryEntry) :
    (fs.openEntry e).2.Names file := by
  have hfill {i : ℕ} (hfree : fs.freeHandle = some i) :
      (fs.fillSlot i e).target (.slot i) = .slot i :=
    fs.target_fillSlot (freeHandle_spec hfree).1 e
  have hfetch {i : ℕ} (hfree : fs.freeHandle = some i) :
      (fs.fetchSlot i e).target (.slot i) = .slot i :=
    target_of_sameFile (hfill hfree) (fs.sameFile_fetchSlot i e)
  have hresult := fs.opensEntry e
  generalize fs.openEntry e = result at hresult ⊢
  cases hresult with
  | full => exact h
  | refused hfree =>
    refine h.of_frame (fs.frame_fillSlot _ e) ?_
    rintro rfl
    exact hfill hfree
  | failed hfree =>
    refine h.of_frame (fs.frame_fetchSlot _ e) ?_
    rintro rfl
    exact hfetch hfree
  | opened hfree =>
    refine h.of_frame (fs.frame_openSlot _ e) ?_
    rintro rfl
    rw [Fat12FileSystem.target, fileData_openSlot]
    exact hfetch hfree

theorem Names.close {file : FileRef} (h : fs.Names file) (hnames : fs.Names ref) :
    (fs.close ref).Names file := by
  refine h.of_frame (frame_close fs hnames.target) ?_
  rintro rfl
  rw [Fat12FileSystem.target, handle_close fs hnames.target]
  exact hnames.target

theorem Names.exec {file : FileRef} (h : fs.Names file) {c : DataCall} (htakes : fs.Takes c) :
    (c.exec fs).Names file := by
  cases c with
  | openEntry e => exact h.openEntry e
  | read ref n =>
    have hframe := frame_read_of_target htakes.target n
    have hsame := sameFile_read_of_target htakes.target n
    refine h.of_frame hframe ?_
    rintro rfl
    exact target_of_sameFile htakes.target hsame
  | seek ref position =>
    have hframe := frame_seek_of_target htakes.target position
    have hsame := sameFile_seek_of_target htakes.target position
    refine h.of_frame hframe ?_
    rintro rfl
    exact target_of_sameFile htakes.target hsame

theorem Makes.names (hmakes : Makes fs calls fs') {file : FileRef} (h : fs.Names file) :
    fs'.Names file := by
  induction hmakes with
  | done => exact h
  | close hnames _ ih => exact ih (h.close hnames)
  | call htakes _ ih => exact ih (h.exec htakes)

theorem names_root (hroot : fs.target .root = .root) : fs.Names .root :=
  ⟨hroot, fun _ hi ↦ absurd hi (by simp)⟩

/-- `open` as a run of the driver. -/
theorem openPath_makes (hroot : fs.target .root = .root) (fuel : ℕ) (path : List UInt8) :
    ∃ calls, Makes fs calls (fs.openPath fuel path).2 ∧ ∀ p ∈ calls, p.2.Inside p.1 :=
  ⟨_, openLoop_makes fuel _ fun file hfile ↦ by
      obtain rfl := Option.some.inj hfile
      exact names_root hroot,
    inside_openCalls fuel _ _ _ _⟩

end Fat12FileSystem

/-! ### Callers -/

open Fat12FileSystem

/-- A driver with the slots it has handed out so far, also the ones that were closed again. -/
structure Client where
  /-- The driver. -/
  fs : Fat12FileSystem
  /-- The slots handed out. -/
  known : List ℕ

namespace Client

/-- The client of a driver that was just initialised. -/
def mount (fs : Fat12FileSystem) : Client := ⟨fs, []⟩

/-- Whether the client has the pointer. -/
def Knows (s : Client) : FileRef → Prop
  | .root => True
  | .slot i => i ∈ s.known

instance (s : Client) : DecidablePred s.Knows
  | .root => isTrue trivial
  | .slot i => inferInstanceAs (Decidable (i ∈ s.known))

/-- One call with a pointer that the client has; nothing when `open` does not return. -/
def step (s : Client) : Call → Option Client
  | .openFile path fuel =>
    match s.fs.openPath fuel path with
    | (.null, fs) => some ⟨fs, s.known⟩
    | (.file .root _, fs) => some ⟨fs, s.known⟩
    | (.file (.slot i) _, fs) => some ⟨fs, i :: s.known⟩
    | (.running, _) => none
    | (.undefined, _) => none
  | .read file n => if s.Knows file then some ⟨(s.fs.read file n).2, s.known⟩ else none
  | .seek file position =>
    if s.Knows file then some ⟨(s.fs.seek file position).2, s.known⟩ else none
  | .close file => if s.Knows file then some ⟨s.fs.close file, s.known⟩ else none

/-- A sequence of calls. -/
def run (s : Client) (calls : List Call) : Option Client := calls.foldlM step s

/-- The condition on a call: a seek on a directory that has a size stays inside of it. -/
def Inside (s : Client) : Call → Prop
  | .openFile _ _ => True
  | .read _ _ => True
  | .seek file position => (DataCall.seek file position).Inside s.fs
  | .close _ => True

/-- The states that a run reaches whose calls all meet the condition. -/
inductive Reached (fs : Fat12FileSystem) : Client → Prop
  /-- The start. -/
  | mount : Reached fs (mount fs)
  /-- One more call. -/
  | step {s s' : Client} {call : Call} : Reached fs s → s.Inside call → s.step call = some s' →
      Reached fs s'

/-- What every state of such a run has. -/
structure Sound (s : Client) : Prop where
  /-- The root record keeps its handle. -/
  root : s.fs.target .root = .root
  /-- So do the slots handed out. -/
  known : ∀ i ∈ s.known, s.fs.Names (.slot i)
  /-- The open records are within their sizes. -/
  bounded : Bounded s.fs

namespace Sound

variable {s s' : Client}

theorem names (h : s.Sound) {file : FileRef} (hknows : s.Knows file) : s.fs.Names file := by
  cases file with
  | root => exact names_root h.root
  | slot i => exact h.known i hknows

/-- A run of the driver keeps what the client relies on. -/
theorem of_makes (h : s.Sound) {fs : Fat12FileSystem} {calls : List (Fat12FileSystem × DataCall)}
    (hmakes : Makes s.fs calls fs) (hinside : ∀ p ∈ calls, p.2.Inside p.1) :
    Sound ⟨fs, s.known⟩ where
  root := (hmakes.names (names_root h.root)).target
  known i hi := hmakes.names (h.known i hi)
  bounded := hmakes.bounded hinside h.bounded

/-- A file that `open` returns is one the client may use. -/
theorem openFile (h : s.Sound) (path : List UInt8) (fuel : ℕ)
    (hstep : s.step (.openFile path fuel) = some s') : s'.Sound := by
  obtain ⟨calls, hmakes, hinside⟩ := openPath_makes h.root fuel path
  have hsound := h.of_makes hmakes hinside
  obtain ⟨haccounts, -⟩ := accounts_openPath h.root fuel path
  have hfile (i : ℕ) (e : Option FatDirectoryEntry)
      (hi : (s.fs.openPath fuel path).1 = .file (.slot i) e) :
      (s.fs.openPath fuel path).2.Names (.slot i) := by
    rw [hi] at haccounts
    obtain ⟨-, hopen, htarget⟩ := haccounts
    refine ⟨htarget, fun j hj ↦ ?_⟩
    obtain rfl := FileRef.slot.inj hj
    have hmem : i ∈ (s.fs.openPath fuel path).2.openSlots := hopen ▸ Set.mem_insert _ _
    exact hmem.1
  rw [step] at hstep
  generalize s.fs.openPath fuel path = result at hsound hfile hstep
  rcases result with ⟨- | - | - | ⟨- | i, e⟩, fs⟩
  · exact absurd hstep (by simp)
  · exact absurd hstep (by simp)
  · exact Option.some.inj hstep ▸ hsound
  · exact Option.some.inj hstep ▸ hsound
  · obtain rfl := Option.some.inj hstep
    exact ⟨hsound.root, List.forall_mem_cons.2 ⟨hfile i e rfl, hsound.known⟩, hsound.bounded⟩

/-- **Every call** that meets the condition keeps it. -/
theorem step (h : s.Sound) {call : Call} (hinside : s.Inside call)
    (hstep : s.step call = some s') : s'.Sound := by
  cases call with
  | openFile path fuel => exact h.openFile path fuel hstep
  | read file n =>
    obtain ⟨hknows, hstep⟩ := Option.ite_none_right_eq_some.1 hstep
    have hmakes : Makes s.fs [(s.fs, .read file n)] (s.fs.read file n).2 :=
      .call (h.names hknows) .done
    exact Option.some.inj hstep ▸ h.of_makes hmakes (List.forall_mem_singleton.2 trivial)
  | seek file position =>
    obtain ⟨hknows, hstep⟩ := Option.ite_none_right_eq_some.1 hstep
    have hmakes : Makes s.fs [(s.fs, .seek file position)] (s.fs.seek file position).2 :=
      .call (h.names hknows) .done
    exact Option.some.inj hstep ▸ h.of_makes hmakes (List.forall_mem_singleton.2 hinside)
  | close file =>
    obtain ⟨hknows, hstep⟩ := Option.ite_none_right_eq_some.1 hstep
    have hmakes : Makes s.fs [] (s.fs.close file) := .close (h.names hknows) .done
    exact Option.some.inj hstep ▸ h.of_makes hmakes fun _ hp ↦ absurd hp List.not_mem_nil

end Sound

/-- `initialize` leaves the root at the start of its directory, and no file open. -/
theorem sound_mount {fs₀ fs : Fat12FileSystem} (hm : fs₀.initializeFs = (true, fs)) :
    (mount fs).Sound := by
  rw [initializeFs] at hm
  split at hm
  · exact absurd (congrArg Prod.fst hm) Bool.false_ne_true
  dsimp only at hm
  split at hm
  · exact absurd (congrArg Prod.fst hm) Bool.false_ne_true
  split at hm
  · exact absurd (congrArg Prod.fst hm) Bool.false_ne_true
  generalize hset : setFileData _ _ _ = fs₁ at hm
  have hpub : (fs₁.fileData .root).pub.handle = rootDirectoryHandle ∧
      (fs₁.fileData .root).pub.position = 0 := by
    rw [← hset, fileData_setFileData_self]
    exact ⟨rfl, rfl⟩
  generalize hread : readSector _ _ _ = result at hm
  have hroot : (result.2.fileData .root).pub.handle = rootDirectoryHandle ∧
      (result.2.fileData .root).pub.position = 0 := by
    rw [← hread, fileData_readSector]
    exact hpub
  obtain ⟨- | -, fs₂⟩ := result
  · exact absurd (congrArg Prod.fst hm) Bool.false_ne_true
  obtain rfl := (Prod.mk.inj hm).2
  refine ⟨?_, fun i hi ↦ absurd hi List.not_mem_nil, fun file hlt hopened ↦ ?_⟩
  · exact congrArg FileRef.ofHandle hroot.1
  · cases file with
    | root =>
      intro _
      have hzero : (fs₂.fileData .root).pub.position = 0 := hroot.2
      exact hzero ▸ UInt32.zero_le
    | slot i => simp [mount, fileData, hlt i rfl] at hopened

theorem Reached.sound {fs₀ fs : Fat12FileSystem} (hm : fs₀.initializeFs = (true, fs)) {s : Client}
    (h : Reached fs s) : s.Sound := by
  induction h with
  | mount => exact sound_mount hm
  | step _ hinside hstep ih => exact ih.step hinside hstep

/-- **Positions stay within sizes.** In every state that an initialised driver reaches through calls
whose seeks stay inside the directories that have a size, whatever the device does, an open handle
whose size is not zero has a position of at most its size, and no read delivers more bytes from it
than there are between the two. -/
theorem within_of_reached {fs₀ fs : Fat12FileSystem} (hm : fs₀.initializeFs = (true, fs))
    {s : Client} (h : Reached fs s) {file : FileRef} (hknows : s.Knows file)
    (hopened : (s.fs.fileData file).opened = true) (hsize : (s.fs.fileData file).pub.size ≠ 0) :
    (s.fs.fileData file).pub.position ≤ (s.fs.fileData file).pub.size ∧
      ∀ n, (s.fs.read file n).1.length ≤
        (s.fs.fileData file).pub.size.toNat - (s.fs.fileData file).pub.position.toNat := by
  have hsound := h.sound hm
  have hnames := hsound.names hknows
  have hwithin := hsound.bounded file hnames.lt
  exact ⟨hwithin hopened (Or.inr hsize),
    fun n ↦ length_read_le hnames.target n hwithin (Or.inr hsize)⟩

/-! ### The root of a floppy disk -/

/-- A driver for the disk with one file, not initialised yet. -/
def twoClusterObject : Fat12FileSystem :=
  { data := blankData, dataSectionLba := 0, totalSectors := 0, sectorsPerFat := 0,
    disk := twoClusterFloppy, trace := [] }

/-- And after `initialize`. -/
def twoClusterStart : Fat12FileSystem := twoClusterObject.initializeFs.2

theorem initializeFs_twoClusterObject :
    twoClusterObject.initializeFs = (true, twoClusterStart) :=
  Prod.ext (by decide) rfl

/-- After a seek to the last entry of the root directory. -/
def lastEntryClient : Client := ⟨(twoClusterStart.seek .root 7136).2, []⟩

theorem within_of_reached_lastEntry :
    (lastEntryClient.fs.fileData .root).pub.position ≤
        (lastEntryClient.fs.fileData .root).pub.size ∧
      ∀ n, (lastEntryClient.fs.read .root n).1.length ≤
        (lastEntryClient.fs.fileData .root).pub.size.toNat -
          (lastEntryClient.fs.fileData .root).pub.position.toNat :=
  within_of_reached initializeFs_twoClusterObject
    (Reached.mount.step (show Inside _ (.seek .root 7136) from fun _ _ _ ↦ by decide) rfl) trivial
    (by decide) (by decide)

/-- **A seek on the root goes behind its end**: the root directory has 7168 bytes, and a seek to
byte 8000 is not refused. A read then delivers what it is asked for. -/
theorem not_within_root :
    ¬ ∀ (calls : List Call) (s : Client) (file : FileRef),
      (mount twoClusterStart).run calls = some s → s.Knows file →
      (s.fs.fileData file).opened = true → (s.fs.fileData file).pub.size ≠ 0 →
      (s.fs.fileData file).pub.position ≤ (s.fs.fileData file).pub.size ∧
        ∀ n, (s.fs.read file n).1.length ≤
          (s.fs.fileData file).pub.size.toNat - (s.fs.fileData file).pub.position.toNat := by
  intro h
  have hroot := h [.seek .root 8000] ⟨(twoClusterStart.seek .root 8000).2, []⟩ .root rfl trivial
    (by decide) (by decide)
  have hread := hroot.2 32
  revert hread
  decide

end Client

end Aidos.Fat12
