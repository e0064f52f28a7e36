import Mathlib.Order.CompletePartialOrder
import Mathlib.Data.Set.BooleanAlgebra
import Aidos.Fat12.Sessions

/-!
# The handle table

Which of the `OpenedFiles` slots are open, and who opened them. `open` resolves a path through
directories that it opens and closes on the way, with an exit for each thing that can go wrong; the
loop invariant `Holding` says that at every turn the only slot it has taken is the one its current
directory lies in. So each exit has released what was taken (`accounts_openPath`).

A `Ledger` is a driver with the files its caller has been given and not closed yet. In every run
from a mount the ledger balances: no file is listed twice, and the listed slots are the open ones
(`handle_accounting`).
-/

namespace Aidos.Fat12

namespace Fat12FileSystem

variable {fs fs' : Fat12FileSystem}

/-- The slots of `OpenedFiles` that are open. -/
def openSlots (fs : Fat12FileSystem) : Set ℕ :=
  {i | i < maxFileHandles ∧ (fs.fileData (.slot i)).opened = true}

/-- The slot a file takes up: the root takes none. -/
def taken : Option FileRef → Set ℕ
  | none => ∅
  | some .root => ∅
  | some (.slot i) => {i}

theorem mem_openSlots {i : ℕ} :
    i ∈ fs.openSlots ↔ i < maxFileHandles ∧ (fs.fileData (.slot i)).opened = true := Iff.rfl

theorem openSlots_congr
    (h : ∀ i, (fs'.fileData (.slot i)).opened = (fs.fileData (.slot i)).opened) :
    fs'.openSlots = fs.openSlots := by
  ext i
  rw [mem_openSlots, mem_openSlots, h i]

/-- A step on one record that leaves it the same file opens and closes nothing. -/
theorem openSlots_of_sameFile {file : FileRef} (hf : Frame {file} fs fs')
    (hsame : SameFile (fs.fileData file) (fs'.fileData file)) : fs'.openSlots = fs.openSlots := by
  refine openSlots_congr fun i ↦ ?_
  by_cases hi : FileRef.slot i = file
  · rw [hi, hsame.opened]
  · rw [hf.fileData _ hi]

/-- `close` releases the slot of the file. -/
theorem openSlots_close {file : FileRef} (htarget : fs.target file = file) :
    (fs.close file).openSlots = fs.openSlots \ taken (some file) := by
  have hf := frame_close fs htarget
  cases file with
  | root =>
    rw [taken, Set.sdiff_empty]
    exact openSlots_congr fun i ↦ by rw [hf.fileData _ (by simp)]
  | slot j =>
    ext i
    rw [Set.mem_sdiff, taken, Set.mem_singleton_iff, mem_openSlots, mem_openSlots]
    rcases eq_or_ne i j with rfl | hij
    · have hclosed : ((fs.close (.slot i)).fileData (.slot i)).opened = false := by
        rw [close, htarget]
        simp
      rw [hclosed]
      simp
    · have hi : FileRef.slot i ∉ ({.slot j} : Set FileRef) := by simpa using hij
      rw [hf.fileData _ hi]
      simp [hij]

/-- `OpenEntry` takes the slot it hands out, and no other. -/
theorem openSlots_openEntry (fs : Fat12FileSystem) (e : FatDirectoryEntry) :
    (fs.openEntry e).2.openSlots = taken (fs.openEntry e).1 ∪ fs.openSlots ∧
      Disjoint (taken (fs.openEntry e).1) fs.openSlots := by
  rcases hfree : fs.freeHandle with - | i
  · have hnone : fs.openEntry e = (none, fs) := by rw [openEntry, hfree]
    rw [hnone, taken]
    exact ⟨(Set.empty_union _).symm, Set.empty_disjoint _⟩
  · obtain ⟨hlt, hclosed⟩ := freeHandle_spec hfree
    have hkept (j : ℕ) (hj : j ≠ i) :
        (fs.openEntry e).2.fileData (.slot j) = fs.fileData (.slot j) := by
      refine (frame_openEntry fs e).fileData _ ?_
      rintro ⟨k, hk, hjk⟩
      rw [hfree] at hk
      exact hj ((FileRef.slot.inj hjk).trans (Option.some.inj hk).symm)
    have hpicked := opened_picked hfree e
    rcases hopen : (fs.openEntry e).1 with - | ref
    · rw [hopen] at hpicked
      refine ⟨?_, Set.empty_disjoint _⟩
      rw [taken, Set.empty_union]
      refine openSlots_congr fun j ↦ ?_
      rcases eq_or_ne j i with rfl | hj
      · exact hpicked.trans hclosed.symm
      · rw [hkept j hj]
    · rw [hopen] at hpicked
      obtain ⟨j, hj, rfl, -, -⟩ := openEntry_of_some (Prod.ext hopen rfl :
        fs.openEntry e = (some ref, (fs.openEntry e).2))
      obtain rfl := Option.some.inj (hfree.symm.trans hj)
      rw [taken]
      refine ⟨?_, Set.disjoint_singleton_left.2 fun hmem ↦ ?_⟩
      · ext k
        rw [Set.mem_union, Set.mem_singleton_iff, mem_openSlots, mem_openSlots]
        rcases eq_or_ne k i with rfl | hk
        · rw [hpicked]
          simp [hlt]
        · rw [hkept k hk]
          simp [hk]
      · exact absurd (hclosed.symm.trans hmem.2) (by simp)

/-! ### Resolving a path -/

/-- What the loop of `open` has taken: the slot of its current directory, which was not open before.
-/
structure Holding (fs₀ : Fat12FileSystem) (current : Option FileRef) (fs : Fat12FileSystem) :
    Prop where
  /-- The current directory is a free record from before, under its own handle. -/
  resolving : Resolving fs₀.freeRefs fs₀ current fs
  /-- Its slot is the only one added. -/
  openSlots : fs.openSlots = taken current ∪ fs₀.openSlots
  /-- It was not open before. -/
  fresh : Disjoint (taken current) fs₀.openSlots

theorem Holding.root (hroot : fs.target .root = .root) : Holding fs (some .root) fs where
  resolving := resolving_root hroot
  openSlots := (Set.empty_union _).symm
  fresh := Set.empty_disjoint _

/-- A scan of the current directory takes nothing. -/
theorem Holding.findFile {fs₀ : Fat12FileSystem} {file : FileRef} (h : Holding fs₀ (some file) fs)
    (name : List UInt8) (fuel : ℕ) :
    Holding fs₀ (some file) (findFileLoop file name fuel fs).2 := by
  have htarget := (h.resolving.current file rfl).2
  obtain ⟨hframe, hsame⟩ := frame_findFileLoop file name fuel htarget
  exact ⟨h.resolving.step hframe hsame.handle,
    (openSlots_of_sameFile hframe hsame).trans h.openSlots, h.fresh⟩

/-- Closing the current directory gives its slot back. -/
theorem Holding.openSlots_close {fs₀ : Fat12FileSystem} {file : FileRef}
    (h : Holding fs₀ (some file) fs) : (fs.close file).openSlots = fs₀.openSlots := by
  rw [Fat12FileSystem.openSlots_close (h.resolving.current file rfl).2, h.openSlots,
    Set.union_sdiff_left, h.fresh.symm.sdiff_eq_left]

/-- Opening the next directory takes its slot instead. -/
theorem Holding.openEntry {fs₀ : Fat12FileSystem} {file : FileRef}
    (h : Holding fs₀ (some file) fs) (e : FatDirectoryEntry) :
    Holding fs₀ ((fs.close file).openEntry e).1 ((fs.close file).openEntry e).2 := by
  obtain ⟨hopen, hfresh⟩ := openSlots_openEntry (fs.close file) e
  rw [h.openSlots_close] at hopen hfresh
  exact ⟨h.resolving.close.openEntry freeSlots_subset_freeRefs e, hopen, hfresh⟩

/-- What `open` may do to the handle table: nothing when it returns `NULL` or the root, and take one
slot that was not open when it returns a file, which carries the slot's number. The records of the
slots that were open stay as they are. -/
def Accounts (fs₀ : Fat12FileSystem) (result : Opened × Fat12FileSystem) : Prop :=
  (match result.1 with
    | .null => result.2.openSlots = fs₀.openSlots
    | .file .root _ => result.2.openSlots = fs₀.openSlots
    | .file (.slot i) _ =>
      i ∉ fs₀.openSlots ∧ result.2.openSlots = insert i fs₀.openSlots ∧
        result.2.target (.slot i) = .slot i
    | .running => True
    | .undefined => True) ∧
  ∀ j ∈ fs₀.openSlots, result.2.fileData (.slot j) = fs₀.fileData (.slot j)

/-- The records that were open are out of the reach of `open`. -/
theorem Resolving.kept {fs₀ : Fat12FileSystem} {current : Option FileRef}
    (h : Resolving fs₀.freeRefs fs₀ current fs) :
    ∀ j ∈ fs₀.openSlots, fs.fileData (.slot j) = fs₀.fileData (.slot j) :=
  fun _ hj ↦ h.frame.fileData _ (slot_not_mem_freeRefs hj.2)

/-- When the path is used up, the current file is the result. -/
theorem Holding.accounts_nil {fs₀ : Fat12FileSystem} {current : Option FileRef}
    (h : Holding fs₀ current fs) (fuel n : ℕ) (entry : Option FatDirectoryEntry) :
    Accounts fs₀ (openLoop fuel n current entry [] fs) := by
  have hopen := h.openSlots
  have hfresh := h.fresh
  rcases current with - | - | i
  · rw [openLoop]
    exact ⟨hopen.trans (Set.empty_union _), h.resolving.kept⟩
  · rw [openLoop]
    exact ⟨hopen.trans (Set.empty_union _), h.resolving.kept⟩
  · rw [openLoop]
    exact ⟨⟨Set.disjoint_singleton_left.1 hfresh, hopen, (h.resolving.current _ rfl).2⟩,
      h.resolving.kept⟩

/-- **The loop of `open` accounts for what it takes**, through every exit. -/
theorem Holding.accounts {fs₀ : Fat12FileSystem} (fuel n : ℕ) :
    ∀ {current : Option FileRef} {entry : Option FatDirectoryEntry} {path : List UInt8}
      {fs : Fat12FileSystem}, Holding fs₀ current fs →
      Accounts fs₀ (openLoop fuel n current entry path fs) := by
  induction n with
  | zero =>
    intro current entry path fs h
    cases path with
    | nil => exact h.accounts_nil fuel 0 entry
    | cons c path =>
      rw [openLoop]
      exact ⟨trivial, h.resolving.kept⟩
  | succ n ih =>
    intro current entry path fs h
    rcases path with - | ⟨c, path⟩
    · exact h.accounts_nil fuel (n + 1) entry
    rcases current with - | file
    · rw [openLoop_none]
      exact ⟨trivial, h.resolving.kept⟩
    rw [openLoop_some]
    split
    · exact ⟨trivial, h.resolving.kept⟩
    have hscan := h.findFile (nextName (c :: path)).1 fuel
    generalize findFileLoop file (nextName (c :: path)).1 fuel fs = scan at hscan ⊢
    rcases scan with ⟨- | - | e, fs₁⟩
    · exact ⟨trivial, hscan.resolving.kept⟩
    · exact ⟨hscan.openSlots_close, hscan.resolving.close.kept⟩
    · rw [afterScan]
      split
      · exact ⟨hscan.openSlots_close, hscan.resolving.close.kept⟩
      · exact ih (hscan.openEntry e)

/-- **`open` accounts for what it takes.** -/
theorem accounts_openPath (hroot : fs.target .root = .root) (fuel : ℕ) (path : List UInt8) :
    Accounts fs (fs.openPath fuel path) :=
  (Holding.root hroot).accounts fuel _

end Fat12FileSystem

/-! ### Callers -/

/-- A driver with the slots of the files its caller has been given and not closed yet. -/
structure Ledger where
  /-- The driver. -/
  fs : Fat12FileSystem
  /-- The slots of the files held, latest first. -/
  live : List ℕ

/-- A call on the driver. -/
inductive Call where
  /-- `open(path)`, each directory scan looking at no more than `fuel` entries. -/
  | openFile (path : List UInt8) (fuel : ℕ)
  /-- `read(file, n)`. -/
  | read (file : FileRef) (n : UInt32)
  /-- `seek(file, position)`. -/
  | seek (file : FileRef) (position : UInt32)
  /-- `close(file)`. -/
  | close (file : FileRef)

namespace Ledger

/-- The ledger of a freshly mounted driver. -/
def mount (fs : Fat12FileSystem) : Ledger := ⟨fs, []⟩

/-- Whether the caller may use a file: the root always, a slot while it holds a file there. -/
def Holds (s : Ledger) : FileRef → Prop
  | .root => True
  | .slot i => i ∈ s.live

instance (s : Ledger) : DecidablePred s.Holds
  | .root => isTrue trivial
  | .slot i => inferInstanceAs (Decidable (i ∈ s.live))

/-- The ledger after a file was closed: it is struck off once. -/
def strike (live : List ℕ) : FileRef → List ℕ
  | .root => live
  | .slot i => live.erase i

/-- One call; nothing when `open` does not return. A caller only uses files it holds, so that each
is closed at most once. -/
def step (s : Ledger) : Call → Option Ledger
  | .openFile path fuel =>
    match s.fs.openPath fuel path with
    | (.null, fs) => some ⟨fs, s.live⟩
    | (.file .root _, fs) => some ⟨fs, s.live⟩
    | (.file (.slot i) _, fs) => some ⟨fs, i :: s.live⟩
    | (.running, _) => none
    | (.undefined, _) => none
  | .read file n => some (if s.Holds file then ⟨(s.fs.read file n).2, s.live⟩ else s)
  | .seek file position =>
    some (if s.Holds file then ⟨(s.fs.seek file position).2, s.live⟩ else s)
  | .close file => some (if s.Holds file then ⟨s.fs.close file, strike s.live file⟩ else s)

/-- A sequence of calls, each of which returns. -/
def run (s : Ledger) (calls : List Call) : Option Ledger := calls.foldlM step s

open Fat12FileSystem in
/-- **The ledger balances**: the files held are the open slots, each listed once and under its own
handle. -/
structure Balanced (s : Ledger) : Prop where
  /-- The root record keeps its handle. -/
  root : s.fs.target .root = .root
  /-- No slot is listed twice. -/
  nodup : s.live.Nodup
  /-- The slots listed are the open ones. -/
  live : ∀ i, i ∈ s.live ↔ i ∈ s.fs.openSlots
  /-- Each keeps its handle. -/
  target : ∀ i ∈ s.live, s.fs.target (.slot i) = .slot i

namespace Balanced

open Fat12FileSystem

variable {s s' : Ledger}

theorem mount {disk : BlockDevice} {fs : Fat12FileSystem} (h : Mounted disk fs) :
    Balanced (mount fs) where
  root := (SessionBase.mount h).root
  nodup := List.nodup_nil
  live i := by
    constructor
    · exact fun hmem ↦ absurd hmem List.not_mem_nil
    · rintro ⟨hlt, hopened⟩
      exact absurd ((h.closed i hlt).symm.trans hopened) (by simp)
  target _ hmem := absurd hmem List.not_mem_nil

/-- A file the caller may use is a record under its own handle. -/
theorem target_of_holds (h : Balanced s) {file : FileRef} (hholds : s.Holds file) :
    s.fs.target file = file := by
  cases file with
  | root => exact h.root
  | slot i => exact h.target i hholds

/-- A call on a file that leaves it the same file keeps the balance. -/
theorem of_sameFile (h : Balanced s) {fs : Fat12FileSystem} {file : FileRef}
    (htarget : s.fs.target file = file) (hf : Frame {file} s.fs fs)
    (hsame : SameFile (s.fs.fileData file) (fs.fileData file)) : Balanced ⟨fs, s.live⟩ := by
  have hkeep {r : FileRef} (hr : s.fs.target r = r) : fs.target r = r := by
    by_cases hfile : r = file
    · rw [hfile]
      exact target_of_sameFile htarget hsame
    · exact target_of_frame hr hf hfile
  refine ⟨hkeep h.root, h.nodup, fun i ↦ ?_, fun i hi ↦ hkeep (h.target i hi)⟩
  rw [openSlots_of_sameFile hf hsame]
  exact h.live i

/-- Opening a file adds its slot. -/
theorem step_openFile (h : Balanced s) (path : List UInt8) (fuel : ℕ)
    (hstep : s.step (.openFile path fuel) = some s') : Balanced s' := by
  have hroot := target_root_openPath h.root fuel path
  obtain ⟨haccounts, hkept⟩ := accounts_openPath h.root fuel path
  rw [step] at hstep
  generalize s.fs.openPath fuel path = result at hroot haccounts hkept hstep
  have htarget (i : ℕ) (hi : i ∈ s.live) : result.2.target (.slot i) = .slot i := by
    rw [Fat12FileSystem.target, hkept i ((h.live i).1 hi)]
    exact h.target i hi
  rcases result with ⟨- | - | - | ⟨- | i, e⟩, fs⟩
  · exact absurd hstep (by simp)
  · exact absurd hstep (by simp)
  · obtain rfl := Option.some.inj hstep
    exact ⟨hroot, h.nodup, fun i ↦ (h.live i).trans (by rw [haccounts]), htarget⟩
  · obtain rfl := Option.some.inj hstep
    exact ⟨hroot, h.nodup, fun i ↦ (h.live i).trans (by rw [haccounts]), htarget⟩
  · obtain rfl := Option.some.inj hstep
    obtain ⟨hfresh, hopen, hhandle⟩ := haccounts
    refine ⟨hroot, List.nodup_cons.2 ⟨fun hmem ↦ hfresh ((h.live i).1 hmem), h.nodup⟩,
      fun j ↦ ?_, fun j hj ↦ ?_⟩
    · rw [hopen, List.mem_cons, Set.mem_insert_iff, h.live j]
    · rcases List.mem_cons.1 hj with rfl | hj
      · exact hhandle
      · exact htarget j hj

/-- Closing a file strikes its slot off. -/
theorem step_close (h : Balanced s) {file : FileRef} (hholds : s.Holds file) :
    Balanced ⟨s.fs.close file, strike s.live file⟩ := by
  have htarget := h.target_of_holds hholds
  have hf := frame_close s.fs htarget
  have hopen := openSlots_close htarget
  have hkeep {r : FileRef} (hr : s.fs.target r = r) : (s.fs.close file).target r = r := by
    by_cases hfile : r = file
    · subst hfile
      rw [Fat12FileSystem.target, handle_close s.fs hr]
      exact hr
    · exact target_of_frame hr hf hfile
  cases file with
  | root =>
    rw [taken, Set.sdiff_empty] at hopen
    exact ⟨hkeep h.root, h.nodup, fun i ↦ (h.live i).trans (by rw [hopen]),
      fun i hi ↦ hkeep (h.target i hi)⟩
  | slot j =>
    refine ⟨hkeep h.root, h.nodup.erase j, fun i ↦ ?_,
      fun i hi ↦ hkeep (h.target i (List.mem_of_mem_erase hi))⟩
    dsimp only [strike]
    rw [hopen, taken, Set.mem_sdiff, Set.mem_singleton_iff, h.nodup.mem_erase_iff, ← h.live i,
      and_comm]

/-- Every call that returns keeps the balance. -/
theorem step (h : Balanced s) {call : Call} (hstep : s.step call = some s') : Balanced s' := by
  cases call with
  | openFile path fuel => exact h.step_openFile path fuel hstep
  | read file n =>
    obtain rfl := Option.some.inj hstep
    split
    · next hholds =>
      have htarget := h.target_of_holds hholds
      have hf := frame_read_of_target htarget n
      have hsame := sameFile_read_of_target htarget n
      exact h.of_sameFile htarget hf hsame
    · exact h
  | seek file position =>
    obtain rfl := Option.some.inj hstep
    split
    · next hholds =>
      have htarget := h.target_of_holds hholds
      have hf := frame_seek_of_target htarget position
      have hsame := sameFile_seek_of_target htarget position
      exact h.of_sameFile htarget hf hsame
    · exact h
  | close file =>
    obtain rfl := Option.some.inj hstep
    split
    · next hholds => exact h.step_close hholds
    · exact h

/-- Every sequence of calls does. -/
theorem run (h : Balanced s) {calls : List Call} (hrun : s.run calls = some s') : Balanced s' := by
  induction calls generalizing s with
  | nil => exact Option.some.inj hrun ▸ h
  | cons call calls ih =>
    rw [Ledger.run, List.foldlM_cons] at hrun
    obtain ⟨s₁, hstep, hrest⟩ := Option.bind_eq_some_iff.1 hrun
    exact ih (h.step hstep) hrest

end Balanced

open Fat12FileSystem in
/-- **Handle accounting.** In every state that a mounted driver reaches through calls that return,
`open` accounts for what it takes of the handle table, whatever the path; the files given out and
not closed lie in slots of their own, and these are exactly the open slots. -/
theorem handle_accounting {disk : BlockDevice} {fresh : FatData} {fs : Fat12FileSystem}
    (hm : detectAndMount disk fresh = some fs) {calls : List Call} {s : Ledger}
    (hrun : (mount fs).run calls = some s) :
    (∀ fuel path, Accounts s.fs (s.fs.openPath fuel path)) ∧
      s.live.Nodup ∧ ∀ i, i ∈ s.live ↔ i ∈ s.fs.openSlots := by
  have hbalanced := (Balanced.mount (mounted_of_detectAndMount hm)).run hrun
  exact ⟨accounts_openPath hbalanced.root, hbalanced.nodup, hbalanced.live⟩

/-- Open `A` twice and the root once, read from the first file and close it. -/
def twoHandleCalls : List Call :=
  [.openFile [0x2F, 0x61] 8, .openFile [0x2F] 8, .openFile [0x2F, 0x61] 8, .read (.slot 0) 4,
    .close (.slot 0), .close .root]

/-- The ledger after these calls lists the second slot. -/
def twoHandleLedger : Ledger := ((mount twoClusterFs).run twoHandleCalls).get (by decide)

open Fat12FileSystem in
/-- And that is the open slot. -/
theorem handle_accounting_twoHandles :
    twoHandleLedger.live = [1] ∧
      (∀ fuel path, Accounts twoHandleLedger.fs (twoHandleLedger.fs.openPath fuel path)) ∧
      twoHandleLedger.live.Nodup ∧
      ∀ i, i ∈ twoHandleLedger.live ↔ i ∈ twoHandleLedger.fs.openSlots :=
  ⟨by decide, handle_accounting detectAndMount_twoClusterFloppy
    (show (mount twoClusterFs).run twoHandleCalls = some twoHandleLedger from
      (Option.some_get _).symm)⟩

end Ledger

end Aidos.Fat12
