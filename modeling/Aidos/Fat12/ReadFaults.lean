import Aidos.Fat12.Sessions

/-!
# Reading on a device that fails

When the device fails to deliver the next sector, `read` stops. The position has already moved
there, and the buffer still holds the sector before (or whatever the device has left in it). Nothing
in the record says so, and the next call reads on from that buffer.

`read_placed` says what one call on a handle that stands at its position delivers: a slice of the
file, and either the handle stands behind it or it is lost. `reads_deliver_iff` puts calls together:
they deliver the file, and nothing after a failure, exactly when the caller asks for nothing after
one.
-/

namespace Aidos.Fat12

namespace Fat12FileSystem

variable {disk : BlockDevice} {b : FatBootSector} {σ : Stream} {ref : FileRef} {p : ℕ}
  {fs : Fat12FileSystem}

/-- The last request of a call of `read` failed. -/
def ReadFails (fs : Fat12FileSystem) (ref : FileRef) (n : UInt32) : Prop :=
  (fs.read ref n).2.disk.FailedSince fs.disk.calls

/-- The position of a record is its size. -/
def AtEnd (fs : Fat12FileSystem) (ref : FileRef) : Prop :=
  (fs.fileData ref).pub.position = (fs.fileData ref).pub.size

/-! ### One call -/

/-- Nothing asked for, nothing done. -/
theorem read_zero (fs : Fat12FileSystem) (ref : FileRef) : fs.read ref 0 = ([], fs) := by
  have hmin (x : UInt32) : min 0 x = 0 := by
    rw [← UInt32.toNat_inj, toNat_min]
    exact Nat.zero_min _
  rw [read]
  dsimp only
  rw [hmin, ite_self]
  split
  · exact readLoop_of_eq_zero rfl
  · rfl

/-- The loop of `read` only adds to what it has delivered. -/
theorem exists_readLoop (ref : FileRef) (fuel : ℕ) (n : UInt32) (out : List UInt8)
    (fs : Fat12FileSystem) : ∃ more, (readLoop ref fuel n out fs).1 = out ++ more := by
  induction fuel generalizing n out fs with
  | zero => exact ⟨[], (List.append_nil out).symm⟩
  | succ fuel ih =>
    rcases Nat.eq_zero_or_pos n.toNat with hn | hn
    · rw [readLoop_of_eq_zero hn]
      exact ⟨[], (List.append_nil out).symm⟩
    rw [readLoop_succ ref fuel hn]
    dsimp only
    split
    · split
      · obtain ⟨more, hmore⟩ := ih (n - min n (512 - (fs.fileData ref).pub.position % 512)) _ _
        rw [hmore, List.append_assoc]
        exact ⟨_, rfl⟩
      · exact ⟨_, rfl⟩
    · obtain ⟨more, hmore⟩ := ih (n - min n (512 - (fs.fileData ref).pub.position % 512)) _ _
      rw [hmore, List.append_assoc]
      exact ⟨_, rfl⟩

/-- A read of an open file that asks for something before its end delivers something, whatever is in
the buffer. -/
theorem read_ne_nil (htarget : fs.target ref = ref) (hopened : (fs.fileData ref).opened = true)
    (hfile : (fs.fileData ref).pub.isDirectory = false) {n : UInt32} (hn : n ≠ 0)
    (hend : ¬ fs.AtEnd ref) :
    (fs.read ref n).1 ≠ [] := by
  have hleft : (fs.fileData ref).pub.size - (fs.fileData ref).pub.position ≠ 0 := by
    intro hzero
    have hcancel := UInt32.sub_add_cancel (fs.fileData ref).pub.size (fs.fileData ref).pub.position
    rw [hzero, UInt32.zero_add] at hcancel
    exact hend hcancel
  generalize hcount : min n ((fs.fileData ref).pub.size - (fs.fileData ref).pub.position) = count
  have hpos : 0 < count.toNat := by
    have hn' : n.toNat ≠ 0 := fun hzero ↦ hn (UInt32.toNat_inj.1 hzero)
    have hleft' : ((fs.fileData ref).pub.size - (fs.fileData ref).pub.position).toNat ≠ 0 :=
      fun hzero ↦ hleft (UInt32.toNat_inj.1 hzero)
    rw [← hcount, toNat_min]
    omega
  rw [read]
  dsimp only
  rw [htarget, if_pos hopened, hfile, Bool.not_false, Bool.true_or, if_pos rfl, hcount]
  obtain ⟨fuel, hfuel⟩ := Nat.exists_eq_succ_of_ne_zero hpos.ne'
  rw [hfuel, readLoop_succ ref fuel hpos]
  have htake : (min count (512 - (fs.fileData ref).pub.position % 512)).toNat =
      min count.toNat (512 - (fs.fileData ref).pub.position.toNat % 512) := (take_spec rfl).2.1
  have hfirst : slice (fs.fileData ref).buffer ((fs.fileData ref).pub.position % 512).toNat
      (min count (512 - (fs.fileData ref).pub.position % 512)).toNat ≠ [] := by
    intro hnil
    have hlength := congrArg List.length hnil
    rw [length_slice, htake, List.length_nil] at hlength
    omega
  dsimp only
  rw [List.nil_append]
  have hmore {r : List UInt8 × Fat12FileSystem} {out : List UInt8} (hout : out ≠ [])
      (h : ∃ more, r.1 = out ++ more) : r.1 ≠ [] := by
    obtain ⟨more, hmore⟩ := h
    rw [hmore]
    exact fun hnil ↦ hout (List.append_eq_nil_iff.1 hnil).1
  split
  · split
    · exact hmore hfirst (exists_readLoop _ _ _ _ _)
    · exact hfirst
  · exact hmore hfirst (exists_readLoop _ _ _ _ _)

section Files

variable {C : ClusterChain (diskFat disk b)} {first : UInt32} {size : ℕ}

/-- **One call on any device** delivers a slice of the file from the position. Either that is all it
was asked for and the handle stands behind it, or a fetch has failed and the handle is lost. -/
theorem read_placed (ha : detectAccepts b = true) (hC : C.Covers first size)
    (h : Placed disk b (C.stream first size) ref p fs) (n : UInt32)
    (hfaith : Faithful (diskFat disk b) (fs.read ref n).2.trace) :
    ∃ k ≤ min n.toNat (size - p), (fs.read ref n).1 = slice C.byteAt p k ∧
      (k = min n.toNat (size - p) ∧
        Placed disk b (C.stream first size) ref (p + k) (fs.read ref n).2 ∨
        Lost disk b (C.stream first size) ref (p + k) (fs.read ref n).2 ∧ fs.ReadFails ref n) := by
  obtain ⟨count, hcount, heq⟩ :=
    h.read_eq (fun hdir ↦ absurd hdir (by simp [ClusterChain.stream])) n
  have hsize : (C.stream first size).size = size := rfl
  have hle : p ≤ size := h.record.le
  rw [hsize] at hcount
  rw [ReadFails]
  rw [heq] at hfaith ⊢
  rw [← hcount]
  obtain ⟨k, hk, hout, hend⟩ := readLoop_stops ref C.byteAt size
    (fun q fs' ↦ Placed disk b (C.stream first size) ref q fs' ∧ fs.disk.calls ≤ fs'.disk.calls)
    (fun q fs' ↦ (q = size ∧ Placed disk b (C.stream first size) ref q fs') ∨
      (Lost disk b (C.stream first size) ref q fs' ∧ fs'.disk.FailedSince fs.disk.calls))
    _ (fun hI ↦ hI.1.record.position)
    (fun hI hp j hj ↦ hI.1.record.buffer_eq_byteAt hp hj)
    (fun {q fs'} t hI ht hle ↦ ⟨hI.1.movePosition ht hle, by
      rw [Fat12FileSystem.movePosition, disk_setFileData]
      exact hI.2⟩)
    (fun {q fs'} t hI ht hle hfinal ↦ by
      have hcalls := calls_le_advance (fs'.movePosition ref t) ref
      rw [show (fs'.movePosition ref t).disk = fs'.disk from disk_setFileData] at hcalls
      rcases advance_placed ha hC hI.1 ht hle (hfaith.of_suffix hfinal) with
        ⟨hplaced, hgo⟩ | ⟨hlost, hstop, hfail⟩
      · refine ⟨fun _ ↦ ⟨hplaced, hI.2.trans hcalls⟩, fun hstop ↦ Or.inl ⟨?_, hplaced⟩⟩
        by_contra hne
        rw [hgo (Nat.lt_of_le_of_ne hle hne)] at hstop
        exact absurd hstop (by simp)
      · exact ⟨fun hgo ↦ absurd (hgo.symm.trans hstop) (by simp),
          fun _ ↦ Or.inr ⟨hlost, hfail.mono hI.2⟩⟩)
    _ [] ⟨h, Nat.le_refl _⟩ (Nat.le_refl _) (by omega) (List.suffix_refl _)
  rw [List.nil_append] at hout
  refine ⟨k, hk, hout, ?_⟩
  rcases hend with ⟨hall, hplaced, -⟩ | ⟨hstop, hplaced⟩ | hlost
  · exact Or.inl ⟨hall, hplaced⟩
  · exact Or.inl ⟨by omega, hplaced⟩
  · exact Or.inr hlost

end Files

end Fat12FileSystem

/-! ### Sequences of calls -/

namespace Session

open Fat12FileSystem

/-- A sequence of calls `read(handle, n)`. -/
def reads (s : Session) (calls : List (ℕ × UInt32)) : Session :=
  s.run (calls.map fun c ↦ .read c.1 c.2)

/-- A call for the handle `i` among the given ones ended with a request that failed. -/
def FailedBefore (s : Session) (i : ℕ) (before : List (ℕ × UInt32)) : Prop :=
  ∃ earlier n later, before = earlier ++ (i, n) :: later ∧
    (s.reads earlier).fs.ReadFails (.slot i) n

/-- What the call `read(i, n)` should deliver after the calls `before`: bytes of the stream `src`
from the position of the handle on, and none if the device has failed. -/
structure Delivers (s : Session) (src : ℕ → UInt8) (i : ℕ)
    (before : List (ℕ × UInt32)) (n : UInt32) :
    Prop where
  /-- Every byte delivered is the byte at its position. -/
  bytes : ((s.reads before).fs.read (.slot i) n).1 =
    slice src ((s.reads before).fs.fileData (.slot i)).pub.position.toNat
      ((s.reads before).fs.read (.slot i) n).1.length
  /-- After a failure nothing is delivered. -/
  nothing : s.FailedBefore i before → ((s.reads before).fs.read (.slot i) n).1 = []

/-- The caller asks for nothing behind a failure: the device has not failed the handle, or the
handle is at its end, or the call is for no bytes. -/
def StopsAtFailure (s : Session) (i : ℕ) (before : List (ℕ × UInt32)) (n : UInt32) : Prop :=
  n = 0 ∨ (s.reads before).fs.AtEnd (.slot i) ∨ ¬ s.FailedBefore i before

/-- Between the calls: the handle is held, and stands at its position, or is lost after a failure.
-/
structure Reading (disk : BlockDevice) (b : FatBootSector) (σ : Stream) (i : ℕ) (s : Session)
    (before : List (ℕ × UInt32)) : Prop where
  /-- The handles held are in order. -/
  base : SessionBase disk b (s.reads before)
  /-- The handle is held. -/
  held : ∃ v, (s.reads before).handles i = some v
  /-- It stands at its position, or is lost. -/
  place : ∃ p, Placed disk b σ (.slot i) p (s.reads before).fs ∨
    Lost disk b σ (.slot i) p (s.reads before).fs ∧ s.FailedBefore i before

variable {disk : BlockDevice} {b : FatBootSector} {s : Session} {i : ℕ}

theorem reads_append (s : Session) (before : List (ℕ × UInt32)) (c : ℕ × UInt32) :
    s.reads (before ++ [c]) = (s.reads before).step (.read c.1 c.2) := by
  rw [reads, run, List.map_append, List.foldl_append]
  rfl

theorem FailedBefore.append {before : List (ℕ × UInt32)} (h : s.FailedBefore i before)
    (c : ℕ × UInt32) : s.FailedBefore i (before ++ [c]) := by
  obtain ⟨earlier, n, later, rfl, hfail⟩ := h
  exact ⟨earlier, n, later ++ [c], by simp, hfail⟩

/-- A call on another handle leaves this one alone. -/
theorem Reading.other {σ : Stream} {before : List (ℕ × UInt32)}
    (h : Reading disk b σ i s before) {j : ℕ}
    (hij : i ≠ j) (n : UInt32) : Reading disk b σ i s (before ++ [(j, n)]) := by
  have hbase := h.base.step (.read j n)
  obtain ⟨v, hv⟩ := h.held
  obtain ⟨p, hplace⟩ := h.place
  rw [← reads_append s before (j, n)] at hbase
  have hstep := reads_append s before (j, n)
  rw [Session.step] at hstep
  dsimp only at hstep
  cases hheld : (s.reads before).handles j with
  | none =>
    rw [hheld] at hstep
    refine ⟨hbase, ⟨v, hstep ▸ hv⟩, p, ?_⟩
    rw [hstep]
    exact hplace.imp_right fun hlost ↦ ⟨hlost.1, hlost.2.append _⟩
  | some w =>
    rw [hheld] at hstep
    have hframe := frame_read (s.reads before).fs (.slot j) n
    rw [(h.base.held hheld).2] at hframe
    have hmem : FileRef.slot i ∉ ({.slot j} : Set FileRef) := by simpa using hij
    refine ⟨hbase, ⟨v, ?_⟩, p, ?_⟩
    · rw [hstep]
      exact (Function.update_of_ne hij _ _).trans hv
    · rw [hstep]
      exact hplace.imp (fun hplaced ↦ hplaced.of_frame hframe hmem) fun hlost ↦
        ⟨hlost.1.of_frame hframe hmem, hlost.2.append _⟩

section File

variable {C : ClusterChain (diskFat disk b)} {first : UInt32} {size : ℕ}
    {before : List (ℕ × UInt32)}

/-- **A call on the handle** keeps it at its position or lost, if nothing is asked for behind a
failure. -/
theorem Reading.own (ha : detectAccepts b = true) (hC : C.Covers first size)
    (h : Reading disk b (C.stream first size) i s before) {n : UInt32}
    (hstops : s.StopsAtFailure i before n)
    (hfaith : Faithful (diskFat disk b) (s.reads (before ++ [(i, n)])).fs.trace) :
    Reading disk b (C.stream first size) i s (before ++ [(i, n)]) := by
  have hbase := h.base.step (.read i n)
  obtain ⟨⟨e, q⟩, hv⟩ := h.held
  obtain ⟨p, hplace⟩ := h.place
  rw [← reads_append s before (i, n)] at hbase
  have hstep := reads_append s before (i, n)
  rw [Session.step] at hstep
  dsimp only at hstep
  rw [hv] at hstep
  dsimp only at hstep
  have hheld : ∃ v, (s.reads (before ++ [(i, n)])).handles i = some v := by
    rw [hstep]
    exact ⟨_, Function.update_self _ _ _⟩
  have hfs : (s.reads (before ++ [(i, n)])).fs = ((s.reads before).fs.read (.slot i) n).2 := by
    rw [hstep]
  rw [hfs] at hfaith
  rcases hplace with hplaced | ⟨hlost, hfailed⟩
  · obtain ⟨k, -, -, hend⟩ := read_placed ha hC hplaced n hfaith
    refine ⟨hbase, hheld, p + k, ?_⟩
    rw [hfs]
    exact hend.imp (fun hall ↦ hall.2) fun hlost ↦ ⟨hlost.1, before, n, [], rfl, hlost.2⟩
  · -- a lost handle is only asked for nothing
    have hn : n = 0 := by
      refine hstops.resolve_right ?_
      rintro (hend | hnot)
      · have hsame := congrArg UInt32.toNat hend
        have hlt := hlost.lt
        rw [hlost.position, hlost.size] at hsame
        omega
      · exact hnot hfailed
    refine ⟨hbase, hheld, p, ?_⟩
    rw [hfs, hn, read_zero]
    exact Or.inr ⟨hlost, hfailed.append _⟩

/-- What the call delivers, if nothing is asked for behind a failure. -/
theorem Reading.delivers (ha : detectAccepts b = true) (hC : C.Covers first size)
    (h : Reading disk b (C.stream first size) i s before) {n : UInt32}
    (hstops : s.StopsAtFailure i before n)
    (hfaith : Faithful (diskFat disk b) ((s.reads before).fs.read (.slot i) n).2.trace) :
    s.Delivers C.byteAt i before n := by
  obtain ⟨p, hplaced | ⟨hlost, hfailed⟩⟩ := h.place
  · obtain ⟨k, hk, hout, -⟩ := read_placed ha hC hplaced n hfaith
    refine ⟨?_, fun hfailed ↦ ?_⟩
    · rw [hplaced.record.position, hout, length_slice]
    · have hzero : k = 0 := by
        rcases hstops with rfl | hend | hnot
        · exact Nat.le_zero.1 (hk.trans (Nat.min_le_left _ _))
        · have hsame := congrArg UInt32.toNat hend
          rw [hplaced.record.position, hplaced.record.size] at hsame
          have hsize : (C.stream first size).size = size := rfl
          omega
        · exact absurd hfailed hnot
      rw [hout, hzero]
      rfl
  · have hn : n = 0 := by
      refine hstops.resolve_right ?_
      rintro (hend | hnot)
      · have hsame := congrArg UInt32.toNat hend
        have hlt := hlost.lt
        rw [hlost.position, hlost.size] at hsame
        omega
      · exact hnot hfailed
    rw [hn]
    refine ⟨?_, fun _ ↦ ?_⟩
    · rw [read_zero]
      exact (slice_zero _ _).symm
    · rw [read_zero]

/-- A call that delivers what it should was not for bytes behind a failure. -/
theorem Reading.stopsAtFailure (h : Reading disk b (C.stream first size) i s before) {n : UInt32}
    (hdelivers : s.Delivers C.byteAt i before n) : s.StopsAtFailure i before n := by
  by_contra hnot
  rw [StopsAtFailure, not_or, not_or, not_not] at hnot
  obtain ⟨hn, hend, hfailed⟩ := hnot
  obtain ⟨v, hv⟩ := h.held
  obtain ⟨hopened, htarget⟩ := h.base.held hv
  have hfile : ((s.reads before).fs.fileData (.slot i)).pub.isDirectory = false := by
    obtain ⟨p, hplaced | ⟨hlost, -⟩⟩ := h.place
    · exact hplaced.record.isDirectory
    · exact hlost.isDirectory
  exact read_ne_nil htarget hopened hfile hn hend (hdelivers.nothing hfailed)

/-- The trace of a session only grows. -/
theorem trace_reads (hbase : SessionBase disk b s) (before rest : List (ℕ × UInt32)) :
    (s.reads before).fs.trace <:+ (s.reads (before ++ rest)).fs.trace := by
  induction rest using List.reverseRecOn with
  | nil => rw [List.append_nil]
  | append_singleton rest c ih =>
    have hrun := hbase.run ((before ++ rest).map fun c ↦ .read c.1 c.2)
    obtain ⟨refs, hframe⟩ := SessionBase.frame hrun (.read c.1 c.2)
    rw [← List.append_assoc, reads_append]
    exact ih.trans hframe.trace

/-- As long as nothing is asked for behind a failure, the handle stands at its position or is lost.
-/
theorem Reading.run (ha : detectAccepts b = true) (hC : C.Covers first size)
    (h : Reading disk b (C.stream first size) i s []) {calls : List (ℕ × UInt32)}
    (hfaith : Faithful (diskFat disk b) (s.reads calls).fs.trace)
    (hstops : ∀ before n after, calls = before ++ (i, n) :: after →
      Reading disk b (C.stream first size) i s before → s.StopsAtFailure i before n)
    (before rest : List (ℕ × UInt32)) (heq : calls = before ++ rest) :
    Reading disk b (C.stream first size) i s before := by
  induction before using List.reverseRecOn generalizing rest with
  | nil => exact h
  | append_singleton before c ih =>
    have hsplit : calls = before ++ c :: rest := by
      rw [heq, List.append_assoc, List.singleton_append]
    have hreading := ih (c :: rest) hsplit
    have hfaith' : Faithful (diskFat disk b) (s.reads (before ++ [c])).fs.trace :=
      hfaith.of_suffix (heq ▸ trace_reads h.base (before ++ [c]) rest)
    obtain ⟨j, n⟩ := c
    rcases eq_or_ne i j with rfl | hij
    · exact hreading.own ha hC (hstops before n rest hsplit hreading) hfaith'
    · exact hreading.other hij n

/-- The trace of a call of a sequence is part of the whole one. -/
theorem trace_read (hbase : SessionBase disk b s) {calls : List (ℕ × UInt32)} {n : UInt32}
    {after : List (ℕ × UInt32)} (heq : calls = before ++ (i, n) :: after)
    {v : FatDirectoryEntry × ℕ} (hv : (s.reads before).handles i = some v) :
    ((s.reads before).fs.read (.slot i) n).2.trace <:+ (s.reads calls).fs.trace := by
  have hstep := reads_append s before (i, n)
  rw [Session.step] at hstep
  dsimp only at hstep
  rw [hv] at hstep
  have hfs : (s.reads (before ++ [(i, n)])).fs = ((s.reads before).fs.read (.slot i) n).2 := by
    rw [hstep]
  have hsplit : calls = (before ++ [(i, n)]) ++ after := by
    rw [heq, List.append_assoc, List.singleton_append]
  rw [← hfs, hsplit]
  exact trace_reads hbase _ _

end File

/-- **Reads on a device that fails.** After a mount and any calls, on a device that answers or fails
as it likes, let a file be opened from the entry `e`; let `C` be a sound chain of the on-disk FAT
from its first cluster, with room for its size. Take any sequence of read calls on the handles held,
with FAT lookups that return on-disk successors. Every call for the file delivers bytes of the file
from its position, and none once the device has failed the file, if and only if no call for it asks
for bytes before its end once the device has failed it. -/
theorem reads_deliver_iff {disk : BlockDevice} {fresh : FatData} {fs : Fat12FileSystem}
    (hm : detectAndMount disk fresh = some fs) (ops : List Op) {path : List UInt8} {fuel i : ℕ}
    {e : FatDirectoryEntry}
    (hopen : (((Session.mount fs).run ops).fs.openPath fuel path).1 = .file (.slot i) (some e))
    (hfile : e.isDirectory = false) (C : ClusterChain (diskFat disk fs.bs))
    (hC : C.Covers e.firstCluster e.size.toNat) (calls : List (ℕ × UInt32))
    (hfaith : Faithful (diskFat disk fs.bs)
      ((((Session.mount fs).run ops).step (.openFile path fuel)).reads calls).fs.trace) :
    (∀ before n after, calls = before ++ (i, n) :: after →
        (((Session.mount fs).run ops).step (.openFile path fuel)).Delivers C.byteAt i before n) ↔
      ∀ before n after, calls = before ++ (i, n) :: after →
        (((Session.mount fs).run ops).step (.openFile path fuel)).StopsAtFailure i before n := by
  have hmount := mounted_of_detectAndMount hm
  have ha := hmount.accepts
  have hbase := (SessionBase.mount hmount).run ops
  have hstart : Reading disk fs.bs (C.stream e.firstCluster e.size.toNat) i
      (((Session.mount fs).run ops).step (.openFile path fuel)) [] := by
    obtain ⟨fs₁, hframe, hentry⟩ := openPath_of_file hbase.root fuel path hopen
    refine ⟨hbase.step (.openFile path fuel), ⟨(e, 0), ?_⟩, 0, Or.inl ?_⟩
    · show (((Session.mount fs).run ops).step (.openFile path fuel)).handles i = _
      rw [Session.step, hopen]
      exact Function.update_self _ _ _
    · exact placed_openEntry ha (hbase.volume.of_frame hframe) hfile hC hentry
  generalize ((Session.mount fs).run ops).step (.openFile path fuel) = s at hfaith hstart ⊢
  constructor
  · intro hdelivers before n after heq
    have hreading := hstart.run ha hC hfaith
      (fun before n after heq hreading ↦ hreading.stopsAtFailure (hdelivers before n after heq))
      before _ heq
    exact hreading.stopsAtFailure (hdelivers before n after heq)
  · intro hstops before n after heq
    have hreading := hstart.run ha hC hfaith (fun before n after heq _ ↦ hstops before n after heq)
      before _ heq
    obtain ⟨v, hv⟩ := hreading.held
    exact hreading.delivers ha hC (hstops before n after heq)
      (hfaith.of_suffix (trace_read hstart.base heq hv))

/-! ### A file whose second sector cannot be read -/

/-- The floppy disk with a file of two clusters, on a drive that fails on the sixth request. -/
def brokenFloppy : BlockDevice :=
  { twoClusterFloppy with outcome := fun k ↦ if k = 5 then some 0 else none }

/-- The driver after mounting it. -/
def brokenFloppyFs : Fat12FileSystem := (detectAndMount brokenFloppy blankData).get (by decide)

theorem detectAndMount_brokenFloppy :
    detectAndMount brokenFloppy blankData = some brokenFloppyFs := by
  rw [brokenFloppyFs, Option.some_get]

theorem linked_brokenFloppy (i : ℕ) (h : i + 1 < [(2 : UInt32), 3].length) :
    fatEntry (diskFat brokenFloppy brokenFloppyFs.bs) [(2 : UInt32), 3][i].toNat =
      [(2 : UInt32), 3][i + 1] := by
  obtain rfl : i = 0 := by
    simp only [List.length_cons, List.length_nil] at h
    omega
  exact (by decide : fatEntry (diskFat brokenFloppy brokenFloppyFs.bs) 2 = 3)

theorem ends_brokenFloppy (c : UInt32) (h : [(2 : UInt32), 3].getLast? = some c) :
    0xFF8 ≤ (fatEntry (diskFat brokenFloppy brokenFloppyFs.bs) c.toNat).toNat := by
  obtain rfl : 3 = c := Option.some.inj h
  decide

/-- The chain of its file. -/
def brokenFloppyChain : ClusterChain (diskFat brokenFloppy brokenFloppyFs.bs) where
  clusters := [2, 3]
  inRange := twoClusterChain.inRange
  linked := linked_brokenFloppy
  ends := ends_brokenFloppy

/-- The caller that has opened the file. -/
def brokenFloppySession : Session :=
  ((Session.mount brokenFloppyFs).run []).step (.openFile [0x61] 8)

/-- Two calls, the first of which ends with the failed request. -/
theorem reads_deliver_iff_brokenFloppy :
    (∀ before n after, [(0, 512), (0, 4)] = before ++ (0, n) :: after →
        brokenFloppySession.Delivers brokenFloppyChain.byteAt 0 before n) ↔
      ∀ before n after, [(0, 512), (0, 4)] = before ++ (0, n) :: after →
        brokenFloppySession.StopsAtFailure 0 before n :=
  reads_deliver_iff detectAndMount_brokenFloppy [] (e := twoClusterEntry) rfl (by decide)
    brokenFloppyChain ⟨by decide, by decide⟩ [(0, 512), (0, 4)] (faithful_of_all (by decide))

/-- **Stale bytes.** The second call delivers the beginning of the first sector again, for the bytes
512 to 515 of the file. -/
theorem not_delivers_brokenFloppy :
    ((brokenFloppySession.reads [(0, 512)]).fs.read (.slot 0) 4).1 = [33, 34, 35, 36] ∧
      slice brokenFloppyChain.byteAt 512 4 = [34, 35, 36, 37] ∧
      ¬ brokenFloppySession.Delivers brokenFloppyChain.byteAt 0 [(0, 512)] 4 := by
  have hread : ((brokenFloppySession.reads [(0, 512)]).fs.read (.slot 0) 4).1 =
      [33, 34, 35, 36] := by
    decide
  have hposition :
      ((brokenFloppySession.reads [(0, 512)]).fs.fileData (.slot 0)).pub.position.toNat =
      512 := by
    decide
  have hslice : slice brokenFloppyChain.byteAt 512 4 = [34, 35, 36, 37] := by decide
  refine ⟨hread, hslice, fun h ↦ ?_⟩
  have hbytes := h.bytes
  rw [hread, hposition] at hbytes
  exact absurd (hbytes.trans hslice) (by decide)

end Session

end Aidos.Fat12
