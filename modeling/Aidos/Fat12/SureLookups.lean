import Aidos.Fat12.PathResolution
import Aidos.Fat12.Positions

/-!
# Lookups that cannot go wrong

`NextCluster` goes wrong only on an entry that the end of the FAT window splits, and a window begins
in the sector of an entry that was looked up before. So if no window that an entry of a set of
clusters loads splits another one of them (`Unsplit`), a driver that looks up no others is `Sure`:
all its lookups are right, and what is said elsewhere of a driver whose lookups are right holds of
it.

So it is with the file that is opened first, out of the root directory: the clusters looked up are
those of its chain, and the first sector of the root, which the driver takes for a cluster when it
has read the sixteenth entry.
-/

namespace Aidos.Fat12

open Fat12FileSystem

/-! ### Clusters whose entries are not split -/

/-- A window of the FAT that begins in the sector of one of these entries splits none of them. -/
def Unsplit (W : Set UInt32) : Prop :=
  ∀ c ∈ W, ∀ c' ∈ W,
    (c * 3 / 2).toNat + 1 ≠ ((c' * 3 / 2 / 512).toNat + fatCacheSize) * sectorSize

/-- The entries that lie in the first five sectors. -/
theorem unsplit_of_lt {W : Set UInt32} (h : ∀ c ∈ W, c.toNat < 1706) : Unsplit W := by
  intro c hc c' _
  have hlt := h c hc
  rw [toNat_fatIndex (by omega)]
  simp only [fatCacheSize, sectorSize]
  omega

/-- **A driver whose lookups are right** because it has only looked up these clusters. -/
structure Sure (disk : BlockDevice) (b : FatBootSector) (W : Set UInt32) (fs : Fat12FileSystem) :
    Prop where
  /-- The lookups so far were right. -/
  faithful : Faithful (diskFat disk b) fs.trace
  /-- The window begins in the sector of one of the entries. -/
  window : fs.data.fatCachePosition = 0xFFFFFFFF ∨
    ∃ c ∈ W, fs.data.fatCachePosition = c * 3 / 2 / 512

namespace Sure

variable {disk : BlockDevice} {b : FatBootSector} {W : Set UInt32} {fs fs' : Fat12FileSystem}
  {c : UInt32} {ref : FileRef}

theorem mount {fresh : FatData} (hm : detectAndMount disk fresh = some fs) :
    Sure disk fs.bs W fs where
  faithful := by
    intro c r _ _ hmem
    rw [trace_detectAndMount hm] at hmem
    exact absurd (List.mem_singleton.1 hmem) (by simp)
  window := Or.inl (mounted_of_detectAndMount hm).fatCachePosition

/-- It only depends on the lookups and on the window. -/
theorem congr (h : Sure disk b W fs)
    (htrace : ∀ c r, .successor c r ∈ fs'.trace → .successor c r ∈ fs.trace)
    (hposition : fs'.data.fatCachePosition = fs.data.fatCachePosition) : Sure disk b W fs' where
  faithful := fun c r hlow hhigh hmem ↦ h.faithful c r hlow hhigh (htrace c r hmem)
  window := by
    rw [hposition]
    exact h.window

theorem setFileData (h : Sure disk b W fs) (ref : FileRef) (fd : FatFileData) :
    Sure disk b W (fs.setFileData ref fd) :=
  h.congr (fun c r hmem ↦ by rwa [trace_setFileData] at hmem) fatCachePosition_setFileData

theorem readSector (h : Sure disk b W fs) (ref : FileRef) (lba : UInt32) :
    Sure disk b W (fs.readSector ref lba).2 := by
  refine h.congr (fun c r hmem ↦ ?_) ?_
  · rw [Fat12FileSystem.readSector] at hmem
    rcases List.mem_cons.1 hmem with heq | hmem
    · exact absurd heq (by simp)
    · exact hmem
  · cases ref <;> rfl

theorem not_straddles (h : Sure disk b W fs) (hW : Unsplit W) (hc : c ∈ W) : ¬ fs.Straddles c := by
  rw [Straddles]
  rcases h.window with hnone | ⟨c', hc', hposition⟩
  · rw [hnone]
    have hlt := (c * 3 / 2).toNat_lt
    simp only [UInt32.reduceToNat, fatCacheSize, sectorSize]
    omega
  · rw [hposition]
    exact hW c hc c' hc'

/-- **A lookup** of one of the clusters is right, and the driver stays sure. -/
theorem nextCluster (h : Sure disk b W fs) (hs : Serves disk b fs) (hW : Unsplit W) (hc : c ∈ W) :
    Sure disk b W (fs.nextCluster c).2 where
  faithful := by
    intro c' r hlow hhigh hmem
    rw [nextCluster_trace] at hmem
    simp only [List.mem_cons, Event.successor.injEq, reduceCtorEq, false_or] at hmem
    rcases hmem with ⟨rfl, rfl⟩ | hmem
    · have hright := nextCluster_of_not_straddles (not_fetchFails hs.reads _) hs.cacheValid
        (h.not_straddles hW hc)
      rw [hs.fatByte, toNat_fatIndex (by omega)] at hright
      exact hright
    · refine h.faithful c' r hlow hhigh ?_
      rcases ensureWindow_trace fs (c * 3 / 2 / 512) with htrace | ⟨lba, htrace⟩
      · rwa [htrace] at hmem
      · rw [htrace] at hmem
        exact (List.mem_cons.1 hmem).resolve_left (by simp)
  window := by
    obtain ⟨hposition, -⟩ :=
      ensureWindow_spec (not_fetchFails hs.reads _) hs.cacheValid (fatIndexSector_lt c)
    have hkept : (fs.nextCluster c).2.data.fatCachePosition =
        (fs.ensureWindow (c * 3 / 2 / 512)).data.fatCachePosition := rfl
    rw [hkept]
    rcases hposition with hold | hnew
    · rw [hold]
      exact h.window
    · exact Or.inr ⟨c, hc, hnew⟩

theorem stepCounters (h : Sure disk b W fs) (hs : Serves disk b fs) (hW : Unsplit W)
    (hc : (fs.fileData ref).currentCluster ∈ W) : Sure disk b W (fs.stepCounters ref) := by
  rw [Fat12FileSystem.stepCounters]
  split
  · exact (h.nextCluster hs hW hc).setFileData _ _
  · exact h.setFileData _ _

/-- Using up the buffer looks up the current cluster, or nothing. -/
theorem advance (h : Sure disk b W fs) (hs : Serves disk b fs) (hW : Unsplit W)
    (hc : (fs.fileData ref).currentCluster ∈ W) : Sure disk b W (fs.advance ref).2 := by
  rw [advance_eq]
  dsimp only
  split
  · exact (h.stepCounters hs hW hc).setFileData _ _
  · exact (h.stepCounters hs hW hc).readSector _ _

theorem close (h : Sure disk b W fs) (ref : FileRef) : Sure disk b W (fs.close ref) := by
  rw [Fat12FileSystem.close]
  split
  · exact (h.setFileData _ _).setFileData _ _
  · exact h.setFileData _ _

theorem openEntry (h : Sure disk b W fs) (e : FatDirectoryEntry) :
    Sure disk b W (fs.openEntry e).2 := by
  have hfill : ∀ i, Sure disk b W (fs.fillSlot i e) := fun i ↦ h.setFileData _ _
  have hfetch : ∀ i, Sure disk b W (fs.fetchSlot i e) := fun i ↦ (hfill i).readSector _ _
  have hopen : ∀ i, Sure disk b W (fs.openSlot i e) := fun i ↦ (hfetch i).setFileData _ _
  have hopens := fs.opensEntry e
  generalize fs.openEntry e = result at hopens ⊢
  cases hopens with
  | full => exact h
  | refused => exact hfill _
  | failed => exact hfetch _
  | opened => exact hopen _

end Sure

namespace Fat12FileSystem

variable {disk : BlockDevice} {b : FatBootSector} {W : Set UInt32} {fs fs' : Fat12FileSystem}
  {ref : FileRef} {σ : Stream} {p : ℕ}

/-! ### Reading -/

/-- A read delivers no more than it was asked for. -/
theorem length_read_le_count (fs : Fat12FileSystem) (file : FileRef) (n : UInt32) :
    (fs.read file n).1.length ≤ n.toNat := by
  have hloop : ∀ m : UInt32, (readLoop (fs.target file) m.toNat m [] fs).1.length ≤ 0 + m.toNat :=
    fun m ↦ length_readLoop_le m.toNat m [] fs
  rw [read]
  dsimp only
  split
  · split
    · refine (hloop _).trans ?_
      rw [Nat.zero_add, toNat_min]
      exact Nat.min_le_left _ _
    · exact (hloop _).trans (Nat.zero_add _).le
  · exact Nat.zero_le _

/-- **A read of a stream on these clusters**, whose sector boundaries are crossed right by a driver
whose lookups are right. -/
theorem InStep.read_sure (h : InStep disk b σ ref p fs) (hsure : Sure disk b W fs) (hW : Unsplit W)
    (hcap : σ.isDirectory = true → σ.size ≠ 0)
    (hmem : ∀ q < σ.size, (σ.place (q / sectorSize)).cluster ∈ W)
    (hcross : ∀ final, Faithful (diskFat disk b) final → Crosses disk b σ ref final) (n : UInt32) :
    (fs.read ref n).1 = slice (σ.byteAt disk) p (min n.toNat (σ.size - p)) ∧
      InStep disk b σ ref (p + min n.toNat (σ.size - p)) (fs.read ref n).2 ∧
      Sure disk b W (fs.read ref n).2 := by
  have hle := h.record.le
  obtain ⟨count, hcount, heq⟩ := h.placed.read_eq hcap n
  rw [heq, ← hcount]
  have hrule := readLoop_spec ref (σ.byteAt disk) σ.size
    (fun p fs ↦ InStep disk b σ ref p fs ∧ Sure disk b W fs) _
    (fun hI ↦ hI.1.record.position)
    (fun hI hp j hj ↦ hI.1.record.buffer_eq_byteAt hp hj)
    (fun t hI ht hle ↦ ⟨hI.1.movePosition ht hle, hI.2.setFileData _ _⟩)
    (fun {p fs} t hI ht hle _ ↦ by
      have hmoved : Sure disk b W (fs.movePosition ref t) := hI.2.setFileData _ _
      have hsure' : Sure disk b W ((fs.movePosition ref t).advance ref).2 := by
        refine hmoved.advance (hI.1.serves.of_frame (frame_movePosition fs ref t)) hW ?_
        rw [fileData_movePosition]
        have hp : p < σ.size := by omega
        show (fs.fileData ref).currentCluster ∈ W
        rw [hI.1.record.cluster hp]
        exact hmem p hp
      obtain ⟨hstep, hgo⟩ :=
        hcross _ hsure'.faithful t hI.1 ht hle (List.suffix_refl _)
      exact ⟨⟨hstep, hsure'⟩, hgo⟩)
    count.toNat (n := count) [] ⟨h, hsure⟩ (Nat.le_refl _) (by omega) (List.suffix_refl _)
  rwa [List.nil_append] at hrule

section File

variable {C : ClusterChain (diskFat disk b)} {first : UInt32} {size : ℕ}
  (ha : detectAccepts b = true) (hW : Unsplit W) (hsub : ∀ c ∈ C.clusters, c ∈ W)
include ha hW hsub

/-- A read of a file. -/
theorem read_file_sure (hC : C.Covers first size)
    (h : InStep disk b (C.stream first size) ref p fs) (hsure : Sure disk b W fs) (n : UInt32) :
    (fs.read ref n).1 = slice C.byteAt p (min n.toNat (size - p)) ∧
      InStep disk b (C.stream first size) ref (p + min n.toNat (size - p)) (fs.read ref n).2 ∧
      Sure disk b W (fs.read ref n).2 :=
  h.read_sure hsure hW (fun hdir ↦ absurd hdir (by simp [ClusterChain.stream]))
    (fun _ hq ↦ hsub _ (ClusterChain.cluster_mem (cluster_lt hC (spc_pos ha) hq)))
    (fun _ hfaith ↦ crosses_stream ha hC hfaith) n

/-! ### Seeking -/

omit ha in
/-- The cluster walk of `seek` looks up the clusters of the chain. -/
theorem sure_seekLoop (clusterSize : UInt32) (fuel : ℕ) :
    ∀ {i : ℕ} {cluster offset : UInt32} {fs : Fat12FileSystem}, Serves disk b fs →
      Sure disk b W fs → i < C.clusters.length → cluster = C.cluster i →
      Sure disk b W (seekLoop clusterSize fuel cluster offset fs).2 := by
  induction fuel with
  | zero => exact fun _ hsure _ _ ↦ hsure
  | succ fuel ih =>
    rintro i _ offset fs hs hsure hi rfl
    have hmem := ClusterChain.cluster_mem hi
    obtain ⟨hlow, hhigh⟩ := C.inRange _ hmem
    have hnext := hsure.nextCluster hs hW (hsub _ hmem)
    have hright : (fs.nextCluster (C.cluster i)).1 =
        fatEntry (diskFat disk b) (C.cluster i).toNat :=
      hnext.faithful _ _ hlow hhigh List.mem_cons_self
    rw [seekLoop]
    dsimp only
    split
    · split
      · exact hnext
      · next hend =>
        -- no end mark, so the chain goes on
        have hin : i + 1 < C.clusters.length := by
          by_contra hout
          have hlast : i + 1 = C.clusters.length := by omega
          exact hend (hright ▸ ClusterChain.fatEntry_last hlast)
        refine ih (hs.of_frame (frame_nextCluster fs _)) hnext hin ?_
        rw [hright, ClusterChain.fatEntry_cluster hin]
    · exact hsure

/-- **A seek inside a file.** -/
theorem seek_file_sure (hC : C.Covers first size)
    (h : InStep disk b (C.stream first size) ref p fs) (hsure : Sure disk b W fs)
    {position : UInt32} (hle : position.toNat ≤ size) :
    InStep disk b (C.stream first size) ref position.toNat (fs.seek ref position).2 ∧
      Sure disk b W (fs.seek ref position).2 ∧
      ((fs.seek ref position).1 = true ↔
        position.toNat < C.clusters.length * spc b * sectorSize) := by
  have hfirst : (fs.fileData ref).firstCluster = C.cluster 0 :=
    h.record.firstCluster.trans hC.cluster_zero.symm
  have hsize : (fs.fileData ref).pub.size.toNat = size := h.record.size
  have hroom := hC.room
  have hset := frame_setPosition fs ref position
  have hwalked : Sure disk b W (fs.seekWalk ref position).2 :=
    sure_seekLoop hW hsub _ _ (h.serves.of_frame hset) (hsure.setFileData _ _) hC.length_pos hfirst
  have hcs : (fs.bs.sectorsPerCluster.toUInt32 * 512).toNat = sectorSize * spc b := by
    rw [h.serves.bs, toNat_clusterSize, Nat.mul_comm]
  have hall : C.clusters.length * spc b * sectorSize =
      C.clusters.length * (sectorSize * spc b) := by
    rw [Nat.mul_assoc, Nat.mul_comm (spc b)]
  have hspec := seekLoop_spec ha C hcs position.toNat 0 position.toNat
    (fs.fileData ref).firstCluster position (fs.setPosition ref position)
    (h.serves.of_frame hset) hC.length_pos hfirst (by rw [Nat.zero_mul]; omega) (by omega)
    (Nat.le_refl _)
  rw [← seekWalk] at hspec
  suffices hseek : Sure disk b W (fs.seek ref position).2 ∧ ((fs.seek ref position).1 = true ↔
      position.toNat < C.clusters.length * spc b * sectorSize) from
    ⟨seek_inStep ha hC h hle hseek.1.faithful, hseek⟩
  have hseeks := fs.seeks ref position
  generalize fs.seek ref position = result at hseeks ⊢
  cases hseeks with
  | behind _ hlt =>
    have hlt' := UInt32.lt_iff_toNat_lt.1 hlt
    omega
  | closed hclosed =>
    rw [h.target, h.record.opened] at hclosed
    exact absurd hclosed (by simp)
  | off _ _ hwalk =>
    rw [h.target] at hwalk
    rw [hwalk] at hspec hwalked
    rcases hspec hwalked.faithful with ⟨_, _, hsome, -⟩ | ⟨-, hend⟩
    · exact absurd hsome (by simp)
    · exact ⟨hwalked, iff_of_false (by simp) (by omega)⟩
  | @found c o fs' _ _ hwalk =>
    rw [h.target] at hwalk ⊢
    rw [hwalk] at hspec hwalked
    have hframe := (frame_of_seekWalk hwalk).trans (frame_setCounters fs' ref c (o / 512))
    refine ⟨(hwalked.setFileData _ _).readSector _ _, iff_of_true ?_ ?_⟩
    · exact (readSector_of_answers (h.serves.of_frame hframe).reads.answers ref _).1
    · rcases hspec hwalked.faithful with ⟨_, _, -, hin, -⟩ | ⟨hnone, -⟩
      · rw [hall]
        exact (Nat.div_lt_iff_lt_mul (Nat.mul_pos (by decide) (spc_pos ha))).1 hin
      · exact absurd hnone (by simp)

end File

/-! ### A file of the root directory -/

/-- A scan of the root looks up its first sector, or nothing. -/
theorem sure_findFileLoop_root (hW : Unsplit W) (hroot : rootDirLba b ∈ W)
    (hcount : b.rootEntryCount.toNat ≠ 0) (hreach : NextInReach b) (name : List UInt8) (fuel : ℕ) :
    ∀ {p : ℕ} {fs : Fat12FileSystem}, InStep disk b (rootStream b) .root p fs →
      Sure disk b W fs → Sure disk b W (findFileLoop .root name fuel fs).2 := by
  induction fuel with
  | zero => exact fun _ hsure ↦ hsure
  | succ fuel ih =>
    intro p fs h hsure
    obtain ⟨-, hstep, hsure'⟩ := h.read_sure hsure hW
      (fun _ hzero ↦ hcount ((Nat.mul_eq_zero.1 hzero).resolve_left (by decide)))
      (fun _ _ ↦ hroot) (fun final _ ↦ crosses_rootStream hreach final) 32
    rw [findFileLoop_succ]
    split
    · split
      · exact hsure'
      · exact ih hstep hsure'
    · exact hsure'

/-- **`open` of a file of the root directory**, first after mounting: it stands at its first byte,
and so far all lookups were right. -/
theorem openPath_root (hd : disk.AllReadsSucceed) {fresh : FatData}
    (hm : detectAndMount disk fresh = some fs) (h512 : fs.bs.bytesPerSector = 512)
    (hreach : RootInReach fs.bs) {name : List UInt8} (hname : PathName name)
    {e : FatDirectoryEntry} (hfound : firstMatch (rootEntries disk fs.bs) name = .found e)
    (hregular : e.isDirectory = false) {C : ClusterChain (diskFat disk fs.bs)}
    (hC : C.Covers e.firstCluster e.size.toNat) (hW : Unsplit W) (hroot : rootDirLba fs.bs ∈ W)
    {fuel : ℕ} (hfuel : fs.bs.rootEntryCount.toNat < fuel) :
    ∃ i fs', fs.openPath fuel (47 :: name) = (.file (.slot i) (some e), fs') ∧
      InStep disk fs.bs (C.stream e.firstCluster e.size.toNat) (.slot i) 0 fs' ∧
      Sure disk fs.bs W fs' := by
  have hmount := mounted_of_detectAndMount hm
  have hready : Ready disk fs.bs (rootEntries disk fs.bs) .root fs := hmount.ready hd h512 hreach
  have hnext := nextInReach_of_rootInReach hmount.accepts h512 hreach
  obtain ⟨c, path, rfl⟩ := List.exists_cons_of_ne_nil hname.ne_nil
  have hlast : nextName (c :: path) = (c :: path, [], true) := nextName_last hname
  have hscan : (fs.findFile fuel .root (c :: path)).1 = .found e :=
    ((hmount.rootReadable hd h512 hreach).find _ fuel hfuel).trans hfound
  have hsure : Sure disk fs.bs W (fs.findFile fuel .root (c :: path)).2 :=
    sure_findFileLoop_root hW hroot (Nat.ne_of_gt hreach.1) hnext _ fuel (hmount.inStep_root hd)
      (Sure.mount hm)
  obtain ⟨hframe, hsame⟩ : Frame {.root} fs (fs.findFile fuel .root (c :: path)).2 ∧ _ :=
    frame_findFileLoop .root _ fuel hready.target
  have hopen : fs.openPath fuel (47 :: c :: path) =
      openLoop fuel path.length (((fs.findFile fuel .root (c :: path)).2.close .root).openEntry e).1
        (some e) [] (((fs.findFile fuel .root (c :: path)).2.close .root).openEntry e).2 := by
    have hslash : fs.openPath fuel (47 :: c :: path) =
        openLoop fuel (c :: path).length (some .root) none (c :: path) fs :=
      openPath_joined hname
        (Or.inr (congrArg _ (show c :: path = joined [c :: path] from rfl))) fuel
    refine hslash.trans ?_
    refine (openLoop_of_findFile (by rw [hlast]; exact hname.fits) rfl).trans ?_
    rw [hlast, ← Prod.mk.eta (p := fs.findFile fuel .root (c :: path)), hscan]
    rfl
  have htarget := target_of_sameFile hready.target hsame
  have hserves := (hready.serves.of_frame hframe).of_frame (frame_close _ htarget)
  have hclosed : ((fs.findFile fuel .root (c :: path)).2.close .root).freeHandle ≠ none :=
    hready.freeHandle_close hframe htarget
  obtain ⟨i, hi⟩ := (openEntry_iff hserves hclosed).2 (not_refused_of_chain hC.first)
  rw [hi] at hopen
  refine ⟨i, _, hopen.trans (by cases path <;> rfl), ?_, (hsure.close _).openEntry e⟩
  exact inStep_openEntry hmount.accepts hserves hregular hC (Prod.ext hi rfl)

end Fat12FileSystem

end Aidos.Fat12
