import Aidos.Fat12.Sessions
import Aidos.Fat12.ShortNames
import Aidos.Fat12.Subdirectories

/-!
# `open` and the tree of directories

The directories of a volume form a tree: the root directory at the top, and under every entry of a
directory the entries of its cluster chain. `Resolves` is how a path of names is followed in that
tree, on the disk alone. `open` follows it through the handles of the driver, where it opens, scans
and closes one directory after the other. What it returns is what the tree says, and a file that it
returns is read from its first byte (`openPath_resolves`).
-/

namespace Aidos.Fat12

open Fat12FileSystem

/-! ### Paths in the tree -/

/-- Following a path of names from a directory with the given entries: the entry that is to be
opened, or nothing. -/
inductive Resolves (disk : BlockDevice) (b : FatBootSector) :
    List FatDirectoryEntry → List (List UInt8) → Option FatDirectoryEntry → Prop
  /-- There is no such entry. -/
  | missing {es : List FatDirectoryEntry} {name : List UInt8} {names : List (List UInt8)} :
      firstMatch es name = .notFound → Resolves disk b es (name :: names) none
  /-- The entry is no directory, but the path goes on. -/
  | blocked {es : List FatDirectoryEntry} {e : FatDirectoryEntry} {name next : List UInt8}
      {names : List (List UInt8)} : firstMatch es name = .found e → e.isDirectory = false →
      Resolves disk b es (name :: next :: names) none
  /-- The entry has no data cluster, as an empty file. -/
  | empty {es : List FatDirectoryEntry} {e : FatDirectoryEntry} {name : List UInt8} :
      firstMatch es name = .found e → (e.firstCluster < 2 ∨ e.firstCluster ≥ 0xFF8) →
      Resolves disk b es [name] none
  /-- The entry is found. -/
  | found {es : List FatDirectoryEntry} {e : FatDirectoryEntry} {name : List UInt8} :
      firstMatch es name = .found e → ¬ (e.firstCluster < 2 ∨ e.firstCluster ≥ 0xFF8) →
      Resolves disk b es [name] (some e)
  /-- The entry is a directory on a sound chain, and the path goes on in it. -/
  | enter {es : List FatDirectoryEntry} {e : FatDirectoryEntry} {name next : List UInt8}
      {names : List (List UInt8)} {r : Option FatDirectoryEntry}
      {C : ClusterChain (diskFat disk b)} : firstMatch es name = .found e →
      e.isDirectory = true → e.size = 0 → C.clusters.head? = some e.firstCluster →
      Resolves disk b C.entries (next :: names) r → Resolves disk b es (name :: next :: names) r

/-- A name that can stand in a path: it is not empty, has no slash, and fits its buffer. -/
structure PathName (name : List UInt8) : Prop where
  /-- It has a letter. -/
  ne_nil : name ≠ []
  /-- None of them is a slash. -/
  no_slash : 47 ∉ name
  /-- They fit. -/
  fits : name.length < maxPathSize

/-- The path of the names, with slashes between them. -/
def joined : List (List UInt8) → List UInt8
  | [] => []
  | [name] => name
  | name :: next :: names => name ++ 47 :: joined (next :: names)

theorem joined_ne_nil {name : List UInt8} (h : PathName name) (names : List (List UInt8)) :
    joined (name :: names) ≠ [] := by
  cases names with
  | nil => exact h.ne_nil
  | cons next names => exact fun hnil ↦ h.ne_nil (List.append_eq_nil_iff.1 hnil).1

theorem nextName_last {name : List UInt8} (h : PathName name) :
    nextName (joined [name]) = (name, [], true) := by
  rw [joined, nextName, strchr_eq_none h.no_slash]

theorem nextName_joined {name : List UInt8} (h : PathName name) (next : List UInt8)
    (names : List (List UInt8)) :
    nextName (joined (name :: next :: names)) = (name, joined (next :: names), false) := by
  have hdrop : (name ++ 47 :: joined (next :: names)).drop (name.length + 1) =
      joined (next :: names) := by
    rw [List.drop_append, List.drop_of_length_le (Nat.le_succ _), Nat.add_sub_cancel_left]
    rfl
  rw [joined, nextName, strchr_append h.no_slash]
  dsimp only
  rw [List.take_left, hdrop]

/-- The first name of a path. -/
theorem nextName_first {name : List UInt8} (h : PathName name) (names : List (List UInt8)) :
    (nextName (joined (name :: names))).1 = name := by
  cases names with
  | nil => rw [nextName_last h]
  | cons next names => rw [nextName_joined h]

/-- A path does not begin with a slash. -/
theorem head_joined {name : List UInt8} (h : PathName name) (names : List (List UInt8)) {c : UInt8}
    (hc : (joined (name :: names)).head? = some c) : c ∈ name := by
  obtain ⟨d, name, rfl⟩ := List.exists_cons_of_ne_nil h.ne_nil
  have hd : (joined ((d :: name) :: names)).head? = some d := by cases names <;> rfl
  rw [← Option.some.inj (hd.symm.trans hc)]
  exact List.mem_cons_self

theorem Resolves.ne_nil {disk : BlockDevice} {b : FatBootSector} {es : List FatDirectoryEntry}
    {names : List (List UInt8)} {r : Option FatDirectoryEntry} (h : Resolves disk b es names r) :
    names ≠ [] := by
  cases h <;> exact List.cons_ne_nil _ _

/-! ### Directories that can be scanned -/

namespace Fat12FileSystem

variable {disk : BlockDevice} {b : FatBootSector} {fs fs' : Fat12FileSystem} {ref : FileRef}
  {es : List FatDirectoryEntry}

/-- The record of a directory with the given entries stands at its beginning. -/
structure Ready (disk : BlockDevice) (b : FatBootSector) (es : List FatDirectoryEntry)
    (ref : FileRef) (fs : Fat12FileSystem) : Prop where
  /-- The driver serves the volume. -/
  serves : Serves disk b fs
  /-- The root record keeps its handle. -/
  root : fs.target .root = .root
  /-- The record is under its own handle. -/
  target : fs.target ref = ref
  /-- It is a slot, or there is a free one. -/
  free : ∃ i < maxFileHandles,
    ref = .slot i ∨ ref = .root ∧ (fs.fileData (.slot i)).opened = false
  /-- A scan finds the first match among the entries. -/
  scan : ∀ name m, es.length < m → FaithfulSince (diskFat disk b) fs (fs.findFile m ref name).2 →
    (fs.findFile m ref name).1 = firstMatch es name

/-- The root directory after mounting, if it is in reach. -/
theorem Mounted.ready (hd : disk.AllReadsSucceed) (h : Mounted disk fs)
    (h512 : fs.bs.bytesPerSector = 512) (hreach : RootInReach fs.bs) :
    Ready disk fs.bs (rootEntries disk fs.bs) .root fs where
  serves := h.serves hd
  root := (SessionBase.mount h).root
  target := (SessionBase.mount h).root
  free := ⟨0, by decide, Or.inr ⟨rfl, h.closed 0 (by decide)⟩⟩
  scan := by
    intro name m hm _
    rw [length_rootEntries] at hm
    exact (h.rootReadable hd h512 hreach).find name m hm

theorem length_visited_le (name : List UInt8) (es : List FatDirectoryEntry) :
    (visited name es).length ≤ es.length := by
  rw [visited]
  exact (List.length_take_le' _ _).trans (List.takeWhile_sublist _).length_le

/-- A subdirectory that has just been opened. -/
theorem ready_openEntry (ha : detectAccepts b = true) (hs : Serves disk b fs)
    (hroot : fs.target .root = .root) {C : ClusterChain (diskFat disk b)} {e : FatDirectoryEntry}
    (hdir : e.isDirectory = true) (hsize : e.size = 0)
    (hC : C.clusters.head? = some e.firstCluster) (h : fs.openEntry e = (some ref, fs')) :
    Ready disk b C.entries ref fs' := by
  have hframe := frame_openEntry fs e
  rw [h] at hframe
  obtain ⟨i, hi, rfl, htarget, -⟩ := openEntry_of_some h
  refine
    { serves := hs.of_frame hframe
      root := target_of_frame hroot hframe ?_
      target := htarget
      free := ⟨i, (freeHandle_spec hi).1, Or.inl rfl⟩
      scan := fun name m hm hfaith ↦ ?_ }
  · rintro ⟨j, -, hj⟩
    exact absurd hj (by simp)
  · have hn := Nat.lt_of_le_of_lt (length_visited_le name C.entries) hm
    have hfresh : Fresh C (.slot i) fs' := fresh_openEntry ha hs hdir hsize hC h
    have hvisits := hfresh.visits ha m (hfresh.toScannable.scanning hfresh.size) (fun k hk ↦ by
      obtain rfl : k = 0 := Nat.le_zero.1 hk
      exact hfresh.onChain) hn hfaith
    exact congrArg Prod.fst hvisits.result

variable {fs₁ : Fat12FileSystem} {e : FatDirectoryEntry}

/-- When the directory is closed again, there is a free slot. -/
theorem Ready.freeHandle_close (h : Ready disk b es ref fs) (hf : Frame {ref} fs fs₁)
    (htarget : fs₁.target ref = ref) : (fs₁.close ref).freeHandle ≠ none := by
  obtain ⟨i, hi, hfree⟩ := h.free
  have hclosed : ((fs₁.close ref).fileData (.slot i)).opened = false := by
    rcases hfree with rfl | ⟨rfl, hfree⟩
    · rw [close, htarget]
      exact congrArg FatFileData.opened fileData_setFileData_self
    · have hkept : FileRef.slot i ∉ ({.root} : Set FileRef) := by simp
      rw [(frame_close fs₁ htarget).fileData _ hkept, hf.fileData _ hkept]
      exact hfree
  intro hnone
  have hopen := List.find?_eq_none.1 hnone i (List.mem_range.2 hi)
  rw [Bool.not_eq_true, Bool.not_eq_false'] at hopen
  exact absurd (hclosed.symm.trans hopen) (by simp)

/-- `OpenEntry` on a faultless device with a free slot. -/
theorem openEntry_iff (hs : Serves disk b fs) (hfree : fs.freeHandle ≠ none) :
    (e.firstCluster < 2 ∨ e.firstCluster ≥ 0xFF8 → (fs.openEntry e).1 = none) ∧
      (¬ (e.firstCluster < 2 ∨ e.firstCluster ≥ 0xFF8) →
        ∃ i, (fs.openEntry e).1 = some (.slot i)) := by
  have h := fs.opensEntry e
  generalize fs.openEntry e = result at h ⊢
  cases h with
  | full hnone => exact absurd hnone hfree
  | refused _ hbad => exact ⟨fun _ ↦ rfl, fun hgood ↦ absurd hbad hgood⟩
  | failed _ _ hfails => exact absurd hs.reads.answers hfails
  | opened _ hgood => exact ⟨fun hbad ↦ absurd hbad hgood, fun _ ↦ ⟨_, rfl⟩⟩

/-- What `open` is to return. -/
def Answered : Option FatDirectoryEntry → Opened → Prop
  | none, opened => opened = .null
  | some e, opened => ∃ i, opened = .file (.slot i) (some e)

/-- The first cluster of a chain is a data cluster. -/
theorem not_refused_of_chain {C : ClusterChain (diskFat disk b)}
    (hC : C.clusters.head? = some e.firstCluster) :
    ¬ (e.firstCluster < 2 ∨ e.firstCluster ≥ 0xFF8) := by
  obtain ⟨hlow, hhigh⟩ := C.inRange _ (List.mem_of_head? hC)
  rw [UInt32.lt_iff_toNat_lt, ge_iff_le, UInt32.le_iff_toNat_le, not_or, not_lt, not_le]
  exact ⟨hlow, Nat.lt_of_le_of_lt hhigh (by decide)⟩

/-- There is a turn for it. -/
theorem exists_succ_of_length {name : List UInt8} (h : PathName name) {names : List (List UInt8)}
    {n : ℕ} (hn : (joined (name :: names)).length ≤ n) : ∃ m, n = m + 1 :=
  Nat.exists_eq_succ_of_ne_zero fun hzero ↦
    joined_ne_nil h names (List.eq_nil_of_length_eq_zero (Nat.le_zero.1 (hzero ▸ hn)))

/-- **One turn of `open`**: the scan has the answer of the tree, and leaves a directory that can be
closed. -/
theorem Ready.turn (h : Ready disk b es ref fs) {name : List UInt8} (hname : PathName name)
    {names : List (List UInt8)} {fuel n : ℕ} {entry : Option FatDirectoryEntry}
    (hfuel : es.length < fuel)
    (hfaith : FaithfulSince (diskFat disk b) fs
      (openLoop fuel (n + 1) (some ref) entry (joined (name :: names)) fs).2) :
    ∃ fs₁, Serves disk b (fs₁.close ref) ∧ (fs₁.close ref).target .root = .root ∧
      (fs₁.close ref).freeHandle ≠ none ∧ fs.trace <:+ fs₁.trace ∧
      openLoop fuel (n + 1) (some ref) entry (joined (name :: names)) fs =
        afterScan fuel n ref (nextName (joined (name :: names))).2.2
          (nextName (joined (name :: names))).2.1 (firstMatch es name, fs₁) := by
  have hfirst := nextName_first hname names
  obtain ⟨c, path, hpath⟩ := List.exists_cons_of_ne_nil (joined_ne_nil hname names)
  rw [hpath] at hfaith hfirst ⊢
  have hloop : openLoop fuel (n + 1) (some ref) entry (c :: path) fs =
      afterScan fuel n ref (nextName (c :: path)).2.2 (nextName (c :: path)).2.1
        (fs.findFile fuel ref name) :=
    openLoop_of_findFile (hfirst ▸ hname.fits) (by rw [hfirst])
  obtain ⟨hframe, hsame⟩ := frame_findFileLoop ref name fuel h.target
  have htarget := target_of_sameFile h.target hsame
  have hroot : (fs.findFile fuel ref name).2.target .root = .root := by
    by_cases href : ref = .root
    · rw [← href]
      exact htarget
    · exact target_of_frame h.root hframe (Ne.symm href)
  have hscan := h.scan name fuel hfuel (hfaith.between (List.suffix_refl _) (by
    rw [hloop]
    exact trace_afterScan (trace_openLoop fuel n) ref _ _ _))
  have hclose := frame_close (fs.findFile fuel ref name).2 htarget
  refine ⟨(fs.findFile fuel ref name).2, (h.serves.of_frame hframe).of_frame hclose, ?_,
    h.freeHandle_close hframe htarget, hframe.trace, ?_⟩
  · rcases eq_or_ne ref .root with href | href
    · obtain rfl := href
      exact (congrArg FileRef.ofHandle (handle_close _ htarget)).trans htarget
    · exact target_of_frame hroot hclose (Ne.symm href)
  · rw [hloop, ← hscan]

/-- **`open` follows the tree.** From a directory that can be scanned, with enough fuel and with FAT
lookups that are right, it returns what the path resolves to. -/
theorem openLoop_resolves (ha : detectAccepts b = true) {names : List (List UInt8)}
    {r : Option FatDirectoryEntry} (hres : Resolves disk b es names r)
    (hnames : ∀ name ∈ names, PathName name) :
    ∃ least, ∀ fuel ≥ least, ∀ (ref : FileRef) (fs : Fat12FileSystem)
      (entry : Option FatDirectoryEntry) (n : ℕ), Ready disk b es ref fs →
      (joined names).length ≤ n →
      FaithfulSince (diskFat disk b) fs (openLoop fuel n (some ref) entry (joined names) fs).2 →
      Answered r (openLoop fuel n (some ref) entry (joined names) fs).1 := by
  induction hres with
  | @missing es name names hmiss =>
    refine ⟨es.length + 1, fun fuel hfuel ref fs entry n h hn hfaith ↦ ?_⟩
    have hname := hnames name List.mem_cons_self
    obtain ⟨n, rfl⟩ := exists_succ_of_length hname hn
    obtain ⟨fs₁, -, -, -, -, hloop⟩ := h.turn hname hfuel hfaith
    rw [hloop, hmiss]
    rfl
  | @blocked es e name next names hfound hdir =>
    refine ⟨es.length + 1, fun fuel hfuel ref fs entry n h hn hfaith ↦ ?_⟩
    have hname := hnames name List.mem_cons_self
    obtain ⟨n, rfl⟩ := exists_succ_of_length hname hn
    obtain ⟨fs₁, -, -, -, -, hloop⟩ := h.turn hname hfuel hfaith
    rw [hloop, hfound, nextName_joined hname, afterScan, if_pos (by rw [hdir]; rfl)]
    rfl
  | @empty es e name hfound hbad =>
    refine ⟨es.length + 1, fun fuel hfuel ref fs entry n h hn hfaith ↦ ?_⟩
    have hname := hnames name List.mem_cons_self
    obtain ⟨n, rfl⟩ := exists_succ_of_length hname hn
    obtain ⟨fs₁, hs, -, hfree, -, hloop⟩ := h.turn hname hfuel hfaith
    rw [hloop, hfound, nextName_last hname, afterScan, if_neg (by simp),
      (openEntry_iff hs hfree).1 hbad]
    cases n <;> rfl
  | @found es e name hfound hgood =>
    refine ⟨es.length + 1, fun fuel hfuel ref fs entry n h hn hfaith ↦ ?_⟩
    have hname := hnames name List.mem_cons_self
    obtain ⟨n, rfl⟩ := exists_succ_of_length hname hn
    obtain ⟨fs₁, hs, -, hfree, -, hloop⟩ := h.turn hname hfuel hfaith
    obtain ⟨i, hi⟩ := (openEntry_iff hs hfree).2 hgood
    rw [hloop, hfound, nextName_last hname, afterScan, if_neg (by simp), hi]
    exact ⟨i, by cases n <;> rfl⟩
  | @enter es e name next names r C hfound hdir hsize hC hrest ih =>
    obtain ⟨least, ih⟩ := ih fun name' hmem ↦ hnames name' (List.mem_cons_of_mem _ hmem)
    refine ⟨max least (es.length + 1), fun fuel hfuel ref fs entry n h hn hfaith ↦ ?_⟩
    have hname := hnames name List.mem_cons_self
    obtain ⟨n, rfl⟩ := exists_succ_of_length hname hn
    obtain ⟨fs₁, hs, hroot, hfree, htrace, hloop⟩ :=
      h.turn hname ((Nat.le_max_right _ _).trans hfuel) hfaith
    have hgood := not_refused_of_chain hC
    obtain ⟨i, hi⟩ := (openEntry_iff hs hfree).2 hgood
    have hready := ready_openEntry ha hs hroot hdir hsize hC (Prod.ext hi rfl)
    rw [hloop, hfound, nextName_joined hname, afterScan, if_neg (by rw [hdir]; simp),
      hi] at hfaith ⊢
    refine ih fuel ((Nat.le_max_left _ _).trans hfuel) _ _ _ n hready ?_ (hfaith.between ?_ ?_)
    · rw [joined, List.length_append, List.length_cons] at hn
      omega
    · refine htrace.trans ?_
      rw [← trace_close fs₁ ref]
      exact (frame_openEntry _ e).trace
    · exact List.suffix_refl _

/-- A slash at the beginning of a path makes no difference. -/
theorem openPath_joined {name : List UInt8} (hname : PathName name) {names : List (List UInt8)}
    {path : List UInt8}
    (hpath : path = joined (name :: names) ∨ path = 47 :: joined (name :: names)) (fuel : ℕ) :
    fs.openPath fuel path = openLoop fuel (joined (name :: names)).length (some .root) none
      (joined (name :: names)) fs := by
  rcases hpath with rfl | rfl
  · have hhead : (joined (name :: names)).head? ≠ some 47 := fun hhead ↦
      hname.no_slash (head_joined hname names hhead)
    rw [openPath, if_neg hhead]
  · rfl

end Fat12FileSystem

/-! ### A file in a subdirectory -/

/-- A floppy disk with a root directory of one sector. It holds the directory `D` on the clusters 2
and 3; the first one is full of entries named `AAAAAAAA.AAA`, and in the second one is the file `B`,
of five bytes on the cluster 4. -/
def treeFloppy : BlockDevice where
  sector lba j :=
    if lba = 0 then smallRootBoot.bytes j
    else if lba = 1 then [0xF0, 0xFF, 0xFF, 0x03, 0xF0, 0xFF, 0xFF, 0x0F].getD j 0
    else if lba = 19 then cyclicFloppy.sector 19 j
    else if lba = 21 then
      [0x42, 32, 32, 32, 32, 32, 32, 32, 32, 32, 32, 0x20, 0, 0, 0, 0, 0, 0, 0, 0, 0, 0, 0, 0, 0, 0,
        4, 0, 5, 0, 0, 0].getD j 0
    else 0x41
  outcome _ := none
  calls := 0

/-- The driver after mounting that disk. -/
def treeFs : Fat12FileSystem := (detectAndMount treeFloppy blankData).get (by decide)

/-- The chain of `D`. -/
def treeChain : ClusterChain (diskFat treeFloppy treeFs.bs) :=
  .pair inRange_two_three (by decide) (by decide)

/-- The chain of `B`. -/
def treeFileChain : ClusterChain (diskFat treeFloppy treeFs.bs) where
  clusters := [4]
  inRange := List.all_iff_forall_prop.1 (by decide)
  linked i h := absurd h (by simp)
  ends c h := by
    obtain rfl : 4 = c := by simpa using h
    decide

/-- The entry of `B`. -/
def treeEntry : FatDirectoryEntry := treeChain.entry 16

/-- `d/b`. -/
def treeNames : List (List UInt8) := [[0x64], [0x62]]

theorem resolves_treeNames :
    Resolves treeFloppy treeFs.bs (rootEntries treeFloppy treeFs.bs) treeNames (some treeEntry) :=
  .enter (C := treeChain) (e := rootEntry treeFloppy treeFs.bs 0) (by decide +kernel)
    (by decide) (by decide) (by decide) (.found (by decide +kernel) (by decide))

end Aidos.Fat12
