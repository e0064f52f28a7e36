import Aidos.Paging.MixedPages
import Aidos.Loader.Bounds
import Aidos.Loader.Loading

/-!
# Loaded images

`readElf` loads every segment of an image whose headers and segments are in the file and which is
laid out in whole pages (`RoughImage`), under three bounds: the products `i * e_phentsize` fit an
`int`, the virtual ranges are canonical, and the physical ranges are ranges of physical addresses
(`readElf_inPlace`). Without any of the three it need not (`not_inPlace_unbounded`).
-/

namespace Aidos.Loader

open ByteMemory Paging

variable {σ : Type} {B : Boot} {S : Source σ} {file : List UInt8} {data : UInt64} {m : Machine}

/-- An image whose headers and segments are in the file and which is laid out in whole pages, clear
of low memory. -/
structure RoughImage (file : List UInt8) (data : UInt64) : Prop where
  /-- The magic number. -/
  magic : (fileHeader file).ident = elfMagic
  /-- The ELF header is in the file. -/
  header : 64 ≤ file.length
  /-- So are the program headers. -/
  programs : ∀ i < fileCount file, fileOffset file i + 56 ≤ file.length
  /-- The virtual ranges start at page boundaries. -/
  virt_aligned : ∀ i, IsSegment file i → (filePhdr file i).vaddr.toNat % 4096 = 0
  /-- So do the physical ones. -/
  phys_aligned : ∀ i, IsSegment file i → (data + (filePhdr file i).paddr).toNat % 4096 = 0
  /-- The part in the file is not longer than the one in memory. -/
  filesz_le : ∀ i, IsSegment file i → (filePhdr file i).filesz.toNat ≤ (filePhdr file i).memsz.toNat
  /-- The part in the file is in the file. -/
  inFile : ∀ i, IsSegment file i →
    (filePhdr file i).offset.toNat + (filePhdr file i).filesz.toNat ≤ file.length
  /-- No two segments share a virtual page. -/
  virt_disjoint : ∀ i j, IsSegment file i → IsSegment file j → i ≠ j →
    Disjoint (pages (filePhdr file i).vaddr.toNat (filePhdr file i).memsz.toNat)
      (pages (filePhdr file j).vaddr.toNat (filePhdr file j).memsz.toNat)
  /-- No two segments share a physical page. -/
  phys_disjoint : ∀ i j, IsSegment file i → IsSegment file j → i ≠ j →
    Disjoint (pages (data + (filePhdr file i).paddr).toNat (filePhdr file i).memsz.toNat)
      (pages (data + (filePhdr file j).paddr).toNat (filePhdr file j).memsz.toNat)
  /-- The virtual ranges start at or above 2 MiB. -/
  virt_low : ∀ i, IsSegment file i → 0x200000 ≤ (filePhdr file i).vaddr.toNat
  /-- The physical ranges start at or above 1 MiB. -/
  phys_low : ∀ i, IsSegment file i → 0x100000 ≤ (data + (filePhdr file i).paddr).toNat

/-- The products that give the distances of the program headers fit an `int`. -/
def NearHeaders (file : List UInt8) : Prop :=
  ∀ i < fileCount file, i * (fileHeader file).phentsize.toNat < 2 ^ 31

/-- A virtual range that is not empty lies in one of the two halves of the address space. -/
def CanonicalRanges (file : List UInt8) : Prop :=
  ∀ i, IsSegment file i → (filePhdr file i).memsz ≠ 0 →
    (filePhdr file i).vaddr.toNat + (filePhdr file i).memsz.toNat ≤ 2 ^ 47 ∨
      (2 ^ 64 - 2 ^ 47 ≤ (filePhdr file i).vaddr.toNat ∧
        (filePhdr file i).vaddr.toNat + (filePhdr file i).memsz.toNat ≤ 2 ^ 64)

/-- The physical ranges are ranges of physical addresses. -/
def PhysicalRanges (file : List UInt8) (data : UInt64) : Prop :=
  ∀ i, IsSegment file i →
    data.toNat + (filePhdr file i).paddr.toNat + (filePhdr file i).memsz.toNat ≤ 2 ^ 52

/-- Under the three bounds an image can be loaded. -/
theorem RoughImage.loadable (h : RoughImage file data) (hnear : NearHeaders file)
    (hvirt : CanonicalRanges file)
    (hphys : PhysicalRanges file data) : LoadableImage file data := by
  have hsum : ∀ i, IsSegment file i →
      (data + (filePhdr file i).paddr).toNat = data.toNat + (filePhdr file i).paddr.toNat := by
    intro i hi
    have hend := hphys i hi
    rw [UInt64.toNat_add]
    omega
  refine ⟨⟨h.magic, h.header, h.programs, hnear⟩, fun i hi ↦ ?_, h.virt_disjoint,
    fun i j hi hj hne ↦ ?_⟩
  · exact ⟨h.virt_aligned i hi, hsum i hi ▸ h.phys_aligned i hi, h.filesz_le i hi, h.inFile i hi,
      h.virt_low i hi,
      hvirt i hi, hsum i hi ▸ h.phys_low i hi, hphys i hi⟩
  · rw [← hsum i hi, ← hsum j hj]
    exact h.phys_disjoint i j hi hj hne

/-- What `readElf` is to leave: every byte of every segment behind its virtual address, and the
result. -/
structure InPlace (file : List UInt8) (data : UInt64) (info : ElfInfo) (m : Machine) : Prop where
  /-- The segments. -/
  bytes : ∀ i, IsSegment file i → ∀ b < (filePhdr file i).memsz.toNat,
    ∃ p, m.translate ((filePhdr file i).vaddr + UInt64.ofNat b) = some p ∧
      m.mem p = loadedByte file (filePhdr file i) b
  /-- The entry point. -/
  entry : info.entry = (fileHeader file).entry
  /-- The physical base. -/
  base : IsBase file data info.physBase

/-- `setup_paging` prepares the tables for the loader. -/
theorem prepared_of_started (h : B.Started m) : Prepared B m where
  sound :=
    { heapOffset_le := h.heapOffset_le
      root := h.tight.root
      separated := h.separated
      linear := by
        intro v hv
        have hlow : v.toNat / 4096 < 256 := hv
        show m.translate v = some (v - 0).toNat
        rw [h.translate (by omega), UInt64.sub_zero]
      free_mem := fun p hp ↦ h.inUse_lt (Or.inr ⟨p, hp, rfl⟩)
      tables := by
        intro t ht
        rw [Boot.page_pointer_space (Machine.isTable_lt ht)]
        exact h.inUse_lt (Or.inl ht)
      clear := h.tight.clear
      fresh := h.tight.fresh }
  low := by
    intro w hw
    by_contra hfar
    rw [h.look, if_neg hfar] at hw
    exact hw rfl

/-- An image that can be loaded is in place afterwards. -/
theorem LoadableImage.wp_readElf (himage : LoadableImage file data) (hserves : Serves S.fs file)
    (h : B.Started m) :
    (readElf B S.fs S.rest data).wp LoadEvent.Allocates (fun info s' ↦ InPlace file data info s'.1)
      (m, S.start) := by
  refine Exec.wp_mono (Loader.wp_readElf hserves himage (prepared_of_started h)) ?_
  rintro _ s' ⟨rfl, hmapped, hfilled⟩
  obtain ⟨hentry, hbase⟩ := hserves.info_spec himage
  refine ⟨fun i hi b hb ↦ ?_, hentry, hbase⟩
  exact ⟨_, hmapped.placed i hi.1 hi b hb, hfilled i hi.1 hi b hb⟩

/-- **`readElf` loads every segment.** After `setup_paging`, whatever the drivers have allocated and
written to other memory since, if no allocation fails, `readElf` returns and leaves the image in
place. -/
theorem readElf_inPlace (hserves : Serves S.fs file) (himage : RoughImage file data)
    (hnear : NearHeaders file)
    (hvirt : CanonicalRanges file) (hphys : PhysicalRanges file data) (h : B.Started m) :
    (readElf B S.fs S.rest data).wp LoadEvent.Allocates (fun info s' ↦ InPlace file data info s'.1)
      (m, S.start) :=
  (himage.loadable hnear hvirt hphys).wp_readElf hserves h

/-! ### A small image -/

/-- The state after `setup_paging` of a small second stage. -/
theorem started_smallReady : Boot.small.Started Boot.smallReady := by
  obtain ⟨_, hrun⟩ := Boot.setupPaging_smallStart
  have hwp : Boot.small.setupPaging.wp (fun _ ↦ True) (fun _ m ↦ Boot.small.Started m)
      Boot.smallStart :=
    Boot.wp_setupPaging_started Boot.entered_smallStart
  exact Exec.of_wp_of_run hwp hrun fun _ _ ↦ trivial

/-- A file system with one file serves it. -/
theorem serves_ofBytes (hsize : file.length < 2 ^ 32) : Serves (FileSystem.ofBytes file) file where
  size := hsize
  slice := by
    intro s p n hp
    have hseek : (FileSystem.ofBytes file).seek p s = (true, p.toNat) := if_pos hp
    rw [hseek]
    exact ⟨rfl, rfl⟩

/-- Two bytes and zeros behind them, a header that is not loaded, and a page of zeros. -/
def twoSegments : List UInt8 :=
  image 0x200000 [⟨ptLoad, 232, 0x200000, 0, 2, 0x1800⟩, ⟨0, 0, 0, 0, 0, 0⟩,
    ⟨ptLoad, 234, 0xFFFFFFFF80000000, 0x200000, 0, 0x200000⟩] [7, 8]

/-- The conditions on an image, as a check of its headers. -/
def LaidOut (file : List UInt8) (data : UInt64) : Prop :=
  (fileHeader file).ident = elfMagic ∧ 64 ≤ file.length ∧
    ∀ i < fileCount file, fileOffset file i + 56 ≤ file.length ∧
      ((filePhdr file i).type = ptLoad → (filePhdr file i).vaddr.toNat % 4096 = 0 ∧
        (data + (filePhdr file i).paddr).toNat % 4096 = 0 ∧
        (filePhdr file i).filesz.toNat ≤ (filePhdr file i).memsz.toNat ∧
        (filePhdr file i).offset.toNat + (filePhdr file i).filesz.toNat ≤ file.length ∧
        0x200000 ≤ (filePhdr file i).vaddr.toNat ∧
          0x100000 ≤ (data + (filePhdr file i).paddr).toNat) ∧
      ∀ j < i,
        ((filePhdr file i).vaddr.toNat + span (filePhdr file i).memsz.toNat ≤
          (filePhdr file j).vaddr.toNat ∨
          (filePhdr file j).vaddr.toNat + span (filePhdr file j).memsz.toNat ≤
            (filePhdr file i).vaddr.toNat) ∧
        ((data + (filePhdr file i).paddr).toNat + span (filePhdr file i).memsz.toNat ≤
            (data + (filePhdr file j).paddr).toNat ∨
          (data + (filePhdr file j).paddr).toNat + span (filePhdr file j).memsz.toNat ≤
            (data + (filePhdr file i).paddr).toNat)

instance (file : List UInt8) (data : UInt64) : Decidable (LaidOut file data) :=
  inferInstanceAs (Decidable (_ ∧ _ ∧ ∀ i < fileCount file, _))

/-- Ranges of pages that do not reach one another are disjoint. -/
theorem disjoint_pages {a b s t : ℕ} (h : a + span s ≤ b ∨ b + span t ≤ a) :
    Disjoint (pages a s) (pages b t) := by
  refine Set.disjoint_left.2 fun x ⟨hx₁, hx₂⟩ ⟨hx₃, hx₄⟩ ↦ ?_
  omega

theorem LaidOut.rough (h : LaidOut file data) : RoughImage file data where
  magic := h.1
  header := h.2.1
  programs := fun i hi ↦ (h.2.2 i hi).1
  virt_aligned := fun i hi ↦ ((h.2.2 i hi.1).2.1 hi.2).1
  phys_aligned := fun i hi ↦ ((h.2.2 i hi.1).2.1 hi.2).2.1
  filesz_le := fun i hi ↦ ((h.2.2 i hi.1).2.1 hi.2).2.2.1
  inFile := fun i hi ↦ ((h.2.2 i hi.1).2.1 hi.2).2.2.2.1
  virt_disjoint := by
    intro i j hi hj hne
    rcases Nat.lt_or_gt_of_ne hne with hlt | hlt
    · exact (disjoint_pages ((h.2.2 j hj.1).2.2 i hlt).1).symm
    · exact disjoint_pages ((h.2.2 i hi.1).2.2 j hlt).1
  phys_disjoint := by
    intro i j hi hj hne
    rcases Nat.lt_or_gt_of_ne hne with hlt | hlt
    · exact (disjoint_pages ((h.2.2 j hj.1).2.2 i hlt).2).symm
    · exact disjoint_pages ((h.2.2 i hi.1).2.2 j hlt).2
  virt_low := fun i hi ↦ ((h.2.2 i hi.1).2.1 hi.2).2.2.2.2.1
  phys_low := fun i hi ↦ ((h.2.2 i hi.1).2.1 hi.2).2.2.2.2.2

instance (file : List UInt8) : Decidable (NearHeaders file) :=
  inferInstanceAs (Decidable (∀ i < fileCount file, _))

instance (file : List UInt8) : Decidable (CanonicalRanges file) :=
  decidable_of_iff (∀ i < fileCount file, (filePhdr file i).type = ptLoad →
    (filePhdr file i).memsz ≠ 0 →
    (filePhdr file i).vaddr.toNat + (filePhdr file i).memsz.toNat ≤ 2 ^ 47 ∨
      (2 ^ 64 - 2 ^ 47 ≤ (filePhdr file i).vaddr.toNat ∧
        (filePhdr file i).vaddr.toNat + (filePhdr file i).memsz.toNat ≤ 2 ^ 64))
    ⟨fun h i hi ↦ h i hi.1 hi.2, fun h i hi htype ↦ h i ⟨hi, htype⟩⟩

instance (file : List UInt8) (data : UInt64) : Decidable (PhysicalRanges file data) :=
  decidable_of_iff (∀ i < fileCount file, (filePhdr file i).type = ptLoad →
    data.toNat + (filePhdr file i).paddr.toNat + (filePhdr file i).memsz.toNat ≤ 2 ^ 52)
    ⟨fun h i hi ↦ h i hi.1 hi.2, fun h i hi htype ↦ h i ⟨hi, htype⟩⟩

instance (file : List UInt8) (i : ℕ) : Decidable (IsSegment file i) :=
  inferInstanceAs (Decidable (_ ∧ _))

/-- It is loaded: the heap has room for the page tables. -/
theorem readElf_inPlace_twoSegments : ∃ info s' es,
    (readElf Boot.small (Source.ofBytes twoSegments).fs
      (Source.ofBytes twoSegments).rest 0x400000).run
      (Boot.smallReady, (Source.ofBytes twoSegments).start) = ⟨some info, s', es⟩ ∧
      InPlace twoSegments 0x400000 info s'.1 := by
  obtain ⟨hlength, hlaid, hnear, hvirt, hphys, hroom⟩ : twoSegments.length < 2 ^ 32 ∧
      LaidOut twoSegments 0x400000 ∧ NearHeaders twoSegments ∧ CanonicalRanges twoSegments ∧
      PhysicalRanges twoSegments 0x400000 ∧
      Boot.small.Room
        ((Source.ofBytes twoSegments).tables 0x400000 (Source.ofBytes twoSegments).count)
        Boot.smallReady := by decide +kernel
  have hserves : Serves (Source.ofBytes twoSegments).fs twoSegments := serves_ofBytes hlength
  have hevents := (Source.readElf_room _ _ _ hroom).1
  obtain ⟨info, hvalue, hplace⟩ :=
    readElf_inPlace hserves hlaid.rough hnear hvirt hphys started_smallReady hevents
  exact ⟨info, _, _, Exec.run_eq_of_value hvalue, hplace⟩

/-! ### Images beyond the bounds -/

/-- The image is not loaded on a small second stage. -/
def Fails (file : List UInt8) (data : UInt64) : Prop :=
  ¬ (readElf Boot.small (Source.ofBytes file).fs (Source.ofBytes file).rest data).wp
    LoadEvent.Allocates
    (fun info s' ↦ InPlace file data info s'.1) (Boot.smallReady, (Source.ofBytes file).start)

/-- One byte at the first address that is not canonical. -/
def noncanonical : List UInt8 := image 0 [⟨ptLoad, 120, 0x800000000000, 0, 0, 1⟩] []

theorem fails_noncanonical : Fails noncanonical 0x400000 := by
  intro h
  obtain ⟨hroom, hseg, hsize, hnot⟩ : Boot.small.Room ((Source.ofBytes noncanonical).tables 0x400000
        (Source.ofBytes noncanonical).count) Boot.smallReady ∧ IsSegment noncanonical 0 ∧
      0 < (filePhdr noncanonical 0).memsz.toNat ∧
      ¬ Canonical ((filePhdr noncanonical 0).vaddr + UInt64.ofNat 0) := by decide +kernel
  obtain ⟨info, -, hplace⟩ := h (Source.readElf_room _ _ _ hroom).1
  obtain ⟨p, htr, -⟩ := hplace.bytes 0 hseg 0 hsize
  exact hnot (Machine.canonical_of_translate htr)

/-- A table of empty program headers that is longer than `2 ^ 31` bytes. -/
def farHeaders : List UInt8 :=
  Ehdr.encode ⟨elfMagic, 0, 64, 65535, 32770⟩ ++ List.replicate (2 ^ 31 + 40000) 0

theorem length_farHeaders : farHeaders.length = 2 ^ 31 + 40064 := by
  have hlength : (Ehdr.encode ⟨elfMagic, 0, 64, 65535, 32770⟩).length = 64 := by decide
  rw [farHeaders, List.length_append, List.length_replicate, hlength]
  omega

theorem getD_farHeaders (k : ℕ) : farHeaders.getD k 0 =
    if k < 64 then (Ehdr.encode ⟨elfMagic, 0, 64, 65535, 32770⟩).getD k 0 else 0 := by
  have hlength : (Ehdr.encode ⟨elfMagic, 0, 64, 65535, 32770⟩).length = 64 := by decide
  rw [farHeaders, List.getD_eq_getElem?_getD]
  split
  · next hk =>
    rw [List.getElem?_append_left (by rw [hlength]; exact hk), List.getD_eq_getElem?_getD]
  · next hk =>
    rw [List.getElem?_append_right (by rw [hlength]; exact Nat.not_lt.1 hk),
      List.getElem?_replicate]
    split <;> rfl

theorem fileHeader_farHeaders : fileHeader farHeaders = ⟨elfMagic, 0, 64, 65535, 32770⟩ := by
  have hfront : fileHeader farHeaders =
      Ehdr.decode fun k ↦ (Ehdr.encode ⟨elfMagic, 0, 64, 65535, 32770⟩).getD k 0 :=
    Ehdr.decode_congr fun k hk ↦ (getD_farHeaders k).trans (if_pos hk)
  rw [hfront]
  rfl

theorem not_isSegment_farHeaders (i : ℕ) : ¬ IsSegment farHeaders i := by
  rintro ⟨-, htype⟩
  have hzero : filePhdr farHeaders i = Phdr.decode fun _ ↦ 0 := by
    refine Phdr.decode_congr fun k _ ↦ (getD_farHeaders _).trans (if_neg ?_)
    rw [fileOffset, fileHeader_farHeaders]
    show ¬ 64 + i * 65535 + k < 64
    omega
  rw [hzero] at htype
  exact absurd htype (by decide)

theorem rough_farHeaders : RoughImage farHeaders 0x400000 where
  magic := by rw [fileHeader_farHeaders]
  header := by
    rw [length_farHeaders]
    omega
  programs := by
    intro i hi
    rw [fileCount, fileHeader_farHeaders] at hi
    rw [length_farHeaders, fileOffset, fileHeader_farHeaders]
    have hi' : i < 32770 := hi
    show 64 + i * 65535 + 56 ≤ 2 ^ 31 + 40064
    omega
  virt_aligned := fun i hi ↦ absurd hi (not_isSegment_farHeaders i)
  phys_aligned := fun i hi ↦ absurd hi (not_isSegment_farHeaders i)
  filesz_le := fun i hi ↦ absurd hi (not_isSegment_farHeaders i)
  inFile := fun i hi ↦ absurd hi (not_isSegment_farHeaders i)
  virt_disjoint := fun i _ hi _ _ ↦ absurd hi (not_isSegment_farHeaders i)
  phys_disjoint := fun i _ hi _ _ ↦ absurd hi (not_isSegment_farHeaders i)
  virt_low := fun i hi ↦ absurd hi (not_isSegment_farHeaders i)
  phys_low := fun i hi ↦ absurd hi (not_isSegment_farHeaders i)

/-- Without segments no page table is needed. -/
theorem tables_eq_zero {S : Source σ} {n : ℕ} (h : ∀ i < n, ¬ S.IsLoad i) :
    S.tables data n = 0 := by
  induction n with
  | zero => rfl
  | succ n ih =>
    rw [Source.tables, ih fun i hi ↦ h i (Nat.lt_succ_of_lt hi), if_neg (h n (Nat.lt_succ_self n))]

theorem serves_farHeaders : Serves (Source.ofBytes farHeaders).fs farHeaders := by
  refine serves_ofBytes ?_
  rw [length_farHeaders]
  omega

theorem elfHeader_farHeaders :
    (Source.ofBytes farHeaders).elfHeader = ⟨elfMagic, 0, 64, 65535, 32770⟩ := by
  refine Eq.trans (Ehdr.decode_congr fun k hk ↦ ?_) fileHeader_farHeaders
  have hin : (0 : UInt64).toNat + ehdrSize.toNat ≤ farHeaders.length := rough_farHeaders.header
  have hbyte := serves_farHeaders.overwrite_eq hin (Source.ofBytes farHeaders).start
    (Source.ofBytes farHeaders).rest.header hk
  rw [UInt64.toNat_zero, Nat.zero_add] at hbyte
  exact hbyte

theorem not_isLoad_farHeaders {i : ℕ} (hi : i < 32770) :
    ¬ (Source.ofBytes farHeaders).IsLoad i := by
  intro hload
  have hposition : ((Source.ofBytes farHeaders).position i).toNat = 64 + i * 65535 := by
    have hnum : (UInt64.ofNat (i * 65535)).toNat = i * 65535 :=
      UInt64.toNat_ofNat_of_lt'
        (Nat.lt_of_lt_of_le (Nat.mul_lt_mul_of_pos_right hi (by decide)) (by decide))
    rw [Source.position, Source.distance, elfHeader_farHeaders]
    show ((64 : UInt64) + UInt64.ofNat (i * 65535)).toNat = 64 + i * 65535
    rw [UInt64.toNat_add, hnum]
    show (64 + i * 65535) % 2 ^ 64 = 64 + i * 65535
    omega
  have hin : ((Source.ofBytes farHeaders).position i).toNat + phdrSize.toNat ≤
      farHeaders.length := by
    rw [hposition, length_farHeaders]
    show 64 + i * 65535 + 56 ≤ 2 ^ 31 + 40064
    omega
  have hzero : (Source.ofBytes farHeaders).phdr i = Phdr.decode fun _ ↦ 0 := by
    refine Phdr.decode_congr fun k hk ↦ ?_
    have hbyte := serves_farHeaders.overwrite_eq hin ((Source.ofBytes farHeaders).stateAt i)
      ((Source.ofBytes farHeaders).rest.program i) hk
    refine hbyte.trans ((getD_farHeaders _).trans (if_neg ?_))
    omega
  rw [Source.IsLoad, hzero] at hload
  exact absurd hload (by decide)

theorem fails_farHeaders : Fails farHeaders 0x400000 := by
  intro h
  have hcount : (Source.ofBytes farHeaders).count = 32770 := by
    rw [Source.count, elfHeader_farHeaders]
    rfl
  have hroom : Boot.small.Room
      ((Source.ofBytes farHeaders).tables 0x400000 (Source.ofBytes farHeaders).count)
      Boot.smallReady := by
    rw [tables_eq_zero fun i hi ↦ not_isLoad_farHeaders (hcount ▸ hi)]
    decide
  obtain ⟨info, hvalue, -⟩ := h (Source.readElf_room _ _ _ hroom).1
  -- a run that returns has computed the product of every turn
  have hdone :=
    ((Source.ofBytes farHeaders).readElf_yields Boot.small 0x400000 Boot.smallReady).2 info hvalue
  have hmagic : (Source.ofBytes farHeaders).Magic := by
    rw [Source.Magic, elfHeader_farHeaders]
  have hsmall := ((hdone.turns hmagic).2 32769 (by rw [hcount]; decide)).1
  rw [Source.distance, elfHeader_farHeaders] at hsmall
  exact absurd hsmall (by decide)

/-- Mapping one page that is not mapped yet, to any page-aligned address. -/
theorem wp_mapPage {R : Set ℕ} (h : (B.space R).Sound m) {virt phys : UInt64}
    (hfree : m.look virt = none)
    (hout : ∀ w : UInt64, w.toNat / 4096 ∈ R → pageOf virt ≠ pageOf w) :
    (B.perform ⟨.small, virt, phys, 1⟩).wp Event.Allocates (fun _ m' ↦ (B.space R).Sound m' ∧
      Space.Remapped 3 virt (presentRw phys) m m') m := by
  have hva : (BootCall.mk .small virt phys 1).va 0 = virt := by
    show virt + 0 * pageSize4k = virt
    rw [UInt64.zero_mul, UInt64.add_zero]
  have hpa : (BootCall.mk .small virt phys 1).pa 0 = phys := by
    show phys + 0 * pageSize4k = phys
    rw [UInt64.zero_mul, UInt64.add_zero]
  have hplace : (B.placePage .small virt phys).wp Event.Allocates (fun _ m' ↦ (B.space R).Sound m' ∧
      Space.Remapped 3 virt (presentRw phys) m m') m := by
    refine Boot.wp_placePage h (child_bottom _) (fun l hl ↦ ?_) fun w hw hpre ↦ ?_
    · rw [hfree] at hl
      exact absurd hl (by simp)
    · exact absurd (prefix_four_iff.1 hpre) (hout w hw)
  rw [Boot.perform_eq]
  refine Exec.wp_bind (Exec.wp_pure ?_)
  show (B.placePage .small ((BootCall.mk .small virt phys 1).va 0)
    ((BootCall.mk .small virt phys 1).pa 0)).wp Event.Allocates _ m
  rw [hva, hpa]
  exact hplace

/-- Two bytes for two pages, whose physical addresses differ in bit 52 only. -/
def aliased : List UInt8 :=
  image 0 [⟨ptLoad, 176, 0x200000, 0, 1, 1⟩, ⟨ptLoad, 177, 0x201000, 0x10000000000000, 1, 1⟩] [1, 2]

theorem laidOut_aliased : LaidOut aliased 0x400000 ∧ NearHeaders aliased ∧
    CanonicalRanges aliased := by
  decide +kernel

/-- The leaf of the first page. -/
def FirstPage (m : Machine) : Prop := m.look 0x200000 = some (3, presentRw 0x400000)

/-- The two turns: first the first page is mapped and nothing else, then the byte of the second page
is where the first page is. -/
def Aliased : ℕ → Machine → Prop
  | 0, m => Prepared Boot.small m
  | 1, m => (Boot.small.space lowPages).Sound m ∧ FirstPage m ∧
      ∀ w, m.look w ≠ none → pageOf w < 256 ∨ pageOf w = 512
  | _, m => FirstPage m ∧ m.mem 0x400000 = 2

/-- The first address of a mapped page. -/
theorem translate_of_leaf {v pa : UInt64} (hv : Canonical v) (hmod : v.toNat % 4096 = 0)
    (h : m.look v = some (3, presentRw pa)) : m.translate v = some (frameOf pa * 4096) := by
  rw [Machine.translate_of_look hv h, (physical_presentRw pa v).2, hmod, Nat.add_zero]

/-- Writing the one byte of a page. -/
theorem wp_storeByte (h : (Boot.small.space lowPages).Sound m) {v : UInt64}
    (htr : m.translate v = some 0x400000)
    {bytes : List UInt8} (hlength : bytes.length = 1) {P : Machine → Prop}
    (hP : P { m with mem := fillRun m.mem 0x400000 (fun b ↦ bytes.getD b 0) 1 }) :
    (storeRun v (fun b ↦ bytes.getD b 0) bytes.length).wp (fun _ ↦ True) (fun _ ↦ P) m := by
  rw [hlength]
  refine Paging.wp_storeRun (fun i hi ↦ ?_) (fun i hi ht ↦ ?_) hP
  · obtain rfl := Nat.lt_one_iff.1 hi
    exact (congrArg m.translate (UInt64.add_zero v)).trans htr
  · have hlt := table_lt h ht
    omega

theorem headers_aliased : HasHeaders aliased := by
  obtain ⟨hlaid, hnear, -⟩ := laidOut_aliased
  exact ⟨hlaid.rough.magic, hlaid.rough.header, hlaid.rough.programs, hnear⟩

theorem length_aliased : aliased.length = 178 := by decide +kernel

theorem serves_aliased : Serves (Source.ofBytes aliased).fs aliased := by
  refine serves_ofBytes ?_
  rw [length_aliased]
  omega

/-- The headers of the two segments and the calls for them. -/
theorem segments_aliased :
    filePhdr aliased 0 = ⟨ptLoad, 176, 0x200000, 0, 1, 1⟩ ∧
    filePhdr aliased 1 = ⟨ptLoad, 177, 0x201000, 0x10000000000000, 1, 1⟩ ∧
    (filePhdr aliased 0).call 0x400000 = ⟨.small, 0x200000, 0x400000, 1⟩ ∧
    (filePhdr aliased 1).call 0x400000 = ⟨.small, 0x201000, 0x10000000400000, 1⟩ := by
  have hphdrs : filePhdr aliased 0 = ⟨ptLoad, 176, 0x200000, 0, 1, 1⟩ ∧
      filePhdr aliased 1 = ⟨ptLoad, 177, 0x201000, 0x10000000000000, 1, 1⟩ := by decide +kernel
  rw [hphdrs.1, hphdrs.2]
  exact ⟨rfl, rfl, rfl, rfl⟩

/-- Loading the first page. -/
theorem wp_first_aliased (h : Aliased 0 m) (s : ℕ) :
    (loadSegment Boot.small (Source.ofBytes aliased).fs 0x400000 0 (filePhdr aliased 0)).wp
      LoadEvent.Allocates (fun _ s' ↦ Aliased 1 s'.1 ∧ s'.2 = ((Source.ofBytes aliased).fs.fetch
        (filePhdr aliased 0).offset (filePhdr aliased 0).filesz s).after) (m, s) := by
  obtain ⟨hphdr, -, hcall, -⟩ := segments_aliased
  have hparts :=
    @wp_loadSegment_of ℕ Boot.small 0x400000 m (Source.ofBytes aliased).fs (filePhdr aliased 0) 0 s
    (Aliased 1) (Aliased 1) (Aliased 1)
  have hin : (176 : UInt64).toNat + (1 : UInt64).toNat ≤ aliased.length := by
    rw [length_aliased]
    decide
  have hfetch := serves_aliased.fetch_eq hin s
  have hlength : ((Source.ofBytes aliased).fs.fetch 176 1 s).bytes.length = 1 := by
    rw [hfetch.2]
    decide +kernel
  rw [hcall, hphdr] at hparts
  rw [hphdr]
  have hfree : m.look 0x200000 = none := by
    by_contra hlook
    exact absurd (h.low _ hlook) (by decide)
  refine hparts (Exec.wp_mono (wp_mapPage h.sound hfree fun w hw heq ↦ ?_) ?_) ?_ ?_ fun _ _ h₂ ↦ h₂
  · have hpage : pageOf 0x200000 = 512 := by decide
    have hlow : w.toNat / 4096 < 256 := hw
    rw [hpage, pageOf] at heq
    omega
  · rintro _ m₁ ⟨hsound, hremap⟩
    have hleaf := (physical_presentRw 0x400000 0).1
    refine ⟨hsound, ?_, fun w hw ↦ ?_⟩
    · rw [FirstPage, hremap.look, if_pos (List.take_prefix _ _), if_pos hleaf]
    · rw [hremap.look] at hw
      split at hw
      · next hpre => exact Or.inr (prefix_four_iff.1 hpre).symm
      · exact Or.inl (h.low w hw)
  · rintro m₁ ⟨hsound, hfirst, honly⟩
    have htr := translate_of_leaf (Or.inl (by decide)) (by decide) hfirst
    have hkeep := @keepsTables_above Boot.small m₁ hsound 0x400000 1 (by decide)
      fun b ↦ ((Source.ofBytes aliased).fs.fetch 176 1 s).bytes.getD b 0
    refine wp_storeByte hsound htr hlength ⟨hsound.keeps hkeep rfl, ?_, fun w hw ↦ honly w ?_⟩
    · rw [FirstPage, hkeep.look]
      exact hfirst
    · rwa [hkeep.look] at hw
  · rintro m₂ h₂
    exact Exec.wp_pure h₂

/-- Loading the second page. -/
theorem wp_second_aliased (h : Aliased 1 m) (s : ℕ) :
    (loadSegment Boot.small (Source.ofBytes aliased).fs 0x400000 1 (filePhdr aliased 1)).wp
      LoadEvent.Allocates (fun _ s' ↦ Aliased 2 s'.1 ∧ s'.2 = ((Source.ofBytes aliased).fs.fetch
        (filePhdr aliased 1).offset (filePhdr aliased 1).filesz s).after) (m, s) := by
  obtain ⟨-, hphdr, -, hcall⟩ := segments_aliased
  have hparts :=
    @wp_loadSegment_of ℕ Boot.small 0x400000 m (Source.ofBytes aliased).fs (filePhdr aliased 1) 1 s
    (fun m' ↦ (Boot.small.space lowPages).Sound m' ∧ FirstPage m' ∧
      m'.look 0x201000 = some (3, presentRw 0x10000000400000)) (Aliased 2) (Aliased 2)
  have hin : (177 : UInt64).toNat + (1 : UInt64).toNat ≤ aliased.length := by
    rw [length_aliased]
    decide
  have hfetch := serves_aliased.fetch_eq hin s
  have hbytes : ((Source.ofBytes aliased).fs.fetch 177 1 s).bytes = [2] := by
    rw [hfetch.2]
    decide +kernel
  rw [hcall, hphdr] at hparts
  rw [hphdr]
  obtain ⟨hsound, hfirst, honly⟩ := h
  have hpage : pageOf 0x201000 = 513 := by decide
  have hfree : m.look 0x201000 = none := by
    by_contra hlook
    have hnot := honly _ hlook
    rw [hpage] at hnot
    omega
  refine hparts (Exec.wp_mono (wp_mapPage hsound hfree fun w hw heq ↦ ?_) ?_) ?_ ?_ fun _ _ h₂ ↦ h₂
  · have hlow : w.toNat / 4096 < 256 := hw
    rw [hpage, pageOf] at heq
    omega
  · rintro _ m₁ ⟨hsound₁, hremap⟩
    have hleaf := (physical_presentRw 0x10000000400000 0).1
    refine ⟨hsound₁, ?_, ?_⟩
    · have hother : ¬ (pathOf 0x201000).take 4 <+: pathOf 0x200000 :=
        fun hpre ↦ absurd (prefix_four_iff.1 hpre) (by decide)
      rw [FirstPage, hremap.look, if_neg hother]
      exact hfirst
    · rw [hremap.look, if_pos (List.take_prefix _ _), if_pos hleaf]
  · rintro m₁ ⟨hsound₁, hfirst₁, hsecond⟩
    have htr := translate_of_leaf (Or.inl (by decide)) (by decide) hsecond
    have hkeep := @keepsTables_above Boot.small m₁ hsound₁ 0x400000 1 (by decide)
      fun b ↦ ((Source.ofBytes aliased).fs.fetch 177 1 s).bytes.getD b 0
    refine wp_storeByte hsound₁ htr (by rw [hbytes]; rfl) ⟨?_, ?_⟩
    · rw [FirstPage, hkeep.look]
      exact hfirst₁
    · rw [hbytes]
      rfl
  · rintro m₂ h₂
    exact Exec.wp_pure h₂

theorem fails_aliased : Fails aliased 0x400000 := by
  intro h
  obtain ⟨hroom, hcount, hseg₀, hseg₁, hsize, hvaddr, hone⟩ :
      Boot.small.Room ((Source.ofBytes aliased).tables
        0x400000 (Source.ofBytes aliased).count) Boot.smallReady ∧ fileCount aliased = 2 ∧
      IsSegment aliased 0 ∧ IsSegment aliased 1 ∧ 0 < (filePhdr aliased 0).memsz.toNat ∧
      (filePhdr aliased 0).vaddr + UInt64.ofNat 0 = 0x200000 ∧
      loadedByte aliased (filePhdr aliased 0) 0 = 1 := by decide +kernel
  have hevents := (Source.readElf_room _ _ _ hroom).1
  have hrun := @wp_readElf_of ℕ Boot.small (Source.ofBytes aliased) aliased 0x400000 Boot.smallReady
    serves_aliased headers_aliased Aliased (prepared_of_started started_smallReady) ?_ ?_
  · obtain ⟨info, -, hplace⟩ := h hevents
    obtain ⟨info', -, -, hend⟩ := hrun hevents
    rw [hcount] at hend
    obtain ⟨hfirst, hbyte⟩ := hend
    have htr := translate_of_leaf (Or.inl (by decide)) (by decide) hfirst
    obtain ⟨p, hp, hmem⟩ := hplace.bytes 0 hseg₀ 0 hsize
    rw [hvaddr, htr] at hp
    obtain rfl := Option.some.inj hp
    have hframe : frameOf 0x400000 * 4096 = 0x400000 := by decide
    rw [hone, hframe, hbyte] at hmem
    exact absurd hmem (by decide)
  · intro n m' hn hP
    rcases n with _ | _ | n
    · exact absurd hseg₀ hn
    · exact absurd hseg₁ hn
    · exact hP
  · intro n m' hseg hP
    have hlt := hseg.1
    rw [Source.segment, serves_aliased.phdr_eq headers_aliased hlt]
    rw [hcount] at hlt
    rcases n with _ | _ | n
    · exact wp_first_aliased hP _
    · exact wp_second_aliased hP _
    · exact absurd hlt (by omega)

/-- Each of the three bounds is needed: there are an image with a virtual range that is not
canonical, one with a program header more than `2 ^ 31` bytes behind the first, and one with a range
beyond the physical addresses, which are fine otherwise and are not loaded. -/
theorem not_inPlace_unbounded :
    (RoughImage noncanonical 0x400000 ∧ NearHeaders noncanonical ∧
      PhysicalRanges noncanonical 0x400000 ∧
      Fails noncanonical 0x400000) ∧
    (RoughImage farHeaders 0x400000 ∧ CanonicalRanges farHeaders ∧
      PhysicalRanges farHeaders 0x400000 ∧
      Fails farHeaders 0x400000) ∧
    (RoughImage aliased 0x400000 ∧ NearHeaders aliased ∧ CanonicalRanges aliased ∧
      Fails aliased 0x400000) := by
  obtain ⟨hlaid, hnear, hphys⟩ : LaidOut noncanonical 0x400000 ∧ NearHeaders noncanonical ∧
      PhysicalRanges noncanonical 0x400000 := by decide +kernel
  obtain ⟨hlaid', hnear', hvirt'⟩ := laidOut_aliased
  exact ⟨⟨hlaid.rough, hnear, hphys, fails_noncanonical⟩,
    ⟨rough_farHeaders, fun i hi ↦ absurd hi (not_isSegment_farHeaders i),
      fun i hi ↦ absurd hi (not_isSegment_farHeaders i), fails_farHeaders⟩,
    ⟨hlaid'.rough, hnear', hvirt', fails_aliased⟩⟩

end Aidos.Loader
