import Aidos.Loader.LoadedImage

/-!
# The jump to the kernel

`stage2_main` jumps to the entry point that `readElf` returns, whatever happened on the way. So the
jump is one into a loaded kernel exactly if the file system has delivered the whole image
(`stage2_loaded_iff`), and the kernel lies in the memory region chosen for it exactly if each of its
segments happens to fit the region, which was chosen by a fixed minimum length
(`stage2_placed_iff`).
-/

namespace Aidos.Loader

open ByteMemory Paging

variable {σ : Type}

/-! ### Choosing the region -/

/-- The entry chosen is one of the map and suits. -/
theorem selectRegion_eq_some {i j : ℕ} {regions : List MemoryRegion} {r : MemoryRegion}
    (h : selectRegion i regions = some (j, r)) : r.suits = true ∧ ∃ k, j = i + k ∧
      regions[k]? = some r := by
  induction regions generalizing i with
  | nil => exact absurd h (by simp [selectRegion])
  | cons r' regions ih =>
    rw [selectRegion] at h
    split at h
    · next hsuits =>
      obtain ⟨rfl, rfl⟩ := Prod.mk.inj (Option.some.inj h)
      exact ⟨hsuits, 0, rfl, rfl⟩
    · obtain ⟨hsuits, k, rfl, hk⟩ := ih h
      exact ⟨hsuits, k + 1, by omega, hk⟩

/-! ### Runs that jump -/

/-- The run of `stage2_main` from a machine and an open file. -/
def stage2Run (B : Boot) (D : Drivers σ) (bootInfo : BootInfo) (rest : Leftovers)
    (m : Machine) (s : σ) :
    Outcome (Machine × σ) LoadEvent Stage2 := (stage2Main B D bootInfo rest).run (m, s)

/-- A run that jumps has chosen a region and loaded the kernel to it, after `setup_paging`. -/
theorem stage2_jumped {B : Boot} {D : Drivers σ} {bootInfo : BootInfo}
    {rest : Leftovers} {m : Machine}
    {s : σ} {entry : UInt64} {ext : BootInfoExtended} {F : FileSystem σ} (hfs : D.fs = some F)
    (hjump : (stage2Run B D bootInfo rest m s).value = some (Stage2.jumped entry ext)) :
    ∃ i region m₁ es₁ info, selectRegion 0 bootInfo.memMap = some (i, region) ∧
      ((readElf B F rest region.base).run (m₁, s)).value = some info ∧
      entry = info.entry ∧ ext = ⟨UInt8.ofNat i, B.pml4, info.physBase⟩ ∧
      (∀ e ∈ es₁, ∃ e', e = LoadEvent.paging e') ∧
      (stage2Run B D bootInfo rest m s).events =
        es₁ ++ ((readElf B F rest region.base).run (m₁, s)).events := by
  have honFst : (Exec.onFst LoadEvent.paging B.setupPaging : Load σ Unit).run (m, s) =
      ⟨(B.setupPaging.run m).value, ((B.setupPaging.run m).state, s),
        (B.setupPaging.run m).events.map LoadEvent.paging⟩ := rfl
  rcases hsetup : B.setupPaging.run m with ⟨_ | _, m₁, es₁⟩
  · rw [hsetup] at honFst
    rw [stage2Run, stage2Main, Exec.run_bind_of_none honFst] at hjump
    exact absurd hjump (by simp)
  rw [hsetup] at honFst
  rw [stage2Run, stage2Main, Exec.run_bind_of_some honFst, hfs] at hjump ⊢
  have hhalted : ((pure Stage2.halted : Load σ Stage2).run (m₁, s)).value ≠
      some (Stage2.jumped entry ext) := by
    simp [Exec.run, pure, Exec.pure]
  dsimp only at hjump ⊢
  split at hjump
  · exact absurd hjump hhalted
  next hata =>
  split at hjump
  · exact absurd hjump hhalted
  next hkernel =>
  rw [if_neg hata, if_neg hkernel]
  rcases hselect : selectRegion 0 bootInfo.memMap with _ | ⟨i, region⟩
  · rw [hselect] at hjump
    exact absurd hjump hhalted
  rw [hselect] at hjump
  dsimp only at hjump ⊢
  rcases hread : (readElf B F rest region.base).run (m₁, s) with ⟨_ | info, s₂, es₂⟩
  · rw [Exec.run_bind_of_none hread] at hjump
    exact absurd hjump (by simp)
  rw [Exec.run_bind_of_some hread] at hjump ⊢
  obtain ⟨rfl, rfl⟩ :
      info.entry = entry ∧ (⟨UInt8.ofNat i, B.pml4, info.physBase⟩ : BootInfoExtended) = ext :=
    Stage2.jumped.inj (Option.some.inj hjump)
  refine ⟨i, region, m₁, es₁.map LoadEvent.paging, info, rfl, by rw [hread], rfl, rfl,
    fun e he ↦ ?_, ?_⟩
  · obtain ⟨e', -, rfl⟩ := List.mem_map.1 he
    exact ⟨e', rfl⟩
  · rw [hread]
    exact congrArg _ (List.append_nil _)

/-- A run that jumps has done all that `readElf` is to do for the region chosen, and nothing else.
-/
theorem stage2_done {B : Boot} {D : Drivers σ} {bootInfo : BootInfo}
    {rest : Leftovers} {m : Machine}
    {s : σ} {entry : UInt64} {ext : BootInfoExtended} {F : FileSystem σ} (hfs : D.fs = some F)
    (hjump : (stage2Run B D bootInfo rest m s).value = some (Stage2.jumped entry ext)) :
    ∃ i region info, selectRegion 0 bootInfo.memMap = some (i, region) ∧
      entry = info.entry ∧ ext = ⟨UInt8.ofNat i, B.pml4, info.physBase⟩ ∧
      (∀ e ∈ (stage2Run B D bootInfo rest m s).events, (Source.mk F rest s).Allowed e) ∧
      (Source.mk F rest s).Done region.base (stage2Run B D bootInfo rest m s).events info := by
  obtain ⟨i, region, m₁, es₁, info, hselect, hvalue, hentry, hext, hpaging, hevents⟩ :=
    stage2_jumped hfs hjump
  obtain ⟨hallowed, hdone⟩ := (Source.mk F rest s).readElf_yields B region.base m₁
  obtain ⟨hheader, hturns, hrefused⟩ := hdone info hvalue
  refine ⟨i, region, info, hselect, hentry, hext, fun e he ↦ ?_, ?_⟩
  · rw [hevents] at he
    rcases List.mem_append.1 he with hfirst | hsecond
    · obtain ⟨e', rfl⟩ := hpaging e hfirst
      exact Source.Allowed.paging e'
    · exact hallowed e hsecond
  · rw [hevents]
    exact ⟨List.mem_append_right _ hheader, fun hmagic ↦ ⟨(hturns hmagic).1, fun i hi ↦
      ⟨((hturns hmagic).2 i hi).1,
        fun e he ↦ List.mem_append_right _ (((hturns hmagic).2 i hi).2 e he)⟩⟩,
      hrefused⟩

/-- The drivers of a machine whose disk has a kernel. -/
def Drivers.ready (F : FileSystem σ) : Drivers σ := ⟨true, some F, true⟩

/-- A small second stage jumps to what `readElf` returns. -/
theorem stage2_small {F : FileSystem σ} {bootInfo : BootInfo} {rest : Leftovers} {s : σ} {i : ℕ}
    {region : MemoryRegion} {info : ElfInfo}
    (hselect : selectRegion 0 bootInfo.memMap = some (i, region))
    (hread : ((readElf Boot.small F rest region.base).run (Boot.smallReady, s)).value = some info) :
    (stage2Run Boot.small (Drivers.ready F) bootInfo rest Boot.smallStart s).value =
      some (Stage2.jumped info.entry ⟨UInt8.ofNat i, Boot.small.pml4, info.physBase⟩) := by
  obtain ⟨es, hsetup⟩ := Boot.setupPaging_smallStart
  have hfirst :
      (Exec.onFst LoadEvent.paging Boot.small.setupPaging : Load σ Unit).run (Boot.smallStart, s) =
      ⟨some (), (Boot.smallReady, s), es.map LoadEvent.paging⟩ := by
    show (⟨(Boot.small.setupPaging.run Boot.smallStart).value,
      ((Boot.small.setupPaging.run Boot.smallStart).state, s),
      (Boot.small.setupPaging.run Boot.smallStart).events.map LoadEvent.paging⟩ : Outcome _ _ _) = _
    rw [hsetup]
  have hsecond : (readElf Boot.small F rest region.base).run (Boot.smallReady, s) =
      ⟨some info, _, _⟩ :=
    Exec.run_eq_of_value hread
  rw [stage2Run, stage2Main, Exec.run_bind_of_some hfirst]
  simp only [Drivers.ready, Bool.not_true, Bool.false_eq_true, if_false, hselect]
  rw [Exec.run_bind_of_some hsecond]
  rfl

/-! ### Loaded in full -/

/-- The run has loaded a segment: its bytes have been asked for at their place in the file and
delivered in full, and every address of the segment has been written. -/
structure SegmentLoaded (es : List LoadEvent) (i : ℕ) (p : Phdr) : Prop where
  /-- The `p_filesz` bytes from `p_offset` on. -/
  delivered : ∃ position content,
    LoadEvent.request (Part.segment i) position p.filesz true content ∈ es ∧
      position.toNat = p.offset.toNat ∧ content.length = p.filesz.toNat
  /-- They are copied, and the rest of the `p_memsz` bytes is cleared. -/
  stored : ∀ b, b < p.filesz.toNat ∨ b < p.memsz.toNat →
    LoadEvent.store i (Event.write (p.vaddr + UInt64.ofNat b)) ∈ es

/-- The run has loaded a whole image with this entry point: every request has been answered in full,
the header has the magic number and the entry point, every program header has been read from its
place in the file, and every segment has been loaded. -/
structure Loaded (rest : Leftovers) (es : List LoadEvent) (entry : UInt64) : Prop where
  /-- No `seek` has failed and no `read` was short. -/
  full : ∀ part position wanted ok bytes, LoadEvent.request part position wanted ok bytes ∈ es →
    ok = true ∧ bytes.length = wanted.toNat
  /-- What the ELF header says has been done. -/
  header : ∃ position bytes, LoadEvent.request Part.header position ehdrSize true bytes ∈ es ∧
    position = 0 ∧ (Ehdr.decode (overwrite bytes rest.header)).ident = elfMagic ∧
    entry = (Ehdr.decode (overwrite bytes rest.header)).entry ∧
    ∀ i < (Ehdr.decode (overwrite bytes rest.header)).phnum.toNat, ∃ position content,
      LoadEvent.request (Part.program i) position phdrSize true content ∈ es ∧
      position.toNat = (Ehdr.decode (overwrite bytes rest.header)).phoff.toNat +
        i * (Ehdr.decode (overwrite bytes rest.header)).phentsize.toNat ∧
      ((Phdr.decode (overwrite content (rest.program i))).type = ptLoad →
        SegmentLoaded es i (Phdr.decode (overwrite content (rest.program i))))

/-- The answer is complete. -/
def Answer.Full (a : Answer σ) (wanted : UInt64) : Prop :=
  a.ok = true ∧ a.bytes.length = wanted.toNat

/-- A request that was answered in full, in the form in which `Loaded` states it. -/
theorem Answer.Full.mem {a : Answer σ} {wanted : UInt64} {es : List LoadEvent} {part : Part}
    {position : UInt32} (h : a.Full wanted)
    (he : LoadEvent.request part position wanted a.ok a.bytes ∈ es) :
    LoadEvent.request part position wanted true a.bytes ∈ es := by
  rwa [h.1] at he

/-- The file system delivers an image, all of whose parts are at positions that its `uint32_t`
parameters can name. -/
structure Source.Delivered (S : Source σ) : Prop where
  /-- The ELF header. -/
  header : S.header.Full ehdrSize
  /-- The magic number. -/
  magic : S.Magic
  /-- The program headers. -/
  programs : ∀ i < S.count, S.elfHeader.phoff.toNat + S.distance i < 2 ^ 32 ∧
    (S.program i).Full phdrSize
  /-- The bytes of the segments. -/
  segments : ∀ i < S.count, S.IsLoad i →
    (S.phdr i).offset.toNat < 2 ^ 32 ∧ (S.segment i).Full (S.phdr i).filesz

namespace Source

variable {S : Source σ} {B : Boot} {data : UInt64} {m : Machine}

/-- From a source that delivers, every request is answered in full. -/
theorem Delivered.full (h : S.Delivered) {part : Part} {position : UInt32}
    {wanted : UInt64} {ok : Bool}
    {bytes : List UInt8} (he : S.Allowed (LoadEvent.request part position wanted ok bytes)) :
    ok = true ∧ bytes.length = wanted.toNat := by
  cases he with
  | header => exact h.header
  | turn _ hi _ hcaused =>
    cases hcaused with
    | program => exact (h.programs _ hi).2
    | segment hload => exact (h.segments _ hi hload).2

/-- The request for the ELF header is the first one. -/
theorem allowed_header {position : UInt32} {wanted : UInt64} {ok : Bool} {bytes : List UInt8}
    (h : S.Allowed (LoadEvent.request Part.header position wanted ok bytes)) :
    wanted = ehdrSize ∧ ok = S.header.ok ∧ bytes = S.header.bytes := by
  cases h with
  | header => exact ⟨rfl, rfl, rfl⟩
  | turn _ _ _ hcaused => exact absurd (turnOf_caused hcaused) (by simp [turnOf])

/-- Every address of a segment that has been delivered is written in its turn. -/
theorem caused_stored {i : ℕ} (hload : S.IsLoad i)
    (hfull : (S.segment i).bytes.length = (S.phdr i).filesz.toNat) {b : ℕ}
    (hb : b < (S.phdr i).filesz.toNat ∨ b < (S.phdr i).memsz.toNat) :
    S.Caused i (LoadEvent.store i (Event.write ((S.phdr i).vaddr + UInt64.ofNat b))) := by
  refine caused_store_iff.2 ⟨rfl, hload, b, ?_, rfl⟩
  rw [Written, hfull]
  omega

/-- A run that returns has loaded an image with the entry point returned exactly if one was
delivered. -/
theorem loaded_iff {info : ElfInfo} {es : List LoadEvent} (hallowed : ∀ e ∈ es, S.Allowed e)
    (hdone : S.Done data es info) : Loaded S.rest es info.entry ↔ S.Delivered := by
  constructor
  · rintro ⟨hfull, position, bytes, hmem, -, hmagic, -, hparts⟩
    obtain ⟨-, -, rfl⟩ := allowed_header (hallowed _ hmem)
    have hturns := (hdone.turns hmagic).2
    refine ⟨hfull _ _ _ _ _ hdone.header, hmagic, fun i hi ↦ ?_, fun i hi hload ↦ ?_⟩ <;>
      obtain ⟨position, content, hprogram, hposition, hsegment⟩ := hparts i hi <;>
      obtain ⟨-, -, -, -, -, rfl⟩ := allowed_program (hallowed _ hprogram)
    · refine ⟨?_, hfull _ _ _ _ _ ((hturns i hi).2 _ Caused.program)⟩
      rw [distance, elfHeader, ← hposition]
      exact position.toNat_lt
    · obtain ⟨position', content', hrequest, hoffset, -⟩ := (hsegment hload).delivered
      refine ⟨?_, hfull _ _ _ _ _ ((hturns i hi).2 _ (Caused.segment hload))⟩
      exact hoffset ▸ position'.toNat_lt
  · intro h
    obtain ⟨hinfo, hturns⟩ := hdone.turns h.magic
    refine ⟨fun _ _ _ _ _ he ↦ h.full (hallowed _ he), _, _, h.header.mem hdone.header, rfl,
      h.magic, ?_, fun i hi ↦ ?_⟩
    · rw [hinfo]
      rfl
    · obtain ⟨hfits, hprogram⟩ := h.programs i hi
      refine ⟨_, _, hprogram.mem ((hturns i hi).2 _ Caused.program), toNat_position hfits,
        fun hload ↦ ?_⟩
      obtain ⟨hoffset, hsegment⟩ := h.segments i hi hload
      refine ⟨⟨_, _, hsegment.mem ((hturns i hi).2 _ (Caused.segment hload)), ?_, hsegment.2⟩,
        fun b hb ↦ (hturns i hi).2 _ (caused_stored hload hsegment.2 hb)⟩
      rw [UInt64.toNat_toUInt32]
      exact Nat.mod_eq_of_lt hoffset

end Source

/-- A run that jumps has loaded an image exactly if one was delivered. -/
theorem Source.loaded_iff_of_jump {B : Boot} {D : Drivers σ} {bootInfo : BootInfo}
    {rest : Leftovers} {m : Machine}
    {s : σ} {entry : UInt64} {ext : BootInfoExtended} {F : FileSystem σ} (hfs : D.fs = some F)
    (hjump : (stage2Run B D bootInfo rest m s).value = some (Stage2.jumped entry ext)) :
    Loaded rest (stage2Run B D bootInfo rest m s).events entry ↔
      (Source.mk F rest s).Delivered := by
  obtain ⟨i, region, info, -, rfl, -, hallowed, hdone⟩ := stage2_done hfs hjump
  exact Source.loaded_iff hallowed hdone

/-- A memory map of one region of free memory from 1 MiB on. -/
def oneRegion (length : UInt64) : BootInfo := ⟨[⟨0x100000, length, 1⟩], by simp⟩

/-- The run of a small second stage with a file as its kernel. -/
def smallRun (file : List UInt8) (length : UInt64) : Outcome (Machine × ℕ) LoadEvent Stage2 :=
  stage2Run Boot.small (Drivers.ready (Source.ofBytes file).fs) (oneRegion length)
    (Source.ofBytes file).rest
    Boot.smallStart (Source.ofBytes file).start

/-- An image without segments. -/
def noSegments : List UInt8 := image 0x100000 [] []

/-- A file of zeros, without the magic number. -/
def zeros : List UInt8 := List.replicate 64 0

/-- A file whose program header, which is no `PT_LOAD`, is said to be 4 GiB behind its place. -/
def farHeader : List UInt8 :=
  Ehdr.encode ⟨elfMagic, 0x100000, 0x100000040, 56, 1⟩ ++ Phdr.encode ⟨0, 0, 0, 0, 0, 0⟩

/-- The physical range of a segment that is loaded to `region` does not wrap and lies in the region.
-/
def MemoryRegion.Holds (region : MemoryRegion) (p : Phdr) : Prop :=
  region.base.toNat + p.paddr.toNat + p.memsz.toNat ≤ 2 ^ 64 ∧
    ∀ a, region.base.toNat + p.paddr.toNat ≤ a →
      a < region.base.toNat + p.paddr.toNat + p.memsz.toNat →
      region.base.toNat ≤ a ∧ a < region.base.toNat + region.length.toNat

/-- Every segment whose header the run has read is in the region that `memoryMapIndex` names, which
is of type 1. -/
def Placed (rest : Leftovers) (bootInfo : BootInfo) (ext : BootInfoExtended)
    (es : List LoadEvent) : Prop :=
  ∃ region, bootInfo.memMap[ext.memoryMapIndex.toNat]? = some region ∧ region.type = 1 ∧
    ∀ i position wanted ok bytes, LoadEvent.request (Part.program i) position wanted ok bytes ∈ es →
      (Phdr.decode (overwrite bytes (rest.program i))).type = ptLoad →
      region.Holds (Phdr.decode (overwrite bytes (rest.program i)))

/-- The sizes of the segments fit a region: without wrapping, and, unless a segment is empty, with
its end at most `Length` above the load base. -/
def Source.FitsRegion (S : Source σ) (region : MemoryRegion) : Prop :=
  S.Magic → ∀ i < S.count, S.IsLoad i →
    region.base.toNat + (S.phdr i).paddr.toNat + (S.phdr i).memsz.toNat ≤ 2 ^ 64 ∧
      ((S.phdr i).memsz ≠ 0 → (S.phdr i).paddr.toNat + (S.phdr i).memsz.toNat ≤ region.length.toNat)

/-- A nonempty range from the base on is in the region if its end is. -/
theorem MemoryRegion.holds_iff {region : MemoryRegion} {p : Phdr} :
    region.Holds p ↔ region.base.toNat + p.paddr.toNat + p.memsz.toNat ≤ 2 ^ 64 ∧
      (p.memsz ≠ 0 → p.paddr.toNat + p.memsz.toNat ≤ region.length.toNat) := by
  refine and_congr_right fun _ ↦ ⟨fun h hne ↦ ?_, fun h a hlow hhigh ↦ ?_⟩
  · have hpos : 0 < p.memsz.toNat := Nat.pos_of_ne_zero fun h0 ↦ hne (UInt64.toNat_inj.1 h0)
    have hlast := h (region.base.toNat + p.paddr.toNat + p.memsz.toNat - 1) (by omega) (by omega)
    omega
  · have hne : p.memsz ≠ 0 := by
      rintro h0
      rw [h0] at hhigh
      exact absurd hhigh (Nat.not_lt_of_le hlow)
    have hend := h hne
    omega

/-- The region that `memoryMapIndex` names is the one chosen. -/
theorem memMap_index {bootInfo : BootInfo} {i : ℕ} {region : MemoryRegion}
    (h : selectRegion 0 bootInfo.memMap = some (i, region)) :
    bootInfo.memMap[(UInt8.ofNat i).toNat]? = some region ∧ region.type = 1 := by
  obtain ⟨hsuits, k, hk, hget⟩ := selectRegion_eq_some h
  obtain rfl : i = k := hk.trans (Nat.zero_add k)
  obtain ⟨hlt, -⟩ := List.getElem?_eq_some_iff.1 hget
  have hle := bootInfo.length_le
  have hnum : (UInt8.ofNat i).toNat = i := by
    rw [UInt8.toNat_ofNat']
    exact Nat.mod_eq_of_lt (by omega)
  rw [hnum]
  refine ⟨hget, ?_⟩
  rw [MemoryRegion.suits, Bool.and_eq_true, beq_iff_eq] at hsuits
  exact hsuits.2

/-- **Placed exactly if it fits.** When `stage2_main` jumps, the segments of the kernel lie in the
memory region chosen for it if and only if each of them fits the first region that suits by its
base, its type and a length of at least 1 MiB. -/
theorem stage2_placed_iff {B : Boot} {D : Drivers σ} {bootInfo : BootInfo}
    {rest : Leftovers} {m : Machine}
    {s : σ} {entry : UInt64} {ext : BootInfoExtended} {F : FileSystem σ} (hfs : D.fs = some F)
    (hjump : (stage2Run B D bootInfo rest m s).value = some (Stage2.jumped entry ext)) :
    Placed rest bootInfo ext (stage2Run B D bootInfo rest m s).events ↔
      ∃ i region, selectRegion 0 bootInfo.memMap = some (i, region) ∧
        (Source.mk F rest s).FitsRegion region := by
  obtain ⟨i, region, info, hselect, -, rfl, hallowed, hdone⟩ := stage2_done hfs hjump
  obtain ⟨hindex, htype⟩ := memMap_index hselect
  constructor
  · rintro ⟨region', hindex', -, hholds⟩
    obtain rfl : region = region' := Option.some.inj (hindex.symm.trans hindex')
    refine ⟨i, region, hselect, fun hmagic j hj hload ↦ MemoryRegion.holds_iff.1 ?_⟩
    exact hholds j _ _ _ _ (((hdone.turns hmagic).2 j hj).2 _ Source.Caused.program) hload
  · rintro ⟨i', region', hselect', hfits⟩
    obtain ⟨rfl, rfl⟩ : i' = i ∧ region' = region :=
      Prod.mk.inj (Option.some.inj (hselect'.symm.trans hselect))
    refine ⟨region', hindex, htype, fun j position wanted ok bytes he hload ↦ ?_⟩
    obtain ⟨hmagic, hj, -, -, -, rfl⟩ := Source.allowed_program (hallowed _ he)
    exact MemoryRegion.holds_iff.2 (hfits hmagic j hj hload)

/-- An image with 6 MiB of zeros, 1 MiB above the load base. -/
def bigSegment : List UInt8 :=
  image 0xFFFF800000000000 [⟨ptLoad, 120, 0xFFFF800000000000, 0x100000, 0, 0x600000⟩] []

/-- It is loaded to 1 MiB and executed, however long the region is. -/
theorem stage2_bigSegment (length : UInt64) (hlength : 0x100000 ≤ length) : ∃ entry ext,
    (smallRun bigSegment length).value = some (Stage2.jumped entry ext) ∧
    selectRegion 0 (oneRegion length).memMap = some (0, ⟨0x100000, length, 1⟩) := by
  obtain ⟨hsize, hlaid, hnear, hvirt, hphys, hroom⟩ : bigSegment.length < 2 ^ 32 ∧
      LaidOut bigSegment 0x100000 ∧ NearHeaders bigSegment ∧ CanonicalRanges bigSegment ∧
      PhysicalRanges bigSegment 0x100000 ∧
      Boot.small.Room
        ((Source.ofBytes bigSegment).tables 0x100000 (Source.ofBytes bigSegment).count)
        Boot.smallReady := by decide +kernel
  have hserves : Serves (Source.ofBytes bigSegment).fs bigSegment := serves_ofBytes hsize
  have hevents := (Source.readElf_room _ _ _ hroom).1
  obtain ⟨info, hread, -⟩ :=
    (hlaid.rough.loadable hnear hvirt hphys).wp_readElf hserves started_smallReady hevents
  have hsuits : MemoryRegion.suits ⟨0x100000, length, 1⟩ = true := by
    simpa [MemoryRegion.suits] using hlength
  have hselect :
      selectRegion 0 (oneRegion length).memMap = some (0, ⟨0x100000, length, 1⟩) := if_pos hsuits
  exact ⟨_, _, stage2_small hselect hread, hselect⟩

/-- What `readElf` finds in it. -/
theorem source_bigSegment : (Source.ofBytes bigSegment).elfHeader.ident = elfMagic ∧
    (Source.ofBytes bigSegment).count = 1 ∧
    (Source.ofBytes bigSegment).phdr 0 =
      ⟨ptLoad, 120, 0xFFFF800000000000, 0x100000, 0, 0x600000⟩ := by
  decide +kernel

/-- In a region of 8 MiB it is placed in the region. -/
theorem stage2_placed_bigSegment : ∃ entry ext,
    (smallRun bigSegment 0x800000).value = some (Stage2.jumped entry ext) ∧
    Placed (Source.ofBytes bigSegment).rest (oneRegion 0x800000) ext
      (smallRun bigSegment 0x800000).events := by
  obtain ⟨entry, ext, hjump, hselect⟩ := stage2_bigSegment 0x800000 (by decide)
  obtain ⟨-, hcount, hphdr⟩ := source_bigSegment
  have hfits : (Source.ofBytes bigSegment).FitsRegion ⟨0x100000, 0x800000, 1⟩ := by
    intro _ i hi _
    rw [hcount] at hi
    obtain rfl : i = 0 := Nat.lt_one_iff.1 hi
    rw [hphdr]
    exact ⟨by decide, fun _ ↦ by decide⟩
  exact ⟨entry, ext, hjump, (stage2_placed_iff rfl hjump).2 ⟨0, _, hselect, hfits⟩⟩

/-- In a region of 1 MiB it is not: the segment starts where the region ends. -/
theorem not_placed_bigSegment : ∃ entry ext,
    (smallRun bigSegment 0x100000).value = some (Stage2.jumped entry ext) ∧
    ¬ Placed (Source.ofBytes bigSegment).rest (oneRegion 0x100000) ext
      (smallRun bigSegment 0x100000).events := by
  obtain ⟨entry, ext, hjump, hselect⟩ := stage2_bigSegment 0x100000 (by decide)
  obtain ⟨hmagic, hcount, hphdr⟩ := source_bigSegment
  refine ⟨entry, ext, hjump, fun hplaced ↦ ?_⟩
  obtain ⟨i, region, info, hselect', -, hext, hallowed, hdone⟩ := stage2_done rfl hjump
  obtain ⟨rfl, rfl⟩ : 0 = i ∧ (⟨0x100000, 0x100000, 1⟩ : MemoryRegion) = region :=
    Prod.mk.inj (Option.some.inj (hselect.symm.trans hselect'))
  obtain ⟨region, hindex, -, hholds⟩ := hplaced
  rw [hext] at hindex
  obtain rfl : (⟨0x100000, 0x100000, 1⟩ : MemoryRegion) = region := Option.some.inj hindex
  have hdone' :
      (Source.ofBytes bigSegment).Done 0x100000 (smallRun bigSegment 0x100000).events info := hdone
  have hrequest := ((hdone'.turns hmagic).2 0 (by rw [hcount]; decide)).2 _ Source.Caused.program
  have hload : ((Source.ofBytes bigSegment).phdr 0).type = ptLoad := by rw [hphdr]
  have hin : MemoryRegion.Holds ⟨0x100000, 0x100000, 1⟩ ((Source.ofBytes bigSegment).phdr 0) :=
    hholds 0 _ _ _ _ hrequest hload
  rw [hphdr, MemoryRegion.holds_iff] at hin
  exact absurd (hin.2 (by decide)) (by decide)

end Aidos.Loader
