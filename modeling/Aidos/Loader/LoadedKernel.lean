import Aidos.Loader.LinearOffset
import Aidos.Paging.KernelReady

/-!
# The kernel in memory

What `readElf` leaves besides the segments: the rest of low memory is as it was, and if no segment
gets 2 MiB pages then all pages are small (`Undisturbed`). So a kernel whose segments fill the pages
of its image is on a machine on which its own `setup_paging` can start (`Bootable.booted`).
-/

namespace Aidos.Loader

open ByteMemory Paging

variable {σ : Type} {B : Boot} {S : Source σ} {K : Kernel} {file : List UInt8} {data : UInt64}
  {n : ℕ} {m m₁ : Machine}

/-! ### Low memory -/

/-- The loader has been at work since `m₁`: of low memory only pages that were tables or free heap
have changed, and no large pages are used. -/
structure Undisturbed (B : Boot) (m₁ m : Machine) : Prop where
  /-- The tables are in those pages. -/
  sound : (B.space (B.inUse m₁)).Sound m
  /-- The other pages are kept. -/
  low : ∀ q < 0x100000, q / 4096 ∉ B.inUse m₁ → m.mem q = m₁.mem q
  /-- The page size. -/
  small : ∀ w l, m.look w = some l → l.1 = 3

theorem undisturbed_of_started (h : B.Started m₁) : Undisturbed B m₁ m₁ where
  sound := h.tight
  low := fun _ _ _ ↦ rfl
  small := by
    intro w l hl
    rw [h.look] at hl
    split at hl
    · rw [← Option.some.inj hl]
    · exact absurd hl (by simp)

/-- Mapping a segment with small pages. -/
theorem Undisturbed.wp_map (h : Undisturbed B m₁ m) (hm : B.Started m₁) {p : Phdr}
    (hload : p.Loadable file data) (hsize : (p.call data).size = .small) :
    (B.perform (p.call data)).wp Event.Allocates (fun _ m' ↦ Undisturbed B m₁ m') m := by
  obtain ⟨-, -, hal, -⟩ := hload.call_spec
  refine Exec.wp_mono (Boot.wp_call h.sound hal hload.fits (fun w _ l hl ↦ ?_) fun w hw hcov ↦ ?_)
    fun _ m' hm' ↦ ⟨hm'.sound, fun q hq hout ↦ ?_, fun w l hl ↦ ?_⟩
  · rw [hsize, h.small w l hl]
    exact Nat.le_refl 3
  · have hlt := hm.inUse_lt hw
    refine absurd ?_ (hload.not_low hcov)
    rw [pageOf]
    exact Nat.lt_of_le_of_lt (Nat.mod_le _ _) hlt
  · rw [← h.low q hq hout]
    by_contra hne
    obtain ⟨path, -, hpath⟩ := hm'.changed q hne
    have hin := hm'.sound.tables _ ⟨path, hpath⟩
    rw [Boot.page_pointer_space (Machine.isTable_lt ⟨path, hpath⟩)] at hin
    exact hout hin
  · rw [hm'.look, BootCall.leafOf] at hl
    split at hl
    · rw [← Option.some.inj hl, hsize]
      rfl
    · exact h.small w l hl

/-- Writing above low memory. -/
theorem Undisturbed.fill (h : Undisturbed B m₁ m) (hs : (B.space lowPages).Sound m) {base k : ℕ}
    (hbase : 0x100000 ≤ base) (f : ℕ → UInt8) :
    Undisturbed B m₁ { m with mem := fillRun m.mem base f k } where
  sound := h.sound.keeps (keepsTables_above hs hbase f) rfl
  low := fun q hq hout ↦
    (fillRun_of_not_mem (Or.inl (Nat.lt_of_lt_of_le hq hbase))).trans (h.low q hq hout)
  small := fun w l hl ↦ h.small w l (by rwa [(keepsTables_above hs hbase f).look] at hl)

/-- Writing bytes of a segment that is mapped. -/
theorem Undisturbed.wp_storeRun (h : Undisturbed B m₁ m) (hmapped : Mapped B file data (n + 1) m)
    (hload : (filePhdr file n).Loadable file data) (hseg : IsSegment file n) {dest : UInt64}
    {o k : ℕ} (hdest : dest = (filePhdr file n).vaddr + UInt64.ofNat o)
    (hk : o + k ≤ (filePhdr file n).memsz.toNat) (f : ℕ → UInt8) {assume : Event → Prop} :
    (storeRun dest f k).wp assume
      (fun _ m' ↦ Mapped B file data (n + 1) m' ∧ Undisturbed B m₁ m') m := by
  have hlow := hload.phys_low
  exact hmapped.wp_storeRun hload hseg hdest rfl hk f
    ⟨hmapped.fill (by omega) f, h.fill hmapped.sound (by omega) f⟩

section Image

variable (hserves : Serves S.fs file) (himage : LoadableImage file data)
  (hsize : ∀ i, IsSegment file i → ((filePhdr file i).call data).size = .small)
  (hm : B.Started m₁)
include hserves himage hsize hm

/-- Loading a segment disturbs nothing. -/
theorem wp_loadSegment_undisturbed (h : Undisturbed B m₁ m) (hmapped : Mapped B file data n m)
    (hfilled : Filled file data n m) (hseg : IsSegment file n) :
    (loadSegment B S.fs data n (filePhdr file n)).wp LoadEvent.Allocates
      (fun _ s' ↦ Undisturbed B m₁ s'.1) (m, (S.program n).after) := by
  have hload := himage.loadable n hseg
  have hfilesz := hload.filesz_le
  obtain ⟨hlength, -⟩ := hserves.segment_bytes himage.headers hseg.1 hload.inFile
  rw [Source.segment, hserves.phdr_eq himage.headers hseg.1] at hlength
  have hparts := @wp_loadSegment_of σ B data m S.fs (filePhdr file n) n (S.program n).after
    (fun m' ↦ Mapped B file data (n + 1) m' ∧ Undisturbed B m₁ m')
    (fun m' ↦ Mapped B file data (n + 1) m' ∧ Undisturbed B m₁ m')
    (fun m' ↦ Mapped B file data (n + 1) m' ∧ Undisturbed B m₁ m')
  refine Exec.wp_mono (hparts ?_ ?_ ?_ fun _ _ hm₂ ↦ hm₂) fun _ _ hs' ↦ hs'.1.2
  · refine Exec.wp_mono (Exec.wp_and (hmapped.wp_map himage hfilled hseg)
      (h.wp_map hm hload (hsize n hseg))) fun _ m' hm' ↦ ⟨hm'.1.1, hm'.2⟩
  · rintro m₂ ⟨hmapped₂, h₂⟩
    rw [hlength]
    exact h₂.wp_storeRun hmapped₂ hload hseg (UInt64.add_zero _).symm
      ((Nat.zero_add _).trans_le hfilesz) _
  · rintro m₂ ⟨hmapped₂, h₂⟩
    have hdiff : ((filePhdr file n).memsz - (filePhdr file n).filesz).toNat =
        (filePhdr file n).memsz.toNat - (filePhdr file n).filesz.toNat :=
      UInt64.toNat_sub_of_le _ _ (UInt64.le_iff_toNat_le.2 hfilesz)
    have hdest : (filePhdr file n).vaddr + (filePhdr file n).filesz =
        (filePhdr file n).vaddr + UInt64.ofNat (filePhdr file n).filesz.toNat := by
      rw [UInt64.ofNat_toNat]
    rw [memset, hdiff]
    exact h₂.wp_storeRun hmapped₂ hload hseg hdest (by omega) _

/-- **What `readElf` leaves**: the segments in place, and the rest of low memory as it was. -/
theorem wp_readElf_undisturbed :
    (readElf B S.fs S.rest data).wp LoadEvent.Allocates (fun info s' ↦ info = S.info data ∧
      (Mapped B file data (fileCount file) s'.1 ∧ Filled file data (fileCount file) s'.1) ∧
        Undisturbed B m₁ s'.1) (m₁, S.start) := by
  refine wp_readElf_of (P := fun n m' ↦ (Mapped B file data n m' ∧ Filled file data n m') ∧
      Undisturbed B m₁ m') hserves himage.headers
    ⟨⟨(prepared_of_started hm).mapped, fun j hj ↦ absurd hj (Nat.not_lt_zero j)⟩,
      undisturbed_of_started hm⟩ ?_ ?_
  · rintro n m' hn ⟨⟨hmapped, hfilled⟩, h⟩
    exact ⟨⟨hmapped.skip hn, hfilled.skip hn⟩, h⟩
  · rintro n m' hseg ⟨⟨hmapped, hfilled⟩, h⟩
    refine Exec.wp_mono (Exec.wp_and (wp_loadSegment hserves himage hmapped hfilled hseg)
      (wp_loadSegment_undisturbed hserves himage hsize hm h hmapped hfilled hseg)) ?_
    rintro _ s' ⟨⟨hs', hafter⟩, h'⟩
    exact ⟨⟨hs', h'⟩, hafter⟩

end Image

/-! ### The image -/

/-- The segments of the file fill the pages of the image, and no others. -/
def Fills (K : Kernel) (file : List UInt8) : Prop :=
  ∀ n, n ∈ K.imagePages ↔ ∃ i, IsSegment file i ∧ (filePhdr file i).vaddr.toNat ≤ 4096 * n ∧
    4096 * n < (filePhdr file i).vaddr.toNat + (filePhdr file i).memsz.toNat

/-- A kernel that can be loaded to `data`, where it can set up page tables of its own. -/
structure Bootable (K : Kernel) (file : List UInt8) (data : UInt64) : Prop where
  /-- It is laid out as its linker script says, -/
  image : KernelImage file
  /-- from `KERNEL_BASE` to `__end`. -/
  fills : Fills K file
  /-- No segment gets 2 MiB pages. -/
  small : ∀ i, IsSegment file i → ((filePhdr file i).call data).size = .small
  /-- The region starts at a page boundary, -/
  aligned : data.toNat % 4096 = 0
  /-- above low memory. -/
  above : 0x100000 ≤ data.toNat
  /-- The physical addresses have no more bits than `ADDR_MASK`. -/
  physical : ∀ i, IsSegment file i →
    data.toNat + (filePhdr file i).paddr.toNat + (filePhdr file i).memsz.toNat ≤ 2 ^ 48

namespace Bootable

variable (h : Bootable K file data)
include h

theorem physicalRanges : PhysicalRanges file data := fun i hi ↦
  (h.physical i hi).trans (by decide)

theorem loadable : LoadableImage file data :=
  h.image.loadable h.physicalRanges h.above h.aligned

/-- The physical addresses of the segments, counted from the physical base. -/
theorem toNat_base {base : UInt64} (hbase : IsBase file data base) :
    (∃ l, IsSegment file l ∧ base.toNat = data.toNat + (filePhdr file l).paddr.toNat) ∧
      ∀ i, IsSegment file i → kernelBase.toNat ≤ (filePhdr file i).vaddr.toNat ∧
        data.toNat + (filePhdr file i).paddr.toNat =
          base.toNat + ((filePhdr file i).vaddr.toNat - kernelBase.toNat) := by
  obtain ⟨l, hl, -, hlin⟩ := h.image.exists_lowest h.physicalRanges
  have hlowest : base.toNat = data.toNat + (filePhdr file l).paddr.toNat := by
    rcases hbase with ⟨k, hk, rfl, hmin⟩ | ⟨hnone, -⟩
    · have hle := UInt64.le_iff_toNat_le.1 (hmin l hl)
      have hkp := (hlin k hk).2
      rw [(h.loadable.loadable k hk).toNat_phys]
      omega
    · exact absurd hl (hnone l)
  refine ⟨⟨l, hl, hlowest⟩, fun i hi ↦ ⟨(hlin i hi).1, ?_⟩⟩
  have hip := (hlin i hi).2
  omega

/-- Where the image is: at the distance `KERNEL_OFFSET` from its addresses. -/
theorem translate {base : UInt64} (hbase : IsBase file data base)
    (hmapped : Mapped B file data (fileCount file) m) {p : UInt64}
    (hp : p.toNat / 4096 ∈ K.imagePages) :
    m.translate p = some (p - (kernelBase - base)).toNat ∧
      0x100000 ≤ (p - (kernelBase - base)).toNat ∧ (p - (kernelBase - base)).toNat < 2 ^ 48 := by
  obtain ⟨⟨l, hl, hlbase⟩, hlin⟩ := h.toNat_base hbase
  obtain ⟨i, hi, hlow, hhigh⟩ := (h.fills _).1 hp
  obtain ⟨hvirt, hphys⟩ := hlin i hi
  have hend := h.physical i hi
  have habove := h.above
  have hvend := h.image.virt_end i hi
  have hpl := p.toNat_lt
  have hnum : kernelBase.toNat = 0xFFFF800000000000 := rfl
  have hbal : base.toNat % 4096 = 0 := by
    have hal := (h.loadable.loadable l hl).phys_aligned
    omega
  have hoff : (kernelBase - base).toNat % 4096 = 0 := by
    rw [UInt64.toNat_sub]
    omega
  -- the distance, for any address of the image
  have hsub : ∀ v : UInt64, kernelBase.toNat ≤ v.toNat → base.toNat + (v.toNat - kernelBase.toNat) <
      2 ^ 64 → (v - (kernelBase - base)).toNat = base.toNat + (v.toNat - kernelBase.toNat) := by
    intro v hv hlt
    rw [UInt64.toNat_sub, UInt64.toNat_sub]
    omega
  have hlast : p.toNat - kernelBase.toNat + base.toNat < 2 ^ 48 := by
    have hal := h.image.virt_aligned i hi
    have hpal := (h.loadable.loadable i hi).phys_aligned
    omega
  have hpage : p.toNat / 4096 * 4096 < UInt64.size :=
    Nat.lt_of_le_of_lt (Nat.div_mul_le_self _ _) hpl
  have hfirst : m.translate (UInt64.ofNat (p.toNat / 4096 * 4096)) =
      some (UInt64.ofNat (p.toNat / 4096 * 4096) - (kernelBase - base)).toNat := by
    have hplaced := hmapped.placed i hi.1 hi
      (p.toNat / 4096 * 4096 - (filePhdr file i).vaddr.toNat) (by omega)
    have hsame : (filePhdr file i).vaddr +
        UInt64.ofNat (p.toNat / 4096 * 4096 - (filePhdr file i).vaddr.toNat) =
          UInt64.ofNat (p.toNat / 4096 * 4096) := by
      refine UInt64.toNat_inj.1 ?_
      rw [UInt64.toNat_add, UInt64.toNat_ofNat_of_lt' hpage,
        UInt64.toNat_ofNat_of_lt' (Nat.lt_of_le_of_lt (Nat.sub_le _ _) hpage)]
      omega
    rw [hsame] at hplaced
    rw [hplaced, hsub _ (by rw [UInt64.toNat_ofNat_of_lt' hpage]; omega)
      (by rw [UInt64.toNat_ofNat_of_lt' hpage]; omega), UInt64.toNat_ofNat_of_lt' hpage]
    refine congrArg some ?_
    omega
  have hthis := hsub p (by omega) (by omega)
  refine ⟨Kernel.translate_page_linear hoff ?_ hfirst ?_, by omega, by omega⟩
  · rw [UInt64.toNat_ofNat_of_lt' hpage]
    exact Nat.mul_mod_left _ _
  · rw [UInt64.toNat_ofNat_of_lt' hpage]
    omega

end Bootable

/-- The kernel's first instruction: its static variables `heap_offset` and `KERNEL_OFFSET` take the
place of those of the second stage. -/
def enterKernel (m : Machine) : Machine := { m with heapOffset := 0, kernelOffset := 0 }

/-- **The kernel that is loaded can start**: what its `setup_paging` relies on is so. -/
theorem Bootable.booted (h : Bootable K file data) {base : UInt64} (hbase : IsBase file data base)
    (hmapped : Mapped B file data (fileCount file) m) (hkept : Undisturbed B m₁ m) :
    K.Booted B.pml4 (kernelBase - base) (enterKernel m) where
  root := by
    have hroot : m.root = B.pml4.toNat / 4096 :=
      hmapped.sound.root.trans (Boot.frame_space lowPages B.pml4)
    have hal := B.aligned _ List.mem_cons_self
    show B.pml4.toNat = 4096 * m.root
    rw [hroot]
    omega
  identity := by
    intro t ht
    have hlt : t < 256 := table_lt hmapped.sound ht
    have hsize : 4096 * t < UInt64.size := Nat.lt_trans (m := 2 ^ 52) (by omega) (by decide)
    have hlinear := hmapped.sound.linear (UInt64.ofNat (4096 * t)) (by
      rw [UInt64.toNat_ofNat_of_lt' hsize]
      show 4096 * t / 4096 < 256
      omega)
    rw [show (B.space lowPages).offset = 0 from rfl, UInt64.sub_zero,
      UInt64.toNat_ofNat_of_lt' hsize] at hlinear
    exact hlinear
  clear := fun p t i s ht hs ↦ Nat.lt_trans (hmapped.sound.clear p t i s ht hs) (by decide)
  offset_aligned := by
    obtain ⟨⟨l, hl, hlbase⟩, -⟩ := h.toNat_base hbase
    have hal := (h.loadable.loadable l hl).phys_aligned
    have hnum : kernelBase.toNat = 0xFFFF800000000000 := rfl
    rw [UInt64.toNat_sub]
    omega
  linear := fun p hp ↦ ⟨(h.translate hbase hmapped hp).1, (h.translate hbase hmapped hp).2.2⟩
  small := fun v _ l hl ↦ hkept.small v l hl
  apart := by
    intro p hp ht
    have hlt : (p - (kernelBase - base)).toNat / 4096 < 256 := table_lt hmapped.sound ht
    have hlow := (h.translate hbase hmapped hp).2.1
    omega
  heapOffset_le := Nat.zero_le _

end Aidos.Loader
