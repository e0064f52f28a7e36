import Aidos.Loader.Image
import Aidos.Paging.MixedPages

/-!
# Loading segments

The images that can be loaded (`LoadableImage`), and the invariant of loading them. A segment is
mapped by one call of `map_2m` or `map_4k` (`segmentCall`). In `Mapped`, the pages mapped are those
of low memory and of the segments loaded so far, and each of these is mapped to where it belongs; in
`Filled`, its bytes are there. Mapping one more segment and writing its bytes leave the earlier ones
as they are (`Mapped.wp_map`, `Filled.fill`), since they share no page.
-/

namespace Aidos.Loader

open ByteMemory Paging

/-! ### The mapping call of a segment -/

/-- The bytes of the pages of a range of this size, from a page boundary on. -/
def span (size : ℕ) : ℕ := (size + 4095) / 4096 * 4096

/-- The call that `mapSegment` makes. -/
def segmentCall (virt phys size : UInt64) : BootCall :=
  if virt % pageSize2m = 0 ∧ phys % pageSize2m = 0 ∧ size % pageSize2m = 0 then
    ⟨.large, virt, phys, size / pageSize2m⟩
  else ⟨.small, virt, phys, (size + pageSize4k - 1) / pageSize4k⟩

theorem mapSegment_eq (B : Boot) (virt phys size : UInt64) :
    mapSegment B virt phys size = B.perform (segmentCall virt phys size) := by
  rw [mapSegment, segmentCall]
  split <;> rfl

theorem mod_eq_zero_iff {x y : UInt64} : x % y = 0 ↔ x.toNat % y.toNat = 0 := by
  rw [← UInt64.toNat_inj, UInt64.toNat_mod, UInt64.toNat_zero]

/-- The start of the call is that of the range. -/
theorem segmentCall_start (virt phys size : UInt64) :
    (segmentCall virt phys size).virt = virt ∧ (segmentCall virt phys size).phys = phys := by
  rw [segmentCall]
  split
  · exact ⟨rfl, rfl⟩
  · exact ⟨rfl, rfl⟩

/-- 2 MiB pages are used only between 2 MiB boundaries. -/
theorem segmentCall_large {virt phys size : UInt64}
    (h : (segmentCall virt phys size).size = .large) :
    virt.toNat % 0x200000 = 0 ∧ phys.toNat % 0x200000 = 0 := by
  rw [segmentCall] at h
  split at h
  · next hlarge => exact ⟨mod_eq_zero_iff.1 hlarge.1, mod_eq_zero_iff.1 hlarge.2.1⟩
  · exact PageSize.noConfusion h

/-- As many pages as the size takes. -/
theorem segmentCall_count (virt phys : UInt64) {size : UInt64}
    (hsize : size.toNat + 4095 < 2 ^ 64) :
    (segmentCall virt phys size).count.toNat * (segmentCall virt phys size).size.bytes =
      span size.toNat := by
  rw [segmentCall]
  split
  · next hlarge =>
    have hs : size.toNat % 0x200000 = 0 := mod_eq_zero_iff.1 hlarge.2.2
    have hcount : (size / pageSize2m).toNat = size.toNat / 0x200000 := UInt64.toNat_div _ _
    show (size / pageSize2m).toNat * 0x200000 = span size.toNat
    rw [hcount, span]
    omega
  · have hsum : (size + pageSize4k - 1).toNat = size.toNat + 4095 := by
      have hadd : (size + pageSize4k).toNat = (size.toNat + 4096) % 2 ^ 64 := UInt64.toNat_add _ _
      rw [UInt64.toNat_sub, hadd]
      simp only [UInt64.reduceToNat]
      omega
    have hcount : ((size + pageSize4k - 1) / pageSize4k).toNat = (size.toNat + 4095) / 4096 := by
      rw [UInt64.toNat_div, hsum]
      rfl
    show ((size + pageSize4k - 1) / pageSize4k).toNat * 4096 = span size.toNat
    rw [hcount, span]

/-- The call maps the pages of the range. -/
theorem segmentCall_spec {virt phys size : UInt64} (hv : virt.toNat % 4096 = 0)
    (hp : phys.toNat % 4096 = 0) (hsize : size.toNat + 4095 < 2 ^ 64) :
    (segmentCall virt phys size).virt = virt ∧ (segmentCall virt phys size).phys = phys ∧
      (segmentCall virt phys size).Aligned ∧
      (segmentCall virt phys size).count.toNat * (segmentCall virt phys size).size.bytes =
        span size.toNat := by
  obtain ⟨hvirt, hphys⟩ := segmentCall_start virt phys size
  refine ⟨hvirt, hphys, ?_, segmentCall_count virt phys hsize⟩
  rw [BootCall.Aligned, hvirt, hphys]
  rcases hpage : (segmentCall virt phys size).size with - | -
  · exact ⟨hv, hp⟩
  · exact segmentCall_large hpage

/-- A call whose range does not leave the `2 ^ 48` bytes covers its range. -/
theorem covers_iff {c : BootCall} (hal : c.Aligned)
    (hend : c.virt.toNat % 2 ^ 48 + c.count.toNat * c.size.bytes ≤ 2 ^ 48) (w : UInt64) :
    c.Covers w ↔ c.virt.toNat % 2 ^ 48 ≤ w.toNat % 2 ^ 48 ∧
      w.toNat % 2 ^ 48 < c.virt.toNat % 2 ^ 48 + c.count.toNat * c.size.bytes := by
  obtain ⟨s, virt, phys, count⟩ := c
  obtain ⟨hv, -⟩ := hal
  rw [BootCall.Covers, BootCall.turn]
  cases s with
  | small =>
    simp only [PageSize.pageNumber, PageSize.bytes, PageSize.pages] at hv hend ⊢
    omega
  | large =>
    simp only [PageSize.pageNumber, PageSize.bytes, PageSize.pages] at hv hend ⊢
    omega

/-- It maps it linearly. -/
theorem assign_eq {c : BootCall} (hal : c.Aligned)
    (hend : c.virt.toNat % 2 ^ 48 + c.count.toNat * c.size.bytes ≤ 2 ^ 48) {w : UInt64}
    (hw : c.Covers w) :
    c.assign w = some (some (c.phys.toNat + (w.toNat % 2 ^ 48 - c.virt.toNat % 2 ^ 48))) := by
  have hin := (covers_iff hal hend w).1 hw
  rw [BootCall.assign, if_pos hw, BootCall.turn]
  refine congrArg (fun x ↦ some (some x)) ?_
  obtain ⟨s, virt, phys, count⟩ := c
  obtain ⟨hv, -⟩ := hal
  cases s with
  | small =>
    simp only [PageSize.pageNumber, PageSize.bytes, PageSize.pages] at hv hend hin ⊢
    omega
  | large =>
    simp only [PageSize.pageNumber, PageSize.bytes, PageSize.pages] at hv hend hin ⊢
    omega

/-! ### Images that can be loaded -/

/-- The addresses of the pages of a range that starts at a page boundary. -/
def pages (start size : ℕ) : Set ℕ := {a | start ≤ a ∧ a < start + span size}

/-- A `PT_LOAD` header of a file that can be loaded to `data`. -/
structure Phdr.Loadable (p : Phdr) (file : List UInt8) (data : UInt64) : Prop where
  /-- The virtual range starts at a page boundary. -/
  virt_aligned : p.vaddr.toNat % 4096 = 0
  /-- So does the physical one. -/
  phys_aligned : (data.toNat + p.paddr.toNat) % 4096 = 0
  /-- The part in the file is not longer than the one in memory. -/
  filesz_le : p.filesz.toNat ≤ p.memsz.toNat
  /-- The part in the file is in the file. -/
  inFile : p.offset.toNat + p.filesz.toNat ≤ file.length
  /-- The virtual range starts at or above 2 MiB. -/
  virt_low : 0x200000 ≤ p.vaddr.toNat
  /-- Unless it is empty, it lies in one of the two halves of the address space. -/
  canonical : p.memsz ≠ 0 → p.vaddr.toNat + p.memsz.toNat ≤ 2 ^ 47 ∨
    (2 ^ 64 - 2 ^ 47 ≤ p.vaddr.toNat ∧ p.vaddr.toNat + p.memsz.toNat ≤ 2 ^ 64)
  /-- The physical range starts at or above 1 MiB. -/
  phys_low : 0x100000 ≤ data.toNat + p.paddr.toNat
  /-- It ends in the physical address space. -/
  phys_end : data.toNat + p.paddr.toNat + p.memsz.toNat ≤ 2 ^ 52

/-- The byte that belongs at offset `b` of a segment. -/
def loadedByte (file : List UInt8) (p : Phdr) (b : ℕ) : UInt8 :=
  if b < p.filesz.toNat then file.getD (p.offset.toNat + b) 0 else 0

/-- Program header `i` of the file is one of a segment to load. -/
def IsSegment (file : List UInt8) (i : ℕ) : Prop :=
  i < fileCount file ∧ (filePhdr file i).type = ptLoad

/-- A file that can be loaded to `data`. -/
structure LoadableImage (file : List UInt8) (data : UInt64) : Prop where
  /-- The headers are in the file. -/
  headers : HasHeaders file
  /-- Every segment can be loaded. -/
  loadable : ∀ i, IsSegment file i → (filePhdr file i).Loadable file data
  /-- No two segments share a virtual page. -/
  virt_disjoint : ∀ i j, IsSegment file i → IsSegment file j → i ≠ j →
    Disjoint (pages (filePhdr file i).vaddr.toNat (filePhdr file i).memsz.toNat)
      (pages (filePhdr file j).vaddr.toNat (filePhdr file j).memsz.toNat)
  /-- No two segments share a physical page. -/
  phys_disjoint : ∀ i j, IsSegment file i → IsSegment file j → i ≠ j →
    Disjoint (pages (data.toNat + (filePhdr file i).paddr.toNat) (filePhdr file i).memsz.toNat)
      (pages (data.toNat + (filePhdr file j).paddr.toNat) (filePhdr file j).memsz.toNat)

namespace Phdr

variable {p q : Phdr} {file : List UInt8} {data : UInt64}

/-- The mapping call for a header. -/
def call (p : Phdr) (data : UInt64) : BootCall := segmentCall p.vaddr (data + p.paddr) p.memsz

namespace Loadable

variable (h : p.Loadable file data)
include h

theorem toNat_phys : (data + p.paddr).toNat = data.toNat + p.paddr.toNat := by
  have hend := h.phys_end
  rw [UInt64.toNat_add]
  omega

theorem call_spec : (p.call data).virt = p.vaddr ∧
    (p.call data).phys.toNat = data.toNat + p.paddr.toNat ∧
    (p.call data).Aligned ∧ (p.call data).count.toNat * (p.call data).size.bytes =
      span p.memsz.toNat := by
  have hphys := h.toNat_phys
  have hend := h.phys_end
  obtain ⟨hvirt, hp, hal, hcount⟩ := segmentCall_spec h.virt_aligned (hphys ▸ h.phys_aligned)
    (show p.memsz.toNat + 4095 < 2 ^ 64 by omega)
  exact ⟨hvirt, (congrArg UInt64.toNat hp).trans hphys, hal, hcount⟩

/-- The pages of the virtual range, modulo `2 ^ 48`. -/
theorem virt_end : p.vaddr.toNat % 2 ^ 48 + span p.memsz.toNat ≤ 2 ^ 48 ∧
    (p.memsz ≠ 0 → 0x200000 ≤ p.vaddr.toNat % 2 ^ 48) := by
  have hal := h.virt_aligned
  have hlow := h.virt_low
  have hlt := p.vaddr.toNat_lt
  rw [span]
  by_cases hzero : p.memsz = 0
  · rw [hzero]
    simp only [UInt64.toNat_zero, ne_eq, not_true_eq_false, false_implies, and_true]
    omega
  · have hcan := h.canonical hzero
    refine ⟨by omega, fun _ ↦ by omega⟩

theorem fits : (p.call data).Fits := by
  obtain ⟨-, hphys, -, hcount⟩ := h.call_spec
  have hend := h.phys_end
  have hal := h.phys_aligned
  have hvirt := h.virt_end.1
  rw [BootCall.Fits, hcount, hphys]
  refine ⟨by omega, ?_⟩
  rw [span]
  omega

theorem covers_iff (w : UInt64) : (p.call data).Covers w ↔
    p.vaddr.toNat % 2 ^ 48 ≤ w.toNat % 2 ^ 48 ∧
    w.toNat % 2 ^ 48 < p.vaddr.toNat % 2 ^ 48 + span p.memsz.toNat := by
  obtain ⟨hvirt, -, hal, hcount⟩ := h.call_spec
  have hend := h.virt_end.1
  have hiff := Loader.covers_iff hal (by rw [hvirt, hcount]; exact hend) w
  rw [hvirt, hcount] at hiff
  exact hiff

/-- A segment covers no low page. -/
theorem not_low {w : UInt64} (hw : (p.call data).Covers w) : ¬ pageOf w < 256 := by
  obtain ⟨hlow, hhigh⟩ := (h.covers_iff w).1 hw
  have hne : p.memsz ≠ 0 := by
    rintro hzero
    rw [hzero] at hhigh
    exact absurd hhigh (Nat.not_lt_of_le hlow)
  have hstart := h.virt_end.2 hne
  rw [pageOf]
  omega

/-- The addresses of a segment. -/
theorem toNat_addr {b : ℕ} (hb : b < p.memsz.toNat) :
    (p.vaddr + UInt64.ofNat b).toNat = p.vaddr.toNat + b ∧ Canonical (p.vaddr + UInt64.ofNat b) ∧
      (p.vaddr.toNat + b) % 2 ^ 48 = p.vaddr.toNat % 2 ^ 48 + b := by
  have hne : p.memsz ≠ 0 := by
    rintro hzero
    rw [hzero] at hb
    exact absurd hb (Nat.not_lt_zero b)
  have hcan := h.canonical hne
  have hlt := p.memsz.toNat_lt
  have hofNat : (UInt64.ofNat b).toNat = b := UInt64.toNat_ofNat_of_lt' (Nat.lt_trans hb hlt)
  have hsum : (p.vaddr + UInt64.ofNat b).toNat = p.vaddr.toNat + b := by
    rw [UInt64.toNat_add, hofNat]
    omega
  refine ⟨hsum, ?_, by omega⟩
  rw [Canonical, hsum]
  omega

/-- They are covered, and mapped to where they belong. -/
theorem assign_addr {b : ℕ} (hb : b < p.memsz.toNat) :
    (p.call data).Covers (p.vaddr + UInt64.ofNat b) ∧
      (p.call data).assign (p.vaddr + UInt64.ofNat b) =
        some (some (data.toNat + p.paddr.toNat + b)) := by
  obtain ⟨hsum, -, hmod⟩ := h.toNat_addr hb
  obtain ⟨hvirt, hphys, hal, hcount⟩ := h.call_spec
  have hcov : (p.call data).Covers (p.vaddr + UInt64.ofNat b) := by
    rw [h.covers_iff, hsum, hmod, span]
    omega
  refine ⟨hcov, ?_⟩
  rw [assign_eq hal (by rw [hvirt, hcount]; exact h.virt_end.1) hcov, hvirt, hphys, hsum, hmod,
    Nat.add_sub_cancel_left]

/-- Segments without a common virtual page cover no common address. -/
theorem not_covers_both (hq : q.Loadable file data)
    (hdisj : Disjoint (pages p.vaddr.toNat p.memsz.toNat) (pages q.vaddr.toNat q.memsz.toNat))
    {w : UInt64}
    (hp : (p.call data).Covers w) : ¬ (q.call data).Covers w := by
  intro hqw
  obtain ⟨hp₁, hp₂⟩ := (h.covers_iff w).1 hp
  obtain ⟨hq₁, hq₂⟩ := (hq.covers_iff w).1 hqw
  have hpne : p.memsz ≠ 0 := by
    rintro hzero
    rw [hzero] at hp₂
    exact absurd hp₂ (Nat.not_lt_of_le hp₁)
  have hqne : q.memsz ≠ 0 := by
    rintro hzero
    rw [hzero] at hq₂
    exact absurd hq₂ (Nat.not_lt_of_le hq₁)
  have hpcan := h.canonical hpne
  have hqcan := hq.canonical hqne
  have hpal := h.virt_aligned
  have hqal := hq.virt_aligned
  rw [span] at hp₂ hq₂
  -- in the same half the offsets modulo `2 ^ 48` are offsets from the same start
  have hpin : p.vaddr.toNat + (w.toNat % 2 ^ 48 - p.vaddr.toNat % 2 ^ 48) ∈
      pages p.vaddr.toNat p.memsz.toNat := by
    refine ⟨Nat.le_add_right _ _, ?_⟩
    rw [span]
    omega
  have hqin : p.vaddr.toNat + (w.toNat % 2 ^ 48 - p.vaddr.toNat % 2 ^ 48) ∈
      pages q.vaddr.toNat q.memsz.toNat := by
    show q.vaddr.toNat ≤ _ ∧ _ < q.vaddr.toNat + span q.memsz.toNat
    rw [span]
    constructor <;> omega
  exact Set.disjoint_left.1 hdisj hpin hqin

end Loadable

end Phdr

/-! ### The invariant -/

/-- The pages of low memory, where the second stage lives. -/
def lowPages : Set ℕ := {n | n < 256}

/-- What `setup_paging` leaves, as far as the loader is concerned: low memory is mapped to itself,
nothing else is mapped, and the tables and the heap are in low memory. -/
structure Prepared (B : Boot) (m : Machine) : Prop where
  /-- The invariant of the paging code. -/
  sound : (B.space lowPages).Sound m
  /-- Nothing else is mapped. -/
  low : ∀ w, m.look w ≠ none → pageOf w < 256

/-- The tables after the segments among the first `n` program headers have been mapped. -/
structure Mapped (B : Boot) (file : List UInt8) (data : UInt64) (n : ℕ) (m : Machine) : Prop where
  /-- The invariant of the paging code. -/
  sound : (B.space lowPages).Sound m
  /-- Nothing else is mapped. -/
  only : ∀ w, m.look w ≠ none →
    pageOf w < 256 ∨ ∃ j < n, IsSegment file j ∧ ((filePhdr file j).call data).Covers w
  /-- The segments are mapped to where they belong. -/
  placed : ∀ j < n, IsSegment file j → ∀ b < (filePhdr file j).memsz.toNat,
    m.translate ((filePhdr file j).vaddr + UInt64.ofNat b) =
      some (data.toNat + (filePhdr file j).paddr.toNat + b)

/-- The bytes of the segments among the first `n` program headers are in memory. -/
def Filled (file : List UInt8) (data : UInt64) (n : ℕ) (m : Machine) : Prop :=
  ∀ j < n, IsSegment file j → ∀ b < (filePhdr file j).memsz.toNat,
    m.mem (data.toNat + (filePhdr file j).paddr.toNat + b) = loadedByte file (filePhdr file j) b

variable {B : Boot} {file : List UInt8} {data : UInt64} {n : ℕ} {m : Machine}

theorem Prepared.mapped (h : Prepared B m) : Mapped B file data 0 m where
  sound := h.sound
  only := fun w hw ↦ Or.inl (h.low w hw)
  placed := fun j hj ↦ absurd hj (Nat.not_lt_zero j)

/-- A turn without a segment. -/
theorem Mapped.skip (h : Mapped B file data n m) (hn : ¬ IsSegment file n) :
    Mapped B file data (n + 1) m where
  sound := h.sound
  only := by
    intro w hw
    rcases h.only w hw with hlow | ⟨j, hj, hrest⟩
    · exact Or.inl hlow
    · exact Or.inr ⟨j, Nat.lt_succ_of_lt hj, hrest⟩
  placed := by
    intro j hj hseg
    rcases Nat.lt_succ_iff_lt_or_eq.1 hj with hlt | rfl
    · exact h.placed j hlt hseg
    · exact absurd hseg hn

theorem Filled.skip (h : Filled file data n m) (hn : ¬ IsSegment file n) :
    Filled file data (n + 1) m := by
  intro j hj hseg
  rcases Nat.lt_succ_iff_lt_or_eq.1 hj with hlt | rfl
  · exact h j hlt hseg
  · exact absurd hseg hn

/-- All tables are in low memory. -/
theorem table_lt (h : (B.space lowPages).Sound m) {t : ℕ} (ht : m.IsTable t) : t < 256 := by
  have hreg := h.tables t ht
  rw [Boot.page_pointer_space (Machine.isTable_lt ht)] at hreg
  exact hreg

/-- Writing above low memory keeps the tables. -/
theorem keepsTables_above (h : (B.space lowPages).Sound m) {base k : ℕ} (hbase : 0x100000 ≤ base)
    (f : ℕ → UInt8) : m.KeepsTables { m with mem := fillRun m.mem base f k } := by
  refine Machine.keepsTables_fillRun f fun i _ ht ↦ ?_
  have hlt := table_lt h ht
  omega

theorem Mapped.fill (h : Mapped B file data n m) {base k : ℕ} (hbase : 0x100000 ≤ base)
    (f : ℕ → UInt8) :
    Mapped B file data n { m with mem := fillRun m.mem base f k } where
  sound := h.sound.keeps (keepsTables_above h.sound hbase f) rfl
  only := fun w hw ↦ h.only w (by rwa [(keepsTables_above h.sound hbase f).look] at hw)
  placed := fun j hj hseg b hb ↦
    ((keepsTables_above h.sound hbase f).translate _).trans (h.placed j hj hseg b hb)

section Step

variable (himage : LoadableImage file data)
include himage

/-- Mapping a segment, which shares no page with those mapped before. -/
theorem Mapped.wp_map (h : Mapped B file data n m) (hfilled : Filled file data n m)
    (hseg : IsSegment file n) :
    (B.perform ((filePhdr file n).call data)).wp Event.Allocates
      (fun _ m' ↦ Mapped B file data (n + 1) m' ∧ Filled file data n m') m := by
  have hload := himage.loadable n hseg
  obtain ⟨-, -, hal, -⟩ := hload.call_spec
  have hother : ∀ j < n, IsSegment file j → ∀ w, ((filePhdr file n).call data).Covers w →
      ¬ ((filePhdr file j).call data).Covers w := fun j hj hjseg w hw ↦
    hload.not_covers_both (himage.loadable j hjseg)
      (himage.virt_disjoint n j hseg hjseg (Nat.ne_of_gt hj)) hw
  -- nothing is mapped in the range yet
  have hnone : ∀ w, ((filePhdr file n).call data).Covers w → m.look w = none := by
    intro w hw
    by_contra hlook
    rcases h.only w hlook with hlow | ⟨j, hj, hjseg, hcov⟩
    · exact hload.not_low hw hlow
    · exact hother j hj hjseg w hw hcov
  refine Exec.wp_mono (Boot.wp_call h.sound hal hload.fits (fun w hw l hl ↦ ?_) fun w hw hcov ↦ ?_)
    fun _ m' hm' ↦ ⟨⟨hm'.sound, fun w hw ↦ ?_, fun j hj hjseg b hb ↦ ?_⟩, fun j hj hjseg b hb ↦ ?_⟩
  · rw [hnone w hw] at hl
    exact absurd hl (by simp)
  · refine absurd ?_ (hload.not_low hcov)
    rw [pageOf]
    exact Nat.lt_of_le_of_lt (Nat.mod_le _ _) hw
  · rw [hm'.look, BootCall.leafOf] at hw
    split at hw
    · next hcov => exact Or.inr ⟨n, Nat.lt_succ_self n, hseg, hcov⟩
    · rcases h.only w hw with hlow | ⟨j, hj, hrest⟩
      · exact Or.inl hlow
      · exact Or.inr ⟨j, Nat.lt_succ_of_lt hj, hrest⟩
  · rcases Nat.lt_succ_iff_lt_or_eq.1 hj with hlt | rfl
    · rw [← h.placed j hlt hjseg b hb]
      refine Machine.translate_congr_of_look ?_
      rw [hm'.look, BootCall.leafOf, if_neg fun hcov ↦ hother j hlt hjseg _ hcov
        ((himage.loadable j hjseg).assign_addr hb).1, Option.getD_none]
    · obtain ⟨-, hassign⟩ := hload.assign_addr hb
      obtain ⟨-, hcan, -⟩ := hload.toNat_addr hb
      rw [Machine.translate_eq hcan, hm'.look, BootCall.bind_leafOf hal hload.fits, hassign,
        Option.getD_some]
  · rw [← hfilled j hj hjseg b hb]
    by_contra hchanged
    obtain ⟨p, -, hp⟩ := hm'.changed _ hchanged
    have hlt := table_lt hm'.sound ⟨p, hp⟩
    have hlow := (himage.loadable j hjseg).phys_low
    omega

/-- Writing the bytes of a segment does not reach the segments before. -/
theorem Filled.fill (h : Filled file data n m) (hseg : IsSegment file n) {base o k : ℕ}
    (hbase : base = data.toNat + (filePhdr file n).paddr.toNat + o)
    (hk : o + k ≤ (filePhdr file n).memsz.toNat) (f : ℕ → UInt8) :
    Filled file data n { m with mem := fillRun m.mem base f k } := by
  intro j hj hjseg b hb
  have hdisj := himage.phys_disjoint j n hjseg hseg (Nat.ne_of_lt hj)
  refine (fillRun_of_not_mem ?_).trans (h j hj hjseg b hb)
  by_contra hin
  have hfirst : data.toNat + (filePhdr file j).paddr.toNat + b ∈
      pages (data.toNat + (filePhdr file j).paddr.toNat) (filePhdr file j).memsz.toNat := by
    refine ⟨Nat.le_add_right _ _, ?_⟩
    rw [span]
    omega
  have hsecond : data.toNat + (filePhdr file j).paddr.toNat + b ∈
      pages (data.toNat + (filePhdr file n).paddr.toNat) (filePhdr file n).memsz.toNat := by
    refine ⟨by omega, ?_⟩
    rw [span]
    omega
  exact Set.disjoint_left.1 hdisj hfirst hsecond

end Step

end Aidos.Loader
