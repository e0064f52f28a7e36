import Aidos.Paging.MixedPages
import Aidos.Paging.TlbCoherence

/-!
# The kernel's 2 MiB pages

`map_2m` and `unmap_2m` of the kernel step through their ranges by 4 KiB, as `map_4k` and `unmap_4k`
do, where `map_2m` of the bootloader steps by 2 MiB. A call for `count` pages reaches the first
`(count + 511) / 512` of them only, and stores up to 512 entries over one another, each 4 KiB
further. So a call does what it is for if it is for one page or none (`Admits.mapsRange_iff`): the
last of two or more pages is left as it is, and either it was not mapped before, or `unmap_2m`
leaves it mapped.
-/

namespace Aidos.Paging

/-- The address is one of the `count * 2 MiB` addresses from `virt` on, modulo `2 ^ 48`. -/
def InLargeRange (virt count w : UInt64) : Prop :=
  ∃ d < count.toNat * 2 ^ 21, (virt + UInt64.ofNat d).toNat % 2 ^ 48 = w.toNat % 2 ^ 48

/-- `map_2m(virt, phys, count)` has taken `m` to `m'`, and its range is mapped as it should be. -/
structure Kernel.MapsRange (K : Kernel) (virt phys count : UInt64) (m m' : Machine) : Prop where
  /-- Every address of the range walks to its place in the physical range, through the entry of a
  page directory with `PAGE_PSE` and an aligned frame. -/
  covered : ∀ d < count.toNat * 2 ^ 21, ∃ e, m'.look (virt + UInt64.ofNat d) = some (2, e) ∧
    large e = true ∧ frameOf e % 512 = 0 ∧ m'.walk (virt + UInt64.ofNat d) = some (phys.toNat + d)
  /-- All other addresses keep their translation. -/
  others : ∀ w, ¬ InLargeRange virt count w → m'.walk w = m.walk w
  /-- The bootloader's `map_2m` gives the addresses of the range the same leaves, on any tables of
  its own that the call is compatible with. -/
  boot : ∀ (B : Boot) (mb : Machine), B.Serving mb → B.Compatible mb ⟨.large, virt, phys, count⟩ →
    (B.map2m virt phys count).wp Event.Allocates
      (fun _ mb' ↦ ∀ w, InLargeRange virt count w → mb'.look w = m'.look w) mb
  /-- A following `unmap_2m` makes exactly the addresses of the range not present. -/
  unmapped : ∃ m'' es, (K.unmap2m virt count).run m' = ⟨some (), m'', es⟩ ∧
    (∀ w, InLargeRange virt count w → m''.look w = none) ∧
    ∀ w, ¬ InLargeRange virt count w → m''.look w = m'.look w

/-! ### The pages that the loops reach -/

section Range

variable {virt count w : UInt64}

/-- A page that the loops reach is in the range. -/
theorem inLargeRange_of_covers (hvirt : virt.toNat % 2 ^ 21 = 0)
    (h : (UnmapCall.unmap2m virt count).Covers w) : InLargeRange virt count w := by
  obtain ⟨i, hi, hpre⟩ := h
  have hi' : i < count.toNat := hi
  have hlt := count.toNat_lt
  have hpage : pageOf (rangePage virt i) / 512 = pageOf w / 512 := prefix_pathOf_iff.1 hpre
  rw [rangePage, pageOf_and_not_fff, pageOf_page virt (by omega)] at hpage
  refine ⟨i / 512 * 2 ^ 21 + w.toNat % 2 ^ 21, by omega, ?_⟩
  rw [UInt64.toNat_add, UInt64.toNat_ofNat']
  simp only [pageOf] at hpage
  omega

/-- For at most one page the loops reach the whole range. -/
theorem covers_of_inLargeRange (hvirt : virt.toNat % 2 ^ 21 = 0) (hcount : count.toNat ≤ 1)
    (h : InLargeRange virt count w) : (UnmapCall.unmap2m virt count).Covers w := by
  obtain ⟨d, hd, heq⟩ := h
  refine ⟨0, show 0 < count.toNat by omega, prefix_pathOf_iff.2 ?_⟩
  rw [UInt64.toNat_add, UInt64.toNat_ofNat'] at heq
  show pageOf (rangePage virt 0) / 512 = pageOf w / 512
  rw [rangePage, pageOf_and_not_fff, pageOf_page virt (by omega)]
  simp only [pageOf]
  omega

/-- The last of two or more pages is in the range, but the loops do not reach it. -/
theorem not_covers_last (hvirt : virt.toNat % 2 ^ 21 = 0) (htwo : 2 ≤ count.toNat)
    (hcount : count.toNat ≤ 2 ^ 27) :
    ¬ (UnmapCall.unmap2m virt count).Covers (virt + UInt64.ofNat ((count.toNat - 1) * 2 ^ 21)) := by
  rintro ⟨i, hi, hpre⟩
  have hi' : i < count.toNat := hi
  have hlt := count.toNat_lt
  have hpage := prefix_pathOf_iff.1 hpre
  have hpage' : pageOf (rangePage virt i) / 512 =
      pageOf (virt + UInt64.ofNat ((count.toNat - 1) * 2 ^ 21)) / 512 := hpage
  rw [rangePage, pageOf_and_not_fff, pageOf_page virt (by omega)] at hpage'
  simp only [pageOf] at hpage'
  rw [UInt64.toNat_add, UInt64.toNat_ofNat'] at hpage'
  omega

theorem rangePage_zero (hvirt : virt.toNat % 4096 = 0) : rangePage virt 0 = virt := by
  refine UInt64.toNat_inj.1 ?_
  have hlt := virt.toNat_lt
  rw [rangePage, Space.toNat_and_not_fff, toNat_page virt (by omega)]
  omega

end Range

/-- The walk takes addresses modulo `2 ^ 48`. -/
theorem Machine.walk_congr {m : Machine} {v w : UInt64} (h : v.toNat % 2 ^ 48 = w.toNat % 2 ^ 48) :
    m.walk v = m.walk w := by
  have hpage : pageOf v = pageOf w := by
    simp only [pageOf]
    omega
  have hlook : m.look v = m.look w := by
    rw [Machine.look, Machine.look, lookAt, lookAt, pathOf_eq_iff.2 hpage]
  have hphys : physical v = physical w := by
    funext l
    rw [physical, physical]
    rcases hl : leafPage l with _ | ⟨size, base⟩
    · rfl
    · obtain ⟨rfl | rfl | rfl, -, -⟩ := leafPage_shape hl
      all_goals
        rw [Option.map_some, Option.map_some, Option.some_inj]
        dsimp only
        omega
  rw [Machine.walk_eq, Machine.walk_eq, hlook, hphys]

/-! ### The calls -/

/-- What an entry of `map_2m` looks like. -/
theorem largeEntry_fields {pa : UInt64} (hpa : pa.toNat % 4096 = 0) :
    large (PageSize.large.entry pa) = true ∧ frameOf (PageSize.large.entry pa) = frameOf pa := by
  rw [PageSize.large_entry]
  exact ⟨large_or_flags hpa (by decide), frameOf_or_flags hpa (by decide)⟩

namespace Kernel

variable {K : Kernel} {S : Space} {m m' : Machine} {virt phys count : UInt64}

/-- What a call of `map_2m` finds: a page-table state of the kernel, and a range away from the pages
of its tables and its heap, in which there is no page of 1 GiB. -/
structure Admits (K : Kernel) (S : Space) (m : Machine) (virt count : UInt64) : Prop where
  /-- The kernel can run. -/
  serves : K.Serves S m
  /-- Tables are allocated from its heap. -/
  heap : S.heap = K.heap
  /-- The range is away from the pages of the tables and the heap. -/
  away : ∀ w : UInt64, w.toNat / 4096 ∈ S.region → ¬ InLargeRange virt count w
  /-- There are no larger pages in the range than those of `map_2m`. -/
  sizes : ∀ w, InLargeRange virt count w → ∀ l, m.look w = some l → 2 ≤ l.1

theorem Admits.away_covers (h : K.Admits S m virt count) (hvirt : virt.toNat % 2 ^ 21 = 0) :
    (UnmapCall.unmap2m virt count).Away S :=
  fun w hw hcov ↦ h.away w hw (inLargeRange_of_covers hvirt hcov)

theorem Admits.fits (h : K.Admits S m virt count) (hvirt : virt.toNat % 2 ^ 21 = 0) :
    (UnmapCall.unmap2m virt count).Fits m :=
  fun w l hcov hl ↦ h.sizes w (inLargeRange_of_covers hvirt hcov) l hl

/-- `map_2m` places its entries, one in each turn. -/
theorem Admits.wp_map2m (h : K.Admits S m virt count) (hvirt : virt.toNat % 2 ^ 21 = 0) :
    (K.map2m virt phys count).wp Event.Allocates (fun _ ↦ S.Stage 2 m (Space.overlay 2
      (rangePage virt) (fun i ↦ PageSize.large.entry (rangePage phys i)) m.look count.toNat))
        m := by
  refine Space.Stage.loop h.serves.sound fun i hi m' hm' ↦ ?_
  have hcov := (UnmapCall.unmap2m virt count).covers_turn hi
  rw [← h.serves.pml4]
  refine hm'.sound.wp_place2m ?_
    (child_of_large (largeEntry_fields (toNat_rangePage_mod phys i)).1) (fun l hl ↦ ?_)
    fun w hw hpre ↦ absurd ⟨i, hi, hpre⟩ (h.away_covers hvirt w hw)
  · rw [hm'.kernelOffset, h.serves.offset]
    exact getsTable h.heap
  · rw [hm'.look] at hl
    exact (Space.overlay_cases hl).elim (h.fits hvirt _ l hcov) Eq.ge

/-- The state after `map_2m` still serves the kernel, and `unmap_2m` does its part in it. -/
theorem Admits.unmap (h : K.Admits S m virt count) (hvirt : virt.toNat % 2 ^ 21 = 0)
    (hm' : S.Stage 2 m (Space.overlay 2 (rangePage virt)
      (fun i ↦ PageSize.large.entry (rangePage phys i)) m.look count.toNat) m') :
    ∃ m'' es, (K.unmap2m virt count).run m' = ⟨some (), m'', es⟩ ∧
      (∀ w, (UnmapCall.unmap2m virt count).Covers w → m''.look w = none) ∧
      ∀ w, ¬ (UnmapCall.unmap2m virt count).Covers w → m''.look w = m'.look w := by
  have hserves : K.Serves S m' :=
    ⟨hm'.sound, hm'.kernelOffset.trans h.serves.offset, h.serves.pml4, h.serves.zero⟩
  have hfits : (UnmapCall.unmap2m virt count).Fits m' := by
    intro w l hcov hl
    rw [hm'.look] at hl
    exact (Space.overlay_cases hl).elim (h.fits hvirt w l hcov) Eq.ge
  obtain ⟨_, m'', es, hrun, hlook⟩ :=
    Exec.exists_run_of_wp (UnmapCall.wp_prog hserves (h.away_covers hvirt) hfits)
  exact ⟨m'', es, hrun, hlook⟩

/-- A call for two or more pages leaves the last one as it is. -/
theorem Admits.not_mapsRange (h : K.Admits S m virt count) (hvirt : virt.toNat % 2 ^ 21 = 0)
    (htwo : 2 ≤ count.toNat)
    (hm' : S.Stage 2 m (Space.overlay 2 (rangePage virt)
      (fun i ↦ PageSize.large.entry (rangePage phys i)) m.look count.toNat) m') :
    ¬ K.MapsRange virt phys count m m' := by
  intro hmaps
  rcases Nat.lt_or_ge (2 ^ 27) count.toNat with hlong | hshort
  · -- the range covers an address twice
    have hpos : 0 < count.toNat * 2 ^ 21 := by omega
    have hfar : 2 ^ 48 < count.toNat * 2 ^ 21 := by omega
    obtain ⟨_, -, -, -, hfirst⟩ := hmaps.covered 0 hpos
    obtain ⟨_, -, -, -, hagain⟩ := hmaps.covered (2 ^ 48) hfar
    have hsame : (virt + UInt64.ofNat 0).toNat % 2 ^ 48 =
        (virt + UInt64.ofNat (2 ^ 48)).toNat % 2 ^ 48 := by
      rw [UInt64.toNat_add, UInt64.toNat_add, UInt64.toNat_ofNat', UInt64.toNat_ofNat']
      omega
    rw [Machine.walk_congr hsame, hagain] at hfirst
    exact absurd (Option.some.inj hfirst) (by omega)
  · -- the last page is neither mapped nor unmapped
    have hlast := not_covers_last hvirt htwo hshort
    obtain ⟨e, hlook, -⟩ := hmaps.covered ((count.toNat - 1) * 2 ^ 21) (by omega)
    have hin : InLargeRange virt count (virt + UInt64.ofNat ((count.toNat - 1) * 2 ^ 21)) :=
      ⟨_, by omega, rfl⟩
    obtain ⟨m₁, es₁, hrun₁, hgone, -⟩ := hmaps.unmapped
    obtain ⟨m₂, es₂, hrun₂, -, hkeep⟩ := h.unmap hvirt hm'
    obtain ⟨-, rfl, -⟩ := Outcome.mk.inj (hrun₁.symm.trans hrun₂)
    have hnone := hgone _ hin
    rw [hkeep _ hlast, hlook] at hnone
    exact absurd hnone (by simp)

/-- After a call for at most one page. -/
theorem look_map2m (hvirt : virt.toNat % 2 ^ 21 = 0) (hphys : phys.toNat % 2 ^ 21 = 0)
    (hcount : count.toNat ≤ 1)
    (hm' : S.Stage 2 m (Space.overlay 2 (rangePage virt)
      (fun i ↦ PageSize.large.entry (rangePage phys i)) m.look count.toNat) m') (w : UInt64) :
    (InLargeRange virt count w → m'.look w =
      if x86.leaf 2 (PageSize.large.entry phys) then some (2, PageSize.large.entry phys)
      else none) ∧
    (¬ InLargeRange virt count w → m'.look w = m.look w) := by
  constructor
  · intro hin
    obtain ⟨i, hi, hpre⟩ := covers_of_inLargeRange hvirt hcount hin
    have hi' : i < count.toNat := hi
    obtain rfl : i = 0 := by omega
    have hsame : ∀ j < count.toNat, (pathOf (rangePage virt j)).take 3 <+: pathOf w →
        PageSize.large.entry (rangePage phys j) = PageSize.large.entry (rangePage phys 0) := by
      intro j hj _
      obtain rfl : j = 0 := by omega
      rfl
    have hpre' : (pathOf (rangePage virt 0)).take 3 <+: pathOf w := hpre
    rw [hm'.look, Space.overlay_of_covered (rangePage virt)
      (fun i ↦ PageSize.large.entry (rangePage phys i)) hi' hpre' hsame, rangePage_zero (by omega)]
  · intro hout
    rw [hm'.look]
    exact Space.overlay_of_not_covered fun j hj hpre ↦
      hout (inLargeRange_of_covers hvirt ⟨j, hj, hpre⟩)

/-- The bootloader's call for one page. -/
theorem leafOf_of_one (hvirt : virt.toNat % 2 ^ 21 = 0) (hcount : count.toNat ≤ 1) {w : UInt64}
    (hin : InLargeRange virt count w) :
    BootCall.leafOf ⟨.large, virt, phys, count⟩ w = some (some (2, PageSize.large.entry phys)) := by
  obtain ⟨i, hi, hpre⟩ := covers_of_inLargeRange hvirt hcount hin
  have hi' : i < count.toNat := hi
  obtain rfl : i = 0 := by omega
  have hpre' : (pathOf (rangePage virt 0)).take 3 <+: pathOf w := hpre
  rw [rangePage_zero (by omega)] at hpre'
  have hzero : ∀ x : UInt64, x + UInt64.ofNat 0 * pageSize2m = x := by
    intro x
    rw [show UInt64.ofNat 0 = 0 from rfl, UInt64.zero_mul, UInt64.add_zero]
  have hva : BootCall.va ⟨.large, virt, phys, count⟩ 0 = virt := hzero virt
  have hpa : BootCall.pa ⟨.large, virt, phys, count⟩ 0 = phys := hzero phys
  have hcov : BootCall.Covers ⟨.large, virt, phys, count⟩ w :=
    BootCall.covers_iff.1 ⟨0, hi', by rw [hva]; exact hpre'⟩
  have hturn : BootCall.turn ⟨.large, virt, phys, count⟩ w = 0 := by
    have hlt : BootCall.turn ⟨.large, virt, phys, count⟩ w < count.toNat := hcov
    omega
  rw [BootCall.leafOf, if_pos hcov, hturn, hpa]
  rfl

/-- A call for one page, below the end of the physical address space, or for none. -/
theorem Admits.mapsRange (h : K.Admits S m virt count) (hvirt : virt.toNat % 2 ^ 21 = 0)
    (hphys : phys.toNat % 2 ^ 21 = 0)
    (hcount : count.toNat = 0 ∨ count.toNat = 1 ∧ phys.toNat < 2 ^ 52)
    (hm' : S.Stage 2 m (Space.overlay 2 (rangePage virt)
      (fun i ↦ PageSize.large.entry (rangePage phys i)) m.look count.toNat) m') :
    K.MapsRange virt phys count m m' := by
  have hone : count.toNat ≤ 1 := by omega
  have hlook := look_map2m hvirt hphys hone hm'
  have hentry : ∀ w, InLargeRange virt count w → phys.toNat < 2 ^ 52 ∧
      m'.look w = some (2, PageSize.large.entry phys) := by
    intro w hin
    have hlt : phys.toNat < 2 ^ 52 := by
      obtain ⟨d, hd, -⟩ := hin
      omega
    refine ⟨hlt, ?_⟩
    have hleaf : x86.leaf 2 (PageSize.large.entry phys) = true :=
      (PageSize.large.entry_fields hphys hlt w).2.1
    rw [(hlook w).1 hin, if_pos hleaf]
  refine ⟨fun d hd ↦ ?_, fun w hout ↦ ?_, fun B mb hmb hc ↦ ?_, ?_⟩
  · obtain ⟨hlt, hleaf⟩ := hentry _ ⟨d, hd, rfl⟩
    have hpage : phys.toNat % 4096 = 0 := by omega
    obtain ⟨hlarge, hframe⟩ := largeEntry_fields hpage
    refine ⟨_, hleaf, hlarge, ?_, ?_⟩
    · rw [hframe, frameOf]
      omega
    · have hoff : (virt + UInt64.ofNat d).toNat % 2 ^ 21 = d := by
        rw [UInt64.toNat_add, UInt64.toNat_ofNat']
        omega
      have hwalk : physical (virt + UInt64.ofNat d) (2, PageSize.large.entry phys) =
          some (phys.toNat + (virt + UInt64.ofNat d).toNat % 2 ^ 21) :=
        (PageSize.large.entry_fields hphys hlt _).2.2
      rw [Machine.walk_eq, hleaf, Option.bind_some, hwalk, hoff]
  · rw [Machine.walk_eq, Machine.walk_eq, (hlook w).2 hout]
  · have hcall : (B.map2m virt phys count).wp Event.Allocates _ mb :=
      Boot.wp_call hmb.tight ⟨hvirt, hphys⟩ hc.fits (fun w _ l hl ↦ hmb.sizes w l hl) hc.stays
    refine Exec.wp_mono hcall fun _ mb' hmb' w hin ↦ ?_
    rw [hmb'.look, leafOf_of_one hvirt hone hin, (hentry w hin).2, Option.getD_some]
  · obtain ⟨m'', es, hrun, hgone, hkeep⟩ := h.unmap hvirt hm'
    exact ⟨m'', es, hrun, fun w hin ↦ hgone w (covers_of_inLargeRange hvirt hone hin),
      fun w hout ↦ hkeep w fun hcov ↦ hout (inLargeRange_of_covers hvirt hcov)⟩

/-- **The kernel's 2 MiB mappings.** A call of `map_2m` during which no allocation fails returns,
and it does what it is for if and only if it is for no page, or for one page below `2 ^ 52`. -/
theorem Admits.mapsRange_iff (h : K.Admits S m virt count) (hvirt : virt.toNat % 2 ^ 21 = 0)
    (hphys : phys.toNat % 2 ^ 21 = 0)
    (hev : ∀ e ∈ ((K.map2m virt phys count).run m).events, e.Allocates) :
    ∃ m' es, (K.map2m virt phys count).run m = ⟨some (), m', es⟩ ∧
      (K.MapsRange virt phys count m m' ↔
        count.toNat = 0 ∨ count.toNat = 1 ∧ phys.toNat < 2 ^ 52) := by
  obtain ⟨_, hvalue, hm'⟩ := h.wp_map2m hvirt hev
  refine ⟨_, _, Exec.run_eq_of_value hvalue, fun hmaps ↦ ?_, fun hcount ↦
    h.mapsRange hvirt hphys hcount hm'⟩
  rcases Nat.lt_or_ge count.toNat 2 with hone | htwo
  · rcases Nat.lt_or_ge count.toNat 1 with hzero | hpos
    · exact Or.inl (by omega)
    · obtain ⟨_, -, -, -, hwalk⟩ := hmaps.covered 0 (by omega)
      obtain ⟨l, -, hphysical⟩ := Option.bind_eq_some_iff.1 hwalk
      have hlt := physical_lt hphysical
      exact Or.inr ⟨by omega, by omega⟩
  · exact absurd hmaps (h.not_mapsRange hvirt htwo hm')

/-! ### Above the image of the small kernel -/

/-- Up to two pages from the second 2 MiB of the upper half on. -/
theorem admits_small {count : UInt64} (hcount : count.toNat ≤ 2) :
    small.Admits ready_smallMachine.space smallMachine 0xFFFF800000200000 count where
  serves := small_smallMachine.serves
  heap := rfl
  away := by
    rintro w ⟨⟨hlow, hend⟩, -⟩ ⟨d, hd, heq⟩
    have hlow' : 0xFFFF800000000 ≤ w.toNat / 4096 := hlow
    have hend' : w.toNat / 4096 * 4096 < 0xFFFF800000011000 := hend
    have hvirt : (0xFFFF800000200000 : UInt64).toNat = 0xFFFF800000200000 := rfl
    rw [UInt64.toNat_add, UInt64.toNat_ofNat', hvirt] at heq
    omega
  sizes := fun w _ l hl ↦ Nat.le_trans (by decide) (small_smallMachine.bottom w l hl).ge

theorem mapsRange_iff_small :
    ∃ m' es, (small.map2m 0xFFFF800000200000 0x400000 1).run smallMachine = ⟨some (), m', es⟩ ∧
      small.MapsRange 0xFFFF800000200000 0x400000 1 smallMachine m' := by
  have hev : ∀ e ∈ ((small.map2m 0xFFFF800000200000 0x400000 1).run smallMachine).events,
      e.Allocates := by
    decide +kernel
  obtain ⟨m', es, hrun, hiff⟩ :=
    (admits_small (by decide)).mapsRange_iff (by decide) (by decide) hev
  exact ⟨m', es, hrun, hiff.2 (Or.inr ⟨by decide, by decide⟩)⟩

/-- A call for two pages stores `0x400083` and then `0x401083` for the first one, and nothing for
the second one. -/
theorem map_2m_misses_second_page :
    (small.Admits ready_smallMachine.space smallMachine 0xFFFF800000200000 2 ∧
      (∀ e ∈ ((small.map2m 0xFFFF800000200000 0x400000 2).run smallMachine).events, e.Allocates) ∧
      ((small.map2m 0xFFFF800000200000 0x400000 2).run smallMachine).state.look 0xFFFF800000200000 =
        some (2, 0x401083) ∧
      ((small.map2m 0xFFFF800000200000 0x400000 2).run smallMachine).state.look 0xFFFF800000400000 =
        none) ∧
    ¬ small.MapsRange 0xFFFF800000200000 0x400000 2 smallMachine
      ((small.map2m 0xFFFF800000200000 0x400000 2).run smallMachine).state := by
  have hruns : (∀ e ∈ ((small.map2m 0xFFFF800000200000 0x400000 2).run smallMachine).events,
        e.Allocates) ∧
      ((small.map2m 0xFFFF800000200000 0x400000 2).run smallMachine).state.look 0xFFFF800000200000 =
        some (2, 0x401083) ∧
      ((small.map2m 0xFFFF800000200000 0x400000 2).run smallMachine).state.look 0xFFFF800000400000 =
        none := by
    decide +kernel
  have hadmits : small.Admits ready_smallMachine.space smallMachine 0xFFFF800000200000 2 :=
    admits_small (by decide)
  obtain ⟨_, -, hm'⟩ := hadmits.wp_map2m (by decide) hruns.1
  exact ⟨⟨hadmits, hruns⟩, hadmits.not_mapsRange (by decide) (by decide) hm'⟩

end Kernel

end Aidos.Paging
