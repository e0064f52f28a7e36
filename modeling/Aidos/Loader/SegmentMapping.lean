import Aidos.Loader.LoadedImage

/-!
# Mapping a segment that is not page aligned

`readElf` rounds the number of pages up from the size of the segment alone, and maps them from the
virtual and the physical start as they are. A segment that starts inside a page may end in one page
more than its size takes, and that page is not mapped. The offset in the page is in the entries as
well, where it meets the flag bits.

`mapSegment_maps_iff` says when the mapping step does what it is for: an empty segment; or the range
is one of canonical and of physical addresses, the offset has no bits but those of `PAGE_PRESENT`
and `PAGE_RW`, and the bytes behind the pages that are mapped were in place before.
-/

namespace Aidos.Paging

/-! ### Entries of any address -/

/-- The flag bits that the mapping routines mean to set. -/
def PageSize.flags : PageSize → ℕ
  | .small => 3
  | .large => 0x83

/-- An entry for the page of an address: with the flag bits, if the address has none that differ. -/
theorem PageSize.entry_flags (s : PageSize) {pa : UInt64}
    (hlarge : s = .large → pa.toNat % 4096 = 0) :
    (s.entry pa).toNat % 4096 = s.flags ↔ pa.toNat % 4096 < 4 := by
  cases s with
  | small =>
    show (presentRw pa).toNat % 4096 = 3 ↔ _
    rw [presentRw_mod]
    constructor
    · intro h
      exact Nat.lt_succ_of_le (h ▸ Nat.left_le_or)
    · intro h
      generalize pa.toNat % 4096 = o at h ⊢
      have hall : ∀ o < 4, o ||| 3 = 3 := by decide
      exact hall o h
  | large =>
    have hpa := hlarge rfl
    rw [large_entry, toNat_or_flags hpa (by decide), hpa]
    refine iff_of_true ?_ (by decide)
    show (pa.toNat + 0x83) % 4096 = 0x83
    omega

namespace BootCall

variable {c : BootCall} {b : ℕ}

/-- The call starts inside a 4 KiB page at the same offset on both sides, or at 2 MiB boundaries. -/
def Congruent (c : BootCall) : Prop :=
  c.virt.toNat % 4096 = c.phys.toNat % 4096 ∧
    (c.size = .large → c.virt.toNat % 0x200000 = 0 ∧ c.phys.toNat % 0x200000 = 0)

/-- The turn that reaches an address behind the start. -/
theorem turn_add (hb : c.virt.toNat % c.size.bytes + b < 2 ^ 48) :
    c.turn (c.virt + UInt64.ofNat b) = (c.virt.toNat % c.size.bytes + b) / c.size.bytes := by
  obtain ⟨s, virt, phys, count⟩ := c
  have hlt := virt.toNat_lt
  have hof : (UInt64.ofNat b).toNat = b :=
    UInt64.toNat_ofNat'.trans (Nat.mod_eq_of_lt (by omega))
  rw [turn, PageSize.pageNumber, PageSize.pageNumber, UInt64.toNat_add, hof]
  cases s with
  | small =>
    simp only [PageSize.bytes, PageSize.pages] at hb ⊢
    omega
  | large =>
    simp only [PageSize.bytes, PageSize.pages] at hb ⊢
    omega

/-- All turns have the same offset. -/
theorem pa_offset (i : ℕ) : (c.pa i).toNat % 4096 = c.phys.toNat % 4096 := by
  rw [pa, UInt64.toNat_add, UInt64.toNat_mul, c.size.toNat_stride]
  cases c.size with
  | small =>
    simp only [PageSize.bytes]
    omega
  | large =>
    simp only [PageSize.bytes]
    omega

theorem pa_mod (hc : c.Congruent) (i : ℕ) (hlarge : c.size = .large) :
    (c.pa i).toNat % 4096 = 0 := by
  have hphys := (hc.2 hlarge).2
  rw [pa_offset]
  omega

/-- What the entry of a turn gives to an address of its page. -/
theorem physical_add (hc : c.Congruent) (hb : c.virt.toNat % c.size.bytes + b < 2 ^ 48)
    (hend : c.phys.toNat + b < 2 ^ 52) :
    physical (c.virt + UInt64.ofNat b)
      (c.size.depth, c.size.entry (c.pa (c.turn (c.virt + UInt64.ofNat b)))) =
        some (c.phys.toNat + b) := by
  rw [turn_add hb]
  have hlt := c.virt.toNat_lt
  have hphys := c.phys.toNat_lt
  have hof : (UInt64.ofNat b).toNat = b :=
    UInt64.toNat_ofNat'.trans (Nat.mod_eq_of_lt (by omega))
  have hsum : (c.virt + UInt64.ofNat b).toNat = (c.virt.toNat + b) % 2 ^ 64 := by
    rw [UInt64.toNat_add, hof]
  obtain ⟨s, virt, phys, count⟩ := c
  cases s with
  | small =>
    obtain ⟨hcong, -⟩ := hc
    simp only [PageSize.bytes] at hb hcong hend hsum hlt hphys ⊢
    have hpa := toNat_pa_of_lt (c := ⟨.small, virt, phys, count⟩)
      (i := (virt.toNat % 4096 + b) / 4096) (by simp only [PageSize.bytes]; omega)
    simp only [PageSize.bytes] at hpa
    show physical _ (3, presentRw _) = _
    rw [(physical_presentRw _ _).2, frameOf, hpa, hsum]
    refine congrArg some ?_
    omega
  | large =>
    obtain ⟨-, hlarge⟩ := hc
    obtain ⟨hvirt, hphys'⟩ := hlarge rfl
    simp only [PageSize.bytes] at hb hend hsum hlt hphys hvirt hphys' ⊢
    have hpa := toNat_pa_of_lt (c := ⟨.large, virt, phys, count⟩)
      (i := (virt.toNat % 0x200000 + b) / 0x200000) (by simp only [PageSize.bytes]; omega)
    simp only [PageSize.bytes] at hpa
    have hmod : (pa ⟨.large, virt, phys, count⟩ ((virt.toNat % 0x200000 + b) / 0x200000)).toNat %
        PageSize.large.bytes = 0 := by
      rw [hpa]
      simp only [PageSize.bytes]
      omega
    rw [(PageSize.large.entry_fields hmod (by rw [hpa]; omega) _).2.2, hpa, hsum]
    simp only [PageSize.bytes]
    refine congrArg some ?_
    omega

end BootCall

end Aidos.Paging

namespace Aidos.Loader

open Paging

variable {B : Boot} {m m' : Machine} {virt phys size : UInt64} {c : BootCall} {b : ℕ}

/-! ### The mapping step -/

/-- A state in which a call can be made: the tree is as the routines need it, no 4 KiB page is asked
for inside a larger one, and a page that tables or free heap live in stays where it is. -/
structure Receives (B : Boot) (m : Machine) (c : BootCall) : Prop where
  /-- The state is one between two calls. -/
  serving : B.Serving m
  /-- No larger page is in the way. -/
  small : c.size = .small → ∀ i < c.count.toNat, ∀ l, m.look (c.va i) = some l → l.1 = 3
  /-- Pages that hold page tables or free heap are mapped to themselves. -/
  stays : ∀ i < c.count.toNat, ∀ w : UInt64, w.toNat / 4096 ∈ B.inUse m →
    c.size.pageNumber (c.va i) = c.size.pageNumber w →
    physical w (c.size.depth, c.size.entry (c.pa i)) = some w.toNat

/-- **What the mapping step is for**: every address of the segment is translated to its place, and
the leaves of the call have the flag bits `PRESENT | RW`, or `PRESENT | RW | PSE`, and no others. -/
structure MapsSegment (virt phys size : UInt64) (m : Machine) : Prop where
  /-- The translations. -/
  translated : ∀ b < size.toNat, m.translate (virt + UInt64.ofNat b) = some (phys.toNat + b)
  /-- The flag bits. -/
  flags : ∀ w, (segmentCall virt phys size).Covers w →
    ∃ e, m.look w = some ((segmentCall virt phys size).size.depth, e) ∧
      e.toNat % 4096 = (segmentCall virt phys size).size.flags

/-- The range of the segment is one of canonical addresses, and its place one of physical ones. -/
structure InRange (virt phys size : UInt64) : Prop where
  /-- The virtual addresses. -/
  canonical : ∀ b < size.toNat, Canonical (virt + UInt64.ofNat b)
  /-- The physical addresses. -/
  physical_end : phys.toNat + size.toNat ≤ 2 ^ 52

/-- Byte `b` of the segment is behind the pages that are mapped. -/
def Missed (virt size : UInt64) (b : ℕ) : Prop :=
  b < size.toNat ∧ span size.toNat ≤ virt.toNat % 4096 + b

instance (virt size : UInt64) (b : ℕ) : Decidable (Missed virt size b) :=
  inferInstanceAs (Decidable (_ ∧ _))

/-! ### Ranges -/

/-- A range of canonical addresses is one modulo `2 ^ 48`, also with the beginning of its first
page. -/
theorem InRange.end_le (h : InRange virt phys size) (hsize : 0 < size.toNat) :
    virt.toNat % 4096 + size.toNat ≤ 2 ^ 48 := by
  have hvirt := virt.toNat_lt
  have hlt := size.toNat_lt
  have haddr (b : ℕ) (hb : b < size.toNat) :
      (virt + UInt64.ofNat b).toNat = (virt.toNat + b) % 2 ^ 64 := by
    rw [UInt64.toNat_add, UInt64.toNat_ofNat_of_lt' (Nat.lt_trans hb hlt)]
  have hfirst := h.canonical 0 hsize
  rw [Canonical, haddr 0 hsize] at hfirst
  by_contra hlong
  -- the first address above the lower half
  have hb : 2 ^ 48 - (virt.toNat + 2 ^ 47) % 2 ^ 64 < size.toNat := by omega
  have hout := h.canonical _ hb
  rw [Canonical, haddr _ hb] at hout
  omega

theorem congruent_segmentCall (hcong : virt.toNat % 4096 = phys.toNat % 4096) (size : UInt64) :
    (segmentCall virt phys size).Congruent := by
  obtain ⟨hvirt, hphys⟩ := segmentCall_start virt phys size
  rw [BootCall.Congruent, hvirt, hphys]
  exact ⟨hcong, segmentCall_large⟩

/-! ### The step -/

/-- A call that the state can receive returns, and stores the entries of its turns. -/
theorem Receives.wp_perform (h : Receives B m c) (hc : c.Congruent) :
    (B.perform c).wp Event.Allocates (fun _ ↦ (B.space (B.inUse m)).Stage c.size.depth m
      (Space.overlay c.size.depth c.va (fun i ↦ c.size.entry (c.pa i)) m.look c.count.toNat))
      m := by
  have hentry (i : ℕ) := c.size.entry_leaf (c.pa_mod hc i)
  refine Boot.wp_turns h.serving.tight (fun i _ ↦ (hentry i).1) (fun i hi l hl ↦ ?_)
    fun i hi w hw hpre ↦ ⟨(hentry i).2, h.stays i hi w hw (c.size.prefix_iff.1 hpre)⟩
  cases hsize : c.size with
  | small => exact (h.small hsize i hi l hl).ge
  | large => exact h.serving.sizes _ l hl

theorem covers_iff_lt (hb : c.virt.toNat % c.size.bytes + b < 2 ^ 48) :
    c.Covers (c.virt + UInt64.ofNat b) ↔
      c.virt.toNat % c.size.bytes + b < c.count.toNat * c.size.bytes := by
  rw [BootCall.Covers, BootCall.turn_add hb, Nat.div_lt_iff_lt_mul c.size.bytes_pos]

/-- The leaves behind the step, in a range of canonical addresses. -/
theorem InRange.look (h : InRange virt phys size) (hsize : 0 < size.toNat)
    (hcong : virt.toNat % 4096 = phys.toNat % 4096) {S : Space}
    (hm' : S.Stage (segmentCall virt phys size).size.depth m
      (Space.overlay (segmentCall virt phys size).size.depth (segmentCall virt phys size).va
        (fun i ↦ (segmentCall virt phys size).size.entry ((segmentCall virt phys size).pa i)) m.look
        (segmentCall virt phys size).count.toNat) m') (w : UInt64) :
    m'.look w = ((segmentCall virt phys size).leafOf w).getD (m.look w) := by
  have hend := h.end_le hsize
  have hcount := segmentCall_count virt phys (show size.toNat + 4095 < 2 ^ 64 by omega)
  have hspan : span size.toNat ≤ 2 ^ 48 := by
    rw [span]
    omega
  have hc := congruent_segmentCall hcong size
  rw [hm'.look, BootCall.overlay_count (hcount ▸ hspan) fun i _ ↦
    (PageSize.entry_leaf _ (BootCall.pa_mod hc i)).2]

/-- The offset of the range in its first page. -/
theorem segmentCall_offset (virt phys size : UInt64) :
    (segmentCall virt phys size).virt.toNat % (segmentCall virt phys size).size.bytes =
      virt.toNat % 4096 := by
  rw [(segmentCall_start virt phys size).1]
  rcases hpage : (segmentCall virt phys size).size with - | -
  · rfl
  · have hvirt := (segmentCall_large hpage).1
    simp only [PageSize.bytes]
    omega

/-- An address of the range is in a page of the call, or behind the last one. -/
theorem InRange.covers_iff (h : InRange virt phys size) (hb : b < size.toNat) :
    (segmentCall virt phys size).Covers (virt + UInt64.ofNat b) ↔ ¬ Missed virt size b := by
  have hend := h.end_le (Nat.zero_lt_of_lt hb)
  have hoffset := segmentCall_offset virt phys size
  have hiff := covers_iff_lt (c := segmentCall virt phys size) (b := b) (by omega)
  rw [segmentCall_count virt phys (by omega), hoffset, (segmentCall_start virt phys size).1] at hiff
  rw [hiff, Missed]
  omega

/-- An address in a page of the call is translated to its place. -/
theorem InRange.translate_of_covers (h : InRange virt phys size)
    (hcong : virt.toNat % 4096 = phys.toNat % 4096) (hb : b < size.toNat)
    (hcov : (segmentCall virt phys size).Covers (virt + UInt64.ofNat b))
    (hlook : ∀ w, m'.look w = ((segmentCall virt phys size).leafOf w).getD (m.look w)) :
    m'.translate (virt + UInt64.ofNat b) = some (phys.toNat + b) := by
  have hend := h.end_le (Nat.zero_lt_of_lt hb)
  have hphys := h.physical_end
  have hoffset := segmentCall_offset virt phys size
  obtain ⟨hvirt, hstart⟩ := segmentCall_start virt phys size
  have hplace := BootCall.physical_add (congruent_segmentCall hcong size) (b := b) (by omega)
    (by rw [hstart]; omega)
  rw [hvirt, hstart] at hplace
  rw [Machine.translate_eq (h.canonical b hb), hlook, BootCall.leafOf, if_pos hcov,
    Option.getD_some, Option.bind_some, hplace]

/-- The leaf of a covered address. -/
theorem look_of_covers (hlook : ∀ w, m'.look w = (c.leafOf w).getD (m.look w)) {w : UInt64}
    (hw : c.Covers w) : m'.look w = some (c.size.depth, c.size.entry (c.pa (c.turn w))) := by
  rw [hlook, BootCall.leafOf, if_pos hw, Option.getD_some]

/-- It has the flag bits that are meant exactly if the offset does not meet them. -/
theorem entry_flags_iff (hcong : virt.toNat % 4096 = phys.toNat % 4096) (i : ℕ) :
    ((segmentCall virt phys size).size.entry ((segmentCall virt phys size).pa i)).toNat % 4096 =
        (segmentCall virt phys size).size.flags ↔ virt.toNat % 4096 < 4 := by
  have hc := congruent_segmentCall hcong size
  rw [PageSize.entry_flags _ (BootCall.pa_mod hc i), BootCall.pa_offset,
    (segmentCall_start virt phys size).2, hcong]

/-- The step does what it is for in the range of an unaligned segment, with the flag bits out of the
way, if what it misses is there already. -/
theorem InRange.mapsSegment (h : InRange virt phys size)
    (hcong : virt.toNat % 4096 = phys.toNat % 4096) (hoffset : virt.toNat % 4096 < 4)
    (hmissed : ∀ b, Missed virt size b →
      m.translate (virt + UInt64.ofNat b) = some (phys.toNat + b))
    (hlook : ∀ w, m'.look w = ((segmentCall virt phys size).leafOf w).getD (m.look w)) :
    MapsSegment virt phys size m' := by
  refine ⟨fun b hb ↦ ?_,
    fun w hw ↦ ⟨_, look_of_covers hlook hw, (entry_flags_iff hcong _).2 hoffset⟩⟩
  · by_cases hcov : (segmentCall virt phys size).Covers (virt + UInt64.ofNat b)
    · exact h.translate_of_covers hcong hb hcov hlook
    · have hout : Missed virt size b := Classical.not_not.1 ((h.covers_iff hb).not.1 hcov)
      rw [← hmissed b hout]
      refine Machine.translate_congr_of_look ?_
      rw [hlook, BootCall.leafOf, if_neg hcov, Option.getD_none]

/-- **Mapping a segment.** In a state that can receive its call, and while no allocation fails, the
mapping step of a segment whose virtual and physical start have the same offset in their pages
returns. It does what it is for if and only if the segment is empty; or its range is one of
canonical and of physical addresses, the offset has no bits but those of `PAGE_PRESENT` and
`PAGE_RW`, and the bytes behind the pages that are mapped, as many as the size alone takes, were in
place before. -/
theorem mapSegment_maps_iff (hcong : virt.toNat % 4096 = phys.toNat % 4096)
    (h : Receives B m (segmentCall virt phys size))
    (hev : ∀ e ∈ ((mapSegment B virt phys size).run m).events, e.Allocates) :
    ∃ m' es, (mapSegment B virt phys size).run m = ⟨some (), m', es⟩ ∧
      (MapsSegment virt phys size m' ↔
        size = 0 ∨ InRange virt phys size ∧ virt.toNat % 4096 < 4 ∧
          ∀ b, Missed virt size b →
            m.translate (virt + UInt64.ofNat b) = some (phys.toNat + b)) := by
  have hc := congruent_segmentCall hcong size
  rw [mapSegment_eq] at hev ⊢
  obtain ⟨_, hvalue, hm'⟩ := h.wp_perform hc hev
  refine ⟨_, _, Exec.run_eq_of_value hvalue, fun hmaps ↦ ?_, ?_⟩
  · rw [or_iff_not_imp_left]
    intro hne
    have hsize : 0 < size.toNat := Nat.pos_of_ne_zero fun hzero ↦ hne (UInt64.toNat_inj.1 hzero)
    have hrange : InRange virt phys size := by
      refine ⟨fun b hb ↦ Machine.canonical_of_translate (hmaps.translated b hb), ?_⟩
      have hlast := hmaps.translated (size.toNat - 1) (by omega)
      rw [Machine.translate_eq (Machine.canonical_of_translate hlast)] at hlast
      obtain ⟨l, -, hphys⟩ := Option.bind_eq_some_iff.1 hlast
      have hlt := physical_lt hphys
      omega
    have hlook := hrange.look hsize hcong hm'
    refine ⟨hrange, ?_, fun b hb ↦ ?_⟩
    · -- the flag bits of the first page
      have hend := hrange.end_le hsize
      have hfirst : (segmentCall virt phys size).Covers (virt + UInt64.ofNat 0) := by
        refine (hrange.covers_iff hsize).2 fun hout ↦ ?_
        have hle := hout.2
        rw [span] at hle
        omega
      obtain ⟨e, he, hflags⟩ := hmaps.flags _ hfirst
      rw [look_of_covers hlook hfirst, Option.some.injEq, Prod.mk.injEq] at he
      rw [← he.2] at hflags
      exact (entry_flags_iff hcong _).1 hflags
    · have hcov := (hrange.covers_iff hb.1).not.2 (not_not_intro hb)
      rw [← hmaps.translated b hb.1]
      refine (Machine.translate_congr_of_look ?_).symm
      rw [hlook, BootCall.leafOf, if_neg hcov, Option.getD_none]
  · intro hcond
    rcases Nat.eq_zero_or_pos size.toNat with hzero | hsize
    · -- no page is mapped
      have hcount := segmentCall_count virt phys (show size.toNat + 4095 < 2 ^ 64 by omega)
      rw [hzero, span, Nat.zero_add, Nat.div_eq_of_lt (by decide), Nat.zero_mul,
        Nat.mul_eq_zero] at hcount
      have hnone := hcount.resolve_right (Nat.ne_of_gt (PageSize.bytes_pos _))
      refine ⟨fun b hb ↦ absurd hb (by omega), fun w hw ↦ ?_⟩
      rw [BootCall.Covers, hnone] at hw
      exact absurd hw (Nat.not_lt_zero _)
    · have hne : size ≠ 0 := fun hzero ↦ by
        rw [hzero] at hsize
        exact Nat.lt_irrefl 0 hsize
      obtain ⟨hrange, hoffset, hmissed⟩ := hcond.resolve_left hne
      exact hrange.mapsSegment hcong hoffset hmissed (hrange.look hsize hcong hm')

/-! ### Two segments after `setup_paging` -/

/-- After `setup_paging`, a call for pages above those that it maps can be received. -/
theorem receives_of_started (h : B.Started m)
    (hfar : ∀ i < c.count.toNat, ∀ w : UInt64, w.toNat / 4096 < 256 →
      c.size.pageNumber (c.va i) ≠ c.size.pageNumber w) : Receives B m c where
  serving := h.serving
  small := by
    intro _ i _ l hl
    rw [h.look] at hl
    split at hl
    · rw [← Option.some.inj hl]
    · exact absurd hl (by simp)
  stays := fun i hi w hw hpage ↦ absurd hpage (hfar i hi w (h.inUse_lt hw))

/-- A range in the lower half. -/
theorem InRange.of_le (hvirt : virt.toNat + size.toNat ≤ 2 ^ 47)
    (hphys : phys.toNat + size.toNat ≤ 2 ^ 52) : InRange virt phys size where
  canonical := by
    intro b hb
    have hof : (UInt64.ofNat b).toNat = b :=
      UInt64.toNat_ofNat'.trans (Nat.mod_eq_of_lt (by omega))
    rw [Canonical, UInt64.toNat_add, hof]
    omega
  physical_end := hphys

/-- One page from 4 MiB on is far from the low pages, and the heap has room for its tables. -/
theorem receives_smallReady (hcall : (segmentCall virt phys size).size = .small ∧
      (segmentCall virt phys size).count = 1)
    (hvirt : virt.toNat / 4096 = 0x400) :
    Receives Boot.small Boot.smallReady (segmentCall virt phys size) ∧
      ∀ e ∈ ((mapSegment Boot.small virt phys size).run Boot.smallReady).events, e.Allocates := by
  have hstart := (segmentCall_start virt phys size).1
  rw [mapSegment_eq]
  generalize segmentCall virt phys size = c at hcall hstart ⊢
  obtain ⟨s, v, p, count⟩ := c
  obtain ⟨rfl, rfl⟩ : s = .small ∧ count = 1 := hcall
  obtain rfl : v = virt := hstart
  have hroom : Boot.small.Room 3 Boot.smallReady := by decide +kernel
  refine ⟨receives_of_started started_smallReady fun i hi w hw hpage ↦ ?_,
    (Boot.perform_yields (k := 0) _ hroom).1⟩
  obtain rfl : i = 0 := Nat.lt_one_iff.1 hi
  have hva : (BootCall.mk .small v p 1).va 0 = v := by
    show v + 0 * pageSize4k = v
    rw [UInt64.zero_mul, UInt64.add_zero]
  rw [hva] at hpage
  simp only [PageSize.pageNumber, PageSize.bytes, PageSize.pages] at hpage hvirt
  omega

/-- A segment at offset 2 that ends in its first page. -/
theorem mapSegment_maps_inside : ∃ m' es,
    (mapSegment Boot.small 0x400002 0x500002 0xF00).run Boot.smallReady = ⟨some (), m', es⟩ ∧
      MapsSegment 0x400002 0x500002 0xF00 m' := by
  obtain ⟨hreceives, hevents⟩ := @receives_smallReady 0x400002 0x500002 0xF00 (by decide)
    (by decide)
  obtain ⟨m', es, hrun, hiff⟩ := mapSegment_maps_iff (by decide) hreceives hevents
  refine ⟨m', es, hrun, hiff.2 (Or.inr ⟨InRange.of_le (by decide) (by decide), by decide, ?_⟩)⟩
  rintro b ⟨hb, hout⟩
  have hspan : span (0xF00 : UInt64).toNat = 4096 := by decide
  have hoffset : (0x400002 : UInt64).toNat % 4096 = 2 := by decide
  have hsize : (0xF00 : UInt64).toNat = 0xF00 := by decide
  omega

/-- A page of bytes from the middle of a page on: the second half of the bytes is not mapped, and
the offset is in the flags of the first page. -/
theorem not_mapsSegment_middle :
    (0x400800 : UInt64).toNat % 4096 = (0x500800 : UInt64).toNat % 4096 ∧
    Receives Boot.small Boot.smallReady (segmentCall 0x400800 0x500800 0x1000) ∧
    ∃ m' es, (mapSegment Boot.small 0x400800 0x500800 0x1000).run Boot.smallReady =
        ⟨some (), m', es⟩ ∧ (∀ e ∈ es, e.Allocates) ∧
      m'.translate (0x400800 + UInt64.ofNat 0x800) = none ∧
      m'.look (0x400800 + UInt64.ofNat 0) = some (3, 0x500803) ∧
      ¬ MapsSegment 0x400800 0x500800 0x1000 m' := by
  obtain ⟨hreceives, hevents⟩ := @receives_smallReady 0x400800 0x500800 0x1000 (by decide)
    (by decide)
  have hcong : (0x400800 : UInt64).toNat % 4096 = (0x500800 : UInt64).toNat % 4096 := by decide
  have hrange : InRange 0x400800 0x500800 0x1000 := InRange.of_le (by decide) (by decide)
  have hperform := hreceives.wp_perform (congruent_segmentCall hcong _)
  rw [mapSegment_eq] at hevents ⊢
  obtain ⟨_, hvalue, hm'⟩ := hperform hevents
  have hlook := hrange.look (by decide) hcong hm'
  have hfirst : (segmentCall 0x400800 0x500800 0x1000).Covers (0x400800 + UInt64.ofNat 0) :=
    (hrange.covers_iff (by decide)).2 (by decide)
  have hsecond : ¬ (segmentCall 0x400800 0x500800 0x1000).Covers (0x400800 + UInt64.ofNat 0x800) :=
    (hrange.covers_iff (by decide)).not.2 (by decide)
  have hnone : Boot.smallReady.translate (0x400800 + UInt64.ofNat 0x800) = none := by
    decide +kernel
  have hmissed := (Machine.translate_congr_of_look (by
    rw [hlook, BootCall.leafOf, if_neg hsecond, Option.getD_none])).trans hnone
  refine ⟨hcong, hreceives, _, _, Exec.run_eq_of_value hvalue, hevents, hmissed, ?_, fun h ↦ ?_⟩
  · rw [look_of_covers hlook hfirst, BootCall.turn]
    decide
  · have hmapped := h.translated 0x800 (by decide)
    rw [hmissed] at hmapped
    exact absurd hmapped (by simp)

end Aidos.Loader
