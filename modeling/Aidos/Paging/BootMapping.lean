import Aidos.Paging.BootTables

/-!
# Mapping calls of the bootloader

A call of `map_4k` or `map_2m` is, abstractly, an update of the function from virtual to physical
addresses, on pages of its own size (`BootCall.assign`). `wp_call` says that a call is its update as
long as no larger page is in the way and the pages that the page tables and the free heap live in
stay where they are.
-/

namespace Aidos.Paging

/-- The page sizes of the mapping routines. -/
inductive PageSize where
  /-- `PAGE_SIZE_4K`. -/
  | small
  /-- `PAGE_SIZE_2M`. -/
  | large
  deriving DecidableEq

namespace PageSize

/-- The size of a page. -/
def stride : PageSize → UInt64
  | small => pageSize4k
  | large => pageSize2m

/-- The size of a page, in bytes. -/
def bytes : PageSize → ℕ
  | small => 0x1000
  | large => 0x200000

/-- The number of pages in the `2 ^ 48` bytes of the address space. -/
def pages : PageSize → ℕ
  | small => 2 ^ 36
  | large => 2 ^ 27

/-- The depth of the tables whose entries map pages of this size. -/
def depth : PageSize → ℕ
  | small => 3
  | large => 2

/-- The entry that maps a page to `pa`. -/
def entry : PageSize → UInt64 → UInt64
  | small, pa => presentRw pa
  | large, pa => presentRw pa ||| pagePse

/-- The number of the page of an address, modulo `2 ^ 48`. -/
def pageNumber (s : PageSize) (v : UInt64) : ℕ := v.toNat / s.bytes % s.pages

variable (s : PageSize)

theorem bytes_mul_pages : s.bytes * s.pages = 2 ^ 48 := by cases s <;> rfl

theorem bytes_pos : 0 < s.bytes := by cases s <;> decide

theorem toNat_stride : s.stride.toNat = s.bytes := by cases s <;> rfl

theorem pages_pos : 0 < s.pages := by cases s <;> decide

/-- Below one entry of a table of this depth is one page. -/
theorem prefix_iff {v w : UInt64} :
    (pathOf v).take (s.depth + 1) <+: pathOf w ↔ s.pageNumber v = s.pageNumber w := by
  cases s with
  | small => exact prefix_four_iff
  | large =>
    refine prefix_pathOf_iff.trans ?_
    simp only [pageOf, pageNumber, bytes, pages]
    omega

theorem large_entry (pa : UInt64) : large.entry pa = pa ||| 0x83 := by
  show pa ||| 1 ||| 2 ||| 0x80 = pa ||| 0x83
  rw [UInt64.or_assoc, UInt64.or_assoc]
  rfl

/-- The processor takes an entry of this size for a page. -/
theorem entry_leaf {pa : UInt64} (hlarge : s = large → pa.toNat % 4096 = 0) :
    x86.child s.depth (s.entry pa) = none ∧ x86.leaf s.depth (s.entry pa) = true := by
  cases s with
  | small => exact ⟨child_bottom _, (physical_presentRw pa 0).1⟩
  | large =>
    have hpa := hlarge rfl
    have hpse : Paging.large (pa ||| 0x83) = true := large_or_flags hpa (by decide)
    have hpres : present (pa ||| 0x83) = true := present_or_flags hpa (by decide)
    rw [large_entry]
    exact ⟨child_of_large hpse, (leaf_of_large hpse).trans hpres⟩

/-- What the processor makes of an entry of this size. -/
theorem entry_fields {pa : UInt64} (hpa : pa.toNat % s.bytes = 0)
    (hlt : pa.toNat < 2 ^ 52) (w : UInt64) :
    x86.child s.depth (s.entry pa) = none ∧ x86.leaf s.depth (s.entry pa) = true ∧
      physical w (s.depth, s.entry pa) = some (pa.toNat + w.toNat % s.bytes) := by
  have halign : pa.toNat % 4096 = 0 := by
    cases s with
    | small => exact hpa
    | large =>
      have hpa' : pa.toNat % 0x200000 = 0 := hpa
      omega
  obtain ⟨hchild, hleaf⟩ := s.entry_leaf fun _ ↦ halign
  refine ⟨hchild, hleaf, ?_⟩
  cases s with
  | small =>
    refine (physical_presentRw pa w).2.trans (congrArg some ?_)
    show frameOf pa * 4096 + w.toNat % 4096 = pa.toNat + w.toNat % 4096
    rw [frameOf]
    omega
  | large =>
    have hpa' : pa.toNat % 0x200000 = 0 := hpa
    have hframe : frameOf (pa ||| 0x83) = pa.toNat / 4096 := by
      rw [frameOf_or_flags halign (by decide), frameOf]
      omega
    have hreserved : pa.toNat / 4096 / 2 % 2 ^ 8 = 0 := by omega
    rw [large_entry]
    show (leafPage (2, pa ||| 0x83)).map (fun page ↦ page.2 + w.toNat % page.1) =
      some (pa.toNat + w.toNat % 0x200000)
    rw [leafPage, hframe, if_pos hreserved, Option.map_some]
    refine congrArg some ?_
    show pa.toNat / 4096 / 2 ^ 9 * 2 ^ 21 + w.toNat % 2 ^ 21 = pa.toNat + w.toNat % 0x200000
    omega

end PageSize

/-- A call of the bootloader's mapping interface. -/
structure BootCall where
  /-- `map_4k` or `map_2m`. -/
  size : PageSize
  /-- The start of the virtual range. -/
  virt : UInt64
  /-- The start of the physical range. -/
  phys : UInt64
  /-- The number of pages. -/
  count : UInt64

namespace BootCall

variable (c : BootCall)

/-- The virtual page of turn `i`. -/
def va (i : ℕ) : UInt64 := c.virt + UInt64.ofNat i * c.size.stride

/-- The physical page of turn `i`. -/
def pa (i : ℕ) : UInt64 := c.phys + UInt64.ofNat i * c.size.stride

/-- How many pages an address lies above `virt`, modulo `2 ^ 48`. -/
@[irreducible] def turn (w : UInt64) : ℕ :=
  (c.size.pageNumber w + (c.size.pages - c.size.pageNumber c.virt)) % c.size.pages

/-- The address is in one of the pages of the range, modulo `2 ^ 48`. -/
def Covers (w : UInt64) : Prop := c.turn w < c.count.toNat

instance (w : UInt64) : Decidable (c.Covers w) := inferInstanceAs (Decidable (_ < _))

/-- A call as an update of the address space: page `k` of the virtual range goes to page `k` of the
physical range. -/
def assign (w : UInt64) : Option (Option ℕ) :=
  if c.Covers w then some (some (c.phys.toNat + c.turn w * c.size.bytes + w.toNat % c.size.bytes))
  else none

/-- Both ranges are aligned to the page size. -/
def Aligned : Prop := c.virt.toNat % c.size.bytes = 0 ∧ c.phys.toNat % c.size.bytes = 0

instance : Decidable c.Aligned := inferInstanceAs (Decidable (_ ∧ _))

/-- The ranges are ranges of the two address spaces: `2 ^ 48` bytes of virtual and `2 ^ 52` of
physical addresses. -/
def Fits : Prop :=
  c.count.toNat * c.size.bytes ≤ 2 ^ 48 ∧ c.phys.toNat + c.count.toNat * c.size.bytes ≤ 2 ^ 52

instance : Decidable c.Fits := inferInstanceAs (Decidable (_ ∧ _))

/-- The leaf a call gives to an address. -/
def leafOf (w : UInt64) : Option (Option (ℕ × UInt64)) :=
  if c.Covers w then some (some (c.size.depth, c.size.entry (c.pa (c.turn w)))) else none

variable {c}

theorem turn_lt (w : UInt64) : c.turn w < c.size.pages := by
  rw [turn]
  exact Nat.mod_lt _ c.size.pages_pos

/-- The turns that reach the page of an address. -/
theorem pageNumber_va_eq_iff {i : ℕ} (hi : i < 2 ^ 64) {w : UInt64} :
    c.size.pageNumber (c.va i) = c.size.pageNumber w ↔ i % c.size.pages = c.turn w := by
  obtain ⟨s, virt, phys, count⟩ := c
  have hlt := virt.toNat_lt
  have hof : (UInt64.ofNat i).toNat = i := UInt64.toNat_ofNat_of_lt' hi
  rw [turn, va, PageSize.pageNumber, UInt64.toNat_add, UInt64.toNat_mul, hof]
  cases s with
  | small =>
    simp only [PageSize.pageNumber, PageSize.bytes, PageSize.pages, PageSize.stride, pageSize4k,
      UInt64.reduceToNat]
    omega
  | large =>
    simp only [PageSize.pageNumber, PageSize.bytes, PageSize.pages, PageSize.stride, pageSize2m,
      UInt64.reduceToNat]
    omega

/-- A call reaches the addresses it covers. -/
theorem covers_iff {w : UInt64} :
    (∃ i < c.count.toNat, (pathOf (c.va i)).take (c.size.depth + 1) <+: pathOf w) ↔ c.Covers w := by
  have hcount := c.count.toNat_lt
  constructor
  · rintro ⟨i, hi, hpre⟩
    rw [c.size.prefix_iff, pageNumber_va_eq_iff (Nat.lt_trans hi hcount)] at hpre
    exact Nat.lt_of_le_of_lt (hpre ▸ Nat.mod_le _ _) hi
  · intro hcov
    refine ⟨c.turn w, hcov, ?_⟩
    rw [c.size.prefix_iff, pageNumber_va_eq_iff (Nat.lt_trans hcov hcount)]
    exact Nat.mod_eq_of_lt (turn_lt w)

/-- If its range fits, it reaches each of them once. -/
theorem turn_unique (hvirt : c.count.toNat * c.size.bytes ≤ 2 ^ 48) {i : ℕ} (hi : i < c.count.toNat)
    {w : UInt64} (hpre : (pathOf (c.va i)).take (c.size.depth + 1) <+: pathOf w) :
    i = c.turn w := by
  have hcount := c.count.toNat_lt
  rw [c.size.prefix_iff, pageNumber_va_eq_iff (Nat.lt_trans hi hcount)] at hpre
  have hlen : c.count.toNat ≤ c.size.pages := by
    rw [← c.size.bytes_mul_pages, Nat.mul_comm] at hvirt
    exact Nat.le_of_mul_le_mul_left hvirt c.size.bytes_pos
  rw [← hpre, Nat.mod_eq_of_lt (Nat.lt_of_lt_of_le hi hlen)]

/-- The physical page of a turn, without wrapping. -/
theorem toNat_pa_of_lt {i : ℕ} (h : c.phys.toNat + i * c.size.bytes < 2 ^ 64) :
    (c.pa i).toNat = c.phys.toNat + i * c.size.bytes := by
  have hi : i < 2 ^ 64 := by
    have hle := Nat.le_mul_of_pos_right i c.size.bytes_pos
    omega
  rw [pa, UInt64.toNat_add, UInt64.toNat_mul, UInt64.toNat_ofNat_of_lt' hi, c.size.toNat_stride]
  omega

/-- The physical page of a turn. -/
theorem toNat_pa (hfits : c.Fits) {i : ℕ} (hi : i < c.count.toNat) :
    (c.pa i).toNat = c.phys.toNat + i * c.size.bytes ∧
      c.phys.toNat + i * c.size.bytes + c.size.bytes ≤ 2 ^ 52 := by
  have hle : (i + 1) * c.size.bytes ≤ c.count.toNat * c.size.bytes := Nat.mul_le_mul_right _ hi
  have hend := (Nat.add_le_add_left hle _).trans hfits.2
  rw [Nat.succ_mul, ← Nat.add_assoc] at hend
  have hpos := c.size.bytes_pos
  exact ⟨toNat_pa_of_lt (by omega), hend⟩

/-- The physical address that a covered address is given. -/
theorem physical_pa (hal : c.Aligned) (hfits : c.Fits) {i : ℕ}
    (hi : i < c.count.toNat) (w : UInt64) :
    x86.child c.size.depth (c.size.entry (c.pa i)) = none ∧
      x86.leaf c.size.depth (c.size.entry (c.pa i)) = true ∧
      physical w (c.size.depth, c.size.entry (c.pa i)) =
        some (c.phys.toNat + i * c.size.bytes + w.toNat % c.size.bytes) := by
  obtain ⟨hnum, hend⟩ := toNat_pa hfits hi
  have hpos := c.size.bytes_pos
  have hmod : (c.pa i).toNat % c.size.bytes = 0 := by
    rw [hnum, Nat.add_mul_mod_self_right]
    exact hal.2
  obtain ⟨hchild, hleaf, hphys⟩ := c.size.entry_fields hmod (by omega) w
  exact ⟨hchild, hleaf, by rw [hphys, hnum]⟩

/-- The leaf of a call is its update. -/
theorem bind_leafOf (hal : c.Aligned) (hfits : c.Fits) (w : UInt64) (l : Option (ℕ × UInt64)) :
    ((c.leafOf w).getD l).bind (physical w) = (c.assign w).getD (l.bind (physical w)) := by
  rw [leafOf, assign]
  split
  · next hcov =>
    rw [Option.getD_some, Option.getD_some, Option.bind_some, (physical_pa hal hfits hcov w).2.2]
  · rfl

/-- The leaves after all turns. -/
theorem overlay_count (hvirt : c.count.toNat * c.size.bytes ≤ 2 ^ 48)
    (hleaf : ∀ i < c.count.toNat, x86.leaf c.size.depth (c.size.entry (c.pa i)) = true)
    (f : UInt64 → Option (ℕ × UInt64)) (w : UInt64) :
    Space.overlay c.size.depth c.va (fun i ↦ c.size.entry (c.pa i)) f c.count.toNat w =
      (c.leafOf w).getD (f w) := by
  rw [leafOf]
  split
  · next hcov =>
    have hpre : (pathOf (c.va (c.turn w))).take (c.size.depth + 1) <+: pathOf w := by
      obtain ⟨i, hi, hpre⟩ := covers_iff.2 hcov
      rw [← turn_unique hvirt hi hpre]
      exact hpre
    have hover := Space.overlay_of_covered (f := f) c.va (fun i ↦ c.size.entry (c.pa i)) hcov hpre
      fun j hj hpre' ↦ congrArg (fun i ↦ c.size.entry (c.pa i)) (turn_unique hvirt hj hpre')
    rw [hover, if_pos (hleaf _ hcov)]
    rfl
  · next hcov =>
    exact Space.overlay_of_not_covered fun j hj hpre ↦ hcov (covers_iff.1 ⟨j, hj, hpre⟩)

end BootCall

namespace Boot

variable {B : Boot} {m : Machine} {c : BootCall}

/-- Perform a call. -/
def perform (B : Boot) (c : BootCall) : Prog Unit :=
  match c.size with
  | .small => B.map4k c.virt c.phys c.count
  | .large => B.map2m c.virt c.phys c.count

/-- The body of both loops. -/
def placePage (B : Boot) (s : PageSize) (va pa : UInt64) : Prog Unit :=
  match s with
  | .small => place4k B.getOrCreateTable B.pml4 va (s.entry pa)
  | .large => place2m B.getOrCreateTable B.pml4 va (s.entry pa)

theorem perform_eq (B : Boot) (c : BootCall) :
    B.perform c = Exec.forUpTo c.count.toNat fun i ↦ B.placePage c.size (c.va i) (c.pa i) := by
  obtain ⟨s, virt, phys, count⟩ := c
  cases s <;> rfl

section Step

variable {R : Set ℕ}

/-- One turn, where no larger page is in the way. -/
theorem wp_placePage (h : (B.space R).Sound m) {s : PageSize} {va pa : UInt64}
    (hchild : x86.child s.depth (s.entry pa) = none)
    (hbig : ∀ l, m.look va = some l → s.depth ≤ l.1)
    (hstay : ∀ w : UInt64, w.toNat / 4096 ∈ R → (pathOf va).take (s.depth + 1) <+: pathOf w →
      x86.leaf s.depth (s.entry pa) = true ∧ physical w (s.depth, s.entry pa) =
        some (w - 0).toNat) :
    (B.placePage s va pa).wp Event.Allocates (fun _ m' ↦ (B.space R).Sound m' ∧
      Space.Remapped s.depth va (s.entry pa) m m') m := by
  cases s with
  | small =>
    exact h.wp_place4k getsTable
      (fun l hl ↦ Nat.le_antisymm (Machine.look_depth hl) (hbig l hl)) hstay
  | large => exact h.wp_place2m getsTable hchild hbig hstay

/-- **A call stores the entries of its turns**, one over the other, on any region that they leave
where it is, where no larger page is in the way. -/
theorem wp_turns (h : (B.space R).Sound m)
    (hchild : ∀ i < c.count.toNat, x86.child c.size.depth (c.size.entry (c.pa i)) = none)
    (hbig : ∀ i < c.count.toNat, ∀ l, m.look (c.va i) = some l → c.size.depth ≤ l.1)
    (hstay : ∀ i < c.count.toNat, ∀ w : UInt64, w.toNat / 4096 ∈ R →
      (pathOf (c.va i)).take (c.size.depth + 1) <+: pathOf w →
      x86.leaf c.size.depth (c.size.entry (c.pa i)) = true ∧
        physical w (c.size.depth, c.size.entry (c.pa i)) = some w.toNat) :
    (B.perform c).wp Event.Allocates (fun _ ↦ (B.space R).Stage c.size.depth m
      (Space.overlay c.size.depth c.va (fun i ↦ c.size.entry (c.pa i)) m.look c.count.toNat))
        m := by
  rw [perform_eq]
  refine Space.Stage.loop h fun i hi m' hm' ↦ ?_
  refine wp_placePage hm'.sound (hchild i hi) (fun l hl ↦ ?_) fun w hw hpre ↦ ?_
  · rw [hm'.look] at hl
    rcases Space.overlay_cases hl with hold | hnew
    · exact hbig i hi l hold
    · exact hnew.ge
  · rw [UInt64.sub_zero]
    exact hstay i hi w hw hpre

/-- **A call is its update**, on any region that it leaves where it is, where no larger page is in
the way. -/
theorem wp_call (h : (B.space R).Sound m) (hal : c.Aligned) (hfits : c.Fits)
    (hbig : ∀ w, c.Covers w → ∀ l, m.look w = some l → c.size.depth ≤ l.1)
    (hstay : ∀ w : UInt64, w.toNat / 4096 ∈ R → c.Covers w → c.assign w = some (some w.toNat)) :
    (B.perform c).wp Event.Allocates (fun _ ↦ (B.space R).Stage c.size.depth m
      fun w ↦ (c.leafOf w).getD (m.look w)) m := by
  have hleaves : (fun w ↦ (c.leafOf w).getD (m.look w)) =
      Space.overlay c.size.depth c.va (fun i ↦ c.size.entry (c.pa i)) m.look c.count.toNat :=
    funext fun w ↦ (BootCall.overlay_count hfits.1
      (fun i hi ↦ (BootCall.physical_pa hal hfits hi 0).2.1) m.look w).symm
  rw [hleaves]
  refine wp_turns h (fun i hi ↦ (BootCall.physical_pa hal hfits hi 0).1)
    (fun i hi ↦ hbig _ (BootCall.covers_iff.1 ⟨i, hi, List.take_prefix _ _⟩))
      fun i hi w hw hpre ↦ ?_
  obtain rfl := BootCall.turn_unique hfits.1 hi hpre
  obtain ⟨-, hleaf, hphys⟩ := BootCall.physical_pa hal hfits hi w
  have hcov : c.Covers w := hi
  have hsame := hstay w hw hcov
  rw [BootCall.assign, if_pos hcov] at hsame
  exact ⟨hleaf, hphys.trans (Option.some.inj hsame)⟩

end Step

end Boot

end Aidos.Paging
