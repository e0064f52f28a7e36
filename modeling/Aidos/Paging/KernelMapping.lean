import Aidos.Paging.KernelTables

/-!
# Kernel mappings as a history of updates

Abstractly the kernel's address space is a function from virtual to physical addresses, and a call
of `map_4k` or `unmap_4k` updates it on the pages of its range (`Call.assign`). After a history of
calls an address has the value of the latest call that covers it. `Ready.perform_refines` shows that
the page tables realise this function, whatever the ranges are and however they overlap.
-/

namespace Aidos.Paging

/-- A call of the kernel's 4 KiB mapping interface. -/
inductive Call where
  /-- `map_4k(virt, phys, count)`. -/
  | map (virt phys count : UInt64)
  /-- `unmap_4k(virt, count)`. -/
  | unmap (virt count : UInt64)

namespace Call

/-- The start of the virtual range. -/
def virt : Call → UInt64
  | map v _ _ => v
  | unmap v _ => v

/-- The number of pages. -/
def count : Call → UInt64
  | map _ _ n => n
  | unmap _ n => n

/-- The address is in one of the pages of the range, modulo `2 ^ 48`. -/
def Covers (c : Call) (w : UInt64) : Prop := pageDistance c.virt w < c.count.toNat

instance (c : Call) (w : UInt64) : Decidable (c.Covers w) := inferInstanceAs (Decidable (_ < _))

/-- What a call makes of a covered address: page `k` of the virtual range goes to page `k` of the
physical range, and an unmapped page to nothing. -/
def target (c : Call) (w : UInt64) : Option ℕ :=
  match c with
  | map v p _ => some ((p.toNat / 4096 + pageDistance v w) * 4096 + w.toNat % 4096)
  | unmap _ _ => none

/-- A call as an update of the address space. -/
def assign (c : Call) (w : UInt64) : Option (Option ℕ) :=
  if c.Covers w then some (c.target w) else none

/-- The virtual range keeps away from the image of the kernel, heap included. -/
def Away (K : Kernel) (c : Call) : Prop :=
  ∀ w : UInt64, w.toNat / 4096 ∈ K.imagePages → ¬ c.Covers w

/-- The physical range stays below `2 ^ 48`. -/
def Below : Call → Prop
  | map _ p n => p.toNat + n.toNat * 4096 ≤ 2 ^ 48
  | unmap _ _ => True

instance (c : Call) : Decidable c.Below :=
  match c with
  | map _ _ _ => inferInstanceAs (Decidable (_ ≤ _))
  | unmap _ _ => inferInstanceAs (Decidable True)

end Call

section Turns

variable {virt count w : UInt64}

/-- A turn of a loop only reaches covered pages. -/
theorem covered_of_page {i : ℕ} (hi : i < count.toNat) (h : pageOf (rangePage virt i) = pageOf w) :
    pageDistance virt w < count.toNat := by
  have hlt := count.toNat_lt
  have hd := pageDistance_lt virt w
  have hmod := (pageOf_rangePage_eq_iff (Nat.lt_trans hi hlt)).1 h
  omega

/-- A covered page is reached in turn `pageDistance`. -/
theorem page_of_covered (h : pageDistance virt w < count.toNat) :
    (pathOf (rangePage virt (pageDistance virt w))).take 4 <+: pathOf w := by
  have hlt := count.toNat_lt
  have hd := pageDistance_lt virt w
  exact prefix_four_iff.2 ((pageOf_rangePage_eq_iff (Nat.lt_trans h hlt)).2 (Nat.mod_eq_of_lt hd))

/-- The leaf of a page that is not covered, after the entries of a range have been placed. -/
theorem overlay_rangePage_of_not {x : ℕ → UInt64} {f : UInt64 → Option (ℕ × UInt64)}
    (h : ¬ pageDistance virt w < count.toNat) :
    Space.overlay 3 (rangePage virt) x f count.toNat w = f w :=
  Space.overlay_of_not_covered fun _ hj hpre ↦ h (covered_of_page hj (prefix_four_iff.1 hpre))

/-- The frame that the turn of a covered page gives it. -/
theorem frameOf_turn {phys : UInt64} (hphys : phys.toNat + count.toNat * 4096 ≤ 2 ^ 52)
    (h : pageDistance virt w < count.toNat) :
    frameOf (rangePage phys (pageDistance virt w)) = phys.toNat / 4096 + pageDistance virt w :=
  frameOf_rangePage ((Nat.add_le_add_left (Nat.mul_le_mul_right 4096 h) _).trans hphys)

end Turns

namespace Kernel

variable {K : Kernel} {m : Machine}

/-- Perform a call. -/
def perform (K : Kernel) : Call → Prog Unit
  | .map virt phys count => K.map4k virt phys count
  | .unmap virt count => K.unmap4k virt count

/-- The state between two calls. -/
structure Working (K : Kernel) (S : Space) (m : Machine) : Prop where
  /-- The invariant. -/
  sound : S.Sound m
  /-- `KERNEL_OFFSET` is what it was set to. -/
  offset : m.kernelOffset = S.offset
  /-- There are no large pages. -/
  small : ∀ v l, m.look v = some l → l.1 = 3

section Step

variable {S : Space} (hheap : S.heap = K.heap) (hpml4 : S.pml4 = K.pml4)
    (hreg : S.region ⊆ K.imagePages)

theorem zero_not_mem_imagePages : 0 ∉ K.imagePages := fun h ↦ absurd h.1 (by decide)

include hreg in
theorem avoids_of_away {c : Call} (haway : c.Away K) (i : ℕ) (hi : i < c.count.toNat) (w : UInt64)
    (hw : w.toNat / 4096 ∈ S.region) : pageOf (rangePage c.virt i) ≠ pageOf w :=
  fun heq ↦ haway w (hreg hw) (covered_of_page hi heq)

theorem small_of_stage {va x : ℕ → UInt64} {k : ℕ} {m' : Machine}
    (hsmall : ∀ v l, m.look v = some l → l.1 = 3)
    (h : S.Stage 3 m (Space.overlay 3 va x m.look k) m') (v : UInt64) (l : ℕ × UInt64)
    (hl : m'.look v = some l) : l.1 = 3 := by
  rw [h.look] at hl
  exact (Space.overlay_cases hl).elim (hsmall v l) id

include hheap hpml4 hreg

/-- `map_4k` is its update. -/
theorem wp_perform_map (h : Working K S m) {virt phys count : UInt64}
    (haway : (Call.map virt phys count).Away K) (hbelow : (Call.map virt phys count).Below) :
    (K.map4k virt phys count).wp Event.Allocates (fun _ m' ↦ (Working K S m' ∧
      ∀ w, m'.walk w = ((Call.map virt phys count).assign w).getD (m.walk w)) ∧
      Space.ChangedIn 3 m m') m := by
  have hpages : ∀ i < count.toNat, ∀ w : UInt64, w.toNat / 4096 ∈ S.region →
      pageOf (rangePage virt i) ≠ pageOf w := avoids_of_away hreg haway
  refine Exec.wp_mono (wp_map4k hheap hpml4 h.sound h.offset h.small hpages) ?_
  intro _ m' hm'
  refine ⟨⟨⟨hm'.sound, hm'.kernelOffset.trans h.offset, small_of_stage h.small hm'⟩, fun w ↦ ?_⟩,
    hm'.changed⟩
  have hphys : phys.toNat + count.toNat * 4096 ≤ 2 ^ 48 := hbelow
  rw [Machine.walk_eq, hm'.look, Call.assign]
  split
  · next hcov =>
    have hturn : pageDistance virt w < count.toNat := hcov
    -- the range is too short to cover a page twice
    have honce : ∀ j < count.toNat, (pathOf (rangePage virt j)).take 4 <+: pathOf w →
        j = pageDistance virt w := by
      intro j hj hpre
      rw [prefix_four_iff, pageOf_rangePage_eq_iff (by omega)] at hpre
      omega
    obtain ⟨hleaf, hentry⟩ := physical_presentRw (rangePage phys (pageDistance virt w)) w
    have hpre : (pathOf (rangePage virt (pageDistance virt w))).take 4 <+: pathOf w :=
      page_of_covered hturn
    have hlook := Space.overlay_of_covered (f := m.look) (n := 3) (rangePage virt)
      (fun i ↦ presentRw (rangePage phys i)) hturn hpre fun j hj hpre' ↦
      congrArg (fun i ↦ presentRw (rangePage phys i)) (honce j hj hpre')
    rw [hlook, if_pos hleaf, Option.bind_some, hentry, frameOf_turn (hphys.trans (by decide)) hturn]
    rfl
  · next hcov =>
    have hturn : ¬ pageDistance virt w < count.toNat := hcov
    rw [overlay_rangePage_of_not hturn]
    rfl

omit hheap in
/-- `unmap_4k` is its update. -/
theorem wp_perform_unmap (h : Working K S m) {virt count : UInt64}
    (haway : (Call.unmap virt count).Away K) {assume : Event → Prop} :
    (K.unmap4k virt count).wp assume (fun _ m' ↦ (Working K S m' ∧
      ∀ w, m'.walk w = ((Call.unmap virt count).assign w).getD (m.walk w)) ∧
      Space.ChangedIn 3 m m') m := by
  have hzero : 0 ∉ S.region := fun h0 ↦ zero_not_mem_imagePages (hreg h0)
  have hpages : ∀ i < count.toNat, ∀ w : UInt64, w.toNat / 4096 ∈ S.region →
      pageOf (rangePage virt i) ≠ pageOf w := avoids_of_away hreg haway
  refine Exec.wp_mono (wp_unmap4k hpml4 h.sound h.offset hzero h.small hpages) ?_
  intro _ m' hm'
  refine ⟨⟨⟨hm'.sound, hm'.kernelOffset.trans h.offset, small_of_stage h.small hm'⟩, fun w ↦ ?_⟩,
    hm'.changed⟩
  rw [Machine.walk_eq, hm'.look, Call.assign]
  split
  · next hcov =>
    have hturn : pageDistance virt w < count.toNat := hcov
    have hpre : (pathOf (rangePage virt (pageDistance virt w))).take 4 <+: pathOf w :=
      page_of_covered hturn
    have hlook :=
      Space.overlay_of_covered (f := m.look) (n := 3) (rangePage virt) (fun _ ↦ 0) hturn hpre
      fun _ _ _ ↦ rfl
    rw [hlook, leaf_bottom]
    rfl
  · next hcov =>
    have hturn : ¬ pageDistance virt w < count.toNat := hcov
    rw [overlay_rangePage_of_not hturn]
    rfl

/-- One call is its update. -/
theorem wp_perform (h : Working K S m) {c : Call} (haway : c.Away K) (hbelow : c.Below) :
    (K.perform c).wp Event.Allocates (fun _ m' ↦ (Working K S m' ∧
      ∀ w, m'.walk w = (c.assign w).getD (m.walk w)) ∧ Space.ChangedIn 3 m m') m := by
  cases c with
  | map virt phys count => exact wp_perform_map hheap hpml4 hreg h haway hbelow
  | unmap virt count => exact wp_perform_unmap hpml4 hreg h haway

/-- A sequence of calls is the history of their updates. -/
theorem wp_performAll (h : Working K S m) {calls : List Call} (haway : ∀ c ∈ calls, c.Away K)
    (hbelow : ∀ c ∈ calls, c.Below) :
    (Exec.forEach calls K.perform).wp Event.Allocates (fun _ m' ↦ Working K S m' ∧
      ∀ w, m'.walk w = latest Call.assign calls m.walk w) m := by
  refine Exec.wp_forEach
    (fun done m' ↦ Working K S m' ∧ ∀ w, m'.walk w = latest Call.assign done m.walk w) []
    ⟨h, fun _ ↦ rfl⟩ ?_
  rintro before c after heq m' ⟨hw, hwalk⟩
  have hmem : c ∈ calls := by
    rw [List.nil_append] at heq
    rw [heq]
    simp
  refine Exec.wp_mono (wp_perform hheap hpml4 hreg hw (haway c hmem) (hbelow c hmem)) ?_
  rintro _ m'' ⟨⟨hw', hwalk'⟩, -⟩
  refine ⟨hw', fun w ↦ ?_⟩
  rw [hwalk', hwalk, latest_snoc]

end Step

/-- A state between two calls is one the first call could have started in. -/
theorem Working.ready {S : Space} (hheap : S.heap = K.heap) (hpml4 : S.pml4 = K.pml4)
    (hreg : S.region ⊆ K.imagePages) (hw : Working K S m) : K.Ready m where
  offset_aligned := by
    rw [hw.offset]
    exact S.offset_aligned
  heapOffset_le := hheap ▸ hw.sound.heapOffset_le
  root := by
    rw [hw.offset, ← hpml4]
    exact hw.sound.root
  separated := hw.sound.separated
  tables := by
    intro t ht
    have htr := hw.sound.translate_table ht (x := 0) (by decide)
    rw [UInt64.add_zero] at htr
    rw [hw.offset]
    exact ⟨hreg (hw.sound.tables t ht), htr⟩
  heap := by
    intro p hp hlow hend
    rw [← hheap] at hlow hend
    rw [hw.offset]
    exact hw.sound.linear p (hw.sound.free_mem p ⟨hp, hlow, hend⟩)
  fresh := by
    intro p hp hlow hend ht
    rw [← hheap] at hlow hend
    rw [hw.offset] at ht
    exact hw.sound.fresh p ⟨hp, hlow, hend⟩ ht
  clear := hw.sound.clear
  small := hw.small

/-- What is invariant between calls is what the first call needed. -/
theorem Ready.of_working {m' : Machine} (h : K.Ready m) (hw : Working K h.space m') :
    K.Ready m' := by
  have hreg : h.space.region ⊆ K.imagePages := fun _ hn ↦ hn.1
  exact hw.ready rfl rfl hreg

/-- **Kernel 4 KiB mappings.** After any sequence of `map_4k` and `unmap_4k` calls that keep away
from the kernel image, with physical ranges below `2 ^ 48` and no allocation failing, the calls have
returned, the tree is again as before, and the hardware walk of every address gives what the latest
call covering its page says, and the original translation where no call covers it. -/
theorem Ready.perform_refines (h : K.Ready m) (calls : List Call) (haway : ∀ c ∈ calls, c.Away K)
    (hbelow : ∀ c ∈ calls, c.Below) :
    (Exec.forEach calls K.perform).wp Event.Allocates (fun _ m' ↦ K.Ready m' ∧ m'.root = m.root ∧
      ∀ v, m'.walk v = latest Call.assign calls m.walk v) m := by
  have hworking : Working K h.space m := ⟨h.sound, rfl, h.small⟩
  have hreg : h.space.region ⊆ K.imagePages := fun _ hn ↦ hn.1
  refine Exec.wp_mono (wp_performAll rfl rfl hreg hworking haway hbelow) ?_
  rintro _ m' ⟨hw, hwalk⟩
  exact ⟨h.of_working hw, hw.sound.root.trans h.root.symm, hwalk⟩

/-! ### A small kernel -/

/-- A kernel image of seventeen pages: the PML4, then a heap of sixteen pages. -/
def small : Kernel where
  heap :=
    { heapStart := 0xFFFF800000001000
      heapEnd := 0xFFFF800000011000
      start_pos := by decide
      start_le_end := by decide }
  pml4 := 0xFFFF800000000000
  imageEnd := 0xFFFF800000011000
  pml4_aligned := by decide
  pml4_mem := by decide
  heap_mem := by decide
  heap_apart := by decide

/-- Its tables, with the image at 1 MiB: the first three heap pages are the tables below the PML4,
and the page table maps the image. -/
def smallEntries : ℕ → ℕ → UInt64
  | 256, i => if i = 256 then 0x101003 else 0
  | 257, i => if i = 0 then 0x102003 else 0
  | 258, i => if i = 0 then 0x103003 else 0
  | 259, i => if i < 17 then UInt64.ofNat (0x100003 + 4096 * i) else 0
  | _, _ => 0

/-- The small kernel after three page allocations. -/
def smallMachine : Machine where
  mem := ofEntries smallEntries
  cr3 := 0x100000
  heapOffset := 0x3000
  kernelOffset := 0xFFFF7FFFFFF00000

/-- The tables of the small kernel and their paths. -/
def smallTables : List (List Index × ℕ) :=
  [([], 256), ([256], 257), ([256, 0], 258), ([256, 0, 0], 259)]

theorem child_smallEntries {p : List Index} {t s : ℕ} {i : Index} (h : (p, t) ∈ smallTables)
    (hs : x86.child p.length (entryAt smallMachine.mem t i) = some s) :
    (p ++ [i], s) ∈ smallTables ∧ (entryAt smallMachine.mem t i).toNat < 2 ^ 52 := by
  have hentry : entryAt smallMachine.mem t i = smallEntries t i :=
    entryAt_ofEntries smallEntries t i
  rw [hentry] at hs ⊢
  simp only [smallTables, List.mem_cons, Prod.mk.injEq, List.not_mem_nil, or_false] at h
  rcases h with ⟨rfl, rfl⟩ | ⟨rfl, rfl⟩ | ⟨rfl, rfl⟩ | ⟨rfl, rfl⟩
  · by_cases hi : (i : ℕ) = 256
    · obtain rfl : i = 256 := Fin.ext hi
      obtain rfl : 257 = s := Option.some.inj hs
      decide
    · simp [smallEntries, hi] at hs
  · by_cases hi : (i : ℕ) = 0
    · obtain rfl : i = 0 := Fin.ext hi
      obtain rfl : 258 = s := Option.some.inj hs
      decide
    · simp [smallEntries, hi] at hs
  · by_cases hi : (i : ℕ) = 0
    · obtain rfl : i = 0 := Fin.ext hi
      obtain rfl : 259 = s := Option.some.inj hs
      decide
    · simp [smallEntries, hi] at hs
  · exact absurd (child_eq_some hs).2.1 (by decide)

theorem mem_smallTables {p : List Index} {t : ℕ} (h : smallMachine.tableAt p = some t) :
    (p, t) ∈ smallTables :=
  TreeFormat.tableAt_induction (P := fun p t ↦ (p, t) ∈ smallTables) (by decide)
    (fun _ _ _ _ ht hs ↦ (child_smallEntries ht hs).1) h

/-- The pages of the image of the small kernel. -/
def smallPage (k : ℕ) : UInt64 := UInt64.ofNat (kernelBase.toNat + 4096 * k)

theorem translate_smallPage : ∀ k < 17, smallMachine.translate (smallPage k) =
    some (smallPage k - smallMachine.kernelOffset).toNat := by decide

theorem exists_smallPage {p : UInt64} (hp : p.toNat % 4096 = 0)
    (hlow : small.heap.heapStart.toNat ≤ p.toNat)
    (hend : p.toNat + 4096 ≤ small.heap.heapEnd.toNat) :
    ∃ k < 17, p = smallPage k ∧ p.toNat = kernelBase.toNat + 4096 * k := by
  have hlow' : kernelBase.toNat + 4096 ≤ p.toNat := hlow
  have hend' : p.toNat + 4096 ≤ kernelBase.toNat + 69632 := hend
  have hbase : kernelBase.toNat % 4096 = 0 := by decide
  have hk : kernelBase.toNat + 4096 * ((p.toNat - kernelBase.toNat) / 4096) = p.toNat := by omega
  refine ⟨(p.toNat - kernelBase.toNat) / 4096, by omega, ?_, hk.symm⟩
  rw [smallPage, hk, UInt64.ofNat_toNat]

theorem leaf_smallEntries {p : List Index} {t : ℕ} {i : Index} (h : (p, t) ∈ smallTables)
    (hleaf : x86.leaf p.length (entryAt smallMachine.mem t i) = true) : p.length = 3 := by
  have hentry : entryAt smallMachine.mem t i = smallEntries t i :=
    entryAt_ofEntries smallEntries t i
  rw [hentry] at hleaf
  simp only [smallTables, List.mem_cons, Prod.mk.injEq, List.not_mem_nil, or_false] at h
  rcases h with ⟨rfl, rfl⟩ | ⟨rfl, rfl⟩ | ⟨rfl, rfl⟩ | ⟨rfl, rfl⟩
  · by_cases hi : (i : ℕ) = 256
    · exact absurd hleaf (by rw [smallEntries, if_pos hi]; decide)
    · exact absurd hleaf (by rw [smallEntries, if_neg hi]; decide)
  · by_cases hi : (i : ℕ) = 0
    · exact absurd hleaf (by rw [smallEntries, if_pos hi]; decide)
    · exact absurd hleaf (by rw [smallEntries, if_neg hi]; decide)
  · by_cases hi : (i : ℕ) = 0
    · exact absurd hleaf (by rw [smallEntries, if_pos hi]; decide)
    · exact absurd hleaf (by rw [smallEntries, if_neg hi]; decide)
  · rfl

theorem ready_smallMachine : small.Ready smallMachine where
  offset_aligned := by decide
  heapOffset_le := by decide
  root := by decide
  separated := by
    intro p q t hp hq
    have hinj : ∀ a ∈ smallTables, ∀ b ∈ smallTables, a.2 = b.2 → a.1 = b.1 := by decide
    exact hinj _ (mem_smallTables hp) _ (mem_smallTables hq) rfl
  tables := by
    rintro t ⟨p, hp⟩
    have hall : ∀ a ∈ smallTables, (kernelBase.toNat / 4096 ≤
        (UInt64.ofNat (4096 * a.2) + smallMachine.kernelOffset).toNat / 4096 ∧
        (UInt64.ofNat (4096 * a.2) + smallMachine.kernelOffset).toNat / 4096 * 4096 <
          small.imageEnd.toNat) ∧
        smallMachine.translate (UInt64.ofNat (4096 * a.2) + smallMachine.kernelOffset) =
          some (4096 * a.2) := by decide
    obtain ⟨hmem, htr⟩ := hall (p, t) (mem_smallTables hp)
    dsimp only at hmem htr
    exact ⟨hmem, htr⟩
  heap := by
    intro p hp hlow hend
    have hlow' : kernelBase.toNat + 16384 ≤ p.toNat := hlow
    have hstart : small.heap.heapStart.toNat ≤ p.toNat := Nat.le_trans (by decide) hlow'
    obtain ⟨k, hk, rfl, -⟩ := exists_smallPage hp hstart hend
    exact translate_smallPage k hk
  fresh := by
    rintro p hp hlow hend ⟨q, hq⟩
    have hlow' : kernelBase.toNat + 16384 ≤ p.toNat := hlow
    have hstart : small.heap.heapStart.toNat ≤ p.toNat := Nat.le_trans (by decide) hlow'
    obtain ⟨k, hk, rfl, hval⟩ := exists_smallPage hp hstart hend
    have hall : ∀ k < 17, 4 ≤ k → ∀ a ∈ smallTables,
        a.2 ≠ (smallPage k - smallMachine.kernelOffset).toNat / 4096 := by decide
    exact hall k hk (by omega) _ (mem_smallTables hq) rfl
  clear := by
    intro p t i s hp hs
    exact (child_smallEntries (mem_smallTables hp) hs).2
  small := by
    intro v l hl
    obtain ⟨p, t, i, hp, -, rfl, hleaf⟩ := Machine.exists_of_look hl
    exact leaf_smallEntries (mem_smallTables hp) hleaf

/-- Two calls on the small kernel: two pages above the image, and the first of them unmapped again.
-/
def smallCalls : List Call :=
  [Call.map 0xFFFF800000100000 0x300000 2, Call.unmap 0xFFFF800000100000 1]

theorem perform_refines_small :
    (Exec.forEach smallCalls small.perform).wp Event.Allocates (fun _ m' ↦ small.Ready m' ∧
      m'.root = smallMachine.root ∧
      ∀ v, m'.walk v = latest Call.assign smallCalls smallMachine.walk v) smallMachine := by
  have haway : ∀ c ∈ smallCalls, c.Away small := by
    intro c hc w ⟨hlow, hend⟩ hcov
    have hlow' : 0xFFFF800000000 ≤ w.toNat / 4096 := hlow
    have hend' : w.toNat / 4096 * 4096 < 0xFFFF800000011000 := hend
    have hcov' : pageDistance 0xFFFF800000100000 w < 2 := by
      simp only [smallCalls, List.mem_cons, List.not_mem_nil, or_false] at hc
      rcases hc with rfl | rfl
      · exact hcov
      · exact Nat.lt_succ_of_lt hcov
    have hvirt : pageOf 0xFFFF800000100000 = 2 ^ 35 + 256 := by decide
    rw [pageDistance, hvirt, pageOf] at hcov'
    omega
  exact ready_smallMachine.perform_refines smallCalls haway (by decide)

end Kernel

end Aidos.Paging
