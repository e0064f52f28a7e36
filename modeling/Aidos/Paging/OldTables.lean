import Aidos.Paging.BootMapping
import Aidos.Paging.HigherHalf
import Aidos.Paging.KernelMapping
import Aidos.Paging.VirtToPhys

/-!
# The old tables, from `setup_paging` on

After `setup_paging` no table of the kernel is one of the old tree, and the old tree is as it was.
`setup_paging_copies` says for how long: as long as every later call of `map_4k`, `map_2m`,
`unmap_4k` and `unmap_2m` is `Proper` in the state it is made in. That is, it meets no larger page
than its own, and it leaves the pages where they are that hold the tables or are free heap.

The first of these conditions is one that `virt_to_phys` and `setup_paging` test for and that
`get_or_create_table` and `get_table_if_exists` do not: they take the frame of a large page for a
table. In `handedMachine` this frame is an old table, and `unmap_2m` clears an entry of it
(`not_setup_paging_copies`).
-/

namespace Aidos.Paging

open ByteMemory Memory

/-! ### The calls -/

/-- A call of the kernel's mapping interface: `map_4k` and `map_2m`, `unmap_4k` and `unmap_2m`. -/
inductive PagingCall where
  /-- Map pages of this size. -/
  | map (size : PageSize) (virt phys count : UInt64)
  /-- Unmap pages of this size. -/
  | unmap (size : PageSize) (virt count : UInt64)

namespace PagingCall

/-- The size of the pages. -/
def size : PagingCall → PageSize
  | map s _ _ _ => s
  | unmap s _ _ => s

/-- The start of the range. -/
def virt : PagingCall → UInt64
  | map _ v _ _ => v
  | unmap _ v _ => v

/-- The number of turns. -/
def count : PagingCall → UInt64
  | map _ _ _ n => n
  | unmap _ _ n => n

/-- The entry stored in turn `i`. -/
def entry : PagingCall → ℕ → UInt64
  | map s _ p _, i => s.entry (rangePage p i)
  | unmap _ _ _, _ => 0

/-- The program of a call. -/
def prog (K : Kernel) : PagingCall → Prog Unit
  | map .small v p n => K.map4k v p n
  | map .large v p n => K.map2m v p n
  | unmap .small v n => K.unmap4k v n
  | unmap .large v n => K.unmap2m v n

/-- The body of its loop, in turn `i`. -/
def body (K : Kernel) (c : PagingCall) (i : ℕ) : Prog Unit :=
  match c with
  | map .small v p _ =>
    place4k K.getOrCreateTable K.pml4 (rangePage v i) (PageSize.small.entry (rangePage p i))
  | map .large v p _ =>
    place2m K.getOrCreateTable K.pml4 (rangePage v i) (PageSize.large.entry (rangePage p i))
  | unmap .small v _ => K.unmapPage v (rangePage v i)
  | unmap .large v _ => K.unmapLarge v (rangePage v i)

theorem prog_eq (K : Kernel) (c : PagingCall) :
    c.prog K = Exec.forUpTo c.count.toNat (c.body K) := by
  rcases c with ⟨_ | _, _, _, _⟩ | ⟨_ | _, _, _⟩ <;> rfl

/-- The entry is the end of its path. -/
theorem child_entry (c : PagingCall) (i : ℕ) : x86.child c.size.depth (c.entry i) = none := by
  rcases c with ⟨s, v, p, n⟩ | ⟨s, v, n⟩
  · exact (s.entry_leaf fun _ ↦ toNat_rangePage_mod p i).1
  · exact child_zero _

end PagingCall

namespace Kernel

variable {K : Kernel} {k old : UInt64} {m₀ m m' : Machine} {S : Space}

/-- The pages that the paging code is going to access: those of the tables, at `KERNEL_OFFSET`, and
the free pages of the heap. -/
def inUse (K : Kernel) (m : Machine) : Set ℕ :=
  {n | (∃ t, m.IsTable t ∧ n = (UInt64.ofNat (4096 * t) + m.kernelOffset).toNat / 4096) ∨
    ∃ p : UInt64, (p.toNat % 4096 = 0 ∧
      K.heap.heapStart.toNat + m.heapOffset.toNat ≤ p.toNat ∧
        p.toNat + 4096 ≤ K.heap.heapEnd.toNat) ∧ n = p.toNat / 4096}

/-- A call that the paging code can make in the state `m`. -/
structure Proper (K : Kernel) (m : Machine) (c : PagingCall) : Prop where
  /-- In no turn is the page part of a larger one. -/
  fits : ∀ i < c.count.toNat, ∀ l, m.look (rangePage c.virt i) = some l → c.size.depth ≤ l.1
  /-- The pages in use are not mapped to other frames, and not unmapped. -/
  stays : ∀ i < c.count.toNat, ∀ w : UInt64, w.toNat / 4096 ∈ K.inUse m →
    (pathOf (rangePage c.virt i)).take (c.size.depth + 1) <+: pathOf w →
      x86.leaf c.size.depth (c.entry i) = true ∧
        physical w (c.size.depth, c.entry i) = some (w - m.kernelOffset).toNat

/-- `m'` is reached from `m` by proper calls, none of which runs out of memory. -/
inductive Later (K : Kernel) (m : Machine) : Machine → Prop
  | start : Later K m m
  | call {m₁ : Machine} (c : PagingCall) (hbefore : Later K m m₁) (hc : K.Proper m₁ c)
      (hev : ∀ e ∈ ((c.prog K).run m₁).events, e.Allocates) :
      Later K m ((c.prog K).run m₁).state

/-- The region may be narrowed to what is in use. -/
theorem inUse_of_sound {hk : k.toNat % 4096 = 0} {region : Set ℕ} (hoffset : m.kernelOffset = k)
    (h : (K.space k hk region).Sound m) :
    (K.space k hk (K.inUse m)).Sound m ∧ K.inUse m ⊆ region := by
  subst hoffset
  exact ⟨h.narrow, h.narrow_subset⟩

/-- One turn stores its entry, or finds nothing to clear. -/
theorem wp_body (hheap : S.heap = K.heap) (hpml4 : S.pml4 = K.pml4) (hzero : 0 ∉ S.region)
    (h : S.Sound m) (hoffset : m.kernelOffset = S.offset) (c : PagingCall) (i : ℕ)
    (hfits : ∀ l, m.look (rangePage c.virt i) = some l → c.size.depth ≤ l.1)
    (hstays : ∀ w : UInt64, w.toNat / 4096 ∈ S.region →
      (pathOf (rangePage c.virt i)).take (c.size.depth + 1) <+: pathOf w →
        x86.leaf c.size.depth (c.entry i) = true ∧
          physical w (c.size.depth, c.entry i) = some (w - S.offset).toNat) :
    (c.body K i).wp Event.Allocates (fun _ m' ↦ S.Sound m' ∧
      Space.Remapped c.size.depth (rangePage c.virt i) (c.entry i) m m') m := by
  have hgets : Space.GetsTable S m.kernelOffset K.getOrCreateTable := by
    rw [hoffset]
    exact getsTable hheap
  have hchild := c.child_entry i
  rcases c with ⟨_ | _, v, p, n⟩ | ⟨_ | _, v, n⟩
  · show (place4k K.getOrCreateTable K.pml4 _ _).wp _ _ _
    rw [← hpml4]
    exact h.wp_place4k hgets
      (fun l hl ↦ Nat.le_antisymm (Machine.look_depth hl) (hfits l hl)) hstays
  · show (place2m K.getOrCreateTable K.pml4 _ _).wp _ _ _
    rw [← hpml4]
    exact h.wp_place2m hgets hchild hfits hstays
  · refine Exec.wp_mono (wp_unmapPage hpml4 h hoffset hzero
      (fun l hl ↦ Nat.le_antisymm (Machine.look_depth hl) (hfits l hl))
      fun w hw hpre ↦ ?_) fun _ _ hm' ↦ hm'.1
    exact absurd (hstays w hw hpre).1 (by rw [PagingCall.entry, leaf_zero]; simp)
  · refine Exec.wp_mono (wp_unmapLarge hpml4 h hoffset hzero hfits fun w hw hpre ↦ ?_)
      fun _ _ hm' ↦ hm'.1
    exact absurd (hstays w hw hpre).1 (by rw [PagingCall.entry, leaf_zero]; simp)

/-- The state between two calls. -/
structure Detached (K : Kernel) (k : UInt64) (hk : k.toNat % 4096 = 0) (m₀ m : Machine) : Prop where
  /-- `KERNEL_OFFSET` is what it was set to. -/
  kernelOffset : m.kernelOffset = k
  /-- The tables and the free heap are mapped at that distance. -/
  sound : (K.space k hk (K.inUse m)).Sound m
  /-- They are in the image. -/
  image : K.inUse m ⊆ K.imagePages
  /-- The old tables are as they were. -/
  kept : ∀ q, m₀.IsTable (q / 4096) → m.mem q = m₀.mem q

section Later

variable (h₀ : K.HandedOver old m₀) (hplaced : K.Placed k m₀)
include h₀

/-- A table in the image is no old one. -/
theorem not_isTable_of_image (hsound : (K.space k hplaced.offset_aligned (K.inUse m)).Sound m)
    (himage : K.inUse m ⊆ K.imagePages) {t : ℕ} (ht : m.IsTable t) : ¬ m₀.IsTable t := by
  have hpage := himage (hsound.tables t ht)
  have hframe : ((K.space k hplaced.offset_aligned (K.inUse m)).pointer t - k).toNat = 4096 * t :=
    Space.toNat_pointer_sub (S := K.space k hplaced.offset_aligned (K.inUse m))
      (Machine.isTable_lt ht)
  have hlinear := hplaced.linear _ hpage
  rw [hframe] at hlinear
  have hnot := h₀.apart _ _ hpage hlinear
  rwa [Nat.mul_div_cancel_left t (by decide)] at hnot

/-- What `setup_paging` leaves. -/
theorem SetUp.detached {s : ℕ} (h : K.SetUp k (fun e ↦ e.toNat < 2 ^ 52) m₀ s m) :
    K.Detached k hplaced.offset_aligned m₀ m := by
  obtain ⟨hsound, himage⟩ := inUse_of_sound h.kernelOffset (h.sound h₀ hplaced)
  exact ⟨h.kernelOffset, hsound, himage, (h.upperCopy h₀).kept⟩

include hplaced in
/-- A call in the lower half, which is empty after `setup_paging`, can be made. -/
theorem SetUp.proper_of_lower {s : ℕ} (h : K.SetUp k (fun e ↦ e.toNat < 2 ^ 52) m₀ s m)
    {c : PagingCall} (hlow : ∀ i < c.count.toNat, ¬ Upper (rangePage c.virt i)) : K.Proper m c where
  fits := by
    intro i hi l hl
    rw [((h.upperCopy h₀).lower _ (hlow i hi)).2] at hl
    exact absurd hl (by simp)
  stays := by
    intro i hi w hw hpre
    have hupper := upper_of_imagePages ((h.detached h₀ hplaced).image hw)
    -- both begin with the same entry of the PML4
    have hfirst : index 39 (rangePage c.virt i) = index 39 w :=
      (List.cons_prefix_cons.1 (take_prefix_of_le (Nat.le_add_left 1 c.size.depth) hpre)).1
    rw [upper_iff, ← hfirst, ← upper_iff] at hupper
    exact absurd hupper (hlow i hi)

/-- **A proper call** leaves the old tables alone. -/
theorem Detached.wp_prog (h : K.Detached k hplaced.offset_aligned m₀ m) {c : PagingCall}
    (hc : K.Proper m c) :
    (c.prog K).wp Event.Allocates
      (fun _ m' ↦ K.Detached k hplaced.offset_aligned m₀ m') m := by
  have hzero : 0 ∉ K.inUse m := fun hin ↦ absurd (h.image hin).1 (by decide)
  have hloop : (c.prog K).wp Event.Allocates
      (fun _ ↦ (K.space k hplaced.offset_aligned (K.inUse m)).Stage c.size.depth m
        (Space.overlay c.size.depth (rangePage c.virt) c.entry m.look c.count.toNat)) m := by
    rw [PagingCall.prog_eq]
    refine Space.Stage.loop h.sound fun i hi m' hm' ↦ ?_
    refine wp_body rfl rfl hzero hm'.sound (hm'.kernelOffset.trans h.kernelOffset) c i
      (fun l hl ↦ ?_) fun w hw hpre ↦ ?_
    · rw [hm'.look] at hl
      exact (Space.overlay_cases hl).elim (hc.fits i hi l) Eq.ge
    · obtain ⟨hleaf, hphys⟩ := hc.stays i hi w hw hpre
      rw [h.kernelOffset] at hphys
      exact ⟨hleaf, hphys⟩
  refine Exec.wp_mono hloop fun _ m' hm' ↦ ?_
  have hoffset : m'.kernelOffset = k := hm'.kernelOffset.trans h.kernelOffset
  obtain ⟨hsound, hsubset⟩ := inUse_of_sound hoffset hm'.sound
  have himage := hsubset.trans h.image
  refine ⟨hoffset, hsound, himage, fun q hq ↦ ?_⟩
  rw [← h.kept q hq]
  by_contra hne
  -- what a call changes is in its tables
  obtain ⟨p, -, hp⟩ := hm'.changed q hne
  exact not_isTable_of_image h₀ hplaced hsound himage ⟨p, hp⟩ hq

/-- **All later calls** leave the old tables alone, as long as they are proper. -/
theorem Detached.of_later (h : K.Detached k hplaced.offset_aligned m₀ m) (hlater : K.Later m m') :
    K.Detached k hplaced.offset_aligned m₀ m' := by
  induction hlater with
  | start => exact h
  | call c _ hc hev ih =>
    obtain ⟨_, -, hm'⟩ := ih.wp_prog h₀ hplaced hc hev
    exact hm'

end Later

/-- Where the image is in its place, the new tables can be worked on. -/
theorem HandedOver.wp_setUp (h : K.HandedOver old m₀) (hplaced : K.Placed k m₀) :
    (K.setupPaging old k).wp (Truthful m₀ old)
      (fun _ m ↦ ∃ s, K.SetUp k (fun e ↦ e.toNat < 2 ^ 52) m₀ s m) m₀ :=
  h.wp_setupPaging_of_trusts _ h.trusts (fun _ _ _ _ _ ht hs hx ↦ hplaced.good ht hs hx) k

/-- **The kernel's `setup_paging` keeps the higher half.** If no allocation fails and `virt_to_phys`
tells the truth, the tree left in use is a copy of the upper half of the old tree in memory of its
own. Upper addresses have the walk they had, and lower ones have none. If the image is where
`setup_paging` takes it to be, no table becomes an old one, and no byte of an old table changes, for
as long as all calls of the mapping interface are proper. -/
theorem HandedOver.setup_paging_copies (h : K.HandedOver old m₀) (k : UInt64) :
    (K.setupPaging old k).wp (Truthful m₀ old) (fun _ m ↦ UpperCopy m₀ m ∧ m.kernelOffset = k ∧
      (∀ v, m.walk v = if Upper v then m₀.walk v else none) ∧
      (K.Placed k m₀ → ∀ m', K.Later m m' → (∀ t, m'.IsTable t → ¬ m₀.IsTable t) ∧
        ∀ q, m₀.IsTable (q / 4096) → m'.mem q = m₀.mem q)) m₀ := by
  have hcopy := h.wp_setupPaging k
  have hsetUp : (K.setupPaging old k).wp (Truthful m₀ old) (fun _ m ↦ K.Placed k m₀ →
      ∃ s, K.SetUp k (fun e ↦ e.toNat < 2 ^ 52) m₀ s m) m₀ := by
    by_cases hplaced : K.Placed k m₀
    · exact Exec.wp_mono (h.wp_setUp hplaced) fun _ _ hm _ ↦ hm
    · exact Exec.wp_mono hcopy fun _ _ _ hp ↦ absurd hp hplaced
  refine Exec.wp_mono (Exec.wp_and hcopy hsetUp) ?_
  rintro _ m ⟨⟨hm, hk, -⟩, hdone⟩
  refine ⟨hm, hk, fun v ↦ ?_, fun hplaced m' hlater ↦ ?_⟩
  · rw [Machine.walk_eq]
    split
    · next hv =>
      rw [hm.look v hv]
      rfl
    · next hv =>
      rw [(hm.lower v hv).2]
      rfl
  · obtain ⟨s, hs⟩ := hdone hplaced
    have hdetached := (hs.detached h hplaced).of_later h hplaced hlater
    exact ⟨fun t ht ↦ not_isTable_of_image h hplaced hdetached.sound hdetached.image ht,
      hdetached.kept⟩

/-! ### The small kernel, handed over -/

/-- Tables for the small kernel: its image is in the second GiB, and the tables are in the third,
which is mapped to itself in the lower half and behind the image in the upper half. -/
def handedEntries : ℕ → ℕ → UInt64
  | 0x80000, i => if i = 0 then 0x40000083 else if i = 1 then 0x80000083 else 0
  | 0x80001, i => if i = 2 then 0x80000083 else 0
  | 0x80002, i => if i = 0 then 0x80001003 else if i = 256 then 0x80000003 else 0
  | _, _ => 0

/-- The machine that is handed over. -/
def handedMachine : Machine where
  mem := ofEntries handedEntries
  cr3 := 0x80002000
  heapOffset := 0
  kernelOffset := 0

/-- The distance of the image from physical memory. -/
def handedOffset : UInt64 := 0xFFFF7FFFC0000000

/-- The old tables and their paths. -/
def handedTables : List (List Index × ℕ) := [([], 0x80002), ([0], 0x80001), ([256], 0x80000)]

theorem entryAt_handedMachine (t : ℕ) (i : Index) :
    entryAt handedMachine.mem t i = handedEntries t i := entryAt_ofEntries handedEntries t i

/-- The table of the upper half has no tables below it. -/
theorem child_upper (d : ℕ) (i : Index) :
    x86.child d (entryAt handedMachine.mem 0x80000 i) = none := by
  rw [entryAt_handedMachine]
  by_cases hi : (i : ℕ) = 0
  · rw [handedEntries, if_pos hi]
    exact child_of_large (by decide)
  by_cases hi' : (i : ℕ) = 1
  · rw [handedEntries, if_neg hi, if_pos hi']
    exact child_of_large (by decide)
  · rw [handedEntries, if_neg hi, if_neg hi', child_zero]

theorem child_handedEntries {p : List Index} {t s : ℕ} {i : Index} (h : (p, t) ∈ handedTables)
    (hs : x86.child p.length (entryAt handedMachine.mem t i) = some s) :
    (p ++ [i], s) ∈ handedTables ∧ (entryAt handedMachine.mem t i).toNat < 2 ^ 63 := by
  rw [entryAt_handedMachine] at hs ⊢
  simp only [handedTables, List.mem_cons, Prod.mk.injEq, List.not_mem_nil, or_false] at h
  rcases h with ⟨rfl, rfl⟩ | ⟨rfl, rfl⟩ | ⟨rfl, rfl⟩
  · by_cases hi : (i : ℕ) = 0
    · obtain rfl : i = 0 := Fin.ext hi
      obtain rfl : 0x80001 = s := Option.some.inj hs
      decide
    by_cases hi' : (i : ℕ) = 256
    · obtain rfl : i = 256 := Fin.ext hi'
      obtain rfl : 0x80000 = s := Option.some.inj hs
      decide
    · simp [handedEntries, hi, hi'] at hs
  · by_cases hi : (i : ℕ) = 2
    · obtain rfl : i = 2 := Fin.ext hi
      exact absurd (child_eq_some hs).2.2.1 (by decide)
    · simp [handedEntries, hi] at hs
  · exact absurd hs (by rw [← entryAt_handedMachine, child_upper]; simp)

theorem mem_handedTables {p : List Index} {t : ℕ} (h : handedMachine.tableAt p = some t) :
    (p, t) ∈ handedTables :=
  TreeFormat.tableAt_induction (P := fun p t ↦ (p, t) ∈ handedTables) (by decide)
    (fun _ _ _ _ ht hs ↦ (child_handedEntries ht hs).1) h

theorem isTable_handedMachine {t : ℕ} (h : handedMachine.IsTable t) :
    t = 0x80002 ∨ t = 0x80001 ∨ t = 0x80000 := by
  obtain ⟨p, hp⟩ := h
  have hall : ∀ a ∈ handedTables, a.2 = 0x80002 ∨ a.2 = 0x80001 ∨ a.2 = 0x80000 := by decide
  exact hall _ (mem_handedTables hp)

/-- The first two GiB of the upper half are below one entry of the PML4. -/
theorem index_upper {p : UInt64} (hp : kernelBase.toNat ≤ p.toNat)
    (hlt : p.toNat < kernelBase.toNat + 2 ^ 31) : index 39 p = 256 := by
  have hbase : kernelBase.toNat = 0xFFFF800000000000 := rfl
  refine Fin.ext ?_
  rw [toNat_index]
  show _ = 256
  omega

/-- A pointer into the first two GiB of the upper half is mapped to the second and third GiB. -/
theorem look_handedMachine {p : UInt64} (hp : kernelBase.toNat ≤ p.toNat)
    (hlt : p.toNat < kernelBase.toNat + 2 ^ 31) :
    Canonical p ∧ handedMachine.look p = some (1, entryAt handedMachine.mem 0x80000 (index 30 p)) ∧
      entryAt handedMachine.mem 0x80000 (index 30 p) =
        if p.toNat < kernelBase.toNat + 2 ^ 30 then 0x40000083 else 0x80000083 := by
  have hbase : kernelBase.toNat = 0xFFFF800000000000 := rfl
  have hchild : x86.child 0 (entryAt handedMachine.mem 0x80002 256) = some 0x80000 := by
    rw [entryAt_handedMachine]
    decide
  have hroot : handedMachine.root = 0x80002 := rfl
  have hentry : entryAt handedMachine.mem 0x80000 (index 30 p) =
      if p.toNat < kernelBase.toNat + 2 ^ 30 then 0x40000083 else 0x80000083 := by
    rw [entryAt_handedMachine]
    split
    · next hlow => exact if_pos (by rw [toNat_index]; omega)
    · next hhigh =>
      have hindex : (index 30 p : ℕ) = 1 := by rw [toNat_index]; omega
      exact (if_neg (by omega)).trans (if_pos hindex)
  refine ⟨Or.inr (by omega), ?_, hentry⟩
  have hleaf : x86.leaf 1 (entryAt handedMachine.mem 0x80000 (index 30 p)) = true := by
    rw [hentry]
    split <;> decide
  rw [Machine.look, lookAt, hroot, pathOf, index_upper hp hlt,
    TreeFormat.look_cons_of_child _ hchild, TreeFormat.look_cons_of_none _ (child_upper _ _),
    if_pos hleaf]

theorem translate_handedMachine {p : UInt64} (hp : kernelBase.toNat ≤ p.toNat)
    (hlt : p.toNat < kernelBase.toNat + 2 ^ 31) :
    handedMachine.translate p = some (p - handedOffset).toNat := by
  obtain ⟨hcanonical, hlook, hentry⟩ := look_handedMachine hp hlt
  have hbase : kernelBase.toNat = 0xFFFF800000000000 := rfl
  have hoffset : handedOffset.toNat = 0xFFFF7FFFC0000000 := rfl
  rw [Machine.translate_of_look hcanonical hlook, hentry, UInt64.toNat_sub_of_le _ _
    (UInt64.le_iff_toNat_le.2 (by omega))]
  split
  · have hpage : leafPage (1, 0x40000083) = some (2 ^ 30, 2 ^ 30) := by decide
    rw [physical, hpage, Option.map_some]
    refine congrArg some ?_
    dsimp only
    omega
  · have hpage : leafPage (1, 0x80000083) = some (2 ^ 30, 2 ^ 31) := by decide
    rw [physical, hpage, Option.map_some]
    refine congrArg some ?_
    dsimp only
    omega

/-- The image is in the first two MiB. -/
theorem le_of_imagePages {p : UInt64} (hp : p.toNat / 4096 ∈ small.imagePages) :
    kernelBase.toNat ≤ p.toNat ∧ p.toNat < kernelBase.toNat + 2 ^ 21 := by
  have hlow : 0xFFFF800000000 ≤ p.toNat / 4096 := hp.1
  have hend : p.toNat / 4096 * 4096 < 0xFFFF800000011000 := hp.2
  have hbase : kernelBase.toNat = 0xFFFF800000000000 := rfl
  omega

theorem placed_handedMachine : small.Placed handedOffset handedMachine where
  offset_aligned := rfl
  linear := by
    intro p hp
    obtain ⟨hlow, hlt⟩ := le_of_imagePages hp
    exact translate_handedMachine hlow (hlt.trans (Nat.add_lt_add_left (by decide) _))
  clear := fun _ _ _ _ ht hs ↦ (child_handedEntries (mem_handedTables ht) hs).2

theorem isTable_upper : handedMachine.IsTable 0x80000 := ⟨[256], by decide⟩

theorem page_handedMachine : ∀ a ∈ handedTables,
    handedMachine.Page (UInt64.ofNat (4096 * a.2)) a.2 := by
  have hall : ∀ a ∈ handedTables, (UInt64.ofNat (4096 * a.2)).toNat % 4096 = 0 ∧
      handedMachine.translate (UInt64.ofNat (4096 * a.2)) = some (4096 * a.2) := by decide
  exact fun a ha ↦ ⟨(hall a ha).1, (hall a ha).2⟩

/-- `virt_to_phys` is right about the image, which is where a large page starts. -/
theorem wp_virtToPhys_handedMachine (hk : handedMachine.KeepsTables m) {p : UInt64}
    (hp : p.toNat / 4096 ∈ small.imagePages) {assume : Event → Prop} :
    (virtToPhys p 0x80002000).wp assume
      (fun x m' ↦ m' = m ∧ handedMachine.translate p = some x.toNat) m := by
  obtain ⟨hlow, hlt⟩ := le_of_imagePages hp
  have hbase : kernelBase.toNat = 0xFFFF800000000000 := rfl
  have hfirst : p.toNat < kernelBase.toNat + 2 ^ 30 :=
    hlt.trans (Nat.add_lt_add_left (by decide) _)
  have htwo : p.toNat < kernelBase.toNat + 2 ^ 31 :=
    hlt.trans (Nat.add_lt_add_left (by decide) _)
  obtain ⟨hcanonical, hlook, hentry⟩ := look_handedMachine hlow htwo
  have htranslate := placed_handedMachine.linear p hp
  rw [if_pos hfirst] at hentry
  have he₀ : entryAt handedMachine.mem handedMachine.root (index 39 p) = 0x80000003 := by
    rw [index_upper hlow htwo]
    exact entryAt_handedMachine 0x80002 256
  refine Exec.wp_bind (wp_loadOld hk ⟨[], rfl⟩ (page_handedMachine ([], 0x80002) (by decide))
    (toNat_pml4Index p) ?_)
  rw [he₀, if_neg (by decide), if_neg (by decide)]
  refine Exec.wp_bind (wp_loadOld hk isTable_upper
    (page_handedMachine ([256], 0x80000) (by decide)) (toNat_pdptIndex p) ?_)
  rw [hentry, if_neg (by decide), if_pos (by decide)]
  rw [hentry] at hlook
  have hphysical := (Machine.translate_of_look hcanonical hlook).symm.trans htranslate
  have hanswer := (Machine.answer_page1g (by decide) hphysical).2 ⟨by decide, by omega⟩
  rw [hanswer, UInt64.ofNat_toNat]
  exact Exec.wp_pure ⟨rfl, htranslate⟩

theorem answers_handedMachine {p : UInt64} (hp : p.toNat / 4096 ∈ small.imagePages) :
    handedMachine.Answers 0x80002000 p := by
  obtain ⟨x, m', es, hrun, -, hx⟩ :=
    Exec.exists_run_of_wp (wp_virtToPhys_handedMachine ⟨rfl, fun _ _ ↦ rfl⟩ hp)
  exact ⟨⟨_, hx⟩, x, m', es, hrun⟩

theorem handedOver_handedMachine : small.HandedOver 0x80002000 handedMachine where
  root := rfl
  identity := by
    intro t ht
    rcases isTable_handedMachine ht with rfl | rfl | rfl <;> decide
  apart := by
    intro p q hp hq ht
    obtain ⟨hlow, hlt⟩ := le_of_imagePages hp
    have hbase : kernelBase.toNat = 0xFFFF800000000000 := rfl
    have hoffset : handedOffset.toNat = 0xFFFF7FFFC0000000 := rfl
    obtain rfl := Option.some.inj ((placed_handedMachine.linear p hp).symm.trans hq)
    rw [UInt64.toNat_sub_of_le _ _ (UInt64.le_iff_toNat_le.2 (by omega))] at ht
    rcases isTable_handedMachine ht with heq | heq | heq <;> omega
  own := by
    intro p p' q hp hp' hq hq'
    have hsame : p - handedOffset = p' - handedOffset := UInt64.toNat_inj.1 (Option.some.inj
      ((placed_handedMachine.linear p hp).symm.trans
        (hq.trans (hq'.symm.trans (placed_handedMachine.linear p' hp')))))
    rw [← UInt64.sub_add_cancel p handedOffset, hsame, UInt64.sub_add_cancel]
  heapOffset_le := by decide
  pml4 := answers_handedMachine pml4_page

/-- `virt_to_phys` tells the truth. -/
theorem yields_resolve_handedMachine {m : Machine} (hk : handedMachine.KeepsTables m) {p : UInt64}
    (hp : p.toNat / 4096 ∈ small.imagePages) :
    (resolve p 0x80002000).Yields (Truthful handedMachine 0x80002000)
      (fun x m' _ ↦ m' = m ∧ handedMachine.translate p = some x.toNat) m := by
  refine Exec.yields_bind (Exec.yields_of_wp (emits_virtToPhys fun _ ↦ trivial)
    (wp_virtToPhys_handedMachine hk hp)) ?_
  rintro x m' _ ⟨hm', hx⟩
  exact Exec.yields_bind (Q := fun _ m'' _ ↦ m'' = m) (Exec.yields_emit hx hm')
    fun _ _ _ hm'' ↦ Exec.yields_pure ⟨hm'', hx⟩

/-- The first page of its heap. -/
def firstPage : UInt64 := 0xFFFF800000001000

theorem firstPage_page : firstPage.toNat / 4096 ∈ small.imagePages := ⟨by decide, by decide⟩

/-- The turn of `copyTables` at an entry that points to no table. -/
theorem yields_turn_of_none {P : Event → Prop} (hread : ∀ v, P (Event.read v)) {m : Machine}
    {table index : UInt64} {d s : ℕ} {idx : Index} (hpage : m.Page table s)
    (hi : index.toNat = idx) (hd : d < 3) (hnone : x86.child d (entryAt m.mem s idx) = none)
    (f : UInt64 → UInt64 → Prog Unit) :
    (do
      let e ← load64 (table + 8 * index)
      let e' ← load64 (table + 8 * index)
      if present (e' &&& flagsMask) && !large (e' &&& flagsMask) then f e e' else pure () :
        Prog Unit).Yields P (fun _ m' _ ↦ m' = m) m := by
  have hload : (load64 (table + 8 * index)).Yields P
      (fun e m' _ ↦ m' = m ∧ e = entryAt m.mem s idx) m :=
    Exec.yields_of_wp (emits_load64 (hread _)) (hpage.wp_loadEntry hi ⟨rfl, rfl⟩)
  refine Exec.yields_bind hload ?_
  rintro e _ _ ⟨rfl, -⟩
  refine Exec.yields_bind hload ?_
  rintro e' m' _ ⟨hm', rfl⟩
  rw [present_and_flagsMask, large_and_flagsMask, if_neg fun hlink ↦ ?_]
  · exact Exec.yields_pure hm'
  · obtain ⟨hp, hl⟩ := Bool.and_eq_true_iff.1 hlink
    rw [child_of_pointer hp (by simpa using hl) hd] at hnone
    exact absurd hnone (by simp)

/-- A table without tables below it is left as it is. -/
theorem yields_copyTables_of_none {P : Event → Prop} (hread : ∀ v, P (Event.read v)) {m : Machine}
    {table : UInt64} {n d s : ℕ} (hpage : m.Page table s) (hd : d < 3)
    (hnone : ∀ i, x86.child d (entryAt m.mem s i) = none) :
    (K.copyTables old (n + 1) table 0).Yields P (fun _ m' _ ↦ m' = m) m := by
  refine Exec.yields_forUpTo (fun _ m' _ ↦ m' = m) rfl ?_
  rintro i hi _ _ rfl
  have hidx : (UInt64.ofNat (0 + i)).toNat = ((⟨i, hi⟩ : Index) : ℕ) := by
    rw [Nat.zero_add]
    exact UInt64.toNat_ofNat_of_lt' (Nat.lt_trans hi (by decide))
  exact yields_turn_of_none hread hpage hidx hd (hnone _) _

theorem page_image {p : UInt64} {f : ℕ} (hp : p.toNat / 4096 ∈ small.imagePages)
    (hf : (p - handedOffset).toNat = 4096 * f) (hal : p.toNat % 4096 = 0) :
    handedMachine.Page p f ∧ ¬ handedMachine.IsTable f := by
  have htr := placed_handedMachine.linear p hp
  have hapart := handedOver_handedMachine.apart p _ hp htr
  rw [hf] at htr hapart
  rw [Nat.mul_div_cancel_left f (by decide)] at hapart
  exact ⟨⟨hal, htr⟩, hapart⟩

/-- The copy of the table of the upper half. -/
theorem yields_copyUpper {m : Machine} (h : small.Copying handedOffset handedMachine m)
    (hoffset : m.heapOffset = 0) (flags : UInt64) :
    (do
      let newTable ← kmalloc small.heap 4096 4096
      memcpy newTable 0x80000000 4096
      let phys ← resolve newTable 0x80002000
      store64 (small.pml4 + 8 * UInt64.ofNat (256 + 0)) (phys ||| flags)
      small.copyTables 0x80002000 2 newTable 0).Yields (Truthful handedMachine 0x80002000)
      (fun _ m' _ ↦ small.Copying handedOffset handedMachine m' ∧
        ∀ i : Index, 257 ≤ (i : ℕ) → entryAt m'.mem 0x40000 i = entryAt m.mem 0x40000 i) m := by
  obtain ⟨hnew, hfree⟩ := page_image (f := 0x40001) firstPage_page (by decide) (by decide)
  obtain ⟨hpml4, hs⟩ := page_image (f := 0x40000) pml4_page (by decide) (by decide)
  have hold := page_handedMachine ([256], 0x80000) (by decide)
  have halloc : small.heap.kmalloc 4096 4096 m.heapOffset = (firstPage, 0x1000) := by
    rw [hoffset]
    decide
  refine Exec.yields_bind (yields_kmalloc ?_) ?_
  · rw [halloc]
    exact ⟨by decide, answers_handedMachine firstPage_page⟩
  rw [halloc]
  rintro _ _ _ ⟨rfl, rfl⟩
  have hkeeps : handedMachine.KeepsTables { m with heapOffset := 0x1000 } :=
    ⟨h.keeps.root, h.keeps.mem⟩
  have hcopy : small.Copying handedOffset handedMachine (withCopy m 0x1000 0x40001 0x80000) :=
    h.withCopy hfree (by decide)
  refine Exec.yields_bind (Q := fun _ m' _ ↦ withCopy m 0x1000 0x40001 0x80000 = m')
    (Exec.yields_of_wp (emits_memcpy (fun _ ↦ trivial) (fun _ ↦ trivial) _ _ _)
      ((hnew.congr hkeeps).wp_memcpy (hold.congr hkeeps) (by decide)
        (fun ht ↦ hfree (hkeeps.isTable.1 ht)) rfl)) ?_
  rintro _ _ _ rfl
  refine Exec.yields_bind (yields_resolve_handedMachine hcopy.keeps firstPage_page) ?_
  rintro x m₁ _ ⟨rfl, -⟩
  have hstored := hcopy.setEntry hs 256 (x ||| flags)
  refine Exec.yields_bind
    (Q := fun _ m' _ ↦ (withCopy m 0x1000 0x40001 0x80000).setEntry 0x40000 256 (x ||| flags) = m')
    (Exec.yields_of_wp (emits_store64 trivial) ((hpml4.congr hcopy.keeps).wp_storeEntry rfl rfl)) ?_
  rintro _ _ _ rfl
  refine Exec.yields_mono (yields_copyTables_of_none (fun _ ↦ trivial) (hnew.congr hstored.keeps)
    (d := 1) (by decide) fun i ↦ ?_) ?_
  · have hkept : entryAt ((withCopy m 0x1000 0x40001 0x80000).setEntry 0x40000 256
        (x ||| flags)).mem 0x40001 i = entryAt (withCopy m 0x1000 0x40001 0x80000).mem 0x40001 i :=
      entryAt_write64_of_ne _ _ fun heq ↦
        absurd (congrArg Prod.fst heq) (show (0x40001 : ℕ) ≠ 0x40000 by decide)
    have hsame : entryAt (withCopy m 0x1000 0x40001 0x80000).mem 0x40001 i =
        entryAt m.mem 0x80000 i := entryAt_fillRun_self (fun _ _ ↦ rfl) i
    rw [hkept, hsame, h.keeps.entry 0x80000 i isTable_upper, child_upper]
  · rintro _ _ _ rfl
    refine ⟨hstored, fun i hi ↦ ?_⟩
    have hkept : entryAt ((withCopy m 0x1000 0x40001 0x80000).setEntry 0x40000 256
        (x ||| flags)).mem 0x40000 i = entryAt (withCopy m 0x1000 0x40001 0x80000).mem 0x40000 i :=
      entryAt_write64_of_ne _ _ fun heq ↦ by
        obtain rfl : i = 256 := congrArg Prod.snd heq
        exact absurd hi (by decide)
    exact hkept.trans (entryAt_congr (fun q hq ↦ withCopy_mem_of_ne (by omega)) i)

/-- The copy loops find one table to copy. -/
theorem yields_copyTables_handedMachine {m : Machine}
    (h : small.Halved handedOffset handedMachine 0x40000 256 m) :
    (small.copyTables 0x80002000 3 small.pml4 256).Yields (Truthful handedMachine 0x80002000)
      (fun _ m' _ ↦ small.Copying handedOffset handedMachine m') m := by
  obtain ⟨hpml4, -⟩ := page_image (f := 0x40000) pml4_page (by decide) (by decide)
  have hnone (i : Index) (hi : 257 ≤ (i : ℕ)) : entryAt m.mem 0x40000 i = 0 := by
    rw [h.entries i, if_neg (by omega)]
    refine (entryAt_handedMachine 0x80002 i).trans ?_
    rw [handedEntries, if_neg (by omega), if_neg (by omega)]
  refine Exec.yields_mono (Exec.yields_forUpTo (fun j m' _ ↦
    small.Copying handedOffset handedMachine m' ∧ (j = 0 → m = m') ∧
      ∀ i : Index, 257 ≤ (i : ℕ) → entryAt m'.mem 0x40000 i = entryAt m.mem 0x40000 i)
    ⟨h.copying, fun _ ↦ rfl, fun _ _ ↦ rfl⟩ ?_) fun _ _ _ hm' ↦ hm'.1
  rintro j hj m₁ _ ⟨hcopying, hstart, hrest⟩
  have hidx : (UInt64.ofNat (256 + j)).toNat = ((⟨256 + j, by omega⟩ : Index) : ℕ) :=
    UInt64.toNat_ofNat_of_lt' (Nat.lt_trans (show 256 + j < 512 by omega) (by decide))
  have hpage := hpml4.congr hcopying.keeps
  rcases Nat.eq_zero_or_pos j with rfl | hpos
  · obtain rfl := hstart rfl
    have hentry : entryAt m.mem 0x40000 (⟨256 + 0, by omega⟩ : Index) = 0x80000003 :=
      (h.entries _).trans (entryAt_handedMachine 0x80002 256)
    have hload : (load64 (small.pml4 + 8 * UInt64.ofNat (256 + 0))).Yields
        (Truthful handedMachine 0x80002000) (fun e m' _ ↦ m = m' ∧ 0x80000003 = e) m :=
      Exec.yields_of_wp (emits_load64 trivial) (hpage.wp_loadEntry hidx ⟨rfl, hentry.symm⟩)
    refine Exec.yields_bind hload ?_
    rintro _ _ _ ⟨rfl, rfl⟩
    refine Exec.yields_bind hload ?_
    rintro _ _ _ ⟨rfl, rfl⟩
    refine Exec.yields_mono (yields_copyUpper h.copying h.heapOffset (0x80000003 &&& flagsMask)) ?_
    exact fun _ m' _ hm' ↦ ⟨hm'.1, fun hj ↦ absurd hj (Nat.succ_ne_zero 0), hm'.2⟩
  · refine Exec.yields_mono (yields_turn_of_none (fun _ ↦ trivial) hpage hidx (d := 0) (by decide)
      ?_ _) ?_
    · have hpast : 257 ≤ ((⟨256 + j, by omega⟩ : Index) : ℕ) := by
        show 257 ≤ 256 + j
        omega
      rw [hrest _ hpast, hnone _ hpast, child_zero]
    · rintro _ _ _ rfl
      exact ⟨hcopying, fun hj ↦ absurd hj (Nat.succ_ne_zero j), hrest⟩

/-- **A run of `setup_paging`** in which all answers are true. -/
theorem run_handedMachine : ∃ m es,
    (small.setupPaging 0x80002000 handedOffset).run handedMachine = ⟨some (), m, es⟩ ∧
      ∀ e ∈ es, Truthful handedMachine 0x80002000 e := by
  obtain ⟨hpml4, hs⟩ := page_image (f := 0x40000) pml4_page (by decide) (by decide)
  have hold := page_handedMachine ([], 0x80002) (by decide)
  have hstart := handedOver_handedMachine.copying handedOffset
  have htrue : (small.setupPaging 0x80002000 handedOffset).Yields
      (Truthful handedMachine 0x80002000) (fun _ _ _ ↦ True) handedMachine := by
    refine Exec.yields_bind
      (Q := fun _ m _ ↦ { handedMachine with kernelOffset := handedOffset } = m)
      (Exec.yields_modify rfl) ?_
    rintro _ _ _ rfl
    refine Exec.yields_bind (Q := fun _ m _ ↦ withCopy _ 0 0x40000 0x80002 = m)
      (Exec.yields_of_wp (emits_memcpy (fun _ ↦ trivial) (fun _ ↦ trivial) _ _ _)
        ((hpml4.congr hstart.keeps).wp_memcpy (hold.congr hstart.keeps) (by decide)
          (fun ht ↦ hs (hstart.keeps.isTable.1 ht)) rfl)) ?_
    rintro _ _ _ rfl
    refine Exec.yields_bind
      (Q := fun _ m _ ↦ small.Halved handedOffset handedMachine 0x40000 256 m)
      (Exec.yields_of_wp (Exec.emits_forUpTo fun _ ↦ emits_store64 trivial)
        (Exec.wp_mono (wp_clearLower hpml4 hs (handedOver_handedMachine.halved hs))
          fun _ _ hm ↦ hm.1)) ?_
    intro _ m _ hm
    refine Exec.yields_bind (yields_copyTables_handedMachine hm) ?_
    intro _ m' _ hm'
    refine Exec.yields_bind (yields_resolve_handedMachine hm'.keeps pml4_page) ?_
    exact fun _ _ _ _ ↦ Exec.yields_modify trivial
  obtain ⟨_, hvalue, -⟩ := handedOver_handedMachine.wp_setupPaging handedOffset htrue.1
  exact ⟨_, _, Exec.run_eq_of_value hvalue, htrue.1⟩

theorem setUp_of_run {m : Machine} {es : List Event}
    (hrun : (small.setupPaging 0x80002000 handedOffset).run handedMachine = ⟨some (), m, es⟩)
    (htrue : ∀ e ∈ es, Truthful handedMachine 0x80002000 e) :
    ∃ s, small.SetUp handedOffset (fun e ↦ e.toNat < 2 ^ 52) handedMachine s m :=
  Exec.of_wp_of_run (handedOver_handedMachine.wp_setUp placed_handedMachine) hrun htrue

theorem setup_paging_copies_small : ∃ m es,
    (small.setupPaging 0x80002000 handedOffset).run handedMachine = ⟨some (), m, es⟩ ∧
      UpperCopy handedMachine m ∧
      small.Proper m (.map .large 0x200000 0x200000 1) ∧
      ∀ m', small.Later m m' → (∀ t, m'.IsTable t → ¬ handedMachine.IsTable t) ∧
        ∀ q, handedMachine.IsTable (q / 4096) → m'.mem q = handedMachine.mem q := by
  obtain ⟨m, es, hrun, htrue⟩ := run_handedMachine
  obtain ⟨hcopy, -, -, hlater⟩ := Exec.of_wp_of_run
    (handedOver_handedMachine.setup_paging_copies handedOffset) hrun htrue
  obtain ⟨s, hs⟩ := setUp_of_run hrun htrue
  refine ⟨m, es, hrun, hcopy, ?_, hlater placed_handedMachine⟩
  refine hs.proper_of_lower handedOver_handedMachine placed_handedMachine fun i hi ↦ ?_
  obtain rfl : i = 0 := Nat.lt_one_iff.1 hi
  decide

/-- The first page behind the image is a large one, and its frame is the table of the upper half. -/
def largePage : UInt64 := 0xFFFF800040000000

/-- `unmap_2m` of this page takes its frame for a page directory and clears an entry of it. -/
theorem wp_unmapLarge_handedMachine {m : Machine} {s : ℕ}
    (h : small.SetUp handedOffset (fun e ↦ e.toNat < 2 ^ 52) handedMachine s m) :
    ((PagingCall.unmap .large largePage 1).prog small).wp (fun _ ↦ True)
      (fun _ m' ↦ entryAt m'.mem 0x80000 0 = 0) m := by
  have hsound := h.sound handedOver_handedMachine placed_handedMachine
  have hupper : Upper largePage := by decide
  have hlook : m.look largePage = some (1, 0x80000083) := by
    rw [(h.upperCopy handedOver_handedMachine).look largePage hupper]
    decide
  have htranslate : m.translate largePage = some (4096 * 0x80000) := by
    rw [h.translate handedOver_handedMachine hupper]
    decide
  have hroot : (small.space handedOffset placed_handedMachine.offset_aligned
      small.imagePages).pointer m.root = small.pml4 := by
    rw [hsound.root]
    exact Space.pointer_frame small.pml4_aligned
  show (Exec.forUpTo 1 _).wp _ _ _
  refine Exec.wp_bind (Exec.wp_pure ?_)
  have hva : rangePage largePage 0 = largePage := by decide
  dsimp only
  rw [hva, unmapLarge, ← hroot]
  refine wp_ifTable (n := 0) hsound h.kernelOffset (fun hin ↦ absurd hin.1 (by decide)) (by omega)
    rfl (toNat_pml4Index largePage) rfl (fun l hl ↦ ?_) (fun hnone ↦ ?_) fun t ht ↦ ?_
  · obtain rfl := Option.some.inj (hlook.symm.trans hl)
    decide
  · exact absurd (hlook.symm.trans (hnone _ (List.take_prefix _ _))) (by simp)
  have hentry : entryAt m.mem t (index 30 largePage) = 0x80000083 := by
    obtain ⟨p, t', i, ht', ⟨rest, hrest⟩, hl, -⟩ := Machine.exists_of_look hlook
    obtain ⟨hlen, he⟩ := Prod.mk.inj hl
    obtain ⟨a, rfl⟩ := List.length_eq_one_iff.1 hlen.symm
    obtain ⟨rfl, htail⟩ := List.cons.inj hrest
    obtain ⟨rfl, -⟩ := List.cons.inj htail
    obtain rfl := Option.some.inj (ht'.symm.trans ht)
    exact he.symm
  have hload {Q : UInt64 → Machine → Prop} (hQ : Q 0x80000083 m) :
      (load64 ((small.space handedOffset placed_handedMachine.offset_aligned
        small.imagePages).pointer t + 8 * pdptIndex largePage)).wp (fun _ ↦ True) Q m :=
    hsound.wp_loadEntry ⟨_, ht⟩ (toNat_pdptIndex largePage) (hentry ▸ hQ)
  refine Exec.wp_bind (Exec.wp_bind (hload ?_))
  rw [if_neg (by decide)]
  refine Exec.wp_bind (hload (Exec.wp_bind (Exec.wp_get (Exec.wp_pure ?_))))
  have hpointer : ((0x80000083 : UInt64) &&& ~~~0xFFF) + m.kernelOffset = largePage := by
    rw [h.kernelOffset]
    decide
  rw [hpointer, if_neg (by decide)]
  refine Exec.wp_bind (wp_store64 (by decide) htranslate (Exec.wp_emit fun _ ↦ ?_))
  exact entryAt_write64_self m.mem 0x80000 0 0

/-- A later call may write to an old table: `unmap_2m` of a page that is part of a larger one. -/
theorem not_setup_paging_copies : small.HandedOver 0x80002000 handedMachine ∧
    small.Placed handedOffset handedMachine ∧
    ∃ m es, (small.setupPaging 0x80002000 handedOffset).run handedMachine = ⟨some (), m, es⟩ ∧
      (∀ e ∈ es, Truthful handedMachine 0x80002000 e) ∧
      ∃ m' es', ((PagingCall.unmap .large largePage 1).prog small).run m = ⟨some (), m', es'⟩ ∧
        ¬ ∀ q, handedMachine.IsTable (q / 4096) → m'.mem q = handedMachine.mem q := by
  obtain ⟨m, es, hrun, htrue⟩ := run_handedMachine
  obtain ⟨s, hs⟩ := setUp_of_run hrun htrue
  obtain ⟨_, m', es', hrun', hentry⟩ := Exec.exists_run_of_wp (wp_unmapLarge_handedMachine hs)
  refine ⟨handedOver_handedMachine, placed_handedMachine, m, es, hrun, htrue, m', es', hrun',
    fun hkept ↦ ?_⟩
  have hsame : entryAt m'.mem 0x80000 0 = entryAt handedMachine.mem 0x80000 0 :=
    entryAt_congr (fun q hq ↦ hkept q (hq ▸ isTable_upper)) 0
  rw [hentry, entryAt_handedMachine] at hsame
  exact absurd hsame (by decide)

end Kernel

end Aidos.Paging
