import Aidos.Paging.Ranges
import Mathlib.Data.List.Nodup

/-!
# Page tables of the bootloader

`setup_paging`, `get_or_create_table`, `map_4k` and `map_2m` of `stage2/memory.cpp`. The second
stage runs below 1 MiB on an identity mapping, first the one of its start-up code and then its own,
so a table pointer is a physical address.

`wp_setupPaging` says what `setup_paging` leaves: the tree of the four static tables, which maps the
first 1 MiB to itself and nothing else, and in which the static tables and the heap are where the
other routines expect them.
-/

namespace Aidos.Paging

open ByteMemory Memory

/-- The symbols of the second stage, linked at `0xA000` and ending below 1 MiB. -/
structure Boot where
  /-- The heap between `__heap_start` and `__heap_end`. -/
  heap : Heap
  /-- The static table `pml4`. -/
  pml4 : UInt64
  /-- The static table `pdpt`. -/
  pdpt : UInt64
  /-- The static table `pd`. -/
  pd : UInt64
  /-- The static table `pt`. -/
  pt : UInt64
  /-- `alignas(0x1000)`. -/
  aligned : ∀ p ∈ [pml4, pdpt, pd, pt], p.toNat % 4096 = 0
  /-- The tables lie below 1 MiB. -/
  low : ∀ p ∈ [pml4, pdpt, pd, pt], p.toNat + 4096 ≤ 0x100000
  /-- They are four different objects. -/
  nodup : [pml4, pdpt, pd, pt].Nodup
  /-- The heap lies above the first page. -/
  lt_heapStart : 4096 < heap.heapStart.toNat
  /-- The heap lies below 1 MiB. -/
  heap_low : heap.heapEnd.toNat ≤ 0x100000
  /-- The heap and the tables are different objects. -/
  heap_apart : ∀ p ∈ [pml4, pdpt, pd, pt],
    p.toNat + 4096 ≤ heap.heapStart.toNat ∨ heap.heapEnd.toNat ≤ p.toNat

namespace Boot

variable (B : Boot)

/-- The four static tables. -/
def statics : List UInt64 := [B.pml4, B.pdpt, B.pd, B.pt]

/-- `setup_paging()`. -/
def setupPaging : Prog Unit := do
  memset B.pml4 0 4096
  memset B.pdpt 0 4096
  memset B.pd 0 4096
  memset B.pt 0 4096
  store64 (B.pml4 + 8 * 0) (presentRw B.pdpt)
  store64 (B.pdpt + 8 * 0) (presentRw B.pd)
  store64 (B.pd + 8 * 0) (presentRw B.pt)
  -- `i` of the source is the address `4096 * k`
  Exec.forUpTo 256 fun k ↦ store64 (B.pt + 8 * UInt64.ofNat k) (presentRw (UInt64.ofNat (4096 * k)))
  loadCr3 B.pml4

/-- `get_or_create_table(parent, index)`. -/
def getOrCreateTable (parent index : UInt64) : Prog UInt64 := do
  let entry ← load64 (parent + 8 * index)
  if !present entry then do
    let newTable ← kmalloc B.heap 4096 4096
    memset newTable 0 4096
    store64 (parent + 8 * index) (presentRw newTable)
    pure newTable
  else do
    let entry ← load64 (parent + 8 * index)
    pure (entry &&& ~~~0xFFF)

/-- `map_4k(virt, phys, count)`. -/
def map4k (virt phys count : UInt64) : Prog Unit :=
  Exec.forUpTo count.toNat fun i ↦
    let va := virt + UInt64.ofNat i * pageSize4k
    let pa := phys + UInt64.ofNat i * pageSize4k
    place4k B.getOrCreateTable B.pml4 va (presentRw pa)

/-- `map_2m(virt, phys, count)`. -/
def map2m (virt phys count : UInt64) : Prog Unit :=
  Exec.forUpTo count.toNat fun i ↦
    let va := virt + UInt64.ofNat i * pageSize2m
    let pa := phys + UInt64.ofNat i * pageSize2m
    place2m B.getOrCreateTable B.pml4 va (presentRw pa ||| pagePse)

/-! ### Running `setup_paging` -/

/-- The state in which `setup_paging` is called: the start-up code has identity-mapped the first
1 MiB, with tables of its own. -/
structure Entered (m : Machine) : Prop where
  /-- Low memory is mapped to itself. -/
  identity : ∀ v : UInt64, v.toNat < 0x100000 → m.translate v = some v.toNat
  /-- The static tables are not in use yet. -/
  apart : ∀ p ∈ B.statics, ¬ m.IsTable (p.toNat / 4096)
  /-- The allocator is within its heap. -/
  heapOffset_le : m.heapOffset.toNat ≤ B.heap.heapSize.toNat

/-- During `setup_paging`: only the static tables are written, and `e p i` is entry `i` of the table
at `p`. -/
structure Scratch (m₀ : Machine) (e : UInt64 → Index → UInt64) (m : Machine) : Prop where
  /-- The base register is not loaded yet. -/
  cr3 : m.cr3 = m₀.cr3
  /-- Nothing is allocated. -/
  heapOffset : m.heapOffset = m₀.heapOffset
  /-- `KERNEL_OFFSET` does not exist here. -/
  kernelOffset : m.kernelOffset = m₀.kernelOffset
  /-- Other frames are kept. -/
  mem : ∀ q, (∀ p ∈ B.statics, q / 4096 ≠ p.toNat / 4096) → m.mem q = m₀.mem q
  /-- The entries of the static tables. -/
  entries : ∀ p ∈ B.statics, ∀ i, entryAt m.mem (p.toNat / 4096) i = e p i

variable {B} {m m₀ : Machine} {e : UInt64 → Index → UInt64}

theorem static_frame {p : UInt64} (hp : p ∈ B.statics) :
    4096 * (p.toNat / 4096) = p.toNat ∧ p.toNat / 4096 < 256 := by
  have hal := B.aligned p hp
  have hlow := B.low p hp
  omega

/-- Different static tables are in different frames. -/
theorem static_frame_inj {p p' : UInt64} (hp : p ∈ B.statics) (hp' : p' ∈ B.statics)
    (h : p.toNat / 4096 = p'.toNat / 4096) : p = p' := by
  have h₁ := (static_frame hp).1
  have h₂ := (static_frame hp').1
  exact UInt64.toNat_inj.1 (by omega)

theorem Scratch.keeps (hm : B.Entered m₀) (h : B.Scratch m₀ e m) : m₀.KeepsTables m where
  root := congrArg frameOf h.cr3
  mem := by
    intro q hq
    refine h.mem q fun p hp heq ↦ hm.apart p hp ?_
    rw [← heq]
    exact hq

theorem Scratch.start (m : Machine) : B.Scratch m (fun p i ↦ entryAt m.mem (p.toNat / 4096) i) m :=
  ⟨rfl, rfl, rfl, fun _ _ ↦ rfl, fun _ _ _ ↦ rfl⟩

theorem Scratch.congr {e' : UInt64 → Index → UInt64} (h : B.Scratch m₀ e m)
    (he : ∀ p ∈ B.statics, ∀ i, e p i = e' p i) : B.Scratch m₀ e' m :=
  ⟨h.cr3, h.heapOffset, h.kernelOffset, h.mem, fun p hp i ↦ (h.entries p hp i).trans (he p hp i)⟩

/-- A byte of a static table is accessed at its address. -/
theorem Scratch.translate (hm : B.Entered m₀) (h : B.Scratch m₀ e m) {p x : UInt64}
    (hp : p ∈ B.statics)
    (hx : x.toNat < 4096) :
    (p + x).toNat = p.toNat + x.toNat ∧
      m.translate (p + x) = some (4096 * (p.toNat / 4096) + x.toNat) := by
  have hlow := B.low p hp
  have hsum : (p + x).toNat = p.toNat + x.toNat := by
    rw [UInt64.toNat_add]
    omega
  refine ⟨hsum, ?_⟩
  rw [(h.keeps hm).translate, hm.identity _ (by omega), hsum, (static_frame hp).1]

/-- Clearing a static table. -/
theorem Scratch.wp_memset (hm : B.Entered m₀) (h : B.Scratch m₀ e m) {p : UInt64}
    (hp : p ∈ B.statics)
    {assume : Event → Prop} :
    (memset p 0 4096).wp assume
      (fun _ ↦ B.Scratch m₀ fun p' i ↦ if p' = p then 0 else e p' i) m := by
  have hkeep := h.keeps hm
  refine Aidos.Paging.wp_memset (b := 4096 * (p.toNat / 4096)) (fun i hi ↦ ?_) (fun i hi ht ↦ ?_) ?_
  · have hi' : i < 4096 := hi
    have hofNat : (UInt64.ofNat i).toNat = i :=
      UInt64.toNat_ofNat_of_lt' (Nat.lt_trans hi' (by decide))
    have htr := (h.translate hm hp (x := UInt64.ofNat i) (by omega)).2
    rw [hofNat] at htr
    exact htr
  · have hi' : i < 4096 := hi
    have hdiv : (4096 * (p.toNat / 4096) + i) / 4096 = p.toNat / 4096 := by omega
    rw [hdiv] at ht
    exact hm.apart p hp (hkeep.isTable.1 ht)
  · refine ⟨h.cr3, h.heapOffset, h.kernelOffset, fun q hq ↦ ?_, fun p' hp' i ↦ ?_⟩
    · have hne := hq p hp
      rw [← h.mem q hq]
      show fillRun m.mem (4096 * (p.toNat / 4096)) (fun _ ↦ 0) 4096 q = m.mem q
      exact fillRun_of_not_mem (by omega)
    · by_cases heq : p' = p
      · rw [if_pos heq, heq]
        exact entryAt_fillRun_zero m.mem _ i
      · rw [if_neg heq, ← h.entries p' hp' i]
        exact entryAt_fillRun_of_ne (fun hf ↦ heq (static_frame_inj hp' hp hf)) i

/-- Storing an entry of a static table. -/
theorem Scratch.wp_store64 (hm : B.Entered m₀) (h : B.Scratch m₀ e m) {p i x : UInt64} {idx : Index}
    (hp : p ∈ B.statics) (hi : i.toNat = idx) {assume : Event → Prop} :
    (store64 (p + 8 * i) x).wp assume
      (fun _ ↦ B.Scratch m₀ fun p' j ↦ if p' = p ∧ j = idx then x else e p' j) m := by
  have hidx := idx.isLt
  have hoff := Space.toNat_entryOffset hi
  obtain ⟨hsum, htr⟩ := h.translate hm hp (x := 8 * i) (by omega)
  have hal := B.aligned p hp
  rw [hoff] at htr
  refine Aidos.Paging.wp_store64 (by omega) htr
    ⟨h.cr3, h.heapOffset, h.kernelOffset, fun q hq ↦ ?_, fun p' hp' j ↦ ?_⟩
  · have hne := hq p hp
    rw [← h.mem q hq]
    exact write64_of_not_mem x (by omega)
  · by_cases heq : p' = p ∧ j = idx
    · rw [if_pos heq, heq.1, heq.2]
      exact entryAt_write64_self m.mem _ idx x
    · rw [if_neg heq, ← h.entries p' hp' j]
      refine entryAt_write64_of_ne m.mem x fun hf ↦ heq ?_
      exact ⟨static_frame_inj hp' hp (congrArg Prod.fst hf), congrArg Prod.snd hf⟩

/-- The entries `setup_paging` leaves in the static tables. -/
def setupEntries (B : Boot) (p : UInt64) (i : Index) : UInt64 :=
  if p = B.pml4 then if i = 0 then presentRw B.pdpt else 0
  else if p = B.pdpt then if i = 0 then presentRw B.pd else 0
  else if p = B.pd then if i = 0 then presentRw B.pt else 0
  else if (i : ℕ) < 256 then presentRw (UInt64.ofNat (4096 * i)) else 0

theorem mem_statics {p : UInt64} : p ∈ B.statics ↔ p = B.pml4 ∨ p = B.pdpt ∨
    p = B.pd ∨ p = B.pt := by
  simp [statics]

/-- The static tables are pairwise different. -/
theorem statics_ne : (B.pml4 ≠ B.pdpt ∧ B.pml4 ≠ B.pd ∧ B.pml4 ≠ B.pt) ∧
    (B.pdpt ≠ B.pd ∧ B.pdpt ≠ B.pt) ∧ B.pd ≠ B.pt := by
  have h := B.nodup
  simp only [List.nodup_cons, List.mem_cons, List.not_mem_nil, or_false, not_or, not_false_eq_true,
    List.nodup_nil, and_true] at h
  exact h

/-- **`setup_paging`** fills the static tables and switches to them. -/
theorem wp_setupPaging (hm : B.Entered m₀) {assume : Event → Prop} :
    B.setupPaging.wp assume
      (fun _ m ↦ m.cr3 = B.pml4 ∧ B.Scratch m₀ B.setupEntries { m with cr3 := m₀.cr3 }) m₀ := by
  obtain ⟨⟨h₁₂, h₁₃, h₁₄⟩, ⟨h₂₃, h₂₄⟩, h₃₄⟩ := B.statics_ne
  refine Exec.wp_bind_of ((Scratch.start m₀).wp_memset hm (mem_statics.2 (by simp)))
    fun _ m₁ h₁ ↦ ?_
  refine Exec.wp_bind_of (h₁.wp_memset hm (p := B.pdpt) (mem_statics.2 (by simp))) fun _ m₂ h₂ ↦ ?_
  refine Exec.wp_bind_of (h₂.wp_memset hm (p := B.pd) (mem_statics.2 (by simp))) fun _ m₃ h₃ ↦ ?_
  refine Exec.wp_bind_of (h₃.wp_memset hm (p := B.pt) (mem_statics.2 (by simp))) fun _ m₄ h₄ ↦ ?_
  have hzero : (0 : UInt64).toNat = ((0 : Index) : ℕ) := rfl
  refine Exec.wp_bind_of (h₄.wp_store64 hm (p := B.pml4) (mem_statics.2 (by simp)) hzero)
    fun _ m₅ h₅ ↦ ?_
  refine Exec.wp_bind_of (h₅.wp_store64 hm (p := B.pdpt) (mem_statics.2 (by simp)) hzero)
    fun _ m₆ h₆ ↦ ?_
  refine Exec.wp_bind_of (h₆.wp_store64 hm (p := B.pd) (mem_statics.2 (by simp)) hzero)
    fun _ m₇ h₇ ↦ ?_
  -- before the loop the page table is empty, and each turn fills one more entry
  have hlinks : B.Scratch m₀ (fun p i ↦ if p = B.pt then 0 else B.setupEntries p i) m₇ := by
    refine h₇.congr fun p hp i ↦ ?_
    rcases mem_statics.1 hp with rfl | rfl | rfl | rfl
    · simp [setupEntries, h₁₂, h₁₃, h₁₄]
    · simp [setupEntries, h₂₃, h₂₄, h₁₂.symm]
    · simp [setupEntries, h₃₄, h₁₃.symm, h₂₃.symm]
    · simp [h₁₄.symm, h₂₄.symm, h₃₄.symm]
  have hloop : (Exec.forUpTo 256 fun k ↦ store64 (B.pt + 8 * UInt64.ofNat k)
      (presentRw (UInt64.ofNat (4096 * k)))).wp assume (fun _ ↦ B.Scratch m₀ fun p i ↦
        if p = B.pt then if (i : ℕ) < 256 then presentRw (UInt64.ofNat (4096 * i)) else 0
        else B.setupEntries p i) m₇ := by
    refine Exec.wp_forUpTo (fun k ↦ B.Scratch m₀ fun p i ↦
      if p = B.pt then if (i : ℕ) < k then presentRw (UInt64.ofNat (4096 * i)) else 0
      else B.setupEntries p i) (hlinks.congr fun p hp i ↦ by simp) fun k hk m' h' ↦ ?_
    have hidx : (UInt64.ofNat k).toNat = ((⟨k, by omega⟩ : Index) : ℕ) :=
      UInt64.toNat_ofNat_of_lt' (Nat.lt_trans hk (by decide))
    refine Exec.wp_mono (h'.wp_store64 hm (p := B.pt) (mem_statics.2 (by simp)) hidx)
      fun _ m'' h'' ↦ ?_
    refine h''.congr fun p hp i ↦ ?_
    by_cases hpt : p = B.pt
    · rcases lt_trichotomy (i : ℕ) k with hik | hik | hik
      · have hne : i ≠ ⟨k, by omega⟩ :=
          fun heq ↦ absurd (congrArg Fin.val heq) (by simpa using hik.ne)
        simp [hpt, hne, hik, Nat.lt_succ_of_lt hik]
      · have heq : i = ⟨k, by omega⟩ := Fin.ext hik
        simp [hpt, heq]
      · have hne : i ≠ ⟨k, by omega⟩ :=
          fun heq ↦ absurd (congrArg Fin.val heq) (by simpa using hik.ne')
        simp [hpt, hne, Nat.not_lt.2 hik.le, Nat.not_lt.2 (Nat.succ_le_of_lt hik)]
    · simp [hpt]
  refine Exec.wp_bind_of hloop fun _ m₈ h₈ ↦ Exec.wp_modify ⟨rfl, ?_⟩
  have hfinal : B.Scratch m₀ B.setupEntries m₈ := by
    refine h₈.congr fun p hp i ↦ ?_
    by_cases hpt : p = B.pt
    · simp [setupEntries, hpt, h₁₄.symm, h₂₄.symm, h₃₄.symm]
    · rw [if_neg hpt]
  exact ⟨rfl, hfinal.heapOffset, hfinal.kernelOffset, hfinal.mem, hfinal.entries⟩

/-! ### The tree `setup_paging` leaves -/

/-- The bootloader as a program that edits its own tables: pointers are physical addresses. -/
def space (B : Boot) (region : Set ℕ) : Space where
  heap := B.heap
  offset := 0
  pml4 := B.pml4
  region := region
  offset_aligned := rfl
  pml4_aligned := B.aligned _ (by simp)
  lt_heapStart := B.lt_heapStart

/-- The pages that the paging code is going to access: the page tables and the free pages of the
heap. -/
def inUse (B : Boot) (m : Machine) : Set ℕ :=
  {n | m.IsTable n ∨ ∃ p, (B.space ∅).Free m p ∧ n = p.toNat / 4096}

/-- The invariant, with no more in the region than what is in use. -/
def Tight (B : Boot) (m : Machine) : Prop := (B.space (B.inUse m)).Sound m

theorem pointer_space (region : Set ℕ)
    (t : ℕ) : (B.space region).pointer t = UInt64.ofNat (4096 * t) :=
  UInt64.add_zero _

theorem frame_space (region : Set ℕ) (p : UInt64) : (B.space region).frame p = p.toNat / 4096 := by
  show (p - 0).toNat / 4096 = p.toNat / 4096
  rw [UInt64.sub_zero]

/-- The number of the page of a table pointer is the frame of the table. -/
theorem page_pointer_space {region : Set ℕ} {t : ℕ} (ht : t < 2 ^ 40) :
    ((B.space region).pointer t).toNat / 4096 = t := by
  have hsize : 4096 * t < UInt64.size := Nat.lt_trans (m := 2 ^ 52) (by omega) (by decide)
  rw [pointer_space, UInt64.toNat_ofNat_of_lt' hsize]
  omega

/-- The region may be narrowed to what is in use. -/
theorem Tight.of_sound {region : Set ℕ} (h : (B.space region).Sound m) : B.Tight m := by
  have hregion : ((B.space region).narrow m).region = B.inUse m := by
    ext n
    refine or_congr ⟨?_, fun hn ↦ ⟨n, hn, ?_⟩⟩ Iff.rfl
    · rintro ⟨t, ht, rfl⟩
      rwa [page_pointer_space (Machine.isTable_lt ht)]
    · rw [page_pointer_space (Machine.isTable_lt hn)]
  have hnarrow := h.narrow
  show ({ B.space region with region := B.inUse m } : Space).Sound m
  rw [← hregion]
  exact hnarrow

/-- `setup_paging` has run: its tables are in use. -/
structure Started (B : Boot) (m : Machine) : Prop where
  /-- The base register holds `pml4`. -/
  cr3 : m.cr3 = B.pml4
  /-- The entries of the static tables. -/
  entries : ∀ p ∈ B.statics, ∀ i, entryAt m.mem (p.toNat / 4096) i = B.setupEntries p i
  /-- The allocator is within its heap. -/
  heapOffset_le : m.heapOffset.toNat ≤ B.heap.heapSize.toNat

/-- The tables `setup_paging` links, with their paths. -/
def setupTables (B : Boot) : List (List Index × ℕ) :=
  [([], B.pml4.toNat / 4096), ([0], B.pdpt.toNat / 4096), ([0, 0], B.pd.toNat / 4096),
    ([0, 0, 0], B.pt.toNat / 4096)]

theorem setupEntries_eq (i : Index) :
    B.setupEntries B.pml4 i = (if i = 0 then presentRw B.pdpt else 0) ∧
      B.setupEntries B.pdpt i = (if i = 0 then presentRw B.pd else 0) ∧
      B.setupEntries B.pd i = (if i = 0 then presentRw B.pt else 0) ∧
      B.setupEntries B.pt i =
        (if (i : ℕ) < 256 then presentRw (UInt64.ofNat (4096 * i)) else 0) := by
  obtain ⟨⟨h₁₂, h₁₃, h₁₄⟩, ⟨h₂₃, h₂₄⟩, h₃₄⟩ := B.statics_ne
  simp [setupEntries, h₁₂.symm, h₁₃.symm, h₂₃.symm, h₁₄.symm, h₂₄.symm, h₃₄.symm]

/-- The entry for a static table points to its frame. -/
theorem child_static {p : UInt64} (hp : p ∈ B.statics) {d : ℕ} (hd : d < 3) :
    x86.child d (presentRw p) = some (p.toNat / 4096) ∧ (presentRw p).toNat < 2 ^ 52 := by
  obtain ⟨hpres, hsmall, hframe, hnum⟩ := presentRw_fields (B.aligned p hp)
  have hlow := B.low p hp
  have hof : frameOf p = p.toNat / 4096 := by
    rw [frameOf]
    omega
  exact ⟨by rw [child_of_pointer hpres hsmall hd, hframe, hof], by omega⟩

/-- One level down in the tree of the static tables. -/
theorem Started.child (h : B.Started m) {p : List Index} {t s : ℕ} {i : Index}
    (ht : (p, t) ∈ B.setupTables) (hs : x86.child p.length (entryAt m.mem t i) = some s) :
    (p ++ [i], s) ∈ B.setupTables ∧ (entryAt m.mem t i).toNat < 2 ^ 52 := by
  have hin : B.pml4 ∈ B.statics ∧ B.pdpt ∈ B.statics ∧ B.pd ∈ B.statics ∧ B.pt ∈ B.statics := by
    simp [mem_statics]
  obtain ⟨he₁, he₂, he₃, he₄⟩ := B.setupEntries_eq i
  simp only [setupTables, List.mem_cons, Prod.mk.injEq, List.not_mem_nil, or_false] at ht
  rcases ht with ⟨rfl, rfl⟩ | ⟨rfl, rfl⟩ | ⟨rfl, rfl⟩ | ⟨rfl, rfl⟩
  · rw [h.entries _ hin.1, he₁] at hs ⊢
    by_cases hi : i = 0
    · rw [if_pos hi] at hs ⊢
      obtain ⟨hc, hlt⟩ := child_static hin.2.1 (d := 0) (by omega)
      obtain rfl := Option.some.inj (hc.symm.trans hs)
      exact ⟨by simp [setupTables, hi], hlt⟩
    · rw [if_neg hi, child_zero] at hs
      exact absurd hs (by simp)
  · rw [h.entries _ hin.2.1, he₂] at hs ⊢
    by_cases hi : i = 0
    · rw [if_pos hi] at hs ⊢
      obtain ⟨hc, hlt⟩ := child_static hin.2.2.1 (d := 1) (by omega)
      obtain rfl := Option.some.inj (hc.symm.trans hs)
      exact ⟨by simp [setupTables, hi], hlt⟩
    · rw [if_neg hi, child_zero] at hs
      exact absurd hs (by simp)
  · rw [h.entries _ hin.2.2.1, he₃] at hs ⊢
    by_cases hi : i = 0
    · rw [if_pos hi] at hs ⊢
      obtain ⟨hc, hlt⟩ := child_static hin.2.2.2 (d := 2) (by omega)
      obtain rfl := Option.some.inj (hc.symm.trans hs)
      exact ⟨by simp [setupTables, hi], hlt⟩
    · rw [if_neg hi, child_zero] at hs
      exact absurd hs (by simp)
  · exact absurd (child_eq_some hs).2.1 (by decide)

theorem Started.root (h : B.Started m) : m.root = B.pml4.toNat / 4096 := by
  have hlow := B.low B.pml4 (by simp)
  rw [Machine.root, h.cr3, frameOf]
  omega

theorem Started.mem_setupTables (h : B.Started m) {p : List Index} {t : ℕ}
    (ht : m.tableAt p = some t) :
    (p, t) ∈ B.setupTables :=
  TreeFormat.tableAt_induction (P := fun p t ↦ (p, t) ∈ B.setupTables)
    (by rw [h.root]; simp [setupTables]) (fun _ _ _ _ ht hs ↦ (h.child ht hs).1) ht

/-- **The mapping `setup_paging` leaves**: the first 1 MiB, to itself. -/
theorem Started.look (h : B.Started m) (v : UInt64) :
    m.look v = if pageOf v <
      256 then some (3, presentRw (UInt64.ofNat (4096 * pageOf v))) else none := by
  have hin : B.pml4 ∈ B.statics ∧ B.pdpt ∈ B.statics ∧ B.pd ∈ B.statics ∧ B.pt ∈ B.statics := by
    simp [mem_statics]
  obtain ⟨he₁, -, -, -⟩ := B.setupEntries_eq (index 39 v)
  obtain ⟨-, he₂, -, -⟩ := B.setupEntries_eq (index 30 v)
  obtain ⟨-, -, he₃, -⟩ := B.setupEntries_eq (index 21 v)
  obtain ⟨-, -, -, he₄⟩ := B.setupEntries_eq (index 12 v)
  rw [← h.entries _ hin.1] at he₁
  rw [← h.entries _ hin.2.1] at he₂
  rw [← h.entries _ hin.2.2.1] at he₃
  rw [← h.entries _ hin.2.2.2] at he₄
  have hval : ∀ s, (index s v = 0 ↔ v.toNat / 2 ^ s % 512 = 0) := fun s ↦ Fin.ext_iff
  rw [Machine.look, lookAt, pathOf, h.root]
  by_cases h₁ : index 39 v = 0
  swap
  · have hfar : ¬ pageOf v < 256 := by
      rw [hval] at h₁
      rw [pageOf]
      omega
    rw [TreeFormat.look_cons_of_none _ (by rw [he₁, if_neg h₁, child_zero]), he₁, if_neg h₁,
      leaf_zero, if_neg hfar]
    rfl
  rw [TreeFormat.look_cons_of_child _
    (by rw [he₁, if_pos h₁]; exact (child_static hin.2.1 (by omega)).1)]
  by_cases h₂ : index 30 v = 0
  swap
  · have hfar : ¬ pageOf v < 256 := by
      rw [hval] at h₂
      rw [pageOf]
      omega
    rw [TreeFormat.look_cons_of_none _ (by rw [he₂, if_neg h₂, child_zero]), he₂, if_neg h₂,
      leaf_zero, if_neg hfar]
    rfl
  rw [TreeFormat.look_cons_of_child _
    (by rw [he₂, if_pos h₂]; exact (child_static hin.2.2.1 (by omega)).1)]
  by_cases h₃ : index 21 v = 0
  swap
  · have hfar : ¬ pageOf v < 256 := by
      rw [hval] at h₃
      rw [pageOf]
      omega
    rw [TreeFormat.look_cons_of_none _ (by rw [he₃, if_neg h₃, child_zero]), he₃, if_neg h₃,
      leaf_zero, if_neg hfar]
    rfl
  rw [TreeFormat.look_cons_of_child _
    (by rw [he₃, if_pos h₃]; exact (child_static hin.2.2.2 (by omega)).1)]
  rw [TreeFormat.look_cons_of_none _ (child_bottom _), he₄]
  rw [hval] at h₁ h₂ h₃
  have hpage : pageOf v < 256 ↔ (index 12 v : ℕ) < 256 := by
    rw [pageOf, toNat_index]
    omega
  by_cases h₄ : (index 12 v : ℕ) < 256
  · have hnum : (index 12 v : ℕ) = pageOf v := by
      rw [pageOf, toNat_index] at *
      omega
    have hleaf := (physical_presentRw (UInt64.ofNat (4096 * (index 12 v : ℕ))) v).1
    rw [if_pos h₄, if_pos (hpage.2 h₄), if_pos hleaf, hnum]
  · rw [if_neg h₄, if_neg fun hp ↦ h₄ (hpage.1 hp), leaf_zero]
    rfl

/-- Low memory is mapped to itself. -/
theorem Started.translate (h : B.Started m) {v : UInt64} (hv : v.toNat < 0x100000) :
    m.translate v = some v.toNat := by
  have hlow : pageOf v < 256 := by
    rw [pageOf]
    omega
  have hlook := h.look v
  rw [if_pos hlow] at hlook
  rw [Machine.translate_of_look (Or.inl (by omega)) hlook]
  have hnum : (UInt64.ofNat (4096 * pageOf v)).toNat = 4096 * pageOf v :=
    UInt64.toNat_ofNat_of_lt' (Nat.lt_of_le_of_lt (Nat.mul_le_mul_left 4096 hlow.le) (by decide))
  rw [(physical_presentRw _ v).2, frameOf, hnum, pageOf]
  refine congrArg some ?_
  omega

/-- The tables of the tree are the static ones. -/
theorem Started.exists_static (h : B.Started m) {t : ℕ} (ht : m.IsTable t) :
    ∃ a ∈ B.statics, t = a.toNat / 4096 := by
  obtain ⟨p, hp⟩ := ht
  have hmem := h.mem_setupTables hp
  simp only [setupTables, List.mem_cons, Prod.mk.injEq, List.not_mem_nil, or_false] at hmem
  rcases hmem with ⟨-, rfl⟩ | ⟨-, rfl⟩ | ⟨-, rfl⟩ | ⟨-, rfl⟩
  · exact ⟨_, mem_statics.2 (Or.inl rfl), rfl⟩
  · exact ⟨_, mem_statics.2 (Or.inr (Or.inl rfl)), rfl⟩
  · exact ⟨_, mem_statics.2 (Or.inr (Or.inr (Or.inl rfl))), rfl⟩
  · exact ⟨_, mem_statics.2 (Or.inr (Or.inr (Or.inr rfl))), rfl⟩

/-- The static tables are in different frames, so each is reached by one path. -/
theorem Started.separated (h : B.Started m) : x86.Separated (entryAt m.mem) m.root := by
  obtain ⟨⟨h₁₂, h₁₃, h₁₄⟩, ⟨h₂₃, h₂₄⟩, h₃₄⟩ := B.statics_ne
  have hin : B.pml4 ∈ B.statics ∧ B.pdpt ∈ B.statics ∧ B.pd ∈ B.statics ∧ B.pt ∈ B.statics := by
    simp [mem_statics]
  have hfar : ∀ {a b : UInt64}, a ∈ B.statics → b ∈ B.statics → a ≠ b →
      a.toNat / 4096 ≠ b.toNat / 4096 :=
    fun ha hb hne heq ↦ hne (static_frame_inj ha hb heq)
  have hnodup : (B.setupTables.map Prod.snd).Nodup := by
    simp [setupTables, hfar hin.1 hin.2.1 h₁₂, hfar hin.1 hin.2.2.1 h₁₃, hfar hin.1 hin.2.2.2 h₁₄,
      hfar hin.2.1 hin.2.2.1 h₂₃, hfar hin.2.1 hin.2.2.2 h₂₄, hfar hin.2.2.1 hin.2.2.2 h₃₄]
  intro p q t hp hq
  exact congrArg Prod.fst
    (List.inj_on_of_nodup_map hnodup (h.mem_setupTables hp) (h.mem_setupTables hq) rfl)

/-- The pages in use after `setup_paging` are below 1 MiB. -/
theorem Started.inUse_lt (h : B.Started m) {n : ℕ} (hn : n ∈ B.inUse m) : n < 256 := by
  rcases hn with ht | ⟨p, ⟨-, -, hend⟩, rfl⟩
  · obtain ⟨a, ha, rfl⟩ := h.exists_static ht
    exact (static_frame ha).2
  · have hheap := B.heap_low
    have hend' : p.toNat + 4096 ≤ B.heap.heapEnd.toNat := hend
    omega

/-- **After `setup_paging`** the tree is as the other routines need it. -/
theorem Started.tight (h : B.Started m) : B.Tight m where
  heapOffset_le := h.heapOffset_le
  root := by
    rw [frame_space]
    exact h.root
  separated := h.separated
  linear := by
    intro v hv
    have hlow := h.inUse_lt hv
    show m.translate v = some (v - 0).toNat
    rw [h.translate (by omega), UInt64.sub_zero]
  free_mem := fun p hp ↦ Or.inr ⟨p, hp, rfl⟩
  tables := by
    intro t ht
    rw [page_pointer_space (Machine.isTable_lt ht)]
    exact Or.inl ht
  clear := fun _ _ _ _ ht hs ↦ (h.child (h.mem_setupTables ht) hs).2
  fresh := by
    rintro p ⟨hmod, hlow, hend⟩ ht
    rw [frame_space] at ht
    obtain ⟨a, ha, heq⟩ := h.exists_static ht
    have hmul := (static_frame ha).1
    have hlow' : B.heap.heapStart.toNat + m.heapOffset.toNat ≤ p.toNat := hlow
    have hend' : p.toNat + 4096 ≤ B.heap.heapEnd.toNat := hend
    rcases B.heap_apart a ha with hapart | hapart <;> omega

/-- **`setup_paging`** starts the second stage. -/
theorem wp_setupPaging_started (hm : B.Entered m₀) {assume : Event → Prop} :
    B.setupPaging.wp assume (fun _ m ↦ B.Started m) m₀ := by
  refine Exec.wp_mono (wp_setupPaging hm) ?_
  rintro _ m ⟨hcr3, hscratch⟩
  have hheap : m.heapOffset = m₀.heapOffset := hscratch.heapOffset
  exact ⟨hcr3, hscratch.entries, by rw [hheap]; exact hm.heapOffset_le⟩

/-! ### The helper -/

/-- `get_or_create_table` does its part at every entry that does not map a large page. -/
theorem getsTable {region : Set ℕ} {k : UInt64} :
    Space.GetsTable (B.space region) k B.getOrCreateTable := by
  intro m p t i idx h hk ht hp hi hsmall
  refine Exec.wp_bind (h.wp_loadEntry ⟨p, ht⟩ hi ?_)
  cases hpres : present (entryAt m.mem t idx) with
  | false =>
    rw [if_pos (by simp)]
    have halloc := Space.wp_kmallocPage (S := B.space region) h.heapOffset_le
    refine Exec.wp_bind_of halloc ?_
    rintro a m₁ ⟨-, hfree, o, rfl, hos, ho⟩
    refine Exec.wp_bind (h.wp_clearPage hfree ?_)
    have hkeep := Space.keepsTables_withPage h hfree o
    have hsound := h.withPage hfree ho hos
    refine Exec.wp_bind (hsound.wp_storeEntry ⟨p, (hkeep.tableAt p).trans ht⟩ hi (Exec.wp_pure ?_))
    have hoff : a - (B.space region).offset = a := UInt64.sub_zero a
    obtain ⟨hs, hext, hat⟩ := h.createTable ht hp hpres hfree ho hos
      (congrArg presentRw hoff.symm)
    exact ⟨hs, hext, _, (Space.pointer_frame hfree.1).symm, hat⟩
  | true =>
    rw [if_neg (by simp)]
    refine Exec.wp_bind (h.wp_loadEntry ⟨p, ht⟩ hi (Exec.wp_pure ?_))
    have hchild := child_of_pointer (d := p.length) hpres (hsmall hpres) hp
    have hptr := h.pointer_of_entry ht hchild
    refine ⟨h, Space.Extends.refl _ m, _, ?_, TreeFormat.reached_of_child ht hchild⟩
    rw [← hptr]
    exact (UInt64.add_zero _).symm

end Boot

end Aidos.Paging
