import Mathlib.Order.CompletePartialOrder
import Mathlib.Order.Interval.Set.Disjoint
import Aidos.Library.Words

/-!
# The bump allocator

`kmalloc` hands out memory from the region between the linker symbols `__heap_start` and
`__heap_end` and never takes any back. The bootloader and the kernel each carry a copy, word for
word the same; they differ in the two symbols only, which is what `Heap` holds.

An allocation history is a list of requests served one after the other, each from the offset the
previous one left. What every table of the page tree and every driver object rests on is
`Heap.Safe`: the blocks of a history are aligned, lie in the heap and do not meet.

## The bound check wraps

The check `next_offset >= heap_size` is made after the alignment and the size have been added in
64-bit arithmetic, so a size near the top of the word wraps the sum back below `heap_size`. The
call then succeeds, the block reaches past the end of the heap, and `heap_offset` moves *down*, so
that later blocks overlap earlier ones. `Heap.Wraps` describes exactly these requests, as a relation
between the request and the offset it is served at, and `safe_serveAll_iff` says that a history is
safe if and only if no request of it wraps.
-/

namespace Aidos.Memory

open Words

/-- The heap of one program, from its linker script. The symbols are addresses, so the end cannot be
past the last byte; neither script puts the heap at address zero. -/
structure Heap where
  /-- `__heap_start`. -/
  heapStart : UInt64
  /-- `__heap_end`. -/
  heapEnd : UInt64
  /-- No object lives at the null pointer. -/
  start_pos : 0 < heapStart.toNat
  /-- The heap does not end before it starts. -/
  start_le_end : heapStart.toNat ≤ heapEnd.toNat

namespace Heap

variable (H : Heap)

/-- `heap_base`. -/
def heapBase : UInt64 := H.heapStart

/-- `heap_size`. -/
def heapSize : UInt64 := H.heapEnd - H.heapStart

theorem toNat_heapSize : H.heapSize.toNat = H.heapEnd.toNat - H.heapStart.toNat :=
  UInt64.toNat_sub_of_le _ _ (UInt64.le_iff_toNat_le.2 H.start_le_end)

/-- `kmalloc(size, align)` at a given `heap_offset`: the pointer returned, zero for `nullptr`, and
the `heap_offset` left behind. -/
def kmalloc (size align heapOffset : UInt64) : UInt64 × UInt64 :=
  let current := H.heapBase + heapOffset
  let aligned := (current + align - 1) &&& ~~~(align - 1)
  let nextOffset := aligned - H.heapBase + size
  if nextOffset ≥ H.heapSize then (0, heapOffset) else (aligned, nextOffset)

/-- `operator new(size)`: `kmalloc` with its default alignment. -/
def operatorNew (size heapOffset : UInt64) : UInt64 × UInt64 :=
  H.kmalloc size 8 heapOffset

/-! ### What one call computes -/

/-- The aligned address a call computes, before any wrapping. -/
def alignedAt (align heapOffset : UInt64) : ℕ :=
  roundUp (H.heapStart.toNat + heapOffset.toNat) align.toNat

/-- The offset a call would need the heap to reach, before any wrapping. -/
def demand (size align heapOffset : UInt64) : ℕ :=
  H.alignedAt align heapOffset - H.heapStart.toNat + size.toNat

variable {H}

theorem le_alignedAt {align : UInt64} (heapOffset : UInt64) {k : ℕ} (ha : align.toNat = 2 ^ k) :
    H.heapStart.toNat + heapOffset.toNat ≤ H.alignedAt align heapOffset :=
  le_roundUp (ha ▸ Nat.two_pow_pos k)

/-- While the offset is within the heap, only the very top of the address space is out of reach of
the rounding. -/
theorem alignedAt_le {align heapOffset : UInt64} {k : ℕ} (ha : align.toNat = 2 ^ k)
    (ho : heapOffset.toNat ≤ H.heapSize.toNat) : H.alignedAt align heapOffset ≤ 2 ^ 64 := by
  have hend := H.heapEnd.toNat_lt
  have hsize := H.toNat_heapSize
  have hle := H.start_le_end
  rw [alignedAt, ha]
  exact roundUp_le (Nat.two_pow_pos k) (Nat.pow_dvd_pow 2 (exponent_lt ha).le) (by omega)

theorem toNat_aligned {align heapOffset : UInt64} {k : ℕ} (ha : align.toNat = 2 ^ k)
    (ho : heapOffset.toNat ≤ H.heapSize.toNat) :
    ((H.heapBase + heapOffset + align - 1) &&& ~~~(align - 1)).toNat =
      H.alignedAt align heapOffset % 2 ^ 64 := by
  have hend := H.heapEnd.toNat_lt
  have hsize := H.toNat_heapSize
  have hle := H.start_le_end
  have hsum : (H.heapStart.toNat + heapOffset.toNat) % 2 ^ 64 =
      H.heapStart.toNat + heapOffset.toNat := Nat.mod_eq_of_lt (by omega)
  rw [toNat_align ha, UInt64.toNat_add, alignedAt, ha, heapBase, hsum]

theorem toNat_nextOffset (size : UInt64) {align heapOffset : UInt64} {k : ℕ}
    (ha : align.toNat = 2 ^ k)
    (ho : heapOffset.toNat ≤ H.heapSize.toNat) :
    (((H.heapBase + heapOffset + align - 1) &&& ~~~(align - 1)) - H.heapBase + size).toNat =
      H.demand size align heapOffset % 2 ^ 64 := by
  have hstart := H.heapStart.toNat_lt
  have hlow := le_alignedAt (H := H) heapOffset ha
  rw [UInt64.toNat_add, UInt64.toNat_sub, toNat_aligned ha ho, demand, heapBase]
  omega

/-- **The two outcomes of a call.** It fails and changes nothing when the wrapped demand does not
fit, and otherwise returns the wrapped aligned address and moves the offset to the wrapped
demand. -/
theorem kmalloc_cases (size : UInt64) {align heapOffset : UInt64} {k : ℕ} (ha : align.toNat = 2 ^ k)
    (ho : heapOffset.toNat ≤ H.heapSize.toNat) :
    (H.heapSize.toNat ≤ H.demand size align heapOffset % 2 ^ 64 ∧
        H.kmalloc size align heapOffset = (0, heapOffset)) ∨
      (H.demand size align heapOffset % 2 ^ 64 < H.heapSize.toNat ∧
        (H.kmalloc size align heapOffset).1.toNat = H.alignedAt align heapOffset % 2 ^ 64 ∧
        (H.kmalloc size align heapOffset).2.toNat = H.demand size align heapOffset % 2 ^ 64) := by
  have hnext := toNat_nextOffset size ha ho
  simp only [kmalloc, ge_iff_le, UInt64.le_iff_toNat_le, hnext]
  split
  · next h => exact Or.inl ⟨h, rfl⟩
  · next h => exact Or.inr ⟨Nat.lt_of_not_le h, toNat_aligned ha ho, hnext⟩

/-- The offset stays within the heap, whatever is asked. -/
theorem kmalloc_offset_le (size : UInt64) {align heapOffset : UInt64} {k : ℕ}
    (ha : align.toNat = 2 ^ k)
    (ho : heapOffset.toNat ≤ H.heapSize.toNat) :
    (H.kmalloc size align heapOffset).2.toNat ≤ H.heapSize.toNat := by
  rcases kmalloc_cases size ha ho with ⟨-, h⟩ | ⟨hfit, -, h⟩
  · rw [h]
    exact ho
  · rw [h]
    exact hfit.le

variable (H)

/-- The requests the bound check misjudges: the demand passes `2 ^ 64`, its remainder looks small
enough, and the call either returns a pointer or, when the aligned address itself wrapped to zero,
changes the offset while returning `nullptr`. -/
def Wraps (size align heapOffset : UInt64) : Prop :=
  2 ^ 64 ≤ H.demand size align heapOffset ∧
    H.demand size align heapOffset % 2 ^ 64 < H.heapSize.toNat ∧
    (H.alignedAt align heapOffset < 2 ^ 64 ∨
      H.demand size align heapOffset % 2 ^ 64 ≠ heapOffset.toNat)

instance (size align heapOffset : UInt64) : Decidable (H.Wraps size align heapOffset) :=
  inferInstanceAs (Decidable (_ ∧ _ ∧ (_ ∨ _)))

variable {H}

/-- **A call that does not wrap** either fails without effect, or returns an aligned block inside
the heap, at or above the old offset and ending at the new one. -/
theorem kmalloc_of_not_wraps (size : UInt64) {align heapOffset : UInt64} {k : ℕ}
    (ha : align.toNat = 2 ^ k) (ho : heapOffset.toNat ≤ H.heapSize.toNat)
    (hw : ¬ H.Wraps size align heapOffset) :
    H.kmalloc size align heapOffset = (0, heapOffset) ∨
      (align.toNat ∣ (H.kmalloc size align heapOffset).1.toNat ∧
        H.heapStart.toNat + heapOffset.toNat ≤ (H.kmalloc size align heapOffset).1.toNat ∧
        (H.kmalloc size align heapOffset).1.toNat + size.toNat =
          H.heapStart.toNat + (H.kmalloc size align heapOffset).2.toNat ∧
        (H.kmalloc size align heapOffset).2.toNat < H.heapSize.toNat) := by
  have hlow := le_alignedAt (H := H) heapOffset ha
  have htop := alignedAt_le (H := H) ha ho
  have hsize := H.toNat_heapSize
  have hend := H.heapEnd.toNat_lt
  have hstart := H.start_pos
  have hdemand : H.demand size align heapOffset =
    H.alignedAt align heapOffset - H.heapStart.toNat + size.toNat := rfl
  rcases kmalloc_cases size ha ho with ⟨-, h⟩ | ⟨hfit, hptr, hoff⟩
  · exact Or.inl h
  rcases Nat.lt_or_ge (H.demand size align heapOffset) (2 ^ 64) with hlt | hge
  · -- nothing wraps: the block ends where the new offset points
    rw [Nat.mod_eq_of_lt hlt] at hfit hoff
    rw [Nat.mod_eq_of_lt (by omega)] at hptr
    rw [hptr, hoff]
    refine Or.inr ⟨dvd_roundUp _ _, hlow, ?_, hfit⟩
    rw [hdemand]
    clear hfit hoff hptr hlt
    omega
  · -- the demand wraps harmlessly only if the pointer and the offset both come back unchanged
    rw [Wraps] at hw
    have hzero : H.alignedAt align heapOffset = 2 ^ 64 := by
      by_contra hne
      exact hw ⟨hge, hfit, Or.inl (by omega)⟩
    have hsame : H.demand size align heapOffset % 2 ^ 64 = heapOffset.toNat := by
      by_contra hne
      exact hw ⟨hge, hfit, Or.inr hne⟩
    refine Or.inl (Prod.ext (UInt64.toNat_inj.1 ?_) (UInt64.toNat_inj.1 ?_))
    · rw [hptr, hzero]
      rfl
    · rw [hoff, hsame]

end Heap

/-! ### Allocation histories -/

/-- A call's arguments: any size, any power-of-two alignment. -/
structure Request where
  /-- `size`. -/
  size : UInt64
  /-- `align`. -/
  align : UInt64
  /-- The alignment is a power of two. -/
  align_two_pow : ∃ k, align.toNat = 2 ^ k

/-- One served request, with the `heap_offset` before and after it. -/
structure Answer where
  /-- The call's arguments. -/
  request : Request
  /-- `heap_offset` at entry. -/
  before : UInt64
  /-- The pointer returned; zero is `nullptr`. -/
  result : UInt64
  /-- `heap_offset` at exit. -/
  after : UInt64

/-- The bytes of an answer's block, as a set of addresses. -/
def Answer.block (a : Answer) : Set ℕ :=
  Set.Ico a.result.toNat (a.result.toNat + a.request.size.toNat)

namespace Heap

variable (H : Heap)

/-- Serve one request. -/
def serve (before : UInt64) (r : Request) : Answer :=
  { request := r
    before := before
    result := (H.kmalloc r.size r.align before).1
    after := (H.kmalloc r.size r.align before).2 }

/-- Serve a sequence of requests, each at the offset the previous one left. -/
def serveAll : UInt64 → List Request → List Answer
  | _, [] => []
  | before, r :: rs => H.serve before r :: serveAll (H.serve before r).after rs

/-- What clients of the allocator rely on, over a whole history. -/
structure Safe (history : List Answer) : Prop where
  /-- Every block is aligned as asked. -/
  aligned : ∀ a ∈ history, a.result ≠ 0 → a.request.align.toNat ∣ a.result.toNat
  /-- Every block lies in the heap, as mathematical integers. -/
  inside : ∀ a ∈ history, a.result ≠ 0 →
    H.heapStart.toNat ≤ a.result.toNat ∧
      a.result.toNat + a.request.size.toNat ≤ H.heapEnd.toNat
  /-- The blocks of any two successful calls are disjoint. -/
  disjoint : history.Pairwise fun a b ↦ a.result ≠ 0 → b.result ≠ 0 → Disjoint a.block b.block
  /-- `heap_offset` never decreases. -/
  monotone : ∀ a ∈ history, a.before ≤ a.after
  /-- A failed call leaves `heap_offset` alone. -/
  failed : ∀ a ∈ history, a.result = 0 → a.after = a.before

variable {H}

/-- Every answer of a history is a call served at an offset within the heap. -/
theorem mem_serveAll {before : UInt64} {rs : List Request} {a : Answer}
    (ho : before.toNat ≤ H.heapSize.toNat) (ha : a ∈ H.serveAll before rs) :
    a.before.toNat ≤ H.heapSize.toNat ∧ a = H.serve a.before a.request := by
  induction rs generalizing before with
  | nil => exact absurd ha List.not_mem_nil
  | cons r rs ih =>
    rcases List.mem_cons.1 ha with rfl | ha
    · exact ⟨ho, rfl⟩
    · obtain ⟨k, hk⟩ := r.align_two_pow
      exact ih (kmalloc_offset_le r.size hk ho) ha

/-- The blocks of a history without wrapping start at or above the offset it started from. -/
theorem le_result_of_mem_serveAll {before : UInt64} {rs : List Request} {a : Answer}
    (ho : before.toNat ≤ H.heapSize.toNat)
    (hw : ∀ b ∈ H.serveAll before rs, ¬ H.Wraps b.request.size b.request.align b.before)
    (ha : a ∈ H.serveAll before rs) (hres : a.result ≠ 0) :
    H.heapStart.toNat + before.toNat ≤ a.result.toNat := by
  induction rs generalizing before with
  | nil => exact absurd ha List.not_mem_nil
  | cons r rs ih =>
    obtain ⟨k, hk⟩ := r.align_two_pow
    have hhead := kmalloc_of_not_wraps r.size hk ho (hw (H.serve before r) List.mem_cons_self)
    rcases List.mem_cons.1 ha with rfl | ha
    · rcases hhead with h | ⟨-, hlow, -⟩
      · exact absurd (congrArg Prod.fst h) hres
      · exact hlow
    · have hrest :=
        ih (kmalloc_offset_le r.size hk ho) (fun b hb ↦ hw b (List.mem_cons_of_mem _ hb)) ha
      have hmono : before.toNat ≤ (H.kmalloc r.size r.align before).2.toNat := by
        rcases hhead with h | ⟨-, hlow, hends, -⟩
        · exact (congrArg (UInt64.toNat ∘ Prod.snd) h).ge
        · omega
      omega

/-- Without wrapping, the successful blocks of a history are pairwise disjoint: each ends at the
offset it leaves, and all later ones start above that. -/
theorem pairwise_disjoint_of_not_wraps {before : UInt64} {rs : List Request}
    (ho : before.toNat ≤ H.heapSize.toNat)
    (hw : ∀ b ∈ H.serveAll before rs, ¬ H.Wraps b.request.size b.request.align b.before) :
    (H.serveAll before rs).Pairwise
      fun a b ↦ a.result ≠ 0 → b.result ≠ 0 → Disjoint a.block b.block := by
  induction rs generalizing before with
  | nil => exact List.Pairwise.nil
  | cons r rs ih =>
    obtain ⟨k, hk⟩ := r.align_two_pow
    have hrest : ∀ b ∈ H.serveAll (H.serve before r).after rs,
        ¬ H.Wraps b.request.size b.request.align b.before :=
      fun b hb ↦ hw b (List.mem_cons_of_mem _ hb)
    refine List.pairwise_cons.2 ⟨fun b hb hres hres' ↦ ?_,
      ih (kmalloc_offset_le r.size hk ho) hrest⟩
    have hlater := le_result_of_mem_serveAll (kmalloc_offset_le r.size hk ho) hrest hb hres'
    have hhead := kmalloc_of_not_wraps r.size hk ho (hw (H.serve before r) List.mem_cons_self)
    rcases hhead with h | ⟨-, -, hends, -⟩
    · exact absurd (congrArg Prod.fst h) hres
    · refine Set.disjoint_left.2 fun x hx hx' ↦ ?_
      have hx₁ := hx.2
      have hx₂ := hx'.1
      simp only [serve] at hx₁ hlater
      omega

/-- A history without wrapping is safe. -/
theorem safe_of_not_wraps {before : UInt64} {rs : List Request}
    (ho : before.toNat ≤ H.heapSize.toNat)
    (hw : ∀ a ∈ H.serveAll before rs, ¬ H.Wraps a.request.size a.request.align a.before) :
    H.Safe (H.serveAll before rs) := by
  have hsize := H.toNat_heapSize
  have hend := H.start_le_end
  have hpos := H.start_pos
  -- each answer is one of the two harmless outcomes of its call
  have hcases : ∀ a ∈ H.serveAll before rs, (a.result = 0 ∧ a.after = a.before) ∨
      (a.request.align.toNat ∣ a.result.toNat ∧
        H.heapStart.toNat + a.before.toNat ≤ a.result.toNat ∧
        a.result.toNat + a.request.size.toNat = H.heapStart.toNat + a.after.toNat ∧
        a.after.toNat < H.heapSize.toNat) := by
    intro a ha
    obtain ⟨hoff, heq⟩ := mem_serveAll ho ha
    obtain ⟨k, hk⟩ := a.request.align_two_pow
    have hcall := kmalloc_of_not_wraps a.request.size hk hoff (hw a ha)
    rw [heq]
    rcases hcall with h | h
    · exact Or.inl ⟨congrArg Prod.fst h, congrArg Prod.snd h⟩
    · exact Or.inr h
  refine ⟨?_, ?_, pairwise_disjoint_of_not_wraps ho hw, ?_, ?_⟩
  · intro a ha hres
    rcases hcases a ha with ⟨h, -⟩ | ⟨h, -⟩
    · exact absurd h hres
    · exact h
  · intro a ha hres
    rcases hcases a ha with ⟨h, -⟩ | ⟨-, hlow, hends, hfit⟩
    · exact absurd h hres
    · omega
  · intro a ha
    rw [UInt64.le_iff_toNat_le]
    rcases hcases a ha with ⟨-, h⟩ | ⟨-, hlow, hends, -⟩
    · rw [h]
    · omega
  · intro a ha hres
    rcases hcases a ha with ⟨-, h⟩ | ⟨-, hlow, -⟩
    · exact h
    · rw [hres, UInt64.toNat_zero] at hlow
      omega

/-- A request that wraps breaks the history: its block passes the end of the heap, or it fails and
still moves the offset. -/
theorem not_safe_of_wraps {before : UInt64} {rs : List Request} {a : Answer}
    (ho : before.toNat ≤ H.heapSize.toNat) (ha : a ∈ H.serveAll before rs)
    (hw : H.Wraps a.request.size a.request.align a.before) : ¬ H.Safe (H.serveAll before rs) := by
  intro hsafe
  obtain ⟨hoff, heq⟩ := mem_serveAll ho ha
  obtain ⟨k, hk⟩ := a.request.align_two_pow
  obtain ⟨hge, hfit, hbad⟩ := hw
  have hlow := le_alignedAt (H := H) a.before hk
  have htop := alignedAt_le (H := H) hk hoff
  have hpos := H.start_pos
  have hend := H.heapEnd.toNat_lt
  have hdemand : H.demand a.request.size a.request.align a.before =
    H.alignedAt a.request.align a.before - H.heapStart.toNat + a.request.size.toNat := rfl
  rcases kmalloc_cases a.request.size hk hoff with ⟨h, -⟩ | ⟨-, hptr, hnext⟩
  · omega
  have hres : a.result.toNat = H.alignedAt a.request.align a.before % 2 ^ 64 := by
    rw [heq]
    exact hptr
  have hafter : a.after.toNat = H.demand a.request.size a.request.align a.before % 2 ^ 64 := by
    rw [heq]
    exact hnext
  rcases Nat.lt_or_ge (H.alignedAt a.request.align a.before) (2 ^ 64) with hlt | htop'
  · rw [Nat.mod_eq_of_lt hlt] at hres
    have hne : a.result ≠ 0 := by
      intro h
      rw [h, UInt64.toNat_zero] at hres
      omega
    have hin := (hsafe.inside a ha hne).2
    omega
  · -- the aligned address wrapped to zero, so the call reads as failed
    have hzero : a.result = 0 := by
      refine UInt64.toNat_inj.1 ?_
      rw [hres, Nat.le_antisymm htop htop']
      rfl
    have hkeep := hsafe.failed a ha hzero
    rw [hkeep] at hafter
    rcases hbad with h | h
    · omega
    · exact h hafter.symm

/-- **Safety of allocation histories.** Over every sequence of requests, from the offset zero the
programs start with, the heap is safe exactly when no request wraps. -/
theorem safe_serveAll_iff (H : Heap) (rs : List Request) :
    H.Safe (H.serveAll 0 rs) ↔
      ∀ a ∈ H.serveAll 0 rs, ¬ H.Wraps a.request.size a.request.align a.before :=
  ⟨fun hsafe _ ha hw ↦ not_safe_of_wraps (Nat.zero_le _) ha hw hsafe,
    safe_of_not_wraps (Nat.zero_le _)⟩

/-- A 16 MiB heap in the higher half, as the kernel's linker script lays it out. -/
def higherHalf : Heap where
  heapStart := 0xFFFF800000008000
  heapEnd := 0xFFFF800001008000
  start_pos := by decide
  start_le_end := by decide

/-- Sixteen bytes, then eight bytes short of the whole address space: the second call succeeds, with
a block that ends far outside the heap, and moves the offset back from 16 to 8. -/
def wrappingRequests : List Request :=
  [⟨16, 8, 3, rfl⟩, ⟨0xFFFFFFFFFFFFFFF8, 8, 3, rfl⟩]

theorem not_safe_wrappingRequests : ¬ higherHalf.Safe (higherHalf.serveAll 0 wrappingRequests) := by
  have hwraps : ∃ a ∈ higherHalf.serveAll 0 wrappingRequests,
      higherHalf.Wraps a.request.size a.request.align a.before := by decide
  obtain ⟨a, ha, hw⟩ := hwraps
  exact not_safe_of_wraps (Nat.zero_le _) ha hw

end Heap

end Aidos.Memory
