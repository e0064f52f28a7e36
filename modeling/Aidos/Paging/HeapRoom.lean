import Aidos.Paging.BootMapping
import Aidos.Paging.KernelTables

/-!
# Room for page tables

A mapping call takes at most two or three pages from the heap for each page that it maps. If the
heap has room for as many (`PageRoom`), none of its allocations fails, whatever memory and the page
tables hold (`Boot.perform_yields`, `Kernel.map4k_yields`). This is what the assumption
`Event.Allocates` of the other modules amounts to.
-/

namespace Aidos.Paging

open ByteMemory Memory Words

/-! ### Programs that do not allocate -/

/-- The program asks for no memory. -/
def KeepsHeap {α : Type} (x : Prog α) : Prop :=
  ∀ m, x.Yields Event.Allocates (fun _ m' _ ↦ m'.heapOffset = m.heapOffset) m

section KeepsHeap

variable {α β : Type}

theorem KeepsHeap.bind {x : Prog α} {f : α → Prog β} (hx : KeepsHeap x)
    (hf : ∀ a, KeepsHeap (f a)) :
    KeepsHeap (x >>= f) := by
  intro m
  refine Exec.yields_bind (hx m) fun a m' _ hm' ↦ ?_
  exact Exec.yields_mono (hf a m') fun _ _ _ hm'' ↦ hm''.trans hm'

theorem keepsHeap_pure (a : α) : KeepsHeap (pure a : Prog α) := fun _ ↦ Exec.yields_pure rfl

theorem keepsHeap_get : KeepsHeap (Exec.get : Prog Machine) := fun _ ↦ Exec.yields_get rfl

theorem keepsHeap_access {e : Event} (he : e.Allocates) (v : UInt64) : KeepsHeap (access e v) := by
  refine KeepsHeap.bind (fun _ ↦ Exec.yields_emit he rfl) fun _ ↦
    KeepsHeap.bind keepsHeap_get fun m ↦ ?_
  split
  · exact keepsHeap_pure _
  · exact fun _ ↦ Exec.yields_fault

theorem allocates_read (v : UInt64) : (Event.read v).Allocates := by simp [Event.Allocates]

theorem allocates_write (v : UInt64) : (Event.write v).Allocates := by simp [Event.Allocates]

theorem keepsHeap_load64 (v : UInt64) : KeepsHeap (load64 v) := by
  rw [load64]
  split
  · refine (keepsHeap_access (allocates_read v) v).bind fun _ ↦ keepsHeap_get.bind fun _ ↦
      keepsHeap_pure _
  · exact fun _ ↦ Exec.yields_fault

theorem keepsHeap_store64 (v x : UInt64) : KeepsHeap (store64 v x) := by
  rw [store64]
  split
  · exact (keepsHeap_access (allocates_write v) v).bind fun _ _ ↦ Exec.yields_modify rfl
  · exact fun _ ↦ Exec.yields_fault

theorem keepsHeap_storeRun (dest : UInt64) (f : ℕ → UInt8)
    (n : ℕ) : KeepsHeap (storeRun dest f n) := by
  intro m
  refine Exec.yields_forUpTo (fun _ (m' : Machine) _ ↦ m'.heapOffset = m.heapOffset)
    rfl fun i _ m' _ hm' ↦ ?_
  have hstore : KeepsHeap (store8 (dest + UInt64.ofNat i) (f i)) :=
    (keepsHeap_access (allocates_write _) _).bind fun _ _ ↦ Exec.yields_modify rfl
  exact Exec.yields_mono (hstore m') fun _ _ _ hm'' ↦ hm''.trans hm'

end KeepsHeap

/-! ### Page tables from the heap -/

section PageRoom

variable {H : Heap} {k : ℕ} {m : Machine}

/-- The heap has room for `k` more pages. -/
def PageRoom (H : Heap) (k : ℕ) (m : Machine) : Prop :=
  roundUp (H.heapStart.toNat + m.heapOffset.toNat) 4096 + 4096 * k < H.heapEnd.toNat

instance (k : ℕ) (m : Machine) : Decidable (PageRoom H k m) := inferInstanceAs (Decidable (_ < _))

theorem PageRoom.mono {k' : ℕ} (h : PageRoom H k m) (hk : k' ≤ k) : PageRoom H k' m := by
  rw [PageRoom] at h ⊢
  omega

theorem PageRoom.keeps {m' : Machine} (h : PageRoom H k m) (hm' : m'.heapOffset = m.heapOffset) :
    PageRoom H k m' := by
  rwa [PageRoom, hm']

/-- Allocating a page. -/
theorem kmalloc_page_yields (h : PageRoom H (k + 1) m) :
    (kmalloc H 4096 4096).Yields Event.Allocates (fun _ m' _ ↦ PageRoom H k m') m := by
  have halign : (4096 : UInt64).toNat = 2 ^ 12 := rfl
  have hend := H.heapEnd.toNat_lt
  have hsize := H.toNat_heapSize
  have hpos := H.start_pos
  rw [PageRoom] at h
  have hle := le_roundUp (x := H.heapStart.toNat + m.heapOffset.toNat) (a := 4096) (by decide)
  have hoff : m.heapOffset.toNat ≤ H.heapSize.toNat := by omega
  have hdemand : H.demand 4096 4096 m.heapOffset =
      roundUp (H.heapStart.toNat + m.heapOffset.toNat) 4096 - H.heapStart.toNat + 4096 := rfl
  have hat : H.alignedAt 4096 m.heapOffset =
      roundUp (H.heapStart.toNat + m.heapOffset.toNat) 4096 := rfl
  have hmod : roundUp (H.heapStart.toNat + m.heapOffset.toNat) 4096 % 4096 = 0 :=
    Nat.mod_eq_zero_of_dvd (dvd_roundUp _ _)
  rcases Heap.kmalloc_cases 4096 halign hoff with ⟨hfull, -⟩ | ⟨-, hptr, hnext⟩
  · omega
  · refine ⟨fun e he ↦ ?_, fun _ _ ↦ ?_⟩
    · obtain rfl := List.mem_singleton.1 he
      intro hzero
      have hnum := congrArg UInt64.toNat (Event.alloc.inj hzero)
      rw [hptr, UInt64.toNat_zero] at hnum
      omega
    · show roundUp (H.heapStart.toNat + (H.kmalloc 4096 4096 m.heapOffset).2.toNat) 4096 +
        4096 * k < H.heapEnd.toNat
      have hsum : H.heapStart.toNat + H.demand 4096 4096 m.heapOffset % 2 ^ 64 =
          roundUp (H.heapStart.toNat + m.heapOffset.toNat) 4096 + 4096 := by omega
      have hround : roundUp (roundUp (H.heapStart.toNat + m.heapOffset.toNat) 4096 + 4096) 4096 =
          roundUp (H.heapStart.toNat + m.heapOffset.toNat) 4096 + 4096 := by
        rw [roundUp]
        omega
      rw [hnext, hsum, hround]
      omega

/-- The helper that returns the next table takes at most one page. -/
def TakesOnePage (H : Heap) (get : UInt64 → UInt64 → Prog UInt64) : Prop :=
  ∀ (k : ℕ) (parent index : UInt64) (m : Machine), PageRoom H (k + 1) m →
    (get parent index).Yields Event.Allocates (fun _ m' _ ↦ PageRoom H k m') m

variable {get : UInt64 → UInt64 → Prog UInt64}

/-- Three tables for a 4 KiB page. -/
theorem TakesOnePage.place4k (hg : TakesOnePage H get) (pml4 va entry : UInt64)
    (h : PageRoom H (k + 3) m) :
    (place4k get pml4 va entry).Yields Event.Allocates (fun _ m' _ ↦ PageRoom H k m') m := by
  refine Exec.yields_bind (hg (k + 2) _ _ m h) fun pdpt m₁ _ h₁ ↦ ?_
  refine Exec.yields_bind (hg (k + 1) _ _ m₁ h₁) fun pd m₂ _ h₂ ↦ ?_
  refine Exec.yields_bind (hg k _ _ m₂ h₂) fun pt m₃ _ h₃ ↦ ?_
  exact Exec.yields_mono (keepsHeap_store64 _ _ m₃) fun _ _ _ h₄ ↦ h₃.keeps h₄

/-- Two tables for a 2 MiB page. -/
theorem TakesOnePage.place2m (hg : TakesOnePage H get) (pml4 va entry : UInt64)
    (h : PageRoom H (k + 2) m) :
    (place2m get pml4 va entry).Yields Event.Allocates (fun _ m' _ ↦ PageRoom H k m') m := by
  refine Exec.yields_bind (hg (k + 1) _ _ m h) fun pdpt m₁ _ h₁ ↦ ?_
  refine Exec.yields_bind (hg k _ _ m₁ h₁) fun pd m₂ _ h₂ ↦ ?_
  exact Exec.yields_mono (keepsHeap_store64 _ _ m₂) fun _ _ _ h₃ ↦ h₂.keeps h₃

end PageRoom

/-! ### The bootloader -/

namespace Boot

variable {B : Boot} {k : ℕ} {m : Machine}

/-- The heap has room for `k` more page tables. -/
def Room (B : Boot) (k : ℕ) (m : Machine) : Prop := PageRoom B.heap k m

instance (k : ℕ) (m : Machine) : Decidable (B.Room k m) :=
  inferInstanceAs (Decidable (PageRoom _ _ _))

theorem Room.mono {k' : ℕ} (h : B.Room k m) (hk : k' ≤ k) : B.Room k' m := PageRoom.mono h hk

theorem Room.keeps {m' : Machine} (h : B.Room k m) (hm' : m'.heapOffset = m.heapOffset) :
    B.Room k m' :=
  PageRoom.keeps h hm'

/-- At most one page for a table that may have to be made. -/
theorem takesOnePage (B : Boot) : TakesOnePage B.heap B.getOrCreateTable := by
  intro k parent index m h
  refine Exec.yields_bind (keepsHeap_load64 _ m) fun entry m₁ _ h₁ ↦ ?_
  split
  · refine Exec.yields_bind (kmalloc_page_yields (h.keeps h₁)) fun newTable m₂ _ h₂ ↦ ?_
    refine Exec.yields_bind (keepsHeap_storeRun _ _ _ m₂) fun _ m₃ _ h₃ ↦ ?_
    refine Exec.yields_bind (keepsHeap_store64 _ _ m₃) fun _ m₄ _ h₄ ↦ ?_
    exact Exec.yields_pure (h₂.keeps (h₄.trans h₃))
  · refine Exec.yields_bind (keepsHeap_load64 _ m₁) fun _ m₂ _ h₂ ↦ ?_
    exact Exec.yields_pure ((h.mono (Nat.le_succ k)).keeps (h₂.trans h₁))

/-- One page needs a table on each level below the first. -/
theorem placePage_yields (s : PageSize) (va pa : UInt64) (h : B.Room (s.depth + k) m) :
    (B.placePage s va pa).Yields Event.Allocates (fun _ m' _ ↦ B.Room k m') m := by
  cases s with
  | small => exact B.takesOnePage.place4k _ _ _ (h.mono (Nat.add_comm k 3).le)
  | large => exact B.takesOnePage.place2m _ _ _ (h.mono (Nat.add_comm k 2).le)

/-- **A mapping call** does not run out of memory if there is room for its tables. -/
theorem perform_yields (c : BootCall) (h : B.Room (c.size.depth * c.count.toNat + k) m) :
    (B.perform c).Yields Event.Allocates (fun _ m' _ ↦ B.Room k m') m := by
  have hloop : (Exec.forUpTo c.count.toNat fun i ↦ B.placePage c.size (c.va i) (c.pa i)).Yields
      Event.Allocates
        (fun _ m' _ ↦ B.Room (c.size.depth * (c.count.toNat - c.count.toNat) + k) m') m := by
    refine Exec.yields_forUpTo
      (fun i m' _ ↦ B.Room (c.size.depth * (c.count.toNat - i) + k) m') h ?_
    intro i hi m' _ hm'
    refine placePage_yields _ _ _ (hm'.mono ?_)
    have hturn : c.count.toNat - i = c.count.toNat - (i + 1) + 1 := by omega
    rw [hturn, Nat.mul_succ]
    omega
  rw [perform_eq]
  refine Exec.yields_mono hloop fun _ m' _ hm' ↦ hm'.mono ?_
  omega

end Boot

/-! ### The kernel -/

namespace Kernel

variable {K : Kernel} {k : ℕ} {m : Machine}

/-- At most one page for a table that may have to be made. -/
theorem takesOnePage (K : Kernel) : TakesOnePage K.heap K.getOrCreateTable := by
  intro k parent index m h
  refine Exec.yields_bind (keepsHeap_load64 _ m) fun entry m₁ _ h₁ ↦ ?_
  split
  · refine Exec.yields_bind (kmalloc_page_yields (h.keeps h₁)) fun newTable m₂ _ h₂ ↦ ?_
    split
    · exact Exec.yields_pure h₂
    · refine Exec.yields_bind (keepsHeap_storeRun _ _ _ m₂) fun _ m₃ _ h₃ ↦ ?_
      refine Exec.yields_bind (keepsHeap_get m₃) fun _ m₄ _ h₄ ↦ ?_
      refine Exec.yields_bind (keepsHeap_store64 _ _ m₄) fun _ m₅ _ h₅ ↦ ?_
      exact Exec.yields_pure (h₂.keeps (h₅.trans (h₄.trans h₃)))
  · refine Exec.yields_bind (keepsHeap_load64 _ m₁) fun _ m₂ _ h₂ ↦ ?_
    refine Exec.yields_bind (keepsHeap_get m₂) fun _ m₃ _ h₃ ↦ ?_
    exact Exec.yields_pure ((h.mono (Nat.le_succ k)).keeps (h₃.trans (h₂.trans h₁)))

/-- **`map_4k` of the kernel** does not run out of memory if there is room for its tables. -/
theorem map4k_yields (virt phys count : UInt64) (h : PageRoom K.heap (3 * count.toNat + k) m) :
    (K.map4k virt phys count).Yields Event.Allocates (fun _ m' _ ↦ PageRoom K.heap k m') m := by
  have hloop : (K.map4k virt phys count).Yields Event.Allocates
      (fun _ m' _ ↦ PageRoom K.heap (3 * (count.toNat - count.toNat) + k) m') m := by
    refine Exec.yields_forUpTo
      (fun i m' _ ↦ PageRoom K.heap (3 * (count.toNat - i) + k) m') h fun i hi m' _ hm' ↦ ?_
    exact K.takesOnePage.place4k _ _ _ (hm'.mono (by omega))
  exact Exec.yields_mono hloop fun _ _ _ hm' ↦ hm'.mono (Nat.le_add_left _ _)

end Kernel

end Aidos.Paging
