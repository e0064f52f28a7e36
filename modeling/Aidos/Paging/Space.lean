import Aidos.Paging.Machine

/-!
# Programs that edit the tables they run on

The bootloader and the kernel extend the tree that translates their own accesses. What makes this
work is the same in both, up to one number: every table and the whole heap are mapped linearly, at a
fixed distance (`Space.offset`) above their physical addresses, so that a table pointer is turned
into a frame by subtraction and back by addition. In the bootloader the distance is zero.

`Sound` is the invariant of such a program: the tree is separated, the region the program relies on
is mapped linearly, every table is in that region, and no page of the free heap is a table. It is
kept by writes outside the tables (`Sound.keeps`), by an allocation (`Sound.alloc`), by hanging a
fresh page into the tree (`Sound.link`) and by replacing an entry that ends its paths
(`Sound.setEntry`), provided the pages of the region keep their frames.
-/

namespace Aidos.Paging

open ByteMemory Memory Words

/-- Where a program keeps its page tables. -/
structure Space where
  /-- The heap that tables are allocated from. -/
  heap : Heap
  /-- The distance from physical addresses to the pointers the program uses. -/
  offset : UInt64
  /-- The pointer to the PML4. -/
  pml4 : UInt64
  /-- The numbers of the virtual pages the program relies on. -/
  region : Set ℕ
  /-- Frames and pages line up. -/
  offset_aligned : offset.toNat % 4096 = 0
  /-- `alignas(0x1000)`. -/
  pml4_aligned : pml4.toNat % 4096 = 0
  /-- No program is linked at the bottom of the address space. -/
  lt_heapStart : 4096 < heap.heapStart.toNat

namespace Space

variable (S : Space)

/-- The pointer to the table in frame `t`. -/
def pointer (t : ℕ) : UInt64 := UInt64.ofNat (4096 * t) + S.offset

/-- The frame a pointer points into. -/
def frame (p : UInt64) : ℕ := (p - S.offset).toNat / 4096

/-- A page of the heap that has not been handed out. -/
def Free (m : Machine) (p : UInt64) : Prop :=
  p.toNat % 4096 = 0 ∧ S.heap.heapStart.toNat + m.heapOffset.toNat ≤ p.toNat ∧
    p.toNat + 4096 ≤ S.heap.heapEnd.toNat

/-- The invariant of a program that edits its own tables. -/
structure Sound (m : Machine) : Prop where
  /-- The allocator is within its heap. -/
  heapOffset_le : m.heapOffset.toNat ≤ S.heap.heapSize.toNat
  /-- The tree in use is the one under the program's PML4. -/
  root : m.root = S.frame S.pml4
  /-- Each table is reached by one path. -/
  separated : x86.Separated (entryAt m.mem) m.root
  /-- The region is mapped linearly. -/
  linear : ∀ v : UInt64, v.toNat / 4096 ∈ S.region → m.translate v = some (v - S.offset).toNat
  /-- The free pages of the heap are in the region. -/
  free_mem : ∀ p, S.Free m p → p.toNat / 4096 ∈ S.region
  /-- All tables are in the region. -/
  tables : ∀ t, m.IsTable t → (S.pointer t).toNat / 4096 ∈ S.region
  /-- Bits 52 to 63 of the entries that point to tables are clear. -/
  clear : ∀ p t i s, m.tableAt p = some t →
    x86.child p.length (entryAt m.mem t i) = some s → (entryAt m.mem t i).toNat < 2 ^ 52
  /-- No free page is a table. -/
  fresh : ∀ p, S.Free m p → ¬ m.IsTable (S.frame p)

variable {S} {m m' : Machine}

/-! ### Pointers and frames -/

theorem pointer_add_sub (t : ℕ) (x : UInt64) :
    S.pointer t + x - S.offset = UInt64.ofNat (4096 * t) + x := by
  rw [pointer, UInt64.add_assoc, UInt64.add_comm S.offset, ← UInt64.add_assoc,
    UInt64.add_sub_cancel]

theorem toNat_pointer_add_sub {t : ℕ} {x : UInt64} (ht : t < 2 ^ 40) (hx : x.toNat < 4096) :
    (S.pointer t + x - S.offset).toNat = 4096 * t + x.toNat := by
  have hsize : 4096 * t < UInt64.size := Nat.lt_trans (m := 2 ^ 52) (by omega) (by decide)
  rw [pointer_add_sub, UInt64.toNat_add, UInt64.toNat_ofNat_of_lt' hsize]
  omega

/-- The frame of a table, from its pointer. -/
theorem toNat_pointer_sub {t : ℕ} (ht : t < 2 ^ 40) :
    (S.pointer t - S.offset).toNat = 4096 * t := by
  have hsub := toNat_pointer_add_sub (S := S) (x := 0) ht (by decide)
  rwa [UInt64.add_zero] at hsub

theorem toNat_pointer_mod {t : ℕ} (ht : t < 2 ^ 40) : (S.pointer t).toNat % 4096 = 0 := by
  have hsize : 4096 * t < UInt64.size := Nat.lt_trans (m := 2 ^ 52) (by omega) (by decide)
  have hoff := S.offset_aligned
  rw [pointer, UInt64.toNat_add, UInt64.toNat_ofNat_of_lt' hsize]
  omega

/-- A pointer into a table stays on the table's page. -/
theorem toNat_pointer_add {t : ℕ} {x : UInt64} (ht : t < 2 ^ 40) (hx : x.toNat < 4096) :
    (S.pointer t + x).toNat = (S.pointer t).toNat + x.toNat := by
  have hmod := toNat_pointer_mod (S := S) ht
  have hlt := (S.pointer t).toNat_lt
  rw [UInt64.toNat_add]
  omega

/-- A page-aligned pointer points to the start of its frame. -/
theorem toNat_sub_offset {p : UInt64} (hp : p.toNat % 4096 = 0) :
    (p - S.offset).toNat = 4096 * S.frame p := by
  have hoff := S.offset_aligned
  have hmod : (p - S.offset).toNat % 4096 = 0 := by
    rw [UInt64.toNat_sub]
    have hlt := S.offset.toNat_lt
    omega
  rw [frame]
  omega

/-- A page-aligned pointer is the pointer to its frame. -/
theorem pointer_frame {p : UInt64} (hp : p.toNat % 4096 = 0) : S.pointer (S.frame p) = p := by
  rw [pointer, ← toNat_sub_offset hp, UInt64.ofNat_toNat, UInt64.sub_add_cancel]

/-! ### What the invariant gives -/

section Sound

variable {assume : Event → Prop}

theorem Sound.path_unique (h : S.Sound m) {p q : List Index} {t : ℕ} (hp : m.tableAt p = some t)
    (hq : m.tableAt q = some t) : p = q :=
  h.separated p q t hp hq

/-- A table is accessed at its pointer. -/
theorem Sound.translate_table (h : S.Sound m) {t : ℕ} (ht : m.IsTable t) {x : UInt64}
    (hx : x.toNat < 4096) : m.translate (S.pointer t + x) = some (4096 * t + x.toNat) := by
  have hlt := Machine.isTable_lt ht
  have hmod := toNat_pointer_mod (S := S) hlt
  have hpage : (S.pointer t + x).toNat / 4096 = (S.pointer t).toNat / 4096 := by
    rw [toNat_pointer_add hlt hx]
    omega
  rw [h.linear _ (hpage ▸ h.tables t ht), toNat_pointer_add_sub hlt hx]

/-- The address of an entry: a table pointer and an index. -/
theorem toNat_entryOffset {i : UInt64} {idx : Index} (hi : i.toNat = idx) :
    (8 * i).toNat = 8 * idx := by
  have hidx := idx.isLt
  rw [UInt64.toNat_mul, hi]
  simp only [UInt64.reduceToNat]
  omega

theorem Sound.translate_entry (h : S.Sound m) {t : ℕ} (ht : m.IsTable t) {i : UInt64} {idx : Index}
    (hi : i.toNat = idx) :
    (S.pointer t + 8 * i).toNat % 8 = 0 ∧
      m.translate (S.pointer t + 8 * i) = some (4096 * t + 8 * idx) := by
  have hidx := idx.isLt
  have hoff := toNat_entryOffset hi
  have hmod := toNat_pointer_mod (S := S) (Machine.isTable_lt ht)
  refine ⟨?_, ?_⟩
  · rw [toNat_pointer_add (Machine.isTable_lt ht) (by omega), hoff]
    omega
  · rw [h.translate_table ht (by omega), hoff]

/-- Reading `(*table)[index]`. -/
theorem Sound.wp_loadEntry (h : S.Sound m) {t : ℕ} (ht : m.IsTable t) {i : UInt64} {idx : Index}
    (hi : i.toNat = idx) {Q : UInt64 → Machine → Prop} (hQ : Q (entryAt m.mem t idx) m) :
    (load64 (S.pointer t + 8 * i)).wp assume Q m :=
  wp_load64 (h.translate_entry ht hi).1 (h.translate_entry ht hi).2 hQ

/-- Writing `(*table)[index]`. -/
theorem Sound.wp_storeEntry (h : S.Sound m) {t : ℕ} (ht : m.IsTable t) {i x : UInt64} {idx : Index}
    (hi : i.toNat = idx) {Q : Unit → Machine → Prop}
    (hQ : Q () { m with mem := write64 m.mem (4096 * t + 8 * idx) x }) :
    (store64 (S.pointer t + 8 * i) x).wp assume Q m :=
  wp_store64 (h.translate_entry ht hi).1 (h.translate_entry ht hi).2 hQ

/-- Writes outside the tables keep the invariant. -/
theorem Sound.keeps (h : S.Sound m) (hk : m.KeepsTables m') (ho : m'.heapOffset = m.heapOffset) :
    S.Sound m' where
  heapOffset_le := ho ▸ h.heapOffset_le
  root := hk.root.trans h.root
  separated := by
    rw [hk.root]
    exact TreeFormat.separated_congr hk.entry h.separated
  linear := fun v hv ↦ (hk.translate v).trans (h.linear v hv)
  free_mem := by
    intro p hp
    rw [Free, ho] at hp
    exact h.free_mem p hp
  tables := fun t ht ↦ h.tables t (hk.isTable.1 ht)
  clear := by
    intro p t i s hp hs
    rw [hk.tableAt] at hp
    rw [hk.entry t i ⟨p, hp⟩] at hs ⊢
    exact h.clear p t i s hp hs
  fresh := by
    intro p hp ht
    rw [Free, ho] at hp
    exact h.fresh p hp (hk.isTable.1 ht)

/-- A page that is free after an allocation was free before. -/
theorem free_of_alloc {o p : UInt64} (hle : m.heapOffset.toNat ≤ o.toNat)
    (hp : S.Free { m with heapOffset := o } p) : S.Free m p :=
  ⟨hp.1, Nat.le_trans (Nat.add_le_add_left hle _) hp.2.1, hp.2.2⟩

/-- An allocation keeps the invariant. -/
theorem Sound.alloc (h : S.Sound m) {o : UInt64} (hle : m.heapOffset.toNat ≤ o.toNat)
    (ho : o.toNat ≤ S.heap.heapSize.toNat) : S.Sound { m with heapOffset := o } where
  heapOffset_le := ho
  root := h.root
  separated := h.separated
  linear := h.linear
  free_mem := fun p hp ↦ h.free_mem p (free_of_alloc hle hp)
  tables := h.tables
  clear := h.clear
  fresh := fun p hp ↦ h.fresh p (free_of_alloc hle hp)

/-! ### Allocating a page -/

/-- A page-sized allocation fails, or takes a free page and everything below it. -/
theorem kmalloc_page {H : Heap} (hstart : 4096 < H.heapStart.toNat) {o : UInt64}
    (ho : o.toNat ≤ H.heapSize.toNat) :
    (H.kmalloc 4096 4096 o).1 = 0 ∨
      ((H.kmalloc 4096 4096 o).1.toNat % 4096 = 0 ∧
        H.heapStart.toNat + o.toNat ≤ (H.kmalloc 4096 4096 o).1.toNat ∧
        (H.kmalloc 4096 4096 o).1.toNat + 4096 =
          H.heapStart.toNat + (H.kmalloc 4096 4096 o).2.toNat ∧
        (H.kmalloc 4096 4096 o).2.toNat < H.heapSize.toNat) := by
  have halign : (4096 : UInt64).toNat = 2 ^ 12 := rfl
  have htop := Heap.alignedAt_le (H := H) halign ho
  have hnot : ¬ H.Wraps 4096 4096 o := by
    rintro ⟨hge, -⟩
    rw [Heap.demand, halign] at hge
    omega
  rcases Heap.kmalloc_of_not_wraps 4096 halign ho hnot with h | ⟨hdvd, hlow, hend, hlt⟩
  · exact Or.inl (congrArg Prod.fst h)
  · exact Or.inr ⟨Nat.mod_eq_zero_of_dvd hdvd, hlow, hend, hlt⟩

/-- Allocating a page, where the assumption on the run excludes that this fails. -/
theorem wp_kmalloc_page {H : Heap} (hstart : 4096 < H.heapStart.toNat)
    (ho : m.heapOffset.toNat ≤ H.heapSize.toNat) (hassume : ∀ p, assume (Event.alloc p) → p ≠ 0) :
    (kmalloc H 4096 4096).wp assume (fun p m' ↦ assume (Event.alloc p) ∧ p.toNat % 4096 = 0 ∧
      H.heapStart.toNat + m.heapOffset.toNat ≤ p.toNat ∧ p.toNat + 4096 ≤ H.heapEnd.toNat ∧
      ∃ o : UInt64, m' = { m with heapOffset := o } ∧ o.toNat ≤ H.heapSize.toNat ∧
        p.toNat + 4096 = H.heapStart.toNat + o.toNat) m := by
  refine Exec.wp_bind (Exec.wp_get (Exec.wp_bind (Exec.wp_modify (Exec.wp_bind
    (Exec.wp_emit fun hev ↦ Exec.wp_pure ?_)))))
  have hsize := H.toNat_heapSize
  have hle := H.start_le_end
  rcases kmalloc_page hstart ho with h | ⟨hmod, hlow, hend, hlt⟩
  · exact absurd h (hassume _ hev)
  · exact ⟨hev, hmod, hlow, by omega, _, rfl, hlt.le, hend⟩

theorem wp_kmallocPage (ho : m.heapOffset.toNat ≤ S.heap.heapSize.toNat) :
    (kmalloc S.heap 4096 4096).wp Event.Allocates (fun p m' ↦ p ≠ 0 ∧ S.Free m p ∧
      ∃ o : UInt64, m' = { m with heapOffset := o } ∧ o.toNat ≤ S.heap.heapSize.toNat ∧
        p.toNat + 4096 = S.heap.heapStart.toNat + o.toNat) m := by
  have hne : ∀ p, (Event.alloc p).Allocates → p ≠ 0 := fun p hp h0 ↦ hp (congrArg Event.alloc h0)
  refine Exec.wp_mono (wp_kmalloc_page S.lt_heapStart ho hne) ?_
  rintro p m' ⟨hev, hmod, hlow, hend, hrest⟩
  exact ⟨hne p hev, ⟨hmod, hlow, hend⟩, hrest⟩

end Sound

/-! ### Tables are made of free pages -/

/-- The space with no more in its region than the pages of the tables and of the free heap. -/
def narrow (S : Space) (m : Machine) : Space :=
  { S with
    region := {n | (∃ t, m.IsTable t ∧ n = (S.pointer t).toNat / 4096) ∨
      ∃ p, S.Free m p ∧ n = p.toNat / 4096} }

/-- The region may be narrowed to what is in use. -/
theorem Sound.narrow (h : S.Sound m) : (S.narrow m).Sound m where
  heapOffset_le := h.heapOffset_le
  root := h.root
  separated := h.separated
  linear := by
    rintro v (⟨t, ht, hv⟩ | ⟨p, hp, hv⟩)
    · exact h.linear v (hv ▸ h.tables t ht)
    · exact h.linear v (hv ▸ h.free_mem p hp)
  free_mem := fun p hp ↦ Or.inr ⟨p, hp, rfl⟩
  tables := fun t ht ↦ Or.inl ⟨t, ht, rfl⟩
  clear := h.clear
  fresh := h.fresh

theorem Sound.narrow_subset (h : S.Sound m) : (S.narrow m).region ⊆ S.region := by
  rintro n (⟨t, ht, rfl⟩ | ⟨p, hp, rfl⟩)
  · exact h.tables t ht
  · exact h.free_mem p hp

theorem frame_pointer {t : ℕ} (ht : t < 2 ^ 40) : S.frame (S.pointer t) = t := by
  rw [frame, toNat_pointer_sub ht]
  omega

/-- Memory that is neither a table nor free does not become a table. -/
theorem Sound.not_isTable (h : (S.narrow m).Sound m') {t : ℕ} (ht : ¬ m.IsTable t)
    (hfree : ∀ p, S.Free m p → S.frame p ≠ t) : ¬ m'.IsTable t := by
  intro hnew
  have hlt := Machine.isTable_lt hnew
  have hmod := toNat_pointer_mod (S := S) hlt
  rcases h.tables t hnew with ⟨t', ht', hpage⟩ | ⟨p, hp, hpage⟩
  · have hmod' := toNat_pointer_mod (S := S) (Machine.isTable_lt ht')
    have hpage' : (S.pointer t).toNat / 4096 = (S.pointer t').toNat / 4096 := hpage
    have hsame : S.pointer t = S.pointer t' := UInt64.toNat_inj.1 (by omega)
    have hframe := congrArg S.frame hsame
    rw [frame_pointer hlt, frame_pointer (Machine.isTable_lt ht')] at hframe
    exact ht (hframe ▸ ht')
  · have hmod' := hp.1
    have hpage' : (S.pointer t).toNat / 4096 = p.toNat / 4096 := hpage
    have hsame : S.pointer t = p := UInt64.toNat_inj.1 (by omega)
    exact hfree p hp (by rw [← hsame, frame_pointer hlt])

end Space

end Aidos.Paging
