import Aidos.Paging.KernelReady
import Aidos.Paging.ParseRsdp

/-!
# The kernel's `main`

`main` of `kernel/kernel.cpp` copies the two structures that the bootloader hands over, switches to
page tables of its own and has the RSDP copied by the constructor of `ACPI`. From the state that the
bootloader leaves it gets to its endless loop with the RSDP in `acpi`, an empty lower half, and page
tables that are ready for the mapping calls (`Started.main_runs`).
-/

namespace Aidos.Paging

open ByteMemory Memory

/-- Read a member of `n` bytes of a packed structure, which need not be aligned. -/
def loadPacked (v : UInt64) : ℕ → Prog ℕ
  | 0 => pure 0
  | n + 1 => do
    let b ← load8 v
    let rest ← loadPacked (v + 1) n
    pure (b.toNat + 256 * rest)

/-- `sizeof(BootInfo)`. -/
def sizeofBootInfo : UInt64 := 2061

/-- `sizeof(BootInfoExtended)`. -/
def sizeofBootInfoExtended : UInt64 := 17

/-- The offset of `BootInfo::rsdp_addr`. -/
def rsdpAddrOffset : UInt64 := 2052

/-- The offset of `BootInfoExtended::PML4Address`. -/
def pml4AddressOffset : UInt64 := 1

/-- The offset of `BootInfoExtended::kernelPhysicalBase`. -/
def kernelPhysicalBaseOffset : UInt64 := 9

/-- The objects that `main` works on. -/
structure Objects where
  /-- `bootInfoStatic`. -/
  bootInfoStatic : UInt64
  /-- `bootInfoExtendedStatic`. -/
  bootInfoExtendedStatic : UInt64
  /-- The variable `acpi`, with its only member `_rsdp`. -/
  acpi : UInt64

namespace Kernel

/-- `main(bootInfo, bootInfoExtended)`, as far as its endless loop. -/
def main (K : Kernel) (O : Objects) (bootInfo bootInfoExtended : UInt64) : Prog Unit := do
  memcpy O.bootInfoStatic bootInfo sizeofBootInfo
  memcpy O.bootInfoExtendedStatic bootInfoExtended sizeofBootInfoExtended
  let kernelPhysicalBase ← loadPacked (O.bootInfoExtendedStatic + kernelPhysicalBaseOffset) 8
  let kernelOffset := kernelBase - UInt64.ofNat kernelPhysicalBase
  let pml4Address ← loadPacked (O.bootInfoExtendedStatic + pml4AddressOffset) 8
  K.setupPaging (UInt64.ofNat pml4Address) kernelOffset
  let rsdpAddr ← loadPacked (O.bootInfoStatic + rsdpAddrOffset) 4
  K.parseRsdp O.acpi (UInt64.ofNat rsdpAddr)

/-- An object of `n` bytes in the image, apart from `pml4` and the heap. -/
structure Object (K : Kernel) (p : UInt64) (n : ℕ) : Prop where
  /-- It is in the image. -/
  mem : kernelBase.toNat ≤ p.toNat ∧ p.toNat + n ≤ K.imageEnd.toNat
  /-- It is not `pml4`. -/
  pml4 : p.toNat + n ≤ K.pml4.toNat ∨ K.pml4.toNat + 4096 ≤ p.toNat
  /-- It is not on the heap. -/
  heap : p.toNat + n ≤ K.heap.heapStart.toNat ∨ K.heap.heapEnd.toNat ≤ p.toNat

/-- The `n` bytes from physical address `q` on are not memory of the image, which is mapped at the
distance `k`. -/
def Outside (K : Kernel) (k : UInt64) (q n : ℕ) : Prop :=
  ∀ p : UInt64, p.toNat / 4096 ∈ K.imagePages → ∀ i < n, (p - k).toNat ≠ q + i

/-- A structure of `n` bytes in identity-mapped memory of the bootloader. -/
structure Lent (K : Kernel) (k : UInt64) (m : Machine) (p : UInt64) (n : ℕ) : Prop where
  /-- It is mapped. -/
  mapped : ∀ i < n, m.translate (p + UInt64.ofNat i) = some (p.toNat + i)
  /-- It is not memory of the image. -/
  outside : K.Outside k p.toNat n

/-- The machine on which `main` is called: the kernel is `Booted`, and the two structures tell
where. The RSDP is at `a`. -/
structure Started (K : Kernel) (O : Objects) (bootInfo bootInfoExtended old k a : UInt64)
    (m : Machine) : Prop where
  /-- The kernel has been loaded. -/
  booted : K.Booted old k m
  /-- `bootInfoStatic`. -/
  bootInfoStatic : K.Object O.bootInfoStatic sizeofBootInfo.toNat
  /-- `bootInfoExtendedStatic`. -/
  bootInfoExtendedStatic : K.Object O.bootInfoExtendedStatic sizeofBootInfoExtended.toNat
  /-- They are two objects. -/
  apart : O.bootInfoStatic.toNat + sizeofBootInfo.toNat ≤ O.bootInfoExtendedStatic.toNat ∨
    O.bootInfoExtendedStatic.toNat + sizeofBootInfoExtended.toNat ≤ O.bootInfoStatic.toNat
  /-- `acpi`. -/
  acpi : K.Object O.acpi sizeofAcpiRsdp.toNat
  /-- The first argument. -/
  info : K.Lent k m bootInfo sizeofBootInfo.toNat
  /-- The second argument. -/
  extended : K.Lent k m bootInfoExtended sizeofBootInfoExtended.toNat
  /-- The member `PML4Address`. -/
  pml4Address : littleEndian m.mem 8 (bootInfoExtended.toNat + pml4AddressOffset.toNat) = old.toNat
  /-- The member `kernelPhysicalBase`. -/
  kernelPhysicalBase :
    littleEndian m.mem 8 (bootInfoExtended.toNat + kernelPhysicalBaseOffset.toNat) =
      (kernelBase - k).toNat
  /-- The member `rsdp_addr`. -/
  rsdpAddr : littleEndian m.mem 4 (bootInfo.toNat + rsdpAddrOffset.toNat) = a.toNat
  /-- The RSDP is within one page, -/
  rsdp_page : a.toNat % 4096 + sizeofAcpiRsdp.toNat ≤ 4096
  /-- and not in memory of the image. -/
  rsdp_outside : K.Outside k a.toNat sizeofAcpiRsdp.toNat

end Kernel

/-! ### Reading members -/

theorem wp_loadPacked {m : Machine} {assume : Event → Prop} {n : ℕ} :
    ∀ {v : UInt64} {p : ℕ} {Q : ℕ → Machine → Prop},
      (∀ i < n, m.translate (v + UInt64.ofNat i) = some (p + i)) → Q (littleEndian m.mem n p) m →
      (loadPacked v n).wp assume Q m := by
  induction n with
  | zero => exact fun _ hQ ↦ Exec.wp_pure hQ
  | succ n ih =>
    intro v p Q hv hQ
    have hfirst := hv 0 (Nat.succ_pos n)
    rw [show v + UInt64.ofNat 0 = v from UInt64.add_zero v, Nat.add_zero] at hfirst
    refine Exec.wp_bind (wp_load8 hfirst (Exec.wp_bind (ih (p := p + 1) (fun i hi ↦ ?_) ?_)))
    · have hnext := hv (i + 1) (Nat.succ_lt_succ hi)
      have hsum : v + 1 + UInt64.ofNat i = v + UInt64.ofNat (i + 1) := by
        rw [UInt64.ofNat_add, UInt64.add_assoc, UInt64.add_comm (UInt64.ofNat i)]
        rfl
      rw [hsum, hnext, Nat.add_assoc, Nat.add_comm 1 i]
    · exact Exec.wp_pure hQ

/-- Reading a member of a structure whose bytes are contiguous in physical memory. -/
theorem wp_loadMember {m : Machine} {p offset : UInt64} {b n size : ℕ}
    (hp : ∀ i < n, m.translate (p + UInt64.ofNat i) = some (b + i))
    (hmember : offset.toNat + size ≤ n) {assume : Event → Prop} :
    (loadPacked (p + offset) size).wp assume
      (fun x m' ↦ m' = m ∧ x = littleEndian m.mem size (b + offset.toNat)) m := by
  refine wp_loadPacked (p := b + offset.toNat) (fun i hi ↦ ?_) ⟨rfl, rfl⟩
  have hbyte := hp (offset.toNat + i) (by omega)
  rw [UInt64.ofNat_add, UInt64.ofNat_toNat, ← UInt64.add_assoc] at hbyte
  rw [hbyte, Nat.add_assoc]

namespace Kernel

variable {K : Kernel} {O : Objects} {bootInfo bootInfoExtended old k a p q : UInt64} {n : ℕ}
  {m m' : Machine}

/-! ### Objects of the image -/

theorem Object.page (h : K.Object p n) {i : ℕ} (hi : i < n) :
    (p + UInt64.ofNat i).toNat = p.toNat + i ∧
      (p + UInt64.ofNat i).toNat / 4096 ∈ K.imagePages := by
  have hend := K.imageEnd.toNat_lt
  obtain ⟨hlow, hhigh⟩ := h.mem
  have hsum : (p + UInt64.ofNat i).toNat = p.toNat + i := by
    rw [UInt64.toNat_add, UInt64.toNat_ofNat']
    omega
  have hbase : kernelBase.toNat = 0xFFFF800000000000 := rfl
  exact ⟨hsum, by omega, by omega⟩

namespace Booted

variable (h : K.Booted old k m)
include h

/-- The bytes of an object are contiguous in physical memory. -/
theorem toNat_object (ho : K.Object p n) {i : ℕ} (hi : i < n) :
    (p + UInt64.ofNat i - k).toNat = (p - k).toNat + i := by
  obtain ⟨hlow, hhigh⟩ := ho.mem
  have hend := K.imageEnd.toNat_lt
  have hbase : kernelBase.toNat = 0xFFFF800000000000 := rfl
  have hzero := (ho.page (Nat.lt_of_le_of_lt (Nat.zero_le i) hi)).2
  rw [show p + UInt64.ofNat 0 = p from UInt64.add_zero p] at hzero
  have hphys := (h.linear p hzero).2
  have hcomm : p + UInt64.ofNat i - k = p - k + UInt64.ofNat i := by
    rw [UInt64.sub_eq_add_neg, UInt64.sub_eq_add_neg, UInt64.add_assoc, UInt64.add_comm _ (-k),
      ← UInt64.add_assoc]
  rw [hcomm, UInt64.toNat_add, UInt64.toNat_ofNat']
  omega

theorem translate_object (ho : K.Object p n) {i : ℕ} (hi : i < n) :
    m.translate (p + UInt64.ofNat i) = some ((p - k).toNat + i) := by
  rw [(h.linear _ (ho.page hi).2).1, h.toNat_object ho hi]

/-- The image keeps its place over writes that are not to the tables. -/
theorem keeps (hk : m.KeepsTables m') (hheap : m'.heapOffset = m.heapOffset) :
    K.Booted old k m' where
  root := h.root.trans (congrArg (4096 * ·) hk.root.symm)
  identity := fun t ht ↦ (hk.translate _).trans (h.identity t (hk.isTable.1 ht))
  clear := by
    intro p t i s ht hs
    rw [hk.tableAt] at ht
    rw [hk.entry t i ⟨p, ht⟩] at hs ⊢
    exact h.clear p t i s ht hs
  offset_aligned := h.offset_aligned
  linear := fun p hp ↦ ⟨(hk.translate p).trans (h.linear p hp).1, (h.linear p hp).2⟩
  small := fun v hv l hl ↦ h.small v hv l ((hk.look v).symm.trans hl)
  apart := fun p hp ht ↦ h.apart p hp (hk.isTable.1 ht)
  heapOffset_le := hheap ▸ h.heapOffset_le

/-- Bytes outside the image do not meet an object. -/
theorem disjoint_of_outside (ho : K.Object p n) (hn : 0 < n) {q n' : ℕ} (hn' : 0 < n')
    (hq : K.Outside k q n') : q + n' ≤ (p - k).toNat ∨ (p - k).toNat + n ≤ q := by
  by_contra hmeet
  rcases Nat.le_total q (p - k).toNat with hle | hle
  · refine hq _ (ho.page hn).2 ((p - k).toNat - q) (by omega) ?_
    rw [h.toNat_object ho hn]
    omega
  · have hi : q - (p - k).toNat < n := by omega
    refine hq _ (ho.page hi).2 0 hn' ?_
    rw [h.toNat_object ho hi]
    omega

/-- An object is in no frame of `pml4` or of the heap. -/
theorem object_apart (ho : K.Object p n) {i : ℕ} (hi : i < n) {x : UInt64} {t : ℕ}
    (hx : (x - k).toNat = 4096 * t)
    (hown : x = K.pml4 ∨ K.heap.heapStart.toNat ≤ x.toNat ∧
      x.toNat + 4096 ≤ K.heap.heapEnd.toNat) : ((p - k).toNat + i) / 4096 ≠ t := by
  intro heq
  have hoff := h.offset_aligned
  have hal := K.pml4_aligned
  have hlt := k.toNat_lt
  have hltx := x.toNat_lt
  obtain ⟨hsum, -⟩ := ho.page hi
  have hphys := h.toNat_object ho hi
  have hlow := ho.pml4
  have hheap := ho.heap
  rw [UInt64.toNat_sub, hsum] at hphys
  rw [UInt64.toNat_sub] at hx
  have hlt' := (p + UInt64.ofNat i).toNat_lt
  -- both addresses are in the same page
  have hpage : p.toNat + i = x.toNat + ((p - k).toNat + i) % 4096 := by omega
  rcases hown with rfl | hown <;> omega

end Booted

/-! ### Copying to an object -/

/-- The machine after copying `n` bytes from physical address `q` to `b`. -/
def copyBytes (m : Machine) (b q n : ℕ) : Machine :=
  { m with mem := fillRun m.mem b (fun i ↦ m.mem (q + i)) n }

theorem copyBytes_mem {b q n i : ℕ} (hi : i < n) :
    (copyBytes m b q n).mem (b + i) = m.mem (q + i) := by
  show fillRun m.mem b (fun i ↦ m.mem (q + i)) n (b + i) = m.mem (q + i)
  exact fillRun_of_mem hi

theorem copyBytes_mem_of_ne {b q n r : ℕ} (hr : r < b ∨ b + n ≤ r) :
    (copyBytes m b q n).mem r = m.mem r := by
  show fillRun m.mem b (fun i ↦ m.mem (q + i)) n r = m.mem r
  exact fillRun_of_not_mem hr

theorem keepsTables_copyBytes {b q n : ℕ} (h : ∀ i < n, ¬ m.IsTable ((b + i) / 4096)) :
    m.KeepsTables (copyBytes m b q n) :=
  Machine.keepsTables_fillRun _ h

namespace Booted

variable (h : K.Booted old k m)
include h

theorem not_isTable_object (ho : K.Object p n) {i : ℕ} (hi : i < n) :
    ¬ m.IsTable (((p - k).toNat + i) / 4096) := by
  rw [← h.toNat_object ho hi]
  exact h.apart _ (ho.page hi).2

/-- Copying a structure of the bootloader. -/
theorem wp_copyLent {num : UInt64} (ho : K.Object p num.toNat) (hl : K.Lent k m q num.toNat)
    (hn : 0 < num.toNat) {assume : Event → Prop} :
    (memcpy p q num).wp assume
      (fun _ m' ↦ m' = copyBytes m (p - k).toNat q.toNat num.toNat ∧ K.Booted old k m') m := by
  refine wp_memcpy (fun _ hi ↦ h.translate_object ho hi) hl.mapped
    (fun _ hi ↦ h.not_isTable_object ho hi) (h.disjoint_of_outside ho hn hn hl.outside) ⟨rfl, ?_⟩
  exact h.keeps (keepsTables_copyBytes fun _ hi ↦ h.not_isTable_object ho hi) rfl

/-- The memory of objects that are apart is apart. -/
theorem objects_apart {p' : UInt64} {n' : ℕ} (ho : K.Object p n) (hn : 0 < n)
    (ho' : K.Object p' n') (hn' : 0 < n') (hapart : p.toNat + n ≤ p'.toNat) :
    (p - k).toNat + n ≤ (p' - k).toNat := by
  have hbase : kernelBase.toNat = 0xFFFF800000000000 := rfl
  have hlow := ho.mem.1
  have hlow' := ho'.mem.1
  obtain ⟨hsum, himage⟩ := ho.page hn
  obtain ⟨hsum', himage'⟩ := ho'.page hn'
  rw [show p + UInt64.ofNat 0 = p from UInt64.add_zero p] at himage
  rw [show p' + UInt64.ofNat 0 = p' from UInt64.add_zero p'] at himage'
  have hphys := (h.linear p himage).2
  have hphys' := (h.linear p' himage').2
  have hlt := k.toNat_lt
  have hltp := p'.toNat_lt
  rw [UInt64.toNat_sub] at hphys hphys' ⊢
  rw [UInt64.toNat_sub]
  omega

end Booted

/-! ### Copying the RSDP -/

/-- A call of `map_4k` or `unmap_4k` for one page covers the addresses of that page. -/
theorem pageDistance_lt_one_iff {v w : UInt64} : pageDistance v w < 1 ↔ pageOf v = pageOf w := by
  rw [Nat.lt_one_iff, ← pageOf_rangePage_zero v, pageOf_rangePage_eq_iff (by decide)]
  exact eq_comm

/-- A call for one page, as an update. -/
theorem assign_of_one {c : Call} (hc : c.count = 1) (w : UInt64) :
    c.assign w = if pageOf c.virt = pageOf w then some (c.target w) else none := by
  rw [Call.assign]
  refine if_congr ?_ rfl rfl
  rw [Call.Covers, hc]
  exact pageDistance_lt_one_iff

/-- A page of the lower half is not one of the upper half. -/
theorem pageOf_ne_of_upper (ha : a.toNat < 2 ^ 47) {w : UInt64} (hw : Upper w) :
    pageOf a ≠ pageOf w := by
  rw [Upper] at hw
  rw [pageOf, pageOf]
  omega

/-- Bytes outside the image are in no page of it. -/
theorem Outside.page_ne {b : ℕ} (hb : K.Outside k b n) (hk : k.toNat % 4096 = 0) {i : ℕ}
    (hi : i < n) {x : UInt64} (hx : x.toNat / 4096 ∈ K.imagePages) {t : ℕ}
    (hxt : (x - k).toNat = 4096 * t) : t ≠ (b + i) / 4096 := by
  rintro rfl
  have hlt := x.toNat_lt
  have hltk := k.toNat_lt
  have hmod : x.toNat % 4096 = 0 := by
    rw [UInt64.toNat_sub] at hxt
    omega
  have hsum : (x + UInt64.ofNat ((b + i) % 4096)).toNat = x.toNat + (b + i) % 4096 := by
    rw [UInt64.toNat_add, UInt64.toNat_ofNat']
    omega
  refine hb (x + UInt64.ofNat ((b + i) % 4096)) ?_ i hi ?_
  · rwa [hsum, show (x.toNat + (b + i) % 4096) / 4096 = x.toNat / 4096 from by omega]
  · rw [UInt64.toNat_sub, hsum]
    rw [UInt64.toNat_sub] at hxt
    omega

section Parse

variable {m₀ : Machine} {s : ℕ} (h₀ : K.Booted old k m₀)
  (h : K.SetUp k (fun e ↦ e.toNat < 2 ^ 52) m₀ s m)
include h₀ h

/-- What the mapping calls rely on after `setup_paging`, and no more. -/
def tight : Space := (h.ready h₀).space.narrow m

theorem working_tight : Working K (tight h₀ h) m :=
  ⟨(h.ready h₀).sound.narrow, rfl, (h.ready h₀).small⟩

theorem tight_region : (tight h₀ h).region ⊆ K.imagePages :=
  fun _ hn ↦ ((h.ready h₀).sound.narrow_subset hn).1

/-- An object never becomes a table. -/
theorem not_isTable_of_working (ho : K.Object p n) {i : ℕ} (hi : i < n)
    (hw : Working K (tight h₀ h) m') : ¬ m'.IsTable (((p - k).toNat + i) / 4096) := by
  refine hw.sound.not_isTable (fun ht ↦ ?_) fun x hx hframe ↦ ?_
  · obtain ⟨x, hx, -, hown⟩ := h.exists_page h₀.placed ht
    have hsize := K.heap.toNat_heapSize
    have hend := K.heap.start_le_end
    have hle := h.heapOffset_le
    exact h₀.object_apart ho hi hx (hown.imp_right fun hheap ↦ ⟨hheap.2, by omega⟩) rfl
  · have hsub : (x - k).toNat = 4096 * ((h.ready h₀).space.frame x) := by
      have haligned := Space.toNat_sub_offset (S := (h.ready h₀).space) hx.1
      rwa [show (h.ready h₀).space.offset = k from h.kernelOffset] at haligned
    refine h₀.object_apart ho hi hsub (Or.inr ⟨?_, hx.2.2⟩) hframe.symm
    exact (Nat.le_add_right _ _).trans hx.2.1

/-- Memory outside the image never becomes a table. -/
theorem outside_of_working {b : ℕ} (hb : K.Outside k b n) {i : ℕ} (hi : i < n)
    (hw : Working K (tight h₀ h) m') : ¬ m'.IsTable ((b + i) / 4096) := by
  intro ht
  have hsub := Space.toNat_pointer_sub (S := tight h₀ h) (Machine.isTable_lt ht)
  rw [show (tight h₀ h).offset = k from h.kernelOffset] at hsub
  exact hb.page_ne h₀.offset_aligned hi (tight_region h₀ h (hw.sound.tables _ ht)) hsub rfl

/-- **The RSDP is copied**: if it is within one page and not in memory of the image, its bytes are
in the object afterwards, and the tables translate as before. -/
theorem wp_parseRsdp (ho : K.Object p sizeofAcpiRsdp.toNat) (ha : a.toNat < 2 ^ 47)
    (hpage : a.toNat % 4096 + sizeofAcpiRsdp.toNat ≤ 4096)
    (hout : K.Outside k a.toNat sizeofAcpiRsdp.toNat) :
    (K.parseRsdp p a).wp Event.Allocates (fun _ m' ↦ K.Ready m' ∧ m'.kernelOffset = k ∧
      (∀ v, m'.walk v = m.walk v) ∧
      ∀ i < sizeofAcpiRsdp.toNat, m'.mem ((p - k).toNat + i) = m.mem (a.toNat + i)) m := by
  have haway : ∀ c : Call, c.virt = a → c.count = 1 → c.Away K := by
    rintro c rfl hc w hw hcovers
    rw [Call.Covers, hc] at hcovers
    exact pageOf_ne_of_upper ha (upper_of_imagePages hw) (pageDistance_lt_one_iff.1 hcovers)
  have hsize : sizeofAcpiRsdp.toNat = 40 := rfl
  refine Exec.wp_bind_of (wp_perform_map rfl rfl (tight_region h₀ h) (working_tight h₀ h)
    (haway (.map a a 1) rfl rfl) (show a.toNat + 1 * 4096 ≤ 2 ^ 48 from by omega)) ?_
  rintro _ m₁ ⟨⟨hw₁, hwalk₁⟩, hchanged₁⟩
  have hkept₁ : ∀ w, pageOf a ≠ pageOf w → m₁.walk w = m.walk w := by
    intro w hw
    rw [hwalk₁ w, assign_of_one rfl]
    exact congrArg (Option.getD · (m.walk w)) (if_neg hw)
  have hsource : ∀ i < sizeofAcpiRsdp.toNat,
      m₁.translate (a + UInt64.ofNat i) = some (a.toNat + i) := by
    intro i hi
    have hsum := PageMapped.toNat_add ha (i := i) (by omega)
    have hcovered : pageOf a = pageOf (a + UInt64.ofNat i) := by
      rw [pageOf, pageOf, hsum]
      omega
    have hcanonical : Canonical (a + UInt64.ofNat i) := Or.inl (by omega)
    have htarget : (Call.map a a 1).target (a + UInt64.ofNat i) = some (a.toNat + i) := by
      rw [Call.target, Nat.lt_one_iff.1 (pageDistance_lt_one_iff.2 hcovered), hsum]
      refine congrArg some ?_
      omega
    rw [Machine.translate, if_pos hcanonical, hwalk₁, assign_of_one rfl]
    exact (congrArg (Option.getD · _) (if_pos hcovered)).trans htarget
  have hdest : ∀ i < sizeofAcpiRsdp.toNat,
      m₁.translate (p + UInt64.ofNat i) = some ((p - k).toNat + i) := by
    intro i hi
    have hupper := upper_of_imagePages (ho.page hi).2
    rw [← h₀.translate_object ho hi, ← h.translate h₀.handedOver hupper, Machine.translate,
      Machine.translate, hkept₁ _ (pageOf_ne_of_upper ha hupper)]
  refine Exec.wp_bind (wp_memcpy hdest hsource
    (fun i hi ↦ not_isTable_of_working h₀ h ho hi hw₁)
    (h₀.disjoint_of_outside ho (by decide) (by decide) hout) ?_)
  have hk : m₁.KeepsTables (copyBytes m₁ (p - k).toNat a.toNat sizeofAcpiRsdp.toNat) :=
    keepsTables_copyBytes fun i hi ↦ not_isTable_of_working h₀ h ho hi hw₁
  have hw₂ : Working K (tight h₀ h) (copyBytes m₁ (p - k).toNat a.toNat sizeofAcpiRsdp.toNat) :=
    ⟨hw₁.sound.keeps hk rfl, hw₁.offset, fun v l hl ↦ hw₁.small v l ((hk.look v).symm.trans hl)⟩
  refine Exec.wp_mono (wp_perform_unmap rfl (tight_region h₀ h) hw₂ (haway (.unmap a 1) rfl rfl)) ?_
  rintro _ m₃ ⟨⟨hw₃, hwalk₃⟩, hchanged₃⟩
  refine ⟨hw₃.ready rfl rfl (tight_region h₀ h), hw₃.offset.trans h.kernelOffset, fun v ↦ ?_,
    fun i hi ↦ ?_⟩
  · rw [hwalk₃ v, assign_of_one rfl]
    rcases eq_or_ne (pageOf a) (pageOf v) with hv | hv
    · have hlow : ¬ Upper v := fun hupper ↦ pageOf_ne_of_upper ha hupper hv
      have hnone : m.walk v = none := by
        rw [Machine.walk_eq, ((h.upperCopy h₀.handedOver).lower v hlow).2]
        rfl
      rw [hnone]
      exact congrArg (Option.getD · _) (if_pos hv)
    · rw [← hkept₁ v hv, Machine.walk_eq, Machine.walk_eq, hk.look]
      exact congrArg (Option.getD · _) (if_neg hv)
  · have hsame : m₃.mem ((p - k).toNat + i) =
        (copyBytes m₁ (p - k).toNat a.toNat sizeofAcpiRsdp.toNat).mem ((p - k).toNat + i) := by
      by_contra hne
      obtain ⟨path, -, hpath⟩ := hchanged₃ _ hne
      exact not_isTable_of_working h₀ h ho hi hw₃ ⟨path, hpath⟩
    rw [hsame, copyBytes_mem hi]
    by_contra hne
    obtain ⟨path, -, hpath⟩ := hchanged₁ _ hne
    exact outside_of_working h₀ h hout hi hw₁ ⟨path, hpath⟩

end Parse

/-! ### The whole function -/

/-- `setup_paging` writes to no object, and to nothing outside the image. -/
theorem SetUp.mem_eq {m₀ : Machine} {s : ℕ} (h₀ : K.Booted old k m₀)
    (h : K.SetUp k (fun e ↦ e.toNat < 2 ^ 52) m₀ s m) {r : ℕ}
    (hr : ∀ x t, (x - k).toNat = 4096 * t → x.toNat / 4096 ∈ K.imagePages →
      (x = K.pml4 ∨ K.heap.heapStart.toNat ≤ x.toNat ∧ x.toNat + 4096 ≤ K.heap.heapEnd.toNat) →
      r / 4096 ≠ t) : m.mem r = m₀.mem r := by
  by_contra hne
  rcases h.changed r hne with heq | ⟨x, hx, hlow, -, hend⟩
  · have hpml4 := Option.some.inj ((h₀.linear _ pml4_page).1.symm.trans h.page.translate)
    exact hr _ s hpml4 pml4_page (Or.inl rfl) heq
  · have himage := mem_imagePages_of_heap (by omega) hend
    have hx' := Option.some.inj ((h₀.linear _ himage).1.symm.trans hx.translate)
    exact hr x _ hx' himage (Or.inr ⟨by omega, hend⟩) rfl

theorem Lent.congr (hl : K.Lent k m p n) (hk : m.KeepsTables m') : K.Lent k m' p n :=
  ⟨fun i hi ↦ (hk.translate _).trans (hl.mapped i hi), hl.outside⟩

/-- The machine `m'` after the two structures have been copied. -/
structure Taken (K : Kernel) (O : Objects) (bootInfo bootInfoExtended k : UInt64)
    (m m' : Machine) : Prop where
  /-- The tables are kept. -/
  keeps : m.KeepsTables m'
  /-- The first structure. -/
  info : ∀ i < sizeofBootInfo.toNat,
    m'.mem ((O.bootInfoStatic - k).toNat + i) = m.mem (bootInfo.toNat + i)
  /-- The second one. -/
  extended : ∀ i < sizeofBootInfoExtended.toNat,
    m'.mem ((O.bootInfoExtendedStatic - k).toNat + i) = m.mem (bootInfoExtended.toNat + i)
  /-- Nothing else is written. -/
  rest : ∀ {b n : ℕ}, 0 < n → K.Outside k b n → ∀ i < n, m'.mem (b + i) = m.mem (b + i)

namespace Started

variable (h : K.Started O bootInfo bootInfoExtended old k a m)
include h

/-- Taking the two structures over. -/
theorem wp_take {rest : Prog Unit} {assume : Event → Prop} {Q : Unit → Machine → Prop}
    (hrest : ∀ m', K.Booted old k m' → K.Taken O bootInfo bootInfoExtended k m m' →
      rest.wp assume Q m') :
    (do
      memcpy O.bootInfoStatic bootInfo sizeofBootInfo
      memcpy O.bootInfoExtendedStatic bootInfoExtended sizeofBootInfoExtended
      rest).wp assume Q m := by
  refine Exec.wp_bind_of (h.booted.wp_copyLent h.bootInfoStatic h.info (by decide)) ?_
  rintro _ _ ⟨rfl, hb₁⟩
  have hk₁ := keepsTables_copyBytes (q := bootInfo.toNat) fun i hi ↦
    h.booted.not_isTable_object h.bootInfoStatic hi
  refine Exec.wp_bind_of (hb₁.wp_copyLent h.bootInfoExtendedStatic (h.extended.congr hk₁)
    (by decide)) ?_
  rintro _ _ ⟨rfl, hb₂⟩
  have hk₂ := keepsTables_copyBytes (q := bootInfoExtended.toNat) fun i hi ↦
    hb₁.not_isTable_object h.bootInfoExtendedStatic hi
  refine hrest _ hb₂ ⟨⟨hk₂.root.trans hk₁.root, fun r hr ↦ ?_⟩, fun i hi ↦ ?_, fun i hi ↦ ?_,
    fun hn hb i hi ↦ ?_⟩
  · exact (hk₂.mem r (hk₁.isTable.2 hr)).trans (hk₁.mem r hr)
  · have hapart : (O.bootInfoStatic - k).toNat + i < (O.bootInfoExtendedStatic - k).toNat ∨
        (O.bootInfoExtendedStatic - k).toNat + sizeofBootInfoExtended.toNat ≤
          (O.bootInfoStatic - k).toNat + i := by
      rcases h.apart with hlow | hhigh
      · have hobjects := h.booted.objects_apart h.bootInfoStatic (by decide)
          h.bootInfoExtendedStatic (by decide) hlow
        omega
      · have hobjects := h.booted.objects_apart h.bootInfoExtendedStatic (by decide)
          h.bootInfoStatic (by decide) hhigh
        omega
    rw [copyBytes_mem_of_ne hapart, copyBytes_mem hi]
  · have houtside := h.booted.disjoint_of_outside h.bootInfoStatic (by decide) (by decide)
      h.extended.outside
    rw [copyBytes_mem hi, copyBytes_mem_of_ne (by omega)]
  · have hinfo := h.booted.disjoint_of_outside h.bootInfoStatic (by decide) hn hb
    have hextended := h.booted.disjoint_of_outside h.bootInfoExtendedStatic (by decide) hn hb
    rw [copyBytes_mem_of_ne (by omega), copyBytes_mem_of_ne (by omega)]

/-- **The kernel starts.** From the state that the bootloader leaves, if no allocation fails, `main`
gets to its endless loop. Then the bytes of the RSDP are in `acpi`, the upper half of the address
space is as the bootloader mapped it, nothing else is mapped, and the page tables are ready for the
mapping calls of the kernel. -/
theorem main_runs : (K.main O bootInfo bootInfoExtended).wp Event.Allocates (fun _ m' ↦
    K.Ready m' ∧ m'.kernelOffset = k ∧ (∀ v, m'.walk v = if Upper v then m.walk v else none) ∧
      ∀ i < sizeofAcpiRsdp.toNat, ∃ q, m'.translate (O.acpi + UInt64.ofNat i) = some q ∧
        m'.mem q = m.mem (a.toNat + i)) m := by
  refine h.wp_take fun m₂ hb₂ ht ↦ ?_
  have hmember : ∀ {offset : UInt64} {size : ℕ},
      offset.toNat + size ≤ sizeofBootInfoExtended.toNat →
      littleEndian m₂.mem size ((O.bootInfoExtendedStatic - k).toNat + offset.toNat) =
        littleEndian m.mem size (bootInfoExtended.toNat + offset.toNat) := by
    intro offset size hsize
    refine littleEndian_congr fun i hi ↦ ?_
    rw [Nat.add_assoc, Nat.add_assoc]
    exact ht.extended _ (by omega)
  have hextended := fun i hi ↦ hb₂.translate_object h.bootInfoExtendedStatic (i := i) hi
  refine Exec.wp_bind_of (wp_loadMember hextended (by decide)) ?_
  rintro x _ ⟨rfl, rfl⟩
  refine Exec.wp_bind_of (wp_loadMember hextended (by decide)) ?_
  rintro x _ ⟨rfl, rfl⟩
  rw [hmember (by decide), hmember (by decide), h.kernelPhysicalBase, h.pml4Address,
    UInt64.ofNat_toNat, UInt64.ofNat_toNat]
  have hoffset : kernelBase - (kernelBase - k) = k := by
    have hlt := k.toNat_lt
    have hltb := kernelBase.toNat_lt
    refine UInt64.toNat_inj.1 ?_
    rw [UInt64.toNat_sub, UInt64.toNat_sub]
    omega
  rw [hoffset]
  refine Exec.wp_bind_of (hb₂.handedOver.wp_setupPaging_of_trusts
    (fun e ↦ e.toNat < 2 ^ 52) hb₂.trusts (fun _ _ _ _ _ ht hs hx ↦ hb₂.placed.good ht hs hx) k) ?_
  rintro _ m₃ ⟨s, hs⟩
  have hobject : ∀ {p : UInt64} {n : ℕ}, K.Object p n → ∀ i < n,
      m₃.translate (p + UInt64.ofNat i) = some ((p - k).toNat + i) := fun ho i hi ↦
    (hs.translate hb₂.handedOver (upper_of_imagePages (ho.page hi).2)).trans
      (hb₂.translate_object ho hi)
  refine Exec.wp_bind_of (wp_loadMember (hobject h.bootInfoStatic) (by decide)) ?_
  rintro x m₃ ⟨rfl, rfl⟩
  have hrsdp : littleEndian m₃.mem 4 ((O.bootInfoStatic - k).toNat + rsdpAddrOffset.toNat) =
      a.toNat := by
    rw [← h.rsdpAddr]
    refine littleEndian_congr fun i hi ↦ ?_
    have hin : rsdpAddrOffset.toNat + i < sizeofBootInfo.toNat :=
      Nat.lt_of_lt_of_le (Nat.add_lt_add_left hi _) (by decide)
    rw [Nat.add_assoc, Nat.add_assoc, ← ht.info _ hin]
    exact hs.mem_eq hb₂ fun y t hy _ hown ↦ hb₂.object_apart h.bootInfoStatic hin hy hown
  rw [hrsdp, UInt64.ofNat_toNat]
  have ha : a.toNat < 2 ^ 32 := by
    rw [← h.rsdpAddr]
    exact littleEndian_lt _ 4 _
  refine Exec.wp_mono (wp_parseRsdp hb₂ hs h.acpi (Nat.lt_trans ha (by decide)) h.rsdp_page
    h.rsdp_outside) ?_
  rintro _ m₄ ⟨hready, hk, hwalk, hmem⟩
  refine ⟨hready, hk, fun v ↦ ?_, fun i hi ↦ ⟨_, ?_, (hmem i hi).trans ?_⟩⟩
  · have hcopy := hs.upperCopy hb₂.handedOver
    rw [hwalk v, Machine.walk_eq]
    split
    · next hv => rw [hcopy.look v hv, ht.keeps.look, Machine.walk_eq]
    · next hv =>
      rw [(hcopy.lower v hv).2]
      rfl
  · rw [Machine.translate, hwalk]
    exact hobject h.acpi i hi
  · rw [← ht.rest (by decide) h.rsdp_outside i hi]
    exact hs.mem_eq hb₂ fun y t hy himage _ ↦
      (h.rsdp_outside.page_ne hb₂.offset_aligned hi himage hy).symm

end Started

/-! ### The kernel of eighteen pages starts -/

/-- Its objects, in the second page of the image. -/
def roomyObjects : Objects := ⟨0xFFFF800000001000, 0xFFFF800000001810, 0xFFFF800000001900⟩

theorem started_bootedMachine :
    roomy.Started roomyObjects 0x2000 0x3000 0x10000 0xFFFF7FFFFFF00000 0xF5A20 bootedMachine := by
  have houtside : ∀ {b n : ℕ}, b + n ≤ 0x100000 → roomy.Outside 0xFFFF7FFFFFF00000 b n := by
    intro b n hb p hp i hi
    obtain ⟨-, hphys, -⟩ := translate_bootedMachine hp
    omega
  have hlow : ∀ {p : UInt64} {n : ℕ}, p.toNat + n < 2 ^ 20 → ∀ i < n,
      bootedMachine.translate (p + UInt64.ofNat i) = some (p.toNat + i) := by
    intro p n hn i hi
    have hall : ∀ t < 256, (UInt64.ofNat (4096 * t)).toNat = 4096 * t ∧
        bootedMachine.translate (UInt64.ofNat (4096 * t)) = some (4096 * t) := by
      decide +kernel
    have hsum : (p + UInt64.ofNat i).toNat = p.toNat + i := by
      rw [UInt64.toNat_add, UInt64.toNat_ofNat']
      omega
    obtain ⟨hnum, htranslate⟩ := hall ((p.toNat + i) / 4096) (by omega)
    rw [(Machine.translate_page (by omega) htranslate).2, hsum]
    refine congrArg some ?_
    omega
  exact
    { booted := booted_bootedMachine
      bootInfoStatic := ⟨by decide, by decide, by decide⟩
      bootInfoExtendedStatic := ⟨by decide, by decide, by decide⟩
      apart := by decide
      acpi := ⟨by decide, by decide, by decide⟩
      info := ⟨hlow (by decide), houtside (by decide)⟩
      extended := ⟨hlow (by decide), houtside (by decide)⟩
      pml4Address := by decide +kernel
      kernelPhysicalBase := by decide +kernel
      rsdpAddr := by decide +kernel
      rsdp_page := by decide
      rsdp_outside := houtside (by decide) }

theorem main_runs_booted :
    (roomy.main roomyObjects 0x2000 0x3000).wp Event.Allocates (fun _ m' ↦
      roomy.Ready m' ∧ m'.kernelOffset = 0xFFFF7FFFFFF00000 ∧
        (∀ v, m'.walk v = if Upper v then bootedMachine.walk v else none) ∧
        ∀ i < sizeofAcpiRsdp.toNat, ∃ q,
          m'.translate (0xFFFF800000001900 + UInt64.ofNat i) = some q ∧
            m'.mem q = bootedMachine.mem (0xF5A20 + i)) bootedMachine :=
  started_bootedMachine.main_runs

end Kernel

end Aidos.Paging
