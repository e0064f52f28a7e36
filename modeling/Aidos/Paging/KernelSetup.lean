import Aidos.Library.TreeCopy
import Aidos.Paging.KernelTables

/-!
# The kernel's own page tables

`virt_to_phys` and `setup_paging` of `kernel/memory.cpp`. The kernel starts on the tables of the
bootloader. It copies the upper half of that tree, table by table, into memory of its own heap, and
switches to the copy. The three nested loops of `setup_paging` are one loop (`copyTables`), nested
in itself as often as there are levels of tables below.
-/

namespace Aidos.Paging

open ByteMemory Memory

/-- `ADDR_MASK`. -/
def addrMask : UInt64 := 0x0000FFFFFFFFF000

/-- `FLAGS_MASK`. -/
def flagsMask : UInt64 := ((1 : UInt64) <<< 63) ||| 0xFFF

/-- `PAGE_1G`. -/
def page1g : UInt64 := 0x40000000

/-- `PAGE_2M`. -/
def page2m : UInt64 := 0x200000

/-- `virt_to_phys(vaddr, oldPML4)`. Its comments name the entries after the next level. -/
def virtToPhys (vaddr oldPml4 : UInt64) : Prog UInt64 := do
  let pageOff := vaddr &&& 0xFFF
  let pdpte ← load64 (oldPml4 + 8 * pml4Index vaddr)
  if !present pdpte then pure 0
  else if large pdpte then pure ((pdpte &&& addrMask) + (vaddr &&& (page1g - 1)))
  else do
    let pdpt := pdpte &&& addrMask
    let pde ← load64 (pdpt + 8 * pdptIndex vaddr)
    if !present pde then pure 0
    else if large pde then pure ((pde &&& addrMask) + (vaddr &&& (page2m - 1)))
    else do
      let pd := pde &&& addrMask
      let pte ← load64 (pd + 8 * pdIndex vaddr)
      if !present pte then pure 0
      else do
        let pt := pte &&& addrMask
        let pe ← load64 (pt + 8 * ptIndex vaddr)
        if !present pe then pure 0
        else pure ((pe &&& addrMask) + pageOff)

/-- A call of `virt_to_phys`, with its answer recorded. -/
def resolve (vaddr oldPml4 : UInt64) : Prog UInt64 := do
  let phys ← virtToPhys vaddr oldPml4
  Exec.emit (Event.resolved vaddr phys)
  pure phys

namespace Kernel

variable (K : Kernel)

/-- The loop of `setup_paging` over the entries of the table at `table`, from number `first` on,
with the loops nested in it: there are `levels` levels of tables below. -/
def copyTables (oldPml4 : UInt64) : ℕ → UInt64 → ℕ → Prog Unit
  | 0, _, _ => pure ()
  | levels + 1, table, first =>
    Exec.forUpTo (512 - first) fun i ↦ do
      let index := UInt64.ofNat (first + i)
      let entry ← load64 (table + 8 * index)
      let address := entry &&& addrMask
      let entry ← load64 (table + 8 * index)
      let flags := entry &&& flagsMask
      if present flags && !large flags then do
        let newTable ← kmalloc K.heap 4096 4096
        memcpy newTable address 4096
        let phys ← resolve newTable oldPml4
        store64 (table + 8 * index) (phys ||| flags)
        copyTables oldPml4 levels newTable 0
      else pure ()

/-- `setup_paging(PML4Address, kernelOffset)`. -/
def setupPaging (pml4Address kernelOffset : UInt64) : Prog Unit := do
  Exec.modify fun m ↦ { m with kernelOffset := kernelOffset }
  memcpy K.pml4 pml4Address 4096
  Exec.forUpTo 256 fun i ↦ store64 (K.pml4 + 8 * UInt64.ofNat i) 0
  K.copyTables pml4Address 3 K.pml4 256
  let phys ← resolve K.pml4 pml4Address
  loadCr3 phys

end Kernel

/-- `virt_to_phys` only reads. -/
theorem emits_virtToPhys {P : Event → Prop} (hread : ∀ v, P (Event.read v))
    {vaddr oldPml4 : UInt64} : (virtToPhys vaddr oldPml4).Emits P := by
  refine Exec.emits_bind (emits_load64 (hread _)) fun pdpte ↦ ?_
  split
  · exact Exec.emits_pure _
  split
  · exact Exec.emits_pure _
  refine Exec.emits_bind (emits_load64 (hread _)) fun pde ↦ ?_
  split
  · exact Exec.emits_pure _
  split
  · exact Exec.emits_pure _
  refine Exec.emits_bind (emits_load64 (hread _)) fun pte ↦ ?_
  split
  · exact Exec.emits_pure _
  refine Exec.emits_bind (emits_load64 (hread _)) fun pe ↦ ?_
  split <;> exact Exec.emits_pure _

/-! ### Addresses and flags of entries -/

/-- The address in an entry whose frame is below `2 ^ 48`. -/
theorem toNat_and_addrMask {e : UInt64} (he : frameOf e < 2 ^ 36) :
    (e &&& addrMask).toNat = 4096 * frameOf e := by
  have hmask : addrMask.toNat = 2 ^ 12 * (2 ^ 36 - 1) := rfl
  have hframe : frameOf e = e.toNat / 2 ^ 12 % 2 ^ 36 := by
    rw [frameOf] at he ⊢
    omega
  rw [UInt64.toNat_and, hmask, hframe]
  refine Nat.eq_of_testBit_eq fun i ↦ ?_
  rw [Nat.testBit_and, Nat.testBit_two_pow_mul, Nat.testBit_two_pow_sub_one,
    show (4096 : ℕ) = 2 ^ 12 from rfl, Nat.testBit_two_pow_mul, Nat.testBit_mod_two_pow,
    Nat.testBit_div_two_pow]
  rcases Nat.lt_or_ge i 12 with hi | hi
  · simp [Nat.not_le.2 hi]
  · rw [Nat.sub_add_cancel hi]
    simp only [ge_iff_le, hi, decide_true, Bool.true_and]
    exact Bool.and_comm _ _

/-- The flags of an entry say whether it is present and whether it maps a large page. -/
theorem present_and_flagsMask (e : UInt64) : present (e &&& flagsMask) = present e := by
  rw [present, present, UInt64.and_assoc, show flagsMask &&& pagePresent = pagePresent from rfl]

theorem large_and_flagsMask (e : UInt64) : large (e &&& flagsMask) = large e := by
  rw [large, large, UInt64.and_assoc, show flagsMask &&& pagePse = pagePse from rfl]

/-- The bits of `FLAGS_MASK`. -/
theorem testBit_flagsMask {i : ℕ} :
    flagsMask.toNat.testBit i = (decide (i < 12) || decide (i = 63)) := by
  rcases Nat.lt_or_ge i 64 with hi | hi
  · have hall : ∀ i : Fin 64,
        flagsMask.toNat.testBit i = (decide ((i : ℕ) < 12) || decide ((i : ℕ) = 63)) := by
      decide
    exact hall ⟨i, hi⟩
  · have hzero : flagsMask.toNat.testBit i = false :=
      Nat.testBit_lt_two_pow
        (Nat.lt_of_lt_of_le flagsMask.toNat_lt (Nat.pow_le_pow_right (by omega) hi))
    have hfar : ¬ i < 12 ∧ i ≠ 63 := by omega
    simp [hzero, hfar]

/-- What the processor sees of an aligned physical address with the flags of another entry. -/
theorem withFlags_fields {x : UInt64} (e : UInt64) (hx : x.toNat % 4096 = 0)
    (hlt : x.toNat < 2 ^ 52) :
    (x ||| (e &&& flagsMask)) &&& flagsMask = e &&& flagsMask ∧
      present (x ||| (e &&& flagsMask)) = present e ∧ large (x ||| (e &&& flagsMask)) = large e ∧
      frameOf (x ||| (e &&& flagsMask)) = x.toNat / 4096 := by
  have hbit : ∀ i, i < 12 ∨ 52 ≤ i → x.toNat.testBit i = false := by
    rintro i (hi | hi)
    · have hmul : x.toNat = 2 ^ 12 * (x.toNat / 4096) := by omega
      rw [hmul, Nat.testBit_two_pow_mul]
      simp [Nat.not_le.2 hi]
    · exact Nat.testBit_lt_two_pow (Nat.lt_of_lt_of_le hlt (Nat.pow_le_pow_right (by decide) hi))
  have hzero : x &&& flagsMask = 0 := by
    refine UInt64.toNat_inj.1 (Nat.eq_of_testBit_eq fun i ↦ ?_)
    rw [UInt64.toNat_and, Nat.testBit_and, testBit_flagsMask, UInt64.toNat_zero, Nat.zero_testBit]
    by_cases hi : i < 12 ∨ 52 ≤ i
    · simp [hbit i hi]
    · have hfar : ¬ i < 12 ∧ i ≠ 63 := by omega
      simp [hfar]
  have hflags : (x ||| (e &&& flagsMask)) &&& flagsMask = e &&& flagsMask := by
    have hdistrib : (x ||| (e &&& flagsMask)) &&& flagsMask =
        (x &&& flagsMask) ||| ((e &&& flagsMask) &&& flagsMask) :=
      UInt64.toBitVec_inj.1 BitVec.and_or_distrib_right
    rw [hdistrib, hzero, UInt64.zero_or, UInt64.and_assoc, UInt64.and_self]
  refine ⟨hflags, ?_, ?_, ?_⟩
  · rw [← present_and_flagsMask, hflags, present_and_flagsMask]
  · rw [← large_and_flagsMask, hflags, large_and_flagsMask]
  · rw [frameOf]
    refine Nat.eq_of_testBit_eq fun i ↦ ?_
    have hpow : 4096 = 2 ^ 12 := rfl
    rw [UInt64.toNat_or, UInt64.toNat_and, hpow, Nat.testBit_mod_two_pow, Nat.testBit_div_two_pow,
      Nat.testBit_div_two_pow, Nat.testBit_or, Nat.testBit_and, testBit_flagsMask]
    by_cases hi : i < 40
    · have hfar : ¬ i + 12 < 12 ∧ i + 12 ≠ 63 := by omega
      simp [hi, hfar]
    · rw [hbit (i + 12) (Or.inr (by omega))]
      simp [hi]

/-! ### Whole pages -/

/-- The page at the pointer `p` is mapped to the frame `s`. -/
structure Machine.Page (m : Machine) (p : UInt64) (s : ℕ) : Prop where
  /-- The pointer is page-aligned. -/
  aligned : p.toNat % 4096 = 0
  /-- It is mapped to the start of the frame. -/
  translate : m.translate p = some (4096 * s)

namespace Machine.Page

variable {m m' : Machine} {p x : UInt64} {s : ℕ} {assume : Event → Prop}

theorem congr (hk : m.KeepsTables m') (h : m.Page p s) : m'.Page p s :=
  ⟨h.aligned, (hk.translate p).trans h.translate⟩

/-- A mapped page has a frame. -/
theorem of_translate {q : ℕ} (hp : p.toNat % 4096 = 0) (h : m.translate p = some q) :
    m.Page p (q / 4096) := by
  have hmod := (Machine.translate_page rfl h).1
  have hmul : q = 4096 * (q / 4096) := by omega
  exact ⟨hp, h.trans (congrArg some hmul)⟩

theorem frame_lt (h : m.Page p s) : 4096 * s < 2 ^ 52 := by
  obtain ⟨l, -, hl⟩ := Option.bind_eq_some_iff.1
    ((Machine.translate_eq (Machine.canonical_of_translate h.translate)).symm.trans h.translate)
  exact physical_lt hl

theorem toNat_add (h : m.Page p s) (hx : x.toNat < 4096) : (p + x).toNat = p.toNat + x.toNat := by
  have hlt := p.toNat_lt
  have hal := h.aligned
  rw [UInt64.toNat_add]
  omega

theorem translate_add (h : m.Page p s) (hx : x.toNat < 4096) :
    m.translate (p + x) = some (4096 * s + x.toNat) := by
  have hal := h.aligned
  have hsum := h.toNat_add hx
  have hpage : p.toNat / 4096 = (p + x).toNat / 4096 := by omega
  rw [(Machine.translate_page hpage h.translate).2]
  refine congrArg some ?_
  omega

theorem entry (h : m.Page p s) {i : UInt64} {idx : Index} (hi : i.toNat = idx) :
    (p + 8 * i).toNat % 8 = 0 ∧ m.translate (p + 8 * i) = some (4096 * s + 8 * idx) := by
  have hidx := idx.isLt
  have hoff := Space.toNat_entryOffset hi
  have hal := h.aligned
  have hsum := h.toNat_add (x := 8 * i) (by omega)
  refine ⟨by omega, ?_⟩
  rw [h.translate_add (by omega), hoff]

theorem run_loadEntry (h : m.Page p s) {i : UInt64} {idx : Index} (hi : i.toNat = idx) :
    (load64 (p + 8 * i)).run m = ⟨some (entryAt m.mem s idx), m, [Event.read (p + 8 * i)]⟩ := by
  rw [load64, if_pos (h.entry hi).1, Exec.run_bind_of_some (run_access (h.entry hi).2)]
  rfl

theorem wp_loadEntry (h : m.Page p s) {i : UInt64} {idx : Index} (hi : i.toNat = idx)
    {Q : UInt64 → Machine → Prop} (hQ : Q (entryAt m.mem s idx) m) :
    (load64 (p + 8 * i)).wp assume Q m :=
  wp_load64 (h.entry hi).1 (h.entry hi).2 hQ

theorem wp_storeEntry (h : m.Page p s) {i y : UInt64} {idx : Index} (hi : i.toNat = idx)
    {Q : Unit → Machine → Prop} (hQ : Q () (m.setEntry s idx y)) :
    (store64 (p + 8 * i) y).wp assume Q m :=
  wp_store64 (h.entry hi).1 (h.entry hi).2 hQ

/-- Copying one page to another. -/
theorem wp_memcpy {p' : UInt64} {s' : ℕ} (h : m.Page p s) (h' : m.Page p' s') (hne : s ≠ s')
    (hfree : ¬ m.IsTable s) {Q : Unit → Machine → Prop}
    (hQ : Q () { m with mem := fillRun m.mem (4096 * s) (fun i ↦ m.mem (4096 * s' + i)) 4096 }) :
    (memcpy p p' 4096).wp assume Q m := by
  have hbyte : ∀ {r : UInt64} {f : ℕ}, m.Page r f → ∀ i < 4096,
      m.translate (r + UInt64.ofNat i) = some (4096 * f + i) := by
    intro r f hr i hi
    have hofNat : (UInt64.ofNat i).toNat = i :=
      UInt64.toNat_ofNat_of_lt' (Nat.lt_trans hi (by decide))
    have htr := hr.translate_add (x := UInt64.ofNat i) (by omega)
    rw [hofNat] at htr
    exact htr
  refine Paging.wp_memcpy (hbyte h) (hbyte h') (fun i hi ht ↦ hfree ?_) ?_ hQ
  · have hi' : i < 4096 := hi
    have hdiv : (4096 * s + i) / 4096 = s := by omega
    rw [hdiv] at ht
    exact ht
  · show 4096 * s' + 4096 ≤ 4096 * s ∨ 4096 * s + 4096 ≤ 4096 * s'
    omega

end Machine.Page

/-! ### The hand-over -/

/-- `virt_to_phys` returns on `p`, which is mapped. -/
def Machine.Answers (m : Machine) (oldPml4 p : UInt64) : Prop :=
  (∃ q, m.translate p = some q) ∧ ∃ x m' es, (virtToPhys p oldPml4).run m = ⟨some x, m', es⟩

/-- No allocation fails, and `virt_to_phys` returns the true physical address of what it is asked
for. The old tables stay in use throughout, so `m`, the machine at the start, tells what is true. -/
def Truthful (m : Machine) (oldPml4 : UInt64) : Event → Prop
  | .alloc p => p ≠ 0 ∧ m.Answers oldPml4 p
  | .resolved v x => m.translate v = some x.toNat
  | _ => True

namespace Kernel

/-- The machine as the bootloader hands it over, with the old PML4 at the pointer `oldPml4`. -/
structure HandedOver (K : Kernel) (oldPml4 : UInt64) (m : Machine) : Prop where
  /-- The old PML4 is in use. -/
  root : oldPml4.toNat = 4096 * m.root
  /-- The old tables are identity-mapped. -/
  identity : ∀ t, m.IsTable t → m.translate (UInt64.ofNat (4096 * t)) = some (4096 * t)
  /-- Memory of the kernel image is not memory of the old tables. -/
  apart : ∀ p q, p.toNat / 4096 ∈ K.imagePages → m.translate p = some q → ¬ m.IsTable (q / 4096)
  /-- Different addresses of the kernel image are different memory. -/
  own : ∀ p p' q, p.toNat / 4096 ∈ K.imagePages → p'.toNat / 4096 ∈ K.imagePages →
    m.translate p = some q → m.translate p' = some q → p = p'
  /-- The allocator is within its heap. -/
  heapOffset_le : m.heapOffset.toNat ≤ K.heap.heapSize.toNat
  /-- `virt_to_phys` returns on the new PML4, which is mapped. -/
  pml4 : m.Answers oldPml4 K.pml4

variable {K : Kernel} {old : UInt64} {m m₀ : Machine}

/-- A table that is identity-mapped is accessed at its physical address. -/
theorem page_of_identity {t : ℕ} (ht : m.IsTable t)
    (hid : m.translate (UInt64.ofNat (4096 * t)) = some (4096 * t)) :
    m.Page (UInt64.ofNat (4096 * t)) t ∧ t < 2 ^ 35 := by
  have hlt := Machine.isTable_lt ht
  have hnum : (UInt64.ofNat (4096 * t)).toNat = 4096 * t :=
    UInt64.toNat_ofNat'.trans (Nat.mod_eq_of_lt (by omega))
  have hcan := Machine.canonical_of_translate hid
  rw [Canonical, hnum] at hcan
  exact ⟨⟨by omega, hid⟩, by omega⟩

/-- An old table is accessed at its physical address. -/
theorem HandedOver.page (h : K.HandedOver old m) {t : ℕ} (ht : m.IsTable t) :
    m.Page (UInt64.ofNat (4096 * t)) t ∧ t < 2 ^ 35 :=
  page_of_identity ht (h.identity t ht)

theorem HandedOver.page_root (h : K.HandedOver old m) : m.Page old m.root := by
  have hpage := (h.page (t := m.root) ⟨[], rfl⟩).1
  rw [← h.root, UInt64.ofNat_toNat] at hpage
  exact hpage

/-- The next table, at the address in an entry. -/
theorem HandedOver.page_child (h : K.HandedOver old m) {p : List Index} {t s : ℕ} {i : Index}
    (ht : m.tableAt p = some t) (hs : x86.child p.length (entryAt m.mem t i) = some s) :
    m.tableAt (p ++ [i]) = some s ∧ m.Page (entryAt m.mem t i &&& addrMask) s := by
  have hnext := TreeFormat.reached_of_child ht hs
  obtain ⟨hpage, hlt⟩ := h.page ⟨_, hnext⟩
  obtain ⟨-, -, -, rfl⟩ := child_eq_some hs
  have haddr := toNat_and_addrMask (e := entryAt m.mem t i) (by omega)
  rw [← haddr, UInt64.ofNat_toNat] at hpage
  exact ⟨hnext, hpage⟩

/-- Reading an entry of an old table, later in the run. -/
theorem wp_loadOld (hk : m₀.KeepsTables m) {p : UInt64} {t : ℕ}
    (ht : m₀.IsTable t) (hp : m₀.Page p t) {i : UInt64} {idx : Index} (hi : i.toNat = idx)
    {assume : Event → Prop} {Q : UInt64 → Machine → Prop} (hQ : Q (entryAt m₀.mem t idx) m) :
    (load64 (p + 8 * i)).wp assume Q m := by
  refine (hp.congr hk).wp_loadEntry hi ?_
  rw [hk.entry t idx ht]
  exact hQ

/-- A program that returns has not faulted at its first load. -/
theorem translate_of_load64 {v : UInt64} {α : Type} {f : UInt64 → Prog α} {a : α}
    (h : ((load64 v >>= f).run m).value = some a) :
    v.toNat % 8 = 0 ∧ ∃ q, m.translate v = some q := by
  by_cases hal : v.toNat % 8 = 0
  · refine ⟨hal, ?_⟩
    cases htr : m.translate v with
    | some q => exact ⟨q, rfl⟩
    | none =>
      have hload : (load64 v).run m = ⟨none, m, [Event.read v]⟩ := by
        rw [load64, if_pos hal]
        refine Exec.run_bind_of_none ?_
        rw [access, Exec.run_bind_of_some (Exec.run_emit _ m),
          Exec.run_bind_of_some (Exec.run_get m), htr]
        rfl
      rw [Exec.run_bind_of_none hload] at h
      exact absurd h (by simp)
  · have hload : (load64 v).run m = ⟨none, m, []⟩ := by
      rw [load64, if_neg hal]
      rfl
    rw [Exec.run_bind_of_none hload] at h
    exact absurd h (by simp)

/-- As long as the old tables are kept, `virt_to_phys` still returns where it did, and changes
nothing. Only the last of the words it reads may be outside the old tables. -/
theorem HandedOver.wp_virtToPhys (h : K.HandedOver old m₀) (hk : m₀.KeepsTables m) {p : UInt64}
    (ha : m₀.Answers old p) {assume : Event → Prop} :
    (virtToPhys p old).wp assume (fun _ m' ↦ m' = m) m := by
  obtain ⟨-, x, m', es, hrun⟩ := ha
  have hroot : m₀.tableAt [] = some m₀.root := rfl
  have hpage := h.page_root
  rw [virtToPhys] at hrun
  refine Exec.wp_bind (wp_loadOld hk ⟨[], rfl⟩ hpage (toNat_pml4Index p) ?_)
  rw [Exec.run_bind_of_some (hpage.run_loadEntry (toNat_pml4Index p))] at hrun
  generalize he₁ : entryAt m₀.mem m₀.root (index 39 p) = e₁ at hrun ⊢
  cases hp₁ : present e₁
  · exact Exec.wp_pure rfl
  cases hl₁ : large e₁
  swap
  · exact Exec.wp_pure rfl
  have hc₁ := child_of_pointer (d := 0) hp₁ hl₁ (by decide)
  rw [← he₁] at hc₁ 
  obtain ⟨ht₁, hpage₁⟩ := h.page_child hroot hc₁
  rw [he₁] at ht₁ hpage₁
  refine Exec.wp_bind (wp_loadOld hk ⟨_, ht₁⟩ hpage₁ (toNat_pdptIndex p) ?_)
  simp only [hp₁, hl₁, Bool.not_true, Bool.false_eq_true, if_false] at hrun
  rw [Exec.run_bind_of_some (hpage₁.run_loadEntry (toNat_pdptIndex p))] at hrun
  generalize he₂ : entryAt m₀.mem (frameOf e₁) (index 30 p) = e₂ at hrun ⊢
  cases hp₂ : present e₂
  · exact Exec.wp_pure rfl
  cases hl₂ : large e₂
  swap
  · exact Exec.wp_pure rfl
  have hc₂ := child_of_pointer (d := 1) hp₂ hl₂ (by decide)
  rw [← he₂] at hc₂
  obtain ⟨ht₂, hpage₂⟩ := h.page_child ht₁ hc₂
  rw [he₂] at ht₂ hpage₂
  refine Exec.wp_bind (wp_loadOld hk ⟨_, ht₂⟩ hpage₂ (toNat_pdIndex p) ?_)
  simp only [hp₂, hl₂, Bool.not_true, Bool.false_eq_true, if_false] at hrun
  rw [Exec.run_bind_of_some (hpage₂.run_loadEntry (toNat_pdIndex p))] at hrun
  generalize he₃ : entryAt m₀.mem (frameOf e₂) (index 21 p) = e₃ at hrun ⊢
  cases hp₃ : present e₃
  · exact Exec.wp_pure rfl
  simp only [hp₃, Bool.not_true, Bool.false_eq_true, if_false] at hrun
  -- the last word read may be outside the tables, but its address is fixed by them
  obtain ⟨hal, q, hq⟩ := translate_of_load64 (congrArg Outcome.value hrun)
  refine Exec.wp_bind (wp_load64 hal ((hk.translate _).trans hq) ?_)
  cases present (read64 m.mem q)
  · exact Exec.wp_pure rfl
  · exact Exec.wp_pure rfl

/-- A call that tells the truth. -/
theorem HandedOver.wp_resolve (h : K.HandedOver old m₀) (hk : m₀.KeepsTables m) {p : UInt64}
    (ha : m₀.Answers old p) :
    (resolve p old).wp (Truthful m₀ old) (fun x m' ↦ m' = m ∧ m₀.translate p = some x.toNat) m := by
  refine Exec.wp_bind_of (h.wp_virtToPhys hk ha) ?_
  rintro x _ rfl
  exact Exec.wp_bind (Exec.wp_emit fun htrue ↦ Exec.wp_pure ⟨rfl, htrue⟩)

end Kernel

end Aidos.Paging
