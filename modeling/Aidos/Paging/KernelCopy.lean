import Aidos.Library.SpreadTree
import Aidos.Paging.KernelSetup

/-!
# The copy loops of the kernel

`copyTables` on one table: every entry from a given number on becomes a copy of the entry of the old
table, with its subtree, in pages allocated during the loop. `CopiedUpTo` describes the machine
after some turns; turns are put together by `CopiedUpTo.append`, and one turn copies one table and
recurses into it (`wp_copyEntry`).
-/

namespace Aidos.Paging

open ByteMemory Memory

/-- Two entries have the same flags: bits 0 to 11 and bit 63. -/
def SameFlags (e e' : UInt64) : Prop := e' &&& flagsMask = e &&& flagsMask

namespace Kernel

/-- The frames of the heap pages between two values of `heap_offset`. -/
def heapFrames (K : Kernel) (m : Machine) (lo hi : UInt64) : Set ℕ :=
  {s | ∃ p, m.Page p s ∧ K.heap.heapStart.toNat + lo.toNat ≤ p.toNat ∧
    p.toNat + 4096 ≤ K.heap.heapStart.toNat + hi.toNat ∧ p.toNat + 4096 ≤ K.heap.heapEnd.toNat}

/-- During `setup_paging`, which started on the machine `m₀`. -/
structure Copying (K : Kernel) (k : UInt64) (m₀ m : Machine) : Prop where
  /-- The old tables are in use and unchanged. -/
  keeps : m₀.KeepsTables m
  /-- The allocator is within its heap. -/
  heapOffset_le : m.heapOffset.toNat ≤ K.heap.heapSize.toNat
  /-- `KERNEL_OFFSET` has been set. -/
  kernelOffset : m.kernelOffset = k

/-- From `m` to `m'`, the entries `first`, …, `first + turns - 1` of the table in frame `s` have
become copies, `n` levels down, of the entries of the old table in frame `t`, which has depth `d`.
-/
structure CopiedUpTo (K : Kernel) (k : UInt64) (m₀ : Machine) (d n t s first turns : ℕ)
    (m m' : Machine) :
    Prop where
  /-- The run may go on. -/
  copying : K.Copying k m₀ m'
  /-- Memory is only taken from the heap. -/
  le : m.heapOffset.toNat ≤ m'.heapOffset.toNat
  /-- Only the table and pages allocated meanwhile are written. -/
  changed : ∀ q, m'.mem q ≠ m.mem q →
    q / 4096 = s ∨ q / 4096 ∈ K.heapFrames m₀ m.heapOffset m'.heapOffset
  /-- The other entries of the table are kept. -/
  rest : ∀ i : Index, (i : ℕ) < first ∨ first + turns ≤ i → entryAt m'.mem s i = entryAt m.mem s i
  /-- The copies. -/
  copied : ∀ i : Index, first ≤ i → (i : ℕ) < first + turns →
    x86.Copied SameFlags (entryAt m₀.mem) (entryAt m'.mem)
      (K.heapFrames m₀ m.heapOffset m'.heapOffset) n d
      (entryAt m₀.mem t i) (entryAt m'.mem s i)

variable {K : Kernel} {k old : UInt64} {m₀ m m₁ m' : Machine} {d n t s first turns : ℕ}

/-- A frame that is not written keeps its entries. -/
theorem entryAt_of_not_changed {A : Set ℕ} {f : ℕ} (h : ∀ q, m'.mem q ≠ m.mem q → q / 4096 ∈ A)
    (hf : f ∉ A) (i : Index) : entryAt m'.mem f i = entryAt m.mem f i := by
  refine entryAt_congr (fun q hq ↦ ?_) i
  by_contra hne
  exact hf (hq ▸ h q hne)

/-! ### The pages of the heap -/

theorem mem_imagePages_of_heap {p : UInt64} (hlow : K.heap.heapStart.toNat ≤ p.toNat)
    (hend : p.toNat + 4096 ≤ K.heap.heapEnd.toNat) : p.toNat / 4096 ∈ K.imagePages := by
  have hbase := K.heap_mem.1
  have hfin := K.heap_mem.2
  exact ⟨by omega, by omega⟩

theorem heapFrames_mono {lo lo' hi hi' : UInt64} (hlo : lo.toNat ≤ lo'.toNat)
    (hhi : hi'.toNat ≤ hi.toNat) :
    K.heapFrames m₀ lo' hi' ⊆ K.heapFrames m₀ lo hi := by
  rintro f ⟨p, hp, hlow, hend, hheap⟩
  exact ⟨p, hp, by omega, by omega, hheap⟩

/-- Pages allocated at different times are different memory. -/
theorem HandedOver.heapFrames_disjoint (h : K.HandedOver old m₀) {lo hi lo' hi' : UInt64} {f : ℕ}
    (hf : f ∈ K.heapFrames m₀ lo hi) (hf' : f ∈ K.heapFrames m₀ lo' hi') :
    lo'.toNat < hi.toNat := by
  obtain ⟨p, hp, hlow, hend, hheap⟩ := hf
  obtain ⟨p', hp', hlow', hend', hheap'⟩ := hf'
  have hsame := h.own p p' _ (mem_imagePages_of_heap (by omega) hheap)
    (mem_imagePages_of_heap (by omega) hheap') hp.translate hp'.translate
  rw [hsame] at hend
  omega

/-- Memory of the heap is not memory of the old tables. -/
theorem HandedOver.not_isTable (h : K.HandedOver old m₀) {lo hi : UInt64} {f : ℕ}
    (hf : f ∈ K.heapFrames m₀ lo hi) : ¬ m₀.IsTable f := by
  obtain ⟨p, hp, hlow, -, hheap⟩ := hf
  have hnot := h.apart p _ (mem_imagePages_of_heap (by omega) hheap) hp.translate
  rwa [Nat.mul_div_cancel_left f (by decide)] at hnot

/-! ### Putting turns together -/

theorem CopiedUpTo.refl (h : K.Copying k m₀ m) (d n t s first : ℕ) :
    K.CopiedUpTo k m₀ d n t s first 0 m m where
  copying := h
  le := Nat.le_refl _
  changed := fun _ hq ↦ absurd rfl hq
  rest := fun _ _ ↦ rfl
  copied := fun _ hlow hhigh ↦ absurd hhigh (Nat.not_lt.2 hlow)

theorem CopiedUpTo.append (h₀ : K.HandedOver old m₀) {turns' : ℕ}
    (hs : s ∉ K.heapFrames m₀ m.heapOffset K.heap.heapSize)
    (h : K.CopiedUpTo k m₀ d n t s first turns m m₁)
    (h' : K.CopiedUpTo k m₀ d n t s (first + turns) turns' m₁ m') :
    K.CopiedUpTo k m₀ d n t s first (turns + turns') m m' where
  copying := h'.copying
  le := h.le.trans h'.le
  changed := by
    intro q hq
    by_cases hq' : m'.mem q = m₁.mem q
    · rw [hq'] at hq
      exact (h.changed q hq).imp_right fun hin ↦ heapFrames_mono (Nat.le_refl _) h'.le hin
    · exact (h'.changed q hq').imp_right fun hin ↦ heapFrames_mono h.le (Nat.le_refl _) hin
  rest := by
    intro i hi
    rw [h'.rest i (by omega), h.rest i (by omega)]
  copied := by
    intro i hlow hhigh
    have hsub : K.heapFrames m₀ m.heapOffset m₁.heapOffset ⊆
        K.heapFrames m₀ m.heapOffset m'.heapOffset :=
      heapFrames_mono (Nat.le_refl _) h'.le
    rcases Nat.lt_or_ge i (first + turns) with hold | hnew
    · rw [h'.rest i (Or.inl hold)]
      refine TreeFormat.Copied.congr (h.copied i hlow hold) hsub fun f hf j ↦ ?_
      refine entryAt_of_not_changed (A :=
        {f | f = s ∨ f ∈ K.heapFrames m₀ m₁.heapOffset m'.heapOffset})
        h'.changed (fun hin ↦ ?_) j
      rcases hin with rfl | hin
      · exact hs (heapFrames_mono (Nat.le_refl _) h.copying.heapOffset_le hf)
      · exact absurd (h₀.heapFrames_disjoint hf hin) (Nat.lt_irrefl _)
    · exact (h'.copied i hnew (by omega)).congr (heapFrames_mono h.le (Nat.le_refl _)) fun _ _ _ ↦
        rfl

/-! ### One turn -/

/-- An entry that points to no table is its own copy. -/
theorem CopiedUpTo.skip (h : K.Copying k m₀ m) {idx : Index}
    (hsame : entryAt m.mem s idx = entryAt m₀.mem t idx)
    (hnone : x86.child d (entryAt m₀.mem t idx) = none) :
    K.CopiedUpTo k m₀ d (n + 1) t s idx 1 m m where
  copying := h
  le := Nat.le_refl _
  changed := fun _ hq ↦ absurd rfl hq
  rest := fun _ _ ↦ rfl
  copied := by
    intro i hlow hhigh
    obtain rfl : i = idx := Fin.ext (by omega)
    exact Or.inl ⟨hnone, hsame⟩

/-- The machine after copying the old table `t` into the page in frame `s`. -/
def withCopy (m : Machine) (o : UInt64) (s t : ℕ) : Machine :=
  { m with
    heapOffset := o
    mem := fillRun m.mem (4096 * s) (fun i ↦ m.mem (4096 * t + i)) 4096 }

theorem withCopy_mem_of_ne {o : UInt64} {q : ℕ} (hq : q / 4096 ≠ s) :
    (withCopy m o s t).mem q = m.mem q := by
  show fillRun m.mem (4096 * s) (fun i ↦ m.mem (4096 * t + i)) 4096 q = m.mem q
  exact fillRun_of_not_mem (by omega)

theorem Copying.withCopy (h : K.Copying k m₀ m) (hs : ¬ m₀.IsTable s) {o : UInt64}
    (ho : o.toNat ≤ K.heap.heapSize.toNat) : K.Copying k m₀ (withCopy m o s t) where
  keeps := by
    refine ⟨h.keeps.root, fun q hq ↦ ?_⟩
    have hne : q / 4096 ≠ s := fun heq ↦ hs (heq ▸ hq)
    rw [withCopy_mem_of_ne hne, h.keeps.mem q hq]
  heapOffset_le := ho
  kernelOffset := h.kernelOffset

theorem Copying.setEntry (h : K.Copying k m₀ m) (hs : ¬ m₀.IsTable s) (i : Index) (x : UInt64) :
    K.Copying k m₀ (m.setEntry s i x) where
  keeps := by
    refine ⟨h.keeps.root, fun q hq ↦ ?_⟩
    have hne : q / 4096 ≠ s := fun heq ↦ hs (heq ▸ hq)
    rw [Machine.setEntry_mem_of_ne hne, h.keeps.mem q hq]
  heapOffset_le := h.heapOffset_le
  kernelOffset := h.kernelOffset

/-- A fresh copy `s'` of the old table `t'`, with its entry in the table `s`: once the subtrees are
copied into it, the entry is. -/
theorem CopiedUpTo.enter {s' t' : ℕ} {o y : UInt64} {idx : Index} (hne : s ≠ s')
    (hfresh : s ∉ K.heapFrames m₀ m.heapOffset K.heap.heapSize)
    (hoff : m.heapOffset.toNat ≤ o.toNat)
    (hmem : ∀ hi : UInt64, o.toNat ≤ hi.toNat → s' ∈ K.heapFrames m₀ m.heapOffset hi)
    (hchild : x86.child d (entryAt m₀.mem t idx) = some t') (hcopy : x86.child d y = some s')
    (hflags : SameFlags (entryAt m₀.mem t idx) y)
    (h : K.CopiedUpTo k m₀ (d + 1) n t' s' 0 512 ((withCopy m o s' t').setEntry s idx y) m') :
    K.CopiedUpTo k m₀ d (n + 1) t s idx 1 m m' := by
  have hle : o.toNat ≤ m'.heapOffset.toNat := h.le
  have hmono : K.heapFrames m₀ o m'.heapOffset ⊆ K.heapFrames m₀ m.heapOffset m'.heapOffset :=
    heapFrames_mono hoff (Nat.le_refl _)
  -- the subtrees leave the table alone
  have htable (i : Index) : entryAt m'.mem s i =
      entryAt ((withCopy m o s' t').setEntry s idx y).mem s i := by
    refine entryAt_of_not_changed (A := {f | f = s' ∨ f ∈ K.heapFrames m₀ o m'.heapOffset})
      h.changed (fun hin ↦ ?_) i
    rcases hin with heq | hin
    · exact hne heq
    · exact hfresh (heapFrames_mono hoff h.copying.heapOffset_le hin)
  refine ⟨h.copying, hoff.trans hle, fun q hq ↦ ?_, fun i hi ↦ ?_, fun i hlow hhigh ↦ ?_⟩
  · by_cases hqs : q / 4096 = s
    · exact Or.inl hqs
    by_cases hqs' : q / 4096 = s'
    · exact Or.inr (hqs' ▸ hmem _ hle)
    have hsame : ((withCopy m o s' t').setEntry s idx y).mem q = m.mem q :=
      (Machine.setEntry_mem_of_ne hqs).trans (withCopy_mem_of_ne hqs')
    rw [← hsame] at hq
    rcases h.changed q hq with heq | hin
    · exact absurd heq hqs'
    · exact Or.inr (hmono hin)
  · have hidx : i ≠ idx := fun heq ↦ by
      rw [heq] at hi
      omega
    rw [htable i]
    refine (entryAt_write64_of_ne _ y fun heq ↦ hidx (congrArg Prod.snd heq)).trans ?_
    exact entryAt_fillRun_of_ne hne i
  · obtain rfl : i = idx := Fin.ext (by omega)
    have hself : entryAt m'.mem s i = y := (htable i).trans (entryAt_write64_self _ s i y)
    rw [hself]
    refine Or.inr ⟨t', s', hchild, hcopy, hmem _ hle, hflags, fun j ↦ ?_⟩
    exact (h.copied j (Nat.zero_le _) (by omega)).congr hmono fun _ _ _ ↦ rfl

/-- Copying a table leaves the other pages alone that had been allocated before. -/
theorem CopiedUpTo.kept (h₀ : K.HandedOver old m₀) (h : K.CopiedUpTo k m₀ d n t s first turns m m')
    {lo : UInt64} (hs : s ∉ K.heapFrames m₀ lo K.heap.heapSize) {f : ℕ}
    (hf : f ∈ K.heapFrames m₀ lo m.heapOffset) (i : Index) :
    entryAt m'.mem f i = entryAt m.mem f i := by
  refine entryAt_of_not_changed (A := {f | f = s ∨ f ∈ K.heapFrames m₀ m.heapOffset m'.heapOffset})
    h.changed (fun hin ↦ ?_) i
  rcases hin with rfl | hin
  · exact hs (heapFrames_mono (Nat.le_refl _) (h.le.trans h.copying.heapOffset_le) hf)
  · exact absurd (h₀.heapFrames_disjoint hf hin) (Nat.lt_irrefl _)

/-- It leaves alone what is not on the heap. -/
theorem CopiedUpTo.entry_of_ne (h : K.CopiedUpTo k m₀ d n t s first turns m m') {f : ℕ}
    (hne : f ≠ s) (hf : f ∉ K.heapFrames m₀ m.heapOffset K.heap.heapSize) (i : Index) :
    entryAt m'.mem f i = entryAt m.mem f i := by
  refine entryAt_of_not_changed (A := {f | f = s ∨ f ∈ K.heapFrames m₀ m.heapOffset m'.heapOffset})
    h.changed (fun hin ↦ ?_) i
  exact hin.elim hne fun hin ↦ hf (heapFrames_mono (Nat.le_refl _) h.copying.heapOffset_le hin)

/-- The turns made the entries copies, and the copies are spread over pages allocated meanwhile. -/
structure SpreadUpTo (K : Kernel) (k : UInt64) (Good : UInt64 → Prop) (m₀ : Machine)
    (d n t s first turns : ℕ) (m m' : Machine) : Prop where
  /-- They are copies. -/
  copied : K.CopiedUpTo k m₀ d n t s first turns m m'
  /-- The tables of the copies. -/
  parts : x86.Parts Good (entryAt m'.mem) d (K.heapFrames m₀ m.heapOffset m'.heapOffset) s
    {i : Index | first ≤ (i : ℕ) ∧ (i : ℕ) < first + turns}

variable {Good : UInt64 → Prop}

theorem SpreadUpTo.append (h₀ : K.HandedOver old m₀) {turns' : ℕ}
    (hs : s ∉ K.heapFrames m₀ m.heapOffset K.heap.heapSize)
    (h : K.SpreadUpTo k Good m₀ d n t s first turns m m₁)
    (h' : K.SpreadUpTo k Good m₀ d n t s (first + turns) turns' m₁ m') :
    K.SpreadUpTo k Good m₀ d n t s first (turns + turns') m m' where
  copied := h.copied.append h₀ hs h'.copied
  parts := by
    have hunion := h.parts.union h'.parts
      (fun f hf hf' ↦ absurd (h₀.heapFrames_disjoint hf hf') (Nat.lt_irrefl _))
      (fun f hf ↦ h'.copied.kept h₀ hs hf) (fun i hi ↦ h'.copied.rest i (Or.inl hi.2))
      (heapFrames_mono (Nat.le_refl _) h'.copied.le) (heapFrames_mono h.copied.le (Nat.le_refl _))
    refine hunion.mono fun i hi ↦ ?_
    rcases Nat.lt_or_ge i (first + turns) with hold | hnew
    · exact Or.inl ⟨hi.1, hold⟩
    · exact Or.inr ⟨hnew, by have hend := hi.2; omega⟩

theorem SpreadUpTo.skip (h : K.Copying k m₀ m) {idx : Index}
    (hsame : entryAt m.mem s idx = entryAt m₀.mem t idx)
    (hnone : x86.child d (entryAt m₀.mem t idx) = none) :
    K.SpreadUpTo k Good m₀ d (n + 1) t s idx 1 m m where
  copied := .skip h hsame hnone
  parts := by
    refine .of_none fun i hi ↦ ?_
    obtain rfl : i = idx := Fin.ext (Nat.le_antisymm (Nat.le_of_lt_succ hi.2) hi.1)
    rw [hsame]
    exact hnone

/-- The page for the copy of the old table `t'`: it is `newTable`, in frame `s'`, `virt_to_phys`
returned `x` for it, and it leaves `heap_offset` at `o`. The entry `e` pointed to the old table, and
the entry of the copy stands in the table `s`. -/
structure Entered (K : Kernel) (m₀ m : Machine) (d s : ℕ) (e newTable o x : UInt64) (s' : ℕ) :
    Prop where
  /-- The page. -/
  page : m₀.Page newTable s'
  /-- It is in the heap. -/
  mem : ∀ hi : UInt64, o.toNat ≤ hi.toNat → s' ∈ K.heapFrames m₀ m.heapOffset hi
  /-- It is not free any more. -/
  fresh : s' ∉ K.heapFrames m₀ o K.heap.heapSize
  /-- It is a page of its own. -/
  ne : s ≠ s'
  /-- The allocator went on. -/
  le : m.heapOffset.toNat ≤ o.toNat
  /-- The answer is a physical address. -/
  address : x.toNat < 2 ^ 52
  /-- The new entry points to the page. -/
  child : x86.child d (x ||| (e &&& flagsMask)) = some s'
  /-- It has the old flags. -/
  flags : SameFlags e (x ||| (e &&& flagsMask))

theorem SpreadUpTo.enter {s' t' : ℕ} {newTable o x : UInt64} {idx : Index}
    (hfresh : s ∉ K.heapFrames m₀ m.heapOffset K.heap.heapSize)
    (he : K.Entered m₀ m d s (entryAt m₀.mem t idx) newTable o x s')
    (hchild : x86.child d (entryAt m₀.mem t idx) = some t')
    (hgood : Good (x ||| (entryAt m₀.mem t idx &&& flagsMask)))
    (h : K.SpreadUpTo k Good m₀ (d + 1) n t' s' 0 512
      ((withCopy m o s' t').setEntry s idx (x ||| (entryAt m₀.mem t idx &&& flagsMask))) m') :
    K.SpreadUpTo k Good m₀ d (n + 1) t s idx 1 m m' where
  copied := .enter he.ne hfresh he.le he.mem hchild he.child he.flags h.copied
  parts := by
    have hself : entryAt m'.mem s idx = x ||| (entryAt m₀.mem t idx &&& flagsMask) :=
      (h.copied.entry_of_ne he.ne
        (fun hin ↦ hfresh (heapFrames_mono he.le (Nat.le_refl _) hin)) idx).trans
        (entryAt_write64_self _ s idx _)
    have hspread : x86.Spread Good (entryAt m'.mem) (d + 1)
        (K.heapFrames m₀ m.heapOffset m'.heapOffset) s' :=
      (h.parts.mono fun i _ ↦ ⟨Nat.zero_le _, by omega⟩).spread
        (fun hin ↦ he.fresh (heapFrames_mono (Nat.le_refl _) h.copied.copying.heapOffset_le hin))
        (heapFrames_mono he.le (Nat.le_refl _)) (he.mem _ h.copied.le)
    refine (TreeFormat.Parts.single (i := idx) (hself.symm ▸ he.child) (hself.symm ▸ hgood)
      hspread).mono fun i hi ↦ ?_
    exact Fin.ext (Nat.le_antisymm (Nat.le_of_lt_succ hi.2) hi.1)

/-- What `setup_paging` relies on when it allocates pages and asks for their physical addresses. -/
structure Trusts (K : Kernel) (old : UInt64) (m₀ : Machine) (assume : Event → Prop) : Prop where
  /-- No allocation fails. -/
  nonzero : ∀ p, assume (.alloc p) → p ≠ 0
  /-- The pages handed out are mapped. -/
  mapped : ∀ p, p.toNat / 4096 ∈ K.imagePages → assume (.alloc p) → ∃ q, m₀.translate p = some q
  /-- `virt_to_phys` is right about them. -/
  resolve : ∀ {m : Machine} (p : UInt64), p.toNat / 4096 ∈ K.imagePages → assume (.alloc p) →
    m₀.KeepsTables m → (resolve p old).wp assume
      (fun x m' ↦ m' = m ∧ m₀.translate p = some x.toNat) m
  /-- It is right about the new PML4. -/
  resolve_pml4 : ∀ {m : Machine}, m₀.KeepsTables m → (Paging.resolve K.pml4 old).wp assume
    (fun x m' ↦ m' = m ∧ m₀.translate K.pml4 = some x.toNat) m

/-- The true answers of a run are enough. -/
theorem HandedOver.trusts (h : K.HandedOver old m₀) : K.Trusts old m₀ (Truthful m₀ old) where
  nonzero := fun _ hp ↦ hp.1
  mapped := fun _ _ hp ↦ hp.2.1
  resolve := fun _ _ hp hk ↦ h.wp_resolve hk hp.2
  resolve_pml4 := fun hk ↦ h.wp_resolve hk h.pml4

variable {assume : Event → Prop}

/-- An entry that points to the old table `t'` gets a copy of it: a fresh page with the copied
entries, the copies of the subtrees, and an entry with its address and the old flags. -/
theorem wp_copyEntry (h₀ : K.HandedOver old m₀) (htrusts : K.Trusts old m₀ assume)
    (h : K.Copying k m₀ m) {path : List Index} {t' : ℕ}
    {idx : Index} {table index : UInt64} (hi : index.toNat = idx) (ht : m₀.tableAt path = some t)
    (hd : path.length = d) (hchild : x86.child d (entryAt m₀.mem t idx) = some t')
    (hpage : m₀.Page table s) (hs : ¬ m₀.IsTable s)
    (hfresh : s ∉ K.heapFrames m₀ m.heapOffset K.heap.heapSize) {Q : Unit → Machine → Prop}
    (hrec : ∀ {newTable o x : UInt64} {s' : ℕ} {m₁ : Machine},
      K.Entered m₀ m d s (entryAt m₀.mem t idx) newTable o x s' →
      m₁ = (withCopy m o s' t').setEntry s idx (x ||| (entryAt m₀.mem t idx &&& flagsMask)) →
      K.Copying k m₀ m₁ → m₀.tableAt (path ++ [idx]) = some t' → ¬ m₀.IsTable s' →
      (∀ i : Index, entryAt m₁.mem s' i = entryAt m₀.mem t' i) →
      (K.copyTables old n newTable 0).wp assume Q m₁) :
    (do
      let newTable ← kmalloc K.heap 4096 4096
      memcpy newTable (entryAt m₀.mem t idx &&& addrMask) 4096
      let phys ← resolve newTable old
      store64 (table + 8 * index) (phys ||| (entryAt m₀.mem t idx &&& flagsMask))
      K.copyTables old n newTable 0).wp assume Q m := by
  subst hd
  obtain ⟨ht', hpage'⟩ := h₀.page_child ht hchild
  refine Exec.wp_bind_of (Space.wp_kmalloc_page K.lt_heapStart h.heapOffset_le htrusts.nonzero) ?_
  rintro p _ ⟨hev, hal, hlow, hend, o, rfl, ho, hpo⟩
  have himage : p.toNat / 4096 ∈ K.imagePages := mem_imagePages_of_heap (by omega) hend
  -- the page handed out is a frame of its own
  obtain ⟨q, hq⟩ := htrusts.mapped p himage hev
  have hnew := Machine.Page.of_translate hal hq
  generalize q / 4096 = s' at hnew
  have hmem : ∀ hi : UInt64, o.toNat ≤ hi.toNat → s' ∈ K.heapFrames m₀ m.heapOffset hi :=
    fun hi hle ↦ ⟨p, hnew, hlow, by omega, hend⟩
  have hs' : ¬ m₀.IsTable s' := h₀.not_isTable (hmem o (Nat.le_refl _))
  have hne : s ≠ s' := fun heq ↦ hfresh (heq ▸ hmem _ ho)
  have hnt : s' ≠ t' := fun heq ↦ hs' ⟨_, heq ▸ ht'⟩
  have hkeeps : m₀.KeepsTables { m with heapOffset := o } := ⟨h.keeps.root, h.keeps.mem⟩
  refine Exec.wp_bind ((hnew.congr hkeeps).wp_memcpy (hpage'.congr hkeeps) hnt
    (fun ht ↦ hs' (hkeeps.isTable.1 ht)) ?_)
  have hcopy := h.withCopy (t := t') hs' ho
  refine Exec.wp_bind_of (htrusts.resolve p himage hev hcopy.keeps) ?_
  rintro x _ ⟨rfl, hx⟩
  have hx' : x.toNat = 4096 * s' := Option.some.inj (hx.symm.trans hnew.translate)
  have hlt := hnew.frame_lt
  obtain ⟨hflags, hpres, hlarge, hframe⟩ :=
    withFlags_fields (x := x) (entryAt m₀.mem t idx) (by omega) (by omega)
  obtain ⟨hp, hdepth, hl, -⟩ := child_eq_some hchild
  have hentered : K.Entered m₀ m path.length s (entryAt m₀.mem t idx) p o x s' :=
    { page := hnew
      mem := hmem
      fresh := fun hin ↦
        absurd (h₀.heapFrames_disjoint (hmem o (Nat.le_refl _)) hin) (Nat.lt_irrefl _)
      ne := hne
      le := by omega
      address := by omega
      child := by
        rw [child_of_pointer (hpres.trans hp) (hlarge.trans hl) hdepth, hframe, hx',
          Nat.mul_div_cancel_left s' (by decide)]
      flags := hflags }
  refine Exec.wp_bind ((hpage.congr hcopy.keeps).wp_storeEntry hi ?_)
  refine hrec hentered rfl (hcopy.setEntry hs idx _) ht' hs' fun i ↦ ?_
  have hkept : entryAt ((withCopy m o s' t').setEntry s idx
      (x ||| (entryAt m₀.mem t idx &&& flagsMask))).mem s' i =
        entryAt (withCopy m o s' t').mem s' i :=
    entryAt_write64_of_ne _ _ fun heq ↦ hne.symm (congrArg Prod.fst heq)
  rw [hkept, ← h.keeps.entry t' i ⟨_, ht'⟩]
  exact entryAt_fillRun_self (fun _ _ ↦ rfl) i

/-! ### The loops -/

/-- **The copy loops** make the entries of a table, from `first` on, copies of those of the old
table, and spread them over pages of the heap. -/
theorem wp_spreadTables (Good : UInt64 → Prop) (h₀ : K.HandedOver old m₀)
    (htrusts : K.Trusts old m₀ assume)
    (hgood : ∀ p t i s (x : UInt64), m₀.tableAt p = some t →
      x86.child p.length (entryAt m₀.mem t i) = some s → x.toNat < 2 ^ 52 →
      Good (x ||| (entryAt m₀.mem t i &&& flagsMask)))
    {path : List Index} {table : UInt64} (hfirst : first ≤ 512)
    (hd : path.length = d) (hdn : d + n = 3) (h : K.Copying k m₀ m) (ht : m₀.tableAt path = some t)
    (hpage : m₀.Page table s) (hs : ¬ m₀.IsTable s)
    (hfresh : s ∉ K.heapFrames m₀ m.heapOffset K.heap.heapSize)
    (hsame : ∀ i : Index, first ≤ i → entryAt m.mem s i = entryAt m₀.mem t i) :
    (K.copyTables old n table first).wp assume
      (fun _ ↦ K.SpreadUpTo k Good m₀ d n t s first (512 - first) m) m := by
  induction n generalizing d first t s path table m with
  | zero =>
    refine Exec.wp_pure ⟨⟨h, Nat.le_refl _, fun _ hq ↦ absurd rfl hq, fun _ _ ↦ rfl,
      fun i hlow _ ↦ hsame i hlow⟩, .of_none fun i _ ↦ ?_⟩
    obtain rfl : d = 3 := hdn
    exact child_bottom _
  | succ n ih =>
    refine Exec.wp_forUpTo (fun j ↦ K.SpreadUpTo k Good m₀ d (n + 1) t s first j m)
      ⟨CopiedUpTo.refl h d (n + 1) t s first, .of_none fun i hi ↦ absurd hi.2 (Nat.not_lt.2 hi.1)⟩
      fun j hj m₁ hm₁ ↦ ?_
    have hidx : (UInt64.ofNat (first + j)).toNat = ((⟨first + j, by omega⟩ : Index) : ℕ) :=
      UInt64.toNat_ofNat'.trans (Nat.mod_eq_of_lt (by omega))
    generalize hi : (⟨first + j, by omega⟩ : Index) = idx at hidx
    have hval : (idx : ℕ) = first + j := congrArg Fin.val hi.symm
    have hentry : entryAt m₁.mem s idx = entryAt m₀.mem t idx :=
      (hm₁.copied.rest idx (Or.inr hval.ge)).trans (hsame idx (by omega))
    have hpage₁ := hpage.congr hm₁.copied.copying.keeps
    have hfresh₁ : s ∉ K.heapFrames m₀ m₁.heapOffset K.heap.heapSize := fun hin ↦
      hfresh (heapFrames_mono hm₁.copied.le (Nat.le_refl _) hin)
    refine Exec.wp_mono (Q := fun _ ↦ K.SpreadUpTo k Good m₀ d (n + 1) t s idx 1 m₁) ?_
      fun _ m' hm' ↦ hm₁.append h₀ hfresh (hval ▸ hm')
    refine Exec.wp_bind (hpage₁.wp_loadEntry hidx (Exec.wp_bind (hpage₁.wp_loadEntry hidx ?_)))
    dsimp only
    rw [hentry]
    have hflags := congrArg₂ (fun a b ↦ a && !b) (present_and_flagsMask (entryAt m₀.mem t idx))
      (large_and_flagsMask (entryAt m₀.mem t idx))
    by_cases hlink : (present (entryAt m₀.mem t idx) && !large (entryAt m₀.mem t idx)) = true
    · rw [hflags, if_pos hlink]
      obtain ⟨hp, hl⟩ := Bool.and_eq_true_iff.1 hlink
      have hchild := child_of_pointer (d := d) hp (by simpa using hl) (by omega)
      refine wp_copyEntry h₀ htrusts hm₁.copied.copying hidx ht hd hchild hpage hs hfresh₁ ?_
      rintro newTable o x s' m₂ he rfl hcopying ht' hs' hcopied
      have hrest := ih (Nat.zero_le _) (by rw [List.length_append, hd, List.length_singleton])
        (by omega) hcopying ht' he.page hs' he.fresh fun i _ ↦ hcopied i
      refine Exec.wp_mono hrest fun _ m' hm' ↦ ?_
      exact .enter hfresh₁ he hchild (hgood _ _ _ _ _ ht (hd ▸ hchild) he.address) hm'
    · rw [hflags, if_neg hlink]
      refine Exec.wp_pure (SpreadUpTo.skip hm₁.copied.copying hentry ?_)
      cases hp : present (entryAt m₀.mem t idx) with
      | false => exact child_of_not_present hp
      | true =>
        refine child_of_large ?_
        simpa [hp] using hlink

end Kernel

end Aidos.Paging
