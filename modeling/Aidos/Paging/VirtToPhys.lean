import Aidos.Paging.KernelSetup

/-!
# What `virt_to_phys` makes of large pages

`virt_to_phys` tests `PAGE_PSE` one level too high: in the entry of the PML4, where the bit is
reserved, and in the entry of the PDPT, where it takes a 1 GiB page for one of 2 MiB. In the entry
of the page directory it does not test the bit at all, and follows a 2 MiB page as if it were a
table. So the function agrees with the hardware walk where the walk ends at a 4 KiB page or at an
entry that is not present, and in the first 2 MiB of a 1 GiB page (`Machine.Tree.agrees_iff`).
-/

namespace Aidos.Paging

open ByteMemory Memory

/-- The addresses of the entries that the hardware walk reads, from a table at depth `d` on. -/
def walkReads (mem : ℕ → UInt8) : ℕ → ℕ → List Index → List UInt64
  | _, _, [] => []
  | d, t, i :: p =>
    UInt64.ofNat (4096 * t + 8 * i) ::
      match x86.child d (entryAt mem t i) with
      | some t' => walkReads mem (d + 1) t' p
      | none => []

namespace Machine

/-- The tree under the PML4 in frame `root` can be read by `virt_to_phys`, and no walk in it meets a
reserved bit. -/
structure Tree (m : Machine) (root : ℕ) : Prop where
  /-- Its tables are identity-mapped. -/
  identity : ∀ t, x86.Reached (entryAt m.mem) root t →
    m.translate (UInt64.ofNat (4096 * t)) = some (4096 * t)
  /-- Its leaves map pages below `2 ^ 48`. -/
  leaf : ∀ v l, lookAt m.mem root v = some l → frameOf l.2 < 2 ^ 36 ∧ ∃ q, physical v l = some q

/-- The program returns what the hardware walk of `v` gives from the table `t` of depth `d` on, or 0
where that walk meets an entry that is not present; it reads the entries of that walk, in order, and
no other word. -/
def Resolves (m : Machine) (v : UInt64) (x : Prog UInt64) (d t : ℕ) (p : List Index) : Prop :=
  x.run m = ⟨some (UInt64.ofNat (((x86.look (entryAt m.mem) d t p).bind (physical v)).getD 0)), m,
    (walkReads m.mem d t p).map Event.read⟩

/-- `virt_to_phys` agrees with the hardware walk of `v` from the PML4 in frame `root`. -/
def Agrees (m : Machine) (root : ℕ) (v : UInt64) : Prop :=
  (virtToPhys v (UInt64.ofNat (4096 * root))).run m =
    ⟨some (UInt64.ofNat ((walkTo m.mem root v).getD 0)), m,
      (walkReads m.mem 0 root (pathOf v)).map Event.read⟩

/-- A leaf at which `virt_to_phys` is right about `v`: a 4 KiB page, or the first 2 MiB of a 1 GiB
page whose entry has bit 12 clear. -/
def Handled (v : UInt64) (l : ℕ × UInt64) : Prop :=
  l.1 = 3 ∨ l.1 = 1 ∧ frameOf l.2 % 2 = 0 ∧ v.toNat / 2 ^ 21 % 512 = 0

/-- From the table `t` of depth `d` on, the program is right exactly at the leaves handled. -/
def Judged (m : Machine) (v : UInt64) (x : Prog UInt64) (d t : ℕ) (p : List Index) : Prop :=
  m.Resolves v x d t p ↔ ∀ l, x86.look (entryAt m.mem) d t p = some l → Handled v l

variable {m : Machine} {root d t t' : ℕ} {i : Index} {p : List Index} {v : UInt64}

/-! ### Reading an entry -/

/-- A table of the tree is accessed at its physical address. -/
theorem Tree.page (h : m.Tree root) (ht : x86.Reached (entryAt m.mem) root t) :
    m.Page (UInt64.ofNat (4096 * t)) t ∧ t < 2 ^ 35 := by
  have hid := h.identity t ht
  obtain ⟨l, -, hphys⟩ := Option.bind_eq_some_iff.1
    ((translate_eq (canonical_of_translate hid)).symm.trans hid)
  have hlt := physical_lt hphys
  have hnum : (UInt64.ofNat (4096 * t)).toNat = 4096 * t :=
    UInt64.toNat_ofNat_of_lt' (Nat.lt_trans hlt (by decide))
  have hcan := canonical_of_translate hid
  rw [Canonical, hnum] at hcan
  exact ⟨⟨by omega, hid⟩, by omega⟩

/-- The address of an entry, as the source computes it and as a number. -/
theorem Tree.entry_address (h : m.Tree root) (ht : x86.Reached (entryAt m.mem) root t) {x : UInt64}
    (hx : x.toNat = i) :
    UInt64.ofNat (4096 * t) + 8 * x = UInt64.ofNat (4096 * t + 8 * i) := by
  have hi := i.isLt
  obtain ⟨hpage, hlt⟩ := h.page ht
  have hoff := Space.toNat_entryOffset hx
  have hnum : (UInt64.ofNat (4096 * t)).toNat = 4096 * t :=
    UInt64.toNat_ofNat'.trans (Nat.mod_eq_of_lt (by omega))
  have hsum : (UInt64.ofNat (4096 * t + 8 * i)).toNat = 4096 * t + 8 * i :=
    UInt64.toNat_ofNat'.trans (Nat.mod_eq_of_lt (by omega))
  refine UInt64.toNat_inj.1 ?_
  rw [hpage.toNat_add (by omega), hnum, hoff, hsum]

/-- Reading an entry of a table, and going on. -/
theorem Tree.run_load (h : m.Tree root) (ht : x86.Reached (entryAt m.mem) root t) {x : UInt64}
    (hx : x.toNat = i) (f : UInt64 → Prog UInt64) :
    (load64 (UInt64.ofNat (4096 * t) + 8 * x) >>= f).run m =
      ⟨((f (entryAt m.mem t i)).run m).value, ((f (entryAt m.mem t i)).run m).state,
        Event.read (UInt64.ofNat (4096 * t + 8 * i)) ::
          ((f (entryAt m.mem t i)).run m).events⟩ := by
  rw [Exec.run_bind_of_some ((h.page ht).1.run_loadEntry hx), h.entry_address ht hx]
  rfl

/-- An entry that points to a table: that table is reached, at the address in the entry. -/
theorem Tree.pointer (h : m.Tree root) {q : List Index} {e : UInt64}
    (ht : x86.tableAt (entryAt m.mem) 0 root q = some t) (hd : q.length = d)
    (he : entryAt m.mem t i = e) (hp : present e = true) (hl : large e = false) (hlt : d < 3) :
    x86.child d e = some (frameOf e) ∧
      x86.tableAt (entryAt m.mem) 0 root (q ++ [i]) = some (frameOf e) ∧
      e &&& addrMask = UInt64.ofNat (4096 * frameOf e) := by
  have hc : x86.child d e = some (frameOf e) := child_of_pointer hp hl hlt
  have hnext := TreeFormat.reached_of_child (i := i) ht (by rw [he, hd, hc])
  obtain ⟨-, hframe⟩ := h.page ⟨_, hnext⟩
  refine ⟨hc, hnext, ?_⟩
  rw [← toNat_and_addrMask (e := e) (by omega), UInt64.ofNat_toNat]

/-- The walk goes on at the table an entry points to. -/
theorem look_of_pointer {e : UInt64} (he : entryAt m.mem t i = e) (hc : x86.child d e = some t') :
    x86.look (entryAt m.mem) d t (i :: p) = x86.look (entryAt m.mem) (d + 1) t' p :=
  TreeFormat.look_cons_of_child p (by rw [he, hc])

/-- A program that goes on with a load and returns has read a word. -/
theorem load_not_silent {w y : UInt64} {f : UInt64 → Prog UInt64} :
    (load64 w >>= f).run m ≠ ⟨some y, m, []⟩ := by
  intro hrun
  obtain ⟨hal, q, hq⟩ := Kernel.translate_of_load64 (congrArg Outcome.value hrun)
  have hload : (load64 w).run m = ⟨some (read64 m.mem q), m, [Event.read w]⟩ := by
    rw [load64, if_pos hal, Exec.run_bind_of_some (run_access hq)]
    rfl
  rw [Exec.run_bind_of_some hload] at hrun
  exact absurd (congrArg Outcome.events hrun) (by simp)

/-! ### The answers at the leaves -/

/-- The address in an entry, plus the low bits of the virtual address. -/
theorem toNat_addrMask_add {e mask : UInt64} {k : ℕ} (he : frameOf e < 2 ^ 36)
    (hmask : mask.toNat = 2 ^ k - 1) (hk : k ≤ 30) :
    ((e &&& addrMask) + (v &&& mask)).toNat = 4096 * frameOf e + v.toNat % 2 ^ k := by
  have hpow : 2 ^ k ≤ 2 ^ 30 := Nat.pow_le_pow_right (by decide) hk
  have hlow : v.toNat % 2 ^ k < 2 ^ k := Nat.mod_lt _ (Nat.two_pow_pos k)
  rw [UInt64.toNat_add, toNat_and_addrMask he, UInt64.toNat_and, hmask,
    Nat.and_two_pow_sub_one_eq_mod]
  omega

/-- At a 4 KiB page the answer is right. -/
theorem answer_page4k {e : UInt64} {q : ℕ} (he : frameOf e < 2 ^ 36)
    (hq : physical v (3, e) = some q) : (e &&& addrMask) + (v &&& 0xFFF) = UInt64.ofNat q := by
  rw [physical_bottom] at hq
  obtain rfl := Option.some.inj hq
  have hsum : ((e &&& addrMask) + (v &&& 0xFFF)).toNat = 4096 * frameOf e + v.toNat % 2 ^ 12 :=
    toNat_addrMask_add he (by decide) (by decide)
  have hnum := UInt64.toNat_ofNat_of_lt' (n := frameOf e * 4096 + v.toNat % 4096)
    (Nat.lt_trans (m := 2 ^ 49) (by omega) (by decide))
  refine UInt64.toNat_inj.1 ?_
  rw [hsum, hnum]
  omega

/-- At a 1 GiB page the answer has the offset of a 2 MiB page, and bit 12 of the entry with it. -/
theorem answer_page1g {e : UInt64} {q : ℕ} (he : frameOf e < 2 ^ 36)
    (hq : physical v (1, e) = some q) :
    (e &&& addrMask) + (v &&& (page2m - 1)) = UInt64.ofNat q ↔
      frameOf e % 2 = 0 ∧ v.toNat / 2 ^ 21 % 512 = 0 := by
  have hsum : ((e &&& addrMask) + (v &&& (page2m - 1))).toNat =
      4096 * frameOf e + v.toNat % 2 ^ 21 :=
    toNat_addrMask_add he (by decide) (by decide)
  obtain ⟨size, base, hpage, rfl⟩ := physical_eq_some hq
  rw [leafPage] at hpage
  split at hpage
  · next hreserved =>
    obtain ⟨rfl, rfl⟩ := Prod.mk.inj (Option.some.inj hpage)
    have hnum := UInt64.toNat_ofNat_of_lt' (n := frameOf e / 2 ^ 18 * 2 ^ 30 + v.toNat % 2 ^ 30)
      (Nat.lt_trans (m := 2 ^ 49) (by omega) (by decide))
    have hmod : v.toNat % 2 ^ 30 = 2 ^ 21 * (v.toNat / 2 ^ 21 % 512) + v.toNat % 2 ^ 21 := by omega
    have hframe :
        4096 * frameOf e = frameOf e / 2 ^ 18 * 2 ^ 30 + 4096 * (frameOf e % 2) := by omega
    rw [← UInt64.toNat_inj, hsum, hnum, hmod, hframe]
    constructor
    · intro heq
      omega
    · rintro ⟨hbit, hoff⟩
      rw [hbit, hoff]
      omega
  · exact absurd hpage (by simp)

/-! ### One level of the walk -/

section Level

variable {x e : UInt64} {f : UInt64 → Prog UInt64} (h : m.Tree root)
  (ht : x86.Reached (entryAt m.mem) root t) (hx : x.toNat = i) (he : entryAt m.mem t i = e)

include h ht hx he

/-- An entry at which the walk ends: nothing more is to be read. -/
theorem Tree.resolves_end (hc : x86.child d e = none) :
    m.Resolves v (load64 (UInt64.ofNat (4096 * t) + 8 * x) >>= f) d t (i :: p) ↔
      (f e).run m = ⟨some (UInt64.ofNat
        (((x86.look (entryAt m.mem) d t (i :: p)).bind (physical v)).getD 0)), m, []⟩ := by
  rw [Resolves, h.run_load ht hx, walkReads, he, hc, List.map_cons, List.map_nil]
  generalize (f e).run m = o
  obtain ⟨value, state, events⟩ := o
  simp only [Outcome.mk.injEq, List.cons.injEq, true_and]

/-- An entry that is not present, where the program returns 0. -/
theorem Tree.judged_not_present (hp : present e = false) (hf : f e = pure 0) :
    m.Judged v (load64 (UInt64.ofNat (4096 * t) + 8 * x) >>= f) d t (i :: p) := by
  have hc : x86.child d e = none := child_of_not_present hp
  have hlook : x86.look (entryAt m.mem) d t (i :: p) = none := by
    rw [TreeFormat.look_cons_of_none _ (he ▸ hc), he, leaf_of_not_present hp]
    rfl
  rw [Judged, h.resolves_end ht hx he hc, hlook, hf]
  exact iff_of_true rfl fun l hl ↦ absurd hl (by simp)

/-- An entry that points to a table, which the program follows. -/
theorem Tree.judged_child (hc : x86.child d e = some t') (hf : m.Judged v (f e) (d + 1) t' p) :
    m.Judged v (load64 (UInt64.ofNat (4096 * t) + 8 * x) >>= f) d t (i :: p) := by
  have hlook := look_of_pointer (p := p) he hc
  rw [Judged] at hf
  rw [Judged, hlook, ← hf, Resolves, Resolves, h.run_load ht hx, walkReads, he, hc, hlook,
    List.map_cons]
  generalize (f e).run m = o
  obtain ⟨value, state, events⟩ := o
  simp only [Outcome.mk.injEq, List.cons.injEq, true_and]

/-- A leaf, with what the program makes of it. -/
theorem Tree.judged_leaf (hc : x86.child d e = none) (hleaf : x86.leaf d e = true)
    (hv : lookAt m.mem root v = x86.look (entryAt m.mem) d t (i :: p))
    (hf : ∀ q, frameOf e < 2 ^ 36 → physical v (d, e) = some q →
      ((f e).run m = ⟨some (UInt64.ofNat q), m, []⟩ ↔ Handled v (d, e))) :
    m.Judged v (load64 (UInt64.ofNat (4096 * t) + 8 * x) >>= f) d t (i :: p) := by
  have hlook : x86.look (entryAt m.mem) d t (i :: p) = some (d, e) := by
    rw [TreeFormat.look_cons_of_none _ (he ▸ hc), he, if_pos hleaf]
  obtain ⟨hframe, q, hq⟩ := h.leaf v _ (hv.trans hlook)
  rw [Judged, h.resolves_end ht hx he hc, hlook, Option.bind_some, hq, Option.getD_some,
    hf q hframe hq]
  constructor
  · intro hhandled l hl
    exact Option.some.inj hl ▸ hhandled
  · intro hall
    exact hall _ rfl

end Level

/-! ### The whole walk -/

/-- What a program that returns a value leaves, compared with an expected value. -/
theorem run_pure_iff {y z : UInt64} :
    (pure y : Prog UInt64).run m = ⟨some z, m, []⟩ ↔ y = z := by
  constructor
  · intro heq
    exact Option.some.inj (Outcome.mk.inj heq).1
  · rintro rfl
    rfl

/-- **When `virt_to_phys` agrees with the hardware walk**: where the walk meets an entry that is not
present, at a 4 KiB page, and in the first 2 MiB of a 1 GiB page. It never agrees at a 2 MiB page.
-/
theorem Tree.agrees_iff (h : m.Tree root) (v : UInt64) :
    m.Agrees root v ↔ ∀ l, lookAt m.mem root v = some l → Handled v l := by
  have hroot : x86.tableAt (entryAt m.mem) 0 root [] = some root := rfl
  show m.Judged v (virtToPhys v _) 0 root (pathOf v)
  rw [virtToPhys, pathOf]
  -- the entry of the PML4, where `PAGE_PSE` is reserved
  generalize he₀ : entryAt m.mem root (index 39 v) = e₀
  cases hp₀ : present e₀
  · exact h.judged_not_present ⟨_, hroot⟩ (toNat_pml4Index v) he₀ hp₀
      (by rw [hp₀]; exact if_pos rfl)
  cases hl₀ : large e₀
  swap
  · refine h.judged_leaf ⟨_, hroot⟩ (toNat_pml4Index v) he₀ (child_of_large hl₀)
      ((leaf_of_large hl₀).trans hp₀) rfl fun q _ hq ↦ ?_
    exact absurd hq (by simp [physical, leafPage])
  obtain ⟨hc₀, ht₁, haddr₁⟩ := h.pointer (d := 0) hroot rfl he₀ hp₀ hl₀ (by decide)
  have hlook₁ : lookAt m.mem root v = x86.look (entryAt m.mem) 1 (frameOf e₀)
      [index 30 v, index 21 v, index 12 v] := look_of_pointer he₀ hc₀
  refine h.judged_child ⟨_, hroot⟩ (toNat_pml4Index v) he₀ hc₀ ?_
  simp only [hp₀, hl₀, Bool.not_true, Bool.false_eq_true, if_false]
  rw [haddr₁]
  -- the entry of the PDPT, which the source takes for one of a page directory
  generalize he₁ : entryAt m.mem (frameOf e₀) (index 30 v) = e₁
  cases hp₁ : present e₁
  · exact h.judged_not_present ⟨_, ht₁⟩ (toNat_pdptIndex v) he₁ hp₁ (by rw [hp₁]; exact if_pos rfl)
  cases hl₁ : large e₁
  swap
  · refine h.judged_leaf ⟨_, ht₁⟩ (toNat_pdptIndex v) he₁ (child_of_large hl₁)
      ((leaf_of_large hl₁).trans hp₁) hlook₁ fun q hframe hq ↦ ?_
    rw [hp₁, hl₁]
    simp [Handled, run_pure_iff, answer_page1g hframe hq]
  obtain ⟨hc₁, ht₂, haddr₂⟩ := h.pointer (d := 1) ht₁ rfl he₁ hp₁ hl₁ (by decide)
  have hlook₂ : lookAt m.mem root v = x86.look (entryAt m.mem) 2 (frameOf e₁)
      [index 21 v, index 12 v] := hlook₁.trans (look_of_pointer he₁ hc₁)
  refine h.judged_child ⟨_, ht₁⟩ (toNat_pdptIndex v) he₁ hc₁ ?_
  simp only [hp₁, hl₁, Bool.not_true, Bool.false_eq_true, if_false]
  rw [haddr₂]
  -- the entry of the page directory, whose `PAGE_PSE` the source does not test
  generalize he₂ : entryAt m.mem (frameOf e₁) (index 21 v) = e₂
  cases hp₂ : present e₂
  · exact h.judged_not_present ⟨_, ht₂⟩ (toNat_pdIndex v) he₂ hp₂ (by rw [hp₂]; exact if_pos rfl)
  cases hl₂ : large e₂
  swap
  · refine h.judged_leaf ⟨_, ht₂⟩ (toNat_pdIndex v) he₂ (child_of_large hl₂)
      ((leaf_of_large hl₂).trans hp₂) hlook₂ fun q _ _ ↦ ?_
    rw [hp₂]
    exact iff_of_false load_not_silent (by simp [Handled])
  obtain ⟨hc₂, ht₃, haddr₃⟩ := h.pointer (d := 2) ht₂ rfl he₂ hp₂ hl₂ (by decide)
  have hlook₃ : lookAt m.mem root v = x86.look (entryAt m.mem) 3 (frameOf e₂) [index 12 v] :=
    hlook₂.trans (look_of_pointer he₂ hc₂)
  refine h.judged_child ⟨_, ht₂⟩ (toNat_pdIndex v) he₂ hc₂ ?_
  simp only [hp₂, Bool.not_true, Bool.false_eq_true, if_false]
  rw [haddr₃]
  -- the entry of the page table
  generalize he₃ : entryAt m.mem (frameOf e₂) (index 12 v) = e₃
  cases hp₃ : present e₃
  · exact h.judged_not_present ⟨_, ht₃⟩ (toNat_ptIndex v) he₃ hp₃ (by rw [hp₃]; exact if_pos rfl)
  · refine h.judged_leaf ⟨_, ht₃⟩ (toNat_ptIndex v) he₃ (child_bottom _)
      ((leaf_bottom _).trans hp₃) hlook₃ fun q hframe hq ↦ ?_
    rw [hp₃]
    exact iff_of_true (run_pure_iff.2 (answer_page4k hframe hq)) (Or.inl rfl)

end Machine

/-! ### A tree with pages of all sizes -/

/-- Four tables in the frames 16 to 19. The first 2 MiB are one page, the next page table maps one
4 KiB page, and the second GiB is one page. -/
def mixedEntries (f i : ℕ) : UInt64 :=
  match f, i with
  | 16, 0 => 0x11003
  | 17, 0 => 0x12003
  | 17, 1 => 0x40000083
  | 18, 0 => 0x83
  | 18, 1 => 0x13003
  | 19, 0 => 0x5003
  | _, _ => 0

/-- A machine that runs on this tree. -/
def mixedMachine : Machine where
  mem := ofEntries mixedEntries
  cr3 := 0x10000
  heapOffset := 0
  kernelOffset := 0

/-- The four tables and their paths. -/
def mixedTables : List (List Index × ℕ) := [([], 16), ([0], 17), ([0, 0], 18), ([0, 0, 1], 19)]

theorem mem_mixedTables {p : List Index} {t : ℕ}
    (h : x86.tableAt (entryAt mixedMachine.mem) 0 16 p = some t) : (p, t) ∈ mixedTables := by
  have hclosed : ∀ a ∈ mixedTables, ∀ i : Index,
      ∀ s ∈ x86.child a.1.length (mixedEntries a.2 i), (a.1 ++ [i], s) ∈ mixedTables := by
    decide +kernel
  refine TreeFormat.mem_of_closed (by decide) (fun a ha i s hs ↦ hclosed a ha i s ?_) h
  rw [← entryAt_ofEntries mixedEntries a.2 i]
  exact hs

theorem tree_mixedMachine : mixedMachine.Tree 16 where
  identity := by
    rintro t ⟨p, hp⟩
    have hall : ∀ a ∈ mixedTables,
        mixedMachine.translate (UInt64.ofNat (4096 * a.2)) = some (4096 * a.2) := by
      decide +kernel
    exact hall _ (mem_mixedTables hp)
  leaf := by
    intro v l hl
    have hall : ∀ a ∈ mixedTables, ∀ i : Index, x86.leaf a.1.length (mixedEntries a.2 i) = true →
        frameOf (mixedEntries a.2 i) < 2 ^ 36 ∧
          (leafPage (a.1.length, mixedEntries a.2 i)).isSome = true := by
      decide +kernel
    obtain ⟨p, t, i, ht, -, rfl, hleaf⟩ := TreeFormat.exists_of_look (p := []) rfl hl
    have hentry : entryAt mixedMachine.mem t i = mixedEntries t i :=
      entryAt_ofEntries mixedEntries t i
    rw [hentry] at hleaf ⊢
    obtain ⟨hframe, hpage⟩ := hall _ (mem_mixedTables ht) i hleaf
    obtain ⟨page, hpage⟩ := Option.isSome_iff_exists.1 hpage
    exact ⟨hframe, _, by rw [physical, hpage, Option.map_some]⟩

/-- In this tree `virt_to_phys` agrees about an address of the 4 KiB page and about no address of
the 2 MiB page. -/
theorem agrees_iff_mixed : mixedMachine.Agrees 16 0x200678 ∧ ¬ mixedMachine.Agrees 16 0x1234 := by
  have hsmall : ∀ l, lookAt mixedMachine.mem 16 0x200678 = some l → Machine.Handled 0x200678 l := by
    have hlook : lookAt mixedMachine.mem 16 0x200678 = some (3, 0x5003) := by decide +kernel
    exact fun l hl ↦ Or.inl (congrArg Prod.fst (Option.some.inj (hl.symm.trans hlook)))
  have hlarge : lookAt mixedMachine.mem 16 0x1234 = some (2, 0x83) := by decide +kernel
  refine ⟨(tree_mixedMachine.agrees_iff 0x200678).2 hsmall, fun hagrees ↦ ?_⟩
  have hhandled := (tree_mixedMachine.agrees_iff 0x1234).1 hagrees _ hlarge
  exact absurd hhandled (by simp [Machine.Handled])

/-- The physical address of `0x1234` is itself, and that of `0x40201234` too. `virt_to_phys` follows
the 2 MiB page of the first one as if it were a table, finds 0 there and returns 0; of the second
one, in a 1 GiB page, it returns `0x40001234`. -/
theorem virt_to_phys_misreads_large_pages :
    (mixedMachine.Tree 16 ∧
      walkTo mixedMachine.mem 16 0x1234 = some 0x1234 ∧
      ((virtToPhys 0x1234 0x10000).run mixedMachine).value = some 0 ∧
      walkTo mixedMachine.mem 16 0x40201234 = some 0x40201234 ∧
      ((virtToPhys 0x40201234 0x10000).run mixedMachine).value = some 0x40001234) ∧
    ¬ ∀ (m : Machine) (root : ℕ) (v : UInt64), m.Tree root → m.Agrees root v := by
  have hruns : walkTo mixedMachine.mem 16 0x1234 = some 0x1234 ∧
      ((virtToPhys 0x1234 0x10000).run mixedMachine).value = some 0 ∧
      walkTo mixedMachine.mem 16 0x40201234 = some 0x40201234 ∧
      ((virtToPhys 0x40201234 0x10000).run mixedMachine).value = some 0x40001234 := by
    decide +kernel
  refine ⟨⟨tree_mixedMachine, hruns⟩, fun hall ↦ ?_⟩
  have hvalue := congrArg Outcome.value (hall mixedMachine 16 0x1234 tree_mixedMachine)
  rw [hruns.1] at hvalue
  exact absurd (hruns.2.1.symm.trans hvalue) (by decide)

end Aidos.Paging
