import Aidos.Library.Updates
import Aidos.Paging.Edit

/-!
# Mapping a range of pages

`map_4k` and `map_2m` of both programs place one entry for each page of a range, each after its own
walk from the PML4; the bodies of the loops are `place4k` and `place2m`. `Stage` describes the
machine after some turns of such a loop: the leaves are those from before the loop, overlaid with
the entries placed so far (`overlay`), later ones over earlier ones.
-/

namespace Aidos.Paging

/-- The index computed by `(va >> 39) & 0x1FF`. -/
def pml4Index (va : UInt64) : UInt64 := (va >>> 39) &&& 0x1FF

/-- The index computed by `(va >> 30) & 0x1FF`. -/
def pdptIndex (va : UInt64) : UInt64 := (va >>> 30) &&& 0x1FF

/-- The index computed by `(va >> 21) & 0x1FF`. -/
def pdIndex (va : UInt64) : UInt64 := (va >>> 21) &&& 0x1FF

/-- The index computed by `(va >> 12) & 0x1FF`. -/
def ptIndex (va : UInt64) : UInt64 := (va >>> 12) &&& 0x1FF

/-- The body of `map_4k`: walk to the page table of `va` with `get_or_create_table` and store the
entry. -/
def place4k (getOrCreateTable : UInt64 → UInt64 → Prog UInt64)
    (pml4 va entry : UInt64) : Prog Unit := do
  let pdptTbl ← getOrCreateTable pml4 (pml4Index va)
  let pdTbl ← getOrCreateTable pdptTbl (pdptIndex va)
  let ptTbl ← getOrCreateTable pdTbl (pdIndex va)
  store64 (ptTbl + 8 * ptIndex va) entry

/-- The body of `map_2m`: walk to the page directory of `va` with `get_or_create_table` and store
the entry. -/
def place2m (getOrCreateTable : UInt64 → UInt64 → Prog UInt64)
    (pml4 va entry : UInt64) : Prog Unit := do
  let pdptTbl ← getOrCreateTable pml4 (pml4Index va)
  let pdTbl ← getOrCreateTable pdptTbl (pdptIndex va)
  store64 (pdTbl + 8 * pdIndex va) entry

theorem toNat_pml4Index (va : UInt64) : (pml4Index va).toNat = index 39 va :=
  toNat_shift_and (s := 39) (by decide)

theorem toNat_pdptIndex (va : UInt64) : (pdptIndex va).toNat = index 30 va :=
  toNat_shift_and (s := 30) (by decide)

theorem toNat_pdIndex (va : UInt64) : (pdIndex va).toNat = index 21 va :=
  toNat_shift_and (s := 21) (by decide)

theorem toNat_ptIndex (va : UInt64) : (ptIndex va).toNat = index 12 va :=
  toNat_shift_and (s := 12) (by decide)

namespace Space

variable {S : Space} {m m₀ : Machine}

/-- Placing a 4 KiB entry, where no large page is in the way. -/
theorem Sound.wp_place4k {get : UInt64 → UInt64 → Prog UInt64} (hg : GetsTable S m.kernelOffset get)
    (h : S.Sound m) {va x : UInt64} (hbig : ∀ l, m.look va = some l → l.1 = 3)
    (hstay : ∀ w : UInt64, w.toNat / 4096 ∈ S.region → (pathOf va).take 4 <+: pathOf w →
      x86.leaf 3 x = true ∧ physical w (3, x) = some (w - S.offset).toNat) :
    (place4k get S.pml4 va x).wp Event.Allocates (fun _ m' ↦ S.Sound m' ∧
      Remapped 3 va x m m') m := by
  have hdepth : ∀ n < 3, ∀ l, m.look va = some l → n < l.1 := fun n hn l hl ↦ by
    rw [hbig l hl]
    exact hn
  refine Exec.wp_bind_of ((Descended.start h va).step hg (by omega) rfl (toNat_pml4Index va)
    (hdepth 0 (by omega))) fun a m₁ h₁ ↦ ?_
  refine Exec.wp_bind_of (h₁.step hg (by omega) rfl (toNat_pdptIndex va)
    (hdepth 1 (by omega))) fun b m₂ h₂ ↦ ?_
  refine Exec.wp_bind_of (h₂.step hg (by omega) rfl (toNat_pdIndex va)
    (hdepth 2 (by omega))) fun c m₃ h₃ ↦ ?_
  exact h₃.store (by omega) rfl (toNat_ptIndex va) (child_bottom x) hstay

/-- Placing a 2 MiB entry, where no larger page is in the way. -/
theorem Sound.wp_place2m {get : UInt64 → UInt64 → Prog UInt64} (hg : GetsTable S m.kernelOffset get)
    (h : S.Sound m) {va x : UInt64} (hx : x86.child 2 x = none)
    (hbig : ∀ l, m.look va = some l → 2 ≤ l.1)
    (hstay : ∀ w : UInt64, w.toNat / 4096 ∈ S.region → (pathOf va).take 3 <+: pathOf w →
      x86.leaf 2 x = true ∧ physical w (2, x) = some (w - S.offset).toNat) :
    (place2m get S.pml4 va x).wp Event.Allocates (fun _ m' ↦ S.Sound m' ∧
      Remapped 2 va x m m') m := by
  have hdepth : ∀ n < 2, ∀ l, m.look va = some l → n < l.1 := fun n hn l hl ↦
    Nat.lt_of_lt_of_le hn (hbig l hl)
  refine Exec.wp_bind_of ((Descended.start h va).step hg (by omega) rfl (toNat_pml4Index va)
    (hdepth 0 (by omega))) fun a m₁ h₁ ↦ ?_
  refine Exec.wp_bind_of (h₁.step hg (by omega) rfl (toNat_pdptIndex va)
    (hdepth 1 (by omega))) fun b m₂ h₂ ↦ ?_
  exact h₂.store (by omega) rfl (toNat_pdIndex va) hx hstay

/-! ### Several entries in a row -/

/-- The leaf that an entry `x` placed at depth `n` for the address `va` gives to an address, if it
is below that entry. -/
def placed (n : ℕ) (va x : UInt64) (w : UInt64) : Option (Option (ℕ × UInt64)) :=
  if (pathOf va).take (n + 1) <+: pathOf w then some (if x86.leaf n x then some (n, x) else none)
  else none

/-- The leaves after placing the entries `x 0`, …, `x (k - 1)` at depth `n` for the addresses `va
0`, …, `va (k - 1)`, over the leaves `f`. -/
def overlay (n : ℕ) (va x : ℕ → UInt64) (f : UInt64 → Option (ℕ × UInt64)) (k : ℕ) :
    UInt64 → Option (ℕ × UInt64) :=
  latest (fun j ↦ placed n (va j) (x j)) (List.range k) f

/-- The machine `m` after changes to the tree of `m₀` at depth `n`: the addresses have the leaves
`f`. -/
structure Stage (S : Space) (n : ℕ) (m₀ : Machine)
    (f : UInt64 → Option (ℕ × UInt64)) (m : Machine) :
    Prop where
  /-- The invariant. -/
  sound : S.Sound m
  /-- The leaves. -/
  look : ∀ w, m.look w = f w
  /-- The tables down to depth `n` are where they were. -/
  tableAt : ∀ p t, p.length ≤ n → m₀.tableAt p = some t → m.tableAt p = some t
  /-- Only tables down to depth `n` are written. -/
  changed : ChangedIn n m₀ m
  /-- `KERNEL_OFFSET` is kept. -/
  kernelOffset : m.kernelOffset = m₀.kernelOffset

theorem Stage.start (h : S.Sound m) (n : ℕ) : Stage S n m m.look m :=
  ⟨h, fun _ ↦ rfl, fun _ _ _ ht ↦ ht, fun _ hq ↦ absurd rfl hq, rfl⟩

/-- One more entry. -/
theorem Stage.remap {n k : ℕ} {va x : ℕ → UInt64} {f : UInt64 → Option (ℕ × UInt64)} {m' : Machine}
    (h : Stage S n m₀ (overlay n va x f k) m) (hs : S.Sound m')
    (hr : Remapped n (va k) (x k) m m') :
    Stage S n m₀ (overlay n va x f (k + 1)) m' where
  sound := hs
  look := by
    intro w
    rw [hr.look w, overlay, List.range_succ, latest_snoc, placed, h.look w]
    split <;> rfl
  tableAt := fun p t hp ht ↦ hr.tableAt p t hp (h.tableAt p t hp ht)
  changed := by
    intro q hq
    by_cases hq' : m'.mem q = m.mem q
    · rw [hq'] at hq
      obtain ⟨p, hp, ht⟩ := h.changed q hq
      exact ⟨p, hp, hr.tableAt p _ hp ht⟩
    · exact hr.changed q hq'
  kernelOffset := hr.kernelOffset.trans h.kernelOffset

/-- A loop that places one entry in each turn. -/
theorem Stage.loop {assume : Event → Prop} {n k : ℕ} {va x : ℕ → UInt64} {body : ℕ → Prog Unit}
    (h : S.Sound m) (hbody : ∀ i < k, ∀ m', Stage S n m (overlay n va x m.look i) m' →
      (body i).wp assume (fun _ m'' ↦ S.Sound m'' ∧ Remapped n (va i) (x i) m' m'') m') :
    (Exec.forUpTo k body).wp assume (fun _ ↦ Stage S n m (overlay n va x m.look k)) m := by
  refine Exec.wp_forUpTo (fun i ↦ Stage S n m (overlay n va x m.look i)) (Stage.start h n) ?_
  intro i hi m' hm'
  exact Exec.wp_mono (hbody i hi m' hm') fun _ m'' ⟨hs, hr⟩ ↦ hm'.remap hs hr

/-- The leaves of an overlay are old ones or at the depth of the entries placed. -/
theorem overlay_cases {n k : ℕ} {va x : ℕ → UInt64} {f : UInt64 → Option (ℕ × UInt64)} {w : UInt64}
    {l : ℕ × UInt64} (h : overlay n va x f k w = some l) : f w = some l ∨ l.1 = n := by
  rcases latest_cases (fun j ↦ placed n (va j) (x j)) (List.range k) f w with heq | ⟨j, -, hj⟩
  · exact Or.inl (heq.symm.trans h)
  · refine Or.inr ?_
    rw [show latest (fun j ↦ placed n (va j) (x j)) (List.range k) f w =
      some l from h, placed] at hj
    split at hj
    · have hl := Option.some.inj hj
      split at hl
      · exact (congrArg Prod.fst (Option.some.inj hl)).symm
      · exact absurd hl (by simp)
    · exact absurd hj (by simp)

/-- An address that no entry covers keeps its leaf. -/
theorem overlay_of_not_covered {n k : ℕ} {va x : ℕ → UInt64} {f : UInt64 → Option (ℕ × UInt64)}
    {w : UInt64} (h : ∀ j < k, ¬ (pathOf (va j)).take (n + 1) <+: pathOf w) :
    overlay n va x f k w = f w :=
  latest_of_not_covered fun j hj ↦ if_neg (h j (List.mem_range.1 hj))

/-- An address has the leaf of the entry that covers it, when no other entry says otherwise. -/
theorem overlay_of_covered {n i k : ℕ} (va x : ℕ → UInt64) {f : UInt64 → Option (ℕ × UInt64)}
    {w : UInt64} (hi : i < k) (hcov : (pathOf (va i)).take (n + 1) <+: pathOf w)
    (hsame : ∀ j < k, (pathOf (va j)).take (n + 1) <+: pathOf w → x j = x i) :
    overlay n va x f k w = if x86.leaf n (x i) then some (n, x i) else none := by
  refine latest_of_agree (List.mem_range.2 hi) (if_pos hcov) fun j hj b hb ↦ ?_
  rw [placed] at hb
  split at hb
  · next hpre =>
    rw [← Option.some.inj hb, hsame j (List.mem_range.1 hj) hpre]
  · exact absurd hb (by simp)

end Space

/-! ### The pages of a range -/

/-- `virt + i * PAGE_SIZE_4K`, page-aligned down, as page numbers. -/
theorem toNat_page (virt : UInt64) {i : ℕ} (hi : i < 2 ^ 64) :
    (virt + UInt64.ofNat i * pageSize4k).toNat = (virt.toNat + i * 4096) % 2 ^ 64 := by
  rw [UInt64.toNat_add, UInt64.toNat_mul, UInt64.toNat_ofNat_of_lt' hi]
  simp only [pageSize4k, UInt64.reduceToNat]
  omega

theorem pageOf_and_not_fff (v : UInt64) : pageOf (v &&& ~~~0xFFF) = pageOf v := by
  rw [pageOf, pageOf, Space.toNat_and_not_fff]
  omega

theorem pageOf_page (virt : UInt64) {i : ℕ} (hi : i < 2 ^ 64) :
    pageOf (virt + UInt64.ofNat i * pageSize4k) = (pageOf virt + i) % 2 ^ 36 := by
  have hlt := virt.toNat_lt
  rw [pageOf, pageOf, toNat_page virt hi]
  omega

/-- The page of turn `i` of the kernel's loops, `(virt + i * PAGE_SIZE_4K) & ~0xFFF`. -/
def rangePage (virt : UInt64) (i : ℕ) : UInt64 := (virt + UInt64.ofNat i * pageSize4k) &&& ~~~0xFFF

theorem toNat_rangePage_mod (virt : UInt64) (i : ℕ) : (rangePage virt i).toNat % 4096 = 0 := by
  rw [rangePage, Space.toNat_and_not_fff]
  omega

/-- A 4 KiB entry maps to its page. -/
theorem physical_presentRw (pa w : UInt64) :
    x86.leaf 3 (presentRw pa) = true ∧
      physical w (3, presentRw pa) = some (frameOf pa * 4096 + w.toNat % 4096) := by
  rw [leaf_bottom, physical_bottom, frameOf_presentRw]
  exact ⟨present_presentRw pa, rfl⟩

/-- How many pages an address lies above `virt`, modulo `2 ^ 48`. -/
@[irreducible] def pageDistance (virt w : UInt64) : ℕ :=
  (pageOf w + (2 ^ 36 - pageOf virt)) % 2 ^ 36

theorem pageDistance_lt (virt w : UInt64) : pageDistance virt w < 2 ^ 36 := by
  rw [pageDistance]
  exact Nat.mod_lt _ (by omega)

theorem pageOf_page_eq_iff {virt w : UInt64} {i : ℕ} (hi : i < 2 ^ 64) :
    pageOf (virt + UInt64.ofNat i * pageSize4k) = pageOf w ↔ i % 2 ^ 36 = pageDistance virt w := by
  have hv : pageOf virt < 2 ^ 36 := Nat.mod_lt _ (by omega)
  have hw : pageOf w < 2 ^ 36 := Nat.mod_lt _ (by omega)
  rw [pageOf_page virt hi, pageDistance]
  omega

theorem pageOf_rangePage_eq_iff {virt w : UInt64} {i : ℕ} (hi : i < 2 ^ 64) :
    pageOf (rangePage virt i) = pageOf w ↔ i % 2 ^ 36 = pageDistance virt w := by
  rw [rangePage, pageOf_and_not_fff, pageOf_page_eq_iff hi]

/-- The frame of a page of a physical range. -/
theorem frameOf_rangePage {phys : UInt64} {i : ℕ} (hi : phys.toNat + (i + 1) * 4096 ≤ 2 ^ 52) :
    frameOf (rangePage phys i) = phys.toNat / 4096 + i := by
  rw [rangePage, frameOf, Space.toNat_and_not_fff, toNat_page phys (by omega)]
  omega

theorem prefix_four_iff {v w : UInt64} : (pathOf v).take 4 <+: pathOf w ↔ pageOf v = pageOf w := by
  rw [List.take_of_length_le (length_pathOf v).le, ← pathOf_eq_iff]
  refine ⟨fun hpre ↦ hpre.eq_of_length rfl, fun heq ↦ heq ▸ List.prefix_rfl⟩

end Aidos.Paging
