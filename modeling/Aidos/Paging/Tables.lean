import Aidos.Library.ByteMemory
import Aidos.Library.TableTree
import Aidos.Library.Words

/-!
# Page tables and the hardware walk

The four-level translation of x86-64 as the processor performs it on physical memory. A table is
named by the number of its frame (its physical address divided by 4096); entry `i` of a table is the
64-bit word at offset `8 * i`. The depth of a table is 0 for the PML4, 1 for a
page-directory-pointer table, 2 for a page directory and 3 for a page table.

An entry above depth 3 points to a table when it is present and `PAGE_PSE` is clear. With `PAGE_PSE`
set it ends the walk: at depth 1 and 2 it maps a 1 GiB or a 2 MiB page, and at depth 0 the bit is
reserved, so that the access faults. The frame number of an entry is its bits 12 to 51 (the widest
physical address the architecture allows); in a large page the bits of it below the page size are
reserved, apart from bit 12. Access rights are not modelled: the programs run in ring 0 with
`CR0.WP` clear, where a present page can always be read and written.
-/

namespace Aidos.Paging

open ByteMemory Words

/-- `PAGE_PRESENT`. -/
def pagePresent : UInt64 := 1

/-- `PAGE_RW`. -/
def pageRw : UInt64 := 2

/-- `PAGE_PSE`. -/
def pagePse : UInt64 := 0x80

/-- `PAGE_SIZE_4K`. -/
def pageSize4k : UInt64 := 0x1000

/-- `PAGE_SIZE_2M`. -/
def pageSize2m : UInt64 := 0x200000

/-- The index of an entry in its table. -/
abbrev Index : Type := Fin 512

/-- Tables have entries. -/
instance neZero_entries : NeZero 512 := ⟨by decide⟩

/-- Whether an entry has `PAGE_PRESENT`. -/
def present (e : UInt64) : Bool := e &&& pagePresent != 0

/-- Whether an entry has `PAGE_PSE`. -/
def large (e : UInt64) : Bool := e &&& pagePse != 0

/-- The frame number in bits 12 to 51 of an entry. -/
def frameOf (e : UInt64) : ℕ := e.toNat / 4096 % 2 ^ 40

/-- `x | PAGE_PRESENT | PAGE_RW`. -/
def presentRw (x : UInt64) : UInt64 := x ||| pagePresent ||| pageRw

/-- How the processor reads the entries of a four-level tree. -/
def x86 : TreeFormat ℕ UInt64 where
  child d e := if present e ∧ d < 3 ∧ ¬ large e then some (frameOf e) else none
  leaf d e := present e && !(decide (d < 3) && !large e)
  leaf_of_child := by
    intro d e t h
    split at h
    · next hc => simp [hc.1, hc.2.1, hc.2.2]
    · exact absurd h (by simp)

/-- Entry `i` of the table in frame `f`. -/
def entryAt (mem : ℕ → UInt8) (f : ℕ) (i : Index) : UInt64 := read64 mem (4096 * f + 8 * i)

/-- The nine bits of an address that index the tables of one depth. -/
def index (shift : ℕ) (v : UInt64) : Index := ⟨v.toNat / 2 ^ shift % 512, Nat.mod_lt _ (by omega)⟩

/-- The indices of an address, from the PML4 down. -/
def pathOf (v : UInt64) : List Index := [index 39 v, index 30 v, index 21 v, index 12 v]

/-- The page a leaf maps to, as its size and its physical address, for a leaf of depth `d`; `none`
where a reserved bit is set. -/
def leafPage : ℕ × UInt64 → Option (ℕ × ℕ)
  | (3, e) => some (2 ^ 12, frameOf e * 2 ^ 12)
  | (2, e) => if frameOf e / 2 % 2 ^ 8 = 0 then some (2 ^ 21, frameOf e / 2 ^ 9 * 2 ^ 21) else none
  | (1, e) =>
    if frameOf e / 2 % 2 ^ 17 = 0 then some (2 ^ 30, frameOf e / 2 ^ 18 * 2 ^ 30) else none
  | _ => none

/-- The physical address a leaf gives to `v`. -/
def physical (v : UInt64) (l : ℕ × UInt64) : Option ℕ :=
  (leafPage l).map fun page ↦ page.2 + v.toNat % page.1

/-- The leaf on the path of an address, with its depth. -/
def lookAt (mem : ℕ → UInt8) (root : ℕ) (v : UInt64) : Option (ℕ × UInt64) :=
  x86.look (entryAt mem) 0 root (pathOf v)

/-- **The hardware walk** from the PML4 in frame `root`: the physical address of a virtual address,
taken modulo `2 ^ 48`. -/
def walkTo (mem : ℕ → UInt8) (root : ℕ) (v : UInt64) : Option ℕ :=
  (lookAt mem root v).bind (physical v)

/-- The addresses a processor accepts: the lower and the upper half. -/
def Canonical (v : UInt64) : Prop := v.toNat < 2 ^ 47 ∨ 2 ^ 64 - 2 ^ 47 ≤ v.toNat

instance (v : UInt64) : Decidable (Canonical v) := inferInstanceAs (Decidable (_ ∨ _))

/-- The memory in which entry `i` of the table in frame `f` is `e f i`. -/
def ofEntries (e : ℕ → ℕ → UInt64) : ℕ → UInt8 := ofWords fun w ↦ e (w / 512) (w % 512)

theorem entryAt_ofEntries (e : ℕ → ℕ → UInt64) (f : ℕ) (i : Index) :
    entryAt (ofEntries e) f i = e f i := by
  have hi := i.isLt
  have hword : 4096 * f + 8 * (i : ℕ) = 8 * (512 * f + i) := by omega
  have hdiv : (512 * f + (i : ℕ)) / 512 = f := by omega
  have hmod : (512 * f + (i : ℕ)) % 512 = i := by omega
  rw [entryAt, ofEntries, hword, read64_ofWords, hdiv, hmod]

/-- Where the entries of a frame agree, its bytes do. -/
theorem mem_eq_of_entries {mem mem' : ℕ → UInt8} {q : ℕ}
    (h : ∀ i, entryAt mem (q / 4096) i = entryAt mem' (q / 4096) i) : mem q = mem' q := by
  have hsplit : 4096 * (q / 4096) + 8 * (q % 4096 / 8) + q % 8 = q := by omega
  have hword := h ⟨q % 4096 / 8, by omega⟩
  rw [← hsplit]
  exact eq_of_read64_eq hword (Nat.mod_lt q (by omega))

/-! ### Flag bits under an aligned address -/

theorem toNat_or_flags {x f : UInt64} (hx : x.toNat % 4096 = 0) (hf : f.toNat < 4096) :
    (x ||| f).toNat = x.toNat + f.toNat := by
  have hq : x.toNat = 2 ^ 12 * (x.toNat / 4096) := by omega
  rw [UInt64.toNat_or, hq, Nat.two_pow_add_eq_or_of_lt hf]

theorem and_low {e m : UInt64} (hm : m.toNat < 4096) :
    e &&& m = UInt64.ofNat (e.toNat % 4096) &&& m := by
  have he : e.toNat % 4096 < 2 ^ 64 := by omega
  refine UInt64.toNat_inj.1 ?_
  rw [UInt64.toNat_and, UInt64.toNat_and, UInt64.toNat_ofNat_of_lt' he]
  refine Nat.eq_of_testBit_eq fun i ↦ ?_
  have hpow : 4096 = 2 ^ 12 := rfl
  rw [hpow] at hm ⊢
  rw [Nat.testBit_and, Nat.testBit_and, Nat.testBit_mod_two_pow]
  rcases Nat.lt_or_ge i 12 with hi | hi
  · simp [hi]
  · have hzero : m.toNat.testBit i = false :=
      Nat.testBit_lt_two_pow (Nat.lt_of_lt_of_le hm (Nat.pow_le_pow_right (by omega) hi))
    simp [hzero]

theorem present_or_flags {x f : UInt64} (hx : x.toNat % 4096 = 0) (hf : f.toNat < 4096) :
    present (x ||| f) = present f := by
  have hlow : (x.toNat + f.toNat) % 4096 = f.toNat := by omega
  rw [present, present, and_low (by decide), toNat_or_flags hx hf, hlow, UInt64.ofNat_toNat]

theorem large_or_flags {x f : UInt64} (hx : x.toNat % 4096 = 0) (hf : f.toNat < 4096) :
    large (x ||| f) = large f := by
  have hlow : (x.toNat + f.toNat) % 4096 = f.toNat := by omega
  rw [large, large, and_low (by decide), toNat_or_flags hx hf, hlow, UInt64.ofNat_toNat]

theorem frameOf_or_flags {x f : UInt64} (hx : x.toNat % 4096 = 0) (hf : f.toNat < 4096) :
    frameOf (x ||| f) = frameOf x := by
  have hdiv : (x.toNat + f.toNat) / 4096 = x.toNat / 4096 := by omega
  rw [frameOf, frameOf, toNat_or_flags hx hf, hdiv]

theorem toNat_presentRw (x : UInt64) : (presentRw x).toNat = x.toNat ||| 3 := by
  rw [presentRw, UInt64.toNat_or, UInt64.toNat_or, Nat.or_assoc]
  rfl

theorem frameOf_presentRw (x : UInt64) : frameOf (presentRw x) = frameOf x := by
  have hshift : (x.toNat ||| 3) / 2 ^ 12 = x.toNat / 2 ^ 12 := by
    rw [← Nat.shiftRight_eq_div_pow, Nat.shiftRight_or_distrib, Nat.shiftRight_eq_div_pow,
      Nat.shiftRight_eq_div_pow]
    exact Nat.or_zero _
  rw [frameOf, frameOf, toNat_presentRw]
  exact congrArg (· % 2 ^ 40) hshift

/-- The flag bits of a 4 KiB entry: those of the address beside `PAGE_PRESENT` and `PAGE_RW`. -/
theorem presentRw_mod (x : UInt64) : (presentRw x).toNat % 4096 = x.toNat % 4096 ||| 3 := by
  rw [toNat_presentRw]
  exact Nat.or_mod_two_pow (n := 12)

theorem present_presentRw (x : UInt64) : present (presentRw x) = true := by
  have hbit : ((presentRw x) &&& pagePresent).toNat = 1 := by
    rw [UInt64.toNat_and, toNat_presentRw]
    show (x.toNat ||| 3) &&& 1 = 1
    rw [Nat.and_one_is_mod]
    rcases Nat.mod_two_eq_zero_or_one x.toNat with h | h <;> simp [h]
  rw [present, bne_iff_ne]
  intro hzero
  rw [hzero] at hbit
  exact absurd hbit (by decide)

/-- What the processor sees of an aligned address with `PAGE_PRESENT` and `PAGE_RW`. -/
theorem presentRw_fields {x : UInt64} (hx : x.toNat % 4096 = 0) :
    present (presentRw x) = true ∧ large (presentRw x) = false ∧ frameOf (presentRw x) = frameOf x ∧
      (presentRw x).toNat = x.toNat + 3 := by
  have hflags : presentRw x = x ||| 3 := UInt64.or_assoc x pagePresent pageRw
  refine ⟨present_presentRw x, ?_, frameOf_presentRw x, ?_⟩
  · rw [hflags]
    exact large_or_flags hx (by decide)
  · rw [hflags]
    exact toNat_or_flags hx (by decide)

theorem frameOf_lt (e : UInt64) : frameOf e < 2 ^ 40 := Nat.mod_lt _ (by omega)

@[simp] theorem child_zero (d : ℕ) : x86.child d 0 = none := rfl

@[simp] theorem leaf_zero (d : ℕ) : x86.leaf d 0 = false := rfl

theorem child_of_pointer {d : ℕ} {e : UInt64} (hp : present e = true) (hl : large e = false)
    (hd : d < 3) : x86.child d e = some (frameOf e) := by
  simp [x86, hp, hl, hd]

theorem child_eq_some {d t : ℕ} {e : UInt64} (h : x86.child d e = some t) :
    present e = true ∧ d < 3 ∧ large e = false ∧ t = frameOf e := by
  simp only [x86] at h
  split at h
  · next hc => exact ⟨hc.1, hc.2.1, by simpa using hc.2.2, (Option.some.inj h).symm⟩
  · exact absurd h (by simp)

theorem child_of_not_present {d : ℕ} {e : UInt64} (hp : present e = false) :
    x86.child d e = none := by
  simp [x86, hp]

theorem leaf_of_not_present {d : ℕ} {e : UInt64} (hp : present e = false) :
    x86.leaf d e = false := by
  simp [x86, hp]

theorem child_bottom (e : UInt64) : x86.child 3 e = none := by simp [x86]

theorem leaf_bottom (e : UInt64) : x86.leaf 3 e = present e := by simp [x86]

theorem child_of_large {d : ℕ} {e : UInt64} (hl : large e = true) : x86.child d e = none := by
  simp [x86, hl]

theorem leaf_of_large {d : ℕ} {e : UInt64} (hl : large e = true) : x86.leaf d e = present e := by
  simp [x86, hl]

/-! ### Paths -/

/-- The number of the page of an address, modulo `2 ^ 48`. -/
def pageOf (v : UInt64) : ℕ := v.toNat / 4096 % 2 ^ 36

@[simp] theorem length_pathOf (v : UInt64) : (pathOf v).length = 4 := rfl

theorem length_take_pathOf (v : UInt64) {n : ℕ} (hn : n ≤ 4) : ((pathOf v).take n).length = n := by
  rw [List.length_take, length_pathOf, Nat.min_eq_left hn]

theorem pathOf_eq_iff {v w : UInt64} : pathOf v = pathOf w ↔ pageOf v = pageOf w := by
  simp only [pathOf, index, pageOf, List.cons.injEq, Fin.mk.injEq, and_true]
  omega

/-- The first three indices of an address determine its 2 MiB page. -/
theorem prefix_pathOf_iff {v w : UInt64} :
    (pathOf v).take 3 <+: pathOf w ↔ pageOf v / 512 = pageOf w / 512 := by
  simp only [pathOf, index, pageOf, List.take_succ_cons, List.take_zero, List.cons_prefix_cons,
    List.nil_prefix, Fin.mk.injEq, and_true]
  omega

theorem toNat_index {s : ℕ} {v : UInt64} : (index s v : ℕ) = v.toNat / 2 ^ s % 512 := rfl

/-- The index computation of the source, `(va >> s) & 0x1FF`. -/
theorem toNat_shift_and {s : UInt64} {v : UInt64} (hs : s.toNat < 64) :
    ((v >>> s) &&& 0x1FF).toNat = index s.toNat v := by
  have hmask : (0x1FF : UInt64).toNat = 2 ^ 9 - 1 := rfl
  rw [UInt64.toNat_and, UInt64.toNat_shiftRight, hmask, Nat.and_two_pow_sub_one_eq_mod,
    Nat.mod_eq_of_lt hs, Nat.shiftRight_eq_div_pow]
  rfl

/-! ### Physical addresses -/

/-- The shape of a page: its size is a multiple of 4 KiB, it is aligned to it, and it lies in the
physical address space. -/
theorem leafPage_shape {l : ℕ × UInt64} {size base : ℕ} (h : leafPage l = some (size, base)) :
    (size = 2 ^ 12 ∨ size = 2 ^ 21 ∨ size = 2 ^ 30) ∧ base % size = 0 ∧ base + size ≤ 2 ^ 52 := by
  obtain ⟨d, e⟩ := l
  have hf := frameOf_lt e
  match d with
  | 3 =>
    obtain ⟨rfl, rfl⟩ := Prod.mk.inj (Option.some.inj h)
    exact ⟨Or.inl rfl, by omega, by omega⟩
  | 2 =>
    rw [leafPage] at h
    split at h
    · obtain ⟨rfl, rfl⟩ := Prod.mk.inj (Option.some.inj h)
      exact ⟨Or.inr (Or.inl rfl), by omega, by omega⟩
    · exact absurd h (by simp)
  | 1 =>
    rw [leafPage] at h
    split at h
    · obtain ⟨rfl, rfl⟩ := Prod.mk.inj (Option.some.inj h)
      exact ⟨Or.inr (Or.inr rfl), by omega, by omega⟩
    · exact absurd h (by simp)
  | 0 | _ + 4 => exact absurd h (by simp [leafPage])

theorem physical_eq_some {v : UInt64} {l : ℕ × UInt64} {p : ℕ} (h : physical v l = some p) :
    ∃ size base, leafPage l = some (size, base) ∧ p = base + v.toNat % size := by
  obtain ⟨⟨size, base⟩, hpage, rfl⟩ := Option.map_eq_some_iff.1 h
  exact ⟨size, base, hpage, rfl⟩

theorem physical_bottom (v e : UInt64) :
    physical v (3, e) = some (frameOf e * 4096 + v.toNat % 4096) := rfl

/-- Translation moves whole pages and keeps the offset in the page. -/
theorem physical_page {v w : UInt64} (hvw : v.toNat / 4096 = w.toNat / 4096)
    {l : ℕ × UInt64} {p : ℕ}
    (h : physical v l = some p) :
    p % 4096 = v.toNat % 4096 ∧ physical w l = some (p / 4096 * 4096 + w.toNat % 4096) := by
  obtain ⟨size, base, hpage, rfl⟩ := physical_eq_some h
  obtain ⟨hsize, hbase, -⟩ := leafPage_shape hpage
  rw [physical, hpage, Option.map_some, Option.some_inj]
  dsimp only
  rcases hsize with rfl | rfl | rfl <;> constructor <;> omega

theorem physical_lt {v : UInt64} {l : ℕ × UInt64} {p : ℕ} (h : physical v l = some p) :
    p < 2 ^ 52 := by
  obtain ⟨size, base, hpage, rfl⟩ := physical_eq_some h
  obtain ⟨hsize, -, hend⟩ := leafPage_shape hpage
  rcases hsize with rfl | rfl | rfl <;> omega

end Aidos.Paging
