import Aidos.Paging.BootTables
import Aidos.Stage2.Startup

/-!
# The first page tables

`setup_page_tables` of `init64.asm` stores the low halves of the entries only, into three tables
that `.clear_bss` has cleared. Behind it the first 1 GiB is mapped to itself, in pages of 2 MiB, and
nothing else is mapped (`Layout.Mapped.translate`).
-/

namespace Aidos.Stage2

open ByteMemory Paging

namespace Pc

variable {pc : Pc}

theorem bus_of_a20 (h : pc.a20 = true) (a : ℕ) : pc.bus a = a := if_pos h

theorem store32_eq (h : pc.a20 = true) (a : ℕ) (v : UInt32) :
    pc.store32 a v = { pc with mem := writeNumber pc.mem a 4 v.toNat } := by
  have hbyte (k : ℕ) (d : UInt32) (hd : d.toNat = 8 * k) (hk : k < 4) :
      (v >>> d).toUInt8 = UInt8.ofNat (v.toNat / 256 ^ k) := by
    have hpow : 256 ^ k = 2 ^ (8 * k) := by rw [Nat.pow_mul]
    refine UInt8.toNat_inj.1 ?_
    rw [UInt32.toNat_toUInt8, Words.toNat_shiftRight32 v (by omega), hd, hpow, UInt8.toNat_ofNat']
  have hzero : v.toUInt8 = UInt8.ofNat (v.toNat / 256 ^ 0) := by
    rw [Nat.pow_zero, Nat.div_one]
    exact UInt8.toNat_inj.1 (by rw [UInt32.toNat_toUInt8, UInt8.toNat_ofNat'])
  have hmem : writeNumber pc.mem a 4 v.toNat =
      Function.update (Function.update (Function.update (Function.update pc.mem
        a v.toUInt8) (a + 1) (v >>> 8).toUInt8) (a + 2) (v >>> 16).toUInt8)
        (a + 3) (v >>> 24).toUInt8 := by
    rw [hbyte 1 8 rfl (by decide), hbyte 2 16 rfl (by decide), hbyte 3 24 rfl (by decide), hzero,
      writeNumber, ← fillRun_succ, ← fillRun_succ, ← fillRun_succ, ← fillRun_succ, fillRun_zero]
    rfl
  rw [hmem, store32]
  simp only [store8, bus, h, if_true]
end Pc


/-- The symbols as the linker places them: the tables are different pages of `.bss`, which lies
below 1 MiB. -/
structure Layout extends Symbols where
  /-- `align 4096`. -/
  aligned : ∀ p ∈ [pageTableL4, pageTableL3, pageTableL2], p.toNat % 4096 = 0
  /-- The tables are in `.bss`. -/
  inBss : ∀ p ∈ [pageTableL4, pageTableL3, pageTableL2],
    bssStart.toNat ≤ p.toNat ∧ p.toNat + 4096 ≤ bssEnd.toNat
  /-- They are different. -/
  nodup : [pageTableL4, pageTableL3, pageTableL2].Nodup
  /-- `.bss` lies below 1 MiB. -/
  low : bssEnd.toNat ≤ 0x100000

namespace Layout

variable (L : Layout)

/-- The three tables. -/
def tables : List UInt32 := [L.pageTableL4, L.pageTableL3, L.pageTableL2]

/-- The entry for 2 MiB from `0x200000 * i` on. -/
def hugeEntry (i : ℕ) : UInt64 := UInt64.ofNat (0x200000 * i + 0x83)

/-- The entries that `setup_page_tables` leaves. -/
def startupEntries (p : UInt32) (i : Index) : UInt64 :=
  if p = L.pageTableL4 then if i = 0 then presentRw L.pageTableL3.toUInt64 else 0
  else if p = L.pageTableL3 then if i = 0 then presentRw L.pageTableL2.toUInt64 else 0
  else hugeEntry i

/-- During `setup_page_tables`: only the tables are written, and `e p i` is entry `i` of the table
at `p`. -/
structure Drawn (e : UInt32 → Index → UInt64) (pc₀ pc : Pc) : Prop where
  /-- Nothing but memory has changed. -/
  rest : pc = { pc₀ with mem := pc.mem }
  /-- Other frames are kept. -/
  mem : ∀ q, (∀ p ∈ L.tables, q / 4096 ≠ p.toNat / 4096) → pc.mem q = pc₀.mem q
  /-- The entries of the tables. -/
  entries : ∀ p ∈ L.tables, ∀ i, entryAt pc.mem (p.toNat / 4096) i = e p i

variable {L} {pc pc₀ : Pc} {e : UInt32 → Index → UInt64}

theorem table_frame {p : UInt32} (hp : p ∈ L.tables) :
    4096 * (p.toNat / 4096) = p.toNat ∧ p.toNat / 4096 < 256 := by
  have hal := L.aligned p hp
  have hin := L.inBss p hp
  have hlow := L.low
  omega

theorem table_frame_inj {p p' : UInt32} (hp : p ∈ L.tables) (hp' : p' ∈ L.tables)
    (h : p.toNat / 4096 = p'.toNat / 4096) : p = p' := by
  have h₁ := (table_frame hp).1
  have h₂ := (table_frame hp').1
  exact UInt32.toNat_inj.1 (by omega)

theorem Drawn.congr {e' : UInt32 → Index → UInt64} (h : L.Drawn e pc₀ pc)
    (he : ∀ p ∈ L.tables, ∀ i, e p i = e' p i) : L.Drawn e' pc₀ pc :=
  ⟨h.rest, h.mem, fun p hp i ↦ (h.entries p hp i).trans (he p hp i)⟩

/-- Storing the low half of an entry that is zero. -/
theorem Drawn.store32 (ha : pc₀.a20 = true) (h : L.Drawn e pc₀ pc) {p : UInt32} {i : Index}
    (hp : p ∈ L.tables) (hzero : e p i = 0) {a : ℕ} (hadr : a = p.toNat + 8 * i) (x : UInt32) :
    L.Drawn (fun p' j ↦ if p' = p ∧ j = i then UInt64.ofNat x.toNat else e p' j) pc₀
      (pc.store32 a x) := by
  subst hadr
  have hpc : pc.a20 = true := by rw [h.rest]; exact ha
  have hi := i.isLt
  have hframe := (table_frame hp).1
  rw [Pc.store32_eq hpc]
  refine ⟨?_, fun q hq ↦ ?_, fun p' hp' j ↦ ?_⟩
  · rw [h.rest]
  · have hne := hq p hp
    rw [← h.mem q hq]
    exact writeNumber_of_not_mem (by omega)
  · dsimp only
    by_cases heq : p' = p ∧ j = i
    · obtain ⟨rfl, rfl⟩ := heq
      rw [if_pos ⟨rfl, rfl⟩, entryAt, hframe]
      refine read64_writeNumber_of_zero ?_ x.toNat_lt
      have hold := h.entries p' hp' j
      rwa [hzero, entryAt, hframe] at hold
    · rw [if_neg heq, ← h.entries p' hp' j]
      refine read64_congr fun k hk ↦ writeNumber_of_not_mem ?_
      have hframe' := (table_frame hp').1
      have hj := j.isLt
      rcases eq_or_ne p' p with rfl | hne
      · have hij : (j : ℕ) ≠ i := fun hf ↦ heq ⟨rfl, Fin.ext hf⟩
        omega
      · have hne' : p'.toNat / 4096 ≠ p.toNat / 4096 := fun hf ↦ hne (table_frame_inj hp' hp hf)
        omega

/-! ### `setup_page_tables` -/

theorem mem_tables {p : UInt32} : p ∈ L.tables ↔ p = L.pageTableL4 ∨ p = L.pageTableL3 ∨
    p = L.pageTableL2 := by
  simp [tables]

theorem tables_ne : (L.pageTableL4 ≠ L.pageTableL3 ∧ L.pageTableL4 ≠ L.pageTableL2) ∧
    L.pageTableL3 ≠ L.pageTableL2 := by
  have h := L.nodup
  simp only [List.nodup_cons, List.mem_cons, List.not_mem_nil, or_false, not_or, not_false_eq_true,
    List.nodup_nil, and_true] at h
  exact h

theorem startupEntries_eq (i : Index) :
    L.startupEntries L.pageTableL4 i =
        (if i = 0 then presentRw L.pageTableL3.toUInt64 else 0) ∧
      L.startupEntries L.pageTableL3 i =
        (if i = 0 then presentRw L.pageTableL2.toUInt64 else 0) ∧
      L.startupEntries L.pageTableL2 i = hugeEntry i := by
  obtain ⟨⟨h₄₃, h₄₂⟩, h₃₂⟩ := L.tables_ne
  simp [startupEntries, h₄₃.symm, h₄₂.symm, h₃₂.symm]

/-- The entries behind so many turns of the loop. -/
def entriesUpTo (L : Layout) (k : ℕ) (p : UInt32) (i : Index) : UInt64 :=
  if p = L.pageTableL2 then if (i : ℕ) < k then hugeEntry i else 0 else L.startupEntries p i

theorem setupLoop_drawn (ha : pc₀.a20 = true) (n : ℕ) :
    ∀ {k : ℕ} {pc : Pc}, k + n = 512 → L.Drawn (L.entriesUpTo k) pc₀ pc →
      L.Drawn L.startupEntries pc₀ (Pc.setupLoop L.toSymbols n (UInt32.ofNat k) pc) := by
  induction n with
  | zero =>
    intro k pc hk h
    refine h.congr fun p hp i ↦ ?_
    have hi := i.isLt
    by_cases hl2 : p = L.pageTableL2
    · rw [entriesUpTo, if_pos hl2, if_pos (by omega), hl2]
      exact (L.startupEntries_eq i).2.2.symm
    · exact if_neg hl2
  | succ n ih =>
    intro k pc hk h
    have hl2 := mem_tables.2 (Or.inr (Or.inr rfl) : L.pageTableL2 = L.pageTableL4 ∨ _)
    have hin := L.inBss _ hl2
    have hlow := L.low
    have hcount : (UInt32.ofNat k).toNat = k :=
      UInt32.toNat_ofNat_of_lt' (Nat.lt_of_lt_of_le (by omega : k < 512) (by decide))
    have hadr : (L.pageTableL2 + UInt32.ofNat k * 8).toNat = L.pageTableL2.toNat + 8 * k := by
      rw [UInt32.toNat_add, UInt32.toNat_mul, hcount]
      simp only [UInt32.reduceToNat]
      omega
    have hvalue : (0x200000 * UInt32.ofNat k ||| 0x83).toNat = 0x200000 * k + 0x83 := by
      have hmul : (0x200000 * UInt32.ofNat k).toNat = 2 ^ 21 * k := by
        rw [UInt32.toNat_mul, hcount]
        simp only [UInt32.reduceToNat]
        omega
      rw [UInt32.toNat_or, hmul]
      exact (Nat.two_pow_add_eq_or_of_lt (by decide) k).symm
    have hzero : L.entriesUpTo k L.pageTableL2 ⟨k, by omega⟩ = 0 := by
      rw [entriesUpTo, if_pos rfl, if_neg (Nat.lt_irrefl k)]
    have hnext : UInt32.ofNat k + 1 = UInt32.ofNat (k + 1) := by
      refine UInt32.toNat_inj.1 ?_
      rw [UInt32.toNat_add, hcount, UInt32.toNat_one, UInt32.toNat_ofNat']
    rw [Pc.setupLoop, hnext]
    refine ih (by omega) ((h.store32 ha hl2 hzero hadr _).congr fun p hp i ↦ ?_)
    rw [hvalue, entriesUpTo, entriesUpTo]
    by_cases hp2 : p = L.pageTableL2
    · rw [if_pos hp2, if_pos hp2]
      rcases Nat.lt_trichotomy i k with hik | hik | hik
      · rw [if_neg fun hf ↦ hik.ne (congrArg Fin.val hf.2), if_pos hik, if_pos (by omega)]
      · rw [if_pos ⟨hp2, Fin.ext hik⟩, if_pos (by omega), hugeEntry, hik]
      · rw [if_neg fun hf ↦ hik.ne' (congrArg Fin.val hf.2), if_neg (by omega), if_neg (by omega)]
    · rw [if_neg fun hf ↦ hp2 hf.1, if_neg hp2, if_neg hp2]

/-- The low half of a table entry is all of it. -/
theorem ofNat_or_three (p : UInt32) : UInt64.ofNat (p ||| 3).toNat = presentRw p.toUInt64 := by
  have hlt := (p ||| 3).toNat_lt
  refine UInt64.toNat_inj.1 ?_
  rw [UInt64.toNat_ofNat_of_lt' (Nat.lt_trans hlt (by decide)), toNat_presentRw,
    UInt32.toNat_toUInt64, UInt32.toNat_or]
  rfl

/-- **`setup_page_tables`** fills tables that are zero. -/
theorem setupPageTables_drawn (ha : pc.a20 = true)
    (hzero : ∀ p ∈ L.tables, ∀ i, entryAt pc.mem (p.toNat / 4096) i = 0) :
    L.Drawn L.startupEntries pc (pc.setupPageTables L.toSymbols) := by
  obtain ⟨⟨h₄₃, h₄₂⟩, h₃₂⟩ := L.tables_ne
  have hstart : L.Drawn (fun _ _ ↦ 0) pc pc := ⟨rfl, fun _ _ ↦ rfl, hzero⟩
  have h₁ := hstart.store32 ha (p := L.pageTableL4) (i := 0) (mem_tables.2 (Or.inl rfl)) rfl rfl
    (L.pageTableL3 ||| 3)
  have h₂ := h₁.store32 ha (p := L.pageTableL3) (i := 0) (mem_tables.2 (Or.inr (Or.inl rfl)))
    (by simp [h₄₃.symm]) rfl (L.pageTableL2 ||| 3)
  have hzero' : (0 : UInt32) = UInt32.ofNat 0 := rfl
  rw [Pc.setupPageTables, hzero']
  refine setupLoop_drawn ha 512 (Nat.zero_add 512) (h₂.congr fun p hp i ↦ ?_)
  rw [ofNat_or_three, ofNat_or_three, entriesUpTo, startupEntries]
  rcases mem_tables.1 hp with rfl | rfl | rfl
  · simp [h₄₃, h₄₂]
  · simp [h₄₃.symm, h₃₂]
  · simp [h₄₂.symm, h₃₂.symm]

/-! ### What the tables map -/

/-- The first tables are in use. -/
structure Mapped (L : Layout) (m : Machine) : Prop where
  /-- The base register. -/
  cr3 : m.cr3 = L.pageTableL4.toUInt64
  /-- The entries of the tables. -/
  entries : ∀ p ∈ L.tables, ∀ i, entryAt m.mem (p.toNat / 4096) i = L.startupEntries p i

theorem hugeEntry_fields {i : ℕ} (hi : i < 512) :
    present (hugeEntry i) = true ∧ large (hugeEntry i) = true ∧
      frameOf (hugeEntry i) = 512 * i := by
  have hbase : (UInt64.ofNat (0x200000 * i)).toNat = 0x200000 * i :=
    UInt64.toNat_ofNat_of_lt' (Nat.lt_of_lt_of_le (by omega : _ < 2 ^ 30) (by decide))
  have hal : (UInt64.ofNat (0x200000 * i)).toNat % 4096 = 0 := by omega
  have hor : hugeEntry i = UInt64.ofNat (0x200000 * i) ||| 0x83 := by
    refine UInt64.toNat_inj.1 ?_
    rw [toNat_or_flags hal (by decide), hbase, hugeEntry]
    exact UInt64.toNat_ofNat_of_lt' (Nat.lt_of_lt_of_le (by omega : _ < 2 ^ 31) (by decide))
  rw [hor]
  refine ⟨(present_or_flags hal (by decide)).trans (by decide),
    (large_or_flags hal (by decide)).trans (by decide), ?_⟩
  rw [frameOf_or_flags hal (by decide), frameOf, hbase]
  omega

/-- The entry for a table points to its frame. -/
theorem child_table {p : UInt32} (hp : p ∈ L.tables) {d : ℕ} (hd : d < 3) :
    x86.child d (presentRw p.toUInt64) = some (p.toNat / 4096) := by
  have hlt := (table_frame hp).2
  have hal : p.toUInt64.toNat % 4096 = 0 := by
    rw [UInt32.toNat_toUInt64]
    exact L.aligned p hp
  obtain ⟨hpres, hsmall, hframe, -⟩ := presentRw_fields hal
  rw [child_of_pointer hpres hsmall hd, hframe, frameOf, UInt32.toNat_toUInt64,
    Nat.mod_eq_of_lt (Nat.lt_trans hlt (by decide))]

variable {m : Machine}

theorem Mapped.root (h : L.Mapped m) : m.root = L.pageTableL4.toNat / 4096 := by
  have hlt := (table_frame (mem_tables.2 (Or.inl rfl) : L.pageTableL4 ∈ L.tables)).2
  rw [Machine.root, h.cr3, frameOf, UInt32.toNat_toUInt64,
    Nat.mod_eq_of_lt (Nat.lt_trans hlt (by decide))]

/-- The entries on the way of an address. -/
theorem Mapped.entries_eq (h : L.Mapped m) (i : Index) :
    entryAt m.mem (L.pageTableL4.toNat / 4096) i =
        (if i = 0 then presentRw L.pageTableL3.toUInt64 else 0) ∧
      entryAt m.mem (L.pageTableL3.toNat / 4096) i =
        (if i = 0 then presentRw L.pageTableL2.toUInt64 else 0) ∧
      entryAt m.mem (L.pageTableL2.toNat / 4096) i = hugeEntry i := by
  rw [h.entries _ (mem_tables.2 (Or.inl rfl)), h.entries _ (mem_tables.2 (Or.inr (Or.inl rfl))),
    h.entries _ (mem_tables.2 (Or.inr (Or.inr rfl)))]
  exact L.startupEntries_eq i

/-- **The first mapping**: the first 1 GiB, in large pages. -/
theorem Mapped.look (h : L.Mapped m) (v : UInt64) :
    m.look v =
      if v.toNat % 2 ^ 48 < 2 ^ 30 then some (2, hugeEntry (index 21 v)) else none := by
  obtain ⟨he₄, -, -⟩ := h.entries_eq (index 39 v)
  obtain ⟨-, he₃, -⟩ := h.entries_eq (index 30 v)
  obtain ⟨-, -, he₂⟩ := h.entries_eq (index 21 v)
  have hval : ∀ s, (index s v = 0 ↔ v.toNat / 2 ^ s % 512 = 0) := fun s ↦ Fin.ext_iff
  rw [Machine.look, lookAt, pathOf, h.root]
  by_cases h₁ : index 39 v = 0
  swap
  · have hfar : ¬ v.toNat % 2 ^ 48 < 2 ^ 30 := by
      rw [hval] at h₁
      omega
    rw [TreeFormat.look_cons_of_none _ (by rw [he₄, if_neg h₁, child_zero]), he₄, if_neg h₁,
      leaf_zero, if_neg hfar]
    rfl
  rw [TreeFormat.look_cons_of_child _ (by
    rw [he₄, if_pos h₁]
    exact child_table (mem_tables.2 (Or.inr (Or.inl rfl))) (by omega))]
  by_cases h₂ : index 30 v = 0
  swap
  · have hfar : ¬ v.toNat % 2 ^ 48 < 2 ^ 30 := by
      rw [hval] at h₂
      omega
    rw [TreeFormat.look_cons_of_none _ (by rw [he₃, if_neg h₂, child_zero]), he₃, if_neg h₂,
      leaf_zero, if_neg hfar]
    rfl
  rw [TreeFormat.look_cons_of_child _ (by
    rw [he₃, if_pos h₂]
    exact child_table (mem_tables.2 (Or.inr (Or.inr rfl))) (by omega))]
  obtain ⟨hpres, hlarge, -⟩ := hugeEntry_fields (index 21 v).isLt
  have hnear : v.toNat % 2 ^ 48 < 2 ^ 30 := by
    rw [hval] at h₁ h₂
    omega
  rw [TreeFormat.look_cons_of_none _ (by rw [he₂, child_of_large hlarge]), he₂,
    leaf_of_large hlarge, hpres, if_pos hnear, if_pos rfl]

/-- It maps them to themselves. -/
theorem Mapped.walk (h : L.Mapped m) (v : UInt64) :
    m.walk v = if v.toNat % 2 ^ 48 < 2 ^ 30 then some (v.toNat % 2 ^ 48) else none := by
  have hlook := h.look v
  rw [Machine.look] at hlook
  rw [Machine.walk, walkTo, hlook]
  by_cases hnear : v.toNat % 2 ^ 48 < 2 ^ 30
  · obtain ⟨-, -, hframe⟩ := hugeEntry_fields (index 21 v).isLt
    have hreserved : 512 * (index 21 v : ℕ) / 2 % 2 ^ 8 = 0 := by omega
    rw [if_pos hnear, if_pos hnear, Option.bind_some, physical, leafPage, hframe, if_pos hreserved,
      Option.map_some]
    refine congrArg some ?_
    dsimp only
    rw [toNat_index]
    omega
  · rw [if_neg hnear, if_neg hnear]
    rfl

theorem Mapped.translate (h : L.Mapped m) (v : UInt64) :
    m.translate v = if v.toNat < 2 ^ 30 then some v.toNat else none := by
  have hv := v.toNat_lt
  rw [Machine.translate, h.walk]
  by_cases hcanonical : Canonical v
  · rw [if_pos hcanonical]
    rw [Canonical] at hcanonical
    by_cases hnear : v.toNat < 2 ^ 30
    · have hmod : v.toNat % 2 ^ 48 = v.toNat := by omega
      rw [if_pos hnear, hmod, if_pos hnear]
    · rw [if_neg hnear, if_neg (by omega)]
  · rw [if_neg hcanonical, if_neg]
    rw [Canonical] at hcanonical
    omega

/-- Its tables are the three of the start-up code. -/
theorem Mapped.exists_table (h : L.Mapped m) {t : ℕ} (ht : m.IsTable t) :
    ∃ p ∈ L.tables, t = p.toNat / 4096 := by
  obtain ⟨path, hpath⟩ := ht
  have hmem : (path, t) ∈ [([], L.pageTableL4.toNat / 4096), ([0], L.pageTableL3.toNat / 4096),
      (([0, 0] : List Index), L.pageTableL2.toNat / 4096)] := by
    refine TreeFormat.mem_of_closed (F := x86) ?_ ?_ hpath
    · rw [h.root]
      exact List.mem_cons_self
    · intro a ha i s hs
      obtain ⟨he₄, he₃, he₂⟩ := h.entries_eq i
      simp only [List.mem_cons, List.not_mem_nil, or_false] at ha
      rcases ha with rfl | rfl | rfl
      · rw [he₄] at hs
        by_cases hi : i = 0
        · rw [if_pos hi] at hs
          have hc := child_table (mem_tables.2 (Or.inr (Or.inl rfl)) : L.pageTableL3 ∈ L.tables)
            (d := 0) (by omega)
          obtain rfl := Option.some.inj (hc.symm.trans hs)
          simp [hi]
        · rw [if_neg hi, child_zero] at hs
          exact absurd hs (by simp)
      · rw [he₃] at hs
        by_cases hi : i = 0
        · rw [if_pos hi] at hs
          have hc := child_table (mem_tables.2 (Or.inr (Or.inr rfl)) : L.pageTableL2 ∈ L.tables)
            (d := 1) (by omega)
          obtain rfl := Option.some.inj (hc.symm.trans hs)
          simp [hi]
        · rw [if_neg hi, child_zero] at hs
          exact absurd hs (by simp)
      · rw [he₂, child_of_large (hugeEntry_fields i.isLt).2.1] at hs
        exact absurd hs (by simp)
  simp only [List.mem_cons, Prod.mk.injEq, List.not_mem_nil, or_false] at hmem
  rcases hmem with ⟨-, rfl⟩ | ⟨-, rfl⟩ | ⟨-, rfl⟩
  · exact ⟨_, mem_tables.2 (Or.inl rfl), rfl⟩
  · exact ⟨_, mem_tables.2 (Or.inr (Or.inl rfl)), rfl⟩
  · exact ⟨_, mem_tables.2 (Or.inr (Or.inr rfl)), rfl⟩

end Layout
end Aidos.Stage2
