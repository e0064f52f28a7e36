import Mathlib.Data.List.Basic
import Aidos.Library.Words
import Aidos.Stage2.BootInfo

/-!
# The memory map of stage 2

`detect_memory_map` of `init16.asm`, and the two loops that read what it leaves: the one that prints
the map, in the same file, and the search of `stage2_main` for a region that takes the kernel.

The BIOS is not part of the repository. Its answers are a sequence, one to each INT 15h: it succeeds
with the carry flag clear and its signature in `eax`, and then it has stored an entry of 24 bytes at
`es:di`. `bp` and the segment registers it leaves alone.

`Describes` is what the map should be: the entries reported, one after another, in the 2048 bytes
set apart for them, their number behind them, and no entry read that was not reported. The loop
stops when the BIOS says so and looks at no bound of its own; and `loop` counts zero entries as
65536. `storesMap_iff` is the exact condition.
-/

namespace Aidos.Stage2

open ByteMemory

/-! ### Collecting the entries -/

/-- What INT 15h answers. -/
structure Answer where
  /-- The entry: its first 24 bytes count. -/
  entry : ℕ → UInt8
  /-- The carry flag: set on failure. -/
  carry : Bool
  /-- `eax`: the signature. -/
  eax : UInt32
  /-- `ebx`: what to continue with, zero after the last entry. -/
  ebx : UInt32

/-- `"SMAP"`. -/
def smap : UInt32 := 0x534D4150

/-- The BIOS succeeds. -/
def Answer.Accepted (a : Answer) : Prop := a.carry = false ∧ a.eax = smap

instance (a : Answer) : Decidable a.Accepted :=
  inferInstanceAs (Decidable (a.carry = false ∧ a.eax = smap))

/-- The state of the loop. -/
structure MapState where
  /-- `es`. -/
  es : UInt16
  /-- `di`. -/
  di : UInt16
  /-- `bp`: entries so far. -/
  bp : UInt16
  /-- `ebx`. -/
  ebx : UInt32
  /-- The bytes in memory. -/
  mem : ℕ → UInt8
  /-- Calls answered so far. -/
  calls : ℕ
  /-- Where entries have been stored, newest first. -/
  stored : List ℕ

/-- `int 0x15`. -/
def MapState.int15 (bios : ℕ → Answer) (m : MapState) : MapState :=
  let answer := bios m.calls
  if answer.Accepted then
    { m with
      ebx := answer.ebx
      mem := fillRun m.mem (linear m.es m.di) answer.entry 24
      calls := m.calls + 1
      stored := linear m.es m.di :: m.stored }
  else { m with ebx := answer.ebx, calls := m.calls + 1 }

/-- One pass from `.next_entry`: the state after it, and whether it goes back there. -/
def MapState.nextEntry (bios : ℕ → Answer) (m : MapState) : Bool × MapState :=
  let answer := bios m.calls
  let m := m.int15 bios
  if answer.carry then (false, m)
  else if answer.eax ≠ smap then (false, m)
  else
    let m := { m with di := m.di + 24, bp := m.bp + 1 }
    (m.ebx ≠ 0, m)

/-- At most `n` passes: the state after them, and whether there are more to come. -/
def MapState.passes (bios : ℕ → Answer) : ℕ → MapState → Bool × MapState
  | 0, m => (true, m)
  | n + 1, m =>
    match m.nextEntry bios with
    | (true, m) => m.passes bios n
    | (false, m) => (false, m)

/-- What `detect_memory_map` enters the loop with. -/
def mapStart (img : Image) : MapState where
  es := img.bootInfo >>> 4
  di := img.bootInfo &&& 0xF
  bp := 0
  ebx := 0
  mem := img.mem
  calls := 0
  stored := []

/-- `detect_memory_map`: the memory on return, unless the loop takes more than `fuel` passes. -/
def detectMemoryMap (img : Image) (bios : ℕ → Answer) (fuel : ℕ) : Option (ℕ → UInt8) :=
  match (mapStart img).passes bios fuel with
  | (true, _) => none
  | (false, m) =>
    -- the count takes four bytes, and `bp` has two
    some (writeNumber m.mem (img.bootInfo.toNat + memMapCountOffset) 2 m.bp.toNat)

/-! ### Reading them -/

/-- `.loop_start`, with `cx` and `bx`: where it reads, and how many bytes each time. It counts `cx`
down to zero, so `65536` iterations are enough. -/
def printLoop : ℕ → UInt16 → UInt16 → List (ℕ × ℕ)
  | 0, _, _ => []
  | fuel + 1, cx, bx =>
    -- the base and the length, upper half first, then the type
    [((bx + 4).toNat, 4), (bx.toNat, 4), ((bx + 8 + 4).toNat, 4), ((bx + 8).toNat, 4),
      ((bx + 8 + 8).toNat, 2), ((bx + 8 + 8 + 2).toNat, 2)] ++
    if cx - 1 = 0 then [] else printLoop fuel (cx - 1) (bx + 8 + 8 + 8)

/-- What the printing loop reads of the map. -/
def printReads (img : Image) (mem : ℕ → UInt8) : List (ℕ × ℕ) :=
  printLoop 65536 (UInt16.ofNat (littleEndian mem 2 (img.bootInfo.toNat + memMapCountOffset)))
    img.bootInfo

/-- `boot_info.mem_map[i].Base`. -/
def regionBase (img : Image) (mem : ℕ → UInt8) (i : ℕ) : ℕ :=
  littleEndian mem 8 (img.bootInfo.toNat + 24 * i)

/-- `boot_info.mem_map[i].Length`. -/
def regionLength (img : Image) (mem : ℕ → UInt8) (i : ℕ) : ℕ :=
  littleEndian mem 8 (img.bootInfo.toNat + 24 * i + 8)

/-- `boot_info.mem_map[i].type`. -/
def regionType (img : Image) (mem : ℕ → UInt8) (i : ℕ) : ℕ :=
  littleEndian mem 4 (img.bootInfo.toNat + 24 * i + 16)

/-- The search of `stage2_main`, from `i` on with `n` entries left: `kernelStart` and
`memoryMapIndex`, if they are set, and what it reads. -/
def searchFrom (img : Image) (mem : ℕ → UInt8) : ℕ → ℕ → Option (ℕ × UInt8) × List (ℕ × ℕ)
  | 0, _ => (none, [])
  | n + 1, i =>
    let entry := img.bootInfo.toNat + 24 * i
    let rest := searchFrom img mem n (i + 1)
    if 0x100000 ≤ regionBase img mem i then
      if 0x100000 ≤ regionLength img mem i then
        if regionType img mem i = 1 then
          (some (regionBase img mem i, UInt8.ofNat i),
            [(entry, 8), (entry + 8, 8), (entry + 16, 4)])
        else (rest.1, [(entry, 8), (entry + 8, 8), (entry + 16, 4)] ++ rest.2)
      else (rest.1, [(entry, 8), (entry + 8, 8)] ++ rest.2)
    else (rest.1, (entry, 8) :: rest.2)

/-- The search of `stage2_main` for the region that takes the kernel. -/
def regionSearch (img : Image) (mem : ℕ → UInt8) : Option (ℕ × UInt8) × List (ℕ × ℕ) :=
  searchFrom img mem (littleEndian mem 4 (img.bootInfo.toNat + memMapCountOffset)) 0

/-! ### What the map should be -/

/-- The BIOS reports `n` entries: after the last there is nothing to continue with, or the next call
fails. -/
structure Reports (bios : ℕ → Answer) (n : ℕ) : Prop where
  /-- It succeeds `n` times. -/
  accepted : ∀ k < n, (bios k).Accepted
  /-- After an entry that is not the last there is more. -/
  more : ∀ k, k + 1 < n → (bios k).ebx ≠ 0
  /-- Then it is through. -/
  last : (∃ k, n = k + 1 ∧ (bios k).ebx = 0) ∨ ¬(bios n).Accepted

/-- A read that stays within one of the first `n` entries. -/
def WithinEntries (img : Image) (n : ℕ) (r : ℕ × ℕ) : Prop :=
  ∃ k < n, img.bootInfo.toNat + 24 * k ≤ r.1 ∧ r.1 + r.2 ≤ img.bootInfo.toNat + 24 * (k + 1)

/-- A memory describes the first `n` answers. -/
structure Describes (img : Image) (bios : ℕ → Answer) (n : ℕ) (mem : ℕ → UInt8) : Prop where
  /-- The entries are there, in order and without gaps. -/
  entries : ∀ k < n, ∀ i < 24, mem (img.bootInfo.toNat + 24 * k + i) = (bios k).entry i
  /-- The count is theirs. -/
  count : littleEndian mem 4 (img.bootInfo.toNat + memMapCountOffset) = n
  /-- The rest is as it was. -/
  frame : ∀ q, q < img.bootInfo.toNat ∨ img.bootInfo.toNat + rsdpAddrOffset ≤ q → mem q = img.mem q
  /-- The printing loop reads nothing else. -/
  print : ∀ r ∈ printReads img mem, WithinEntries img n r
  /-- Nor does the search. -/
  search : ∀ r ∈ (regionSearch img mem).2, WithinEntries img n r

/-- **`detect_memory_map` stores the map**: it stores nothing outside the array, and on return the
memory describes the entries reported. -/
structure StoresMap (img : Image) (bios : ℕ → Answer) : Prop where
  /-- Entries are stored in the array only. -/
  inside : ∀ n, ∀ p ∈ ((mapStart img).passes bios n).2.stored,
    img.bootInfo.toNat ≤ p ∧ p + 24 ≤ img.bootInfo.toNat + memMapCountOffset
  /-- It returns with the map. -/
  returns : ∃ n fuel mem, Reports bios n ∧ detectMemoryMap img bios fuel = some mem ∧
    Describes img bios n mem

/-! ### The loop of `detect_memory_map` -/

variable {img : Image} {bios : ℕ → Answer}

/-- The first `n` answers are entries, with more to come after each. -/
def GoesOn (bios : ℕ → Answer) (n : ℕ) : Prop := ∀ k < n, (bios k).Accepted ∧ (bios k).ebx ≠ 0

theorem Reports.unique {n n' : ℕ} (h : Reports bios n) (h' : Reports bios n') : n = n' := by
  have hle : ∀ {n n'}, Reports bios n → Reports bios n' → n' ≤ n := by
    intro n n' h h'
    refine Nat.le_of_not_lt fun hlt ↦ ?_
    rcases h.last with ⟨k, rfl, hebx⟩ | hnot
    · exact h'.more k hlt hebx
    · exact hnot (h'.accepted n hlt)
  exact Nat.le_antisymm (hle h' h) (hle h h')

theorem Reports.not_goesOn {n : ℕ} (h : Reports bios n) : ¬GoesOn bios (n + 1) := by
  intro hgoes
  rcases h.last with ⟨k, rfl, hebx⟩ | hnot
  · exact (hgoes k (by omega)).2 hebx
  · exact hnot (hgoes n (Nat.lt_succ_self n)).1

theorem GoesOn.succ {n : ℕ} (h : GoesOn bios n) (haccepted : (bios n).Accepted)
    (hebx : (bios n).ebx ≠ 0) : GoesOn bios (n + 1) := by
  intro k hk
  rcases Nat.lt_succ_iff_lt_or_eq.1 hk with hlt | rfl
  · exact h k hlt
  · exact ⟨haccepted, hebx⟩

theorem GoesOn.le_of_reports {n N : ℕ} (h : GoesOn bios n) (hN : Reports bios N) : n ≤ N :=
  Nat.le_of_not_lt fun hlt ↦ hN.not_goesOn fun k hk ↦ h k (Nat.lt_of_lt_of_le hk hlt)

/-- The bytes of the entries, one entry after another. -/
def entryBytes (bios : ℕ → Answer) (i : ℕ) : UInt8 := (bios (i / 24)).entry (i % 24)

/-- `n` entries have been collected. -/
structure Collected (img : Image) (bios : ℕ → Answer) (n : ℕ) (m : MapState) : Prop where
  /-- `es:di` is behind them. -/
  di : linear m.es m.di = img.bootInfo.toNat + 24 * n
  /-- The offset has not wrapped. -/
  offset : m.di.toNat < 24 * n + 16
  /-- They are counted. -/
  bp : m.bp.toNat = n
  /-- They are in memory. -/
  mem : m.mem = fillRun img.mem img.bootInfo.toNat (entryBytes bios) (24 * n)
  /-- They have been stored in order. -/
  stored : m.stored = ((List.range n).map (img.bootInfo.toNat + 24 * ·)).reverse

theorem collected_mapStart (img : Image) (bios : ℕ → Answer) :
    Collected img bios 0 (mapStart img) where
  di := by
    have hes : (img.bootInfo >>> 4).toNat = img.bootInfo.toNat / 2 ^ 4 :=
      Words.toNat_shiftRight16 _ (by decide)
    rw [mapStart, linear, hes, Words.toNat_and_mask16 (k := 4) rfl]
    omega
  offset := by
    rw [mapStart, Words.toNat_and_mask16 (k := 4) rfl]
    omega
  bp := rfl
  mem := (fillRun_zero _ _ _).symm
  stored := rfl

/-- A pass that gets an entry. -/
theorem Collected.nextEntry {n : ℕ} {m : MapState} (h : Collected img bios n m)
    (hcalls : m.calls = n) (hroom : 24 * (n + 1) + 16 ≤ 65536) (haccepted : (bios n).Accepted) :
    ∃ m', m.nextEntry bios = (decide ((bios n).ebx ≠ 0), m') ∧ Collected img bios (n + 1) m' ∧
      m'.calls = n + 1 := by
  have hint : m.int15 bios =
      { m with
        ebx := (bios n).ebx
        mem := fillRun m.mem (linear m.es m.di) (bios n).entry 24
        calls := n + 1
        stored := linear m.es m.di :: m.stored } := by
    rw [MapState.int15, hcalls, if_pos haccepted]
  have hnext : m.nextEntry bios =
      (decide ((bios n).ebx ≠ 0),
        { m.int15 bios with di := m.di + 24, bp := m.bp + 1 }) := by
    rw [MapState.nextEntry, hcalls, if_neg (by rw [haccepted.1]; exact Bool.false_ne_true),
      if_neg (not_not.2 haccepted.2), hint]
  refine ⟨_, hnext, ?_, by rw [hint]⟩
  have hoffset := h.offset
  have hlit : (24 : UInt16).toNat = 24 := rfl
  have hone : (1 : UInt16).toNat = 1 := rfl
  have hbp := h.bp
  rw [hint]
  exact
    { di := by
        rw [linear_add (by omega), h.di, hlit, Nat.add_assoc]
        omega
      offset := by
        rw [toNat_add_of_lt (by omega), hlit]
        omega
      bp := by rw [toNat_add_of_lt (by omega), hbp, hone]
      mem := by
        rw [h.mem, h.di, fillRun_append (k := 24)]
        · rfl
        · intro i hi
          have hdiv : (24 * n + i) / 24 = n := by omega
          have hmod : (24 * n + i) % 24 = i := by omega
          rw [entryBytes, hdiv, hmod]
      stored := by
        rw [h.stored, h.di, List.range_succ, List.map_append, List.reverse_append]
        rfl }

/-- A pass that gets none. -/
theorem Collected.nextEntry_of_not {n : ℕ} {m : MapState} (h : Collected img bios n m)
    (hcalls : m.calls = n) (hnot : ¬(bios n).Accepted) :
    ∃ m', m.nextEntry bios = (false, m') ∧ Collected img bios n m' := by
  have hint : m.int15 bios = { m with ebx := (bios n).ebx, calls := n + 1 } := by
    rw [MapState.int15, hcalls, if_neg hnot]
  refine ⟨m.int15 bios, ?_, ?_⟩
  · rw [MapState.nextEntry, hcalls]
    split
    · rfl
    · next hcarry =>
      rw [if_pos fun heax ↦ hnot ⟨Bool.eq_false_iff.2 hcarry, heax⟩]
  · rw [hint]
    exact ⟨h.di, h.offset, h.bp, h.mem, h.stored⟩

/-- **What the loop has collected** after any number of passes, short of the offset wrapping. -/
theorem Collected.passes {n : ℕ} : ∀ {k : ℕ} {m : MapState}, Collected img bios k m →
    m.calls = k → GoesOn bios k → 24 * (k + n) + 16 ≤ 65536 →
    ∃ j more m', m.passes bios n = (more, m') ∧ j ≤ k + n ∧ Collected img bios j m' ∧
      (more = true → j = k + n ∧ GoesOn bios j) ∧ (more = false → Reports bios j) := by
  induction n with
  | zero =>
    intro k m h _ hgoes _
    exact ⟨k, true, m, rfl, Nat.le_refl k, h, fun _ ↦ ⟨rfl, hgoes⟩, nofun⟩
  | succ n ih =>
    intro k m h hcalls hgoes hroom
    rcases Decidable.em (bios k).Accepted with haccepted | hnot
    · obtain ⟨m', hnext, h', hcalls'⟩ := h.nextEntry hcalls (by omega) haccepted
      rcases Decidable.em ((bios k).ebx = 0) with hebx | hebx
      · refine ⟨k + 1, false, m', ?_, by omega, h', nofun, fun _ ↦ ?_⟩
        · rw [MapState.passes, hnext, decide_eq_false (not_not.2 hebx)]
        · refine ⟨fun i hi ↦ ?_, fun i hi ↦ (hgoes i (by omega)).2, Or.inl ⟨k, rfl, hebx⟩⟩
          rcases Nat.lt_succ_iff_lt_or_eq.1 hi with hlt | rfl
          · exact (hgoes i hlt).1
          · exact haccepted
      · obtain ⟨j, more, m'', hpasses, hj, hcollected, hmore, hdone⟩ :=
          ih h' hcalls' (hgoes.succ haccepted hebx) (by omega)
        refine ⟨j, more, m'', ?_, by omega, hcollected, fun htrue ↦ ?_, hdone⟩
        · rw [MapState.passes, hnext, decide_eq_true hebx]
          exact hpasses
        · have hcount := hmore htrue
          exact ⟨by omega, hcount.2⟩
    · obtain ⟨m', hnext, h'⟩ := h.nextEntry_of_not hcalls hnot
      refine ⟨k, false, m', by rw [MapState.passes, hnext], by omega, h', nofun, fun _ ↦ ?_⟩
      exact ⟨fun i hi ↦ (hgoes i hi).1, fun i hi ↦ (hgoes i (by omega)).2, Or.inr hnot⟩

/-- From the entry of the loop. -/
theorem passes_mapStart (img : Image) (bios : ℕ → Answer) {n : ℕ} (hroom : 24 * n + 16 ≤ 65536) :
    ∃ j more m, (mapStart img).passes bios n = (more, m) ∧ j ≤ n ∧ Collected img bios j m ∧
      (more = true → j = n ∧ GoesOn bios j) ∧ (more = false → Reports bios j) := by
  have hpasses := (collected_mapStart img bios).passes (n := n) rfl
    (fun k hk ↦ absurd hk (Nat.not_lt_zero k)) (by rwa [Nat.zero_add])
  rwa [Nat.zero_add] at hpasses

/-- More passes change nothing once the loop is through. -/
theorem passes_of_le {n n' : ℕ} (hle : n ≤ n') : ∀ {m m' : MapState},
    m.passes bios n = (false, m') → m.passes bios n' = (false, m') := by
  induction n generalizing n' with
  | zero => nofun
  | succ n ih =>
    intro m m' h
    obtain ⟨n', rfl⟩ := Nat.exists_eq_add_of_le' (Nat.le_of_lt_succ (Nat.lt_succ_of_le hle))
    rw [MapState.passes] at h
    rw [← Nat.add_assoc, MapState.passes]
    split at h
    · next hnext => exact ih (by omega) h
    · exact h

/-! ### What is read -/

/-- The printing loop reads as many entries as `cx` says. -/
theorem within_printLoop {fuel n : ℕ} : ∀ {cx bx : UInt16}, cx.toNat = n + 1 → n < fuel →
    bx.toNat + 24 * (n + 1) < 65536 → ∀ r ∈ printLoop fuel cx bx,
      ∃ k < n + 1, bx.toNat + 24 * k ≤ r.1 ∧ r.1 + r.2 ≤ bx.toNat + 24 * (k + 1) := by
  induction fuel generalizing n with
  | zero => exact fun _ hn ↦ absurd hn (Nat.not_lt_zero n)
  | succ fuel ih =>
    intro cx bx hcx hn hroom r hr
    have h2 : (2 : UInt16).toNat = 2 := rfl
    have h4 : (4 : UInt16).toNat = 4 := rfl
    have h8 : (8 : UInt16).toNat = 8 := rfl
    have hat4 : (bx + 4).toNat = bx.toNat + 4 := toNat_add_of_lt (by omega)
    have hat8 : (bx + 8).toNat = bx.toNat + 8 := toNat_add_of_lt (by omega)
    have hat12 : (bx + 8 + 4).toNat = bx.toNat + 12 := by rw [toNat_add_of_lt] <;> omega
    have hat16 : (bx + 8 + 8).toNat = bx.toNat + 16 := by rw [toNat_add_of_lt] <;> omega
    have hat18 : (bx + 8 + 8 + 2).toNat = bx.toNat + 18 := by rw [toNat_add_of_lt] <;> omega
    have hat24 : (bx + 8 + 8 + 8).toNat = bx.toNat + 24 := by rw [toNat_add_of_lt] <;> omega
    have hpred : (cx - 1).toNat = n := by
      have hone : (1 : UInt16).toNat = 1 := rfl
      rw [UInt16.toNat_sub_of_le _ _ (UInt16.le_iff_toNat_le.2 (by omega)), hone]
      omega
    rw [printLoop, hat4, hat8, hat12, hat16, hat18] at hr
    rcases List.mem_append.1 hr with hr | hr
    · refine ⟨0, Nat.succ_pos n, ?_⟩
      simp only [List.mem_cons, List.not_mem_nil, or_false] at hr
      rcases hr with rfl | rfl | rfl | rfl | rfl | rfl <;> exact ⟨by omega, by omega⟩
    · split at hr
      · exact absurd hr List.not_mem_nil
      · next hne =>
        obtain ⟨n, rfl⟩ := Nat.exists_eq_succ_of_ne_zero
          fun hzero ↦ hne (UInt16.toNat_inj.1 (hpred.trans hzero))
        obtain ⟨k, hk, hlow, hhigh⟩ := ih hpred (by omega) (by omega) r hr
        exact ⟨k + 1, by omega, by omega, by omega⟩

/-- The search reads in one entry, and goes on with the next. -/
theorem mem_searchFrom {mem : ℕ → UInt8} {n i : ℕ} {r : ℕ × ℕ}
    (hr : r ∈ (searchFrom img mem (n + 1) i).2) :
    r ∈ [(img.bootInfo.toNat + 24 * i, 8), (img.bootInfo.toNat + 24 * i + 8, 8),
        (img.bootInfo.toNat + 24 * i + 16, 4)] ∨ r ∈ (searchFrom img mem n (i + 1)).2 := by
  rw [searchFrom] at hr
  split at hr
  · split at hr
    · split at hr
      · exact Or.inl hr
      · exact List.mem_append.1 hr
    · exact (List.mem_append.1 hr).imp_left
        (List.mem_append_left [(img.bootInfo.toNat + 24 * i + 16, 4)])
  · exact (List.mem_cons.1 hr).imp_left fun heq ↦ List.mem_cons.2 (Or.inl heq)

/-- The search reads no more entries than there are. -/
theorem within_searchFrom {mem : ℕ → UInt8} {n : ℕ} : ∀ {i : ℕ},
    ∀ r ∈ (searchFrom img mem n i).2, WithinEntries img (i + n) r := by
  induction n with
  | zero => exact fun r hr ↦ absurd hr List.not_mem_nil
  | succ n ih =>
    intro i r hr
    rcases mem_searchFrom hr with hhead | hrest
    · refine ⟨i, by omega, ?_⟩
      simp only [List.mem_cons, List.not_mem_nil, or_false] at hhead
      rcases hhead with rfl | rfl | rfl <;> exact ⟨by omega, by omega⟩
    · obtain ⟨k, hk, hwithin⟩ := ih r hrest
      exact ⟨k, by omega, hwithin⟩

/-! ### When the map is right -/

/-- The memory with `n` entries and their count. -/
def mapMem (img : Image) (bios : ℕ → Answer) (n : ℕ) : ℕ → UInt8 :=
  writeNumber (fillRun img.mem img.bootInfo.toNat (entryBytes bios) (24 * n))
    (img.bootInfo.toNat + memMapCountOffset) 2 n

/-- The loop is through with `n` entries. -/
theorem Reports.detectMemoryMap {n : ℕ} (h : Reports bios n) (img : Image) (hroom : n ≤ 85) :
    detectMemoryMap img bios (n + 1) = some (mapMem img bios n) := by
  obtain ⟨j, more, m, hpasses, hj, hcollected, hmore, hdone⟩ :=
    passes_mapStart img bios (n := n + 1) (by omega)
  cases more with
  | true =>
    obtain ⟨hcount, hgoes⟩ := hmore rfl
    exact absurd (hgoes.le_of_reports h) (by omega)
  | false =>
    obtain rfl : j = n := (hdone rfl).unique h
    simp only [Stage2.detectMemoryMap, hpasses, hcollected.mem, hcollected.bp, mapMem]

/-- At any time, only the entries reported have been stored. -/
theorem Reports.stored {n N : ℕ} (hN : Reports bios N) (hroom : N ≤ 85) :
    ∀ p ∈ ((mapStart img).passes bios n).2.stored, ∃ k < N, p = img.bootInfo.toNat + 24 * k := by
  have hstart : ∀ n ≤ N + 1,
      ∀ p ∈ ((mapStart img).passes bios n).2.stored, ∃ k < N, p = img.bootInfo.toNat + 24 * k := by
    intro n hn p hp
    obtain ⟨j, more, m, hpasses, hj, hcollected, hmore, hdone⟩ :=
      passes_mapStart img bios (n := n) (by omega)
    have hjN : j ≤ N := by
      cases more with
      | true => exact (hmore rfl).2.le_of_reports hN
      | false => exact Nat.le_of_eq ((hdone rfl).unique hN)
    rw [hpasses, hcollected.stored, List.mem_reverse, List.mem_map] at hp
    obtain ⟨k, hk, rfl⟩ := hp
    exact ⟨k, Nat.lt_of_lt_of_le (List.mem_range.1 hk) hjN, rfl⟩
  rcases Nat.le_total n (N + 1) with hle | hge
  · exact hstart n hle
  · have hend : ((mapStart img).passes bios n).2 = ((mapStart img).passes bios (N + 1)).2 := by
      have hsome := hN.detectMemoryMap img hroom
      rw [Stage2.detectMemoryMap] at hsome
      split at hsome
      · cases hsome
      · next m hpasses => rw [hpasses, passes_of_le hge hpasses]
    rw [hend]
    exact hstart (N + 1) (Nat.le_refl _)

/-- A BIOS that has more than 85 entries has the 86th stored, over what is behind the array. -/
theorem exists_stored_of_not_reports (h : ¬∃ n, Reports bios n ∧ n ≤ 85) :
    img.bootInfo.toNat + 24 * 85 ∈ ((mapStart img).passes bios 86).2.stored := by
  obtain ⟨j, more, m, hpasses, hj, hcollected, hmore, hdone⟩ :=
    passes_mapStart img bios (n := 86) (by omega)
  have hcount : 85 < j := by
    cases more with
    | true => exact Nat.lt_of_lt_of_eq (by omega) (hmore rfl).1.symm
    | false => exact Nat.lt_of_not_le fun hle ↦ h ⟨j, hdone rfl, hle⟩
  rw [hpasses, hcollected.stored, List.mem_reverse, List.mem_map]
  exact ⟨85, List.mem_range.2 hcount, rfl⟩

theorem mapMem_of_not_mem {n q : ℕ} (hroom : n ≤ 85) (hq : q < img.bootInfo.toNat ∨
    img.bootInfo.toNat + memMapCountOffset + 2 ≤ q) : mapMem img bios n q = img.mem q := by
  rw [memMapCountOffset] at hq
  rw [mapMem, memMapCountOffset, writeNumber_of_not_mem (by omega), fillRun_of_not_mem (by omega)]

/-- The lower half of the count. -/
theorem littleEndian_mapMem {n : ℕ} (hroom : n ≤ 85) :
    littleEndian (mapMem img bios n) 2 (img.bootInfo.toNat + memMapCountOffset) = n := by
  rw [mapMem, littleEndian_writeNumber]
  omega

/-- The memory on return describes the entries. -/
theorem describes_of_le {n : ℕ} (hpos : 1 ≤ n) (hroom : n ≤ 85) :
    Describes img bios n (mapMem img bios n) := by
  -- the upper half of the count is as the file has it
  have hupper : littleEndian (mapMem img bios n) 2 (img.bootInfo.toNat + memMapCountOffset + 2) =
      littleEndian img.mem 2 (img.bootInfo.toNat + memMapCountOffset + 2) :=
    littleEndian_congr fun i hi ↦ mapMem_of_not_mem hroom (Or.inr (by omega))
  have hcount : littleEndian (mapMem img bios n) 4 (img.bootInfo.toNat + memMapCountOffset) =
      n := by
    have hzero := img.count
    rw [littleEndian_add _ 2 2] at hzero
    rw [littleEndian_add _ 2 2, littleEndian_mapMem hroom, hupper]
    omega
  have hfits := img.fits
  refine ⟨fun k hk i hi ↦ ?_, hcount, fun q hq ↦ mapMem_of_not_mem hroom ?_, fun r hr ↦ ?_,
    fun r hr ↦ ?_⟩
  · have hdiv : (24 * k + i) / 24 = k := by omega
    have hmod : (24 * k + i) % 24 = i := by omega
    rw [mapMem, memMapCountOffset, writeNumber_of_not_mem (by omega), Nat.add_assoc,
      fillRun_of_mem (by omega), entryBytes, hdiv, hmod]
  · rw [rsdpAddrOffset] at hq
    rw [memMapCountOffset]
    omega
  · rw [printReads, littleEndian_mapMem hroom] at hr
    have hcx : (UInt16.ofNat n).toNat = n - 1 + 1 := by
      rw [UInt16.toNat_ofNat']
      omega
    obtain ⟨k, hk, hwithin⟩ := within_printLoop hcx (by omega) (by omega) r hr
    exact ⟨k, by omega, hwithin⟩
  · rw [regionSearch, hcount] at hr
    have hwithin := within_searchFrom r hr
    rwa [Nat.zero_add] at hwithin

theorem StoresMap.exists_reports (h : StoresMap img bios) : ∃ n, Reports bios n ∧ n ≤ 85 := by
  by_contra hmore
  have hinside := h.inside 86 _ (exists_stored_of_not_reports hmore)
  rw [memMapCountOffset] at hinside
  omega

/-- **When `detect_memory_map` stores the map**: exactly when the BIOS reports at least one entry,
and at most 85. -/
theorem storesMap_iff (img : Image) (bios : ℕ → Answer) :
    StoresMap img bios ↔ ∃ n, Reports bios n ∧ 1 ≤ n ∧ n ≤ 85 := by
  constructor
  · intro h
    obtain ⟨n, fuel, mem, hreports, -, hdescribes⟩ := h.returns
    obtain ⟨N, hN, hle⟩ := h.exists_reports
    obtain rfl : n = N := hreports.unique hN
    refine ⟨n, hreports, Nat.pos_of_ne_zero fun hzero ↦ ?_, hle⟩
    -- the printing loop reads an entry at least
    obtain ⟨k, hk, -⟩ := hdescribes.print _ List.mem_cons_self
    omega
  · rintro ⟨n, hreports, hpos, hroom⟩
    refine ⟨fun m p hp ↦ ?_, n, n + 1, _, hreports, hreports.detectMemoryMap img hroom,
      describes_of_le hpos hroom⟩
    obtain ⟨k, hk, rfl⟩ := hreports.stored hroom p hp
    rw [memMapCountOffset]
    omega

/-- Stage 2 with `boot_info` at a given offset, and zeros around it. -/
def zeroImage : Image where
  bootInfo := 0xB000
  fits := by decide
  mem := fun _ ↦ 0
  count := rfl

/-- A BIOS with 86 entries, each of them empty. -/
def longMap (k : ℕ) : Answer where
  entry := fun _ ↦ 0
  carry := false
  eax := smap
  ebx := if k = 85 then 0 else 1

/-- The 86th goes over the count. -/
theorem not_storesMap_longMap : ¬StoresMap zeroImage longMap := by
  intro h
  have hreports : Reports longMap 86 :=
    { accepted := fun _ _ ↦ ⟨rfl, rfl⟩
      more := fun k hk ↦ by
        rw [longMap, if_neg (by omega)]
        decide
      last := Or.inl ⟨85, rfl, rfl⟩ }
  obtain ⟨n, hn, hle⟩ := h.exists_reports
  have hcount := hreports.unique hn
  omega

/-! ### The region for the kernel -/

/-- A region above the first megabyte, of at least a megabyte, that may be used. -/
def usable (img : Image) (mem : ℕ → UInt8) (i : ℕ) : Bool :=
  0x100000 ≤ regionBase img mem i ∧ 0x100000 ≤ regionLength img mem i ∧ regionType img mem i = 1

theorem searchFrom_fst (img : Image) (mem : ℕ → UInt8) (n i : ℕ) :
    (searchFrom img mem n i).1 =
      ((List.range' i n).find? (usable img mem)).map
        fun k ↦ (regionBase img mem k, UInt8.ofNat k) := by
  induction n generalizing i with
  | zero => rfl
  | succ n ih =>
    rw [searchFrom, List.range'_succ, List.find?_cons, usable]
    by_cases hbase : 0x100000 ≤ regionBase img mem i
    · by_cases hlength : 0x100000 ≤ regionLength img mem i
      · by_cases htype : regionType img mem i = 1
        · simp [hbase, hlength, htype]
        · simp [hbase, hlength, htype, ih]
      · simp [hbase, hlength, ih]
    · simp [hbase, ih]

/-- **The search takes the first usable region** of a map that describes the answers. -/
theorem Describes.regionSearch {n : ℕ} {mem : ℕ → UInt8} (h : Describes img bios n mem) :
    (regionSearch img mem).1 =
      ((List.range n).find? (usable img mem)).map
        fun k ↦ (regionBase img mem k, UInt8.ofNat k) := by
  rw [Stage2.regionSearch, h.count, searchFrom_fst, List.range_eq_range']

end Aidos.Stage2
