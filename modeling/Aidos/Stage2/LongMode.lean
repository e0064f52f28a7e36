import Aidos.Paging.MixedPages
import Aidos.Stage2.FirstTables

/-!
# The way to `long_start`

Where a run of `start16_32` ends (`Pc.start16_32_ends`): at `long_start` on a machine with a long
mode whose A20 line is on or can be switched on, and otherwise in one of the two routines `error`,
without having touched paging. At `long_start` the machine is as `setup_paging` needs it, so the
second stage arrives at the page tables of its C++ code (`start_setupPaging`).
-/

namespace Aidos.Stage2

open ByteMemory Paging

/-! ### Bits -/

/-- Bits that are in the mask that was set. -/
theorem or_and_eq {w : ℕ} {x m b : BitVec w} (h : m &&& b = b) : (x ||| m) &&& b = b := by
  refine BitVec.eq_of_getLsbD_eq fun i hi ↦ ?_
  have hbit := congrArg (fun y : BitVec w ↦ y.getLsbD i) h
  simp only [BitVec.getLsbD_and, BitVec.getLsbD_or] at hbit ⊢
  rw [Bool.and_or_distrib_right, hbit]
  cases x.getLsbD i <;> cases b.getLsbD i <;> rfl

/-- Bits that are kept apart from those that are replaced. -/
theorem keep_bits (x m : UInt32) :
    (x ^^^ m) &&& ~~~m ||| x &&& m = x ∧ x &&& ~~~m ||| x &&& m = x := by
  constructor <;>
  · refine UInt32.toBitVec_inj.1 (BitVec.eq_of_getLsbD_eq fun i hi ↦ ?_)
    simp [hi]
    cases x.toBitVec[i] <;> cases m.toBitVec[i] <;> rfl
namespace Pc

variable {pc : Pc} {hw : Hardware}

/-! ### The A20 line -/

/-- **`check_a20`** tells whether the line is on, and leaves memory as it was. -/
theorem checkA20_eq (pc : Pc) : pc.checkA20 = (if pc.a20 then 1 else 0, pc) := by
  have hlow : linear 0 0x0500 = 1280 := rfl
  have hhigh : linear 0xFFFF 0x0510 = 1049856 := rfl
  obtain ⟨mem, a20, _, _, _, _, _, _, _, _, _, _, _⟩ := pc
  cases a20 with
  | true =>
    have hne : (1280 : ℕ) ≠ 1049856 := by decide
    simp only [checkA20, load8, store8, bus, hlow, hhigh, if_true, Function.update_self,
      Function.update_idem, Function.update_comm hne]
    simp
  | false =>
    simp [checkA20, load8, store8, bus, hlow, hhigh]

/-- The line can be had: it is on, or the port switches it on. -/
def A20Available (hw : Hardware) (pc : Pc) : Prop :=
  pc.a20 = true ∨ hw.fastA20 = true ∧ pc.port92 &&& 2 = 0
/-! ### Clearing `.bss` -/

@[simp] theorem a20_store8 (a : ℕ) (v : UInt8) : (pc.store8 a v).a20 = pc.a20 := rfl

theorem mem_store8 (h : pc.a20 = true) (a : ℕ) (v : UInt8) :
    (pc.store8 a v).mem = Function.update pc.mem a v := by
  rw [store8, bus_of_a20 h]

/-- **`.clear_bss`** clears the bytes up to the end, and nothing else. -/
theorem clearBss_eq (edi : UInt32) (pc : Pc) (h : pc.a20 = true) (hle : pc.esi ≤ edi) :
    clearBss edi pc =
      { pc with
        mem := fillRun pc.mem pc.esi.toNat (fun _ ↦ 0) (edi.toNat - pc.esi.toNat)
        esi := edi } := by
  induction pc using clearBss.induct edi with
  | case1 pc hend =>
    have heq : pc.esi = edi := UInt32.le_antisymm hle hend
    rw [clearBss, if_pos hend, heq, Nat.sub_self, fillRun_zero, ← heq]
  | case2 pc hmore ih =>
    have hlt : pc.esi.toNat < edi.toNat := by
      rw [UInt32.le_iff_toNat_le] at hmore
      omega
    have hedi := edi.toNat_lt
    have hsucc : (pc.esi + 1).toNat = pc.esi.toNat + 1 := by
      rw [UInt32.toNat_add, UInt32.toNat_one]
      omega
    have hle' : pc.esi + 1 ≤ edi := by
      rw [UInt32.le_iff_toNat_le, hsucc]
      omega
    rw [clearBss, if_neg hmore, ih h hle']
    dsimp only
    rw [hsucc, mem_store8 h]
    congr 1
    funext q
    by_cases hq : q = pc.esi.toNat
    · subst hq
      rw [fillRun_of_not_mem (by omega), Function.update_self, fillRun, if_pos (by omega)]
    · rw [fillRun, fillRun, Function.update_of_ne hq]
      exact if_congr (by omega) rfl rfl
/-! ### The checks of the processor -/

/-- **`check_cpuid`** tells whether bit 21 can be changed, and leaves EFLAGS as they were. -/
theorem checkCpuid_eq (pc : Pc) :
    pc.checkCpuid hw = (if hw.idToggles then 0x00200000 else 0, pc) := by
  obtain ⟨hkeep, hsame⟩ := keep_bits pc.eflags 0x00200000
  rw [checkCpuid]
  dsimp only [popfd]
  cases hw.idToggles with
  | true =>
    simp only [if_true]
    rw [UInt32.xor_comm, ← UInt32.xor_assoc, UInt32.xor_self, UInt32.zero_xor, UInt32.and_self]
  | false => simp [hkeep, hsame]

theorem checkLong_iff : checkLong hw = true ↔
    0x80000001 ≤ (hw.cpuid 0x80000000).1 ∧ (hw.cpuid 0x80000001).2 &&& 0x20000000 ≠ 0 := by
  have hbit : (1 : UInt32) <<< 29 = 0x20000000 := by decide
  rw [checkLong]
  dsimp only
  rw [hbit]
  split
  · next hlt => simp [UInt32.not_le.2 hlt]
  · next hge => simp [UInt32.not_lt.1 hge]
end Pc

/-! ### The run -/

/-- A text in memory: its characters, and a zero behind them. -/
def TextAt (mem : ℕ → UInt8) (a : ℕ) (text : List UInt8) : Prop :=
  (∀ i (h : i < text.length), mem (a + i) = text[i] ∧ text[i] ≠ 0) ∧ mem (a + text.length) = 0

theorem TextAt.head {mem : ℕ → UInt8} {a : ℕ} {c : UInt8} {text : List UInt8}
    (h : TextAt mem a (c :: text)) : mem a = c ∧ c ≠ 0 := h.1 0 (Nat.succ_pos _)

theorem TextAt.tail {mem : ℕ → UInt8} {a : ℕ} {c : UInt8} {text : List UInt8}
    (h : TextAt mem a (c :: text)) : TextAt mem (a + 1) text := by
  refine ⟨fun i hi ↦ ?_, ?_⟩
  · rw [Nat.add_assoc, Nat.add_comm 1]
    exact h.1 (i + 1) (Nat.succ_lt_succ hi)
  · rw [Nat.add_assoc, Nat.add_comm 1]
    exact h.2

namespace Pc

variable {pc : Pc} {hw : Hardware}

/-- Below 1 MiB the A20 line does not matter. -/
theorem load8_of_low {a : ℕ} (ha : a < 2 ^ 20) : pc.load8 a = pc.mem a := by
  rw [load8, bus]
  split
  · rfl
  · have hlow : a % 2 ^ 20 + a / 2 ^ 21 * 2 ^ 21 = a := by omega
    rw [hlow]

/-- **`print_char`** prints a text. -/
theorem printChar_eq (text : List UInt8) :
    ∀ {n : ℕ} {si : UInt16} {pc : Pc}, text.length < n → si.toNat + text.length < 65536 →
      TextAt pc.mem si.toNat text →
      printChar si n pc = some { pc with output := pc.output ++ text } := by
  have hlow (pc : Pc) (si : UInt16) : pc.load8 (linear 0 si) = pc.mem si.toNat := by
    have hsi := si.toNat_lt
    have hlinear : linear 0 si = si.toNat := by simp [linear]
    rw [hlinear]
    exact load8_of_low (Nat.lt_trans hsi (by decide))
  induction text with
  | nil =>
    intro n si pc hn _ h
    obtain ⟨n, rfl⟩ := Nat.exists_eq_succ_of_ne_zero (Nat.ne_of_gt hn)
    have hzero : pc.mem si.toNat = 0 := h.2
    rw [printChar, hlow, if_pos hzero, List.append_nil]
  | cons c text ih =>
    intro n si pc hn hsi h
    rw [List.length_cons] at hn hsi
    obtain ⟨n, rfl⟩ := Nat.exists_eq_succ_of_ne_zero (Nat.ne_of_gt (Nat.zero_lt_of_lt hn))
    have hnext : (si + 1).toNat = si.toNat + 1 := by
      rw [UInt16.toNat_add, UInt16.toNat_one]
      omega
    obtain ⟨hchar, hne⟩ := h.head
    rw [printChar, hlow, hchar, if_neg hne, ih (by omega) (by omega) (hnext ▸ h.tail),
      List.append_assoc]
    rfl

end Pc

/-- The message to a processor without a long mode. -/
def Symbols.complaint (sym : Symbols) (hw : Hardware) : UInt16 :=
  if hw.idToggles then sym.longmodeError else sym.cpuidErr

/-- The machine at `long_start`, and what it was at the start. -/
structure AtLongStart (L : Layout) (pc₀ pc : Pc) : Prop where
  /-- It executes 64-bit code, with paging. -/
  runs64 : pc.Runs64
  /-- The A20 line is on. -/
  a20 : pc.a20 = true
  /-- Interrupts are off. -/
  interrupts : pc.eflags &&& 0x200 = 0
  /-- The tables of the code are in use. -/
  cr3 : pc.cr3 = L.pageTableL4
  /-- Their entries. -/
  entries : ∀ p ∈ L.tables, ∀ i, entryAt pc.mem (p.toNat / 4096) i = L.startupEntries p i
  /-- The rest of `.bss` is cleared. -/
  cleared : ∀ q, L.bssStart.toNat ≤ q → q < L.bssEnd.toNat →
    (∀ p ∈ L.tables, q / 4096 ≠ p.toNat / 4096) → pc.mem q = 0
  /-- Other memory is kept. -/
  kept : ∀ q, q < L.bssStart.toNat ∨ L.bssEnd.toNat ≤ q → pc.mem q = pc₀.mem q
  /-- Nothing is printed. -/
  output : pc.output = pc₀.output

/-- The machine in the 32-bit `error`, and what it was at the start. -/
structure AtError32 (L : Layout) (message : UInt16) (pc₀ pc : Pc) : Prop where
  /-- Paging and long mode are as they were. -/
  unpaged : pc.cr0 = pc₀.cr0 ||| 1 ∧ pc.cr3 = pc₀.cr3 ∧ pc.cr4 = pc₀.cr4 ∧ pc.efer = pc₀.efer
  /-- The A20 line is on. -/
  a20 : pc.a20 = true
  /-- Half of the pointer to the message is still that of `__end`. -/
  esi : pc.esi = L.bssEnd &&& 0xFFFF0000 ||| message.toUInt32
  /-- `.bss` is cleared, and other memory kept. -/
  mem : pc.mem =
    fillRun pc₀.mem L.bssStart.toNat (fun _ ↦ 0) (L.bssEnd.toNat - L.bssStart.toNat)

namespace Pc

variable {pc : Pc} {hw : Hardware} {L : Layout}

/-- The machine behind `.clear_bss`. -/
def cleared (pc : Pc) (L : Layout) : Pc :=
  { pc with
    gdt := gdt32, cr0 := pc.cr0 ||| 1, cs := 0x00CF9A000000FFFF, ds := 0x00CF92000000FFFF
    mem := fillRun pc.mem L.bssStart.toNat (fun _ ↦ 0) (L.bssEnd.toNat - L.bssStart.toNat)
    esi := L.bssEnd }

theorem bssStart_le (L : Layout) : L.bssStart ≤ L.bssEnd := by
  have hin := L.inBss L.pageTableL4 (by simp)
  rw [UInt32.le_iff_toNat_le]
  omega

theorem jmpFar_gdt32 (h : pc.gdt = gdt32) :
    pc.jmpFar 0x08 = some { pc with cs := 0x00CF9A000000FFFF } := by
  rw [jmpFar, h]
  rfl

theorem loadSegments_gdt32 (h : pc.gdt = gdt32) :
    pc.loadSegments 0x10 = some { pc with ds := 0x00CF92000000FFFF } := by
  rw [loadSegments, h]
  rfl

theorem jmpFar_gdt64 (h : pc.gdt = gdt64) :
    pc.jmpFar 0x08 = some { pc with cs := 0x00209A000000FFFF } := by
  rw [jmpFar, h]
  rfl

theorem protectedStart_eq (ha : pc.a20 = true) :
    pc.protectedStart hw L.toSymbols = (pc.cleared L).start32_64 hw L.toSymbols := by
  rw [protectedStart, jmpFar_gdt32 rfl]
  dsimp only
  rw [loadSegments_gdt32 rfl]
  dsimp only
  refine congrArg (fun pc : Pc ↦ pc.start32_64 hw L.toSymbols) ?_
  exact clearBss_eq L.bssEnd _ ha (bssStart_le L)

/-- What is written to the port asks for the line. -/
theorem asks_a20 (v : UInt8) : ((v ||| 2) &&& 0xFE) &&& 2 = 2 := by
  have hmask : (0xFE : UInt8) &&& 2 = 2 := by decide
  rw [UInt8.and_assoc, hmask]
  exact UInt8.toBitVec_inj.1 (or_and_eq (by decide))

/-- Either the A20 line can be had, or it cannot. -/
theorem start16_32_eq (sym : Symbols) :
    (A20Available hw pc → ∃ v, pc.start16_32 hw sym =
      { pc.cli with a20 := true, port92 := v }.protectedStart hw sym) ∧
    (¬ A20Available hw pc → ∃ v, pc.start16_32 hw sym =
      { pc.cli with a20 := false, port92 := v }.error16 sym sym.a20Err) := by
  have hcli : pc.cli.a20 = pc.a20 := rfl
  have hport : pc.cli.port92 = pc.port92 := rfl
  rw [start16_32, A20Available]
  dsimp only
  rw [checkA20_eq, hcli, hport]
  dsimp only
  cases ha : pc.a20 with
  | true =>
    refine ⟨fun _ ↦ ⟨pc.port92, ?_⟩, fun h ↦ absurd (Or.inl rfl) h⟩
    rw [if_pos (if_pos rfl), ← ha]
    rfl
  | false =>
    have hno : ¬ (if (false : Bool) = true then (1 : UInt16) else 0) = 1 := by decide
    rw [if_neg hno, checkA20_eq]
    by_cases hset : pc.port92 &&& 2 = 0
    · -- the port is written, and the line follows if the machine lets it
      rw [if_neg (not_not.2 hset)]
      have hout : pc.cli.out92 hw ((pc.port92 ||| 2) &&& 0xFE) =
          { pc.cli with a20 := hw.fastA20, port92 := (pc.port92 ||| 2) &&& 0xFE } := by
        rw [out92, asks_a20, hcli, ha]
        cases hw.fastA20 <;> rfl
      rw [hout]
      cases hw.fastA20 with
      | true =>
        refine ⟨fun _ ↦ ⟨(pc.port92 ||| 2) &&& 0xFE, ?_⟩, fun h ↦ absurd (Or.inr ⟨rfl, hset⟩) h⟩
        rw [if_pos (if_pos rfl)]
      | false =>
        refine ⟨fun h ↦ absurd h (by simp), fun _ ↦ ⟨(pc.port92 ||| 2) &&& 0xFE, ?_⟩⟩
        rw [if_neg hno]
    · -- the port has it on already, so nothing is written
      rw [if_pos hset, hcli, ha, if_neg hno]
      refine ⟨fun h ↦ absurd (h.resolve_left (by simp)).2 hset, fun _ ↦ ⟨pc.port92, ?_⟩⟩
      rw [← ha]
      rfl

/-! ### Where it ends -/

/-- **Paging comes on**: LME and PAE are set before. -/
theorem enablePagingAndLongmode_eq (hlong : hw.LongMode) (hcs : segmentLong pc.cs = false)
    (sym : Symbols) :
    pc.enablePagingAndLongmode hw sym =
      some { pc with
        cr3 := sym.pageTableL4, cr4 := pc.cr4 ||| 0xA0, efer := pc.efer ||| 0x100
        cr0 := pc.cr0 ||| 0x80000001 } := by
  have hpae : (pc.cr4 ||| 0xA0) &&& 0x20 ≠ 0 := by
    have hbit : (pc.cr4 ||| 0xA0) &&& 0x20 = 0x20 := UInt32.toBitVec_inj.1 (or_and_eq (by decide))
    rw [hbit]
    decide
  rw [enablePagingAndLongmode]
  dsimp only
  rw [wrmsrEfer, if_pos hlong]
  dsimp only
  rw [movCr0, if_neg]
  · rfl
  · rintro ⟨-, -, hno | hno⟩
    · exact hpae hno
    · exact absurd (hcs.symm.trans hno) (by simp)

theorem mem_cleared (pc : Pc) (L : Layout) : (pc.cleared L).mem =
    fillRun pc.mem L.bssStart.toNat (fun _ ↦ 0) (L.bssEnd.toNat - L.bssStart.toNat) := rfl

/-- The tables are zero behind `.clear_bss`. -/
theorem cleared_zero (pc : Pc) {p : UInt32} (hp : p ∈ L.tables) (i : Index) :
    entryAt (pc.cleared L).mem (p.toNat / 4096) i = 0 := by
  have hin := L.inBss p hp
  have hframe := (Layout.table_frame hp).1
  have hi := i.isLt
  have hzero : entryAt (pc.cleared L).mem (p.toNat / 4096) i = entryAt (fun _ ↦ 0) 0 i := by
    refine read64_congr fun k hk ↦ ?_
    rw [mem_cleared, fillRun, if_pos (by omega)]
  rw [hzero]
  rfl

theorem setup_drawn (ha : pc.a20 = true) : L.Drawn L.startupEntries (pc.cleared L)
    ((pc.cleared L).setupPageTables L.toSymbols) :=
  Layout.setupPageTables_drawn ha fun _ hp i ↦ cleared_zero pc hp i

theorem runs64_of {cr0 : UInt32} {efer : UInt64} (hcr0 : pc.cr0 = cr0 ||| 0x80000001)
    (hefer : pc.efer = efer ||| 0x100) (hcs : pc.cs = 0x00209A000000FFFF) : pc.Runs64 := by
  have hpaged : (cr0 ||| 0x80000001) &&& 0x80000000 = 0x80000000 :=
    UInt32.toBitVec_inj.1 (or_and_eq (by decide))
  have henabled : (efer ||| 0x100) &&& 0x100 = 0x100 :=
    UInt64.toBitVec_inj.1 (or_and_eq (by decide))
  rw [Runs64, hcr0, hefer, hcs, hpaged, henabled]
  decide

/-- The processor has what it takes, or it stops. -/
theorem start32_64_eq (hw : Hardware) (L : Layout) (ha : pc.a20 = true) :
    (hw.LongMode → (pc.cleared L).start32_64 hw L.toSymbols = .longStart
      { pc.cleared L with
        mem := ((pc.cleared L).setupPageTables L.toSymbols).mem
        cr3 := L.pageTableL4, cr4 := pc.cr4 ||| 0xA0, efer := pc.efer ||| 0x100
        cr0 := pc.cr0 ||| 1 ||| 0x80000001, gdt := gdt64, cs := 0x00209A000000FFFF }) ∧
    (¬ hw.LongMode → (pc.cleared L).start32_64 hw L.toSymbols =
      (pc.cleared L).error32 (L.complaint hw)) := by
  rw [start32_64, checkCpuid_eq, Symbols.complaint]
  dsimp only
  by_cases hid : hw.idToggles = true
  swap
  · rw [if_neg hid, if_neg hid, if_pos rfl]
    exact ⟨fun h ↦ absurd h.1 hid, fun _ ↦ rfl⟩
  rw [if_pos hid, if_pos hid, if_neg (by decide)]
  cases hlong : checkLong hw with
  | false =>
    have hno : ¬ hw.LongMode := fun h ↦
      absurd (hlong.symm.trans (checkLong_iff.2 h.2)) (by simp)
    exact ⟨fun h ↦ absurd h hno, fun _ ↦ rfl⟩
  | true =>
    have hyes : hw.LongMode := ⟨hid, checkLong_iff.1 hlong⟩
    refine ⟨fun _ ↦ ?_, fun h ↦ absurd hyes h⟩
    obtain ⟨mem, hpc⟩ : ∃ mem, (pc.cleared L).setupPageTables L.toSymbols =
        { pc.cleared L with mem := mem } := ⟨_, (setup_drawn ha).rest⟩
    have hcs : segmentLong 0x00CF9A000000FFFF = false := by decide
    rw [if_neg (by decide), hpc, enablePagingAndLongmode_eq hyes hcs]
    dsimp only
    rw [jmpFar_gdt64 rfl]
    dsimp only
    rw [if_pos (runs64_of rfl rfl rfl)]
    rfl

theorem interrupts_cli (pc : Pc) : pc.cli.eflags &&& 0x200 = 0 := by
  have hmask : ~~~(0x200 : UInt32) &&& 0x200 = 0 := by decide
  rw [cli, UInt32.and_assoc, hmask, UInt32.and_zero]

/-- What is behind the start-up code at `long_start`. -/
theorem atLongStart_of {mem : ℕ → UInt8} {v : UInt8}
    (h : L.Drawn L.startupEntries (({ pc.cli with a20 := true, port92 := v } : Pc).cleared L)
      { ({ pc.cli with a20 := true, port92 := v } : Pc).cleared L with mem := mem }) :
    AtLongStart L pc
      { ({ pc.cli with a20 := true, port92 := v } : Pc).cleared L with
        mem := mem, cr3 := L.pageTableL4, cr4 := pc.cr4 ||| 0xA0, efer := pc.efer ||| 0x100
        cr0 := pc.cr0 ||| 1 ||| 0x80000001, gdt := gdt64, cs := 0x00209A000000FFFF } where
  runs64 := runs64_of rfl rfl rfl
  a20 := rfl
  interrupts := pc.interrupts_cli
  cr3 := rfl
  entries := h.entries
  cleared := by
    intro q hlo hhi hq
    refine (h.mem q hq).trans ?_
    rw [mem_cleared, fillRun, if_pos (by omega)]
  kept := by
    intro q hq
    refine (h.mem q fun p hp ↦ ?_).trans ?_
    · have hin := L.inBss p hp
      have hframe := (Layout.table_frame hp).1
      omega
    · rw [mem_cleared]
      exact fillRun_of_not_mem (by omega)
  output := rfl

/-- The line can be had. -/
theorem start16_32_of_available (h : A20Available hw pc) :
    (hw.LongMode → ∃ pc', pc.start16_32 hw L.toSymbols = .longStart pc' ∧ AtLongStart L pc pc') ∧
    (¬ hw.LongMode → ∃ pc', pc.start16_32 hw L.toSymbols = .error32 pc' ∧
      AtError32 L (L.complaint hw) pc pc') := by
  obtain ⟨v, hstart⟩ := (start16_32_eq L.toSymbols).1 h
  have ha : ({ pc.cli with a20 := true, port92 := v } : Pc).a20 = true := rfl
  obtain ⟨hyes, hno⟩ := start32_64_eq hw L ha
  rw [hstart, protectedStart_eq ha]
  refine ⟨fun hlong ↦ ⟨_, hyes hlong, atLongStart_of ?_⟩, fun hlong ↦ ?_⟩
  · have hdrawn := setup_drawn (L := L) ha
    rwa [hdrawn.rest] at hdrawn
  · exact ⟨_, hno hlong, ⟨rfl, rfl, rfl, rfl⟩, rfl, rfl, rfl⟩

/-- The 16-bit `error` prints both texts. -/
theorem error16_eq {sym : Symbols} {si : UInt16} {errorText text : List UInt8}
    (herror : TextAt pc.mem sym.errorMsg.toNat errorText) (htext : TextAt pc.mem si.toNat text)
    (hfit : sym.errorMsg.toNat + errorText.length < 65536)
    (hfit' : si.toNat + text.length < 65536) :
    pc.error16 sym si = .error16 { pc with output := pc.output ++ (errorText ++ text) } := by
  have hsecond : printChar si 65536 { pc with output := pc.output ++ errorText } =
      some { pc with output := pc.output ++ errorText ++ text } :=
    printChar_eq text (by omega) hfit' htext
  rw [error16, printChar_eq errorText (by omega) hfit herror]
  dsimp only
  rw [hsecond, List.append_assoc]

/-- The line cannot be had. -/
theorem start16_32_of_not_available (h : ¬ A20Available hw pc) {sym : Symbols}
    {errorText a20Text : List UInt8} (herror : TextAt pc.mem sym.errorMsg.toNat errorText)
    (ha20 : TextAt pc.mem sym.a20Err.toNat a20Text)
    (hfit : sym.errorMsg.toNat + errorText.length < 65536)
    (hfit' : sym.a20Err.toNat + a20Text.length < 65536) :
    ∃ pc', pc.start16_32 hw sym = .error16 pc' ∧
      pc'.output = pc.output ++ (errorText ++ a20Text) ∧ pc'.mem = pc.mem ∧ pc'.cr0 = pc.cr0 := by
  obtain ⟨v, hstart⟩ := (start16_32_eq sym).2 h
  exact ⟨_, hstart.trans (error16_eq herror ha20 hfit hfit'), rfl, rfl, rfl⟩

/-- **Where the start-up code ends.** With the A20 line and a 64-bit processor it reaches
`long_start`, in 64-bit mode with the first 1 GiB mapped to itself; without long mode it stops in
the 32-bit `error` before it has touched paging; without the line it stops in the 16-bit `error`,
still in real mode and with both texts on the screen. -/
theorem start16_32_ends (L : Layout) (hw : Hardware) (pc : Pc) {errorText a20Text : List UInt8}
    (herror : TextAt pc.mem L.errorMsg.toNat errorText)
    (ha20 : TextAt pc.mem L.a20Err.toNat a20Text)
    (hfit : L.errorMsg.toNat + errorText.length < 65536)
    (hfit' : L.a20Err.toNat + a20Text.length < 65536) :
    (A20Available hw pc ∧ hw.LongMode →
      ∃ pc', pc.start16_32 hw L.toSymbols = .longStart pc' ∧ AtLongStart L pc pc') ∧
    (A20Available hw pc ∧ ¬ hw.LongMode → ∃ pc',
      pc.start16_32 hw L.toSymbols = .error32 pc' ∧ AtError32 L (L.complaint hw) pc pc') ∧
    (¬ A20Available hw pc → ∃ pc', pc.start16_32 hw L.toSymbols = .error16 pc' ∧
      pc'.output = pc.output ++ (errorText ++ a20Text) ∧ pc'.mem = pc.mem ∧ pc'.cr0 = pc.cr0) :=
  ⟨fun h ↦ (start16_32_of_available h.1).1 h.2, fun h ↦ (start16_32_of_available h.1).2 h.2,
    fun h ↦ start16_32_of_not_available h herror ha20 hfit hfit'⟩

end Pc

/-- A small second stage: its first tables, and behind them those of `Boot.small`. -/
def Layout.small : Layout where
  bssStart := 0x10000
  bssEnd := 0x40000
  pageTableL4 := 0x10000
  pageTableL3 := 0x11000
  pageTableL2 := 0x12000
  errorMsg := 0xC000
  a20Err := 0xC008
  cpuidErr := 0xC100
  longmodeError := 0xC200
  aligned := List.all_iff_forall_prop.1 (by decide)
  inBss := List.all_iff_forall_prop.1 (by decide)
  nodup := by decide
  low := by decide

/-- A processor with a long mode, in a machine whose port 0x92 works. -/
def Hardware.modern : Hardware where
  idToggles := true
  cpuid _ := (0x80000008, 0x20000000)
  fastA20 := true

/-- A machine in real mode, with the A20 line off and the texts `ERROR: ` and `A20` in memory. -/
def Pc.started : Pc where
  mem := writeBytes (fun _ ↦ 0) 0xC000 [69, 82, 82, 79, 82, 58, 32, 0, 65, 50, 48]
  a20 := false
  port92 := 0
  eflags := 0x202
  esi := 0
  cr0 := 0x10
  cr3 := 0
  cr4 := 0
  efer := 0
  gdt := []
  cs := 0
  ds := 0
  output := []

namespace Pc

theorem start16_32_ends_small :
    (A20Available .modern started ∧ Hardware.modern.LongMode →
      ∃ pc', started.start16_32 .modern Layout.small.toSymbols = .longStart pc' ∧
        AtLongStart .small started pc') ∧
    (A20Available .modern started ∧ ¬ Hardware.modern.LongMode →
      ∃ pc', started.start16_32 .modern Layout.small.toSymbols = .error32 pc' ∧
        AtError32 .small (Layout.small.complaint .modern) started pc') ∧
    (¬ A20Available .modern started →
      ∃ pc', started.start16_32 .modern Layout.small.toSymbols = .error16 pc' ∧
        pc'.output = started.output ++ ([69, 82, 82, 79, 82, 58, 32] ++ [65, 50, 48]) ∧
        pc'.mem = started.mem ∧ pc'.cr0 = started.cr0) :=
  start16_32_ends .small .modern started ⟨by decide, by decide⟩ ⟨by decide, by decide⟩ (by decide)
    (by decide)

/-! ### The C++ code behind it -/

/-- The machine as the paging code of the second stage sees it: `heap_offset` is in `.bss`, and
`KERNEL_OFFSET` does not exist. -/
def toMachine (pc : Pc) : Machine where
  mem := pc.mem
  cr3 := pc.cr3.toUInt64
  heapOffset := 0
  kernelOffset := 0

end Pc

/-- The start-up code maps the first 1 GiB to itself, and nothing else. -/
theorem AtLongStart.mapped {L : Layout} {pc₀ pc : Pc} (h : AtLongStart L pc₀ pc) :
    L.Mapped pc.toMachine :=
  ⟨congrArg UInt32.toUInt64 h.cr3, h.entries⟩

/-- It leaves the machine as `setup_paging` needs it. -/
theorem AtLongStart.entered {L : Layout} {B : Boot} {pc₀ pc : Pc} (h : AtLongStart L pc₀ pc)
    (happart : ∀ p ∈ B.statics, ∀ q ∈ L.tables, p.toNat ≠ q.toNat) : B.Entered pc.toMachine where
  identity := by
    intro v hv
    rw [h.mapped.translate, if_pos (by omega)]
  apart := by
    intro p hp ht
    obtain ⟨q, hq, heq⟩ := h.mapped.exists_table ht
    have hframe := (Boot.static_frame hp).1
    have hframe' := (Layout.table_frame hq).1
    exact happart p hp q hq (by omega)
  heapOffset_le := Nat.zero_le _

/-- **From real mode to the tables of the C++ code.** On a 64-bit machine with the A20 line the
second stage gets through its start-up code and through `setup_paging`, which does not fault, and
then exactly the first 1 MiB is mapped, to itself. -/
theorem start_setupPaging (L : Layout) (B : Boot)
    (happart : ∀ p ∈ B.statics, ∀ q ∈ L.tables, p.toNat ≠ q.toNat) (hw : Hardware) (pc : Pc)
    (ha20 : Pc.A20Available hw pc) (hlong : hw.LongMode) :
    ∃ pc' m es, pc.start16_32 hw L.toSymbols = .longStart pc' ∧
      B.setupPaging.run pc'.toMachine = ⟨some (), m, es⟩ ∧ B.Tight m ∧
      ∀ v, Canonical v →
        m.translate v = if v.toNat < 0x100000 then some v.toNat else none := by
  obtain ⟨pc', hstart, hat⟩ := (Pc.start16_32_of_available ha20).1 hlong
  obtain ⟨⟨⟩, m, es, hrun, hstarted⟩ :=
    Exec.exists_run_of_wp (Boot.wp_setupPaging_started (hat.entered happart))
  refine ⟨pc', m, es, hstart, hrun, hstarted.tight, fun v hv ↦ ?_⟩
  by_cases hlow : v.toNat < 0x100000
  · rw [if_pos hlow, hstarted.translate hlow]
  · have hfar : ¬ pageOf v < 256 := by
      have hlt := v.toNat_lt
      rw [Canonical] at hv
      rw [pageOf]
      omega
    have hlook := hstarted.look v
    rw [if_neg hfar, Machine.look] at hlook
    rw [if_neg hlow, Machine.translate, if_pos hv, Machine.walk, walkTo, hlook]
    rfl
theorem apart_small :
    ∀ p ∈ Boot.small.statics, ∀ q ∈ Layout.small.tables, p.toNat ≠ q.toNat := by
  intro p hp q hq
  rcases Boot.mem_statics.1 hp with rfl | rfl | rfl | rfl <;>
    rcases Layout.mem_tables.1 hq with rfl | rfl | rfl <;> decide

theorem start_setupPaging_small :
    ∃ pc' m es,
      Pc.started.start16_32 .modern Layout.small.toSymbols = .longStart pc' ∧
      Boot.small.setupPaging.run pc'.toMachine = ⟨some (), m, es⟩ ∧ Boot.small.Tight m ∧
      ∀ v, Canonical v →
        m.translate v = if v.toNat < 0x100000 then some v.toNat else none :=
  start_setupPaging .small Boot.small apart_small .modern Pc.started (Or.inr ⟨rfl, by decide⟩)
    (by decide)

end Aidos.Stage2
