import Aidos.Stage2.LongMode

/-!
# The messages of the 32-bit `error`

`init64.asm` gives `error` its message in SI, but `error` reads from ESI, whose upper half is still
that of `__end`. What is on the screen then is the text at that place (`error32_shows`).
-/

namespace Aidos.Stage2

open ByteMemory

/-- The cells of a text on the screen: characters in light gray. -/
def cells (text : List UInt8) (i : ℕ) : UInt8 := if i % 2 = 0 then text.getD (i / 2) 0 else 0x07

theorem cells_cons (c : UInt8) (text : List UInt8) (i : ℕ) :
    cells text i = cells (c :: text) (2 + i) := by
  have hhalf : (2 + i) / 2 = i / 2 + 1 := by omega
  have hodd : (2 + i) % 2 = i % 2 := by omega
  rw [cells, cells, hhalf, hodd, List.getD_cons_succ]

/-- **`error`** shows the text that ESI points to. -/
theorem Pc.nextChar_eq (text : List UInt8) :
    ∀ {edi : UInt32} {pc : Pc}, pc.a20 = true → TextAt pc.mem pc.esi.toNat text →
      edi.toNat + 2 * text.length < 2 ^ 32 → pc.esi.toNat + text.length < 2 ^ 32 →
      pc.esi.toNat + text.length < edi.toNat ∨ edi.toNat + 2 * text.length ≤ pc.esi.toNat →
      (nextChar (text.length + 1) edi pc).1 = true ∧
        (nextChar (text.length + 1) edi pc).2.2.mem =
          fillRun pc.mem edi.toNat (cells text) (2 * text.length) := by
  induction text with
  | nil =>
    intro edi pc ha htext _ _ _
    have hzero : pc.load8 pc.esi.toNat = 0 := by
      rw [load8, bus_of_a20 ha]
      exact htext.2
    rw [List.length_nil, nextChar, if_pos hzero, Nat.mul_zero, fillRun_zero]
    exact ⟨rfl, rfl⟩
  | cons c text ih =>
    intro edi pc ha htext hedi hesi happart
    rw [List.length_cons] at hedi hesi happart
    obtain ⟨hchar, hne⟩ := htext.head
    have hload : pc.load8 pc.esi.toNat = c := by
      rw [load8, bus_of_a20 ha]
      exact hchar
    have hesi' : (pc.esi + 1).toNat = pc.esi.toNat + 1 := by
      rw [UInt32.toNat_add, UInt32.toNat_one]
      omega
    have hedi₁ : (edi + 1).toNat = edi.toNat + 1 := by
      rw [UInt32.toNat_add, UInt32.toNat_one]
      omega
    have hedi₂ : (edi + 2).toNat = edi.toNat + 2 := by
      rw [UInt32.toNat_add]
      simp only [UInt32.reduceToNat]
      omega
    have hmem : ((({ pc with esi := pc.esi + 1 } : Pc).store8 edi.toNat c).store8
        (edi + 1).toNat 0x07).mem = fillRun pc.mem edi.toNat (cells (c :: text)) 2 := by
      rw [mem_store8 (by exact ha), mem_store8 (by exact ha), hedi₁, ← fillRun_succ,
        ← fillRun_succ, fillRun_zero]
      rfl
    rw [List.length_cons, nextChar, hload, if_neg hne]
    have hrest : TextAt (fillRun pc.mem edi.toNat (cells (c :: text)) 2) (pc.esi + 1).toNat
        text := by
      rw [hesi']
      have htail := htext.tail
      refine ⟨fun i hi ↦ ?_, ?_⟩
      · rw [fillRun_of_not_mem (by omega)]
        exact htail.1 i hi
      · rw [fillRun_of_not_mem (by omega)]
        exact htail.2
    obtain ⟨hend, hcells⟩ := @ih (edi + 2)
      ((({ pc with esi := pc.esi + 1 } : Pc).store8 edi.toNat c).store8 (edi + 1).toNat 0x07)
      ha (by rw [hmem]; exact hrest) (by omega) (by show (pc.esi + 1).toNat + _ < _; omega)
      (by show (pc.esi + 1).toNat + _ < _ ∨ _ ≤ (pc.esi + 1).toNat; omega)
    refine ⟨hend, hcells.trans ?_⟩
    rw [hmem, hedi₂, fillRun_append fun i _ ↦ cells_cons c text i]
    exact congrArg _ (by omega)

/-- Where the 32-bit `error` looks for a message: at its offset in the 64 KiB that `__end` is in. -/
theorem AtError32.toNat_esi {L : Layout} {message : UInt16} {pc₀ pc : Pc}
    (h : AtError32 L message pc₀ pc) :
    pc.esi.toNat = 65536 * (L.bssEnd.toNat / 65536) + message.toNat := by
  have hmessage := message.toNat_lt
  have hend := L.bssEnd.toNat_lt
  have hmask : L.bssEnd.toNat &&& 0xFFFF0000 = 2 ^ 16 * (L.bssEnd.toNat / 65536) := by
    have h := Words.and_two_pow_sub_two_pow (w := 32) (k := 16) (by omega) hend
    rw [Nat.mul_comm]
    exact h
  rw [h.esi, UInt32.toNat_or, UInt32.toNat_and, UInt16.toNat_toUInt32]
  simp only [UInt32.reduceToNat]
  rw [hmask]
  exact (Nat.two_pow_add_eq_or_of_lt hmessage _).symm

/-- **Without long mode** the code stops with a text on the screen, but not with its message: ESI
has the upper half of `__end`, and the text is the one at that place. -/
theorem error32_shows (L : Layout) (hw : Hardware) (pc : Pc) (ha20 : Pc.A20Available hw pc)
    (hlong : ¬ hw.LongMode) (hend : 65536 ≤ L.bssEnd.toNat) :
    ∃ pc' a, pc.start16_32 hw L.toSymbols = .error32 pc' ∧
      a = 65536 * (L.bssEnd.toNat / 65536) + (L.complaint hw).toNat ∧
      a ≠ (L.complaint hw).toNat ∧
      ∀ text, TextAt pc'.mem a text → a + text.length < 0xB8000 →
        (Pc.nextChar (text.length + 1) 0xB8000 pc').1 = true ∧
          (Pc.nextChar (text.length + 1) 0xB8000 pc').2.2.mem =
            fillRun pc'.mem 0xB8000 (cells text) (2 * text.length) := by
  obtain ⟨pc', hstop, hat⟩ := (Pc.start16_32_of_available (L := L) ha20).2 hlong
  have hesi := hat.toNat_esi
  have hlow := L.low
  refine ⟨pc', _, hstop, rfl, by omega, fun text htext hfit ↦ ?_⟩
  rw [← hesi] at htext hfit
  have hscreen : (0xB8000 : UInt32).toNat = 0xB8000 := rfl
  have h := @Pc.nextChar_eq text 0xB8000 pc' hat.a20 htext (by rw [hscreen]; omega) (by omega)
    (Or.inl (by rw [hscreen]; exact hfit))
  rwa [hscreen] at h

/-- A machine of 32 bits. -/
def Hardware.old : Hardware where
  idToggles := false
  cpuid _ := (0, 0)
  fastA20 := true

theorem error32_shows_old :
    ∃ pc' a, Pc.started.start16_32 .old Layout.small.toSymbols = .error32 pc' ∧
      a = 65536 * (Layout.small.bssEnd.toNat / 65536) + (Layout.small.complaint .old).toNat ∧
      a ≠ (Layout.small.complaint .old).toNat ∧
      ∀ text, TextAt pc'.mem a text → a + text.length < 0xB8000 →
        (Pc.nextChar (text.length + 1) 0xB8000 pc').1 = true ∧
          (Pc.nextChar (text.length + 1) 0xB8000 pc').2.2.mem =
            fillRun pc'.mem 0xB8000 (cells text) (2 * text.length) :=
  error32_shows .small .old Pc.started (Or.inr ⟨rfl, by decide⟩) (by decide) (by decide)

end Aidos.Stage2
