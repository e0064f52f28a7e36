import Aidos.Console.TextView
import Aidos.Library.Words

/-!
# Attributes and the visible cursor

Beside the characters a screen has an attribute in each cell and a cursor of the hardware.
`VgaDriver.Presents` says that all attributes are the default one and that the cursor of the
hardware is where the next character will go.

Two calls break this, and no others (`OnScreen.presents_step_iff`). A `char` is signed, so that a
character from `0x80` on is widened with ones, which cover the attribute. And `initialize` programs
the cursor to the first cell, but leaves the position of the driver where it is.
-/

namespace Aidos.Console

/-- The attribute of a cell. -/
def cellAttribute (cell : UInt16) : UInt8 := UInt8.ofNat (cell.toNat / 256)

/-- The cursor that the controller was programmed to. -/
def Crtc.cursor (crtc : Crtc) : ℕ :=
  (crtc.register 0x0E).toNat * 256 + (crtc.register 0x0F).toNat

/-- **`update_cursor`** programs the cell of its arguments. -/
theorem Crtc.cursor_updateCursor (crtc : Crtc) (x y : UInt8) :
    (crtc.updateCursor x y).cursor = y.toNat * 80 + x.toNat := by
  have hx := x.toNat_lt
  have hy := y.toNat_lt
  have hpos : (y.toUInt16 * 80 + x.toUInt16).toNat = y.toNat * 80 + x.toNat := by
    rw [UInt16.toNat_add, UInt16.toNat_mul, UInt8.toNat_toUInt16, UInt8.toNat_toUInt16]
    simp only [UInt16.reduceToNat]
    omega
  simp only [cursor, updateCursor, select, output, if_true]
  rw [Words.toNat_highByte]
  simp only [show ¬ (0x0F : UInt8) = 0x0E by decide, if_false]
  rw [Words.toNat_lowByte, hpos]
  omega

namespace VgaDriver

variable {d d' : VgaDriver}

/-- All attributes are the default one, and the cursor of the hardware is at the driver's. -/
structure Presents (d : VgaDriver) : Prop where
  /-- The attributes. -/
  attributes : ∀ i < screenWidth * screenHeight, cellAttribute (d.screen i) = 0x0F
  /-- The cursor. -/
  cursor : d.crtc.cursor = 80 * d.y.toNat + d.x.toNat

/-- What keeps the stores of the driver on the screen. -/
structure OnScreen (d : VgaDriver) : Prop where
  /-- The column. -/
  x : d.x.toNat < 80
  /-- The row. -/
  y : d.y.toNat < 25
  /-- The stores so far. -/
  stores : d.StoresOnScreen

/-! ### Placing a character -/

/-- A character keeps the attribute if it is not negative. -/
theorem cellAttribute_or_promote (c : UInt8) :
    cellAttribute (defaultAttr ||| promote c) = if c < 128 then 0x0F else 0xFF := by
  have hall : ∀ n < 256, cellAttribute (defaultAttr ||| promote (UInt8.ofNat n)) =
      if UInt8.ofNat n < 128 then 0x0F else 0xFF := by
    decide +kernel
  have hc := hall c.toNat c.toNat_lt
  rwa [UInt8.ofNat_toNat] at hc

/-- The cell that a character goes to, and how far the cursor moves. -/
theorem place_spec (h : d.OnScreen) (c : UInt8) :
    (d.place c).x.toNat < 80 ∧ (d.place c).y.toNat ≤ d.y.toNat + 1 ∧ (d.place c).StoresOnScreen ∧
      ∀ i, (d.place c).screen i =
        if c ≠ 10 ∧ i = d.y.toNat * 80 + d.x.toNat then defaultAttr ||| promote c
        else d.screen i := by
  have hx := h.x
  have hy := h.y
  have hindex := toNat_index h.y h.x
  have hrow : (d.y + 1).toNat = d.y.toNat + 1 := by
    rw [UInt32.toNat_add, UInt32.toNat_one]
    omega
  have hcol : (d.x + 1).toNat = d.x.toNat + 1 := by
    rw [UInt32.toNat_add, UInt32.toNat_one]
    omega
  have hstores := stores_place h.stores h.y h.x c
  by_cases hc : c = 10
  · rw [place_of_eq hc] at hstores ⊢
    refine ⟨Nat.succ_pos 79, ?_, hstores, fun i ↦ ?_⟩
    · dsimp only
      omega
    · rw [if_neg fun hi ↦ hi.1 hc]
  · have hscreen (i : ℕ) : (d.store (d.y * 80 + d.x).toNat (defaultAttr ||| promote c)).screen i =
        if c ≠ 10 ∧ i = d.y.toNat * 80 + d.x.toNat then defaultAttr ||| promote c
        else d.screen i := by
      rw [store, hindex]
      exact if_congr (by simp [hc]) rfl rfl
    rw [place_of_ne hc] at hstores ⊢
    split at hstores
    · next hfull =>
      rw [if_pos hfull]
      refine ⟨Nat.succ_pos 79, ?_, hstores, hscreen⟩
      dsimp only
      omega
    · next hroom =>
      rw [if_neg hroom]
      rw [ge_iff_le, UInt32.le_iff_toNat_le, hcol] at hroom
      simp only [UInt32.reduceToNat] at hroom
      refine ⟨?_, ?_, hstores, hscreen⟩
      · dsimp only
        omega
      · show d.y.toNat ≤ d.y.toNat + 1
        omega

/-- **`putchar`**: the row of the cursor may be the first one that is not on the screen, and then
the screen moves up. -/
theorem putchar_spec (h : d.OnScreen) (c : UInt8) :
    (d.putchar c).OnScreen ∧
      (d.putchar c).crtc.cursor = 80 * (d.putchar c).y.toNat + (d.putchar c).x.toNat ∧
      ((d.place c).y.toNat < 25 ∧ (d.putchar c).screen = (d.place c).screen ∨
        (d.place c).y.toNat = 25 ∧ ∀ i < screenWidth * screenHeight, (d.putchar c).screen i =
          if i < 1920 then (d.place c).screen (i + 80) else blankCell) := by
  obtain ⟨hx, hy, hstores, -⟩ := place_spec h c
  replace hy : (d.place c).y.toNat ≤ 25 := hy.trans h.y
  have hcursor (crtc : Crtc) {x y : UInt32} (hx : x.toNat < 80) (hy : y.toNat < 25) :
      (crtc.updateCursor x.toUInt8 y.toUInt8).cursor = 80 * y.toNat + x.toNat := by
    rw [Crtc.cursor_updateCursor, UInt32.toNat_toUInt8, UInt32.toNat_toUInt8,
      Nat.mod_eq_of_lt (by omega), Nat.mod_eq_of_lt (by omega)]
    omega
  have hge : (d.place c).y ≥ 25 ↔ 25 ≤ (d.place c).y.toNat := by
    rw [ge_iff_le, UInt32.le_iff_toNat_le]
    rfl
  rw [putchar]
  generalize d.place c = d₁ at hx hy hstores hge ⊢
  by_cases hleft : d₁.y ≥ 25
  · obtain ⟨stores, hscroll, hstores'⟩ := scroll_eq hstores
    rw [if_pos hleft, hscroll]
    have hlast : (24 : UInt32).toNat < 25 := by decide
    refine ⟨⟨hx, hlast, hstores'⟩, hcursor _ hx hlast,
      Or.inr ⟨Nat.le_antisymm hy (hge.1 hleft), fun i hi ↦ ?_⟩⟩
    dsimp only
    rw [if_pos (show i < 2000 from hi)]
  · rw [if_neg hleft]
    have hlt : d₁.y.toNat < 25 := Nat.lt_of_not_le fun hle ↦ hleft (hge.2 hle)
    exact ⟨⟨hx, hlt, hstores⟩, hcursor _ hx hlt, Or.inl ⟨hlt, rfl⟩⟩

/-! ### Calls -/

/-- A call on the console. -/
inductive Call where
  /-- `initialize()`. -/
  | init
  /-- `putchar(c)`. -/
  | putchar (c : UInt8)
  deriving DecidableEq

/-- The driver after a call. -/
def step (d : VgaDriver) : Call → VgaDriver
  | .init => d.initializeVga
  | .putchar c => d.putchar c

/-- **The condition**: `initialize` finds the driver at the first cell, and a character is not a
negative `char`. -/
def Keeps (d : VgaDriver) : Call → Prop
  | .init => d.x = 0 ∧ d.y = 0
  | .putchar c => c < 128

instance (d : VgaDriver) : DecidablePred d.Keeps
  | .init => inferInstanceAs (Decidable (_ ∧ _))
  | .putchar _ => inferInstanceAs (Decidable (_ < _))

theorem cellAttribute_blankCell : cellAttribute blankCell = 0x0F := by decide

/-- `initialize` blanks the screen, and programs the cursor to the first cell. -/
theorem initializeVga_spec (d : VgaDriver) :
    (∀ i < screenWidth * screenHeight, cellAttribute (d.initializeVga.screen i) = 0x0F) ∧
      d.initializeVga.crtc.cursor = 0 := by
  rw [initializeVga_eq]
  refine ⟨fun i hi ↦ ?_, Crtc.cursor_updateCursor _ 0 0⟩
  dsimp only
  rw [if_pos (show i < 2000 from hi)]
  exact cellAttribute_blankCell

/-- Every call leaves the driver inside the screen. -/
theorem OnScreen.step (h : d.OnScreen) (call : Call) : (d.step call).OnScreen := by
  cases call with
  | init =>
    rw [VgaDriver.step, initializeVga_eq]
    exact ⟨h.x, h.y, storesOnScreen_append h.stores 0 2000 (Nat.le_refl _)⟩
  | putchar c => exact (putchar_spec h c).1

/-- The attributes after a character. -/
theorem attributes_putchar_iff (h : d.OnScreen)
    (hd : ∀ i < screenWidth * screenHeight, cellAttribute (d.screen i) = 0x0F) (c : UInt8) :
    (∀ i < screenWidth * screenHeight, cellAttribute ((d.putchar c).screen i) = 0x0F) ↔
      c < 128 := by
  have hx := h.x
  have hy := h.y
  obtain ⟨-, hmove, -, hplace⟩ := place_spec h c
  have hcell := cellAttribute_or_promote c
  -- the cell of the character, and the one it is in after the screen has moved up
  have hput (hc : c ≠ 10) :
      cellAttribute ((d.place c).screen (d.y.toNat * 80 + d.x.toNat)) =
        if c < 128 then 0x0F else 0xFF := by
    rw [hplace, if_pos ⟨hc, rfl⟩, hcell]
  have hold : c < 128 → ∀ i < screenWidth * screenHeight,
      cellAttribute ((d.place c).screen i) = 0x0F := by
    intro hc i hi
    rw [hplace]
    split
    · rw [hcell, if_pos hc]
    · exact hd i hi
  have hbad : ¬ c < 128 → c ≠ 10 := by
    rintro hc rfl
    exact hc (by decide)
  rcases (putchar_spec h c).2.2 with ⟨-, hscreen⟩ | ⟨hrow, hscreen⟩
  · rw [hscreen]
    refine ⟨fun hall ↦ ?_, hold⟩
    by_contra hc
    have hcellAt := hput (hbad hc)
    rw [hall _ (by rw [screenWidth, screenHeight]; omega), if_neg hc] at hcellAt
    exact absurd hcellAt (by decide)
  · constructor
    · intro hall
      by_contra hc
      have hcellAt := hput (hbad hc)
      have hup := hall (d.y.toNat * 80 + d.x.toNat - 80) (by rw [screenWidth, screenHeight]; omega)
      rw [hscreen _ (by rw [screenWidth, screenHeight]; omega), if_pos (by omega),
        Nat.sub_add_cancel (by omega), hcellAt, if_neg hc] at hup
      exact absurd hup (by decide)
    · intro hc i hi
      rw [hscreen i hi]
      split
      · exact hold hc _ (by rw [screenWidth, screenHeight]; omega)
      · exact cellAttribute_blankCell

/-- **One call** keeps the attributes and the cursor in just these cases. -/
theorem OnScreen.presents_step_iff (h : d.OnScreen) (hd : d.Presents) (call : Call) :
    (d.step call).Presents ↔ d.Keeps call := by
  cases call with
  | init =>
    have hinit := initializeVga_eq d
    obtain ⟨hattributes, hcursor⟩ := initializeVga_spec d
    have hposition : d.initializeVga.x = d.x ∧ d.initializeVga.y = d.y := by
      rw [hinit]
      exact ⟨rfl, rfl⟩
    have hiff : d.Keeps .init ↔ d.x.toNat = 0 ∧ d.y.toNat = 0 := by
      rw [Keeps, ← UInt32.toNat_inj, ← UInt32.toNat_inj]
      rfl
    rw [hiff]
    constructor
    · intro hp
      have hzero := hp.cursor
      rw [VgaDriver.step, hcursor, hposition.1, hposition.2] at hzero
      omega
    · rintro ⟨hx, hy⟩
      refine ⟨hattributes, ?_⟩
      rw [VgaDriver.step, hcursor, hposition.1, hposition.2, hx, hy]
  | putchar c =>
    have hcursor := (putchar_spec h c).2.1
    have hiff := attributes_putchar_iff h hd.attributes c
    exact ⟨fun hp ↦ hiff.1 hp.attributes, fun hc ↦ ⟨hiff.2 hc, hcursor⟩⟩

/-! ### Runs -/

/-- The states that the console reaches from a first `initialize` on, through calls that all meet
the condition. -/
inductive Reached (screen : ℕ → UInt16) (crtc : Crtc) : VgaDriver → Prop
  /-- The first `initialize`. -/
  | start : Reached screen crtc (fresh screen crtc).initializeVga
  /-- One more call. -/
  | step {d : VgaDriver} {call : Call} : Reached screen crtc d → d.Keeps call →
      Reached screen crtc (d.step call)

theorem onScreen_start (screen : ℕ → UInt16) (crtc : Crtc) :
    (fresh screen crtc).initializeVga.OnScreen := by
  have hfresh : (fresh screen crtc).OnScreen :=
    ⟨Nat.succ_pos 79, Nat.succ_pos 24, fun _ hi ↦ absurd hi List.not_mem_nil⟩
  exact hfresh.step .init

/-- The first `initialize` leaves the driver at the first cell. -/
theorem position_start (screen : ℕ → UInt16) (crtc : Crtc) :
    (fresh screen crtc).initializeVga.x = 0 ∧ (fresh screen crtc).initializeVga.y = 0 := by
  rw [initializeVga_eq]
  exact ⟨rfl, rfl⟩

theorem presents_start (screen : ℕ → UInt16) (crtc : Crtc) :
    (fresh screen crtc).initializeVga.Presents := by
  obtain ⟨hattributes, hcursor⟩ := initializeVga_spec (fresh screen crtc)
  obtain ⟨hx, hy⟩ := position_start screen crtc
  refine ⟨hattributes, ?_⟩
  rw [hcursor, hx, hy]
  rfl

theorem Reached.onScreen {screen : ℕ → UInt16} {crtc : Crtc} (h : Reached screen crtc d) :
    d.OnScreen := by
  induction h with
  | start => exact onScreen_start screen crtc
  | step _ _ ih => exact ih.step _

/-- **What the screen presents.** In every state that the console reaches from a first `initialize`
through further calls of `initialize` with the driver at the first cell and of `putchar` with
characters below `0x80`, every cell has the default attribute, and the cursor of the hardware is at
the cell of the next character. -/
theorem presents_of_reached {screen : ℕ → UInt16} {crtc : Crtc} (h : Reached screen crtc d) :
    (∀ i < screenWidth * screenHeight, cellAttribute (d.screen i) = 0x0F) ∧
      d.crtc.cursor = 80 * d.y.toNat + d.x.toNat := by
  have hpresents : d.Presents := by
    induction h with
    | start => exact presents_start screen crtc
    | step hreached hkeeps ih => exact (hreached.onScreen.presents_step_iff ih _).2 hkeeps
  exact ⟨hpresents.attributes, hpresents.cursor⟩

/-- A console over blank memory. -/
def blankConsole : VgaDriver := (fresh (fun _ ↦ 0) ⟨0, fun _ ↦ 0⟩).initializeVga

/-- It is initialised once more, and prints `A`. -/
def letterConsole : VgaDriver := (blankConsole.step .init).step (.putchar 0x41)

theorem presents_of_reached_letterConsole :
    (∀ i < screenWidth * screenHeight, cellAttribute (letterConsole.screen i) = 0x0F) ∧
      letterConsole.crtc.cursor = 80 * letterConsole.y.toNat + letterConsole.x.toNat :=
  presents_of_reached
    ((Reached.start.step (show Keeps _ .init from position_start _ _)).step
      (show Keeps _ (.putchar 0x41) from (by decide : (0x41 : UInt8) < 128)) :
      Reached (fun _ ↦ 0) ⟨0, fun _ ↦ 0⟩ letterConsole)

/-- **The screen does not always present them**: the character `0x80` is shown on the attribute
`0xFF`. -/
theorem not_presents_foldl :
    ¬ ∀ calls : List Call, (calls.foldl step blankConsole).Presents := by
  intro h
  have hone : (blankConsole.step (.putchar 0x80)).Presents := h [.putchar 0x80]
  have hkeeps := ((onScreen_start _ _).presents_step_iff (presents_start _ _) _).1 hone
  exact absurd hkeeps (by decide : ¬ (0x80 : UInt8) < 128)

end VgaDriver

end Aidos.Console
