import Mathlib.Data.List.Basic
import Mathlib.Tactic.Common
import Aidos.Console.Vga
import Aidos.Library.TextPage

/-!
# The console shows a text page

What is printed goes on an unbounded page of 80 columns; the screen shows its last 25 rows. `Views`
is the simulation relation: the characters of the screen are those of the page from a given row on,
and the cursors agree. Placing a character keeps it, except that the cursor may have left the screen
by one row, and scrolling moves the view down by one row (`Views.scroll`).

The in-place copy is described cell by cell: a run of stores that read only what they have not yet
overwritten leaves the old cells, shifted (`foldl_store`).
-/

namespace Aidos.Console

namespace VgaDriver

variable {d : VgaDriver}

/-! ### Runs of stores -/

/-- **A run of stores** to adjacent cells, the `k`-th of which stores `g k` whatever the ones before
it stored. -/
theorem foldl_store (dst : ℕ) (value : (ℕ → UInt16) → ℕ → UInt16) (g : ℕ → UInt16) (n : ℕ)
    (hvalue : ∀ k < n, ∀ s : ℕ → UInt16, (∀ i, dst + k ≤ i → s i = d.screen i) → value s k = g k) :
    (List.range n).foldl (fun d k ↦ d.store (dst + k) (value d.screen k)) d =
      { d with
        screen := fun i ↦ if dst ≤ i ∧ i < dst + n then g (i - dst) else d.screen i
        stores := ((List.range n).map (dst + ·)).reverse ++ d.stores } := by
  induction n with
  | zero =>
    have hnone : (fun i ↦ if dst ≤ i ∧ i < dst + 0 then g (i - dst) else d.screen i) = d.screen :=
      funext fun i ↦ if_neg (by omega)
    rw [hnone]
    rfl
  | succ n ih =>
    rw [List.range_succ, List.foldl_append, ih fun k hk ↦ hvalue k (by omega), List.foldl_cons,
      List.foldl_nil, store]
    have hlast := hvalue n (Nat.lt_succ_self n)
      (fun i ↦ if dst ≤ i ∧ i < dst + n then g (i - dst) else d.screen i)
      (fun i hi ↦ if_neg (by omega))
    dsimp only
    rw [hlast]
    have hscreen : (fun j ↦ if j = dst + n then g n
        else if dst ≤ j ∧ j < dst + n then g (j - dst) else d.screen j) =
          fun i ↦ if dst ≤ i ∧ i < dst + (n + 1) then g (i - dst) else d.screen i := by
      funext j
      by_cases hj : j = dst + n
      · rw [if_pos hj, if_pos (by omega), hj, Nat.add_sub_cancel_left]
      · rw [if_neg hj]
        by_cases hin : dst ≤ j ∧ j < dst + n
        · rw [if_pos hin, if_pos (by omega)]
        · rw [if_neg hin, if_neg (by omega)]
    rw [hscreen]
    simp

/-- The index of the cursor's cell. -/
theorem toNat_index (hy : d.y.toNat < 25) (hx : d.x.toNat < 80) :
    (d.y * 80 + d.x).toNat = d.y.toNat * 80 + d.x.toNat := by
  rw [UInt32.toNat_add, UInt32.toNat_mul]
  simp only [UInt32.reduceToNat]
  omega

/-- No store so far went outside of the screen. -/
def StoresOnScreen (d : VgaDriver) : Prop := ∀ i ∈ d.stores, i < screenWidth * screenHeight

/-- A run of stores inside the screen. -/
theorem storesOnScreen_append {stores : List ℕ} (h : ∀ i ∈ stores, i < screenWidth * screenHeight)
    (dst n : ℕ) (hn : dst + n ≤ screenWidth * screenHeight) :
    ∀ i ∈ ((List.range n).map (dst + ·)).reverse ++ stores, i < screenWidth * screenHeight := by
  intro i hi
  rw [List.mem_append, List.mem_reverse, List.mem_map] at hi
  rcases hi with ⟨k, hk, rfl⟩ | hi
  · have hlt := List.mem_range.1 hk
    omega
  · exact h i hi

/-! ### Scrolling -/

/-- The copy of one row. -/
theorem copyRow_succ (d : VgaDriver) (row : ℕ) :
    d.copyRow (row + 1) =
      { d with
        screen := fun i ↦
          if row * 80 ≤ i ∧ i < row * 80 + 80 then d.screen (i + 80) else d.screen i
        stores := ((List.range 80).map (row * 80 + ·)).reverse ++ d.stores } := by
  have hfold := foldl_store (d := d) (row * 80) (fun s k ↦ s ((row + 1) * 80 + k))
    (fun k ↦ d.screen ((row + 1) * 80 + k)) 80 (fun k _ s hs ↦ hs _ (by omega))
  have hscreen : (fun i ↦ if row * 80 ≤ i ∧ i < row * 80 + 80
      then d.screen ((row + 1) * 80 + (i - row * 80)) else d.screen i) =
        fun i ↦ if row * 80 ≤ i ∧ i < row * 80 + 80 then d.screen (i + 80) else d.screen i := by
    funext i
    split
    · next hi =>
      congr 1
      omega
    · rfl
  rw [hscreen] at hfold
  exact hfold

/-- **The copy of the rows** moves each up by one: a row is read before it is overwritten. -/
theorem foldl_copyRow (n : ℕ) (hn : n ≤ 24) (h : d.StoresOnScreen) :
    ∃ stores, (List.range' 1 n).foldl copyRow d =
      { d with
        screen := fun i ↦ if i < n * 80 then d.screen (i + 80) else d.screen i
        stores := stores } ∧
      ∀ i ∈ stores, i < screenWidth * screenHeight := by
  induction n with
  | zero => exact ⟨d.stores, by simp, h⟩
  | succ n ih =>
    obtain ⟨stores, hfold, hstores⟩ := ih (by omega)
    refine ⟨((List.range 80).map (n * 80 + ·)).reverse ++ stores, ?_, ?_⟩
    · rw [List.range'_1_concat, List.foldl_append, hfold, List.foldl_cons, List.foldl_nil,
        Nat.add_comm 1 n, copyRow_succ]
      congr 1
      funext i
      by_cases hi : i < n * 80
      · simp only [if_pos hi, if_pos (show i < (n + 1) * 80 by omega),
          if_neg (show ¬ (n * 80 ≤ i ∧ i < n * 80 + 80) by omega)]
      · by_cases hrow : i < n * 80 + 80
        · simp only [if_pos (show i < (n + 1) * 80 by omega),
            if_pos (show n * 80 ≤ i ∧ i < n * 80 + 80 by omega),
            if_neg (show ¬ i + 80 < n * 80 by omega)]
        · simp only [if_neg hi, if_neg (show ¬ i < (n + 1) * 80 by omega),
            if_neg (show ¬ (n * 80 ≤ i ∧ i < n * 80 + 80) by omega)]
    · refine storesOnScreen_append hstores (n * 80) 80 ?_
      rw [screenWidth, screenHeight]
      omega

/-- **Scrolling** moves every row up by one and blanks the last. -/
theorem scroll_eq (h : d.StoresOnScreen) :
    ∃ stores, d.scroll =
      { d with
        screen := fun i ↦ if i < 1920 then d.screen (i + 80) else
          if i < 2000 then blankCell else d.screen i
        y := 24
        stores := stores } ∧
      ∀ i ∈ stores, i < screenWidth * screenHeight := by
  obtain ⟨stores, hcopy, hstores⟩ := foldl_copyRow 24 (Nat.le_refl _) h
  refine ⟨((List.range 80).map (1920 + ·)).reverse ++ stores, ?_, ?_⟩
  · rw [scroll, show screenHeight - 1 = 24 from rfl, hcopy]
    have hfill := foldl_store (d := { d with
      screen := fun i ↦ if i < 24 * 80 then d.screen (i + 80) else d.screen i
      stores := stores }) 1920 (fun _ _ ↦ blankCell) (fun _ ↦ blankCell) 80 fun _ _ _ _ ↦ rfl
    rw [show 24 * screenWidth = 1920 from rfl, show screenWidth = 80 from rfl, hfill]
    congr 1
    funext i
    dsimp only
    by_cases hi : i < 1920
    · rw [if_neg (by omega), if_pos hi, if_pos hi]
    · rw [if_neg (show ¬ i < 24 * 80 from hi), if_neg hi]
      by_cases hlast : i < 2000
      · rw [if_pos (by omega), if_pos hlast]
      · rw [if_neg (by omega), if_neg hlast]
  · exact storesOnScreen_append hstores 1920 80 (Nat.le_refl _)

/-! ### The view -/

/-- The character of a cell. -/
def character (cell : UInt16) : UInt8 := UInt8.ofNat cell.toNat

/-- **The screen shows a page** from the row `top` on, and the cursors agree. -/
structure Views (top : ℕ) (p : TextPage UInt8) (d : VgaDriver) : Prop where
  /-- The column of the cursor. -/
  x : d.x.toNat = p.col
  /-- Its row. -/
  y : top + d.y.toNat = p.row
  /-- The characters. -/
  cell : ∀ i < screenHeight, ∀ j < screenWidth,
    character (d.screen (i * screenWidth + j)) = p.cell (top + i) j

/-- A character put on the page: a newline ends the row. -/
def putPage (p : TextPage UInt8) (c : UInt8) : TextPage UInt8 :=
  if c = 10 then p.newline else p.write screenWidth c

theorem place_of_eq {c : UInt8} (hc : c = 10) : d.place c = { d with y := d.y + 1, x := 0 } := by
  rw [place, if_pos hc]

theorem place_of_ne {c : UInt8} (hc : c ≠ 10) :
    d.place c =
      if d.x + 1 ≥ 80 then
        { d.store (d.y * 80 + d.x).toNat (defaultAttr ||| promote c) with x := 0, y := d.y + 1 }
      else { d.store (d.y * 80 + d.x).toNat (defaultAttr ||| promote c) with x := d.x + 1 } := by
  rw [place, if_neg hc]
  rfl

/-- The character survives its attribute, also when it is a negative `char`. -/
theorem character_or_promote : ∀ c : UInt8, character (defaultAttr ||| promote c) = c := by
  have hall : ∀ n < 256, character (defaultAttr ||| promote (UInt8.ofNat n)) = UInt8.ofNat n := by
    decide +kernel
  intro c
  have hc := hall c.toNat c.toNat_lt
  rwa [UInt8.ofNat_toNat] at hc

theorem character_blankCell : character blankCell = 0x20 := by decide

namespace Views

variable {top : ℕ} {p : TextPage UInt8}

/-- The hardware cursor is not part of the view. -/
theorem of_crtc (h : Views top p d) (crtc : Crtc) : Views top p { d with crtc := crtc } :=
  ⟨h.x, h.y, h.cell⟩

theorem newline (h : Views top p d) (hy : d.y.toNat < 25) :
    Views top p.newline { d with y := d.y + 1, x := 0 } where
  x := rfl
  y := by
    have hrow := h.y
    dsimp only [TextPage.newline]
    rw [UInt32.toNat_add, UInt32.toNat_one]
    omega
  cell := h.cell

/-- A character in the cell of the cursor. -/
theorem put (h : Views top p d) (hy : d.y.toNat < 25) (hx : p.col < 80) (c : UInt8) :
    Views top (p.put c)
      { d.store (d.y * 80 + d.x).toNat (defaultAttr ||| promote c) with x := d.x + 1 } where
  x := by
    have hcol := h.x
    dsimp only [store, TextPage.put]
    rw [UInt32.toNat_add, UInt32.toNat_one]
    omega
  y := h.y
  cell i hi j hj := by
    have hcol := h.x
    have hrow := h.y
    have hindex := toNat_index hy (by omega)
    rw [screenHeight] at hi
    rw [screenWidth] at hj ⊢
    dsimp only [store, TextPage.put]
    rw [hindex]
    by_cases hcell : i * 80 + j = d.y.toNat * 80 + d.x.toNat
    · rw [if_pos hcell, if_pos (by omega)]
      exact character_or_promote c
    · rw [if_neg hcell, if_neg (by omega)]
      exact h.cell i hi j hj

/-- The head of `putchar` puts the character on the page. -/
theorem place (h : Views top p d) (hy : d.y.toNat < 25) (hx : p.col < 80) (c : UInt8) :
    Views top (putPage p c) (d.place c) := by
  rw [putPage]
  by_cases hc : c = 10
  · rw [if_pos hc, place_of_eq hc]
    exact h.newline hy
  · rw [if_neg hc, place_of_ne hc]
    have hput := h.put hy hx c
    have hcol := h.x
    have hnext : (d.x + 1).toNat = d.x.toNat + 1 := by
      rw [UInt32.toNat_add, UInt32.toNat_one]
      omega
    have hfull : d.x + 1 ≥ 80 ↔ ¬ p.col + 1 < 80 := by
      rw [ge_iff_le, UInt32.le_iff_toNat_le, hnext, hcol]
      simp only [UInt32.reduceToNat]
      omega
    rw [TextPage.write, screenWidth]
    by_cases hlt : p.col + 1 < 80
    · rw [if_pos hlt, if_neg (fun hge ↦ hfull.1 hge hlt)]
      exact hput
    · rw [if_neg hlt, if_pos (hfull.2 hlt)]
      exact hput.newline hy

/-- **Scrolling moves the view down by one row**, onto a row that is blank. -/
theorem scroll (h : Views top p d) (hy : d.y.toNat = 25) (hblank : p.BlankFrom 0x20)
    (hx : p.col = 0) (stores : List ℕ) :
    Views (top + 1) p { d with
      screen := fun i ↦ if i < 1920 then d.screen (i + 80) else
        if i < 2000 then blankCell else d.screen i
      y := 24
      stores := stores } where
  x := h.x
  y := by
    have hrow := h.y
    simp only [UInt32.reduceToNat]
    omega
  cell i hi j hj := by
    have hrow := h.y
    rw [screenHeight] at hi
    rw [screenWidth] at hj ⊢
    dsimp only
    by_cases hlast : i < 24
    · rw [if_pos (by omega), show i * 80 + j + 80 = (i + 1) * 80 + j by omega,
        show top + 1 + i = top + (i + 1) by omega]
      exact h.cell (i + 1) (by rw [screenHeight]; omega) j hj
    · rw [if_neg (by omega), if_pos (by omega), character_blankCell]
      exact (hblank _ _ (Or.inr ⟨by omega, by omega⟩)).symm

end Views

/-! ### Printing -/

/-- **The console shows the page**: the last 25 rows of it, with nothing behind the cursor, and no
store went outside of the screen. -/
structure Shows (p : TextPage UInt8) (d : VgaDriver) : Prop where
  /-- The view. -/
  views : Views (p.top screenHeight) p d
  /-- The cursor is inside its row. -/
  col : p.col < screenWidth
  /-- The page is blank behind it. -/
  blank : p.BlankFrom 0x20
  /-- The stores. -/
  stores : d.StoresOnScreen

theorem stores_place (h : d.StoresOnScreen) (hy : d.y.toNat < 25)
    (hx : d.x.toNat < 80) (c : UInt8) :
    (d.place c).StoresOnScreen := by
  by_cases hc : c = 10
  · rw [place_of_eq hc]
    exact h
  · have hstore : ∀ i ∈ (d.y * 80 + d.x).toNat :: d.stores, i < screenWidth * screenHeight := by
      intro i hi
      rcases List.mem_cons.1 hi with rfl | hi
      · rw [toNat_index hy hx, screenWidth, screenHeight]
        omega
      · exact h i hi
    rw [place_of_ne hc]
    split
    · exact hstore
    · exact hstore

namespace Shows

variable {p : TextPage UInt8}

/-- The row of the cursor on the screen. -/
theorem toNat_y (h : Shows p d) : d.y.toNat = min p.row 24 := by
  have hrow := h.views.y
  rw [TextPage.top, screenHeight] at hrow
  omega

theorem lt (h : Shows p d) : d.x.toNat < 80 ∧ d.y.toNat < 25 := by
  have hcol := h.col
  have hy := h.toNat_y
  rw [h.views.x]
  exact ⟨hcol, by omega⟩

theorem col_putPage (p : TextPage UInt8) (c : UInt8) : (putPage p c).col < screenWidth := by
  rw [putPage]
  split
  · exact Nat.succ_pos 79
  · exact TextPage.col_write (Nat.succ_pos 79) p c

theorem blank_putPage (h : Shows p d) (c : UInt8) : (putPage p c).BlankFrom 0x20 := by
  rw [putPage]
  split
  · exact h.blank.newline
  · exact h.blank.write screenWidth c

/-- A row that ends leaves the cursor in the first column of the next one. -/
theorem row_putPage (p : TextPage UInt8) (c : UInt8) :
    (putPage p c).row = p.row ∨ (putPage p c).row = p.row + 1 ∧ (putPage p c).col = 0 := by
  rw [putPage]
  split
  · exact Or.inr ⟨rfl, rfl⟩
  · rw [TextPage.write]
    split
    · exact Or.inl rfl
    · exact Or.inr ⟨rfl, rfl⟩

/-- **`putchar`** puts the character on the page that the console shows. -/
theorem putchar (h : Shows p d) (c : UInt8) : Shows (putPage p c) (d.putchar c) := by
  obtain ⟨hx, hy⟩ := h.lt
  have hviews := h.views.place hy h.col c
  have hstores := stores_place h.stores hy hx c
  have hcol := col_putPage p c
  have hblank := h.blank_putPage c
  have hrow := row_putPage p c
  have hold := h.toNat_y
  rw [VgaDriver.putchar]
  generalize d.place c = d' at hviews hstores ⊢
  generalize putPage p c = p' at hviews hcol hblank hrow ⊢
  have hy' := hviews.y
  rw [TextPage.top, screenHeight] at hy'
  have hge : d'.y ≥ 25 ↔ 25 ≤ d'.y.toNat := by
    rw [ge_iff_le, UInt32.le_iff_toNat_le]
    rfl
  by_cases hleft : d'.y ≥ 25
  · -- the cursor has left the screen, so its row is a new one
    rw [if_pos hleft]
    rw [hge] at hleft
    obtain ⟨hnext, hfirst⟩ : p'.row = p.row + 1 ∧ p'.col = 0 := by
      rcases hrow with hrow | hrow
      · omega
      · exact hrow
    have htop : p'.top screenHeight = p.top screenHeight + 1 := by
      rw [TextPage.top, TextPage.top, screenHeight]
      omega
    obtain ⟨stores, hscroll, hstores'⟩ := scroll_eq hstores
    have hscrolled := hviews.scroll (by omega) hblank hfirst stores
    rw [← htop] at hscrolled
    rw [hscroll]
    exact ⟨hscrolled.of_crtc _, hcol, hblank, hstores'⟩
  · rw [if_neg hleft]
    rw [hge] at hleft
    have htop : p'.top screenHeight = p.top screenHeight := by
      rw [TextPage.top, TextPage.top, screenHeight]
      omega
    rw [← htop] at hviews
    exact ⟨hviews.of_crtc _, hcol, hblank, hstores⟩

/-- Every sequence of characters goes on the page. -/
theorem foldl_putchar (h : Shows p d) (text : List UInt8) :
    Shows (text.foldl putPage p) (text.foldl VgaDriver.putchar d) := by
  induction text generalizing p d with
  | nil => exact h
  | cons c text ih => exact ih (h.putchar c)

/-- What `print` prints is what stands in front of the terminator. -/
theorem print (h : Shows p d) (str : List UInt8) :
    Shows ((str.takeWhile (· != 0)).foldl putPage p) (VgaDriver.print str d) := by
  induction str generalizing p d with
  | nil => exact h
  | cons c str ih =>
    rw [VgaDriver.print]
    by_cases hc : c = 0
    · rw [if_pos hc, List.takeWhile_cons_of_neg (by simp [hc])]
      exact h
    · rw [if_neg hc, List.takeWhile_cons_of_pos (by simpa using hc), List.foldl_cons]
      exact ih (h.putchar c)

end Shows

/-- `initialize` blanks the screen. -/
theorem initializeVga_eq (d : VgaDriver) :
    d.initializeVga =
      { d with
        screen := fun i ↦ if i < 2000 then blankCell else d.screen i
        crtc := (d.crtc.enableCursor 14 15).updateCursor 0 0
        stores := ((List.range 2000).map (0 + ·)).reverse ++ d.stores } := by
  have hfill := foldl_store (d := d) 0 (fun _ _ ↦ blankCell) (fun _ ↦ blankCell) 2000
    fun _ _ _ _ ↦ rfl
  have hzero : (fun (d : VgaDriver) i ↦ d.store i blankCell) =
      fun (d : VgaDriver) k ↦ d.store (0 + k) blankCell := by
    funext d i
    rw [Nat.zero_add]
  have hscreen : (fun i ↦ if 0 ≤ i ∧ i < 0 + 2000 then blankCell else d.screen i) =
      fun i ↦ if i < 2000 then blankCell else d.screen i :=
    funext fun i ↦ if_congr (by omega) rfl rfl
  rw [hscreen] at hfill
  rw [initializeVga, show screenWidth * screenHeight = 2000 from rfl, hzero, hfill]

/-- A freshly initialised console shows the empty page. -/
theorem shows_initializeVga (screen : ℕ → UInt16) (crtc : Crtc) :
    Shows (.empty 0x20) (fresh screen crtc).initializeVga := by
  rw [initializeVga_eq]
  refine ⟨⟨rfl, rfl, fun i hi j hj ↦ ?_⟩, Nat.succ_pos 79, TextPage.blankFrom_empty, ?_⟩
  · rw [screenHeight] at hi
    rw [screenWidth] at hj ⊢
    dsimp only
    rw [if_pos (by omega)]
    exact character_blankCell
  · refine storesOnScreen_append ?_ 0 2000 (Nat.le_refl _)
    exact fun i hi ↦ absurd hi List.not_mem_nil

/-- **The console is a window onto a page of text.** After any text on a freshly initialised
console, the character in each cell of the screen is the one in the last 25 rows of the page the
text makes, the cursor is where the page's is, and no store went outside of the screen. -/
theorem console_shows_page (screen : ℕ → UInt16) (crtc : Crtc) (text : List UInt8) :
    let d := text.foldl VgaDriver.putchar (fresh screen crtc).initializeVga
    let p := text.foldl putPage (.empty 0x20)
    (∀ i < screenHeight, ∀ j < screenWidth,
        character (d.screen (i * screenWidth + j)) = p.view screenHeight i j) ∧
      d.x.toNat = p.col ∧ d.y.toNat + p.top screenHeight = p.row ∧
      (∀ i ∈ d.stores, i < screenWidth * screenHeight) ∧
      d.x.toNat < screenWidth ∧ d.y.toNat < screenHeight := by
  have hshows := (shows_initializeVga screen crtc).foldl_putchar text
  exact ⟨hshows.views.cell, hshows.views.x, (Nat.add_comm _ _).trans hshows.views.y, hshows.stores,
    hshows.lt⟩

end VgaDriver

end Aidos.Console
