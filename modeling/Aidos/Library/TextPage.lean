import Mathlib.Data.Nat.Notation
import Mathlib.Tactic.Common

/-!
# Text pages

A page of text without end, written left to right and top to bottom: rows of a fixed width, the
cursor where the next cell goes, and nothing but blanks behind it. A console of a given height shows
the last rows of it, from `top` on.
-/

/-- An unbounded page of cells with the cursor. -/
structure TextPage (α : Type*) where
  /-- The cell in a row and a column. -/
  cell : ℕ → ℕ → α
  /-- The row of the cursor. -/
  row : ℕ
  /-- The column of the cursor. -/
  col : ℕ

namespace TextPage

variable {α : Type*}

/-- The empty page. -/
def empty (blank : α) : TextPage α := ⟨fun _ _ ↦ blank, 0, 0⟩

/-- The cursor goes to the start of the next row. -/
def newline (p : TextPage α) : TextPage α := { p with row := p.row + 1, col := 0 }

/-- A cell is put at the cursor. -/
def put (p : TextPage α) (a : α) : TextPage α :=
  { p with
    cell := fun r c ↦ if r = p.row ∧ c = p.col then a else p.cell r c
    col := p.col + 1 }

/-- A cell is put at the cursor; a full row ends. -/
def write (width : ℕ) (p : TextPage α) (a : α) : TextPage α :=
  if p.col + 1 < width then p.put a else (p.put a).newline

/-- The first of the last `height` rows. -/
def top (height : ℕ) (p : TextPage α) : ℕ := p.row + 1 - height

/-- What stands in a cell of the window onto the last `height` rows. -/
def view (height : ℕ) (p : TextPage α) (i j : ℕ) : α := p.cell (p.top height + i) j

/-- Nothing is written from the cursor on. -/
def BlankFrom (blank : α) (p : TextPage α) : Prop :=
  ∀ r c, p.row < r ∨ r = p.row ∧ p.col ≤ c → p.cell r c = blank

variable {blank : α} {p : TextPage α}

theorem blankFrom_empty : (empty blank).BlankFrom blank := fun _ _ _ ↦ rfl

theorem BlankFrom.newline (h : p.BlankFrom blank) : p.newline.BlankFrom blank := by
  intro r c hrc
  refine h r c (Or.inl ?_)
  dsimp only [TextPage.newline] at hrc
  omega

theorem BlankFrom.put (h : p.BlankFrom blank) (a : α) : (p.put a).BlankFrom blank := by
  intro r c hrc
  dsimp only [TextPage.put] at hrc ⊢
  rw [if_neg (by omega)]
  exact h r c (by omega)

theorem BlankFrom.write (h : p.BlankFrom blank) (width : ℕ) (a : α) :
    (p.write width a).BlankFrom blank := by
  rw [TextPage.write]
  split
  · exact h.put a
  · exact (h.put a).newline

/-- The cursor stays inside its row. -/
theorem col_write {width : ℕ} (hwidth : 0 < width) (p : TextPage α) (a : α) :
    (p.write width a).col < width := by
  rw [TextPage.write]
  split
  · next hlt => exact hlt
  · exact hwidth

end TextPage
