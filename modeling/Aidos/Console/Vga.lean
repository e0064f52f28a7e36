import Mathlib.Data.Nat.Notation

/-!
# The VGA console

`VGADriver` of `vga.cpp`, and `stdio::print`. The screen is the memory from `0xB8000` on in 16-bit
cells, two thousand of which are visible; `stores` records the cells that were stored to, newest
first, so that a store outside of the screen would show. The loops of the source are folds over
their ranges.

The cursor of the hardware is set through the CRT controller: an index port and a data port in front
of its registers.
-/

namespace Aidos.Console

/-- `SCREEN_WIDTH`. -/
abbrev screenWidth : ℕ := 80

/-- `SCREEN_HEIGHT`. -/
abbrev screenHeight : ℕ := 25

/-- `DEFAULT_ATTR`. -/
def defaultAttr : UInt16 := 0x0F00

/-- `DEFAULT_ATTR | ' '`. -/
def blankCell : UInt16 := defaultAttr ||| 0x20

/-- The CRT controller: the register selected through port `0x3D4`, and the registers. -/
structure Crtc where
  /-- The index register. -/
  index : UInt8
  /-- The registers behind it. -/
  register : UInt8 → UInt8

namespace Crtc

variable (crtc : Crtc)

/-- `outb(0x3D4, i)`. -/
def select (i : UInt8) : Crtc := { crtc with index := i }

/-- `outb(0x3D5, v)`. -/
def output (v : UInt8) : Crtc :=
  { crtc with register := fun i ↦ if i = crtc.index then v else crtc.register i }

/-- `inb(0x3D5)`. -/
def input : UInt8 := crtc.register crtc.index

/-- `enable_cursor(cursor_start, cursor_end)`. -/
def enableCursor (cursorStart cursorEnd : UInt8) : Crtc :=
  let crtc := crtc.select 0x0A
  let crtc := crtc.output ((crtc.input &&& 0xC0) ||| cursorStart)
  let crtc := crtc.select 0x0B
  crtc.output ((crtc.input &&& 0xE0) ||| cursorEnd)

/-- `update_cursor(x, y)`. -/
def updateCursor (x y : UInt8) : Crtc :=
  let pos := y.toUInt16 * 80 + x.toUInt16
  let crtc := (crtc.select 0x0F).output (pos &&& 0xFF).toUInt8
  (crtc.select 0x0E).output ((pos >>> 8) &&& 0xFF).toUInt8

end Crtc

/-- `VGADriver`, with the screen and the CRT controller. -/
structure VgaDriver where
  /-- The cells from `SCREEN_ADDRESS` on. -/
  screen : ℕ → UInt16
  /-- `x`. -/
  x : UInt32
  /-- `y`. -/
  y : UInt32
  /-- The CRT controller. -/
  crtc : Crtc
  /-- The cells stored to. -/
  stores : List ℕ

/-- A fresh driver over whatever the hardware holds. -/
def VgaDriver.fresh (screen : ℕ → UInt16) (crtc : Crtc) : VgaDriver := ⟨screen, 0, 0, crtc, []⟩

namespace VgaDriver

variable (d : VgaDriver)

/-- `screen[i] = v`. -/
def store (i : ℕ) (v : UInt16) : VgaDriver :=
  { d with screen := fun j ↦ if j = i then v else d.screen j, stores := i :: d.stores }

/-- `initialize()`. The cursor of the driver is left alone. -/
def initializeVga : VgaDriver :=
  let d := (List.range (screenWidth * screenHeight)).foldl (fun d i ↦ d.store i blankCell) d
  { d with crtc := (d.crtc.enableCursor 14 15).updateCursor 0 0 }

/-- A `char` in an expression: it is signed. -/
def promote (c : UInt8) : UInt16 := if c < 128 then c.toUInt16 else 0xFF00 ||| c.toUInt16

/-- The head of `putchar`: place the character, or end the row. -/
def place (c : UInt8) : VgaDriver :=
  if c = 10 then { d with y := d.y + 1, x := 0 }
  else
    let d := d.store (d.y * 80 + d.x).toNat (defaultAttr ||| promote c)
    let d := { d with x := d.x + 1 }
    if d.x ≥ 80 then { d with x := 0, y := d.y + 1 } else d

/-- The copy of one row to the row above. -/
def copyRow (row : ℕ) : VgaDriver :=
  (List.range screenWidth).foldl
    (fun d col ↦ d.store ((row - 1) * screenWidth + col) (d.screen (row * screenWidth + col))) d

/-- The scrolling of `putchar`. -/
def scroll : VgaDriver :=
  let d := (List.range' 1 (screenHeight - 1)).foldl copyRow d
  let d := (List.range screenWidth).foldl
    (fun d col ↦ d.store ((screenHeight - 1) * screenWidth + col) blankCell) d
  { d with y := 24 }

/-- `putchar(c)`. -/
def putchar (c : UInt8) : VgaDriver :=
  let d := d.place c
  let d := if d.y ≥ 25 then d.scroll else d
  { d with crtc := d.crtc.updateCursor d.x.toUInt8 d.y.toUInt8 }

/-- `print(dev, str)`: the characters up to the terminator. -/
def print : List UInt8 → VgaDriver → VgaDriver
  | [], d => d
  | c :: str, d => if c = 0 then d else print str (d.putchar c)

end VgaDriver

end Aidos.Console
