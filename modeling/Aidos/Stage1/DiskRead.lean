import Mathlib.Data.Nat.Notation

/-!
# Reading sectors in stage 1

`disk_read` of `main.asm` with what it calls, instruction by instruction: the path over the INT 13h
extensions, which fills the disk address packet in memory and hands it over, and the path over
cylinders, heads and sectors, which reads one sector at a time.

A 32-bit register is kept as its two halves, since `pusha` and `popa` save the low ones only. The
packet lies in `.bss`, which nothing initialises, so its bytes are whatever the machine starts with.

## The BIOS

INT 13h is not part of the repository. A machine carries the answers it will give to the reads it is
asked: whether the carry flag comes back set, and what it leaves in the 16-bit registers, which the
code saves around the call. A read over the extensions that fails also stores into the packet: its
block count becomes the number of blocks that were transferred. The upper halves, the segment
registers and, over a reset, the registers other than `ax` are left alone. The data that a read
transfers goes to the caller's buffer, which holds none of the variables below. `trace` records the
requests, newest first.
-/

namespace Aidos.Stage1

/-! ### Registers -/

/-- A 32-bit register: its upper half and the 16-bit register in its lower half. -/
structure Reg32 where
  /-- Bits 16 to 31. -/
  hi : UInt16
  /-- Bits 0 to 15. -/
  lo : UInt16
  deriving DecidableEq

/-- The value of a 32-bit register. -/
def Reg32.toNat (r : Reg32) : ℕ := r.hi.toNat * 65536 + r.lo.toNat

/-- The 32-bit register with a given value. -/
def Reg32.ofNat (n : ℕ) : Reg32 := ⟨UInt16.ofNat (n / 65536), UInt16.ofNat n⟩

/-- The low byte of a 16-bit register (`al`, `cl`, `dl`). -/
def low (w : UInt16) : UInt8 := UInt8.ofNat w.toNat

/-- The high byte of a 16-bit register (`ah`, `ch`, `dh`). -/
def high (w : UInt16) : UInt8 := UInt8.ofNat (w.toNat / 256)

/-- The 16-bit register with given bytes. -/
def pack (h l : UInt8) : UInt16 := UInt16.ofNat (h.toNat * 256 + l.toNat)

/-- The registers `disk_read` works with. -/
structure Regs where
  /-- `eax`. -/
  eax : Reg32
  /-- `esi`. -/
  esi : Reg32
  /-- `bx`. -/
  bx : UInt16
  /-- `cx`. -/
  cx : UInt16
  /-- `dx`. -/
  dx : UInt16
  /-- `di`. -/
  di : UInt16
  /-- `es`. -/
  es : UInt16
  deriving DecidableEq

/-- `popa`, with the registers as `pusha` saved them: it restores the 16-bit registers. -/
def Regs.popa (saved r : Regs) : Regs :=
  { r with
    eax := { r.eax with lo := saved.eax.lo }
    esi := { r.esi with lo := saved.esi.lo }
    bx := saved.bx
    cx := saved.cx
    dx := saved.dx
    di := saved.di }

/-- `div r`, of `dx:ax`: the quotient and the remainder, unless the processor raises a divide error.
-/
def div (dx ax r : UInt16) : Option (UInt16 × UInt16) :=
  let n := dx.toNat * 65536 + ax.toNat
  if r = 0 ∨ n / r.toNat ≥ 65536 then none
  else some (UInt16.ofNat (n / r.toNat), UInt16.ofNat (n % r.toNat))

/-! ### Memory -/

/-- A byte stored at an offset. -/
def storeByte (mem : ℕ → UInt8) (i : ℕ) (b : UInt8) : ℕ → UInt8 :=
  fun j ↦ if j = i then b else mem j

/-- A word stored at an offset. -/
def storeWord (mem : ℕ → UInt8) (i : ℕ) (w : UInt16) : ℕ → UInt8 :=
  storeByte (storeByte mem i (low w)) (i + 1) (high w)

/-- A doubleword stored at an offset. -/
def storeDword (mem : ℕ → UInt8) (i : ℕ) (r : Reg32) : ℕ → UInt8 :=
  storeWord (storeWord mem i r.lo) (i + 2) r.hi

/-! ### The BIOS -/

/-- What INT 13h answers to a read. -/
structure Answer where
  /-- The carry flag: set on failure. -/
  carry : Bool
  /-- What it leaves in `ax`, `bx`, `cx`, `dx`, `si` and `di`. -/
  clobber : UInt16 × UInt16 × UInt16 × UInt16 × UInt16 × UInt16
  /-- The block count that a read over the extensions leaves in its packet when it fails. -/
  blocks : UInt16

/-- What INT 13h was asked. -/
inductive Request where
  /-- `ah = 42h`: the drive, the sixteen bytes at `ds:si`, and whether it succeeded. -/
  | extended (drive : UInt8) (packet : List UInt8) (ok : Bool)
  /-- `ah = 02h`: `al` sectors from the address in `cx` and `dh`, to `es:bx`. -/
  | chs (drive al : UInt8) (cx : UInt16) (dh : UInt8) (es bx : UInt16) (ok : Bool)
  /-- `ah = 00h`: reset. -/
  | reset (drive : UInt8)
  deriving DecidableEq

/-- The machine, as far as `disk_read` sees it. -/
structure Machine where
  /-- The registers. -/
  regs : Regs
  /-- `boot_drive`. -/
  bootDrive : UInt8
  /-- `disk_extended_present`. -/
  diskExtendedPresent : UInt8
  /-- `bdb_sectors_per_track`. -/
  sectorsPerTrack : UInt16
  /-- `bdb_heads`. -/
  heads : UInt16
  /-- The bytes from `extension_dap` on. -/
  extensionDap : ℕ → UInt8
  /-- The answer to the `k`-th read. -/
  bios : ℕ → Answer
  /-- Reads answered so far. -/
  reads : ℕ
  /-- What INT 13h was asked, newest first. -/
  trace : List Request

/-- How `disk_read` ends. -/
inductive Exit where
  /-- It returns. -/
  | returned
  /-- It jumps to `floppy_error`. -/
  | floppyError
  /-- A division faults. -/
  | divideError
  deriving DecidableEq

namespace Machine

variable (m : Machine)

/-- `int 13h`, for a read: whether it succeeded. -/
def int13 (request : Bool → Request) : Bool × Machine :=
  let answer := m.bios m.reads
  let (ax, bx, cx, dx, si, di) := answer.clobber
  (!answer.carry,
    { m with
      regs :=
        { m.regs with
          eax := { m.regs.eax with lo := ax }
          esi := { m.regs.esi with lo := si }
          bx := bx
          cx := cx
          dx := dx
          di := di }
      reads := m.reads + 1
      trace := request (!answer.carry) :: m.trace })

/-- `int 13h` with `ah = 42h`: on failure it sets the block count of the packet at `ds:si`. -/
def int13Extended : Bool × Machine :=
  let (ok, m') := m.int13 (.extended (low m.regs.dx) ((List.range 16).map m.extensionDap))
  if ok then (true, m')
  else
    let blocks := (m.bios m.reads).blocks
    (false, { m' with extensionDap := storeWord m.extensionDap 2 blocks })

/-- `disk_reset`, which saves `ax` and `dx`. -/
def diskReset : Machine := { m with trace := .reset m.bootDrive :: m.trace }

/-- `lba_to_chs`. -/
def lbaToChs : Option Machine := do
  let lba := m.regs.eax.lo
  let cx := m.sectorsPerTrack
  -- the product's upper half is assumed to be zero
  let si := m.heads * cx
  let (cylinder, _) ← div 0 lba si
  let (track, _) ← div 0 lba cx
  let (_, head) ← div 0 track m.heads
  let (_, sector) ← div 0 lba cx
  let cl := (low sector + 1) &&& 0x3F
  let ch := low cylinder
  let al := (high cylinder &&& 0x03) <<< 6
  some { m with regs :=
    { m.regs with cx := pack ch (cl ||| al), dx := pack (low head) (low head) } }

/-! ### The two paths -/

/-- `.ext_retry`, with `di` tries left. -/
def extRetry : ℕ → Machine → Exit × Machine
  | 0, m => (.floppyError, m)
  | di + 1, m =>
    let (ok, m') := m.int13Extended
    let m' := { m' with regs := m.regs.popa m'.regs }
    -- the count is not stored again before the next try
    if ok then (.returned, m') else extRetry di m'.diskReset

/-- `extension_dap` with the fields filled in that the code fills in. -/
def fillDap : ℕ → UInt8 :=
  let dap := storeByte m.extensionDap 0 0x10
  let dap := storeDword dap 8 m.regs.eax
  let dap := storeWord dap 6 m.regs.es
  let dap := storeWord dap 4 m.regs.bx
  storeByte dap 2 (low m.regs.cx)

/-- The path over the INT 13h extensions. -/
def extensions : Exit × Machine :=
  let eax := { m.regs.eax with lo := pack 0x42 (low m.regs.eax.lo) }
  extRetry 3 { m with regs := { m.regs with eax := eax }, extensionDap := m.fillDap }

/-- `.inner_loop`, with `di` tries left. -/
def innerLoop : ℕ → Machine → Bool × Machine
  | 0, m => (false, m)
  | di + 1, m =>
    let (ok, m') := m.int13
      (.chs m.bootDrive (low m.regs.eax.lo) m.regs.cx (high m.regs.dx) m.regs.es m.regs.bx)
    let m' := { m' with regs := m.regs.popa m'.regs }
    if ok then (true, m') else innerLoop di m'

/-- `.outer_loop`. It counts `di` down to zero, so `65536` iterations are enough. -/
def outerLoop : ℕ → Machine → Exit × Machine
  | 0, m => (.returned, m)
  | fuel + 1, m =>
    match { m with regs := { m.regs with eax := m.regs.esi } }.lbaToChs with
    | none => (.divideError, m)
    | some m =>
      -- read one at a time, with three tries
      let di := m.regs.di - 1
      let eax := { m.regs.eax with lo := pack 0x02 1 }
      match innerLoop 3 { m with regs := { m.regs with eax := eax, di := 3 } } with
      | (false, m) => (.floppyError, m)
      | (true, m) =>
        let m := { m with regs := { m.regs with di := di } }
        if di = 0 then (.returned, m)
        else
          outerLoop fuel
            { m with regs :=
                { m.regs with
                  esi := .ofNat (m.regs.esi.toNat + 1)
                  eax := { m.regs.eax with lo := m.regs.es + 32 }
                  es := m.regs.es + 32 } }

/-- The path over cylinders, heads and sectors. -/
def noDiskExtensions : Exit × Machine :=
  let cx := pack 0 (low m.regs.cx)
  outerLoop 65536 { m with regs := { m.regs with esi := m.regs.eax, cx := cx, di := cx } }

/-- `disk_read`. On return the 16-bit registers and `es` are as they were. -/
def diskRead : Exit × Machine :=
  let (exit, m') := if m.diskExtendedPresent = 1 then m.extensions else m.noDiskExtensions
  match exit with
  | .returned => (.returned, { m' with regs := { m.regs.popa m'.regs with es := m.regs.es } })
  | exit => (exit, m')

end Machine

end Aidos.Stage1
