import Mathlib.Data.Nat.Notation

/-!
# The ATA driver

`ATADrive::read_sectors` of `ata.cpp`, on a drive that is a set of registers behind eight ports. The
ports are counted from `_io_base`, where `initialize` found the drive.

The drive answers reads of its status register as it likes: the `k`-th one finds `status k`. On the
command `0x20` it looks the sector up that its address registers name, 28 bits of them, and then
hands out the words of that sector through the data port, one after the other.
-/

namespace Aidos.Disk

/-! ### The drive -/

/-- The drive. -/
structure AtaDevice where
  /-- Byte `j` of a sector. -/
  sector : ℕ → ℕ → UInt8
  /-- What the `k`-th read of the status register finds. -/
  status : ℕ → UInt8
  /-- Reads of the status register so far. -/
  statusReads : ℕ
  /-- How many sectors a command is about. -/
  sectorCount : UInt8
  /-- Bits 0 to 7 of the address. -/
  lbaLow : UInt8
  /-- Bits 8 to 15. -/
  lbaMid : UInt8
  /-- Bits 16 to 23. -/
  lbaHigh : UInt8
  /-- Bits 24 to 27 in the low nibble, and which drive is selected. -/
  driveHead : UInt8
  /-- The words behind the data port. -/
  words : ℕ → UInt16
  /-- How many of them were read. -/
  wordsRead : ℕ

namespace AtaDevice

variable (dev : AtaDevice)

/-- The sector that the address registers name. -/
def address : ℕ :=
  dev.lbaLow.toNat + 256 * dev.lbaMid.toNat + 65536 * dev.lbaHigh.toNat +
    16777216 * (dev.driveHead.toNat % 16)

/-- The command `READ SECTORS`: the sector is ready at the data port. -/
def readCommand : AtaDevice :=
  { dev with
    words := fun i ↦ (dev.sector dev.address (2 * i)).toUInt16 |||
      ((dev.sector dev.address (2 * i + 1)).toUInt16 <<< 8)
    wordsRead := 0 }

/-- `outb(_io_base + port, v)`. -/
def outb (port : ℕ) (v : UInt8) : AtaDevice :=
  match port with
  | 2 => { dev with sectorCount := v }
  | 3 => { dev with lbaLow := v }
  | 4 => { dev with lbaMid := v }
  | 5 => { dev with lbaHigh := v }
  | 6 => { dev with driveHead := v }
  | 7 => if v = 0x20 then dev.readCommand else dev
  | _ => dev

/-- `inb(_io_base + 7)`. -/
def inStatus : UInt8 × AtaDevice :=
  (dev.status dev.statusReads, { dev with statusReads := dev.statusReads + 1 })

/-- `inw(_io_base)`. -/
def inData : UInt16 × AtaDevice :=
  (dev.words dev.wordsRead, { dev with wordsRead := dev.wordsRead + 1 })

end AtaDevice

/-! ### The driver -/

/-- `MAX_WAIT`. -/
abbrev maxWait : ℕ := 100000

/-- `ATADrive`, as far as `read_sectors` looks at it. -/
structure AtaDrive where
  /-- `_io_base`: zero unless a drive was found. -/
  ioBase : UInt16
  /-- `_is_master`. -/
  isMaster : Bool
  deriving DecidableEq

/-- The wait for BSY to clear, giving up after so many busy answers. -/
def waitNotBusy : ℕ → AtaDevice → Bool × AtaDevice
  | 0, dev => (false, dev)
  | wait + 1, dev =>
    let (status, dev) := dev.inStatus
    if status &&& 0x80 ≠ 0 then waitNotBusy wait dev else (true, dev)

/-- The wait for DRQ or ERR. -/
def waitData : ℕ → AtaDevice → Bool × AtaDevice
  | 0, dev => (false, dev)
  | wait + 1, dev =>
    let (status, dev) := dev.inStatus
    if status &&& 0x01 ≠ 0 then (false, dev)
    else if status &&& 0x08 ≠ 0 then (true, dev)
    else waitData wait dev

/-- `buf[i] = b`, with an index of 64 bits. -/
def storeAt (buf : UInt64 → UInt8) (i : UInt64) (b : UInt8) : UInt64 → UInt8 :=
  fun j ↦ if j = i then b else buf j

/-- The 256 words of a sector: the loop over `i`, with so many words to go. -/
def transfer (sector : UInt64) : ℕ → UInt64 → (UInt64 → UInt8) → AtaDevice →
    (UInt64 → UInt8) × AtaDevice
  | 0, _, buf, dev => (buf, dev)
  | n + 1, i, buf, dev =>
    let (data, dev) := dev.inData
    let buf := storeAt buf (sector * 512 + i * 2) (data &&& 0xFF).toUInt8
    let buf := storeAt buf (sector * 512 + i * 2 + 1) ((data >>> 8) &&& 0xFF).toUInt8
    transfer sector n (i + 1) buf dev

namespace AtaDrive

variable (drive : AtaDrive)

/-- The registers of a request for one sector, and the command. -/
def command (curLba : UInt32) (dev : AtaDevice) : AtaDevice :=
  let driveSelect : UInt8 := if drive.isMaster then 0xE0 else 0xF0
  let dev := dev.outb 6 (driveSelect ||| ((curLba >>> 24) &&& 0x0F).toUInt8)
  let dev := dev.outb 2 1
  let dev := dev.outb 3 (curLba &&& 0xFF).toUInt8
  let dev := dev.outb 4 ((curLba >>> 8) &&& 0xFF).toUInt8
  let dev := dev.outb 5 ((curLba >>> 16) &&& 0xFF).toUInt8
  dev.outb 7 0x20

/-- The loop over the sectors, with so many sectors to go. A wait reads the status once more than
`MAX_WAIT` times before it gives up. -/
def sectorLoop (lba : UInt64) : ℕ → UInt64 → (UInt64 → UInt8) → AtaDevice →
    Bool × (UInt64 → UInt8) × AtaDevice
  | 0, _, buf, dev => (true, buf, dev)
  | n + 1, sector, buf, dev =>
    let curLba := (lba + sector).toUInt32
    match waitNotBusy (maxWait + 1) dev with
    | (false, dev) => (false, buf, dev)
    | (true, dev) =>
      match waitData (maxWait + 1) (drive.command curLba dev) with
      | (false, dev) => (false, buf, dev)
      | (true, dev) =>
        let (buf, dev) := transfer sector 256 0 buf dev
        sectorLoop lba n (sector + 1) buf dev

/-- `read_sectors(lba, count, buffer)`, where no buffer is a null pointer: whether it succeeded, the
buffer and the drive afterwards. -/
def readSectors (lba count : UInt64) (buffer : Option (UInt64 → UInt8)) (dev : AtaDevice) :
    Bool × Option (UInt64 → UInt8) × AtaDevice :=
  match buffer with
  | none => (false, none, dev)
  | some buf =>
    if count = 0 ∨ drive.ioBase = 0 then (false, some buf, dev)
    -- only support 28-bit LBA
    else if lba > 0x0FFFFFFF then (false, some buf, dev)
    else
      let (ok, buf, dev) := drive.sectorLoop lba count.toNat 0 buf dev
      (ok, some buf, dev)

end AtaDrive

end Aidos.Disk
