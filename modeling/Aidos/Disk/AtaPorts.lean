import Mathlib.Data.Fin.Basic
import Aidos.Disk.Ata

/-!
# The ATA driver at the ports

`ATADrive` of `ata.cpp` as it meets the machine: two channels with eight ports each, and up to two
drives on a channel. What is written to the registers of a channel reaches both of its drives, the
drive register also selects one of them, and commands and reads are for the selected drive alone. A
drive that is not there answers like any other: its status register reads as it likes.

`initialize` asks the four drives in turn who they are, and remembers the first that answers.
-/

namespace Aidos.Disk

/-! ### The ports -/

/-- A drive and what it answers to the command `IDENTIFY`. -/
structure AtaUnit where
  /-- The registers and the contents. -/
  device : AtaDevice
  /-- The words of the answer. -/
  identify : ℕ → UInt16

namespace AtaUnit

variable (u : AtaUnit)

/-- A command for this drive. -/
def command (v : UInt8) : AtaUnit :=
  if v = 0xEC then { u with device := { u.device with words := u.identify, wordsRead := 0 } }
  else { u with device := u.device.outb 7 v }

/-- A register of its channel is written. -/
def register (port : ℕ) (v : UInt8) : AtaUnit := { u with device := u.device.outb port v }

end AtaUnit

/-- A channel: its drives, the first is the master, and which of them is selected. -/
structure AtaChannel where
  /-- The drives. -/
  units : Fin 2 → AtaUnit
  /-- The selected drive. -/
  selected : Fin 2

namespace AtaChannel

variable (c : AtaChannel)

/-- The channel with another state of one drive. -/
def setUnit (d : Fin 2) (u : AtaUnit) : AtaChannel :=
  { c with units := fun d' ↦ if d' = d then u else c.units d' }

/-- A byte is written to a port of the channel. -/
def outb (port : ℕ) (v : UInt8) : AtaChannel :=
  if port = 7 then c.setUnit c.selected ((c.units c.selected).command v)
  else
    { units := fun d ↦ (c.units d).register port v
      selected := if port = 6 then (if v &&& 0x10 = 0 then 0 else 1) else c.selected }

/-- The status register of the selected drive is read. -/
def inStatus : UInt8 × AtaChannel :=
  let u := c.units c.selected
  (u.device.inStatus.1, c.setUnit c.selected { u with device := u.device.inStatus.2 })

/-- The data register of the selected drive is read. -/
def inData : UInt16 × AtaChannel :=
  let u := c.units c.selected
  (u.device.inData.1, c.setUnit c.selected { u with device := u.device.inData.2 })

end AtaChannel

/-- The ports of the machine, as far as drives are behind them. -/
structure AtaPorts where
  /-- The primary and the secondary channel. -/
  channels : Fin 2 → AtaChannel

/-- `channels[ch].io_base`. -/
def channelBase (ch : Fin 2) : UInt16 := if ch = 0 then 0x1F0 else 0x170

/-- `drives[drv]`. -/
def driveSelect (drv : Fin 2) : UInt8 := if drv = 0 then 0xA0 else 0xB0

/-- The channel that a port belongs to, and the port's number in it. -/
def channelOfPort (port : UInt16) : Option (Fin 2 × ℕ) :=
  if 0x1F0 ≤ port.toNat ∧ port.toNat < 0x1F8 then some (0, port.toNat - 0x1F0)
  else if 0x170 ≤ port.toNat ∧ port.toNat < 0x178 then some (1, port.toNat - 0x170)
  else none

namespace AtaPorts

variable (p : AtaPorts)

/-- The ports with another state of one channel. -/
def setChannel (ch : Fin 2) (c : AtaChannel) : AtaPorts :=
  { channels := fun ch' ↦ if ch' = ch then c else p.channels ch' }

/-- `outb(port, v)`. -/
def outb (port : UInt16) (v : UInt8) : AtaPorts :=
  match channelOfPort port with
  | some (ch, k) => p.setChannel ch ((p.channels ch).outb k v)
  | none => p

/-- `inb(port)`, for the status registers; nothing else answers. -/
def inb (port : UInt16) : UInt8 × AtaPorts :=
  match channelOfPort port with
  | some (ch, 7) => ((p.channels ch).inStatus.1, p.setChannel ch (p.channels ch).inStatus.2)
  | _ => (0xFF, p)

/-- `inw(port)`, for the data registers. -/
def inw (port : UInt16) : UInt16 × AtaPorts :=
  match channelOfPort port with
  | some (ch, 0) => ((p.channels ch).inData.1, p.setChannel ch (p.channels ch).inData.2)
  | _ => (0xFFFF, p)

/-! ### `initialize` -/

/-- The delay behind the selection: so many reads of the status register. -/
def delay (io : UInt16) : ℕ → AtaPorts → AtaPorts
  | 0, p => p
  | n + 1, p => delay io n (p.inb (io + 7)).2

/-- The wait for BSY to clear: the answer that comes after `MAX_WAIT` busy ones is not looked at. -/
def waitIdle (io : UInt16) : ℕ → AtaPorts → Bool × AtaPorts
  | 0, p => (false, (p.inb (io + 7)).2)
  | wait + 1, p =>
    let (status, p) := p.inb (io + 7)
    if status &&& 0x80 ≠ 0 then waitIdle io wait p else (true, p)

/-- The wait for DRQ or ERR. -/
def waitData (io : UInt16) : ℕ → AtaPorts → Bool × AtaPorts
  | 0, p => (false, p)
  | wait + 1, p =>
    let (status, p) := p.inb (io + 7)
    if status &&& 0x01 ≠ 0 then (false, p)
    else if status &&& 0x08 ≠ 0 then (true, p)
    else waitData io wait p

/-- `identify_data`: so many words of the data register. -/
def inWords (io : UInt16) : ℕ → AtaPorts → List UInt16 × AtaPorts
  | 0, p => ([], p)
  | n + 1, p =>
    let (w, p) := p.inw (io + 0)
    let (ws, p) := inWords io n p
    (w :: ws, p)

/-- `sectors28`: words 60 and 61. -/
def sectors28 (identifyData : List UInt16) : UInt32 :=
  ((identifyData.getD 61 0).toUInt32 <<< 16) ||| (identifyData.getD 60 0).toUInt32

/-- The body of the loop of `initialize`: one drive is asked, and tells its size. -/
def probe (ch drv : Fin 2) : Option UInt32 × AtaPorts :=
  let io := channelBase ch
  let p := p.outb (io + 6) (driveSelect drv)
  let p := delay io 4 p
  match waitIdle io maxWait p with
  | (false, p) => (none, p)
  | (true, p) =>
    let p := p.outb (io + 7) 0xEC
    match waitData io (maxWait + 1) p with
    | (false, p) => (none, p)
    | (true, p) =>
      let (identifyData, p) := inWords io 256 p
      (some (sectors28 identifyData), p)

/-! ### `read_sectors` -/

/-- The wait for BSY to clear in `read_sectors`, which looks at every answer. -/
def waitNotBusy (io : UInt16) : ℕ → AtaPorts → Bool × AtaPorts
  | 0, p => (false, p)
  | wait + 1, p =>
    let (status, p) := p.inb (io + 7)
    if status &&& 0x80 ≠ 0 then waitNotBusy io wait p else (true, p)

/-- The 256 words of a sector, with so many words to go. -/
def transfer (io : UInt16) (sector : UInt64) : ℕ → UInt64 → (UInt64 → UInt8) → AtaPorts →
    (UInt64 → UInt8) × AtaPorts
  | 0, _, buf, p => (buf, p)
  | n + 1, i, buf, p =>
    let (data, p) := p.inw (io + 0)
    let buf := storeAt buf (sector * 512 + i * 2) (data &&& 0xFF).toUInt8
    let buf := storeAt buf (sector * 512 + i * 2 + 1) ((data >>> 8) &&& 0xFF).toUInt8
    transfer io sector n (i + 1) buf p

end AtaPorts

/-- `ATADrive` with all of its fields. -/
structure AtaDriver extends AtaDrive where
  /-- `_total_sectors`. -/
  totalSectors : UInt64
  deriving DecidableEq

namespace AtaDriver

variable (drive : AtaDriver)

/-- `ATADrive()`. -/
def new : AtaDriver := { ioBase := 0, isMaster := true, totalSectors := 0 }

/-- The drives in the order in which `initialize` asks them. -/
def candidates : List (Fin 2 × Fin 2) := [(0, 0), (0, 1), (1, 0), (1, 1)]

/-- The loops of `initialize`, over the drives that are left. -/
def probeAll : List (Fin 2 × Fin 2) → AtaPorts → Bool × AtaDriver × AtaPorts
  | [], p => (false, drive, p)
  | (ch, drv) :: rest, p =>
    match p.probe ch drv with
    | (some sectors, p) =>
      (true, { ioBase := channelBase ch, isMaster := drv = 0, totalSectors := sectors.toUInt64 }, p)
    | (none, p) => probeAll rest p

/-- `initialize()`. -/
def initializeAta (p : AtaPorts) : Bool × AtaDriver × AtaPorts := drive.probeAll candidates p

/-- The registers of a request for one sector, and the command. -/
def command (curLba : UInt32) (p : AtaPorts) : AtaPorts :=
  let driveHead : UInt8 := (if drive.isMaster then 0xE0 else 0xF0 : UInt8) |||
    ((curLba >>> 24) &&& 0x0F).toUInt8
  let p := p.outb (drive.ioBase + 6) driveHead
  let p := p.outb (drive.ioBase + 2) 1
  let p := p.outb (drive.ioBase + 3) (curLba &&& 0xFF).toUInt8
  let p := p.outb (drive.ioBase + 4) ((curLba >>> 8) &&& 0xFF).toUInt8
  let p := p.outb (drive.ioBase + 5) ((curLba >>> 16) &&& 0xFF).toUInt8
  p.outb (drive.ioBase + 7) 0x20

/-- The loop over the sectors, with so many sectors to go. -/
def sectorLoop (lba : UInt64) : ℕ → UInt64 → (UInt64 → UInt8) → AtaPorts →
    Bool × (UInt64 → UInt8) × AtaPorts
  | 0, _, buf, p => (true, buf, p)
  | n + 1, sector, buf, p =>
    let curLba := (lba + sector).toUInt32
    match p.waitNotBusy drive.ioBase (maxWait + 1) with
    | (false, p) => (false, buf, p)
    | (true, p) =>
      match AtaPorts.waitData drive.ioBase (maxWait + 1) (drive.command curLba p) with
      | (false, p) => (false, buf, p)
      | (true, p) =>
        let (buf, p) := AtaPorts.transfer drive.ioBase sector 256 0 buf p
        sectorLoop lba n (sector + 1) buf p

/-- `read_sectors(lba, count, buffer)`. -/
def readSectors (lba count : UInt64) (buffer : Option (UInt64 → UInt8)) (p : AtaPorts) :
    Bool × Option (UInt64 → UInt8) × AtaPorts :=
  match buffer with
  | none => (false, none, p)
  | some buf =>
    if count = 0 ∨ drive.ioBase = 0 then (false, some buf, p)
    else if lba > 0x0FFFFFFF then (false, some buf, p)
    else
      let (ok, buf, p) := drive.sectorLoop lba count.toNat 0 buf p
      (ok, some buf, p)

end AtaDriver

end Aidos.Disk
