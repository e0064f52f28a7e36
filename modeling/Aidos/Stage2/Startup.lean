import Aidos.Stage2.BootInfo
import Mathlib.Logic.Function.Basic

/-!
# From real mode to 64-bit mode

`init32.asm` and `init64.asm`: the A20 line, protected mode, the clearing of `.bss`, the checks of
the processor, the first page tables, paging and the far jump to `long_start`.

A machine is its memory, the registers that the code sets up, and the A20 line; without it bit 20 of
every address is zero. The stack is kept apart. Of the general registers only ESI is kept from one
routine to the next, since `error` takes its message in it.
-/

namespace Aidos.Stage2

open ByteMemory

/-- What the machine is built of. -/
structure Hardware where
  /-- Bit 21 of EFLAGS can be changed. -/
  idToggles : Bool
  /-- `cpuid`: the registers EAX and EDX of the answer for a leaf. -/
  cpuid : UInt32 → UInt32 × UInt32
  /-- Port 0x92 switches the A20 line. -/
  fastA20 : Bool

/-- The processor has a long mode, as `cpuid` tells. -/
def Hardware.LongMode (hw : Hardware) : Prop :=
  hw.idToggles = true ∧ 0x80000001 ≤ (hw.cpuid 0x80000000).1 ∧
    (hw.cpuid 0x80000001).2 &&& 0x20000000 ≠ 0

instance (hw : Hardware) : Decidable hw.LongMode := inferInstanceAs (Decidable (_ ∧ _ ∧ _))

/-- The machine. -/
structure Pc where
  /-- Physical memory. -/
  mem : ℕ → UInt8
  /-- The A20 line. -/
  a20 : Bool
  /-- What port 0x92 reads. -/
  port92 : UInt8
  /-- EFLAGS. -/
  eflags : UInt32
  /-- ESI. -/
  esi : UInt32
  /-- CR0. -/
  cr0 : UInt32
  /-- CR3. -/
  cr3 : UInt32
  /-- CR4. -/
  cr4 : UInt32
  /-- The model-specific register EFER, without LMA. -/
  efer : UInt64
  /-- The descriptors that GDTR refers to. -/
  gdt : List UInt64
  /-- The descriptor in CS. -/
  cs : UInt64
  /-- The descriptor in DS, ES, SS, FS and GS. -/
  ds : UInt64
  /-- What the BIOS has written to the screen. -/
  output : List UInt8

/-- The symbols of the start-up code. -/
structure Symbols where
  /-- `__bss_start`. -/
  bssStart : UInt32
  /-- `__end`. -/
  bssEnd : UInt32
  /-- `page_table_l4`. -/
  pageTableL4 : UInt32
  /-- `page_table_l3`. -/
  pageTableL3 : UInt32
  /-- `page_table_l2`. -/
  pageTableL2 : UInt32
  /-- `error_msg`. -/
  errorMsg : UInt16
  /-- `a20_err`. -/
  a20Err : UInt16
  /-- `cpuid_err`, of which an instruction has 16 bits. -/
  cpuidErr : UInt16
  /-- `longmode_error`, likewise. -/
  longmodeError : UInt16

/-- How the start-up code ends. -/
inductive Arrival where
  /-- At `long_start`. -/
  | longStart (pc : Pc)
  /-- In the 16-bit `error`, behind its output. -/
  | error16 (pc : Pc)
  /-- In the 32-bit `error`, at its start. -/
  | error32 (pc : Pc)
  /-- In `print_char`, with a text that does not end. -/
  | endless
  /-- In an exception, for which there is no handler. -/
  | exception

namespace Pc

variable (pc : Pc)

/-- The address on the bus. -/
def bus (a : ℕ) : ℕ := if pc.a20 then a else a % 2 ^ 20 + a / 2 ^ 21 * 2 ^ 21

/-- A byte is read. -/
def load8 (a : ℕ) : UInt8 := pc.mem (pc.bus a)

/-- A byte is written. -/
def store8 (a : ℕ) (v : UInt8) : Pc := { pc with mem := Function.update pc.mem (pc.bus a) v }

/-- Four bytes are written. -/
def store32 (a : ℕ) (v : UInt32) : Pc :=
  let pc := pc.store8 a v.toUInt8
  let pc := pc.store8 (a + 1) (v >>> 8).toUInt8
  let pc := pc.store8 (a + 2) (v >>> 16).toUInt8
  pc.store8 (a + 3) (v >>> 24).toUInt8

/-- `cli`. -/
def cli : Pc := { pc with eflags := pc.eflags &&& ~~~0x200 }

/-- `popfd` of a value: bit 21 keeps its state where it cannot be changed. -/
def popfd (hw : Hardware) (v : UInt32) : Pc :=
  { pc with eflags :=
      if hw.idToggles then v else v &&& ~~~0x00200000 ||| pc.eflags &&& 0x00200000 }

/-- `out 0x92, al`. -/
def out92 (hw : Hardware) (al : UInt8) : Pc :=
  { pc with port92 := al, a20 := if hw.fastA20 then al &&& 2 != 0 else pc.a20 }

/-! ### `init32.asm` -/

/-- `check_a20`. -/
def checkA20 : UInt16 × Pc :=
  let esDi := linear 0 0x0500
  let dsSi := linear 0xFFFF 0x0510
  let first := pc.load8 esDi
  let second := pc.load8 dsSi
  let written := (pc.store8 esDi 0x00).store8 dsSi 0xFF
  let equal := written.load8 esDi = 0xFF
  let restored := (written.store8 dsSi second).store8 esDi first
  (if equal then 0 else 1, restored)

/-- `print_char`, with at most so many characters; `none` if the text goes on. -/
def printChar (si : UInt16) : ℕ → Pc → Option Pc
  | 0, _ => none
  | n + 1, pc =>
    let al := pc.load8 (linear 0 si)
    if al = 0 then some pc else printChar (si + 1) n { pc with output := pc.output ++ [al] }

/-- The 16-bit `error`. A text that is longer than a segment does not end. -/
def error16 (sym : Symbols) (si : UInt16) : Arrival :=
  match printChar sym.errorMsg 65536 pc with
  | none => .endless
  | some pc =>
    match printChar si 65536 pc with
    | none => .endless
    | some pc => .error16 pc

/-- `gdt_start`. -/
def gdt32 : List UInt64 := [0, 0x00CF9A000000FFFF, 0x00CF92000000FFFF]

/-- `gdt64_start`. -/
def gdt64 : List UInt64 := [0, 0x00209A000000FFFF, 0x00CF92000000FFFF]

/-- A descriptor of a segment that is present: bits 47 and 44. -/
def segmentPresent (d : UInt64) : Bool := d &&& 0x0000900000000000 == 0x0000900000000000

/-- A descriptor of a code segment: bit 43. -/
def segmentCode (d : UInt64) : Bool := d &&& 0x0000080000000000 != 0

/-- A descriptor of a 64-bit code segment: bit 53. -/
def segmentLong (d : UInt64) : Bool := d &&& 0x0020000000000000 != 0

/-- `jmp selector:...`: CS is loaded, with a code segment only. -/
def jmpFar (selector : ℕ) : Option Pc :=
  match pc.gdt[selector / 8]? with
  | some d => if segmentPresent d && segmentCode d then some { pc with cs := d } else none
  | none => none

/-- `mov ds, ax` and the others: not with a code segment. -/
def loadSegments (selector : ℕ) : Option Pc :=
  match pc.gdt[selector / 8]? with
  | some d => if segmentPresent d && !segmentCode d then some { pc with ds := d } else none
  | none => none

/-- `.clear_bss`. -/
def clearBss (edi : UInt32) (pc : Pc) : Pc :=
  if edi ≤ pc.esi then pc
  else clearBss edi { pc.store8 pc.esi.toNat 0 with esi := pc.esi + 1 }
termination_by edi.toNat - pc.esi.toNat
decreasing_by
  rename_i h
  rw [UInt32.le_iff_toNat_le] at h
  have hedi := edi.toNat_lt
  show edi.toNat - (pc.esi + 1).toNat < _
  rw [UInt32.toNat_add, UInt32.toNat_one]
  omega

/-! ### `init64.asm` -/

/-- `check_cpuid`. -/
def checkCpuid (hw : Hardware) : UInt32 × Pc :=
  let saved := pc.eflags
  let toggled := pc.popfd hw (saved ^^^ 0x00200000)
  let eax := toggled.eflags ^^^ saved
  (eax &&& 0x00200000, toggled.popfd hw saved)

/-- `check_long`, up to its call of `error`. -/
def checkLong (hw : Hardware) : Bool :=
  let eax := (hw.cpuid 0x80000000).1
  if eax < 0x80000001 then false
  else
    let edx := (hw.cpuid 0x80000001).2
    edx &&& ((1 : UInt32) <<< 29) ≠ 0

/-- `mov si, message` and `call error`. -/
def error32 (message : UInt16) : Arrival :=
  .error32 { pc with esi := pc.esi &&& 0xFFFF0000 ||| message.toUInt32 }

/-- `.next_char` of the 32-bit `error`, for so many characters: whether the text has ended, EDI and
the machine. -/
def nextChar : ℕ → UInt32 → Pc → Bool × UInt32 × Pc
  | 0, edi, pc => (false, edi, pc)
  | n + 1, edi, pc =>
    let al := pc.load8 pc.esi.toNat
    let pc := { pc with esi := pc.esi + 1 }
    if al = 0 then (true, edi, pc)
    else nextChar n (edi + 2) ((pc.store8 edi.toNat al).store8 (edi + 1).toNat 0x07)

/-- `.loop` of `setup_page_tables`, with so many turns to go. -/
def setupLoop (sym : Symbols) : ℕ → UInt32 → Pc → Pc
  | 0, _, pc => pc
  | n + 1, ecx, pc =>
    let eax : UInt32 := 0x200000 * ecx ||| 0x83
    setupLoop sym n (ecx + 1) (pc.store32 (sym.pageTableL2 + ecx * 8).toNat eax)

/-- `setup_page_tables`. -/
def setupPageTables (sym : Symbols) : Pc :=
  let pc := pc.store32 sym.pageTableL4.toNat (sym.pageTableL3 ||| 3)
  let pc := pc.store32 sym.pageTableL3.toNat (sym.pageTableL2 ||| 3)
  setupLoop sym 512 0 pc

/-- `wrmsr` of EFER, which not every processor has. -/
def wrmsrEfer (hw : Hardware) (v : UInt64) : Option Pc :=
  if hw.LongMode then some { pc with efer := v } else none

/-- `mov cr0, eax`: with paging, LME needs PAE, and a code segment that is not a 64-bit one. -/
def movCr0 (v : UInt32) : Option Pc :=
  if v &&& 0x80000000 ≠ 0 ∧ pc.efer &&& 0x100 ≠ 0 ∧ (pc.cr4 &&& 0x20 = 0 ∨ segmentLong pc.cs) then
    none
  else some { pc with cr0 := v }

/-- `enable_paging_and_longmode`. -/
def enablePagingAndLongmode (hw : Hardware) (sym : Symbols) : Option Pc :=
  let pc := { pc with cr3 := sym.pageTableL4 }
  let pc := { pc with cr4 := pc.cr4 ||| ((1 : UInt32) <<< 5 ||| (1 : UInt32) <<< 7) }
  match pc.wrmsrEfer hw (pc.efer ||| 0x100) with
  | none => none
  | some pc => pc.movCr0 (pc.cr0 ||| ((1 : UInt32) <<< 31 ||| (1 : UInt32) <<< 0))

/-- Paging is on in long mode, and the code segment is a 64-bit one. -/
def Runs64 : Prop :=
  pc.cr0 &&& 0x80000000 ≠ 0 ∧ pc.efer &&& 0x100 ≠ 0 ∧ segmentLong pc.cs = true

instance : Decidable pc.Runs64 := inferInstanceAs (Decidable (_ ∧ _ ∧ _))

/-- `start32_64`. -/
def start32_64 (hw : Hardware) (sym : Symbols) : Arrival :=
  let (eax, pc) := pc.checkCpuid hw
  if eax = 0 then pc.error32 sym.cpuidErr
  else if !checkLong hw then pc.error32 sym.longmodeError
  else
    match (pc.setupPageTables sym).enablePagingAndLongmode hw sym with
    | none => .exception
    | some pc =>
      let pc := { pc with gdt := gdt64 }
      match pc.jmpFar 0x08 with
      | none => .exception
      | some pc => if pc.Runs64 then .longStart pc else .exception

/-- `.next` of `start16_32`: protected mode, and `.bss` is cleared. -/
def protectedStart (hw : Hardware) (sym : Symbols) : Arrival :=
  let pc := { pc with gdt := gdt32 }
  let pc := { pc with cr0 := pc.cr0 ||| 1 }
  match pc.jmpFar 0x08 with
  | none => .exception
  | some pc =>
    match pc.loadSegments 0x10 with
    | none => .exception
    | some pc => (clearBss sym.bssEnd { pc with esi := sym.bssStart }).start32_64 hw sym

/-- `start16_32`. -/
def start16_32 (hw : Hardware) (sym : Symbols) : Arrival :=
  let pc := pc.cli
  let (ax, pc) := pc.checkA20
  if ax = 1 then pc.protectedStart hw sym
  else
    let pc := if pc.port92 &&& 2 ≠ 0 then pc else pc.out92 hw ((pc.port92 ||| 2) &&& 0xFE)
    let (ax, pc) := pc.checkA20
    if ax = 1 then pc.protectedStart hw sym else pc.error16 sym sym.a20Err

end Pc

end Aidos.Stage2
