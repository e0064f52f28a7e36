import Aidos.Stage1.SectorRequests

/-!
# The address of a sector in stage 1

`lba_to_chs` of `main.asm`, instruction by instruction, over the five registers it uses and the
stack. What `disk_read` makes of it (`Machine.lbaToChs`) is what the instructions do
(`Machine.lbaToChs_eq`); and for every geometry that a BIOS reports the cylinder, the head and the
sector that they leave are those of the sector in `ax` (`lbaToChs_decodes`).
-/

namespace Aidos.Stage1

/-! ### The instructions -/

/-- The registers, and the stack with its top first. -/
structure Cpu where
  /-- `ax`. -/
  ax : UInt16
  /-- `bx`. -/
  bx : UInt16
  /-- `cx`. -/
  cx : UInt16
  /-- `dx`. -/
  dx : UInt16
  /-- `si`. -/
  si : UInt16
  /-- The stack. -/
  stack : List UInt16
  deriving DecidableEq

namespace Cpu

variable (s : Cpu)

/-- `push`. -/
def push (w : UInt16) : Cpu := { s with stack := w :: s.stack }

/-- `pop`: the word on top of the stack. -/
def pop : Option (UInt16 × Cpu) :=
  match s.stack with
  | [] => none
  | w :: stack => some (w, { s with stack := stack })

/-- `mul r`: the product of `ax` and `r` goes to `dx:ax`. -/
def mul (r : UInt16) : Cpu :=
  { s with
    ax := UInt16.ofNat (s.ax.toNat * r.toNat)
    dx := UInt16.ofNat (s.ax.toNat * r.toNat / 65536) }

/-- `div r`: the quotient of `dx:ax` goes to `ax` and the remainder to `dx`, unless it faults. -/
def divide (r : UInt16) : Option Cpu :=
  match div s.dx s.ax r with
  | none => none
  | some (ax, dx) => some { s with ax := ax, dx := dx }

/-- `lba_to_chs`, with `bdb_sectors_per_track` and `bdb_heads`. -/
def lbaToChs (sectorsPerTrack heads : UInt16) : Option Cpu := do
  let s := s.push s.ax
  let s := s.push s.bx
  let s := s.push s.si
  let s := { s with bx := s.ax }
  let s := { s with si := sectorsPerTrack }
  let s := { s with cx := s.si }
  let s := { s with si := heads }
  let s := { s with dx := s.si }
  -- the cylinder
  let s := { s with ax := s.dx }
  let s := s.mul s.cx
  let s := { s with ax := s.si, si := s.ax }
  let s := { s with ax := s.bx }
  let s := { s with dx := 0 }
  let s ← s.divide s.si
  let s := { s with si := s.ax }
  -- the head
  let s := { s with ax := s.bx }
  let s := { s with dx := 0 }
  let s ← s.divide s.cx
  let s := { s with dx := 0 }
  let s ← s.divide heads
  let s := { s with dx := pack (low s.dx) (low s.dx) }
  let s := s.push s.dx
  -- the sector
  let s := { s with ax := s.bx }
  let s := { s with dx := 0 }
  let s ← s.divide s.cx
  let s := { s with cx := pack (high s.cx) (low s.dx) }
  let s := { s with cx := pack (high s.cx) (low s.cx + 1) }
  let s := { s with cx := pack (high s.cx) (low s.cx &&& 0x3F) }
  let (dx, s) ← s.pop
  let s := { s with dx := dx }
  -- the cylinder goes around the sector
  let s := { s with ax := s.si }
  let s := { s with cx := pack (low s.ax) (low s.cx) }
  let s := { s with ax := s.ax >>> 8 }
  let s := { s with ax := pack (high s.ax) (low s.ax &&& 0x03) }
  let s := { s with ax := pack (high s.ax) (low s.ax <<< 6) }
  let s := { s with cx := pack (high s.cx) (low s.cx ||| low s.ax) }
  let (si, s) ← s.pop
  let s := { s with si := si }
  let (bx, s) ← s.pop
  let s := { s with bx := bx }
  let (ax, s) ← s.pop
  some { s with ax := ax }

end Cpu

/-- `disk_get_geometry`: what is in `bdb_sectors_per_track` and `bdb_heads` after the BIOS has
answered with the carry flag, `cx` and `dx`. -/
def diskGetGeometry (carry : Bool) (cx dx sectorsPerTrack heads : UInt16) : UInt16 × UInt16 :=
  if carry then (sectorsPerTrack, heads)
  else
    let cx := cx &&& 0x3F
    let dx := dx >>> 8
    (cx, dx + 1)

/-! ### What they do -/

/-- The lower half of a product is the product of words. -/
theorem ofNat_toNat_mul (a b : UInt16) : UInt16.ofNat (a.toNat * b.toNat) = a * b := by
  refine UInt16.toNat_inj.1 ?_
  rw [UInt16.toNat_ofNat', UInt16.toNat_mul]

theorem low_shiftRight (w : UInt16) : low (w >>> 8) = high w := by
  have hshift : (w >>> 8).toNat = w.toNat / 256 := Words.toNat_shiftRight16 w (by decide)
  rw [low, high, hshift]

/-- `cl`: the number of the sector and the upper bits of the cylinder. -/
def packedCl (cylinder sector : UInt16) : UInt8 :=
  ((low sector + 1 : UInt8) &&& (0x3F : UInt8)) ||| ((high cylinder &&& 0x03) <<< 6 : UInt8)

/-- **The instructions leave** an address in `cx` and `dx`; the other registers and the stack are as
they were. -/
theorem Cpu.lbaToChs_eq (s : Cpu) (sectorsPerTrack heads : UInt16) :
    s.lbaToChs sectorsPerTrack heads =
      (div 0 s.ax (heads * sectorsPerTrack)).bind fun cylinder : UInt16 × UInt16 ↦
        (div 0 s.ax sectorsPerTrack).bind fun track : UInt16 × UInt16 ↦
          (div 0 track.1 heads).bind fun head : UInt16 × UInt16 ↦
            some
              { s with
                cx := pack (low cylinder.1) (packedCl cylinder.1 track.2)
                dx := pack (low head.2) (low head.2) } := by
  rw [lbaToChs]
  simp only [push, mul, ofNat_toNat_mul, divide]
  rcases div 0 s.ax (heads * sectorsPerTrack) with - | ⟨cylinder, rest⟩
  · rfl
  rcases htrack : div 0 s.ax sectorsPerTrack with - | ⟨track, sector⟩
  · simp [htrack]
  rcases hhead : div 0 track heads with - | ⟨quotient, head⟩
  · simp [htrack, hhead]
  simp [htrack, hhead, pop, low_shiftRight, packedCl]

/-- `disk_read` gets what the instructions leave, whatever the stack holds. -/
theorem Machine.lbaToChs_eq (m : Machine) (stack : List UInt16) :
    m.lbaToChs =
      (Cpu.lbaToChs ⟨m.regs.eax.lo, m.regs.bx, m.regs.cx, m.regs.dx, m.regs.esi.lo, stack⟩
        m.sectorsPerTrack m.heads).map fun s ↦
          { m with regs :=
            { m.regs with
              eax := { m.regs.eax with lo := s.ax }
              esi := { m.regs.esi with lo := s.si }
              bx := s.bx
              cx := s.cx
              dx := s.dx } } := by
  rw [Cpu.lbaToChs_eq, Machine.lbaToChs]
  dsimp only
  rcases div 0 m.regs.eax.lo (m.heads * m.sectorsPerTrack) with - | ⟨cylinder, rest⟩
  · rfl
  rcases div 0 m.regs.eax.lo m.sectorsPerTrack with - | ⟨track, sector⟩
  · rfl
  simp only [Option.bind_eq_bind, Option.bind_some]
  rcases div 0 track m.heads with - | ⟨quotient, head⟩ <;> rfl

/-! ### Decoding -/

open Machine (toNat_or_shiftLeft div_zero_left high_pack low_pack toNat_low sectorByte_eq
  cylinderByte_eq chs_add_mul)

/-- The cylinder that `cx` names: `ch`, with the two upper bits in `cl`. -/
def cylinderOf (cx : UInt16) : ℕ := (high cx).toNat + 256 * (low cx >>> 6).toNat

/-- The sector that `cx` names. -/
def sectorOf (cx : UInt16) : ℕ := (low cx &&& 0x3F).toNat

/-- What `cx` names when it is put together from a cylinder and the number of a sector. -/
theorem decode_pack (cylinder sector : UInt16) (hcylinder : cylinder.toNat < 1024)
    (hsector : sector.toNat < 63) :
    cylinderOf (pack (low cylinder) (packedCl cylinder sector)) = cylinder.toNat ∧
      sectorOf (pack (low cylinder) (packedCl cylinder sector)) = sector.toNat + 1 := by
  have hcl := toNat_or_shiftLeft (sector.toNat + 1) (by omega) (cylinder.toNat / 256) (by omega)
  have hshift (b : UInt8) : (b >>> 6).toNat = b.toNat / 2 ^ 6 :=
    Words.toNat_shiftRight8 b (by decide)
  rw [cylinderOf, sectorOf, high_pack, low_pack, hshift, Words.toNat_and_mask8 (k := 6) rfl,
    packedCl, sectorByte_eq hsector, cylinderByte_eq hcylinder, hcl, toNat_low]
  omega

/-- The geometry is one that `lba_to_chs` can work with, if the BIOS counts any sectors. -/
theorem diskGetGeometry_bounds (cx dx sectorsPerTrack heads : UInt16) :
    (diskGetGeometry false cx dx sectorsPerTrack heads).1.toNat ≤ 63 ∧
      1 ≤ (diskGetGeometry false cx dx sectorsPerTrack heads).2.toNat ∧
      (diskGetGeometry false cx dx sectorsPerTrack heads).2.toNat ≤ 256 := by
  have hdx := dx.toNat_lt
  have hspt : (cx &&& 0x3F).toNat = cx.toNat % 2 ^ 6 := Words.toNat_and_mask16 rfl
  have hshift : (dx >>> 8).toNat = dx.toNat / 2 ^ 8 := Words.toNat_shiftRight16 dx (by decide)
  have hheads : (dx >>> 8 + 1).toNat = dx.toNat / 256 + 1 := by
    rw [UInt16.toNat_add, hshift, UInt16.toNat_one]
    omega
  change (cx &&& 0x3F).toNat ≤ 63 ∧ 1 ≤ (dx >>> 8 + 1).toNat ∧ (dx >>> 8 + 1).toNat ≤ 256
  omega

/-- **`lba_to_chs` can be decoded**: for every geometry that a BIOS reports and every sector that it
has an address for, no division faults, the cylinder, the head and the sector are those of the
sector in `ax`, and `ax`, `bx` and `si` are restored. -/
theorem Cpu.lbaToChs_decodes (s : Cpu) {sectorsPerTrack heads : UInt16}
    (hspt : 1 ≤ sectorsPerTrack.toNat ∧ sectorsPerTrack.toNat ≤ 63)
    (hheads : 1 ≤ heads.toNat ∧ heads.toNat ≤ 256)
    (hlba : s.ax.toNat < 1024 * heads.toNat * sectorsPerTrack.toNat) :
    ∃ s', s.lbaToChs sectorsPerTrack heads = some s' ∧
      (1 ≤ sectorOf s'.cx ∧ sectorOf s'.cx ≤ sectorsPerTrack.toNat) ∧
      (high s'.dx).toNat < heads.toNat ∧
      (cylinderOf s'.cx * heads.toNat + (high s'.dx).toNat) * sectorsPerTrack.toNat +
        (sectorOf s'.cx - 1) = s.ax.toNat ∧
      s'.ax = s.ax ∧ s'.bx = s.bx ∧ s'.si = s.si ∧ s'.stack = s.stack := by
  obtain ⟨cylinder, rest, track, sector, quotient, head, hdivc, hdivt, hdivh, hcyl, hsec, hhead⟩ :=
    Machine.divisions s.ax hspt hheads
  rw [Cpu.lbaToChs_eq, hdivc, Option.bind_some, hdivt, Option.bind_some, hdivh, Option.bind_some]
  refine ⟨_, rfl, ?_⟩
  have hsectorlt := Nat.mod_lt s.ax.toNat hspt.1
  have hheadlt := Nat.mod_lt (s.ax.toNat / sectorsPerTrack.toNat) hheads.1
  have hcylinder : cylinder.toNat < 1024 := by
    rw [hcyl]
    exact Nat.div_lt_of_lt_mul (by rw [Nat.mul_comm, ← Nat.mul_assoc]; exact hlba)
  have hdh : (high (pack (low head) (low head))).toNat = head.toNat := by
    rw [high_pack, toNat_low]
    omega
  obtain ⟨hdecodec, hdecodes⟩ := decode_pack cylinder sector hcylinder (by omega)
  dsimp only
  rw [hdecodec, hdecodes, hdh, Nat.add_sub_cancel, hcyl, hsec, hhead]
  exact ⟨⟨Nat.le_add_left 1 _, hsectorlt⟩, hheadlt, chs_add_mul, rfl, rfl, rfl, rfl⟩

/-- Sector 2879 of a floppy disk is the last on its last track. -/
theorem Cpu.lbaToChs_decodes_lastSector :
    ∃ s', (⟨2879, 1, 2, 3, 4, []⟩ : Cpu).lbaToChs 18 2 = some s' ∧
      (1 ≤ sectorOf s'.cx ∧ sectorOf s'.cx ≤ (18 : UInt16).toNat) ∧
      (high s'.dx).toNat < (2 : UInt16).toNat ∧
      (cylinderOf s'.cx * (2 : UInt16).toNat + (high s'.dx).toNat) * (18 : UInt16).toNat +
        (sectorOf s'.cx - 1) = (2879 : UInt16).toNat ∧
      s'.ax = 2879 ∧ s'.bx = 1 ∧ s'.si = 4 ∧ s'.stack = [] :=
  Cpu.lbaToChs_decodes _ (by decide) (by decide) (by decide)

end Aidos.Stage1
