import Mathlib.Tactic.Common
import Aidos.Library.ByteMemory

/-!
# The boot information of stage 2

`boot_info` of `init16.asm`, filled in real mode and read by the C++ code afterwards. Memory is a
function on the linear addresses that real mode forms of a segment and an offset; the stack is kept
apart from it.
-/

namespace Aidos.Stage2

open ByteMemory

/-- The linear address of `seg:off`. -/
def linear (seg off : UInt16) : ℕ := seg.toNat * 16 + off.toNat

/-- Where `boot_info.mem_map_count` lies in `boot_info`. -/
def memMapCountOffset : ℕ := 2048

/-- Where `boot_info.rsdp_addr` lies in `boot_info`. -/
def rsdpAddrOffset : ℕ := 2052

/-- Stage 2 in memory, as far as `boot_info` goes. -/
structure Image where
  /-- The offset of `boot_info`, in the segment at address zero. -/
  bootInfo : UInt16
  /-- All of it has offsets of 16 bits. -/
  fits : bootInfo.toNat + 2061 ≤ 65536
  /-- The bytes in memory. -/
  mem : ℕ → UInt8
  /-- Nothing has changed the count yet, which the file gives as zero. -/
  count : littleEndian mem 4 (bootInfo.toNat + memMapCountOffset) = 0

theorem toNat_add_of_lt {a b : UInt16} (h : a.toNat + b.toNat < 65536) :
    (a + b).toNat = a.toNat + b.toNat := by
  rw [UInt16.toNat_add]
  exact Nat.mod_eq_of_lt h

theorem linear_add {seg off d : UInt16} (h : off.toNat + d.toNat < 65536) :
    linear seg (off + d) = linear seg off + d.toNat := by
  rw [linear, linear, toNat_add_of_lt h, Nat.add_assoc]

end Aidos.Stage2
