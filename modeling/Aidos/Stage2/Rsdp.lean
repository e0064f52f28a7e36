import Mathlib.Order.Bounds.Basic
import Aidos.Library.Words
import Aidos.Stage2.BootInfo

/-!
# Where stage 2 looks for the RSDP

`detect_rsdp` of `init16.asm`, with the two scans it calls, instruction by instruction.

What is looked for is the lowest 16-byte-aligned address at which `rsdp_sig` stands, first in the
first kilobyte of the extended BIOS data area, then in the 128 kilobytes below the first megabyte
(`Detects`). `scan_rsdp_area_1kb` shifts `esi` before it masks it, so that its first slot lies as
many bytes into the area as the low hexadecimal digit of the segment says. `detects_detectRsdp_iff`
is the exact condition under which the address stored is the right one all the same.
-/

namespace Aidos.Stage2

open ByteMemory

/-! ### The code -/

/-- `rsdp_sig`, without the zero behind it. -/
def rsdpSig : List UInt8 := [0x52, 0x53, 0x44, 0x20, 0x50, 0x54, 0x52, 0x20]

/-- `repe cmpsb` of the bytes at `ds:si` with those at `es:di`: whether it leaves the zero flag set.
-/
def repeCmpsb (mem : ℕ → UInt8) (es : UInt16) : List UInt8 → UInt16 → Bool
  | [], _ => true
  | b :: si, di => if b = mem (linear es di) then repeCmpsb mem es si (di + 1) else false

/-- `.found_1kb` and `.found_128kb`: the address in `eax`. -/
def found (es di : UInt16) : UInt32 := (es.toUInt32 <<< 4) + di.toUInt32

/-- `.next_1kb`, with `cx` slots to go. -/
def next1kb (mem : ℕ → UInt8) (es : UInt16) : ℕ → UInt16 → UInt32
  | 0, _ => 0
  | cx + 1, di =>
    if repeCmpsb mem es rsdpSig di then found es di else next1kb mem es cx (di + 16)

/-- `scan_rsdp_area_1kb`. -/
def scanRsdpArea1kb (mem : ℕ → UInt8) (esi : UInt32) : UInt32 :=
  let esi := esi >>> 4
  let es := esi.toUInt16
  -- `si` has been shifted by now
  let di := esi.toUInt16 &&& 0x0F
  next1kb mem es (1024 / 16) di

/-- `.next_128kb`, with `cx` slots to go. -/
def next128kb (mem : ℕ → UInt8) (di : UInt16) : ℕ → UInt16 → UInt32
  | 0, _ => 0
  | cx + 1, es =>
    if repeCmpsb mem es rsdpSig di then found es di else next128kb mem di cx (es + 1)

/-- `scan_rsdp_area_128kb`. -/
def scanRsdpArea128kb (mem : ℕ → UInt8) (esi : UInt32) : UInt32 :=
  let esi := esi >>> 4
  let es := esi.toUInt16
  let di := esi.toUInt16 &&& 0x0F
  next128kb mem di ((0x100000 - 0xE0000) / 16) es

/-- The EBDA segment, which the BIOS leaves at `0x40:0x0E`. -/
def ebdaSegment (mem : ℕ → UInt8) : UInt16 := UInt16.ofNat (littleEndian mem 2 (linear 0x40 0x0E))

/-- What `detect_rsdp` has in `eax` at `.found`. -/
def rsdpAddr (mem : ℕ → UInt8) : UInt32 :=
  let ax := ebdaSegment mem
  if ax = 0 then scanRsdpArea128kb mem 0xE0000
  else
    let eax := scanRsdpArea1kb mem (ax.toUInt32 <<< 4)
    if eax ≠ 0 then eax else scanRsdpArea128kb mem 0xE0000

/-- `detect_rsdp`, with `boot_info` at a linear address. -/
def detectRsdp (bootInfo : ℕ) (mem : ℕ → UInt8) : ℕ → UInt8 :=
  writeNumber mem (bootInfo + rsdpAddrOffset) 4 (rsdpAddr mem).toNat

/-! ### What is looked for -/

/-- `rsdp_sig` stands at an address. -/
def SignatureAt (mem : ℕ → UInt8) (a : ℕ) : Prop :=
  ∀ i (h : i < rsdpSig.length), rsdpSig.get ⟨i, h⟩ = mem (a + i)

instance (mem : ℕ → UInt8) (a : ℕ) : Decidable (SignatureAt mem a) :=
  inferInstanceAs (Decidable (∀ i (h : i < rsdpSig.length), rsdpSig.get ⟨i, h⟩ = mem (a + i)))

/-- The 16-byte-aligned addresses in an area at which the signature stands. -/
def area (mem : ℕ → UInt8) (start length : ℕ) : Set ℕ :=
  {a | 16 ∣ a ∧ start ≤ a ∧ a < start + length ∧ SignatureAt mem a}

/-- Those in the first kilobyte of the EBDA, when there is one. -/
def ebdaArea (mem : ℕ → UInt8) : Set ℕ :=
  {a | ebdaSegment mem ≠ 0 ∧ a ∈ area mem ((ebdaSegment mem).toNat * 16) 1024}

/-- Those below the first megabyte. -/
def biosArea (mem : ℕ → UInt8) : Set ℕ := area mem 0xE0000 0x20000

/-- The least element of the first of these sets that has any, and zero if none has. -/
def Lowest : List (Set ℕ) → ℕ → Prop
  | [], r => r = 0
  | S :: Ss, r => IsLeast S r ∨ S = ∅ ∧ Lowest Ss r

/-- **The address is the one looked for.** -/
def Detects (mem : ℕ → UInt8) (r : ℕ) : Prop := Lowest [ebdaArea mem, biosArea mem] r

theorem Lowest.unique {Ss : List (Set ℕ)} {r r' : ℕ} (h : Lowest Ss r) (h' : Lowest Ss r') :
    r = r' := by
  induction Ss with
  | nil => exact h.trans h'.symm
  | cons S Ss ih =>
    rcases h with h | ⟨hS, h⟩ <;> rcases h' with h' | ⟨hS', h'⟩
    · exact h.unique h'
    · exact absurd (hS' ▸ h.1) (Set.notMem_empty r)
    · exact absurd (hS ▸ h'.1) (Set.notMem_empty r')
    · exact ih h h'

/-! ### A scan over linear addresses -/

/-- The addresses at which the signature stands, of the `n` that lie 16 bytes apart from `a` on. -/
def slots (mem : ℕ → UInt8) (a n : ℕ) : Set ℕ :=
  {x | (∃ k < n, x = a + 16 * k) ∧ SignatureAt mem x}

/-- The first of them, or zero. -/
def firstSlot (mem : ℕ → UInt8) : ℕ → ℕ → ℕ
  | 0, _ => 0
  | n + 1, a => if SignatureAt mem a then a else firstSlot mem n (a + 16)

variable {mem : ℕ → UInt8}

theorem slots_zero (a : ℕ) : slots mem a 0 = ∅ := by
  refine Set.eq_empty_of_forall_notMem fun x hx ↦ ?_
  obtain ⟨⟨k, hk, -⟩, -⟩ := hx
  exact absurd hk (Nat.not_lt_zero k)

theorem isLeast_slots_succ {a n : ℕ} (h : SignatureAt mem a) : IsLeast (slots mem a (n + 1)) a := by
  refine ⟨⟨⟨0, Nat.succ_pos n, rfl⟩, h⟩, fun x hx ↦ ?_⟩
  obtain ⟨⟨k, -, rfl⟩, -⟩ := hx
  exact Nat.le_add_right a _

theorem slots_succ {a n : ℕ} (h : ¬SignatureAt mem a) :
    slots mem a (n + 1) = slots mem (a + 16) n := by
  ext x
  constructor
  · rintro ⟨⟨k, hk, rfl⟩, hx⟩
    cases k with
    | zero => exact absurd hx h
    | succ k => exact ⟨⟨k, by omega, by omega⟩, hx⟩
  · rintro ⟨⟨k, hk, rfl⟩, hx⟩
    exact ⟨⟨k + 1, by omega, by omega⟩, hx⟩

/-- A scan finds the lowest slot. -/
theorem lowest_firstSlot (n a : ℕ) : Lowest [slots mem a n] (firstSlot mem n a) := by
  induction n generalizing a with
  | zero => exact Or.inr ⟨slots_zero a, rfl⟩
  | succ n ih =>
    rw [firstSlot]
    split
    · next h => exact Or.inl (isLeast_slots_succ h)
    · next h =>
      rw [slots_succ h]
      exact ih (a + 16)

/-- From an aligned address on, the slots are the aligned addresses. -/
theorem slots_eq_area (mem : ℕ → UInt8) {a n : ℕ} (ha : 16 ∣ a) :
    slots mem a n = area mem a (16 * n) := by
  ext x
  constructor
  · rintro ⟨⟨k, hk, rfl⟩, hx⟩
    exact ⟨by omega, by omega, by omega, hx⟩
  · rintro ⟨hdvd, hle, hlt, hx⟩
    exact ⟨⟨(x - a) / 16, by omega, by omega⟩, hx⟩

/-! ### The code scans linear addresses -/

theorem repeCmpsb_iff {es : UInt16} {si : List UInt8} {di : UInt16}
    (h : di.toNat + si.length < 65536) :
    repeCmpsb mem es si di = true ↔
      ∀ i (hi : i < si.length), si.get ⟨i, hi⟩ = mem (linear es di + i) := by
  induction si generalizing di with
  | nil => exact ⟨fun _ i hi ↦ absurd hi (Nat.not_lt_zero i), fun _ ↦ rfl⟩
  | cons b si ih =>
    have hlen : di.toNat + (si.length + 1) < 65536 := h
    have hone : (1 : UInt16).toNat = 1 := rfl
    have hnext : (di + 1).toNat = di.toNat + 1 := toNat_add_of_lt (by omega)
    have hlinear : linear es (di + 1) = linear es di + 1 := linear_add (by omega)
    have hrest : repeCmpsb mem es si (di + 1) = true ↔
        ∀ i (hi : i < si.length), si.get ⟨i, hi⟩ = mem (linear es di + 1 + i) := by
      rw [← hlinear]
      exact ih (by omega)
    rw [repeCmpsb]
    constructor
    · intro hcmp i hi
      split at hcmp
      · next hb =>
        cases i with
        | zero => exact hb
        | succ i =>
          have hbyte := hrest.1 hcmp i (Nat.lt_of_succ_lt_succ hi)
          rw [Nat.add_assoc, Nat.add_comm 1 i] at hbyte
          exact hbyte
      · cases hcmp
    · intro hall
      have hb : b = mem (linear es di) := hall 0 (Nat.succ_pos _)
      rw [if_pos hb]
      refine hrest.2 fun i hi ↦ ?_
      rw [Nat.add_assoc, Nat.add_comm 1 i]
      exact hall (i + 1) (Nat.succ_lt_succ hi)

/-- Comparing at `es:di` is looking at the linear address. -/
theorem repeCmpsb_rsdpSig {es di : UInt16} (h : di.toNat < 65528) :
    repeCmpsb mem es rsdpSig di = true ↔ SignatureAt mem (linear es di) :=
  repeCmpsb_iff (Nat.add_lt_add_right h 8)

theorem toNat_found (es di : UInt16) : (found es di).toNat = linear es di := by
  have hes := es.toNat_lt
  have hdi := di.toNat_lt
  have hshift : (es.toUInt32 <<< 4).toNat = es.toNat * 16 := by
    rw [UInt32.toNat_shiftLeft, UInt16.toNat_toUInt32, show (4 : UInt32).toNat % 32 = 4 from rfl,
      Nat.shiftLeft_eq]
    exact Nat.mod_eq_of_lt (by omega)
  rw [found, UInt32.toNat_add, hshift, UInt16.toNat_toUInt32, linear]
  exact Nat.mod_eq_of_lt (by omega)

/-- `.next_1kb` moves the offset. -/
theorem toNat_next1kb {es di : UInt16} {n : ℕ} (h : di.toNat + 16 * n < 65528) :
    (next1kb mem es n di).toNat = firstSlot mem n (linear es di) := by
  induction n generalizing di with
  | zero => rfl
  | succ n ih =>
    have hlit : (16 : UInt16).toNat = 16 := rfl
    have hnext : (di + 16).toNat = di.toNat + 16 := toNat_add_of_lt (by omega)
    have hlinear : linear es (di + 16) = linear es di + 16 := linear_add (by omega)
    rw [next1kb, firstSlot, ← hlinear, ← ih (by omega)]
    rcases Decidable.em (SignatureAt mem (linear es di)) with hsig | hsig
    · rw [if_pos ((repeCmpsb_rsdpSig (by omega)).2 hsig), if_pos hsig, toNat_found]
    · rw [if_neg fun hcmp ↦ hsig ((repeCmpsb_rsdpSig (by omega)).1 hcmp), if_neg hsig]

/-- `.next_128kb` moves the segment. -/
theorem toNat_next128kb {es di : UInt16} {n : ℕ} (hes : es.toNat + n ≤ 65536)
    (hdi : di.toNat < 65528) :
    (next128kb mem di n es).toNat = firstSlot mem n (linear es di) := by
  induction n generalizing es with
  | zero => rfl
  | succ n ih =>
    rw [next128kb, firstSlot]
    rcases Decidable.em (SignatureAt mem (linear es di)) with hsig | hsig
    · rw [if_pos ((repeCmpsb_rsdpSig hdi).2 hsig), if_pos hsig, toNat_found]
    rw [if_neg fun hcmp ↦ hsig ((repeCmpsb_rsdpSig hdi).1 hcmp), if_neg hsig]
    cases n with
    | zero => rfl
    | succ n =>
      have hone : (1 : UInt16).toNat = 1 := rfl
      have hnext : (es + 1).toNat = es.toNat + 1 := toNat_add_of_lt (by omega)
      have hlinear : linear (es + 1) di = linear es di + 16 := by
        rw [linear, linear, hnext]
        omega
      rw [← hlinear, ih (by omega)]

/-! ### The two areas -/

/-- The slots that the first scan looks at: as many bytes into the EBDA as the low hexadecimal digit
of its segment says. -/
def ebdaSlots (mem : ℕ → UInt8) : Set ℕ :=
  {a | ebdaSegment mem ≠ 0 ∧
    a ∈ slots mem ((ebdaSegment mem).toNat * 16 + (ebdaSegment mem).toNat % 16) 64}

theorem lowest_scanRsdpArea1kb (mem : ℕ → UInt8) (seg : UInt16) :
    Lowest [slots mem (seg.toNat * 16 + seg.toNat % 16) 64]
      (scanRsdpArea1kb mem (seg.toUInt32 <<< 4)).toNat := by
  have hseg := seg.toNat_lt
  have hshift : (seg.toUInt32 <<< 4 >>> 4).toUInt16 = seg := by
    refine UInt16.toNat_inj.1 ?_
    rw [UInt32.toNat_toUInt16, UInt32.toNat_shiftRight, UInt32.toNat_shiftLeft,
      UInt16.toNat_toUInt32, show (4 : UInt32).toNat % 32 = 4 from rfl, Nat.shiftLeft_eq,
      Nat.shiftRight_eq_div_pow]
    omega
  have hdi : (seg &&& 0x0F).toNat = seg.toNat % 16 := Words.toNat_and_mask16 (k := 4) rfl
  rw [scanRsdpArea1kb, hshift, toNat_next1kb (by omega), linear, hdi]
  exact lowest_firstSlot 64 _

theorem lowest_scanRsdpArea128kb : Lowest [biosArea mem] (scanRsdpArea128kb mem 0xE0000).toNat := by
  have hes : ((0xE0000 : UInt32) >>> 4).toUInt16 = 0xE000 := rfl
  have hdi : (0xE000 &&& 0x0F : UInt16) = 0 := rfl
  have hslots : slots mem 0xE0000 8192 = biosArea mem := slots_eq_area mem (by decide)
  rw [scanRsdpArea128kb, hes, hdi, toNat_next128kb (by decide) (by decide), ← hslots]
  exact lowest_firstSlot 8192 0xE0000

/-- What `detect_rsdp` finds. -/
theorem lowest_rsdpAddr (mem : ℕ → UInt8) :
    Lowest [ebdaSlots mem, biosArea mem] (rsdpAddr mem).toNat := by
  rw [rsdpAddr]
  split
  · next hseg => exact Or.inr ⟨Set.eq_empty_of_forall_notMem fun a ha ↦ ha.1 hseg,
      lowest_scanRsdpArea128kb⟩
  · next hseg =>
    have hslots : ebdaSlots mem =
        slots mem ((ebdaSegment mem).toNat * 16 + (ebdaSegment mem).toNat % 16) 64 :=
      Set.ext fun a ↦ ⟨fun ha ↦ ha.2, fun ha ↦ ⟨hseg, ha⟩⟩
    have hpos : 0 < (ebdaSegment mem).toNat :=
      Nat.pos_of_ne_zero fun hzero ↦ hseg (UInt16.toNat_inj.1 hzero)
    rw [hslots]
    rcases lowest_scanRsdpArea1kb mem (ebdaSegment mem) with hleast | ⟨hnone, hzero⟩
    · -- a slot of the EBDA is never at address zero
      have hne : scanRsdpArea1kb mem ((ebdaSegment mem).toUInt32 <<< 4) ≠ 0 := by
        intro hzero
        obtain ⟨⟨k, -, hk⟩, -⟩ := hleast.1
        rw [hzero, UInt32.toNat_zero] at hk
        omega
      rw [if_pos hne]
      exact Or.inl hleast
    · have hnot : scanRsdpArea1kb mem ((ebdaSegment mem).toUInt32 <<< 4) = 0 :=
        UInt32.toNat_inj.1 hzero
      rw [if_neg (not_not.2 hnot)]
      exact Or.inr ⟨hnone, lowest_scanRsdpArea128kb⟩

/-! ### Whether it is the right address -/

theorem ebdaSlots_eq_ebdaArea (h : (ebdaSegment mem).toNat % 16 = 0) :
    ebdaSlots mem = ebdaArea mem := by
  have hslots := slots_eq_area mem (n := 64)
    (Nat.dvd_mul_left 16 (ebdaSegment mem).toNat)
  rw [ebdaSlots, ebdaArea, h, Nat.add_zero, hslots]

/-- The address looked for is aligned. -/
theorem Detects.dvd {r : ℕ} (h : Detects mem r) : 16 ∣ r := by
  rcases h with h | ⟨-, h | ⟨-, h⟩⟩
  · exact h.1.2.1
  · exact h.1.1
  · exact h ▸ Nat.dvd_zero 16

theorem not_dvd_of_mem_ebdaSlots {a : ℕ} (h : (ebdaSegment mem).toNat % 16 ≠ 0)
    (ha : a ∈ ebdaSlots mem) : ¬16 ∣ a := by
  obtain ⟨-, ⟨k, -, rfl⟩, -⟩ := ha
  omega

/-- A scan that finds nothing in the EBDA goes wrong when there is something, unless that is also
the first in the other area. -/
theorem detects_iff_of_biosArea {r : ℕ} (h : Lowest [biosArea mem] r) :
    Detects mem r ↔
      ebdaArea mem = ∅ ∨ ∃ a, IsLeast (ebdaArea mem) a ∧ IsLeast (biosArea mem) a := by
  constructor
  · rintro (hleast | ⟨hnone, -⟩)
    · rcases h with hbios | ⟨-, rfl⟩
      · exact Or.inr ⟨r, hleast, hbios⟩
      · -- the EBDA does not begin at address zero
        obtain ⟨hseg, -, hle, -⟩ := hleast.1
        have hzero : (ebdaSegment mem).toNat = 0 := by omega
        exact absurd (UInt16.toNat_inj.1 hzero) hseg
    · exact Or.inl hnone
  · rintro (hnone | ⟨a, hleast, hbios⟩)
    · exact Or.inr ⟨hnone, h⟩
    · rcases h with h | ⟨hempty, -⟩
      · exact Or.inl (h.unique hbios ▸ hleast)
      · exact absurd (hempty ▸ hbios.1) (Set.notMem_empty a)

theorem detects_rsdpAddr_iff (mem : ℕ → UInt8) :
    Detects mem (rsdpAddr mem).toNat ↔
      (ebdaSegment mem).toNat % 16 = 0 ∨ ebdaSlots mem = ∅ ∧
        (ebdaArea mem = ∅ ∨ ∃ a, IsLeast (ebdaArea mem) a ∧ IsLeast (biosArea mem) a) := by
  have hfound := lowest_rsdpAddr mem
  rcases Decidable.em ((ebdaSegment mem).toNat % 16 = 0) with hseg | hseg
  · rw [ebdaSlots_eq_ebdaArea hseg] at hfound
    exact iff_of_true hfound (Or.inl hseg)
  rw [or_iff_right hseg]
  rcases hfound with hleast | ⟨hnone, hbios⟩
  · refine iff_of_false (fun h ↦ not_dvd_of_mem_ebdaSlots hseg hleast.1 h.dvd) fun h ↦ ?_
    exact absurd (h.1 ▸ hleast.1) (Set.notMem_empty _)
  · rw [and_iff_right hnone]
    exact detects_iff_of_biosArea hbios

theorem littleEndian_detectRsdp (bootInfo : ℕ) (mem : ℕ → UInt8) :
    littleEndian (detectRsdp bootInfo mem) 4 (bootInfo + rsdpAddrOffset) =
      (rsdpAddr mem).toNat := by
  rw [detectRsdp, littleEndian_writeNumber]
  exact Nat.mod_eq_of_lt (rsdpAddr mem).toNat_lt

/-- Nothing else is written. -/
theorem detectRsdp_of_not_mem {bootInfo q : ℕ}
    (h : q < bootInfo + rsdpAddrOffset ∨ bootInfo + rsdpAddrOffset + 4 ≤ q) :
    detectRsdp bootInfo mem q = mem q := writeNumber_of_not_mem h

/-- **`detect_rsdp` stores the address looked for** exactly when the EBDA begins at a multiple of
256 bytes, or else when the signature stands at none of the slots that are scanned in its place, and
either at no aligned address of the EBDA or first at one that is also the first below the first
megabyte. -/
theorem detects_detectRsdp_iff (bootInfo : ℕ) (mem : ℕ → UInt8) :
    Detects mem (littleEndian (detectRsdp bootInfo mem) 4 (bootInfo + rsdpAddrOffset)) ↔
      (ebdaSegment mem).toNat % 16 = 0 ∨ ebdaSlots mem = ∅ ∧
        (ebdaArea mem = ∅ ∨ ∃ a, IsLeast (ebdaArea mem) a ∧ IsLeast (biosArea mem) a) := by
  rw [littleEndian_detectRsdp]
  exact detects_rsdpAddr_iff mem

/-- A machine whose EBDA has segment `9FC1h` and begins with the signature. -/
def oddEbda : ℕ → UInt8 :=
  fillRun (writeNumber (fun _ ↦ 0) (linear 0x40 0x0E) 2 0x9FC1) 0x9FC10
    (fun i ↦ rsdpSig.getD i 0) 8

/-- The RSDP is at `9FC10h`, and zero is stored. -/
theorem not_detects_oddEbda :
    ¬Detects oddEbda (littleEndian (detectRsdp 0xA800 oddEbda) 4 (0xA800 + rsdpAddrOffset)) := by
  have hseg : ebdaSegment oddEbda = 0x9FC1 := by decide
  have hsig : SignatureAt oddEbda 0x9FC10 := by decide
  have hmem : 0x9FC10 ∈ ebdaArea oddEbda := by
    refine ⟨by rw [hseg]; decide, by decide, ?_, ?_, hsig⟩ <;> rw [hseg] <;> decide
  have hslots : ebdaSlots oddEbda = ∅ := by
    refine Set.eq_empty_of_forall_notMem fun a ha ↦ ?_
    obtain ⟨-, ⟨k, hk, rfl⟩, hat⟩ := ha
    rw [hseg] at hat
    have hall : ∀ k < 64, ¬SignatureAt oddEbda (0x9FC11 + 16 * k) := by decide
    exact hall k hk hat
  have hbios : biosArea oddEbda = ∅ := by
    refine Set.eq_empty_of_forall_notMem fun a ha ↦ ?_
    obtain ⟨-, hle, -, hat⟩ := ha
    have hbyte : oddEbda a = 0 := by
      rw [oddEbda, fillRun_of_not_mem (by omega), writeNumber_of_not_mem]
      exact Or.inr (Nat.le_trans (by decide) hle)
    have hfirst := hat 0 (by decide)
    rw [Nat.add_zero, hbyte] at hfirst
    exact absurd hfirst (by decide)
  rw [littleEndian_detectRsdp, detects_rsdpAddr_iff]
  rintro (hdvd | ⟨-, hnone | ⟨a, -, hleast⟩⟩)
  · rw [hseg] at hdvd
    exact absurd hdvd (by decide)
  · exact absurd (hnone ▸ hmem) (Set.notMem_empty _)
  · exact absurd (hbios ▸ hleast.1) (Set.notMem_empty a)

end Aidos.Stage2
