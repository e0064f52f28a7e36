import Mathlib.Algebra.Order.Ring.Nat
import Mathlib.Data.Nat.Notation
import Mathlib.Tactic.Common
import Aidos.Disk.Ata
import Aidos.Library.Words

/-!
# Which sectors the ATA driver delivers

A request for several sectors is a loop over requests for one, each with the address split over four
registers. The registers hold 28 bits, so what a successful request delivers is the sector of the
address modulo `2 ^ 28` (`AtaDrive.sectorLoop_spec`). The driver compares the address with that
limit once, in front of the loop: a request that starts below the limit and ends above it goes on
with the sectors at the start of the disk. `AtaDrive.readsTruly_iff` is the exact condition.
-/

namespace Aidos.Disk

/-- The sectors that 28 bits address. -/
abbrev addressable : ℕ := 268435456

/-! ### One sector -/

/-- A wait reads the status register and does nothing else. -/
theorem waitNotBusy_eq (wait : ℕ) :
    ∀ dev : AtaDevice, ∃ k, (waitNotBusy wait dev).2 = { dev with statusReads := k } := by
  induction wait with
  | zero => exact fun dev ↦ ⟨dev.statusReads, rfl⟩
  | succ wait ih =>
    intro dev
    rw [waitNotBusy]
    dsimp only [AtaDevice.inStatus]
    split
    · exact ih { dev with statusReads := dev.statusReads + 1 }
    · exact ⟨_, rfl⟩

theorem waitData_eq (wait : ℕ) :
    ∀ dev : AtaDevice, ∃ k, (waitData wait dev).2 = { dev with statusReads := k } := by
  induction wait with
  | zero => exact fun dev ↦ ⟨dev.statusReads, rfl⟩
  | succ wait ih =>
    intro dev
    rw [waitData]
    dsimp only [AtaDevice.inStatus]
    split
    · exact ⟨_, rfl⟩
    · split
      · exact ⟨_, rfl⟩
      · exact ih { dev with statusReads := dev.statusReads + 1 }

/-- The word that two bytes make. -/
def word (b₀ b₁ : UInt8) : UInt16 := b₀.toUInt16 ||| (b₁.toUInt16 <<< 8)

theorem toNat_word (b₀ b₁ : UInt8) : (word b₀ b₁).toNat = b₀.toNat + 256 * b₁.toNat := by
  have h₀ := b₀.toNat_lt
  have h₁ := b₁.toNat_lt
  have hshift : (b₁.toUInt16 <<< 8).toNat = b₁.toNat <<< 8 := by
    rw [UInt16.toNat_shiftLeft, UInt8.toNat_toUInt16, show (8 : UInt16).toNat % 16 = 8 from rfl,
      Nat.shiftLeft_eq]
    omega
  rw [word, UInt16.toNat_or, hshift, UInt8.toNat_toUInt16, Nat.or_comm,
    ← Nat.shiftLeft_add_eq_or_of_lt h₀, Nat.shiftLeft_eq]
  omega

/-- The driver takes a word apart again. -/
theorem bytes_word (b₀ b₁ : UInt8) :
    (word b₀ b₁ &&& 0xFF).toUInt8 = b₀ ∧ ((word b₀ b₁ >>> 8) &&& 0xFF).toUInt8 = b₁ := by
  have h₀ := b₀.toNat_lt
  have h₁ := b₁.toNat_lt
  constructor
  · rw [← UInt8.toNat_inj, Words.toNat_lowByte, toNat_word]
    omega
  · rw [← UInt8.toNat_inj, Words.toNat_highByte, toNat_word]
    omega

/-- The byte of the address from bit `k` on. -/
theorem toNat_byteAt (lba : UInt32) {k : UInt32} (hk : k.toNat < 32) :
    ((lba >>> k) &&& 0xFF).toUInt8.toNat = lba.toNat / 2 ^ k.toNat % 256 := by
  rw [UInt32.toNat_toUInt8, Words.toNat_and_mask32 (k := 8) rfl, Words.toNat_shiftRight32 lba hk]
  exact Nat.mod_mod _ 256

/-- The nibble of the address in the drive register, whichever drive is selected. -/
theorem toNat_driveHead (isMaster : Bool) (lba : UInt32) :
    ((if isMaster then 0xE0 else 0xF0 : UInt8) ||| ((lba >>> 24) &&& 0x0F).toUInt8).toNat % 16 =
      lba.toNat / 16777216 % 16 := by
  have hnibble : ((lba >>> 24) &&& 0x0F).toUInt8.toNat = lba.toNat / 16777216 % 16 := by
    have hshift : (lba >>> 24).toNat = lba.toNat / 2 ^ 24 :=
      Words.toNat_shiftRight32 lba (by decide)
    rw [UInt32.toNat_toUInt8, Words.toNat_and_mask32 (k := 4) rfl, hshift]
    omega
  have hall : ∀ n < 16, ∀ b : Bool,
      ((if b then 0xE0 else 0xF0 : UInt8) ||| UInt8.ofNat n).toNat % 16 = n := by
    decide
  have hlt : lba.toNat / 16777216 % 16 < 16 := Nat.mod_lt _ (by decide)
  have h := hall _ hlt isMaster
  rwa [← hnibble, UInt8.ofNat_toNat, hnibble] at h

/-- The registers name the sector of the low 28 bits. -/
theorem address_command (drive : AtaDrive) (curLba : UInt32) (dev : AtaDevice) :
    (drive.command curLba dev).address = curLba.toNat % addressable := by
  have hlow := toNat_byteAt curLba (k := 0) (by decide)
  rw [UInt32.shiftRight_zero] at hlow
  have hmid := toNat_byteAt curLba (k := 8) (by decide)
  have hhigh := toNat_byteAt curLba (k := 16) (by decide)
  have hhead := toNat_driveHead drive.isMaster curLba
  have hlt := curLba.toNat_lt
  simp only [UInt32.reduceToNat] at hlow hmid hhigh
  simp only [AtaDrive.command, AtaDevice.outb, AtaDevice.readCommand, AtaDevice.address,
    if_true]
  rw [hlow, hmid, hhigh, hhead, addressable]
  omega

/-- **The command** makes that sector ready. -/
theorem words_command (drive : AtaDrive) (curLba : UInt32) (dev : AtaDevice) (i : ℕ) :
    (drive.command curLba dev).words i =
      word (dev.sector (curLba.toNat % addressable) (2 * i))
        (dev.sector (curLba.toNat % addressable) (2 * i + 1)) := by
  rw [← address_command drive curLba dev]
  rfl

/-! ### The transfer -/

theorem storeAt_eq (buf : UInt64 → UInt8) (i j : UInt64) (b : UInt8) :
    storeAt buf i b j = if j.toNat = i.toNat then b else buf j :=
  if_congr UInt64.toNat_inj.symm rfl rfl

/-- An index of the buffer that does not wrap. -/
theorem toNat_index {sector i : UInt64} (hi : i.toNat < 256)
    (hsector : sector.toNat * 512 + 512 ≤ 2 ^ 64) :
    (sector * 512 + i * 2).toNat = sector.toNat * 512 + i.toNat * 2 ∧
      (sector * 512 + i * 2 + 1).toNat = sector.toNat * 512 + i.toNat * 2 + 1 := by
  have hindex : (sector * 512 + i * 2).toNat = sector.toNat * 512 + i.toNat * 2 := by
    rw [UInt64.toNat_add, UInt64.toNat_mul, UInt64.toNat_mul]
    simp only [UInt64.reduceToNat]
    omega
  refine ⟨hindex, ?_⟩
  rw [UInt64.toNat_add, hindex, UInt64.toNat_one]
  omega

/-- **The transfer of a sector** puts its bytes where they belong, and stores nothing else. -/
theorem transfer_spec {sector : UInt64} (hsector : sector.toNat * 512 + 512 ≤ 2 ^ 64)
    (src : ℕ → UInt8) (n : ℕ) :
    ∀ {i : UInt64} (buf : UInt64 → UInt8) (dev : AtaDevice), i.toNat + n = 256 →
      dev.wordsRead = i.toNat → (∀ k, dev.words k = word (src (2 * k)) (src (2 * k + 1))) →
      (∀ j, (transfer sector n i buf dev).1 j =
        if sector.toNat * 512 + i.toNat * 2 ≤ j.toNat ∧ j.toNat < sector.toNat * 512 + 512 then
          src (j.toNat - sector.toNat * 512) else buf j) ∧
      ∃ k, (transfer sector n i buf dev).2 = { dev with wordsRead := k } := by
  induction n with
  | zero =>
    intro i buf dev hi _ _
    refine ⟨fun j ↦ ?_, dev.wordsRead, rfl⟩
    rw [if_neg (by omega)]
    rfl
  | succ n ih =>
    intro i buf dev hi hread hwords
    obtain ⟨hfirst, hsecond⟩ := toNat_index (i := i) (by omega) hsector
    obtain ⟨hlow, hhigh⟩ := bytes_word (src (2 * i.toNat)) (src (2 * i.toNat + 1))
    have hnext : (i + 1).toNat = i.toNat + 1 := by
      rw [UInt64.toNat_add, UInt64.toNat_one]
      omega
    rw [transfer]
    dsimp only [AtaDevice.inData]
    rw [hread, hwords, hlow, hhigh]
    obtain ⟨hbuf, k, hdev⟩ := ih (i := i + 1)
      (storeAt (storeAt buf (sector * 512 + i * 2) (src (2 * i.toNat)))
        (sector * 512 + i * 2 + 1) (src (2 * i.toNat + 1)))
      { dev with wordsRead := i.toNat + 1 } (by omega) hnext.symm hwords
    refine ⟨fun j ↦ ?_, k, hdev⟩
    rw [hbuf j, hnext]
    by_cases hj : sector.toNat * 512 + (i.toNat + 1) * 2 ≤ j.toNat ∧
        j.toNat < sector.toNat * 512 + 512
    · rw [if_pos hj, if_pos (by omega)]
    · rw [if_neg hj, storeAt_eq, storeAt_eq, hfirst, hsecond]
      by_cases hodd : j.toNat = sector.toNat * 512 + i.toNat * 2 + 1
      · rw [if_pos hodd, if_pos (by omega)]
        congr 1
        omega
      · rw [if_neg hodd]
        by_cases heven : j.toNat = sector.toNat * 512 + i.toNat * 2
        · rw [if_pos heven, if_pos (by omega)]
          congr 1
          omega
        · rw [if_neg heven, if_neg (by omega)]

namespace AtaDrive

variable {drive : AtaDrive}

/-! ### The request -/

/-- The sector that the drive is asked for in some turn. -/
theorem toNat_curLba (lba sector : UInt64) :
    (lba + sector).toUInt32.toNat % addressable = (lba.toNat + sector.toNat) % addressable := by
  rw [addressable, UInt64.toNat_toUInt32, UInt64.toNat_add]
  omega

/-- **What a request delivers**: some first sectors, of the addresses modulo `2 ^ 28`, one after the
other, whatever the drive answers on the way; and all of them if it succeeds. The contents of the
drive stay as they are. -/
theorem sectorLoop_fills (drive : AtaDrive) (lba : UInt64) (n : ℕ) :
    ∀ (sector : UInt64) (buf : UInt64 → UInt8) (dev : AtaDevice), sector.toNat + n ≤ 2 ^ 55 →
      ∃ k ≤ n, ((drive.sectorLoop lba n sector buf dev).1 = true → k = n) ∧
        (drive.sectorLoop lba n sector buf dev).2.2.sector = dev.sector ∧
        ∀ j, (drive.sectorLoop lba n sector buf dev).2.1 j =
          if sector.toNat ≤ j.toNat / 512 ∧ j.toNat / 512 < sector.toNat + k then
            dev.sector ((lba.toNat + j.toNat / 512) % addressable) (j.toNat % 512)
          else buf j := by
  induction n with
  | zero =>
    intro sector buf dev _
    refine ⟨0, Nat.le_refl _, fun _ ↦ rfl, rfl, fun j ↦ ?_⟩
    rw [if_neg (by omega)]
    rfl
  | succ n ih =>
    intro sector buf dev hfits
    -- a request that is given up here has delivered nothing more
    have hstop {dev' : AtaDevice} (hsector : dev'.sector = dev.sector) :
        ∃ k ≤ n + 1, ((false, buf, dev').1 = true → k = n + 1) ∧ dev'.sector = dev.sector ∧
          ∀ j, buf j = if sector.toNat ≤ j.toNat / 512 ∧ j.toNat / 512 < sector.toNat + k then
            dev.sector ((lba.toNat + j.toNat / 512) % addressable) (j.toNat % 512)
          else buf j :=
      ⟨0, Nat.zero_le _, fun h ↦ absurd h Bool.false_ne_true, hsector, fun j ↦ by
        rw [if_neg (by omega)]⟩
    have hroom : sector.toNat * 512 + 512 ≤ 2 ^ 64 := by omega
    have hnext : (sector + 1).toNat = sector.toNat + 1 := by
      rw [UInt64.toNat_add, UInt64.toNat_one]
      omega
    have hrest : (sector + 1).toNat + n ≤ 2 ^ 55 := by
      rw [hnext]
      omega
    rw [sectorLoop]
    dsimp only
    obtain ⟨r, hbusy⟩ := waitNotBusy_eq (maxWait + 1) dev
    generalize waitNotBusy (maxWait + 1) dev = busy at hbusy ⊢
    obtain ⟨- | -, dev₁⟩ := busy
    · obtain rfl : dev₁ = { dev with statusReads := r } := hbusy
      exact hstop rfl
    obtain rfl : dev₁ = { dev with statusReads := r } := hbusy
    dsimp only
    have hwords (i : ℕ) := words_command drive (lba + sector).toUInt32
      { dev with statusReads := r } i
    rw [toNat_curLba] at hwords
    have hfixed : (drive.command (lba + sector).toUInt32 { dev with statusReads := r }).sector =
          dev.sector ∧
        (drive.command (lba + sector).toUInt32 { dev with statusReads := r }).wordsRead = 0 :=
      ⟨rfl, rfl⟩
    generalize drive.command (lba + sector).toUInt32 { dev with statusReads := r } = dev₂
      at hwords hfixed ⊢
    obtain ⟨r', hdata⟩ := waitData_eq (maxWait + 1) dev₂
    generalize waitData (maxWait + 1) dev₂ = data at hdata ⊢
    obtain ⟨- | -, dev₃⟩ := data
    · obtain rfl : dev₃ = { dev₂ with statusReads := r' } := hdata
      exact hstop hfixed.1
    obtain rfl : dev₃ = { dev₂ with statusReads := r' } := hdata
    dsimp only
    obtain ⟨hbuf, w, hdev⟩ := transfer_spec hroom
      (dev.sector ((lba.toNat + sector.toNat) % addressable)) 256 (i := 0) buf
      { dev₂ with statusReads := r' } rfl hfixed.2 hwords
    generalize transfer sector 256 0 buf { dev₂ with statusReads := r' } = moved at hbuf hdev ⊢
    obtain ⟨buf', dev₄⟩ := moved
    obtain rfl : dev₄ = { dev₂ with statusReads := r', wordsRead := w } := hdev
    dsimp only at hbuf ⊢
    obtain ⟨k, hk, hall, hsector, hlater⟩ := ih (sector + 1) buf'
      { dev₂ with statusReads := r', wordsRead := w } hrest
    refine ⟨k + 1, Nat.succ_le_succ hk, fun hok ↦ congrArg _ (hall hok),
      hsector.trans hfixed.1, fun j ↦ ?_⟩
    rw [hlater j, hnext, hbuf j, hfixed.1]
    clear hlater hbuf hfixed hwords hall hsector ih hstop
    by_cases hj : sector.toNat + 1 ≤ j.toNat / 512 ∧ j.toNat / 512 < sector.toNat + 1 + k
    · rw [if_pos hj, if_pos (by omega)]
    · rw [if_neg hj]
      have hzero : (0 : UInt64).toNat * 2 = 0 := rfl
      rw [hzero, Nat.add_zero]
      by_cases hthis : j.toNat / 512 = sector.toNat
      · have hmod : j.toNat - sector.toNat * 512 = j.toNat % 512 := by omega
        rw [if_pos (by omega), if_pos (by omega), hthis, hmod]
      · rw [if_neg (by omega), if_neg (by omega)]

/-- A successful request delivers all of the sectors. -/
theorem sectorLoop_spec (drive : AtaDrive) (lba : UInt64) (n : ℕ) :
    ∀ (sector : UInt64) (buf : UInt64 → UInt8) (dev : AtaDevice), sector.toNat + n ≤ 2 ^ 55 →
      (drive.sectorLoop lba n sector buf dev).1 = true →
      ∀ j, (drive.sectorLoop lba n sector buf dev).2.1 j =
        if sector.toNat ≤ j.toNat / 512 ∧ j.toNat / 512 < sector.toNat + n then
          dev.sector ((lba.toNat + j.toNat / 512) % addressable) (j.toNat % 512)
        else buf j := by
  intro sector buf dev hfits hok
  obtain ⟨k, -, hall, -, hfill⟩ := sectorLoop_fills drive lba n sector buf dev hfits
  rwa [hall hok] at hfill

theorem status_command (drive : AtaDrive) (curLba : UInt32) (dev : AtaDevice) :
    (drive.command curLba dev).status = dev.status := rfl

theorem status_transfer (sector : UInt64) (n : ℕ) :
    ∀ (i : UInt64) (buf : UInt64 → UInt8) (dev : AtaDevice),
      (transfer sector n i buf dev).2.status = dev.status := by
  induction n with
  | zero => exact fun _ _ _ ↦ rfl
  | succ n ih => exact fun _ _ _ ↦ ih _ _ _

/-- A drive that is never busy and always has data lets every request succeed. -/
theorem sectorLoop_of_ready (lba : UInt64) (n : ℕ) :
    ∀ (sector : UInt64) (buf : UInt64 → UInt8) (dev : AtaDevice), (∀ k, dev.status k = 0x08) →
      (drive.sectorLoop lba n sector buf dev).1 = true := by
  induction n with
  | zero => exact fun _ _ _ _ ↦ rfl
  | succ n ih =>
    intro sector buf dev hready
    have hbusy : waitNotBusy (maxWait + 1) dev =
        (true, { dev with statusReads := dev.statusReads + 1 }) := by
      rw [waitNotBusy]
      dsimp only [AtaDevice.inStatus]
      rw [hready, if_neg (by decide)]
    rw [sectorLoop, hbusy]
    dsimp only
    have hcommand : ∀ k, (drive.command (lba + sector).toUInt32
        { dev with statusReads := dev.statusReads + 1 }).status k = 0x08 :=
      fun k ↦ (congrFun (status_command _ _ _) k).trans (hready k)
    generalize drive.command (lba + sector).toUInt32
      { dev with statusReads := dev.statusReads + 1 } = dev₁ at hcommand ⊢
    have hdata : waitData (maxWait + 1) dev₁ =
        (true, { dev₁ with statusReads := dev₁.statusReads + 1 }) := by
      rw [waitData]
      dsimp only [AtaDevice.inStatus]
      rw [hcommand, if_neg (by decide), if_pos (by decide)]
    rw [hdata]
    dsimp only
    have hkept := status_transfer sector 256 0 buf
      { dev₁ with statusReads := dev₁.statusReads + 1 }
    generalize transfer sector 256 0 buf { dev₁ with statusReads := dev₁.statusReads + 1 } = moved
      at hkept ⊢
    exact ih _ _ _ fun k ↦ (congrFun hkept k).trans (hcommand k)

variable {lba count : UInt64}

/-- What is asked of a request, whatever the disk holds, however the drive answers and whatever the
buffer held. -/
structure ReadsTruly (drive : AtaDrive) (lba count : UInt64) : Prop where
  /-- A request that succeeds has delivered the sectors. -/
  data : ∀ buffer dev, (drive.readSectors lba count buffer dev).1 = true →
    ∃ buf, (drive.readSectors lba count buffer dev).2.1 = some buf ∧
      ∀ i < count.toNat, ∀ j < 512,
        buf (UInt64.ofNat (512 * i + j)) = dev.sector (lba.toNat + i) j
  /-- A request whose last sector has no 28-bit address fails. -/
  refuses : 0 < count.toNat → addressable ≤ lba.toNat + count.toNat - 1 →
    ∀ buffer dev, (drive.readSectors lba count buffer dev).1 = false

/-- The request is turned down before the first sector. -/
def TurnsDown (drive : AtaDrive) (lba count : UInt64) : Prop :=
  count = 0 ∨ drive.ioBase = 0 ∨ addressable ≤ lba.toNat

instance : Decidable (drive.TurnsDown lba count) := inferInstanceAs (Decidable (_ ∨ _ ∨ _))

theorem readSectors_of_turnsDown (h : drive.TurnsDown lba count)
    (buffer : Option (UInt64 → UInt8)) (dev : AtaDevice) :
    (drive.readSectors lba count buffer dev).1 = false := by
  rcases buffer with - | buf
  · rfl
  rw [readSectors]
  dsimp only
  split
  · rfl
  next hstart =>
  rw [not_or] at hstart
  have hlba : addressable ≤ lba.toNat := (h.resolve_left hstart.1).resolve_left hstart.2
  rw [if_pos (UInt64.lt_iff_toNat_lt.2 (Nat.lt_of_lt_of_le (by decide) hlba))]

theorem readSectors_of_not_turnsDown (h : ¬ drive.TurnsDown lba count) (buf : UInt64 → UInt8)
    (dev : AtaDevice) :
    drive.readSectors lba count (some buf) dev =
      ((drive.sectorLoop lba count.toNat 0 buf dev).1,
        some (drive.sectorLoop lba count.toNat 0 buf dev).2.1,
        (drive.sectorLoop lba count.toNat 0 buf dev).2.2) := by
  rw [TurnsDown, not_or, not_or] at h
  obtain ⟨hcount, hbase, hlba⟩ := h
  have hle : ¬ lba > 0x0FFFFFFF := by
    rw [gt_iff_lt, UInt64.lt_iff_toNat_lt]
    simp only [UInt64.reduceToNat, addressable] at hlba ⊢
    omega
  rw [readSectors]
  dsimp only
  rw [if_neg (not_or.2 ⟨hcount, hbase⟩), if_neg hle]

/-- A drive with blank sectors that is never busy and always has data. -/
def readyDevice : AtaDevice where
  sector _ _ := 0
  status _ := 0x08
  statusReads := 0
  sectorCount := 0
  lbaLow := 0
  lbaMid := 0
  lbaHigh := 0
  driveHead := 0
  words _ := 0
  wordsRead := 0

/-- It serves every request that is not turned down, whatever addresses the sectors have. -/
theorem readSectors_readyDevice (h : ¬ drive.TurnsDown lba count) :
    (drive.readSectors lba count (some fun _ ↦ 0) readyDevice).1 = true := by
  rw [readSectors_of_not_turnsDown h]
  exact sectorLoop_of_ready lba count.toNat 0 _ readyDevice fun _ ↦ rfl

/-- **When the driver reads what it is asked for**: the request is turned down at once, or all of
its sectors have 28-bit addresses. -/
theorem readsTruly_iff (drive : AtaDrive) (lba count : UInt64) :
    drive.ReadsTruly lba count ↔
      drive.TurnsDown lba count ∨ lba.toNat + count.toNat ≤ addressable := by
  by_cases hdown : drive.TurnsDown lba count
  · refine iff_of_true ⟨fun buffer dev hok ↦ ?_, fun _ _ ↦ readSectors_of_turnsDown hdown⟩
      (Or.inl hdown)
    exact absurd ((readSectors_of_turnsDown hdown buffer dev).symm.trans hok) (by simp)
  rw [or_iff_right hdown]
  have hpos : 0 < count.toNat :=
    Nat.pos_of_ne_zero fun hzero ↦ hdown (Or.inl (UInt64.toNat_inj.1 hzero))
  constructor
  · intro h
    by_contra hlt
    have hfails := h.refuses hpos (by omega) (some fun _ ↦ 0) readyDevice
    exact absurd ((readSectors_readyDevice hdown).symm.trans hfails) (by simp)
  · intro hle
    refine ⟨fun buffer dev hok ↦ ?_, fun _ hlast ↦ absurd hle (by omega)⟩
    rcases buffer with - | buf
    · exact absurd hok Bool.false_ne_true
    rw [readSectors_of_not_turnsDown hdown] at hok ⊢
    refine ⟨_, rfl, fun i hi j hj ↦ ?_⟩
    rw [addressable] at hle
    have hindex : (UInt64.ofNat (512 * i + j)).toNat = 512 * i + j :=
      UInt64.toNat_ofNat_of_lt' (Nat.lt_trans (m := 2 ^ 40) (by omega) (by decide))
    have hzero : (0 : UInt64).toNat = 0 := rfl
    have hspec := sectorLoop_spec drive lba count.toNat 0 buf dev (by omega)
      hok (UInt64.ofNat (512 * i + j))
    rw [hindex] at hspec
    have hdiv : (512 * i + j) / 512 = i := by omega
    have hmod : (512 * i + j) % 512 = j := by omega
    rw [hspec, if_pos (by omega), hdiv, hmod, addressable, Nat.mod_eq_of_lt (by omega)]

/-- **A request that runs over the limit succeeds**: the last sector that has an address and the one
behind it. -/
theorem not_readsTruly_last : ¬ (⟨0x1F0, true⟩ : AtaDrive).ReadsTruly 0x0FFFFFFF 2 := by
  intro h
  have hfails := h.refuses (by decide) (by decide) (some fun _ ↦ 0) readyDevice
  exact absurd ((readSectors_readyDevice (by decide)).symm.trans hfails) (by simp)

end AtaDrive

end Aidos.Disk
