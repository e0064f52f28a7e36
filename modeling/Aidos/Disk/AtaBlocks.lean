import Aidos.Disk.AtaProbe
import Aidos.Fat12.Layout
import Aidos.Library.Dialogue

/-!
# The ATA driver is a block device

The file system takes its disk for a `BlockIODevice`: contents, and for every call an outcome that
is not known beforehand. The driver that `initialize` has set up is one. At the ports it behaves as
on the registers of the drive it found (`AtaDriver.Attached.readSectors`), and every answer of that
drive is one that a block device with the same contents can give: all sectors, or a failure behind
some of them. So whatever a client does, there is a script of outcomes with which a block device
gives it the same answers (`AtaDriver.serves_blocks`).

The registers hold 28 bits of an address, so the contents repeat behind the last sector that they
can name.
-/

namespace Aidos.Disk

open Aidos.Fat12 (BlockDevice)

/-! ### At the ports -/

namespace AtaPorts

variable {p₀ : AtaPorts} {ch drv : Fin 2}

theorem Shows.waitNotBusy (n : ℕ) :
    ∀ {dev : AtaDevice} {p : AtaPorts}, Shows p₀ ch drv dev p →
      (AtaPorts.waitNotBusy (channelBase ch) n p).1 = (Disk.waitNotBusy n dev).1 ∧
        Shows p₀ ch drv (Disk.waitNotBusy n dev).2
          (AtaPorts.waitNotBusy (channelBase ch) n p).2 := by
  induction n with
  | zero => exact fun h ↦ ⟨rfl, h⟩
  | succ n ih =>
    intro dev p h
    obtain ⟨hstatus, hnext⟩ := h.inb
    rw [AtaPorts.waitNotBusy, Disk.waitNotBusy]
    dsimp only
    rw [hstatus]
    split
    · exact ih hnext
    · exact ⟨rfl, hnext⟩

theorem Shows.transfer (sector : UInt64) (n : ℕ) :
    ∀ {dev : AtaDevice} {p : AtaPorts} (i : UInt64) (buf : UInt64 → UInt8), Shows p₀ ch drv dev p →
      (AtaPorts.transfer (channelBase ch) sector n i buf p).1 =
          (Disk.transfer sector n i buf dev).1 ∧
        Shows p₀ ch drv (Disk.transfer sector n i buf dev).2
          (AtaPorts.transfer (channelBase ch) sector n i buf p).2 := by
  induction n with
  | zero => exact fun i buf h ↦ ⟨rfl, h⟩
  | succ n ih =>
    intro dev p i buf h
    obtain ⟨hword, hnext⟩ := h.inw
    rw [AtaPorts.transfer, Disk.transfer]
    dsimp only
    rw [hword]
    exact ih _ _ hnext

end AtaPorts

namespace AtaDriver

open AtaPorts

/-- The driver is set up for a drive. -/
structure Attached (drive : AtaDriver) (ch drv : Fin 2) : Prop where
  /-- It uses the ports of the drive's channel. -/
  ioBase : drive.ioBase = channelBase ch
  /-- It knows whether the drive is the master. -/
  isMaster : drive.isMaster = decide (drv = 0)

variable {drive : AtaDriver} {p₀ : AtaPorts} {ch drv : Fin 2}

/-- The drive register of a request selects the drive that is selected already. -/
theorem Attached.selects (h : drive.Attached ch drv) (lba : UInt32) :
    (if ((if drive.isMaster then 0xE0 else 0xF0 : UInt8) ||| ((lba >>> 24) &&& 0x0F).toUInt8) &&&
      0x10 = 0 then 0 else 1) = drv := by
  have hall : ∀ n < 16, ∀ d : Fin 2,
      (if ((if decide (d = 0) then 0xE0 else 0xF0 : UInt8) ||| UInt8.ofNat n) &&& 0x10 = 0
        then 0 else 1) = d := by
    decide
  have hlt : ((lba >>> 24) &&& 0x0F).toUInt8.toNat < 16 := by
    rw [UInt32.toNat_toUInt8, Words.toNat_and_mask32 (k := 4) rfl]
    omega
  have hsel := hall _ hlt drv
  rwa [UInt8.ofNat_toNat, ← h.isMaster] at hsel

theorem Attached.command (hd : drive.Attached ch drv) {dev : AtaDevice} {p : AtaPorts}
    (h : Shows p₀ ch drv dev p) (curLba : UInt32) :
    Shows p₀ ch drv (drive.toAtaDrive.command curLba dev) (drive.command curLba p) := by
  rw [AtaDriver.command, AtaDrive.command, hd.ioBase]
  have h₆ := h.register (k := 6) (by decide) fun _ ↦ hd.selects curLba
  have h₂ := h₆.register (k := 2) (v := 1) (by decide) fun hk ↦ absurd hk (by decide)
  have h₃ := h₂.register (k := 3) (v := (curLba &&& 0xFF).toUInt8) (by decide)
    fun hk ↦ absurd hk (by decide)
  have h₄ := h₃.register (k := 4) (v := ((curLba >>> 8) &&& 0xFF).toUInt8) (by decide)
    fun hk ↦ absurd hk (by decide)
  have h₅ := h₄.register (k := 5) (v := ((curLba >>> 16) &&& 0xFF).toUInt8) (by decide)
    fun hk ↦ absurd hk (by decide)
  exact h₅.command (by decide)

theorem Attached.sectorLoop (hd : drive.Attached ch drv) (lba : UInt64) (n : ℕ) :
    ∀ {dev : AtaDevice} {p : AtaPorts} (sector : UInt64) (buf : UInt64 → UInt8),
      Shows p₀ ch drv dev p →
      (drive.sectorLoop lba n sector buf p).1 =
          (drive.toAtaDrive.sectorLoop lba n sector buf dev).1 ∧
        (drive.sectorLoop lba n sector buf p).2.1 =
          (drive.toAtaDrive.sectorLoop lba n sector buf dev).2.1 ∧
        Shows p₀ ch drv (drive.toAtaDrive.sectorLoop lba n sector buf dev).2.2
          (drive.sectorLoop lba n sector buf p).2.2 := by
  induction n with
  | zero => exact fun sector buf h ↦ ⟨rfl, rfl, h⟩
  | succ n ih =>
    intro dev p sector buf h
    rw [AtaDriver.sectorLoop, AtaDrive.sectorLoop, hd.ioBase]
    dsimp only
    obtain ⟨hidle, hshows⟩ := h.waitNotBusy (maxWait + 1)
    generalize AtaPorts.waitNotBusy (channelBase ch) (maxWait + 1) p = w at hidle hshows ⊢
    generalize Disk.waitNotBusy (maxWait + 1) dev = w' at hidle hshows ⊢
    obtain ⟨ok, p₁⟩ := w
    obtain ⟨ok', dev₁⟩ := w'
    obtain rfl : ok = ok' := hidle
    cases ok with
    | false => exact ⟨rfl, rfl, hshows⟩
    | true =>
      dsimp only
      obtain ⟨hdata, hshows'⟩ :=
        (hd.command hshows (lba + sector).toUInt32).waitData (maxWait + 1)
      generalize AtaPorts.waitData (channelBase ch) (maxWait + 1)
        (drive.command (lba + sector).toUInt32 p₁) = w at hdata hshows' ⊢
      generalize Disk.waitData (maxWait + 1)
        (drive.toAtaDrive.command (lba + sector).toUInt32 dev₁) = w' at hdata hshows' ⊢
      obtain ⟨ok, p₂⟩ := w
      obtain ⟨ok', dev₂⟩ := w'
      obtain rfl : ok = ok' := hdata
      cases ok with
      | false => exact ⟨rfl, rfl, hshows'⟩
      | true =>
        dsimp only
        obtain ⟨hbuf, hmoved⟩ := hshows'.transfer sector 256 0 buf
        rw [hbuf]
        exact ih _ _ hmoved

/-- **At the ports the driver reads as on the registers of the drive**, which stays shown. -/
theorem Attached.readSectors (hd : drive.Attached ch drv) {dev : AtaDevice} {p : AtaPorts}
    (h : Shows p₀ ch drv dev p) (lba count : UInt64) (buffer : Option (UInt64 → UInt8)) :
    (drive.readSectors lba count buffer p).1 =
        (drive.toAtaDrive.readSectors lba count buffer dev).1 ∧
      (drive.readSectors lba count buffer p).2.1 =
        (drive.toAtaDrive.readSectors lba count buffer dev).2.1 ∧
      Shows p₀ ch drv (drive.toAtaDrive.readSectors lba count buffer dev).2.2
        (drive.readSectors lba count buffer p).2.2 := by
  cases buffer with
  | none => exact ⟨rfl, rfl, h⟩
  | some buf =>
    rw [AtaDriver.readSectors, AtaDrive.readSectors]
    dsimp only
    split
    · exact ⟨rfl, rfl, h⟩
    split
    · exact ⟨rfl, rfl, h⟩
    obtain ⟨hok, hbuf, hshows⟩ := hd.sectorLoop lba count.toNat 0 buf h
    exact ⟨hok, congrArg some hbuf, hshows⟩

end AtaDriver

/-! ### Requests and answers -/

/-- A request for sectors, with a buffer that lies in memory. -/
structure BlockRequest where
  /-- The first sector. -/
  lba : UInt64
  /-- How many. -/
  count : UInt64
  /-- What the buffer holds. -/
  buffer : UInt64 → UInt8
  /-- There is memory for the buffer. -/
  fits : count.toNat * 512 ≤ 2 ^ 64

/-- Whether the request succeeded, and what the buffer holds now. -/
abbrev BlockAnswer := Bool × (UInt64 → UInt8)

/-- The driver serves a request. -/
def AtaDriver.serve (drive : AtaDriver) (p : AtaPorts) (q : BlockRequest) :
    BlockAnswer × AtaPorts :=
  let r := drive.readSectors q.lba q.count (some q.buffer) p
  ((r.1, r.2.1.getD q.buffer), r.2.2)

/-- A block device serves a request. -/
def serveBlocks (d : BlockDevice) (q : BlockRequest) : BlockAnswer × BlockDevice :=
  let r := d.readSectors q.lba.toNat q.count.toNat fun i ↦ q.buffer (.ofNat i)
  ((r.1, fun j ↦ r.2.1 j.toNat), r.2.2)

/-- The contents of a drive as its registers name them. -/
def addressedSectors (sector : ℕ → ℕ → UInt8) (lba : ℕ) : ℕ → UInt8 := sector (lba % addressable)

/-- The answer of a block device when the outcome is known. -/
def blockReply (sector : ℕ → ℕ → UInt8) (outcome : Option ℕ) (q : BlockRequest) : BlockAnswer :=
  (serveBlocks { sector := sector, outcome := fun _ ↦ outcome, calls := 0 } q).1

/-- The buffer behind a request, of which so many sectors were delivered. -/
def delivered (sector : ℕ → ℕ → UInt8) (q : BlockRequest) (k : ℕ) (j : UInt64) : UInt8 :=
  if j.toNat / 512 < k then sector (q.lba.toNat + j.toNat / 512) (j.toNat % 512) else q.buffer j

@[simp] theorem delivered_zero (sector : ℕ → ℕ → UInt8) (q : BlockRequest) :
    delivered sector q 0 = q.buffer :=
  funext fun _ ↦ if_neg (Nat.not_lt_zero _)

theorem fill_eq_delivered (d : BlockDevice) (q : BlockRequest) (k : ℕ) :
    (fun j : UInt64 ↦ d.fill q.lba.toNat k (fun i ↦ q.buffer (.ofNat i)) j.toNat) =
      delivered d.sector q k := by
  funext j
  rw [BlockDevice.fill, delivered, UInt64.ofNat_toNat]
  exact if_congr (Nat.div_lt_iff_lt_mul (by decide)).symm rfl rfl

/-- A call that succeeds delivers all sectors. -/
theorem blockReply_none (sector : ℕ → ℕ → UInt8) (q : BlockRequest) :
    blockReply sector none q = (true, delivered sector q q.count.toNat) :=
  Prod.ext rfl (fill_eq_delivered _ q q.count.toNat)

/-- A call that fails delivers some of them. -/
theorem blockReply_some (sector : ℕ → ℕ → UInt8) (k : ℕ) (q : BlockRequest) :
    blockReply sector (some k) q = (false, delivered sector q (min k q.count.toNat)) :=
  Prod.ext rfl (fill_eq_delivered _ q (min k q.count.toNat))

/-- A block device answers by its script. -/
theorem answers_serveBlocks (sector : ℕ → ℕ → UInt8) (outcome : ℕ → Option ℕ)
    (client : List BlockAnswer → BlockRequest) (n : ℕ) :
    Dialogue.answers serveBlocks client { sector := sector, outcome := outcome, calls := 0 } n =
      Dialogue.answers (Dialogue.scripted (blockReply sector) outcome) client 0 n := by
  have hstep (d : BlockDevice) (k : ℕ) (q : BlockRequest)
      (h : d = { sector := sector, outcome := outcome, calls := k }) :
      (serveBlocks d q).1 = (Dialogue.scripted (blockReply sector) outcome k q).1 ∧
        (serveBlocks d q).2 = { sector := sector, outcome := outcome, calls := k + 1 } := by
    subst h
    rw [Dialogue.scripted, blockReply, serveBlocks, serveBlocks]
    dsimp only [BlockDevice.readSectors]
    cases outcome k with
    | none => exact ⟨rfl, rfl⟩
    | some m => exact ⟨rfl, rfl⟩
  exact Dialogue.answers_eq_of_related hstep rfl client n

/-- A request that is turned down leaves everything as it is. -/
theorem AtaDrive.readSectors_eq_of_turnsDown {drive : AtaDrive} {lba count : UInt64}
    (h : drive.TurnsDown lba count) (buf : UInt64 → UInt8) (dev : AtaDevice) :
    drive.readSectors lba count (some buf) dev = (false, some buf, dev) := by
  rw [readSectors]
  dsimp only
  split
  · rfl
  next hstart =>
  rw [not_or] at hstart
  have hlba : addressable ≤ lba.toNat := (h.resolve_left hstart.1).resolve_left hstart.2
  rw [if_pos (UInt64.lt_iff_toNat_lt.2 (Nat.lt_of_lt_of_le (by decide) hlba))]

/-- **Every answer of a drive is one of a block device** with the same contents. -/
theorem AtaDrive.exists_blockReply (drive : AtaDrive) (dev : AtaDevice) (q : BlockRequest) :
    ∃ outcome,
      ((drive.readSectors q.lba q.count (some q.buffer) dev).1,
          (drive.readSectors q.lba q.count (some q.buffer) dev).2.1.getD q.buffer) =
        blockReply (addressedSectors dev.sector) outcome q ∧
      (drive.readSectors q.lba q.count (some q.buffer) dev).2.2.sector = dev.sector := by
  by_cases hdown : drive.TurnsDown q.lba q.count
  · -- nothing is delivered
    rw [readSectors_eq_of_turnsDown hdown]
    refine ⟨some 0, ?_, rfl⟩
    rw [blockReply_some, Nat.zero_min, delivered_zero, Option.getD_some]
  · rw [readSectors_of_not_turnsDown hdown]
    have hfits := q.fits
    obtain ⟨k, hk, hall, hsector, hfill⟩ :=
      sectorLoop_fills drive q.lba q.count.toNat 0 q.buffer dev (by rw [UInt64.toNat_zero]; omega)
    have hbuf : (drive.sectorLoop q.lba q.count.toNat 0 q.buffer dev).2.1 =
        delivered (addressedSectors dev.sector) q k := by
      funext j
      rw [hfill j, UInt64.toNat_zero, Nat.zero_add, delivered, addressedSectors]
      exact if_congr (and_iff_right (Nat.zero_le _)) rfl rfl
    generalize drive.sectorLoop q.lba q.count.toNat 0 q.buffer dev = r at hall hsector hbuf ⊢
    obtain ⟨ok, buf, dev'⟩ := r
    cases ok with
    | true =>
      refine ⟨none, ?_, hsector⟩
      rw [blockReply_none]
      exact Prod.ext rfl (hbuf.trans (by rw [hall rfl]))
    | false =>
      refine ⟨some k, ?_, hsector⟩
      rw [blockReply_some, Nat.min_eq_left hk]
      exact Prod.ext rfl hbuf

namespace AtaDriver

/-- A driver that is set up serves every client as a block device with some script. -/
theorem Attached.exists_outcome {drive : AtaDriver} {p₀ p : AtaPorts} {ch drv : Fin 2}
    {dev : AtaDevice} (hd : drive.Attached ch drv) (h : AtaPorts.Shows p₀ ch drv dev p)
    (client : List BlockAnswer → BlockRequest) :
    ∃ outcome, ∀ n, Dialogue.answers drive.serve client p n =
      Dialogue.answers serveBlocks client
        { sector := addressedSectors dev.sector, outcome := outcome, calls := 0 } n := by
  have hstep (p : AtaPorts) (q : BlockRequest)
      (hp : ∃ dev', AtaPorts.Shows p₀ ch drv dev' p ∧ dev'.sector = dev.sector) :
      ∃ c, (drive.serve p q).1 = blockReply (addressedSectors dev.sector) c q ∧
        ∃ dev', AtaPorts.Shows p₀ ch drv dev' (drive.serve p q).2 ∧
          dev'.sector = dev.sector := by
    obtain ⟨dev', hshows, hsector⟩ := hp
    obtain ⟨hok, hbuf, hshows'⟩ := hd.readSectors hshows q.lba q.count (some q.buffer)
    obtain ⟨c, hreply, hsector'⟩ := drive.toAtaDrive.exists_blockReply dev' q
    refine ⟨c, ?_, _, hshows', hsector'.trans hsector⟩
    rw [serve]
    dsimp only
    rw [hok, hbuf, hreply, hsector]
  obtain ⟨outcome, hsame⟩ := Dialogue.exists_script
    (I := fun p ↦ ∃ dev', AtaPorts.Shows p₀ ch drv dev' p ∧ dev'.sector = dev.sector)
    hstep ⟨dev, h, rfl⟩ client
  exact ⟨outcome, fun n ↦ (hsame n).trans (answers_serveBlocks _ outcome client n).symm⟩

/-- **After `initialize` the driver is a block device.** If it succeeds, it has found the first of
the drives that respond; and for every client there is a script of outcomes with which a block
device with the contents of that drive gives the same answers, in every round. -/
theorem serves_blocks (drive : AtaDriver) (p : AtaPorts) (hok : (drive.initializeAta p).1 = true) :
    ∃ before s after, candidates = before ++ s :: after ∧
      (∀ t ∈ before, ¬ (p.drive t.1 t.2).Responds) ∧ (p.drive s.1 s.2).Responds ∧
      ∀ client, ∃ outcome, ∀ n,
        Dialogue.answers (drive.initializeAta p).2.1.serve client (drive.initializeAta p).2.2 n =
          Dialogue.answers serveBlocks client
            { sector := addressedSectors (p.drive s.1 s.2).sector, outcome := outcome, calls := 0 }
            n := by
  rcases drive.initializeAta_finds p with ⟨before, s, after, hlist, hbefore, hs, hfinds⟩ |
    ⟨-, hfail, -⟩
  swap
  · exact absurd (hfail.symm.trans hok) (by simp)
  refine ⟨before, s, after, hlist, hbefore, hs, fun client ↦ ?_⟩
  obtain ⟨-, hdriver, ⟨p₀, dev, hshows, hsector, -⟩, -⟩ := hfinds
  have hattached : (drive.initializeAta p).2.1.Attached s.1 s.2 := by
    rw [hdriver]
    exact ⟨rfl, rfl⟩
  rw [← hsector]
  exact hattached.exists_outcome hshows client

/-- A machine whose drives are never busy and always have data. -/
def readyPorts : AtaPorts where
  channels _ :=
    { units := fun _ ↦ { device := AtaDrive.readyDevice, identify := fun _ ↦ 0 }
      selected := ⟨0, Nat.two_pos⟩ }

theorem initializeAta_readyPorts : (new.initializeAta readyPorts).1 = true := by
  rcases new.probeAll_spec candidates readyPorts (by decide) with ⟨_, _, _, _, _, _, hfinds⟩ |
    ⟨hnone, -, -⟩
  · exact hfinds.1
  · refine absurd ?_ (hnone (0, 0) (by decide))
    exact ⟨0, by decide, ⟨rfl, fun _ _ ↦ Nat.zero_le _⟩, 0, Nat.zero_le _,
      ⟨Or.inr (by decide : (0x08 : UInt8) &&& 0x08 ≠ 0), fun _ _ ↦ Nat.zero_le _⟩, rfl⟩

theorem serves_blocks_readyPorts :
    ∃ before s after, candidates = before ++ s :: after ∧
      (∀ t ∈ before, ¬ (readyPorts.drive t.1 t.2).Responds) ∧
      (readyPorts.drive s.1 s.2).Responds ∧
      ∀ client, ∃ outcome, ∀ n,
        Dialogue.answers (new.initializeAta readyPorts).2.1.serve client
            (new.initializeAta readyPorts).2.2 n =
          Dialogue.answers serveBlocks client
            { sector := addressedSectors (readyPorts.drive s.1 s.2).sector
              outcome := outcome, calls := 0 } n :=
  new.serves_blocks readyPorts initializeAta_readyPorts

end AtaDriver

end Aidos.Disk
