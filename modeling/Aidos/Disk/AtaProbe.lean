import Mathlib.Order.Bounds.Basic
import Aidos.Disk.AtaPorts
import Aidos.Disk.AtaReads

/-!
# The drive that the ports show

Once a drive is selected, the ports of its channel are its registers: a step of the driver at the
ports is the step of `Aidos.Disk.Ata` on that drive, and the drives beside it keep their answers
(`AtaPorts.Shows`). `read_sectors` waits for BSY before it selects a drive, so it is right only as
long as the drive that `initialize` found stays selected; nothing else selects one.

`AtaDriver.initializeAta_finds` says which drive `initialize` finds: the first that responds.
-/

namespace Aidos.Disk

/-- The least number with a property, counted from one further on. -/
theorem isLeast_succ_iff {P : ℕ → Prop} {r k : ℕ} (h : ¬ P r) :
    IsLeast {k | P (r + 1 + k)} k ↔ IsLeast {k | P (r + k)} (k + 1) := by
  simp only [IsLeast, lowerBounds, Set.mem_ofPred_eq, Nat.add_assoc, Nat.add_comm 1]
  refine and_congr_right fun _ ↦ ⟨fun hk i hi ↦ ?_, fun hk i hi ↦ Nat.le_of_succ_le_succ (hk hi)⟩
  cases i with
  | zero => exact absurd hi h
  | succ i => exact Nat.succ_le_succ (hk hi)

/-! ### Which drives respond -/

namespace AtaDevice

variable (dev : AtaDevice)

/-- BSY is clear. -/
def Idle (status : UInt8) : Prop := status &&& 0x80 = 0

instance (status : UInt8) : Decidable (Idle status) := inferInstanceAs (Decidable (_ = _))

/-- ERR or DRQ is set. -/
def Settled (status : UInt8) : Prop := status &&& 0x01 ≠ 0 ∨ status &&& 0x08 ≠ 0

instance (status : UInt8) : Decidable (Settled status) := inferInstanceAs (Decidable (_ ∨ _))

/-- The drive responds to `initialize`: behind the delay its BSY clears in time, and then it sets
DRQ in time, and before ERR. -/
def Responds : Prop :=
  ∃ k < maxWait, IsLeast {k | Idle (dev.status (dev.statusReads + 4 + k))} k ∧
    ∃ m ≤ maxWait,
      IsLeast {m | Settled (dev.status (dev.statusReads + 4 + k + 1 + m))} m ∧
        dev.status (dev.statusReads + 4 + k + 1 + m) &&& 0x01 = 0

end AtaDevice

/-- What a drive tells about its size. -/
def AtaUnit.totalSectors (u : AtaUnit) : UInt32 :=
  ((u.identify 61).toUInt32 <<< 16) ||| (u.identify 60).toUInt32

theorem sectors28_identify (u : AtaUnit) :
    AtaPorts.sectors28 ((List.range 256).map fun i ↦ u.identify (0 + i)) = u.totalSectors := by
  simp [AtaPorts.sectors28, AtaUnit.totalSectors]

open AtaDevice

/-- The wait for DRQ or ERR ends with the first answer that has either, if that comes in time. -/
theorem waitData_spec (n : ℕ) :
    ∀ dev : AtaDevice,
      (∃ m < n, IsLeast {m | Settled (dev.status (dev.statusReads + m))} m ∧
        dev.status (dev.statusReads + m) &&& 0x01 = 0 ∧ (waitData n dev).1 = true) ∨
      ((∀ m < n, IsLeast {m | Settled (dev.status (dev.statusReads + m))} m →
        dev.status (dev.statusReads + m) &&& 0x01 ≠ 0) ∧ (waitData n dev).1 = false) := by
  induction n with
  | zero => exact fun dev ↦ Or.inr ⟨fun m hm ↦ absurd hm (Nat.not_lt_zero m), rfl⟩
  | succ n ih =>
    intro dev
    have hfirst (h : Settled (dev.status dev.statusReads)) :
        IsLeast {m | Settled (dev.status (dev.statusReads + m))} 0 :=
      ⟨h, fun m _ ↦ Nat.zero_le m⟩
    rw [waitData]
    dsimp only [inStatus]
    split
    · next herr =>
      refine Or.inr ⟨fun m _ hleast ↦ ?_, rfl⟩
      rwa [hleast.unique (hfirst (Or.inl herr))]
    next herr =>
    split
    · next hdrq =>
      exact Or.inl ⟨0, Nat.succ_pos n, hfirst (Or.inr hdrq), not_not.1 herr, rfl⟩
    next hdrq =>
    -- neither: the first answer that counts is one of the later ones
    have hnot : ¬ Settled (dev.status dev.statusReads) := not_or.2 ⟨herr, hdrq⟩
    have hlater (m : ℕ) : IsLeast {m | Settled (dev.status (dev.statusReads + 1 + m))} m ↔
        IsLeast {m | Settled (dev.status (dev.statusReads + m))} (m + 1) :=
      isLeast_succ_iff (P := fun i ↦ Settled (dev.status i)) hnot
    rcases ih { dev with statusReads := dev.statusReads + 1 } with
      ⟨m, hm, hleast, hok, htrue⟩ | ⟨hall, hfalse⟩
    · refine Or.inl ⟨m + 1, Nat.succ_lt_succ hm, (hlater m).1 hleast, ?_, htrue⟩
      rwa [Nat.add_comm m, ← Nat.add_assoc]
    · refine Or.inr ⟨fun m hm hleast ↦ ?_, hfalse⟩
      cases m with
      | zero => exact absurd hleast.1 hnot
      | succ m =>
        have hbad := hall m (Nat.lt_of_succ_lt_succ hm) ((hlater m).2 hleast)
        rwa [Nat.add_comm m, ← Nat.add_assoc]

namespace AtaPorts

/-! ### Ports of a channel -/

section Ports

variable (p : AtaPorts) (ch : Fin 2)

/-- The ports of a channel are counted from its base. -/
theorem channelOfPort_base (k : Fin 8) :
    channelOfPort (channelBase ch + UInt16.ofNat k) = some (ch, (k : ℕ)) := by
  revert ch k
  decide

theorem outb_base (k : Fin 8) (v : UInt8) :
    p.outb (channelBase ch + UInt16.ofNat k) v = p.setChannel ch ((p.channels ch).outb k v) := by
  rw [outb, channelOfPort_base]

/-- The command register is port 7. -/
theorem outb_command (v : UInt8) : p.outb (channelBase ch + 7) v =
    p.setChannel ch ((p.channels ch).setUnit (p.channels ch).selected
      (((p.channels ch).units (p.channels ch).selected).command v)) :=
  outb_base p ch 7 v

theorem inb_base : p.inb (channelBase ch + 7) =
    ((p.channels ch).inStatus.1, p.setChannel ch (p.channels ch).inStatus.2) := by
  have hport : channelOfPort (channelBase ch + 7) = some (ch, 7) := channelOfPort_base ch 7
  rw [inb, hport]
  rfl

theorem inw_base : p.inw (channelBase ch + 0) =
    ((p.channels ch).inData.1, p.setChannel ch (p.channels ch).inData.2) := by
  have hport : channelOfPort (channelBase ch + 0) = some (ch, 0) := channelOfPort_base ch 0
  rw [inw, hport]
  rfl

end Ports

/-- What a drive keeps while its neighbours are used. -/
structure SameScript (u u' : AtaUnit) : Prop where
  /-- Its answer to `IDENTIFY`. -/
  identify : u'.identify = u.identify
  /-- Its contents. -/
  sector : u'.device.sector = u.device.sector
  /-- Its answers to reads of its status register. -/
  status : u'.device.status = u.device.status
  /-- How many of them were given. -/
  statusReads : u'.device.statusReads = u.device.statusReads

theorem SameScript.refl (u : AtaUnit) : SameScript u u := ⟨rfl, rfl, rfl, rfl⟩

theorem SameScript.trans {u u' u'' : AtaUnit} (h : SameScript u u') (h' : SameScript u' u'') :
    SameScript u u'' :=
  ⟨h'.identify.trans h.identify, h'.sector.trans h.sector, h'.status.trans h.status,
    h'.statusReads.trans h.statusReads⟩

/-- Registers are not part of the script. -/
theorem SameScript.register (u : AtaUnit) {k : ℕ} (hk : k ≠ 7) (v : UInt8) :
    SameScript u (u.register k v) := by
  rw [AtaUnit.register]
  unfold AtaDevice.outb
  split <;> first | exact ⟨rfl, rfl, rfl, rfl⟩ | exact absurd rfl hk

/-- **The ports show a drive**: it is selected, its registers are those of `dev`; and since `p₀` the
other drives have not been asked anything. -/
structure Shows (p₀ : AtaPorts) (ch drv : Fin 2) (dev : AtaDevice) (p : AtaPorts) : Prop where
  /-- The drive is selected on its channel. -/
  selected : (p.channels ch).selected = drv
  /-- Its registers. -/
  device : ((p.channels ch).units drv).device = dev
  /-- Its answer to `IDENTIFY`. -/
  identify : ((p.channels ch).units drv).identify = ((p₀.channels ch).units drv).identify
  /-- The other drives. -/
  others : ∀ c d, (c, d) ≠ (ch, drv) →
    SameScript ((p₀.channels c).units d) ((p.channels c).units d)

section Shows

variable {p₀ p : AtaPorts} {ch drv : Fin 2} {dev : AtaDevice}

/-- The selected drive changes, and nothing else. -/
theorem Shows.setUnit (h : Shows p₀ ch drv dev p) (dev' : AtaDevice) :
    Shows p₀ ch drv dev' (p.setChannel ch ((p.channels ch).setUnit drv
      { (p.channels ch).units drv with device := dev' })) where
  selected := by
    rw [setChannel, AtaChannel.setUnit]
    exact (congrArg _ (if_pos rfl)).trans h.selected
  device := by
    simp [setChannel, AtaChannel.setUnit]
  identify := by
    simpa [setChannel, AtaChannel.setUnit] using h.identify
  others := by
    intro c d hne
    have hold := h.others c d hne
    by_cases hc : c = ch
    · subst hc
      have hd : d ≠ drv := fun heq ↦ hne (heq ▸ rfl)
      simpa [setChannel, AtaChannel.setUnit, hd] using hold
    · simpa [setChannel, AtaChannel.setUnit, hc] using hold

theorem Shows.inb (h : Shows p₀ ch drv dev p) :
    (p.inb (channelBase ch + 7)).1 = dev.inStatus.1 ∧
      Shows p₀ ch drv dev.inStatus.2 (p.inb (channelBase ch + 7)).2 := by
  rw [inb_base, AtaChannel.inStatus, h.selected, h.device]
  exact ⟨rfl, h.setUnit dev.inStatus.2⟩

theorem Shows.inw (h : Shows p₀ ch drv dev p) :
    (p.inw (channelBase ch + 0)).1 = dev.inData.1 ∧
      Shows p₀ ch drv dev.inData.2 (p.inw (channelBase ch + 0)).2 := by
  rw [inw_base, AtaChannel.inData, h.selected, h.device]
  exact ⟨rfl, h.setUnit dev.inData.2⟩

/-- A command for the drive. -/
theorem Shows.command (h : Shows p₀ ch drv dev p) {v : UInt8} (hv : v ≠ 0xEC) :
    Shows p₀ ch drv (dev.outb 7 v) (p.outb (channelBase ch + 7) v) := by
  rw [outb_command, h.selected, AtaUnit.command, if_neg hv, h.device]
  exact h.setUnit _

/-- The command `IDENTIFY`. -/
theorem Shows.identifyCommand (h : Shows p₀ ch drv dev p) :
    Shows p₀ ch drv
      { dev with words := ((p₀.channels ch).units drv).identify, wordsRead := 0 }
      (p.outb (channelBase ch + 7) 0xEC) := by
  rw [outb_command, h.selected, AtaUnit.command, if_pos rfl, h.device, ← h.identify]
  exact h.setUnit _

/-- A register of the channel is written: both of its drives see it, and port 6 selects one. -/
theorem Shows.register {sel : Fin 2} (h : Shows p₀ ch sel dev p) {k : Fin 8} (hk : (k : ℕ) ≠ 7)
    {v : UInt8} (hsel : (k : ℕ) = 6 → (if v &&& 0x10 = 0 then 0 else 1) = sel) :
    Shows p₀ ch sel (dev.outb k v) (p.outb (channelBase ch + UInt16.ofNat k) v) := by
  rw [outb_base, AtaChannel.outb, if_neg hk]
  refine ⟨?_, ?_, ?_, fun c d hne ↦ ?_⟩
  · rw [setChannel]
    dsimp only
    rw [if_pos rfl]
    dsimp only
    split
    · next hsix => exact hsel hsix
    · exact h.selected
  · simp [setChannel, AtaUnit.register, h.device]
  · simpa [setChannel, AtaUnit.register] using h.identify
  · refine (h.others c d hne).trans ?_
    rw [setChannel]
    dsimp only
    split
    · next hc =>
      subst hc
      exact SameScript.register _ hk v
    · exact SameScript.refl _

end Shows

/-! ### Selecting a drive -/

section Select

variable (p : AtaPorts) (ch drv : Fin 2)

/-- The registers of a drive. -/
def drive : AtaDevice := ((p.channels ch).units drv).device

/-- Writing to the drive register shows the drive it selects. -/
theorem shows_select {v : UInt8} (hsel : (if v &&& 0x10 = 0 then 0 else 1) = drv) :
    Shows p ch drv ((p.drive ch drv).outb 6 v) (p.outb (channelBase ch + 6) v) := by
  have hport : p.outb (channelBase ch + 6) v =
      p.setChannel ch ((p.channels ch).outb 6 v) := outb_base p ch 6 v
  rw [hport, AtaChannel.outb, if_neg (by decide)]
  refine ⟨?_, ?_, ?_, fun c d hne ↦ ?_⟩
  · simpa [setChannel] using hsel
  · simp [setChannel, AtaUnit.register, drive]
  · simp [setChannel, AtaUnit.register]
  · rw [setChannel]
    dsimp only
    split
    · next hc =>
      subst hc
      exact SameScript.register _ (by decide) v
    · exact SameScript.refl _

theorem driveSelect_selects : (if driveSelect drv &&& 0x10 = 0 then 0 else 1) = drv := by
  revert drv
  decide

end Select

/-! ### `initialize` -/

section Probe

variable {p₀ p : AtaPorts} {ch drv : Fin 2} {dev : AtaDevice}

theorem Shows.delay (n : ℕ) :
    ∀ {dev : AtaDevice} {p : AtaPorts}, Shows p₀ ch drv dev p →
      Shows p₀ ch drv { dev with statusReads := dev.statusReads + n }
        (AtaPorts.delay (channelBase ch) n p) := by
  induction n with
  | zero => exact fun h ↦ h
  | succ n ih =>
    intro dev p h
    have hnext := ih h.inb.2
    dsimp only [AtaDevice.inStatus] at hnext
    rwa [Nat.add_assoc, Nat.add_comm 1 n] at hnext

/-- The wait for BSY ends with the first answer that has it clear, if that comes in time. -/
theorem Shows.waitIdle (n : ℕ) :
    ∀ {dev : AtaDevice} {p : AtaPorts}, Shows p₀ ch drv dev p →
      (∃ k < n, IsLeast {k | Idle (dev.status (dev.statusReads + k))} k ∧
        (AtaPorts.waitIdle (channelBase ch) n p).1 = true ∧
        Shows p₀ ch drv { dev with statusReads := dev.statusReads + k + 1 }
          (AtaPorts.waitIdle (channelBase ch) n p).2) ∨
      (∀ k < n, ¬ Idle (dev.status (dev.statusReads + k))) ∧
        (AtaPorts.waitIdle (channelBase ch) n p).1 = false ∧
        ∃ r, Shows p₀ ch drv { dev with statusReads := r }
          (AtaPorts.waitIdle (channelBase ch) n p).2 := by
  induction n with
  | zero => exact fun h ↦ Or.inr ⟨fun k hk ↦ absurd hk (Nat.not_lt_zero k), rfl, _, h.inb.2⟩
  | succ n ih =>
    intro dev p h
    obtain ⟨hstatus, hnext⟩ := h.inb
    have heq : AtaPorts.waitIdle (channelBase ch) (n + 1) p =
        if dev.status dev.statusReads &&& 0x80 ≠ 0 then
          AtaPorts.waitIdle (channelBase ch) n (p.inb (channelBase ch + 7)).2
        else (true, (p.inb (channelBase ch + 7)).2) := by
      rw [AtaPorts.waitIdle]
      dsimp only
      rw [hstatus]
      rfl
    dsimp only [AtaDevice.inStatus] at hnext
    rw [heq]
    by_cases hbusy : dev.status dev.statusReads &&& 0x80 ≠ 0
    · rw [if_pos hbusy]
      have hlater (k : ℕ) : IsLeast {k | Idle (dev.status (dev.statusReads + 1 + k))} k ↔
          IsLeast {k | Idle (dev.status (dev.statusReads + k))} (k + 1) :=
        isLeast_succ_iff (P := fun i ↦ Idle (dev.status i)) hbusy
      rcases ih hnext with ⟨k, hk, hleast, htrue, hshows⟩ | ⟨hall, hfalse, hshows⟩
      · refine Or.inl ⟨k + 1, Nat.succ_lt_succ hk, (hlater k).1 hleast, htrue, ?_⟩
        rwa [Nat.add_comm k, ← Nat.add_assoc]
      · refine Or.inr ⟨fun k hk ↦ ?_, hfalse, hshows⟩
        cases k with
        | zero => exact hbusy
        | succ k =>
          rw [Nat.add_comm k, ← Nat.add_assoc]
          exact hall k (Nat.lt_of_succ_lt_succ hk)
    · rw [if_neg hbusy]
      exact Or.inl ⟨0, Nat.succ_pos n, ⟨not_not.1 hbusy, fun k _ ↦ Nat.zero_le k⟩, rfl, hnext⟩

/-- The wait for DRQ or ERR is that of the drive. -/
theorem Shows.waitData (n : ℕ) :
    ∀ {dev : AtaDevice} {p : AtaPorts}, Shows p₀ ch drv dev p →
      (AtaPorts.waitData (channelBase ch) n p).1 = (Disk.waitData n dev).1 ∧
        Shows p₀ ch drv (Disk.waitData n dev).2 (AtaPorts.waitData (channelBase ch) n p).2 := by
  induction n with
  | zero => exact fun h ↦ ⟨rfl, h⟩
  | succ n ih =>
    intro dev p h
    obtain ⟨hstatus, hnext⟩ := h.inb
    rw [AtaPorts.waitData, Disk.waitData]
    dsimp only
    rw [hstatus]
    split
    · exact ⟨rfl, hnext⟩
    · split
      · exact ⟨rfl, hnext⟩
      · exact ih hnext

/-- The words behind the data port come in order. -/
theorem Shows.inWords (n : ℕ) :
    ∀ {dev : AtaDevice} {p : AtaPorts}, Shows p₀ ch drv dev p →
      (AtaPorts.inWords (channelBase ch) n p).1 =
          (List.range n).map (fun i ↦ dev.words (dev.wordsRead + i)) ∧
        Shows p₀ ch drv { dev with wordsRead := dev.wordsRead + n }
          (AtaPorts.inWords (channelBase ch) n p).2 := by
  induction n with
  | zero => exact fun h ↦ ⟨rfl, h⟩
  | succ n ih =>
    intro dev p h
    obtain ⟨hword, hnext⟩ := h.inw
    obtain ⟨hwords, hshows⟩ := ih hnext
    rw [AtaPorts.inWords]
    dsimp only
    rw [hword, hwords, List.range_succ_eq_map, List.map_cons, List.map_map]
    dsimp only [AtaDevice.inData] at hshows ⊢
    refine ⟨congrArg (_ :: ·) (List.map_congr_left fun i _ ↦ ?_), ?_⟩
    · rw [Function.comp_apply, Nat.succ_eq_add_one, Nat.add_assoc, Nat.add_comm 1 i]
    · rwa [Nat.add_assoc, Nat.add_comm 1 n] at hshows

end Probe

/-- **A drive is asked**: it tells its size if it responds, and otherwise nothing. In any case it is
shown afterwards, with its contents and its answers. -/
theorem probe_spec (p : AtaPorts) (ch drv : Fin 2) :
    ((p.drive ch drv).Responds ∧
        (p.probe ch drv).1 = some ((p.channels ch).units drv).totalSectors ∨
      ¬ (p.drive ch drv).Responds ∧ (p.probe ch drv).1 = none) ∧
      ∃ dev, Shows p ch drv dev (p.probe ch drv).2 ∧ dev.sector = (p.drive ch drv).sector ∧
        dev.status = (p.drive ch drv).status := by
  obtain ⟨dev, hstart, hsector, hstatus, hreads⟩ : ∃ dev, Shows p ch drv dev
      (AtaPorts.delay (channelBase ch) 4 (p.outb (channelBase ch + 6) (driveSelect drv))) ∧
        dev.sector = (p.drive ch drv).sector ∧ dev.status = (p.drive ch drv).status ∧
        dev.statusReads = (p.drive ch drv).statusReads + 4 :=
    ⟨_, (shows_select p ch drv (driveSelect_selects drv)).delay 4, rfl, rfl, rfl⟩
  rw [AtaDevice.Responds, ← hsector, ← hstatus, ← hreads, probe]
  dsimp only
  generalize AtaPorts.delay (channelBase ch) 4
    (p.outb (channelBase ch + 6) (driveSelect drv)) = p₁ at hstart ⊢
  have hidle := hstart.waitIdle maxWait
  generalize AtaPorts.waitIdle (channelBase ch) maxWait p₁ = w at hidle ⊢
  obtain ⟨ok, p₂⟩ := w
  rcases hidle with ⟨k, hk, hleast, htrue, hshows⟩ | ⟨hall, hfalse, r, hshows⟩
  swap
  · -- BSY does not clear in time
    obtain rfl : ok = false := hfalse
    exact ⟨Or.inr ⟨fun ⟨k, hk, hleast, _⟩ ↦ hall k hk hleast.1, rfl⟩, _, hshows, rfl, rfl⟩
  obtain rfl : ok = true := htrue
  dsimp only
  obtain ⟨asked, hasked, hcommand⟩ : ∃ asked, asked = { dev with
      statusReads := dev.statusReads + k + 1
      words := ((p.channels ch).units drv).identify
      wordsRead := 0 } ∧ Shows p ch drv asked (p₂.outb (channelBase ch + 7) 0xEC) :=
    ⟨_, rfl, hshows.identifyCommand⟩
  generalize p₂.outb (channelBase ch + 7) 0xEC = p₃ at hcommand ⊢
  obtain ⟨hresult, hshows'⟩ := hcommand.waitData (maxWait + 1)
  obtain ⟨j, hafter⟩ := waitData_eq (maxWait + 1) asked
  have hspec := waitData_spec (maxWait + 1) asked
  rw [hafter] at hshows'
  rw [← hresult, hasked] at hspec
  dsimp only at hspec
  generalize AtaPorts.waitData (channelBase ch) (maxWait + 1) p₃ = w at hspec hshows' ⊢
  obtain ⟨ok, p₄⟩ := w
  rcases hspec with ⟨m, hm, hleast', hok, htrue⟩ | ⟨hall, hfalse⟩
  · obtain rfl : ok = true := htrue
    obtain ⟨hwords, hshows''⟩ := hshows'.inWords 256
    dsimp only
    generalize AtaPorts.inWords (channelBase ch) 256 p₄ = moved at hwords hshows'' ⊢
    have hle : m ≤ maxWait := by omega
    refine ⟨Or.inl ⟨⟨k, hk, hleast, m, hle, hleast', hok⟩, ?_⟩, _, hshows'', ?_, ?_⟩
    · rw [hwords, hasked, sectors28_identify]
    · rw [hasked]
    · rw [hasked]
  · obtain rfl : ok = false := hfalse
    refine ⟨Or.inr ⟨?_, rfl⟩, _, hshows', ?_, ?_⟩
    · rintro ⟨k', -, hfirst, m, hm, hleast', hok⟩
      obtain rfl := hfirst.unique hleast
      exact hall m (by omega) hleast' hok
    · rw [hasked]
    · rw [hasked]

end AtaPorts

namespace AtaDriver

variable (drive : AtaDriver)

/-- What `initialize` has found when it succeeds: the drive `s`, which is shown from now on, while
the drives `after` it have not been asked. -/
structure Finds (p : AtaPorts) (s : Fin 2 × Fin 2) (after : List (Fin 2 × Fin 2))
    (result : Bool × AtaDriver × AtaPorts) : Prop where
  /-- It succeeds. -/
  ok : result.1 = true
  /-- The fields of the driver. -/
  driver : result.2.1 =
    { ioBase := channelBase s.1
      isMaster := s.2 = 0
      totalSectors := ((p.channels s.1).units s.2).totalSectors.toUInt64 }
  /-- The drive is shown, with its contents and its answers. -/
  shown : ∃ p₀ dev, AtaPorts.Shows p₀ s.1 s.2 dev result.2.2 ∧
    dev.sector = (p.drive s.1 s.2).sector ∧ dev.status = (p.drive s.1 s.2).status
  /-- The other drives are as they were. -/
  untouched : ∀ t ∈ after,
    AtaPorts.SameScript ((p.channels t.1).units t.2) ((result.2.2.channels t.1).units t.2)

theorem responds_iff_of_sameScript {p p' : AtaPorts} {t : Fin 2 × Fin 2}
    (h : AtaPorts.SameScript ((p.channels t.1).units t.2) ((p'.channels t.1).units t.2)) :
    (p'.drive t.1 t.2).Responds ↔ (p.drive t.1 t.2).Responds := by
  rw [AtaDevice.Responds, AtaDevice.Responds, AtaPorts.drive, AtaPorts.drive, h.status,
    h.statusReads]

/-- The loops of `initialize` stop at the first drive that responds. -/
theorem probeAll_spec (l : List (Fin 2 × Fin 2)) :
    ∀ p : AtaPorts, l.Nodup →
      (∃ before s after, l = before ++ s :: after ∧
        (∀ t ∈ before, ¬ (p.drive t.1 t.2).Responds) ∧ (p.drive s.1 s.2).Responds ∧
        Finds p s after (drive.probeAll l p)) ∨
      (∀ t ∈ l, ¬ (p.drive t.1 t.2).Responds) ∧ (drive.probeAll l p).1 = false ∧
        (drive.probeAll l p).2.1 = drive := by
  induction l with
  | nil => exact fun p _ ↦ Or.inr ⟨fun t ht ↦ absurd ht List.not_mem_nil, rfl, rfl⟩
  | cons s l ih =>
    intro p hnodup
    obtain ⟨ch, drv⟩ := s
    obtain ⟨hne, hnodup'⟩ := List.nodup_cons.1 hnodup
    obtain ⟨hresult, dev, hshows, hsector, hstatus⟩ := p.probe_spec ch drv
    -- the drives behind it are not asked meanwhile
    have hothers (t : Fin 2 × Fin 2) (ht : t ∈ l) : AtaPorts.SameScript
        ((p.channels t.1).units t.2) (((p.probe ch drv).2.channels t.1).units t.2) :=
      hshows.others t.1 t.2 fun heq ↦ hne (heq ▸ ht)
    rw [probeAll]
    generalize p.probe ch drv = r at hresult hshows hothers ⊢
    obtain ⟨found, p₁⟩ := r
    rcases hresult with ⟨hyes, hfound⟩ | ⟨hno, hfound⟩
    · obtain rfl : found = some _ := hfound
      refine Or.inl ⟨[], (ch, drv), l, rfl, fun t ht ↦ absurd ht List.not_mem_nil, hyes, ?_⟩
      exact ⟨rfl, rfl, ⟨p, dev, hshows, hsector, hstatus⟩, hothers⟩
    · obtain rfl : found = none := hfound
      have hno' (t : Fin 2 × Fin 2) (ht : t ∈ l) :=
        responds_iff_of_sameScript (hothers t ht)
      rcases ih p₁ hnodup' with ⟨before, s, after, rfl, hbefore, hs, hfinds⟩ | ⟨hall, hfail⟩
      · have hmem : s ∈ before ++ s :: after := List.mem_append_right _ List.mem_cons_self
        have hsame := hothers s hmem
        refine Or.inl ⟨(ch, drv) :: before, s, after, rfl, fun t ht ↦ ?_, (hno' s hmem).1 hs, ?_⟩
        · rcases List.mem_cons.1 ht with rfl | ht
          · exact hno
          · exact (hno' t (List.mem_append_left _ ht)).not.1 (hbefore t ht)
        · obtain ⟨hok, hdriver, ⟨p₀, dev', hshows', hsector', hstatus'⟩, huntouched⟩ := hfinds
          refine ⟨hok, ?_, ⟨p₀, dev', hshows', hsector'.trans hsame.sector,
            hstatus'.trans hsame.status⟩, fun t ht ↦ ?_⟩
          · rw [hdriver, AtaUnit.totalSectors, hsame.identify]
            rfl
          · exact (hothers t (List.mem_append_right _ (List.mem_cons_of_mem _ ht))).trans
              (huntouched t ht)
      · refine Or.inr ⟨fun t ht ↦ ?_, hfail⟩
        rcases List.mem_cons.1 ht with rfl | ht
        · exact hno
        · exact (hno' t ht).not.1 (hall t ht)

/-- **`initialize` finds the first drive that responds**: master before slave, primary channel
before secondary. It remembers where that drive is and how large, and leaves it selected; if no
drive responds, it fails and remembers nothing. -/
theorem initializeAta_finds (p : AtaPorts) :
    (∃ before s after, candidates = before ++ s :: after ∧
      (∀ t ∈ before, ¬ (p.drive t.1 t.2).Responds) ∧ (p.drive s.1 s.2).Responds ∧
      Finds p s after (drive.initializeAta p)) ∨
    (∀ t ∈ candidates, ¬ (p.drive t.1 t.2).Responds) ∧ (drive.initializeAta p).1 = false ∧
      (drive.initializeAta p).2.1 = drive :=
  drive.probeAll_spec candidates p (by decide)

end AtaDriver

end Aidos.Disk
