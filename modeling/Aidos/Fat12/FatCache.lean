import Mathlib.Data.List.Infix
import Mathlib.Data.Set.Basic
import Aidos.Fat12.Driver

/-!
# The FAT window

`NextCluster` looks its entry up in a window of five FAT sectors, which it moves when the entry's
*first* byte lies outside. The window is tied to the disk by `CacheValid`: unless it was never
loaded, the cache holds the FAT bytes from the window's first sector on. The invariant survives
every lookup, whatever cluster is asked for (`cacheValid_nextCluster`).

What the hit test does not look at is the entry's *second* byte. When the first one is the last byte
of the window, the second is read from beyond `FatCache`, where `FatCachePosition` lies. `Straddles`
names these lookups.

The window counts in sectors of 512 bytes, the boot sector in sectors of its own size. `fatByte` is
the FAT where the driver looks for it, `volumeFatByte` the FAT where the boot sector puts it; with
sectors of 512 bytes they are one. `nextCluster_correct_iff` says that after any history a lookup is
correct exactly when it does not straddle and the two FATs hold the same entry.
-/

namespace Aidos.Fat12

/-- The byte offset of the FAT. -/
def fatOffset (b : FatBootSector) : ℕ := b.reservedSectorCount.toNat * b.bytesPerSector.toNat

namespace Fat12FileSystem

variable (fs : Fat12FileSystem)

/-! ### Projections of a record update -/

section SetFileData

variable {fs} {ref r : FileRef} {fd : FatFileData}

@[simp] theorem fileData_setFileData_self : (fs.setFileData ref fd).fileData ref = fd := by
  cases ref <;> simp [setFileData, fileData]

theorem fileData_setFileData_of_ne (h : r ≠ ref) :
    (fs.setFileData ref fd).fileData r = fs.fileData r := by
  cases ref with
  | root => cases r with
    | root => exact absurd rfl h
    | slot j => rfl
  | slot i => cases r with
    | root => rfl
    | slot j =>
      have hij : j ≠ i := fun hji ↦ h (congrArg FileRef.slot hji)
      simp [setFileData, fileData, hij]

@[simp] theorem bs_setFileData : (fs.setFileData ref fd).data.bs = fs.data.bs := by
  cases ref <;> rfl

@[simp] theorem fatCache_setFileData :
    (fs.setFileData ref fd).data.fatCache = fs.data.fatCache := by cases ref <;> rfl

@[simp] theorem fatCachePosition_setFileData :
    (fs.setFileData ref fd).data.fatCachePosition = fs.data.fatCachePosition := by
  cases ref <;> rfl

@[simp] theorem dataSectionLba_setFileData :
    (fs.setFileData ref fd).dataSectionLba = fs.dataSectionLba := by cases ref <;> rfl

@[simp] theorem disk_setFileData : (fs.setFileData ref fd).disk = fs.disk := by cases ref <;> rfl

@[simp] theorem trace_setFileData : (fs.setFileData ref fd).trace = fs.trace := by cases ref <;> rfl

end SetFileData

/-! ### The FAT on disk -/

/-- Byte `k` of the FAT as the driver addresses it, `reservedSectorCount` device sectors behind the
start of the disk. -/
def fatByte (k : ℕ) : UInt8 :=
  fs.disk.sector (fs.bs.reservedSectorCount.toNat + k / sectorSize) (k % sectorSize)

/-- Byte `k` of the FAT that the boot sector defines, `reservedSectorCount` sectors of the volume
behind the start of the disk. -/
def volumeFatByte (k : ℕ) : UInt8 :=
  fs.disk.sector ((fatOffset fs.bs + k) / sectorSize) ((fatOffset fs.bs + k) % sectorSize)

/-- In units of 512 bytes the two are one. -/
theorem volumeFatByte_eq (hb : fs.bs.bytesPerSector.toNat = sectorSize) :
    fs.volumeFatByte = fs.fatByte := by
  funext k
  have hdiv : (fatOffset fs.bs + k) / sectorSize =
      fs.bs.reservedSectorCount.toNat + k / sectorSize := by
    rw [fatOffset, hb, Nat.add_comm, Nat.add_mul_div_right _ _ (by decide), Nat.add_comm]
  have hmod : (fatOffset fs.bs + k) % sectorSize = k % sectorSize := by
    rw [fatOffset, hb, Nat.add_comm, Nat.add_mul_mod_self_right]
  rw [volumeFatByte, fatByte, hdiv, hmod]

end Fat12FileSystem

/-- The 12-bit value that two bytes hold for cluster `c`: the low twelve bits for even clusters, the
high twelve for odd ones, end marks widened. -/
def decodeEntry (c : ℕ) (b₀ b₁ : UInt8) : UInt32 :=
  let word := b₀.toNat + 256 * b₁.toNat
  let v := UInt32.ofNat (if c % 2 = 0 then word % 4096 else word / 16)
  if v ≥ 0xFF8 then v ||| 0xFFFFF000 else v

/-- **The FAT entry of cluster `c`**, decoded from the two bytes at offset `c + c / 2`. -/
def fatEntry (fatByte : ℕ → UInt8) (c : ℕ) : UInt32 :=
  decodeEntry c (fatByte (c + c / 2)) (fatByte (c + c / 2 + 1))

namespace Fat12FileSystem

/-- **The cache invariant**: either the window was never loaded, or it holds the FAT bytes from its
first sector on. -/
def CacheValid (fs : Fat12FileSystem) : Prop :=
  fs.data.fatCachePosition = 0xFFFFFFFF ∨
    (fs.data.fatCachePosition.toNat < 2 ^ 22 ∧
      ∀ i < fatCacheSize * sectorSize,
        fs.data.fatCache i = fs.fatByte (fs.data.fatCachePosition.toNat * sectorSize + i))

/-- The invariant only depends on the cache and on the FAT. -/
theorem CacheValid.congr {fs fs' : Fat12FileSystem} (h : fs.CacheValid)
    (hcache : fs'.data.fatCache = fs.data.fatCache)
    (hposition : fs'.data.fatCachePosition = fs.data.fatCachePosition)
    (hbs : fs'.data.bs = fs.data.bs) (hsector : fs'.disk.sector = fs.disk.sector) :
    fs'.CacheValid := by
  rw [CacheValid, hcache, hposition]
  refine h.imp_right fun h ↦ ⟨h.1, fun i hi ↦ ?_⟩
  rw [h.2 i hi, fatByte, fatByte, bs, bs, hbs, hsector]

/-! ### Frames

What a step of the driver leaves alone: the volume, the contents and the script of the device, the
records outside a given set, what the trace already says; and, with a faultless device, the cache
invariant. -/

/-- The step from `fs` to `fs'` changes at most the records in `refs`. -/
structure Frame (refs : Set FileRef) (fs fs' : Fat12FileSystem) : Prop where
  /-- The boot sector is kept. -/
  bs : fs'.bs = fs.bs
  /-- The start of the data section is kept. -/
  dataSectionLba : fs'.dataSectionLba = fs.dataSectionLba
  /-- The disk contents are kept. -/
  sector : fs'.disk.sector = fs.disk.sector
  /-- The device script is kept. -/
  outcome : fs'.disk.outcome = fs.disk.outcome
  /-- The other records are kept. -/
  fileData : ∀ r ∉ refs, fs'.fileData r = fs.fileData r
  /-- The trace only grows. -/
  trace : fs.trace <:+ fs'.trace
  /-- The cache stays valid on a faultless device. -/
  cacheValid : fs.disk.AllReadsSucceed → CacheValid fs → CacheValid fs'

namespace Frame

variable {refs refs' : Set FileRef} {fs fs' fs'' : Fat12FileSystem}

theorem refl (refs : Set FileRef) (fs : Fat12FileSystem) : Frame refs fs fs :=
  ⟨rfl, rfl, rfl, rfl, fun _ _ ↦ rfl, List.suffix_refl _, fun _ h ↦ h⟩

theorem allReadsSucceed (h : Frame refs fs fs') (hd : fs.disk.AllReadsSucceed) :
    fs'.disk.AllReadsSucceed := by
  intro k
  rw [h.outcome]
  exact hd k

theorem trans (h : Frame refs fs fs') (h' : Frame refs fs' fs'') : Frame refs fs fs'' where
  bs := h'.bs.trans h.bs
  dataSectionLba := h'.dataSectionLba.trans h.dataSectionLba
  sector := h'.sector.trans h.sector
  outcome := h'.outcome.trans h.outcome
  fileData r hr := (h'.fileData r hr).trans (h.fileData r hr)
  trace := h.trace.trans h'.trace
  cacheValid hd hc := h'.cacheValid (h.allReadsSucceed hd) (h.cacheValid hd hc)

theorem mono (h : Frame refs fs fs') (hsub : refs ⊆ refs') : Frame refs' fs fs' :=
  { h with fileData := fun r hr ↦ h.fileData r fun hmem ↦ hr (hsub hmem) }

theorem fatByte (h : Frame refs fs fs') (k : ℕ) : fs'.fatByte k = fs.fatByte k := by
  rw [Fat12FileSystem.fatByte, Fat12FileSystem.fatByte, h.sector, h.bs]

theorem clusterToLba (h : Frame refs fs fs') (c : UInt32) :
    fs'.clusterToLba c = fs.clusterToLba c := by
  rw [Fat12FileSystem.clusterToLba, Fat12FileSystem.clusterToLba, h.dataSectionLba, h.bs]

end Frame

theorem frame_setFileData (fs : Fat12FileSystem) (ref : FileRef) (fd : FatFileData) :
    Frame {ref} fs (fs.setFileData ref fd) where
  bs := bs_setFileData
  dataSectionLba := dataSectionLba_setFileData
  sector := by rw [disk_setFileData]
  outcome := by rw [disk_setFileData]
  fileData _ hr := fileData_setFileData_of_ne hr
  trace := by rw [trace_setFileData]
  cacheValid _ hc := hc.congr fatCache_setFileData fatCachePosition_setFileData bs_setFileData
    (by rw [disk_setFileData])

/-! ### Moving the window -/

theorem toNat_fatIndex {c : UInt32} (hc : c.toNat * 3 < 2 ^ 32) :
    (c * 3 / 2).toNat = c.toNat + c.toNat / 2 := by
  rw [UInt32.toNat_div, UInt32.toNat_mul]
  simp only [UInt32.reduceToNat]
  omega

theorem fatIndexSector_lt (c : UInt32) : (c * 3 / 2 / 512).toNat < 2 ^ 22 := by
  have hlt := (c * 3).toNat_lt
  rw [UInt32.toNat_div, UInt32.toNat_div]
  simp only [UInt32.reduceToNat]
  omega

/-- Whether the hit test sends a lookup to the disk, in numbers. -/
theorem miss_iff {s p : UInt32} (hp : p = 0xFFFFFFFF ∨ p.toNat < 2 ^ 22) (hs : s.toNat < 2 ^ 22) :
    (s < p ∨ s ≥ p + 5) ↔ (s.toNat < p.toNat ∨ p.toNat + 5 ≤ s.toNat) := by
  rw [UInt32.lt_iff_toNat_lt, ge_iff_le, UInt32.le_iff_toNat_le, UInt32.toNat_add]
  simp only [UInt32.reduceToNat]
  rcases hp with rfl | hp
  · simp only [UInt32.reduceToNat]
    omega
  · omega

theorem toNat_fatLba (fs : Fat12FileSystem) {s : UInt32} (hs : s.toNat < 2 ^ 22) :
    (fs.bs.reservedSectorCount.toUInt32 + s).toNat =
      fs.bs.reservedSectorCount.toNat + s.toNat := by
  have hlt := fs.bs.reservedSectorCount.toNat_lt
  rw [UInt32.toNat_add, UInt16.toNat_toUInt32]
  omega

/-- The hit test: the window has to be moved for this sector of the FAT. -/
def Misses (fs : Fat12FileSystem) (s : UInt32) : Prop :=
  s < fs.data.fatCachePosition ∨ s ≥ fs.data.fatCachePosition + 5

instance (fs : Fat12FileSystem) (s : UInt32) : Decidable (fs.Misses s) :=
  inferInstanceAs (Decidable (_ ∨ _))

/-- The window has to be moved for this sector of the FAT, and the device does not deliver it. -/
def FetchFails (fs : Fat12FileSystem) (s : UInt32) : Prop := fs.Misses s ∧ ¬ fs.disk.Answers

instance (fs : Fat12FileSystem) (s : UInt32) : Decidable (fs.FetchFails s) :=
  inferInstanceAs (Decidable (_ ∧ _))

theorem not_fetchFails {fs : Fat12FileSystem} (hd : fs.disk.AllReadsSucceed) (s : UInt32) :
    ¬ fs.FetchFails s := fun h ↦ h.2 hd.answers

/-- A loaded window: the sector asked for, and its four successors. -/
theorem readFat_loads {fs : Fat12FileSystem} (hd : fs.disk.Answers) {s : UInt32}
    (hs : s.toNat < 2 ^ 22) {i : ℕ} (hi : i < fatCacheSize * sectorSize) :
    (fs.readFat s).2.data.fatCache i = fs.fatByte (s.toNat * sectorSize + i) := by
  simp only [readFat, BlockDevice.readSectors_of_answers hd, BlockDevice.fill, if_pos hi,
    toNat_fatLba fs hs, Fat12FileSystem.fatByte]
  simp only [sectorSize]
  congr 1 <;> omega

/-- **The window after the check.** It is the old one on a hit and starts at the entry's sector on a
miss; either way it covers the entry's first byte and its contents are those of the disk. -/
theorem ensureWindow_spec {fs : Fat12FileSystem} {s : UInt32} (hd : ¬ fs.FetchFails s)
    (hc : fs.CacheValid) (hs : s.toNat < 2 ^ 22) :
    ((fs.ensureWindow s).data.fatCachePosition = fs.data.fatCachePosition ∨
        (fs.ensureWindow s).data.fatCachePosition = s) ∧
      (fs.ensureWindow s).data.fatCachePosition.toNat ≤ s.toNat ∧
      s.toNat < (fs.ensureWindow s).data.fatCachePosition.toNat + 5 ∧
      ∀ i < fatCacheSize * sectorSize, (fs.ensureWindow s).data.fatCache i =
        fs.fatByte ((fs.ensureWindow s).data.fatCachePosition.toNat * sectorSize + i) := by
  have hp : fs.data.fatCachePosition = 0xFFFFFFFF ∨ fs.data.fatCachePosition.toNat < 2 ^ 22 :=
    hc.imp_right And.left
  rw [ensureWindow]
  split
  · next hmiss =>
    have hanswer : fs.disk.Answers := Classical.not_not.1 fun hfail ↦ hd ⟨hmiss, hfail⟩
    exact ⟨Or.inr rfl, Nat.le_refl _, Nat.lt_add_of_pos_right (by omega),
      fun i hi ↦ readFat_loads hanswer hs hi⟩
  · next hhit =>
    rw [miss_iff hp hs] at hhit
    rcases hc with hsent | ⟨-, hbytes⟩
    · rw [hsent] at hhit
      simp only [UInt32.reduceToNat] at hhit
      omega
    · exact ⟨Or.inl rfl, by omega, by omega, hbytes⟩

theorem frame_ensureWindow (fs : Fat12FileSystem) {s : UInt32} (hs : s.toNat < 2 ^ 22) :
    Frame ∅ fs (fs.ensureWindow s) := by
  rw [ensureWindow]
  split
  · refine ⟨rfl, rfl, by simp [readFat], by simp [readFat], fun r _ ↦ by cases r <;> rfl, ?_, ?_⟩
    · simp only [readFat]
      exact List.suffix_cons _ _
    · intro hd _
      refine Or.inr ⟨hs, fun i hi ↦ (readFat_loads hd.answers hs hi).trans ?_⟩
      simp [Fat12FileSystem.fatByte, readFat]
  · exact Frame.refl ∅ fs

/-- Every lookup keeps the cache valid and touches no record. -/
theorem frame_nextCluster (fs : Fat12FileSystem) (c : UInt32) :
    Frame ∅ fs (fs.nextCluster c).2 := by
  have hw := frame_ensureWindow fs (fatIndexSector_lt c)
  refine hw.trans ⟨rfl, rfl, rfl, rfl, fun r _ ↦ by cases r <;> rfl, ?_, fun _ h ↦ h⟩
  rw [nextCluster]
  exact ((List.suffix_cons _ _).trans (List.suffix_cons _ _)).trans (List.suffix_cons _ _)

/-! ### What a lookup returns -/

/-- Where in the cache a lookup reads, after the window check. -/
def cacheIndex (fs : Fat12FileSystem) (c : UInt32) : ℕ :=
  (c * 3 / 2 - (fs.ensureWindow (c * 3 / 2 / 512)).data.fatCachePosition * 512).toNat

/-- A lookup decodes the two cache bytes at its index. -/
theorem nextCluster_fst (fs : Fat12FileSystem) (c : UInt32) :
    (fs.nextCluster c).1 = decodeEntry c.toNat
      ((fs.ensureWindow (c * 3 / 2 / 512)).cacheByte (fs.cacheIndex c))
      ((fs.ensureWindow (c * 3 / 2 / 512)).cacheByte (fs.cacheIndex c + 1)) := by
  have hand (w : ℕ) (hw : w < 65536) : UInt32.ofNat w &&& 0x0FFF = UInt32.ofNat (w % 4096) := by
    rw [← UInt32.toNat_inj, UInt32.toNat_and, UInt32.toNat_ofNat', UInt32.toNat_ofNat',
      Nat.mod_eq_of_lt (by omega), Nat.mod_eq_of_lt (by omega)]
    exact Nat.and_two_pow_sub_one_eq_mod w 12
  have hshift (w : ℕ) (hw : w < 65536) : UInt32.ofNat w >>> 4 = UInt32.ofNat (w / 16) := by
    rw [← UInt32.toNat_inj]
    simp only [UInt32.toNat_shiftRight, UInt32.toNat_ofNat', UInt32.reduceToNat, Nat.reduceMod,
      Nat.reducePow, Nat.shiftRight_eq_div_pow]
    omega
  have hparity : c % 2 = 0 ↔ c.toNat % 2 = 0 := by
    rw [← UInt32.toNat_inj, UInt32.toNat_mod]
    exact Iff.rfl
  have hword (b₀ b₁ : UInt8) : b₀.toNat + 256 * b₁.toNat < 65536 := by
    have h₀ := b₀.toNat_lt
    have h₁ := b₁.toNat_lt
    omega
  simp only [nextCluster, decodeEntry, cacheIndex, hparity, hand _ (hword _ _),
    hshift _ (hword _ _)]
  split <;> rfl

/-- A lookup records the two cache bytes it decodes. -/
theorem nextCluster_trace (fs : Fat12FileSystem) (c : UInt32) :
    (fs.nextCluster c).2.trace =
      .successor c (fs.nextCluster c).1 :: .cacheByte (fs.cacheIndex c + 1) ::
        .cacheByte (fs.cacheIndex c) :: (fs.ensureWindow (c * 3 / 2 / 512)).trace := rfl

theorem ensureWindow_trace (fs : Fat12FileSystem) (s : UInt32) :
    (fs.ensureWindow s).trace = fs.trace ∨
      ∃ lba, (fs.ensureWindow s).trace = .fatRead lba :: fs.trace := by
  rw [ensureWindow]
  split
  · exact Or.inr ⟨_, rfl⟩
  · exact Or.inl rfl

/-- The entry's first byte is the last byte of the cached window. -/
def Straddles (fs : Fat12FileSystem) (c : UInt32) : Prop :=
  (c * 3 / 2).toNat + 1 = (fs.data.fatCachePosition.toNat + fatCacheSize) * sectorSize

instance (fs : Fat12FileSystem) (c : UInt32) : Decidable (fs.Straddles c) :=
  inferInstanceAs (Decidable (_ = _))

section Lookup

variable {fs : Fat12FileSystem} {c : UInt32} (hd : ¬ fs.FetchFails (c * 3 / 2 / 512))
  (hc : fs.CacheValid)

include hd hc

/-- The lookup reads inside the window, its first byte at the entry's offset. -/
theorem cacheIndex_add :
    fs.cacheIndex c < fatCacheSize * sectorSize ∧
      (fs.ensureWindow (c * 3 / 2 / 512)).data.fatCachePosition.toNat * sectorSize +
        fs.cacheIndex c = (c * 3 / 2).toNat := by
  have hs := fatIndexSector_lt c
  obtain ⟨-, hlow, hhigh, -⟩ := ensureWindow_spec hd hc hs
  have hdiv : (c * 3 / 2 / 512).toNat = (c * 3 / 2).toNat / 512 := UInt32.toNat_div _ _
  have hidx := (c * 3 / 2).toNat_lt
  rw [cacheIndex, UInt32.toNat_sub, UInt32.toNat_mul]
  simp only [UInt32.reduceToNat, sectorSize, fatCacheSize]
  omega

/-- A lookup reads its second byte outside `FatCache` exactly when it straddles the window. -/
theorem cacheIndex_succ_lt_iff :
    fs.cacheIndex c + 1 < fatCacheSize * sectorSize ↔ ¬ fs.Straddles c := by
  have hs := fatIndexSector_lt c
  obtain ⟨hpos, hlow, hhigh, -⟩ := ensureWindow_spec hd hc hs
  obtain ⟨hlt, hadd⟩ := cacheIndex_add hd hc
  have hdiv : (c * 3 / 2 / 512).toNat = (c * 3 / 2).toNat / 512 := UInt32.toNat_div _ _
  rw [Straddles]
  simp only [sectorSize, fatCacheSize] at *
  rcases hpos with h | h
  · rw [h] at hadd
    omega
  · -- after a miss the window starts at the entry's own sector; before it the old one missed
    rw [h, hdiv] at hadd
    refine iff_of_true (by omega) fun hold ↦ ?_
    have hhit : (fs.ensureWindow (c * 3 / 2 / 512)).data.fatCachePosition =
        fs.data.fatCachePosition := by
      have hp : fs.data.fatCachePosition = 0xFFFFFFFF ∨ fs.data.fatCachePosition.toNat < 2 ^ 22 :=
        hc.imp_right And.left
      rw [ensureWindow, if_neg]
      rw [miss_iff hp hs, hdiv]
      omega
    rw [← hhit, h, hdiv] at hold
    omega

theorem cacheByte_ensureWindow {i : ℕ} (hi : i < fatCacheSize * sectorSize) :
    (fs.ensureWindow (c * 3 / 2 / 512)).cacheByte i = fs.fatByte
      ((fs.ensureWindow (c * 3 / 2 / 512)).data.fatCachePosition.toNat * sectorSize + i) := by
  obtain ⟨-, -, -, hbytes⟩ := ensureWindow_spec hd hc (fatIndexSector_lt c)
  rw [cacheByte, if_pos hi, hbytes i hi]

/-- **A lookup that does not straddle** returns what the disk says. -/
theorem nextCluster_of_not_straddles (hs : ¬ fs.Straddles c) :
    (fs.nextCluster c).1 = decodeEntry c.toNat (fs.fatByte (c * 3 / 2).toNat)
      (fs.fatByte ((c * 3 / 2).toNat + 1)) := by
  obtain ⟨hlt, hadd⟩ := cacheIndex_add hd hc
  have hsucc := (cacheIndex_succ_lt_iff hd hc).2 hs
  rw [nextCluster_fst, cacheByte_ensureWindow hd hc hlt, cacheByte_ensureWindow hd hc hsucc,
    hadd, ← Nat.add_assoc, hadd]

/-- **A lookup stays inside the cache array** exactly when it does not straddle. -/
theorem cacheBytes_lt_iff :
    (∃ evs, (fs.nextCluster c).2.trace = evs ++ fs.trace ∧
      ∀ i, Event.cacheByte i ∈ evs → i < fatCacheSize * sectorSize) ↔ ¬ fs.Straddles c := by
  have hsucc := cacheIndex_succ_lt_iff hd hc
  obtain ⟨w, hw, hnone⟩ : ∃ w, (fs.ensureWindow (c * 3 / 2 / 512)).trace = w ++ fs.trace ∧
      ∀ i, Event.cacheByte i ∉ w := by
    rcases ensureWindow_trace fs (c * 3 / 2 / 512) with h | ⟨lba, h⟩
    · exact ⟨[], h, fun i ↦ List.not_mem_nil⟩
    · exact ⟨[.fatRead lba], h, fun i ↦ by simp⟩
  have htrace : (fs.nextCluster c).2.trace =
      (.successor c (fs.nextCluster c).1 :: .cacheByte (fs.cacheIndex c + 1) ::
        .cacheByte (fs.cacheIndex c) :: w) ++ fs.trace := by
    rw [nextCluster_trace, hw]
    rfl
  constructor
  · rintro ⟨evs, hevs, hin⟩
    rw [htrace] at hevs
    obtain rfl := List.append_cancel_right hevs
    exact hsucc.1 (hin _ (by simp))
  · intro hns
    refine ⟨_, htrace, fun i hi ↦ ?_⟩
    have hlt := hsucc.2 hns
    simp only [List.mem_cons, reduceCtorEq, Event.cacheByte.injEq, hnone, or_false, false_or] at hi
    omega

end Lookup

/-- What `NextCluster` is meant to do: return the entry that the FAT of the volume holds for the
cluster, without looking at a byte outside the cache array. -/
def LookupCorrect (fs : Fat12FileSystem) (c : UInt32) : Prop :=
  (fs.nextCluster c).1 = fatEntry fs.volumeFatByte c.toNat ∧
    ∃ evs, (fs.nextCluster c).2.trace = evs ++ fs.trace ∧
      ∀ i, Event.cacheByte i ∈ evs → i < fatCacheSize * sectorSize

/-- A lookup answers with the two bytes that the disk holds at the offset it computes, and looks at
no byte outside the cache array. -/
def DecodesDisk (fs : Fat12FileSystem) (c : UInt32) : Prop :=
  (fs.nextCluster c).1 = decodeEntry c.toNat (fs.fatByte (c * 3 / 2).toNat)
      (fs.fatByte ((c * 3 / 2).toNat + 1)) ∧
    ∃ evs, (fs.nextCluster c).2.trace = evs ++ fs.trace ∧
      ∀ i, Event.cacheByte i ∈ evs → i < fatCacheSize * sectorSize

/-- In a state with a valid cache, a lookup decodes the disk exactly when it does not straddle. -/
theorem decodesDisk_iff {fs : Fat12FileSystem} {c : UInt32}
    (hd : ¬ fs.FetchFails (c * 3 / 2 / 512)) (hc : fs.CacheValid) :
    fs.DecodesDisk c ↔ ¬ fs.Straddles c := by
  rw [DecodesDisk, cacheBytes_lt_iff hd hc]
  exact ⟨And.right, fun hns ↦ ⟨nextCluster_of_not_straddles hd hc hns, hns⟩⟩

/-- **When the driver's FAT is the volume's**, as far as cluster `c` is concerned: the volume has
sectors of 512 bytes, or the disk happens to hold the same entry where the driver looks. -/
def FatAgrees (fs : Fat12FileSystem) (c : UInt32) : Prop :=
  fs.bs.bytesPerSector.toNat = sectorSize ∨
    fatEntry fs.fatByte c.toNat = fatEntry fs.volumeFatByte c.toNat

instance (fs : Fat12FileSystem) (c : UInt32) : Decidable (fs.FatAgrees c) :=
  inferInstanceAs (Decidable (_ ∨ _))

theorem FatAgrees.fatEntry_eq {fs : Fat12FileSystem} {c : UInt32} (h : fs.FatAgrees c) :
    fatEntry fs.fatByte c.toNat = fatEntry fs.volumeFatByte c.toNat := by
  rcases h with hb | he
  · rw [fs.volumeFatByte_eq hb]
  · exact he

theorem Frame.fatAgrees {refs : Set FileRef} {fs fs' : Fat12FileSystem} (h : Frame refs fs fs')
    (c : UInt32) : fs'.FatAgrees c ↔ fs.FatAgrees c := by
  have hfat : fs'.fatByte = fs.fatByte := funext h.fatByte
  have hvolume : fs'.volumeFatByte = fs.volumeFatByte := by
    funext k
    rw [volumeFatByte, volumeFatByte, h.sector, h.bs]
  rw [FatAgrees, FatAgrees, hfat, hvolume, h.bs]

/-- A lookup is correct when it also looks in the right place, for clusters whose offset the driver
computes without overflow. -/
theorem lookupCorrect_iff {fs : Fat12FileSystem} {c : UInt32}
    (hd : ¬ fs.FetchFails (c * 3 / 2 / 512)) (hc : fs.CacheValid) (hcl : c.toNat * 3 < 2 ^ 32) :
    fs.LookupCorrect c ↔ ¬ fs.Straddles c ∧ fs.FatAgrees c := by
  rw [LookupCorrect, cacheBytes_lt_iff hd hc, and_comm]
  refine and_congr_right fun hns ↦ ?_
  have hvalue := nextCluster_of_not_straddles hd hc hns
  rw [toNat_fatIndex hcl] at hvalue
  exact ⟨fun h ↦ Or.inr (hvalue.symm.trans h), fun h ↦ hvalue.trans h.fatEntry_eq⟩

/-- A lookup that the device serves keeps the cache valid. -/
theorem cacheValid_nextCluster {fs : Fat12FileSystem} {c : UInt32}
    (hd : ¬ fs.FetchFails (c * 3 / 2 / 512)) (hc : fs.CacheValid) :
    (fs.nextCluster c).2.CacheValid := by
  have hs := fatIndexSector_lt c
  obtain ⟨-, hlow, -, hbytes⟩ := ensureWindow_spec hd hc hs
  have hframe := frame_ensureWindow fs hs
  have hvalid : (fs.ensureWindow (c * 3 / 2 / 512)).CacheValid := by
    refine Or.inr ⟨by omega, fun i hi ↦ ?_⟩
    rw [hbytes i hi, hframe.fatByte]
  exact hvalid.congr rfl rfl rfl rfl

end Fat12FileSystem

end Aidos.Fat12
