import Aidos.Fat12.Mount

/-!
# FAT lookups on a device that fails

`NextCluster` does not look at the result of `ReadFat`: the window counts as loaded from the sector
asked for whether or not the device has delivered it. `LookupSound` says what a lookup should leave
behind on any device, and `lookupSound_iff` when it does, for every lookup of any history: exactly
when the window, if it had to be moved, was delivered, and the entry does not straddle its end.

From a lookup on that failed, the cache is wrong without a sign of it: `calls_of_misses` says
that the next lookup of the same cluster does not ask the device again.
-/

namespace Aidos.Fat12

namespace Fat12FileSystem

variable {fs : Fat12FileSystem} {c : UInt32}

/-- Unless its position is the sentinel, the cache holds the sectors of the disk from the position
on. -/
def CacheExact (fs : Fat12FileSystem) : Prop :=
  fs.data.fatCachePosition ≠ 0xFFFFFFFF →
    ∀ i < fatCacheSize * sectorSize, fs.data.fatCache i =
      fs.disk.sector
        (fs.bs.reservedSectorCount.toNat + fs.data.fatCachePosition.toNat + i / sectorSize)
        (i % sectorSize)

/-- What the lookup of `c` should leave behind, on any device. -/
structure LookupSound (fs : Fat12FileSystem) (c : UInt32) : Prop where
  /-- The cache holds what its position says. -/
  cacheExact : (fs.nextCluster c).2.CacheExact
  /-- The answer comes from the disk. -/
  decodesDisk : fs.DecodesDisk c
  /-- If the device has failed, the next lookup of the cluster asks it again. -/
  retries : fs.FetchFails (c * 3 / 2 / 512) →
    ((fs.nextCluster c).2.nextCluster c).2.disk.calls = (fs.nextCluster c).2.disk.calls + 1

theorem CacheValid.cacheExact (h : fs.CacheValid) : fs.CacheExact := by
  intro hloaded i hi
  obtain ⟨-, hbytes⟩ := h.resolve_left hloaded
  have hdiv : (fs.data.fatCachePosition.toNat * sectorSize + i) / sectorSize =
      fs.data.fatCachePosition.toNat + i / sectorSize := by
    simp only [sectorSize]
    omega
  have hmod : (fs.data.fatCachePosition.toNat * sectorSize + i) % sectorSize = i % sectorSize := by
    simp only [sectorSize]
    omega
  rw [hbytes i hi, fatByte, hdiv, hmod, Nat.add_assoc]

/-- A window that has just been moved is not moved again for the same sector. -/
theorem not_misses_ensureWindow {s : UInt32} (hs : s.toNat < 2 ^ 22) (hmiss : fs.Misses s) :
    ¬ (fs.ensureWindow s).Misses s := by
  have hposition : (fs.ensureWindow s).data.fatCachePosition = s := by
    have hmoved : s < fs.data.fatCachePosition ∨ s ≥ fs.data.fatCachePosition + 5 := hmiss
    rw [ensureWindow, if_pos hmoved]
  have hbound : s.toNat < s.toNat ∨ s.toNat + 5 ≤ s.toNat → False := by omega
  rw [Misses, hposition, miss_iff (Or.inr hs) hs]
  exact hbound

/-- **No retry.** After a lookup that moved the window, the next lookup of the cluster does not ask
the device, whether the window was delivered or not. -/
theorem calls_of_misses (hmiss : fs.Misses (c * 3 / 2 / 512)) :
    ((fs.nextCluster c).2.nextCluster c).2.disk.calls = (fs.nextCluster c).2.disk.calls := by
  have hstay : ¬ (fs.nextCluster c).2.Misses (c * 3 / 2 / 512) :=
    not_misses_ensureWindow (fatIndexSector_lt c) hmiss
  have hsame : (fs.nextCluster c).2.ensureWindow (c * 3 / 2 / 512) =
      (fs.nextCluster c).2 := if_neg hstay
  show ((fs.nextCluster c).2.ensureWindow (c * 3 / 2 / 512)).disk.calls = _
  rw [hsame]

/-- **One lookup.** With a valid cache, it is sound exactly when the device delivers the window, if
that has to be moved, and the entry does not straddle its end. -/
theorem lookupSound_iff_of_cacheValid (hc : fs.CacheValid) :
    fs.LookupSound c ↔ ¬ fs.FetchFails (c * 3 / 2 / 512) ∧ ¬ fs.Straddles c := by
  constructor
  · intro h
    have hd : ¬ fs.FetchFails (c * 3 / 2 / 512) := by
      intro hfails
      have hretry := h.retries hfails
      rw [calls_of_misses hfails.1] at hretry
      omega
    exact ⟨hd, (decodesDisk_iff hd hc).1 h.decodesDisk⟩
  · rintro ⟨hd, hstraddle⟩
    exact
      { cacheExact := (cacheValid_nextCluster hd hc).cacheExact
        decodesDisk := (decodesDisk_iff hd hc).2 hstraddle
        retries := fun hfails ↦ absurd hfails hd }

/-- As long as every window is delivered, the cache stays valid. -/
theorem cacheValid_lookups (hc : fs.CacheValid) {history : List UInt32}
    (hd : ∀ before c after, history = before ++ c :: after → (fs.lookups before).CacheValid →
      ¬ (fs.lookups before).FetchFails (c * 3 / 2 / 512)) (before rest : List UInt32)
    (heq : history = before ++ rest) : (fs.lookups before).CacheValid := by
  induction before using List.reverseRecOn generalizing rest with
  | nil => exact hc
  | append_singleton before d ih =>
    have hsplit : history = before ++ d :: rest := by
      rw [heq, List.append_assoc, List.singleton_append]
    have hvalid := ih (d :: rest) hsplit
    have hlast : fs.lookups (before ++ [d]) = ((fs.lookups before).nextCluster d).2 := by
      rw [lookups, List.foldl_append]
      rfl
    rw [hlast]
    exact cacheValid_nextCluster (hd before d rest hsplit hvalid) hvalid

/-- **FAT lookups on a device that fails.** After a mount, all lookups of a history are sound if and
only if each window that a lookup of the history moves to is delivered by the device, and no lookup
straddles the end of the window. -/
theorem lookupSound_iff {disk : BlockDevice} {fresh : FatData}
    (hm : detectAndMount disk fresh = some fs) (history : List UInt32) :
    (∀ before c after, history = before ++ c :: after → (fs.lookups before).LookupSound c) ↔
      ∀ before c after, history = before ++ c :: after →
        ¬ (fs.lookups before).FetchFails (c * 3 / 2 / 512) ∧ ¬ (fs.lookups before).Straddles c := by
  have hc := (mounted_of_detectAndMount hm).cacheValid
  constructor
  · intro h before c after heq
    have hvalid := cacheValid_lookups hc (fun before c after heq hvalid ↦
      ((lookupSound_iff_of_cacheValid hvalid).1 (h before c after heq)).1) before (c :: after) heq
    exact (lookupSound_iff_of_cacheValid hvalid).1 (h before c after heq)
  · intro h before c after heq
    have hvalid := cacheValid_lookups hc (fun before c after heq _ ↦ (h before c after heq).1)
      before (c :: after) heq
    exact (lookupSound_iff_of_cacheValid hvalid).2 (h before c after heq)

/-! ### A floppy disk that fails once -/

/-- The filled floppy disk, on a drive that fails on the fourth request, the first one after
mounting. -/
def failingFloppy : BlockDevice :=
  { filledFloppy with outcome := fun k ↦ if k = 3 then some 0 else none }

/-- The driver after mounting it. -/
def failingFloppyFs : Fat12FileSystem := (detectAndMount failingFloppy blankData).get (by decide)

theorem detectAndMount_failingFloppy :
    detectAndMount failingFloppy blankData = some failingFloppyFs := by
  rw [failingFloppyFs, Option.some_get]

/-- Two lookups of the same cluster on that drive. -/
theorem lookupSound_iff_failingFloppy :
    (∀ before c after, [2, 2] = before ++ c :: after →
      (failingFloppyFs.lookups before).LookupSound c) ↔
      ∀ before c after, [2, 2] = before ++ c :: after →
        ¬ (failingFloppyFs.lookups before).FetchFails (c * 3 / 2 / 512) ∧
          ¬ (failingFloppyFs.lookups before).Straddles c :=
  lookupSound_iff detectAndMount_failingFloppy [2, 2]

/-- **The failure that goes unnoticed.** All entries of the FAT are end marks. The first lookup
meets the failing request, answers 0 from the memory of the fresh driver, and leaves a window that
counts as loaded; the second one, which the device would serve, answers 0 again. -/
theorem not_lookupSound_failingFloppy :
    fatEntry failingFloppyFs.fatByte 2 = 0xFFFFFFFF ∧
      (failingFloppyFs.nextCluster 2).1 = 0 ∧
      (failingFloppyFs.nextCluster 2).2.data.fatCachePosition = 0 ∧
      ((failingFloppyFs.nextCluster 2).2.nextCluster 2).1 = 0 ∧
      ¬ ∀ before c after, [2, 2] = before ++ c :: after →
        (failingFloppyFs.lookups before).LookupSound c := by
  refine ⟨by decide, by decide, by decide, by decide, fun h ↦ ?_⟩
  have hsound := h [] 2 [2] rfl
  have hbyte := hsound.cacheExact (by decide) 0 (by decide)
  exact absurd hbyte (by decide)

end Fat12FileSystem

end Aidos.Fat12
