import Mathlib.Data.Finset.Prod
import Aidos.Library.Orbit
import Aidos.Fat12.Requests

/-!
# Walking a chain of sectors

The sequence of sectors that the counters of a record go through, `sectorSteps`, depends on the FAT
and on nothing else: what the next cluster is, is determined by the current one and the position of
the FAT window (`nextCluster_congr`), even for the lookups that read behind the window. The counters
and the window take finitely many values, so a walk that comes to an end mark does so within `2 ^
23` sectors, the number that the 32-bit position of a record can count (`firstEnd_lt`).
-/

namespace Aidos.Fat12

/-- Detection lets at most 128 sectors to the cluster through. -/
theorem spc_le {b : FatBootSector} (h : detectAccepts b = true) : spc b ≤ 128 :=
  Words.le_of_isPowerOfTwo (w := 7) (isPowerOfTwo_of_detectAccepts h).2 b.sectorsPerCluster.toNat_lt

namespace Fat12FileSystem

variable {disk : BlockDevice} {b : FatBootSector} {fs fs' : Fat12FileSystem} {ref : FileRef}

/-! ### What a lookup depends on -/

/-- Where the window is after a lookup. -/
theorem fatCachePosition_ensureWindow (fs : Fat12FileSystem) (s : UInt32) :
    (fs.ensureWindow s).data.fatCachePosition =
      if fs.Misses s then s else fs.data.fatCachePosition := by
  have hif : fs.Misses s ↔
      (s < fs.data.fatCachePosition ∨ s ≥ fs.data.fatCachePosition + 5) := Iff.rfl
  rw [ensureWindow]
  by_cases h : fs.Misses s
  · rw [if_pos (hif.1 h), if_pos h]
  · rw [if_neg fun hmiss ↦ h (hif.2 hmiss), if_neg h]

/-- **A lookup depends on the window's position only**, on a given volume. -/
theorem nextCluster_congr (h : Serves disk b fs) (h' : Serves disk b fs')
    (hposition : fs'.data.fatCachePosition = fs.data.fatCachePosition) (c : UInt32) :
    (fs'.nextCluster c).1 = (fs.nextCluster c).1 ∧
      (fs'.nextCluster c).2.data.fatCachePosition = (fs.nextCluster c).2.data.fatCachePosition := by
  have hs := fatIndexSector_lt c
  have hwindow : (fs'.ensureWindow (c * 3 / 2 / 512)).data.fatCachePosition =
      (fs.ensureWindow (c * 3 / 2 / 512)).data.fatCachePosition := by
    have hmiss : fs'.Misses (c * 3 / 2 / 512) ↔ fs.Misses (c * 3 / 2 / 512) := by
      unfold Misses
      rw [hposition]
    rw [fatCachePosition_ensureWindow, fatCachePosition_ensureWindow]
    exact if_congr hmiss rfl hposition
  obtain ⟨-, -, -, hbytes⟩ := ensureWindow_spec (not_fetchFails h.reads _) h.cacheValid hs
  obtain ⟨-, -, -, hbytes'⟩ := ensureWindow_spec (not_fetchFails h'.reads _) h'.cacheValid hs
  have hbyte (i : ℕ) : (fs'.ensureWindow (c * 3 / 2 / 512)).cacheByte i =
      (fs.ensureWindow (c * 3 / 2 / 512)).cacheByte i := by
    rw [cacheByte, cacheByte]
    by_cases hi : i < fatCacheSize * sectorSize
    · rw [if_pos hi, if_pos hi, hbytes i hi, hbytes' i hi, hwindow, h.fatByte, h'.fatByte]
    · rw [if_neg hi, if_neg hi, hwindow]
  refine ⟨?_, hwindow⟩
  rw [nextCluster_fst, nextCluster_fst, cacheIndex, cacheIndex, hwindow, hbyte, hbyte]

/-! ### The walk -/

/-- The driver after `k` sector steps of the record `ref`: no sector is fetched. -/
def sectorSteps (fs : Fat12FileSystem) (ref : FileRef) : ℕ → Fat12FileSystem
  | 0 => fs
  | k + 1 => (sectorSteps fs ref k).stepCounters ref

/-- The counters of a record and the position of the window: what the next sector step depends on.
-/
def walkState (fs : Fat12FileSystem) (ref : FileRef) : UInt32 × UInt32 × UInt32 :=
  ((fs.fileData ref).currentCluster, (fs.fileData ref).currentSectorInCluster,
    fs.data.fatCachePosition)

theorem frame_sectorSteps (fs : Fat12FileSystem) (ref : FileRef) (k : ℕ) :
    Frame {ref} fs (fs.sectorSteps ref k) := by
  induction k with
  | zero => exact Frame.refl _ fs
  | succ k ih => exact ih.trans (frame_stepCounters _ ref)

/-- **A sector step depends on the walk's state only**, on a given volume. -/
theorem walkState_stepCounters (h : Serves disk b fs) (h' : Serves disk b fs')
    (hsame : fs'.walkState ref = fs.walkState ref) :
    (fs'.stepCounters ref).walkState ref = (fs.stepCounters ref).walkState ref := by
  obtain ⟨hcluster, hsector, hposition⟩ : (fs'.fileData ref).currentCluster =
      (fs.fileData ref).currentCluster ∧ (fs'.fileData ref).currentSectorInCluster =
        (fs.fileData ref).currentSectorInCluster ∧
          fs'.data.fatCachePosition = fs.data.fatCachePosition := by
    simpa only [walkState, Prod.mk.injEq] using hsame
  rw [stepCounters, stepCounters, hcluster, hsector, h.bs, h'.bs]
  split
  · obtain ⟨hnext, hwindow⟩ := nextCluster_congr h h' hposition (fs.fileData ref).currentCluster
    rw [walkState, walkState, fileData_setFileData_self, fileData_setFileData_self,
      fatCachePosition_setFileData, fatCachePosition_setFileData, hnext, hwindow]
  · rw [walkState, walkState, fileData_setFileData_self, fileData_setFileData_self,
      fatCachePosition_setFileData, fatCachePosition_setFileData, hposition]

theorem deterministic_walk (h : Serves disk b fs) (ref : FileRef) :
    Deterministic fun k ↦ (fs.sectorSteps ref k).walkState ref := by
  intro i j hij
  exact walkState_stepCounters (h.of_frame (frame_sectorSteps fs ref j))
    (h.of_frame (frame_sectorSteps fs ref i)) hij

/-! ### Its length -/

/-- The clusters a walk can come to before its end, those after the first being answers of the FAT.
-/
@[irreducible] def walkClusters (c₀ : UInt32) : Finset UInt32 :=
  insert c₀ ((Finset.range 0xFF8).image UInt32.ofNat)

/-- The sectors of a cluster. -/
@[irreducible] def walkSectors (b : FatBootSector) : Finset UInt32 :=
  (Finset.range (spc b)).image UInt32.ofNat

/-- Where the window can be: where it was, or at the entry of one of these clusters. -/
@[irreducible] def walkWindows (w₀ c₀ : UInt32) : Finset UInt32 :=
  insert w₀ (insert (c₀ * 3 / 2 / 512) ((Finset.range 12).image UInt32.ofNat))

theorem mem_image_ofNat {n : ℕ} {x : UInt32} (h : x.toNat < n) :
    x ∈ (Finset.range n).image UInt32.ofNat :=
  Finset.mem_image.2 ⟨x.toNat, Finset.mem_range.2 h, UInt32.ofNat_toNat⟩

theorem card_image_range_le (n : ℕ) : ((Finset.range n).image UInt32.ofNat).card ≤ n :=
  Finset.card_image_le.trans_eq (Finset.card_range n)

theorem mem_walkClusters_iff {c₀ c : UInt32} : c ∈ walkClusters c₀ ↔ c = c₀ ∨ c.toNat < 0xFF8 := by
  rw [walkClusters, Finset.mem_insert]
  refine or_congr_right ⟨fun h ↦ ?_, mem_image_ofNat⟩
  obtain ⟨n, hn, rfl⟩ := Finset.mem_image.1 h
  have hn' := Finset.mem_range.1 hn
  rwa [UInt32.toNat_ofNat_of_lt' (Nat.lt_trans hn' (by decide))]

theorem card_walkClusters_le (c₀ : UInt32) : (walkClusters c₀).card ≤ 0xFF8 + 1 := by
  rw [walkClusters]
  exact (Finset.card_insert_le _ _).trans (Nat.add_le_add_right (card_image_range_le 0xFF8) 1)

theorem mem_walkSectors {s : UInt32} (h : s.toNat < spc b) : s ∈ walkSectors b := by
  rw [walkSectors]
  exact mem_image_ofNat h

theorem card_walkSectors_le (b : FatBootSector) : (walkSectors b).card ≤ spc b := by
  rw [walkSectors]
  exact card_image_range_le (spc b)

theorem mem_walkWindows_self (w₀ c₀ : UInt32) : w₀ ∈ walkWindows w₀ c₀ := by
  rw [walkWindows]
  exact Finset.mem_insert_self _ _

theorem card_walkWindows_le (w₀ c₀ : UInt32) : (walkWindows w₀ c₀).card ≤ 12 + 2 := by
  rw [walkWindows]
  exact (Finset.card_insert_le _ _).trans (Nat.add_le_add_right ((Finset.card_insert_le _ _).trans
    (Nat.add_le_add_right (card_image_range_le 12) 1)) 1)

/-- Looking a cluster of the walk up leaves the window in its place. -/
theorem mem_walkWindows_nextCluster {w₀ c₀ c : UInt32} (hc : c ∈ walkClusters c₀)
    (hw : fs.data.fatCachePosition ∈ walkWindows w₀ c₀) :
    (fs.nextCluster c).2.data.fatCachePosition ∈ walkWindows w₀ c₀ := by
  show (fs.ensureWindow (c * 3 / 2 / 512)).data.fatCachePosition ∈ _
  rw [fatCachePosition_ensureWindow]
  split
  · rw [walkWindows]
    refine Finset.mem_insert_of_mem ?_
    rcases mem_walkClusters_iff.1 hc with rfl | hlt
    · exact Finset.mem_insert_self _ _
    · refine Finset.mem_insert_of_mem (mem_image_ofNat ?_)
      rw [UInt32.toNat_div, toNat_fatIndex (by omega)]
      simp only [UInt32.reduceToNat]
      omega
  · exact hw

/-- A sector step goes to a sector of the same cluster, or to the first one of the successor. -/
theorem stepCounters_cases (fs : Fat12FileSystem) (ref : FileRef) :
    (¬ (fs.fileData ref).currentSectorInCluster + 1 ≥ fs.bs.sectorsPerCluster.toUInt32 ∧
        (fs.stepCounters ref).walkState ref = ((fs.fileData ref).currentCluster,
          (fs.fileData ref).currentSectorInCluster + 1, fs.data.fatCachePosition)) ∨
      (fs.stepCounters ref).walkState ref = ((fs.nextCluster (fs.fileData ref).currentCluster).1, 0,
        (fs.nextCluster (fs.fileData ref).currentCluster).2.data.fatCachePosition) := by
  rw [stepCounters]
  split
  · right
    rw [walkState, fileData_setFileData_self, fatCachePosition_setFileData]
  · next hstay =>
    left
    rw [walkState, fileData_setFileData_self, fatCachePosition_setFileData]
    exact ⟨hstay, rfl⟩

section Length

variable (ha : detectAccepts b = true) (h : Serves disk b fs) {K : ℕ}
  (hbefore : ∀ k, 0 < k → k < K →
    ¬ ((fs.sectorSteps ref k).fileData ref).currentCluster ≥ 0xFFFFFFF8)

include hbefore in
/-- The clusters and the windows of a walk before its end. -/
theorem walk_mem {k : ℕ} (hk : k < K) :
    ((fs.sectorSteps ref k).fileData ref).currentCluster ∈
        walkClusters (fs.fileData ref).currentCluster ∧
      (fs.sectorSteps ref k).data.fatCachePosition ∈
        walkWindows fs.data.fatCachePosition (fs.fileData ref).currentCluster := by
  induction k with
  | zero => exact ⟨mem_walkClusters_iff.2 (Or.inl rfl), mem_walkWindows_self _ _⟩
  | succ k ih =>
    obtain ⟨hcluster, hwindow⟩ := ih (by omega)
    have hdata := hbefore (k + 1) (Nat.succ_pos k) hk
    rw [sectorSteps] at hdata ⊢
    rcases stepCounters_cases (fs.sectorSteps ref k) ref with ⟨-, hstep⟩ | hstep
    · obtain ⟨hc, -, hw⟩ : _ ∧ _ ∧ _ := by simpa only [walkState, Prod.mk.injEq] using hstep
      rw [hc, hw]
      exact ⟨hcluster, hwindow⟩
    · obtain ⟨hc, -, hw⟩ : _ ∧ _ ∧ _ := by simpa only [walkState, Prod.mk.injEq] using hstep
      rw [hc] at hdata
      rw [hc, hw]
      have hlt := (nextCluster_range _ _).resolve_right hdata
      exact ⟨mem_walkClusters_iff.2 (Or.inr hlt), mem_walkWindows_nextCluster hcluster hwindow⟩

include ha h hbefore in
/-- The states of a walk behind its first sector and before its end. -/
theorem walkState_mem {k : ℕ} (hk : k + 1 < K) :
    (fs.sectorSteps ref (k + 1)).walkState ref ∈
      walkClusters (fs.fileData ref).currentCluster ×ˢ (walkSectors b ×ˢ
        walkWindows fs.data.fatCachePosition (fs.fileData ref).currentCluster) := by
  obtain ⟨hcluster, hwindow⟩ := walk_mem hbefore hk
  rw [walkState, Finset.mem_product, Finset.mem_product]
  refine ⟨hcluster, ?_, hwindow⟩
  have hspc := (h.of_frame (frame_sectorSteps fs ref k)).toNat_sectorsPerCluster
  show ((fs.sectorSteps ref (k + 1)).fileData ref).currentSectorInCluster ∈ walkSectors b
  rw [sectorSteps]
  rcases stepCounters_cases (fs.sectorSteps ref k) ref with ⟨hstay, hstep⟩ | hstep
  · obtain ⟨-, hs, -⟩ : _ ∧ _ ∧ _ := by simpa only [walkState, Prod.mk.injEq] using hstep
    rw [hs]
    refine mem_walkSectors ?_
    rw [ge_iff_le, UInt32.le_iff_toNat_le, hspc] at hstay
    omega
  · obtain ⟨-, hs, -⟩ : _ ∧ _ ∧ _ := by simpa only [walkState, Prod.mk.injEq] using hstep
    rw [hs]
    exact mem_walkSectors (spc_pos ha)

include ha h hbefore in
/-- **A walk that ends is short**: it comes to its first end mark before the position of the record
has wrapped around. -/
theorem firstEnd_lt (hend : ((fs.sectorSteps ref K).fileData ref).currentCluster ≥ 0xFFFFFFF8) :
    K < 2 ^ 23 := by
  rcases K with - | K
  · decide
  have hdet : Deterministic fun k ↦ (fs.sectorSteps ref (k + 1)).walkState ref :=
    fun i j hij ↦ deterministic_walk h ref (i + 1) (j + 1) hij
  have hmem (k : ℕ) (hk : k < K) := walkState_mem ha h hbefore (Nat.succ_lt_succ hk)
  have hcard := hdet.firstExit_le_card (P := fun w ↦ w.1 ≥ 0xFFFFFFF8) (K := K) hend
    (fun k hk ↦ hbefore (k + 1) (Nat.succ_pos k) (Nat.succ_lt_succ hk)) hmem
  rw [Finset.card_product, Finset.card_product] at hcard
  have hmul := Nat.mul_le_mul (card_walkClusters_le (fs.fileData ref).currentCluster)
    (Nat.mul_le_mul ((card_walkSectors_le b).trans (spc_le ha))
      (card_walkWindows_le fs.data.fatCachePosition (fs.fileData ref).currentCluster))
  omega

end Length

end Fat12FileSystem

end Aidos.Fat12
