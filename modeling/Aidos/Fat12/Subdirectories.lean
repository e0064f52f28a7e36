import Aidos.Fat12.Termination

/-!
# Looking up a name in a subdirectory

A subdirectory has no size of its own: its entries are those of the clusters of its chain, and the
end of the chain is found out when `read` comes to it. `read` then turns the position into the size,
and the next entry asked for is not delivered.

The scan of a subdirectory that has just been opened goes through the sectors of the chain
(`OnChain`), sixteen entries to each. So it visits the entries of the chain in their order, up to
the terminator, the end of the chain or the first entry with the name, and its answer is the first
match among them (`findFile_of_openEntry`).
-/

namespace Aidos.Fat12

/-! ### Lookups since a state -/

/-- The lookups that were made between two states of the driver returned the on-disk successors of
data clusters. -/
def FaithfulSince (fat : ℕ → UInt8) (fs fs' : Fat12FileSystem) : Prop :=
  ∀ evs, fs'.trace = evs ++ fs.trace → Faithful fat evs

/-- It holds when all the lookups did. -/
theorem Faithful.since {fat : ℕ → UInt8} {fs fs' : Fat12FileSystem} (h : Faithful fat fs'.trace) :
    FaithfulSince fat fs fs' :=
  fun _ hevs c r hlow hhigh hmem ↦ h c r hlow hhigh (hevs ▸ List.mem_append_left _ hmem)

/-- It holds of any part of the way. -/
theorem FaithfulSince.between {fat : ℕ → UInt8} {fs fs₁ fs₂ fs' : Fat12FileSystem}
    (h : FaithfulSince fat fs fs') (h₀ : fs.trace <:+ fs₁.trace)
    (h₂ : fs₂.trace <:+ fs'.trace) : FaithfulSince fat fs₁ fs₂ := by
  obtain ⟨t₀, h₀⟩ := h₀
  obtain ⟨t₂, h₂⟩ := h₂
  intro evs hevs c r hlow hhigh hmem
  refine h (t₂ ++ (evs ++ t₀)) ?_ c r hlow hhigh ?_
  · rw [← h₂, hevs, ← h₀, List.append_assoc, List.append_assoc]
  · exact List.mem_append_right _ (List.mem_append_left _ hmem)

/-- A single lookup. -/
theorem FaithfulSince.nextCluster {fat : ℕ → UInt8} {fs : Fat12FileSystem} {c : UInt32}
    (h : FaithfulSince fat fs (fs.nextCluster c).2) (hc : 2 ≤ c.toNat ∧ c.toNat ≤ 0xFEF) :
    (fs.nextCluster c).1 = fatEntry fat c.toNat := by
  have htrace := Fat12FileSystem.nextCluster_trace fs c
  rcases Fat12FileSystem.ensureWindow_trace fs (c * 3 / 2 / 512) with hwin | ⟨lba, hwin⟩
  · rw [hwin] at htrace
    exact h [_, _, _] htrace _ _ hc.1 hc.2 List.mem_cons_self
  · rw [hwin] at htrace
    exact h [_, _, _, _] htrace _ _ hc.1 hc.2 List.mem_cons_self

/-! ### The entries of a chain -/

section Entries

variable {disk : BlockDevice} {b : FatBootSector} (C : ClusterChain (diskFat disk b))

/-- The `j`-th entry of the directory on the chain. -/
def ClusterChain.entry (j : ℕ) : FatDirectoryEntry := ⟨slice C.byteAt (entrySize * j) entrySize⟩

/-- The entries of the directory on the chain: sixteen in each sector of each cluster. -/
def ClusterChain.entries : List FatDirectoryEntry :=
  (List.range (C.clusters.length * spc b * 16)).map C.entry

variable {C}

theorem ClusterChain.length_entries : C.entries.length = C.clusters.length * spc b * 16 := by
  rw [entries, List.length_map, List.length_range]

theorem ClusterChain.drop_entries {j : ℕ} (hj : j < C.clusters.length * spc b * 16) :
    C.entries.drop j = C.entry j :: C.entries.drop (j + 1) := by
  rw [List.drop_eq_getElem_cons (by rw [length_entries]; exact hj)]
  simp [entries]

end Entries

/-- The entries that a scan for `name` visits: those in front of the terminator, up to the first one
that has the name. -/
def visited (name : List UInt8) (es : List FatDirectoryEntry) : List FatDirectoryEntry :=
  let front := es.takeWhile fun e ↦ e.name 0 != 0
  front.take (front.findIdx (nameMatches name) + 1)

/-- The number of entries that it asks for: one more, unless the last one has the name. -/
def asked (name : List UInt8) (es : List FatDirectoryEntry) : ℕ :=
  (visited name es).length + if firstMatch es name = .notFound then 1 else 0

theorem visited_cons (e : FatDirectoryEntry) (es : List FatDirectoryEntry) (name : List UInt8) :
    visited name (e :: es) =
      if e.name 0 = 0 then [] else if nameMatches name e then [e] else e :: visited name es := by
  rw [visited, List.takeWhile_cons]
  by_cases hend : e.name 0 = 0
  · rw [if_pos hend, if_neg (by simp [hend])]
    rfl
  · rw [if_neg hend, if_pos (by simpa using hend)]
    rw [List.findIdx_cons]
    cases nameMatches name e
    · rfl
    · rfl

theorem asked_cons (e : FatDirectoryEntry) (es : List FatDirectoryEntry) (name : List UInt8) :
    asked name (e :: es) =
      if e.name 0 = 0 then 1 else if nameMatches name e then 1 else asked name es + 1 := by
  rw [asked, visited_cons, firstMatch_cons]
  split
  · rfl
  · split
    · rfl
    · rw [List.length_cons, asked]
      omega

namespace Fat12FileSystem

/-- **A scan for `name` visits the entries `es`**: `ReadEntry` delivers them one after the other up
to where the scan stops, and the answer is the first match among them. -/
structure Visits (fs : Fat12FileSystem) (ref : FileRef) (name : List UInt8)
    (es : List FatDirectoryEntry) (n : ℕ) : Prop where
  /-- The entries delivered. -/
  entry : ∀ (i : ℕ) (hi : i < (visited name es).length),
    ((fs.afterEntries ref i).readEntry ref).1 = some (visited name es)[i]
  /-- The answer, and the driver behind the entries asked for. -/
  result : fs.findFile n ref name = (firstMatch es name, fs.afterEntries ref (asked name es))

section Visits

variable {fs : Fat12FileSystem} {ref : FileRef} {name : List UInt8} {n : ℕ}

/-- A directory that delivers nothing more. -/
theorem visits_nil (hend : (fs.read ref 32).1.length < entrySize) :
    fs.Visits ref name [] (n + 1) where
  entry i hi := absurd hi (Nat.not_lt_zero i)
  result := by
    rw [findFile, findFileLoop_succ, if_neg fun h ↦ Nat.ne_of_lt hend h.1]
    rfl

/-- A directory that delivers the entry `e`, and the entries `es` behind it if the scan goes on. -/
theorem visits_cons {e : FatDirectoryEntry} {es : List FatDirectoryEntry}
    (hread : (fs.read ref 32).1 = e.bytes) (hlength : e.bytes.length = entrySize)
    (hrest : e.name 0 ≠ 0 → nameMatches name e ≠ true → (fs.read ref 32).2.Visits ref name es n) :
    fs.Visits ref name (e :: es) (n + 1) := by
  have hfirst : e.name 0 ≠ 0 → ((fs.afterEntries ref 0).readEntry ref).1 = some e := by
    intro hne
    show (fs.readEntry ref).1 = some e
    rw [readEntry]
    dsimp only
    rw [hread, if_pos ⟨hlength, hne⟩]
  have hloop := findFileLoop_succ ref name n fs
  rw [hread] at hloop
  constructor
  · rw [visited_cons]
    split
    · exact fun i hi ↦ absurd hi (Nat.not_lt_zero i)
    · next hne =>
      split
      · intro i hi
        obtain rfl : i = 0 := Nat.lt_one_iff.1 hi
        exact hfirst hne
      · next hother =>
        intro i hi
        cases i with
        | zero => exact hfirst hne
        | succ i =>
          rw [afterEntries_succ_eq]
          exact (hrest hne hother).entry i (Nat.lt_of_succ_lt_succ hi)
  · rw [findFile, hloop, firstMatch_cons, asked_cons]
    by_cases hend : e.name 0 = 0
    · rw [if_neg fun h ↦ h.2 hend, if_pos hend, if_pos hend]
      rfl
    · rw [if_pos ⟨hlength, hend⟩, if_neg hend, if_neg hend]
      by_cases hmatch : nameMatches name e = true
      · rw [if_pos hmatch, if_pos hmatch, if_pos hmatch]
        rfl
      · rw [if_neg hmatch, if_neg hmatch, if_neg hmatch, afterEntries_succ_eq]
        exact (hrest hend hmatch).result

end Visits

variable {disk : BlockDevice} {b : FatBootSector} {C : ClusterChain (diskFat disk b)}
  {fs g : Fat12FileSystem} {ref : FileRef} {name : List UInt8} {j k : ℕ}

/-! ### The sectors of the chain -/

/-- A subdirectory on the chain `C` that has just been opened. -/
structure Fresh (C : ClusterChain (diskFat disk b)) (ref : FileRef) (fs : Fat12FileSystem) : Prop
    extends Scannable disk b ref fs where
  /-- It has no size. -/
  size : (fs.fileData ref).pub.size = 0
  /-- The chain has a first cluster. -/
  length_pos : 0 < C.clusters.length
  /-- That is the current one. -/
  cluster : (fs.fileData ref).currentCluster = C.cluster 0
  /-- The current sector is its first. -/
  sector : (fs.fileData ref).currentSectorInCluster = 0
  /-- The buffer holds that sector. -/
  buffer : ∀ i < sectorSize, (fs.fileData ref).buffer i = disk.sector (C.sectorLba 0) i

/-- The walk through the sectors of the directory has come to the `k`-th sector of the chain. -/
structure OnChain (C : ClusterChain (diskFat disk b)) (ref : FileRef) (k : ℕ)
    (fs : Fat12FileSystem) : Prop where
  /-- The chain has that many sectors. -/
  lt : k / spc b < C.clusters.length
  /-- The current cluster. -/
  cluster : ((fs.sectorSteps ref k).fileData ref).currentCluster = C.cluster (k / spc b)
  /-- The current sector in it. -/
  sector : ((fs.sectorSteps ref k).fileData ref).currentSectorInCluster.toNat = k % spc b

theorem OnChain.not_end (h : OnChain C ref k fs) :
    ¬ ((fs.sectorSteps ref k).fileData ref).currentCluster ≥ 0xFFFFFFF8 := by
  have hrange := C.inRange _ (ClusterChain.cluster_mem h.lt)
  rw [ge_iff_le, UInt32.le_iff_toNat_le, h.cluster]
  simp only [UInt32.reduceToNat]
  omega

section Accepted

variable (ha : detectAccepts b = true) (h : Fresh C ref fs)

include h

theorem Fresh.onChain : OnChain C ref 0 fs where
  lt := by
    rw [Nat.zero_div]
    exact h.length_pos
  cluster := by
    rw [Nat.zero_div]
    exact h.cluster
  sector := by
    rw [Nat.zero_mod, sectorSteps, h.sector]
    rfl

include ha

/-- The sector that the scan reads there is that of the chain. -/
theorem Fresh.dirEntry_eq (hk : OnChain C ref k fs) {i : ℕ} (hi : i < 16) :
    fs.dirEntry ref k i = C.entry (16 * k + i) := by
  have hsector : ∀ m < sectorSize, fs.dirSector ref k m = disk.sector (C.sectorLba k) m := by
    intro m hm
    cases k with
    | zero => exact h.buffer m hm
    | succ k =>
      have hlba := toNat_clusterToLba_chain ha h.serves.volume hk.lt hk.cluster hk.sector
      rw [dirSector, hlba, h.serves.sector]
  rw [dirEntry, ClusterChain.entry]
  refine congrArg FatDirectoryEntry.mk (slice_congr fun m hm ↦ ?_)
  have hin : entrySize * i + m < sectorSize := by
    simp only [sectorSize, entrySize] at hm ⊢
    omega
  have hplace : entrySize * (16 * k + i) + m = sectorSize * k + (entrySize * i + m) := by
    simp only [sectorSize, entrySize]
    omega
  rw [hsector _ hin, hplace, ClusterChain.byteAt, Nat.mul_add_div (by decide),
    Nat.div_eq_of_lt hin, Nat.mul_add_mod, Nat.mod_eq_of_lt hin, Nat.add_zero]

/-- Behind the last entry of a sector comes the next sector of the chain, or the end of the chain.
-/
theorem Fresh.next_sector (hs : Scanning disk b ref fs j g) (hk : OnChain C ref (j / 16) fs)
    (hlast : j % 16 = 15) (hfaith : FaithfulSince (diskFat disk b) g (g.read ref 32).2) :
    OnChain C ref (j / 16 + 1) fs ∨ j / 16 + 1 = C.clusters.length * spc b ∧
      ((fs.sectorSteps ref (j / 16 + 1)).fileData ref).currentCluster ≥ 0xFFFFFFF8 := by
  rw [hs.read_eq h.toScannable, if_pos hlast] at hfaith
  have hframe := frame_movePosition g ref 32
  have hserves := (h.serves.of_frame hs.frame).of_frame hframe
  have hwalk : (g.movePosition ref 32).walkState ref =
      (fs.sectorSteps ref (j / 16)).walkState ref := by
    rw [← hs.walk, walkState, walkState, fileData_movePosition, fatCachePosition_movePosition]
  generalize g.movePosition ref 32 = g₁ at hfaith hframe hserves hwalk
  have hstep : (g₁.stepCounters ref).walkState ref =
      (fs.sectorSteps ref (j / 16 + 1)).walkState ref :=
    walkState_stepCounters (h.serves.of_frame (frame_sectorSteps fs ref (j / 16))) hserves hwalk
  obtain ⟨hc, hsec, -⟩ : _ ∧ _ ∧ _ := by simpa only [walkState, Prod.mk.injEq] using hwalk
  obtain ⟨hc', hsec', -⟩ : _ ∧ _ ∧ _ := by simpa only [walkState, Prod.mk.injEq] using hstep
  have htrace : (g₁.stepCounters ref).trace <:+ (g₁.advance ref).2.trace := by
    rw [advance_eq]
    dsimp only
    split
    · rw [trace_setFileData]
    · exact (frame_readSector _ _ _).trace
  obtain ⟨c, s, hfd, hcase⟩ := stepCounters_of_next ha hserves.volume hk.lt (hc.trans hk.cluster)
    ((congrArg UInt32.toNat hsec).trans hk.sector) fun hlast ↦ by
      have hrange := C.inRange _ (ClusterChain.cluster_mem hk.lt)
      rw [← hk.cluster, ← hc] at hrange
      refine FaithfulSince.nextCluster ?_ hrange
      have hlookup : (g₁.stepCounters ref).trace =
          (g₁.nextCluster (g₁.fileData ref).currentCluster).2.trace := by
        rw [stepCounters, if_pos hlast, trace_setFileData]
      exact hfaith.between hframe.trace (hlookup ▸ htrace)
  rw [hfd] at hc' hsec'
  rw [← hc']
  rcases hcase with ⟨hlt, hcluster, hsector⟩ | hend
  · exact Or.inl ⟨hlt, hc'.symm.trans hcluster, (congrArg UInt32.toNat hsec').symm.trans hsector⟩
  · exact Or.inr hend

/-- **The scan** from the `j`-th entry on. -/
theorem Fresh.visits (n : ℕ) : ∀ {j : ℕ} {g : Fat12FileSystem}, Scanning disk b ref fs j g →
    (∀ k ≤ j / 16, OnChain C ref k fs) → (visited name (C.entries.drop j)).length < n →
    FaithfulSince (diskFat disk b) g (g.findFile n ref name).2 →
    g.Visits ref name (C.entries.drop j) n := by
  induction n with
  | zero => exact fun _ _ hn ↦ absurd hn (Nat.not_lt_zero _)
  | succ n ih =>
    intro j g hs hwalk hn hfaith
    have hk := hwalk _ (Nat.le_refl _)
    have hj : j < C.clusters.length * spc b * 16 := by
      have hlt := (Nat.div_lt_iff_lt_mul (spc_pos ha)).1 hk.lt
      omega
    have hread : (g.read ref 32).1 = (C.entry j).bytes := by
      rw [hs.read_eq h.toScannable, h.dirEntry_eq ha hk (Nat.mod_lt j (by decide)), Nat.div_add_mod]
    have hlength : (C.entry j).bytes.length = entrySize := length_slice _ _ _
    rw [ClusterChain.drop_entries hj] at hn ⊢
    refine visits_cons hread hlength fun hne hother ↦ ?_
    rw [visited_cons, if_neg hne, if_neg hother, List.length_cons] at hn
    have hloop := findFileLoop_succ ref name n g
    rw [hread, if_pos ⟨hlength, hne⟩, if_neg hother] at hloop
    rw [findFile, hloop] at hfaith
    have htarget := target_of_sameFile h.target hs.same
    have hafter := frame_read_of_target htarget 32
    have hsame := sameFile_read_of_target htarget 32
    obtain ⟨hrest, -⟩ := frame_findFileLoop ref name n (target_of_sameFile htarget hsame)
    have hstep := hfaith.between (List.suffix_refl _) hrest.trace
    rcases hs.read h.toScannable with ⟨hnext, hdata⟩ | ⟨hlast, hend, hmark, hposition⟩
    · -- the next entry is in the buffer
      refine ih hnext (fun k hle ↦ ?_) (Nat.lt_of_succ_lt_succ hn)
        (hfaith.between hafter.trace (List.suffix_refl _))
      rcases Nat.lt_or_ge (j / 16) k with hgt | hle'
      · obtain rfl : k = j / 16 + 1 := by omega
        have hlast : j % 16 = 15 := by omega
        exact (h.next_sector ha hs hk hlast hstep).resolve_right fun hend ↦ hdata hlast hend.2
      · exact hwalk k hle'
    · -- the chain has come to its end
      have hall : j / 16 + 1 = C.clusters.length * spc b :=
        ((h.next_sector ha hs hk hlast hstep).resolve_left fun hon ↦ hon.not_end hend).1
      have hshort := firstEnd_lt ha h.serves
        (fun k _ hlt ↦ (hwalk k (Nat.le_of_lt_succ hlt)).not_end) hend
      have hnothing : C.entries.drop (j + 1) = [] :=
        List.drop_of_length_le (by rw [ClusterChain.length_entries]; omega)
      obtain ⟨n, rfl⟩ := Nat.exists_eq_succ_of_ne_zero (by omega : n ≠ 0)
      rw [hnothing]
      exact visits_nil (h.toScannable.length_read_of_end (hs.same.trans hsame) hmark
        (Nat.succ_pos (j / 16)) hshort (by omega))

end Accepted

/-! ### A subdirectory that has just been opened -/

theorem fresh_openEntry (ha : detectAccepts b = true) (hs : Serves disk b fs)
    {e : FatDirectoryEntry} (hdir : e.isDirectory = true) (hsize : e.size = 0)
    (hC : C.clusters.head? = some e.firstCluster) (h : fs.openEntry e = (some ref, g)) :
    Fresh C ref g := by
  have hscannable := scannable_openEntry hs hdir h
  obtain ⟨i, -, rfl, -, -⟩ := openEntry_of_some h
  obtain ⟨buffer, hbuffer, hrecord⟩ := fileData_openEntry h
  have hcovers : C.Covers e.firstCluster 0 := ⟨hC, Nat.zero_le _⟩
  have hzero : 0 / spc b < C.clusters.length := by
    rw [Nat.zero_div]
    exact hcovers.length_pos
  have hlba : (fs.clusterToLba e.firstCluster).toNat = C.sectorLba 0 := by
    have hchain := toNat_clusterToLba_chain ha hs.volume (s := 0) hzero
      (hcovers.cluster_zero.symm.trans (by rw [Nat.zero_div])) (by rw [Nat.zero_mod]; rfl)
    rwa [UInt32.add_zero] at hchain
  refine ⟨hscannable, ?_, hcovers.length_pos, ?_, ?_, fun m hm ↦ ?_⟩
  · rw [hrecord]
    exact hsize
  · rw [hrecord]
    exact hcovers.cluster_zero.symm
  · rw [hrecord]
  · rw [hrecord]
    dsimp only
    rw [hbuffer m hm, hlba, hs.sector]

/-- **Looking up a name in a subdirectory** that has just been opened, on a sound chain of any
length. With lookups in the FAT that are right, `FindFile` visits the entries of the chain in their
order, up to the terminator, the end of the chain or the first entry with the name, and returns that
entry. -/
theorem findFile_of_openEntry (ha : detectAccepts b = true) (hs : Serves disk b fs)
    {e : FatDirectoryEntry} (hdir : e.isDirectory = true) (hsize : e.size = 0)
    (hC : C.clusters.head? = some e.firstCluster) (h : fs.openEntry e = (some ref, g))
    (name : List UInt8) {n : ℕ} (hn : (visited name C.entries).length < n)
    (hfaith : FaithfulSince (diskFat disk b) g (g.findFile n ref name).2) :
    g.Visits ref name C.entries n := by
  have hfresh : Fresh C ref g := fresh_openEntry ha hs hdir hsize hC h
  refine hfresh.visits ha n (hfresh.toScannable.scanning hfresh.size) (fun k hk ↦ ?_) hn hfaith
  obtain rfl : k = 0 := Nat.le_zero.1 hk
  exact hfresh.onChain

end Fat12FileSystem

/-! ### A subdirectory of two clusters -/

open Fat12FileSystem

/-- A floppy disk with one directory, `D`, on the clusters 2 and 3. The first one is full of entries
named `AAAAAAAA.AAA`; the second one holds a file `B` and the terminator. -/
def nestedFloppy : BlockDevice where
  sector lba j :=
    if lba = 0 then floppyBoot j
    else if lba = 1 then [0xF0, 0xFF, 0xFF, 0x03, 0xF0, 0xFF].getD j 0
    else if lba = 19 then cyclicFloppy.sector 19 j
    else if lba = 34 then
      [0x42, 32, 32, 32, 32, 32, 32, 32, 32, 32, 32, 0x20, 0, 0, 0, 0, 0, 0, 0, 0, 0, 0, 0, 0, 0, 0,
        0, 0, 0, 0, 0, 0].getD j 0
    else 0x41
  outcome _ := none
  calls := 0

/-- The driver after mounting that disk. -/
def nestedFs : Fat12FileSystem := (detectAndMount nestedFloppy blankData).get (by decide)

/-- The driver when it has opened `D`. -/
def nestedOpenedFs : Fat12FileSystem :=
  (nestedFs.openEntry (rootEntry nestedFloppy nestedFs.bs 0)).2

/-- The chain of `D`. -/
def nestedChain : ClusterChain (diskFat nestedFloppy nestedFs.bs) :=
  .pair inRange_two_three (by decide) (by decide)

/-- The scan for `B` goes through the first cluster and finds its entry in the second one. -/
theorem findFile_nestedOpenedFs :
    nestedOpenedFs.Visits (.slot 0) [0x42] nestedChain.entries 20 := by
  have hdetect : detectAndMount nestedFloppy blankData = some nestedFs := by
    rw [nestedFs, Option.some_get]
  have hmount := mounted_of_detectAndMount hdetect
  refine findFile_of_openEntry hmount.accepts (hmount.serves fun _ ↦ rfl)
    (by decide : (rootEntry nestedFloppy nestedFs.bs 0).isDirectory = true) (by decide) (by decide)
    (Prod.ext (by decide) rfl) [0x42] (by decide +kernel) ?_
  exact (faithful_of_all (by decide +kernel)).since

end Aidos.Fat12
