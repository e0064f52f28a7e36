import Aidos.Fat12.Geometry
import Aidos.Fat12.Termination

/-!
# The data region of the volume

The volume has the clusters from 2 to its last one, and their sectors are its data region.
`OpenEntry` turns down the numbers 0 and 1 and those from the end marks on; `read` and `seek` only
know end marks. So what they request depends on what the FAT says.

A record is `OnVolume` when the chain of its first cluster stays inside the volume and its counters
belong to that chain, or to its end. Then, as long as the FAT lookups answer what the disk says, a
read and a seek request sectors of clusters of the volume only, and the record stays so
(`OnVolume.read`, `OnVolume.seek`). The exception is a read that goes on behind the end of the
chain, which `seek` makes possible in a directory.
-/

namespace Aidos.Fat12

/-! ### Clusters of the volume -/

/-- The volume has a cluster of this number. -/
def InVolume (b : FatBootSector) (c : UInt32) : Prop :=
  2 ≤ c.toNat ∧ dataStart b + (c.toNat - 1) * spc b ≤ b.totalSectors16.toNat

instance (b : FatBootSector) (c : UInt32) : Decidable (InVolume b c) :=
  inferInstanceAs (Decidable (_ ∧ _))

/-- A sector of a cluster of the volume. -/
def DataLba (b : FatBootSector) (lba : ℕ) : Prop :=
  ∃ c s, InVolume b c ∧ s < spc b ∧ lba = dataStart b + (c.toNat - 2) * spc b + s

/-- It lies in the data region. -/
theorem DataLba.bounds {b : FatBootSector} {lba : ℕ} (h : DataLba b lba) :
    dataStart b ≤ lba ∧ lba < b.totalSectors16.toNat := by
  obtain ⟨c, s, ⟨hlow, hhigh⟩, hs, rfl⟩ := h
  have hsucc : (c.toNat - 1) * spc b = (c.toNat - 2) * spc b + spc b := by
    rw [show c.toNat - 1 = c.toNat - 2 + 1 by omega, Nat.add_mul, Nat.one_mul]
  omega

open Fat12FileSystem in
/-- What `detect` subtracts from the total number of sectors. -/
theorem usedSectors_eq (b : FatBootSector) :
    b.reservedSectorCount.toUInt32 + b.numFats.toUInt32 * b.fatSize16.toUInt32 +
      (b.rootEntryCount.toUInt32 * 32 + (b.bytesPerSector.toUInt32 - 1)) /
        b.bytesPerSector.toUInt32 =
    rootDirLba b + rootDirSectors b := by
  rw [rootDirLba, rootDirSectors, rootDirSize, UInt32.mul_comm b.fatSize16.toUInt32,
    UInt32.mul_comm 32, UInt32.sub_eq_add_neg, UInt32.sub_eq_add_neg, UInt32.add_assoc (_ * 32)]

open Fat12FileSystem in
/-- A cluster of an accepted volume has a number below the marks for bad clusters. -/
theorem InVolume.isCluster {b : FatBootSector} (ha : detectAccepts b = true)
    (ht : b.totalSectors16 ≠ 0) {c : UInt32} (h : InVolume b c) : IsCluster c := by
  have hspc := spc_pos ha
  have hacc := ha
  simp only [detectAccepts, Bool.and_eq_true, decide_eq_true_eq, if_neg ht, usedSectors_eq] at hacc
  have hcount := UInt32.lt_iff_toNat_lt.1 hacc.2
  have hstart : rootDirLba b + rootDirSectors b ≤ b.totalSectors16.toUInt32 := by
    rw [UInt32.le_iff_toNat_le, toNat_dataSectionLba ha, UInt16.toNat_toUInt32]
    exact Nat.le_of_add_right_le h.2
  rw [UInt32.toNat_div, UInt32.toNat_sub_of_le _ _ hstart, toNat_dataSectionLba ha,
    UInt16.toNat_toUInt32, UInt8.toNat_toUInt32, ← spc] at hcount
  have hfit : c.toNat - 1 ≤ (b.totalSectors16.toNat - dataStart b) / spc b := by
    rw [Nat.le_div_iff_mul_le hspc]
    exact Nat.le_sub_of_add_le' h.2
  have hlt : c.toNat - 1 < 4085 := Nat.lt_of_le_of_lt hfit hcount
  exact ⟨h.1, by omega⟩

/-! ### Chains -/

/-- The clusters that the links of a FAT lead to from cluster `c`, up to an end mark. -/
inductive Linked (fat : ℕ → UInt8) (c : UInt32) : UInt32 → Prop
  /-- The cluster itself. -/
  | refl : Linked fat c c
  /-- One more link. -/
  | step {d : UInt32} : Linked fat c d → ¬ fatEntry fat d.toNat ≥ 0xFFFFFFF8 →
      Linked fat c (fatEntry fat d.toNat)

/-- The chain of cluster `c` does not leave the volume. -/
def StaysInVolume (fat : ℕ → UInt8) (b : FatBootSector) (c : UInt32) : Prop :=
  ∀ d, Linked fat c d → InVolume b d

/-- The lookups in a trace of clusters of the volume returned what the disk says. -/
def TrueLinks (disk : BlockDevice) (b : FatBootSector) (trace : List Event) : Prop :=
  ∀ c r, InVolume b c → Event.successor c r ∈ trace → r = fatEntry (diskFat disk b) c.toNat

theorem TrueLinks.of_events {disk : BlockDevice} {b : FatBootSector} {t evs : List Event}
    (h : TrueLinks disk b t) (hsub : evs ⊆ t) : TrueLinks disk b evs :=
  fun c r hc hmem ↦ h c r hc (hsub hmem)

/-- Events that request data sectors of the volume only. -/
def DataOnly (b : FatBootSector) (evs : List Event) : Prop :=
  ∀ lba, Event.sectorRead lba ∈ evs → DataLba b lba

theorem dataOnly_nil (b : FatBootSector) : DataOnly b [] :=
  fun _ hmem ↦ absurd hmem List.not_mem_nil

theorem DataOnly.append {b : FatBootSector} {evs evs' : List Event} (h : DataOnly b evs)
    (h' : DataOnly b evs') : DataOnly b (evs ++ evs') :=
  fun lba hmem ↦ (List.mem_append.1 hmem).elim (h lba) (h' lba)

theorem DataOnly.cons {b : FatBootSector} {evs : List Event} (h : DataOnly b evs) {lba : ℕ}
    (hlba : DataLba b lba) : DataOnly b (.sectorRead lba :: evs) := by
  intro lba' hmem
  rcases List.mem_cons.1 hmem with heq | hmem
  · obtain rfl := Event.sectorRead.inj heq
    exact hlba
  · exact h lba' hmem

theorem dataOnly_of_noData {b : FatBootSector} {evs : List Event}
    (h : ∀ lba, Event.sectorRead lba ∉ evs) : DataOnly b evs :=
  fun lba hmem ↦ absurd hmem (h lba)

/-- A chain of true lookups follows the links of the disk. -/
theorem Links.linked {disk : BlockDevice} {b : FatBootSector} {c d : UInt32} {k : ℕ}
    {evs : List Event}
    (h : Links c k evs d) (hc : StaysInVolume (diskFat disk b) b c) (htrue : TrueLinks disk b evs) :
    Linked (diskFat disk b) c d := by
  induction h with
  | nil => exact .refl
  | snoc _ hlook hdata ih =>
    have hlinked := ih (htrue.of_events (List.subset_append_right _ _))
    have hanswer :=
      htrue _ _ (hc _ hlinked) (List.mem_append_left _ ((hlook.answer _ _).2 ⟨rfl, rfl⟩))
    rw [hanswer] at hdata ⊢
    exact hlinked.step hdata

namespace Fat12FileSystem

/-! ### Records on the volume -/

/-- **A record on the volume**: its chain stays there, and its counters belong to the chain, or to
its end. -/
structure OnVolume (disk : BlockDevice) (b : FatBootSector) (fd : FatFileData) : Prop where
  /-- The chain of its first cluster stays in the volume. -/
  chain : StaysInVolume (diskFat disk b) b fd.firstCluster
  /-- The current cluster is on it, or is an end mark. -/
  current : Linked (diskFat disk b) fd.firstCluster fd.currentCluster ∨
    fd.currentCluster ≥ 0xFFFFFFF8
  /-- The current sector is in the cluster. -/
  sector : fd.currentSectorInCluster.toNat < spc b

theorem OnVolume.of_eq {disk : BlockDevice} {b : FatBootSector} {fd fd' : FatFileData}
    (h : OnVolume disk b fd) (hfirst : fd'.firstCluster = fd.firstCluster)
    (hcluster : fd'.currentCluster = fd.currentCluster)
    (hsector : fd'.currentSectorInCluster = fd.currentSectorInCluster) : OnVolume disk b fd' := by
  refine ⟨?_, ?_, ?_⟩
  · rw [hfirst]
    exact h.chain
  · rw [hfirst, hcluster]
    exact h.current
  · rw [hsector]
    exact h.sector

/-- What a read of `n` bytes goes for. -/
def readCount (fd : FatFileData) (n : UInt32) : UInt32 :=
  if !fd.pub.isDirectory || fd.pub.isDirectory && fd.pub.size != 0 then
    min n (fd.pub.size - fd.pub.position)
  else n

/-- A read uses up the buffer of a record that stands behind the end of its chain: on an end mark,
and on the last sector of that. -/
def ReadsPastEnd (fs : Fat12FileSystem) (file : FileRef) (n : UInt32) : Prop :=
  let fd := fs.fileData (fs.target file)
  fd.currentCluster ≥ 0xFFFFFFF8 ∧ spc fs.bs ≤ fd.currentSectorInCluster.toNat + 1 ∧
    512 ≤ fd.pub.position.toNat % 512 + (readCount fd n).toNat

instance (fs : Fat12FileSystem) (file : FileRef) (n : UInt32) :
    Decidable (fs.ReadsPastEnd file n) :=
  inferInstanceAs (Decidable (_ ∧ _ ∧ _))

/-- `OpenEntry` lets the first cluster of the entry through. -/
def Accepts (e : FatDirectoryEntry) : Prop := ¬ (e.firstCluster < 2 ∨ e.firstCluster ≥ 0xFF8)

instance (e : FatDirectoryEntry) : Decidable (Accepts e) := inferInstanceAs (Decidable (¬ _))

variable {disk : BlockDevice} {b : FatBootSector} {fs fs' : Fat12FileSystem} {ref file : FileRef}

section Steps

variable (ha : detectAccepts b = true) (ht : b.totalSectors16 ≠ 0)

include ha ht

/-- The address computed for a sector of a cluster of the volume. -/
theorem Volume.dataLba (hv : Volume disk b fs) {c s : UInt32} (hc : InVolume b c)
    (hs : s.toNat < spc b) :
    DataLba b (fs.clusterToLba c + s).toNat :=
  ⟨c, s.toNat, hc, hs, hv.toNat_clusterToLba ha (hc.isCluster ha ht) hs⟩

/-- **The end of an iteration of `read`** keeps to the volume, unless the record stands behind the
end of its chain. -/
theorem OnVolume.advance (hv : Volume disk b fs) (h : OnVolume disk b (fs.fileData ref))
    (hgo : (fs.fileData ref).currentCluster ≥ 0xFFFFFFF8 →
      (fs.fileData ref).currentSectorInCluster.toNat + 1 < spc b)
    (htrue : TrueLinks disk b (fs.advance ref).2.trace) :
    ∃ evs, (fs.advance ref).2.trace = evs ++ fs.trace ∧ DataOnly b evs ∧
      OnVolume disk b ((fs.advance ref).2.fileData ref) ∧
      ((fs.advance ref).1 = true →
        ¬ ((fs.advance ref).2.fileData ref).currentCluster ≥ 0xFFFFFFF8) := by
  have hfirst := (sameFile_advance fs ref).firstCluster
  have hspc := spc_lt b
  have hsector := h.sector
  have hsucc : ((fs.fileData ref).currentSectorInCluster + 1).toNat =
      (fs.fileData ref).currentSectorInCluster.toNat + 1 := by
    rw [UInt32.toNat_add]
    simp only [UInt32.reduceToNat]
    omega
  obtain ⟨look, c, s, hc, hs, hstep, hrequest⟩ := advance_cases fs ref
  -- where the counters are now
  obtain ⟨hlook, hcurrent, hs'⟩ : DataOnly b look ∧
      (Linked (diskFat disk b) (fs.fileData ref).firstCluster c ∨ c ≥ 0xFFFFFFF8) ∧
        s.toNat < spc b := by
    rcases hstep with ⟨hstay, rfl, rfl, rfl⟩ | ⟨hlast, hlook, -, rfl⟩
    · rw [ge_iff_le, UInt32.le_iff_toNat_le, hsucc, hv.toNat_sectorsPerCluster] at hstay
      refine ⟨dataOnly_nil b, h.current, ?_⟩
      rw [hsucc]
      exact Nat.lt_of_not_ge hstay
    · rw [ge_iff_le, UInt32.le_iff_toNat_le, hsucc, hv.toNat_sectorsPerCluster] at hlast
      have hlinked := h.current.resolve_right fun hend ↦ absurd (hgo hend) (Nat.not_lt.2 hlast)
      have hdata : ¬ c ≥ 0xFFFFFFF8 → Linked (diskFat disk b) (fs.fileData ref).firstCluster c := by
        intro hnot
        have htrace := (hrequest.resolve_left fun hend ↦ hnot hend.1).2
        have hanswer := htrue _ _ (h.chain _ hlinked) (by
          rw [htrace]
          exact List.mem_cons_of_mem _ (List.mem_append_left _ ((hlook.answer _ _).2 ⟨rfl, rfl⟩)))
        rw [hanswer] at hnot ⊢
        exact hlinked.step hnot
      refine ⟨dataOnly_of_noData hlook.noData, ?_, spc_pos ha⟩
      by_cases hend : c ≥ 0xFFFFFFF8
      · exact Or.inr hend
      · exact Or.inl (hdata hend)
  have hplace : OnVolume disk b ((fs.advance ref).2.fileData ref) := by
    refine ⟨?_, ?_, ?_⟩
    · rw [hfirst]
      exact h.chain
    · rw [hfirst, hc]
      exact hcurrent
    · rw [hs]
      exact hs'
  rcases hrequest with ⟨-, hstop, htrace⟩ | ⟨hdata, htrace⟩
  · exact ⟨look, htrace, hlook, hplace, fun hgo ↦ absurd (hstop.symm.trans hgo) (by simp)⟩
  · have hlba := hv.dataLba ha ht (h.chain _ (hcurrent.resolve_right hdata)) hs'
    exact ⟨_, htrace, hlook.cons hlba, hplace, fun _ ↦ by rwa [hc]⟩

/-- **`read` keeps to the volume.** -/
theorem OnVolume.read (hv : Volume disk b fs) (h : OnVolume disk b (fs.fileData (fs.target file)))
    {n : UInt32} (hgo : ¬ fs.ReadsPastEnd file n)
    (htrue : TrueLinks disk b (fs.read file n).2.trace) :
    ∃ evs, (fs.read file n).2.trace = evs ++ fs.trace ∧ DataOnly b evs ∧
      OnVolume disk b ((fs.read file n).2.fileData (fs.target file)) := by
  by_cases hopened : (fs.fileData (fs.target file)).opened = true
  swap
  · rw [Fat12FileSystem.read]
    dsimp only
    rw [if_neg hopened]
    exact ⟨[], rfl, dataOnly_nil b, h⟩
  have heq : fs.read file n = readLoop (fs.target file)
      (readCount (fs.fileData (fs.target file)) n).toNat
      (readCount (fs.fileData (fs.target file)) n) [] fs := by
    rw [Fat12FileSystem.read]
    dsimp only
    rw [if_pos hopened]
    rfl
  rw [ReadsPastEnd, hv.bs] at hgo
  rw [heq] at htrue ⊢
  generalize fs.target file = ref at h hgo htrue ⊢
  generalize readCount (fs.fileData ref) n = count at hgo htrue ⊢
  by_cases hbehind : (fs.fileData ref).currentCluster ≥ 0xFFFFFFF8 ∧
      spc b ≤ (fs.fileData ref).currentSectorInCluster.toNat + 1
  · -- the buffer is not used up
    rcases Nat.eq_zero_or_pos count.toNat with hzero | hpos
    · rw [readLoop_of_eq_zero hzero]
      exact ⟨[], rfl, dataOnly_nil b, h⟩
    · obtain ⟨fuel, hfuel⟩ := Nat.exists_eq_succ_of_ne_zero hpos.ne'
      have hlt : (fs.fileData ref).pub.position.toNat % 512 + count.toNat < 512 :=
        Nat.lt_of_not_ge fun hge ↦ hgo ⟨hbehind.1, hbehind.2, hge⟩
      rw [hfuel, readLoop_of_lt hpos rfl hlt]
      refine ⟨[], trace_movePosition _ _ _, dataOnly_nil b, ?_⟩
      dsimp only
      rw [fileData_movePosition]
      exact h.of_eq rfl rfl rfl
  · have hplace : (fs.fileData ref).currentCluster ≥ 0xFFFFFFF8 →
        (fs.fileData ref).currentSectorInCluster.toNat + 1 < spc b :=
      fun hend ↦ Nat.lt_of_not_ge fun hge ↦ hbehind ⟨hend, hge⟩
    have hrule := readLoop_rule ref
      (fun g ↦ Volume disk b g ∧ OnVolume disk b (g.fileData ref) ∧
        ((g.fileData ref).currentCluster ≥ 0xFFFFFFF8 →
          (g.fileData ref).currentSectorInCluster.toNat + 1 < spc b) ∧
        ∃ evs, g.trace = evs ++ fs.trace ∧ DataOnly b evs)
      (fun g ↦ OnVolume disk b (g.fileData ref) ∧ ∃ evs, g.trace = evs ++ fs.trace ∧ DataOnly b evs)
      (readLoop ref count.toNat count [] fs).2.trace
      (fun {g} t hI ↦ by
        obtain ⟨hv', h', hplace', hevs⟩ := hI
        refine ⟨hv'.of_frame (frame_movePosition _ _ _), ?_, ?_, ?_⟩
        · rw [fileData_movePosition]
          exact h'.of_eq rfl rfl rfl
        · rw [fileData_movePosition]
          exact hplace'
        · rwa [trace_movePosition])
      (fun {g} hI hsub ↦ by
        obtain ⟨hv', h', hplace', evs, htrace, hevs⟩ := hI
        obtain ⟨evs', htrace', hevs', hnext, hdata⟩ :=
          h'.advance ha ht hv' hplace' (htrue.of_events hsub.subset)
        have hall : ∃ evs, (g.advance ref).2.trace = evs ++ fs.trace ∧ DataOnly b evs := by
          refine ⟨evs' ++ evs, ?_, hevs'.append hevs⟩
          rw [htrace', htrace, List.append_assoc]
        exact ⟨fun hgo ↦ ⟨hv'.of_frame (frame_advance _ _), hnext,
          fun hend ↦ absurd hend (hdata hgo), hall⟩, fun _ ↦ ⟨hnext, hall⟩⟩)
      count.toNat [] (n := count) ⟨hv, h, hplace, [], rfl, dataOnly_nil b⟩ (List.suffix_refl _)
    rcases hrule with ⟨-, hend, -, evs, htrace, hevs⟩ | ⟨hend, evs, htrace, hevs⟩
    · exact ⟨evs, htrace, hevs, hend⟩
    · exact ⟨evs, htrace, hevs, hend⟩

/-- **`seek` keeps to the volume.** -/
theorem OnVolume.seek (hv : Volume disk b fs) (h : OnVolume disk b (fs.fileData (fs.target file)))
    {position : UInt32} (htrue : TrueLinks disk b (fs.seek file position).2.trace) :
    ∃ evs, (fs.seek file position).2.trace = evs ++ fs.trace ∧ DataOnly b evs ∧
      OnVolume disk b ((fs.seek file position).2.fileData (fs.target file)) := by
  have hspc := spc_pos ha
  have hfirst := (sameFile_seek fs file position).firstCluster
  have hcases := seek_cases fs (by rw [hv.bs]; exact hspc) file position
  rw [hv.bs] at hcases
  rcases hcases with ⟨evs, htrace, hnodata, hcluster, hsector⟩ |
    ⟨c, o, look, hlinks, ho, htrace, hcluster, hsector⟩
  · exact ⟨evs, htrace, dataOnly_of_noData hnodata, h.of_eq hfirst hcluster hsector⟩
  · have hlinked : Linked (diskFat disk b) (fs.fileData (fs.target file)).firstCluster c := by
      refine hlinks.linked h.chain (htrue.of_events ?_)
      rw [htrace]
      exact fun ev hmem ↦ List.mem_cons_of_mem _ (List.mem_append_left _ hmem)
    have hin : (o / 512).toNat < spc b := by
      have hlt := Nat.mod_lt position.toNat (Nat.mul_pos hspc (by decide : 0 < sectorSize))
      rw [UInt32.toNat_div, ho, Nat.div_lt_iff_lt_mul (by decide)]
      exact hlt
    refine ⟨_, htrace, (dataOnly_of_noData hlinks.noData).cons
      (hv.dataLba ha ht (h.chain _ hlinked) hin), ?_, ?_, ?_⟩
    · rw [hfirst]
      exact h.chain
    · rw [hfirst, hcluster]
      exact Or.inl hlinked
    · rw [hsector]
      exact hin

/-- **`OpenEntry` keeps to the volume**, if the chain of what it opens does. -/
theorem onVolume_openEntry (hv : Volume disk b fs) {e : FatDirectoryEntry}
    (hchain : Accepts e → StaysInVolume (diskFat disk b) b e.firstCluster) :
    ∃ evs, (fs.openEntry e).2.trace = evs ++ fs.trace ∧ DataOnly b evs ∧
      ∀ file, (fs.openEntry e).1 = some file →
        OnVolume disk b ((fs.openEntry e).2.fileData file) := by
  rcases hfree : fs.freeHandle with - | i
  · rw [openEntry, hfree]
    exact ⟨[], rfl, dataOnly_nil b, fun file hnone ↦ absurd hnone (by simp)⟩
  have hfill : (fs.fillSlot i e).trace = fs.trace := trace_setFileData
  by_cases haccepts : Accepts e
  · have hstays := hchain haccepts
    have hfill' : Volume disk b (fs.fillSlot i e) := hv.of_frame (frame_setFileData _ _ _)
    have hlba := hfill'.dataLba ha ht (s := 0) (hstays _ .refl) (spc_pos ha)
    rw [UInt32.add_zero] at hlba
    have hread := trace_readSector (fs.fillSlot i e) (.slot i)
      ((fs.fillSlot i e).clusterToLba e.firstCluster)
    rw [hfill] at hread
    refine ⟨[_], ?_, (dataOnly_nil b).cons hlba, fun file hfile ↦ ?_⟩
    · rw [openEntry_of_freeHandle hfree, if_neg haccepts]
      split
      · next h =>
        rw [h] at hread
        exact hread
      · next h =>
        rw [h] at hread
        exact trace_setFileData.trans hread
    · obtain ⟨j, -, rfl, -, -⟩ := openEntry_of_some (Prod.ext hfile rfl)
      obtain ⟨buffer, -, hrecord⟩ := fileData_openEntry (Prod.ext hfile rfl)
      rw [hrecord]
      exact ⟨hstays, Or.inl .refl, spc_pos ha⟩
  · rw [openEntry_of_freeHandle hfree, if_pos (Classical.not_not.1 haccepts)]
    exact ⟨[], hfill, dataOnly_nil b, fun file hnone ↦ absurd hnone (by simp)⟩

end Steps

end Fat12FileSystem

end Aidos.Fat12
