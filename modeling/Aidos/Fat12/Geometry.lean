import Aidos.Fat12.Requests

/-!
# The geometry of the volume

The boot sector describes the volume in units of `bytes_per_sector`. `detect` and `initialize` count
in them; the device, and with it `read`, `seek` and `NextCluster`, counts in sectors of 512 bytes.

`FetchesAsDefined` says that the requests of the driver are for the bytes that the boot sector
means: the FAT and the clusters at their offsets, a cluster from its first byte to its length, and
then the first byte of its successor. `fetchesAsDefined_iff` says that a mounted driver does so
exactly when the two units agree.
-/

namespace Aidos.Fat12

/-! ### What the boot sector defines -/

section Layout

variable (b : FatBootSector)

/-- The byte offset of cluster `c`. -/
def clusterOffset (c : UInt32) : ℕ := (dataStart b + (c.toNat - 2) * spc b) * b.bytesPerSector.toNat

/-- The length of a cluster in bytes. -/
def clusterLength : ℕ := spc b * b.bytesPerSector.toNat

/-- The requests, newest first, of a reader that goes on from sector `s` of cluster `c`, in device
sectors: through the bytes of a cluster, and from its end to the first byte of its successor. -/
inductive Walk (c : UInt32) (s : ℕ) : List Event → UInt32 → ℕ → Prop
  /-- Nothing is requested yet. -/
  | start : Walk c s [] c s
  /-- The next sector of the cluster. -/
  | next {evs : List Event} {d : UInt32} {t lba : ℕ} : Walk c s evs d t →
      (t + 1) * sectorSize < clusterLength b →
      lba * sectorSize = clusterOffset b d + (t + 1) * sectorSize →
      Walk c s (.sectorRead lba :: evs) d (t + 1)
  /-- The first sector of the successor. -/
  | link {evs look : List Event} {d r : UInt32} {t lba : ℕ} : Walk c s evs d t →
      clusterLength b ≤ (t + 1) * sectorSize → LooksUp d r look →
      lba * sectorSize = clusterOffset b r → Walk c s (.sectorRead lba :: (look ++ evs)) r 0
  /-- The end of the chain. -/
  | stop {evs look : List Event} {d r : UInt32} {t : ℕ} : Walk c s evs d t →
      clusterLength b ≤ (t + 1) * sectorSize → LooksUp d r look → r ≥ 0xFFFFFFF8 →
      Walk c s (look ++ evs) r 0

end Layout

/-- A number that a cluster of a volume can have. -/
def IsCluster (c : UInt32) : Prop := 2 ≤ c.toNat ∧ c.toNat ≤ 0xFF7

instance (c : UInt32) : Decidable (IsCluster c) := inferInstanceAs (Decidable (_ ∧ _))

/-- Links lead from clusters to clusters, if no answer is 0 or 1. -/
theorem Links.isCluster {c d : UInt32} {k : ℕ} {evs : List Event} (h : Links c k evs d)
    (hc : IsCluster c) (hlinks : ∀ c r, Event.successor c r ∈ evs → 2 ≤ r.toNat) : IsCluster d := by
  cases h with
  | nil => exact hc
  | snoc _ hlook hdata =>
    have hmem := (hlook.answer _ _).2 ⟨rfl, rfl⟩
    exact ⟨hlinks _ _ (List.mem_append_left _ hmem),
      Nat.le_of_lt_succ (hlook.range.resolve_right hdata)⟩

namespace Fat12FileSystem

/-- **The driver fetches what the boot sector defines**, in the state `fs`: whatever it is asked for
next, its requests are for the FAT and for the clusters at their byte offsets. -/
structure FetchesAsDefined (fs : Fat12FileSystem) : Prop where
  /-- `NextCluster` requests the FAT from the sector of the entry on. -/
  nextCluster : ∀ c, c.toNat ≤ 0xFF7 → ∀ evs, (fs.nextCluster c).2.trace = evs ++ fs.trace →
    ∀ lba, Event.fatRead lba ∈ evs → lba * sectorSize =
      fatOffset fs.bs + (c.toNat + c.toNat / 2) / sectorSize * sectorSize
  /-- `OpenEntry` requests the start of the first cluster. -/
  openEntry : ∀ e, IsCluster e.firstCluster → ∀ evs, (fs.openEntry e).2.trace = evs ++ fs.trace →
    ∀ lba, Event.sectorRead lba ∈ evs → lba * sectorSize = clusterOffset fs.bs e.firstCluster
  /-- `read` goes on from where the record stands, as long as the FAT gives clusters. -/
  read : ∀ file n evs, (fs.read file n).2.trace = evs ++ fs.trace →
    IsCluster (fs.fileData (fs.target file)).currentCluster →
    (fs.fileData (fs.target file)).currentSectorInCluster.toNat * sectorSize < clusterLength fs.bs →
    (∀ c r, Event.successor c r ∈ evs → 2 ≤ r.toNat) →
    ∃ c s, Walk fs.bs (fs.fileData (fs.target file)).currentCluster
      (fs.fileData (fs.target file)).currentSectorInCluster.toNat evs c s
  /-- `seek` requests the sector of the position in the cluster of the position. -/
  seek : ∀ file position evs, (fs.seek file position).2.trace = evs ++ fs.trace →
    IsCluster (fs.fileData (fs.target file)).firstCluster →
    (∀ c r, Event.successor c r ∈ evs → 2 ≤ r.toNat) →
    ∀ lba, Event.sectorRead lba ∈ evs → ∃ c look,
      Links (fs.fileData (fs.target file)).firstCluster
        (position.toNat / clusterLength fs.bs) look c ∧
        evs = .sectorRead lba :: look ∧
        lba * sectorSize = clusterOffset fs.bs c +
          position.toNat % clusterLength fs.bs / sectorSize * sectorSize

section Sectors

variable {disk : BlockDevice} {b : FatBootSector} {fs : Fat12FileSystem} {ref : FileRef}
  (ha : detectAccepts b = true) (hb : b.bytesPerSector.toNat = sectorSize)

/-! ### Units of 512 bytes -/

include hb in
theorem clusterLength_eq : clusterLength b = spc b * sectorSize := by rw [clusterLength, hb]

include ha hb

/-- A sector of a cluster is requested at its byte offset. -/
theorem Volume.lba_mul (h : Volume disk b fs) {c s : UInt32} (hc : IsCluster c)
    (hs : s.toNat * sectorSize < clusterLength b) :
    (fs.clusterToLba c + s).toNat * sectorSize = clusterOffset b c + s.toNat * sectorSize := by
  rw [clusterLength_eq hb] at hs
  have hlt : s.toNat < spc b := Nat.lt_of_mul_lt_mul_right hs
  rw [h.toNat_clusterToLba ha hc hlt, clusterOffset, hb, Nat.add_mul]

/-- Its first sector. -/
theorem Volume.lba_mul_zero (h : Volume disk b fs) {c : UInt32} (hc : IsCluster c) :
    (fs.clusterToLba c).toNat * sectorSize = clusterOffset b c := by
  have hpos : (0 : UInt32).toNat * sectorSize < clusterLength b := by
    rw [clusterLength_eq hb]
    exact Nat.mul_lt_mul_of_pos_right (spc_pos ha) (by decide)
  have hlba := h.lba_mul ha hb hc hpos
  rwa [UInt32.add_zero, UInt32.toNat_zero, Nat.zero_mul, Nat.add_zero] at hlba

omit ha in
/-- A window of the FAT is requested at its byte offset. -/
theorem fatLba_mul (hv : Volume disk b fs) {c : UInt32}
    (hc : c.toNat ≤ 0xFF7) {evs : List Event} (hevs : (fs.nextCluster c).2.trace = evs ++ fs.trace)
    {lba : ℕ} (hmem : Event.fatRead lba ∈ evs) :
    lba * sectorSize = fatOffset b + (c.toNat + c.toNat / 2) / sectorSize * sectorSize := by
  have hsector : (c * 3 / 2 / 512).toNat = (c.toNat + c.toNat / 2) / sectorSize := by
    rw [UInt32.toNat_div, toNat_fatIndex (by omega)]
    rfl
  have hlba : lba = b.reservedSectorCount.toNat + (c.toNat + c.toNat / 2) / sectorSize := by
    rw [nextCluster_trace, ensureWindow] at hevs
    split at hevs
    · obtain rfl : [_, _, _, _] = evs := List.append_cancel_right hevs
      simp only [List.mem_cons, reduceCtorEq, Event.fatRead.injEq, List.not_mem_nil, or_false,
        false_or] at hmem
      rw [hmem, toNat_fatLba fs (fatIndexSector_lt c), hsector, hv.bs]
    · obtain rfl : [_, _, _] = evs := List.append_cancel_right hevs
      simp at hmem
  rw [hlba, fatOffset, hb, Nat.add_mul]

/-- `OpenEntry` requests the start of the first cluster. -/
theorem openEntry_request (hv : Volume disk b fs) {e : FatDirectoryEntry}
    (he : IsCluster e.firstCluster) {evs : List Event}
    (hevs : (fs.openEntry e).2.trace = evs ++ fs.trace) {lba : ℕ}
    (hmem : Event.sectorRead lba ∈ evs) : lba * sectorSize = clusterOffset b e.firstCluster := by
  rcases hfree : fs.freeHandle with - | i
  · rw [openEntry, hfree] at hevs
    obtain rfl : [] = evs := List.append_cancel_right hevs
    exact absurd hmem List.not_mem_nil
  · have hfill := hv.of_frame (frame_setFileData fs (.slot i) _ : Frame _ fs (fs.fillSlot i e))
    have hfill_trace : (fs.fillSlot i e).trace = fs.trace := trace_setFileData
    have htrace : (fs.openEntry e).2.trace =
        [.sectorRead ((fs.fillSlot i e).clusterToLba e.firstCluster).toNat] ++ fs.trace ∨
          (fs.openEntry e).2.trace = [] ++ fs.trace := by
      rw [openEntry_of_freeHandle hfree]
      have hread := trace_readSector (fs.fillSlot i e) (.slot i)
        ((fs.fillSlot i e).clusterToLba e.firstCluster)
      rw [hfill_trace] at hread
      split
      · exact Or.inr hfill_trace
      · left
        split
        · next h =>
          rw [h] at hread
          exact hread
        · next h =>
          rw [h] at hread
          exact trace_setFileData.trans hread
    rcases htrace with htrace | htrace
    · rw [htrace] at hevs
      obtain rfl := List.append_cancel_right hevs
      obtain rfl := Event.sectorRead.inj (List.mem_singleton.1 hmem)
      exact hfill.lba_mul_zero ha hb he
    · rw [htrace] at hevs
      obtain rfl := List.append_cancel_right hevs
      exact absurd hmem List.not_mem_nil

/-- The end of an iteration of `read` takes the walk one step further, or ends it. -/
theorem walk_advance (hv : Volume disk b fs) {c₀ : UInt32} {s₀ : ℕ} {evs evs' before : List Event}
    (htrace : fs.trace = evs ++ before)
    (hwalk : Walk b c₀ s₀ evs (fs.fileData ref).currentCluster
      (fs.fileData ref).currentSectorInCluster.toNat)
    (hc : IsCluster (fs.fileData ref).currentCluster)
    (hs : (fs.fileData ref).currentSectorInCluster.toNat * sectorSize < clusterLength b)
    (hsub : (fs.advance ref).2.trace <:+ evs' ++ before)
    (hlinks : ∀ c r, Event.successor c r ∈ evs' → 2 ≤ r.toNat) :
    ∃ more, (fs.advance ref).2.trace = more ++ before ∧
      Walk b c₀ s₀ more ((fs.advance ref).2.fileData ref).currentCluster
        ((fs.advance ref).2.fileData ref).currentSectorInCluster.toNat ∧
      ((fs.advance ref).1 = true → IsCluster ((fs.advance ref).2.fileData ref).currentCluster ∧
        ((fs.advance ref).2.fileData ref).currentSectorInCluster.toNat * sectorSize <
          clusterLength b) := by
  have hlen := clusterLength_eq hb
  have hspc := spc_pos ha
  have hspc' := spc_lt b
  rw [hlen] at hs
  have hlt : (fs.fileData ref).currentSectorInCluster.toNat < spc b := Nat.lt_of_mul_lt_mul_right hs
  have hsucc : ((fs.fileData ref).currentSectorInCluster + 1).toNat =
      (fs.fileData ref).currentSectorInCluster.toNat + 1 := by
    rw [UInt32.toNat_add]
    simp only [UInt32.reduceToNat]
    omega
  have hdata : ¬ (fs.fileData ref).currentCluster ≥ 0xFFFFFFF8 := fun hend ↦ by
    have hle := UInt32.le_iff_toNat_le.1 hend
    have hhigh := hc.2
    simp only [UInt32.reduceToNat] at hle
    omega
  obtain ⟨look, c, s, hcluster, hsector, hstep, hrequest⟩ := advance_cases fs ref
  rw [hcluster, hsector]
  rcases hstep with ⟨hstay, rfl, rfl, rfl⟩ | ⟨hlast, hlook, -, rfl⟩
  · -- the next sector of the cluster
    rw [ge_iff_le, UInt32.le_iff_toNat_le, hsucc, hv.toNat_sectorsPerCluster] at hstay
    have hnext : ((fs.fileData ref).currentSectorInCluster + 1).toNat * sectorSize <
        clusterLength b := by
      rw [hsucc, hlen]
      exact Nat.mul_lt_mul_of_pos_right (Nat.lt_of_not_ge hstay) (by decide)
    obtain ⟨lba, hlba, htrace'⟩ :
        ∃ lba, lba * sectorSize = clusterOffset b (fs.fileData ref).currentCluster +
        ((fs.fileData ref).currentSectorInCluster + 1).toNat * sectorSize ∧
        (fs.advance ref).2.trace = .sectorRead lba :: fs.trace :=
      ⟨_, hv.lba_mul ha hb hc hnext, (hrequest.resolve_left fun hend ↦ hdata hend.1).2⟩
    refine ⟨.sectorRead lba :: evs, ?_, ?_, fun _ ↦ ⟨hc, hnext⟩⟩
    · rw [htrace', htrace]
      rfl
    · rw [hsucc] at hnext hlba ⊢
      exact hwalk.next hnext hlba
  · -- the successor
    rw [ge_iff_le, UInt32.le_iff_toNat_le, hsucc, hv.toNat_sectorsPerCluster] at hlast
    have hend : clusterLength b ≤ ((fs.fileData ref).currentSectorInCluster.toNat + 1) *
        sectorSize := by
      rw [hlen]
      exact Nat.mul_le_mul_right _ hlast
    rcases hrequest with ⟨hmark, hstop, htrace'⟩ | ⟨hnot, htrace'⟩
    · refine ⟨look ++ evs, ?_, hwalk.stop hend hlook hmark, fun hgo ↦ ?_⟩
      · rw [htrace', htrace, List.append_assoc]
      · exact absurd (hstop.symm.trans hgo) (by simp)
    · have hlow : 2 ≤ c.toNat := by
        obtain ⟨older, holder⟩ := hsub
        rw [htrace', htrace, ← List.append_assoc look, ← List.cons_append,
          ← List.append_assoc] at holder
        refine hlinks (fs.fileData ref).currentCluster c ?_
        rw [← List.append_cancel_right holder]
        exact List.mem_append_right _ (List.mem_cons_of_mem _
          (List.mem_append_left _ ((hlook.answer _ _).2 ⟨rfl, rfl⟩)))
      have hcl : IsCluster c := ⟨hlow, Nat.le_of_lt_succ (hlook.range.resolve_right hnot)⟩
      have hpos : (0 : UInt32).toNat * sectorSize < clusterLength b := by
        rw [hlen]
        exact Nat.mul_lt_mul_of_pos_right hspc (by decide)
      have hlba : (fs.clusterToLba c + 0).toNat * sectorSize = clusterOffset b c := by
        rw [UInt32.add_zero]
        exact hv.lba_mul_zero ha hb hcl
      refine ⟨_, ?_, hwalk.link hend hlook hlba, fun _ ↦ ⟨hcl, hpos⟩⟩
      rw [htrace', htrace, List.cons_append, List.append_assoc]

/-- `read` requests what a reader of the volume would. -/
theorem read_requests (hv : Volume disk b fs) {file : FileRef} {n : UInt32} {evs : List Event}
    (hevs : (fs.read file n).2.trace = evs ++ fs.trace)
    (hc : IsCluster (fs.fileData (fs.target file)).currentCluster)
    (hs : (fs.fileData (fs.target file)).currentSectorInCluster.toNat * sectorSize <
      clusterLength b)
    (hlinks : ∀ c r, Event.successor c r ∈ evs → 2 ≤ r.toNat) :
    ∃ c s, Walk b (fs.fileData (fs.target file)).currentCluster
      (fs.fileData (fs.target file)).currentSectorInCluster.toNat evs c s := by
  rcases exists_read_eq fs file n with hnone | ⟨count, hloop⟩
  · rw [hnone] at hevs
    obtain rfl : [] = evs := List.append_cancel_right hevs
    exact ⟨_, _, Walk.start⟩
  rw [hloop] at hevs
  generalize fs.target file = ref at hc hs hevs ⊢
  have hrule := readLoop_rule ref
    (fun fs' ↦ Volume disk b fs' ∧ IsCluster (fs'.fileData ref).currentCluster ∧
      (fs'.fileData ref).currentSectorInCluster.toNat * sectorSize < clusterLength b ∧
      ∃ more, fs'.trace = more ++ fs.trace ∧
        Walk b (fs.fileData ref).currentCluster (fs.fileData ref).currentSectorInCluster.toNat more
          (fs'.fileData ref).currentCluster (fs'.fileData ref).currentSectorInCluster.toNat)
    (fun fs' ↦ ∃ more c s, fs'.trace = more ++ fs.trace ∧
        Walk b (fs.fileData ref).currentCluster
          (fs.fileData ref).currentSectorInCluster.toNat more c s)
    (evs ++ fs.trace)
    (fun {fs'} t ⟨hv', hc', hs', more, htrace, hwalk⟩ ↦ by
      refine ⟨hv'.of_frame (frame_movePosition _ _ _), ?_, ?_, more, ?_, ?_⟩
      · rw [fileData_movePosition]
        exact hc'
      · rw [fileData_movePosition]
        exact hs'
      · rw [trace_movePosition, htrace]
      · rw [fileData_movePosition]
        exact hwalk)
    (fun {fs'} ⟨hv', hc', hs', more, htrace, hwalk⟩ hsub ↦ by
      obtain ⟨more', htrace', hwalk', hplace⟩ :=
        walk_advance ha hb hv' htrace hwalk hc' hs' hsub hlinks
      exact ⟨fun hgo ↦ ⟨hv'.of_frame (frame_advance _ _), (hplace hgo).1, (hplace hgo).2, more',
        htrace', hwalk'⟩, fun _ ↦ ⟨more', _, _, htrace', hwalk'⟩⟩)
    count.toNat [] (n := count) ⟨hv, hc, hs, [], rfl, Walk.start⟩ (by rw [hevs])
  obtain ⟨more, c, s, htrace, hwalk⟩ : ∃ more c s,
      (readLoop ref count.toNat count [] fs).2.trace = more ++ fs.trace ∧
        Walk b (fs.fileData ref).currentCluster (fs.fileData ref).currentSectorInCluster.toNat
          more c s := by
    rcases hrule with ⟨-, -, -, more, htrace, hwalk⟩ | hstop
    · exact ⟨more, _, _, htrace, hwalk⟩
    · exact hstop
  rw [htrace] at hevs
  obtain rfl := List.append_cancel_right hevs
  exact ⟨c, s, hwalk⟩

/-- `seek` requests the sector of the position. -/
theorem seek_request (hv : Volume disk b fs) {file : FileRef} {position : UInt32} {evs : List Event}
    (hevs : (fs.seek file position).2.trace = evs ++ fs.trace)
    (hc : IsCluster (fs.fileData (fs.target file)).firstCluster)
    (hlinks : ∀ c r, Event.successor c r ∈ evs → 2 ≤ r.toNat) {lba : ℕ}
    (hmem : Event.sectorRead lba ∈ evs) :
    ∃ c look, Links (fs.fileData (fs.target file)).firstCluster
        (position.toNat / clusterLength b) look c ∧
      evs = .sectorRead lba :: look ∧
      lba * sectorSize = clusterOffset b c +
        position.toNat % clusterLength b / sectorSize * sectorSize := by
  have hlen := clusterLength_eq hb
  have hspc := spc_pos ha
  have hcases := seek_cases fs (by rw [hv.bs]; exact hspc) file position
  rw [hv.bs, ← hlen] at hcases
  rcases hcases with ⟨evs', htrace, hnodata, -⟩ | ⟨c, o, look, hwalk, ho, htrace, -⟩
  · rw [htrace] at hevs
    obtain rfl := List.append_cancel_right hevs
    exact absurd hmem (hnodata lba)
  · rw [htrace] at hevs
    obtain rfl : _ :: look = evs := List.append_cancel_right hevs
    have hcl : IsCluster c :=
      hwalk.isCluster hc fun c r hmem ↦ hlinks c r (List.mem_cons_of_mem _ hmem)
    have hsector : (o / 512).toNat = position.toNat % clusterLength b / sectorSize := by
      rw [UInt32.toNat_div, ho]
      rfl
    have hin : (o / 512).toNat * sectorSize < clusterLength b := by
      have hlt := Nat.mod_lt position.toNat (show 0 < clusterLength b by
        rw [hlen]
        exact Nat.mul_pos hspc (by decide))
      rw [hsector]
      exact Nat.lt_of_le_of_lt (Nat.div_mul_le_self _ _) hlt
    have hlba : lba = (fs.clusterToLba c + o / 512).toNat := by
      rcases List.mem_cons.1 hmem with h | h
      · exact Event.sectorRead.inj h
      · exact absurd h (hwalk.noData lba)
    refine ⟨c, look, hwalk, by rw [hlba], ?_⟩
    rw [hlba, hv.lba_mul ha hb hcl hin, hsector]

end Sectors

/-! ### Both directions -/

/-- With sectors of 512 bytes, every state of the driver fetches what the boot sector defines. -/
theorem Volume.fetchesAsDefined {disk : BlockDevice} {b : FatBootSector} {fs : Fat12FileSystem}
    (ha : detectAccepts b = true) (hb : b.bytesPerSector.toNat = sectorSize)
    (hv : Volume disk b fs) :
    fs.FetchesAsDefined := by
  have hbs : fs.bs = b := hv.bs
  refine ⟨?_, ?_, ?_, ?_⟩
  · rw [hbs]
    exact fun c hc evs hevs lba hmem ↦ fatLba_mul hb hv hc hevs hmem
  · rw [hbs]
    exact fun e he evs hevs lba hmem ↦ openEntry_request ha hb hv he hevs hmem
  · rw [hbs]
    exact fun file n evs hevs hc hs hlinks ↦ read_requests ha hb hv hevs hc hs hlinks
  · rw [hbs]
    exact fun file position evs hevs hc hlinks lba hmem ↦
      seek_request ha hb hv hevs hc hlinks hmem

/-- The directory entry of a file that starts in cluster 3. -/
def thirdClusterEntry : FatDirectoryEntry :=
  ⟨[0x41, 32, 32, 32, 32, 32, 32, 32, 32, 32, 32, 0x20, 0, 0, 0, 0, 0, 0, 0, 0, 0, 0, 0, 0, 0, 0,
    3, 0, 1, 0, 0, 0]⟩

/-- What `OpenEntry` requests for it on a mounted volume, in sectors of the device. -/
theorem Mounted.openEntry_thirdCluster {disk : BlockDevice} {fs : Fat12FileSystem}
    (h : Mounted disk fs) : (fs.openEntry thirdClusterEntry).2.trace =
      [.sectorRead (dataStart fs.bs + spc fs.bs)] ++ fs.trace := by
  have hfirst : thirdClusterEntry.firstCluster = 3 := by decide
  have hfree : fs.freeHandle = some 0 := by
    have hclosed := h.closed 0 (by decide)
    rw [freeHandle, show List.range maxFileHandles = 0 :: (List.range maxFileHandles).tail from rfl,
      List.find?_cons_of_pos (by rw [hclosed]; rfl)]
  have hv : Volume disk fs.bs (fs.fillSlot 0 thirdClusterEntry) :=
    h.volume.of_frame (frame_setFileData _ _ _)
  have hlba : ((fs.fillSlot 0 thirdClusterEntry).clusterToLba 3).toNat =
      dataStart fs.bs + spc fs.bs := by
    have hc : IsCluster 3 := by decide
    have hlba := hv.toNat_clusterToLba h.accepts (c := 3) (s := 0) hc (spc_pos h.accepts)
    rw [UInt32.add_zero, UInt32.toNat_zero, Nat.add_zero] at hlba
    rw [hlba]
    exact congrArg (dataStart fs.bs + ·) (Nat.one_mul _)
  have hread := trace_readSector (fs.fillSlot 0 thirdClusterEntry) (.slot 0)
    ((fs.fillSlot 0 thirdClusterEntry).clusterToLba 3)
  rw [hlba, show (fs.fillSlot 0 thirdClusterEntry).trace = fs.trace from trace_setFileData] at hread
  rw [openEntry_of_freeHandle hfree, hfirst, if_neg (by decide)]
  split
  · next h =>
    rw [h] at hread
    exact hread
  · next h =>
    rw [h] at hread
    exact trace_setFileData.trans hread

/-- The request for cluster 3 is right only if a sector of the volume is one of the device. -/
theorem Mounted.sectorSize_of_fetchesAsDefined {disk : BlockDevice} {fs : Fat12FileSystem}
    (hmount : Mounted disk fs) (h : fs.FetchesAsDefined) :
    fs.bs.bytesPerSector.toNat = sectorSize := by
  have hoffset := h.openEntry thirdClusterEntry (by decide) _ hmount.openEntry_thirdCluster _
    List.mem_cons_self
  have hpos : 0 < dataStart fs.bs + spc fs.bs := Nat.add_pos_right _ (spc_pos hmount.accepts)
  have hcluster : clusterOffset fs.bs thirdClusterEntry.firstCluster =
      (dataStart fs.bs + spc fs.bs) * fs.bs.bytesPerSector.toNat := by
    rw [clusterOffset, show thirdClusterEntry.firstCluster.toNat - 2 = 1 by decide, Nat.one_mul]
  rw [hcluster] at hoffset
  exact (Nat.eq_of_mul_eq_mul_left hpos hoffset).symm

/-- **The geometry that the driver reads.** A mounted driver, in all its states, fetches the FAT and
the clusters at the byte offsets that the boot sector defines if and only if the boot sector counts
in sectors of 512 bytes. -/
theorem fetchesAsDefined_iff {disk : BlockDevice} {fresh : FatData} {fs : Fat12FileSystem}
    (hm : detectAndMount disk fresh = some fs) :
    (∀ fs', Volume disk fs.bs fs' → fs'.FetchesAsDefined) ↔
      fs.bs.bytesPerSector.toNat = sectorSize := by
  have hmount := mounted_of_detectAndMount hm
  exact ⟨fun h ↦ hmount.sectorSize_of_fetchesAsDefined (h fs hmount.volume),
    fun hb fs' hv ↦ hv.fetchesAsDefined hmount.accepts hb⟩

/-! ### Sectors of 1024 bytes -/

/-- The mounted floppy disk counts in sectors of 512 bytes. -/
theorem fetchesAsDefined_iff_filledFloppy :
    (∀ fs', Volume filledFloppy filledFloppyFs.bs fs' → fs'.FetchesAsDefined) ↔
      filledFloppyFs.bs.bytesPerSector.toNat = sectorSize :=
  fetchesAsDefined_iff detectAndMount_filledFloppy

/-- The floppy disk with a boot sector that counts in sectors of 1024 bytes. -/
def wideFloppy : BlockDevice where
  sector lba j :=
    if lba = 0 then (if j = 0x0B then 0x00 else if j = 0x0C then 0x04 else floppyBoot j) else 0xFF
  outcome _ := none
  calls := 0

/-- The driver after mounting it. -/
def wideFloppyFs : Fat12FileSystem := (detectAndMount wideFloppy blankData).get (by decide)

theorem detectAndMount_wideFloppy : detectAndMount wideFloppy blankData = some wideFloppyFs := by
  rw [wideFloppyFs, Option.some_get]

/-- **A volume that is misread.** It is mounted; a file in cluster 3 lies at byte 27648 of it, and
the driver fetches byte 13824. -/
theorem not_fetchesAsDefined_wideFloppy :
    clusterOffset wideFloppyFs.bs thirdClusterEntry.firstCluster = 27648 ∧
      (wideFloppyFs.openEntry thirdClusterEntry).2.trace = [.sectorRead 27] ++ wideFloppyFs.trace ∧
      27 * sectorSize = 13824 ∧
      ¬ ∀ fs', Volume wideFloppy wideFloppyFs.bs fs' → fs'.FetchesAsDefined := by
  have hmount := mounted_of_detectAndMount detectAndMount_wideFloppy
  refine ⟨by decide, hmount.openEntry_thirdCluster, by decide, fun h ↦ ?_⟩
  have hsector := hmount.sectorSize_of_fetchesAsDefined (h wideFloppyFs hmount.volume)
  exact absurd hsector (by decide)

end Fat12FileSystem

end Aidos.Fat12
