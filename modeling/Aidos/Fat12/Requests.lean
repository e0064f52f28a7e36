import Aidos.Fat12.Opening

/-!
# Requests

What the driver asks the device for, read off the trace. A lookup adds a `LooksUp` record, which
asks for no data sector; using up a buffer adds at most one request, for the sector that the
counters then name (`advance_cases`); a seek follows `Links` and then asks for one sector
(`seek_cases`).

`readLoop_rule` is the rule for properties of these steps that do not depend on what is delivered.
-/

namespace Aidos.Fat12

/-- An entry of the FAT is a cluster number below the end marks, or an end mark, widened. -/
theorem decodeEntry_range (c : ℕ) (b₀ b₁ : UInt8) :
    (decodeEntry c b₀ b₁).toNat < 0xFF8 ∨ decodeEntry c b₀ b₁ ≥ 0xFFFFFFF8 := by
  have h₀ := b₀.toNat_lt
  have h₁ := b₁.toNat_lt
  rw [decodeEntry]
  have hv : (if c % 2 = 0 then (b₀.toNat + 256 * b₁.toNat) % 4096
      else (b₀.toNat + 256 * b₁.toNat) / 16) < 4096 := by
    split <;> omega
  generalize (if c % 2 = 0 then (b₀.toNat + 256 * b₁.toNat) % 4096
    else (b₀.toNat + 256 * b₁.toNat) / 16) = v at hv ⊢
  have htoNat : (UInt32.ofNat v).toNat = v :=
    UInt32.toNat_ofNat_of_lt' (Nat.lt_trans hv (by decide))
  split
  · next hge =>
    have hlow := UInt32.le_iff_toNat_le.1 hge
    rw [htoNat] at hlow
    simp only [UInt32.reduceToNat] at hlow
    have hcases : v = 0xFF8 ∨ v = 0xFF9 ∨ v = 0xFFA ∨ v = 0xFFB ∨ v = 0xFFC ∨ v = 0xFFD ∨
      v = 0xFFE ∨ v = 0xFFF := by omega
    right
    rcases hcases with rfl | rfl | rfl | rfl | rfl | rfl | rfl | rfl <;> decide
  · next hlt =>
    left
    by_contra hge
    refine hlt (UInt32.le_iff_toNat_le.2 ?_)
    simp only [UInt32.reduceToNat]
    omega

/-- A lookup of cluster `c` that answered `r`, as the trace has it. -/
structure LooksUp (c r : UInt32) (evs : List Event) : Prop where
  /-- It asks for no data sector. -/
  noData : ∀ lba, Event.sectorRead lba ∉ evs
  /-- Its answer is the only one. -/
  answer : ∀ c' r', Event.successor c' r' ∈ evs ↔ c' = c ∧ r' = r
  /-- It is a cluster number below the end marks, or an end mark. -/
  range : r.toNat < 0xFF8 ∨ r ≥ 0xFFFFFFF8

/-- A chain of lookups, newest first: `k` links lead from cluster `c` to the last one, none of them
to an end mark. -/
inductive Links (c : UInt32) : ℕ → List Event → UInt32 → Prop
  /-- No link. -/
  | nil : Links c 0 [] c
  /-- One more. -/
  | snoc {k : ℕ} {evs look : List Event} {d r : UInt32} : Links c k evs d → LooksUp d r look →
      ¬ r ≥ 0xFFFFFFF8 → Links c (k + 1) (look ++ evs) r

/-- A chain of lookups asks for no data sector. -/
theorem Links.noData {c d : UInt32} {k : ℕ} {evs : List Event} (h : Links c k evs d) (lba : ℕ) :
    Event.sectorRead lba ∉ evs := by
  induction h with
  | nil => exact List.not_mem_nil
  | snoc _ hlook _ ih => exact fun hmem ↦ (List.mem_append.1 hmem).elim (hlook.noData lba) ih

/-- A chain can be extended at its front. -/
theorem Links.cons {c d e : UInt32} {k : ℕ} {evs look : List Event} (hlook : LooksUp c d look)
    (hdata : ¬ d ≥ 0xFFFFFFF8) (h : Links d k evs e) : Links c (k + 1) (evs ++ look) e := by
  induction h with
  | nil =>
    have hone := Links.nil.snoc hlook hdata
    rwa [List.append_nil] at hone
  | snoc _ hlook' hdata' ih =>
    rw [List.append_assoc]
    exact ih.snoc hlook' hdata'

namespace Fat12FileSystem

variable {fs : Fat12FileSystem} {ref : FileRef}

/-! ### Steps -/

/-- An answer of `NextCluster`. -/
theorem nextCluster_range (fs : Fat12FileSystem) (c : UInt32) :
    (fs.nextCluster c).1.toNat < 0xFF8 ∨ (fs.nextCluster c).1 ≥ 0xFFFFFFF8 := by
  rw [nextCluster_fst]
  exact decodeEntry_range _ _ _

/-- What a lookup adds to the trace. -/
theorem nextCluster_looksUp (fs : Fat12FileSystem) (c : UInt32) :
    ∃ look, (fs.nextCluster c).2.trace = look ++ fs.trace ∧
      LooksUp c (fs.nextCluster c).1 look := by
  rw [nextCluster_trace]
  rcases ensureWindow_trace fs (c * 3 / 2 / 512) with h | ⟨lba, h⟩
  · rw [h]
    exact ⟨[_, _, _], rfl, fun lba ↦ by simp, fun c' r' ↦ by simp, nextCluster_range fs c⟩
  · rw [h]
    exact ⟨[_, _, _, _], rfl, fun lba ↦ by simp, fun c' r' ↦ by simp, nextCluster_range fs c⟩

@[simp] theorem trace_readSector (fs : Fat12FileSystem) (ref : FileRef) (lba : UInt32) :
    (fs.readSector ref lba).2.trace = .sectorRead lba.toNat :: fs.trace := rfl

@[simp] theorem fatCachePosition_readSector (fs : Fat12FileSystem) (ref : FileRef) (lba : UInt32) :
    (fs.readSector ref lba).2.data.fatCachePosition = fs.data.fatCachePosition := by
  cases ref <;> rfl

@[simp] theorem fatCachePosition_movePosition (fs : Fat12FileSystem) (ref : FileRef)
    (take : UInt32) :
    (fs.movePosition ref take).data.fatCachePosition = fs.data.fatCachePosition :=
  fatCachePosition_setFileData

@[simp] theorem trace_movePosition (fs : Fat12FileSystem) (ref : FileRef) (take : UInt32) :
    (fs.movePosition ref take).trace = fs.trace := trace_setFileData

/-- **The end of an iteration of `read`**: the counters move to the next sector of the cluster, or
to the first one of the successor that the FAT gives; then the loop stops at an end mark, or the
sector that the counters name is requested. -/
theorem advance_cases (fs : Fat12FileSystem) (ref : FileRef) :
    ∃ look c s, ((fs.advance ref).2.fileData ref).currentCluster = c ∧
      ((fs.advance ref).2.fileData ref).currentSectorInCluster = s ∧
      (¬ (fs.fileData ref).currentSectorInCluster + 1 ≥ fs.bs.sectorsPerCluster.toUInt32 ∧
          look = [] ∧ c = (fs.fileData ref).currentCluster ∧
          s = (fs.fileData ref).currentSectorInCluster + 1 ∨
        (fs.fileData ref).currentSectorInCluster + 1 ≥ fs.bs.sectorsPerCluster.toUInt32 ∧
          LooksUp (fs.fileData ref).currentCluster c look ∧
          c = (fs.nextCluster (fs.fileData ref).currentCluster).1 ∧ s = 0) ∧
      (c ≥ 0xFFFFFFF8 ∧ (fs.advance ref).1 = false ∧ (fs.advance ref).2.trace = look ++ fs.trace ∨
        ¬ c ≥ 0xFFFFFFF8 ∧
          (fs.advance ref).2.trace =
            .sectorRead (fs.clusterToLba c + s).toNat :: (look ++ fs.trace)) := by
  obtain ⟨look, c, s, hc, hs, htrace, hstep⟩ : ∃ look c s,
      ((fs.stepCounters ref).fileData ref).currentCluster = c ∧
      ((fs.stepCounters ref).fileData ref).currentSectorInCluster = s ∧
      (fs.stepCounters ref).trace = look ++ fs.trace ∧
      (¬ (fs.fileData ref).currentSectorInCluster + 1 ≥ fs.bs.sectorsPerCluster.toUInt32 ∧
          look = [] ∧ c = (fs.fileData ref).currentCluster ∧
          s = (fs.fileData ref).currentSectorInCluster + 1 ∨
        (fs.fileData ref).currentSectorInCluster + 1 ≥ fs.bs.sectorsPerCluster.toUInt32 ∧
          LooksUp (fs.fileData ref).currentCluster c look ∧
          c = (fs.nextCluster (fs.fileData ref).currentCluster).1 ∧ s = 0) := by
    rw [stepCounters]
    split
    · next hlast =>
      obtain ⟨look, htrace, hlook⟩ := nextCluster_looksUp fs (fs.fileData ref).currentCluster
      refine ⟨look, _, _, rfl, rfl, ?_, Or.inr ?_⟩
      · rw [trace_setFileData, htrace]
      · rw [fileData_setFileData_self]
        exact ⟨hlast, hlook, rfl, rfl⟩
    · next hstay =>
      refine ⟨[], _, _, rfl, rfl, ?_, Or.inl ?_⟩
      · rw [trace_setFileData, List.nil_append]
      · rw [fileData_setFileData_self]
        exact ⟨hstay, rfl, rfl, rfl⟩
  have hlba := (frame_stepCounters fs ref).clusterToLba c
  rw [advance_eq]
  dsimp only
  rw [hc, hs]
  split
  · next hend =>
    refine ⟨look, c, s, ?_, ?_, hstep, Or.inl ⟨hend, rfl, ?_⟩⟩
    · rw [fileData_setFileData_self]
    · rw [fileData_setFileData_self]
    · rw [trace_setFileData, htrace]
  · next hdata =>
    refine ⟨look, c, s, ?_, ?_, hstep, Or.inr ⟨hdata, ?_⟩⟩
    · rw [fileData_readSector]
      exact hc
    · rw [fileData_readSector]
      exact hs
    · rw [trace_readSector, hlba, htrace]

/-- **The rule for what the loop of `read` does beside delivering bytes**: let `I` be kept by moving
the position and by replacing a used-up buffer, unless the loop stops there, and then let `J` hold.
Facts about the events come from `final`, a trace that the one of the final state is part of. -/
theorem readLoop_rule (ref : FileRef) (I J : Fat12FileSystem → Prop) (final : List Event)
    (move : ∀ {fs} (t : UInt32), I fs → I (fs.movePosition ref t))
    (cross : ∀ {fs}, I fs → (fs.advance ref).2.trace <:+ final →
      ((fs.advance ref).1 = true → I (fs.advance ref).2) ∧
        ((fs.advance ref).1 = false → J (fs.advance ref).2))
    (fuel : ℕ) {n : UInt32} (out : List UInt8) {fs : Fat12FileSystem} (hI : I fs)
    (htrace : (readLoop ref fuel n out fs).2.trace <:+ final) :
    I (readLoop ref fuel n out fs).2 ∨ J (readLoop ref fuel n out fs).2 := by
  induction fuel generalizing n out fs with
  | zero => exact Or.inl hI
  | succ fuel ih =>
    rcases Nat.eq_zero_or_pos n.toNat with hn | hn
    · rw [readLoop_of_eq_zero hn]
      exact Or.inl hI
    rw [readLoop_succ ref fuel hn] at htrace ⊢
    dsimp only at htrace ⊢
    have hmove := move (min n (512 - (fs.fileData ref).pub.position % 512)) hI
    generalize fs.movePosition ref (min n (512 - (fs.fileData ref).pub.position % 512)) = fs₁
      at htrace hmove ⊢
    split at htrace
    · next hfull =>
      rw [if_pos hfull]
      have hsub : (fs₁.advance ref).2.trace <:+ final := by
        refine List.IsSuffix.trans ?_ htrace
        split
        · exact (frame_readLoop _ _ _ _ _).trace
        · exact List.suffix_refl _
      obtain ⟨hgo, hstop⟩ := cross hmove hsub
      split at htrace
      · next hadv =>
        rw [if_pos hadv]
        exact ih _ (hgo hadv) htrace
      · next hadv =>
        rw [if_neg hadv]
        exact Or.inr (hstop (Bool.eq_false_of_not_eq_true hadv))
    · next hpart =>
      rw [if_neg hpart]
      exact ih _ hmove htrace

/-- A read of a record that is open runs the loop. -/
theorem exists_read_eq (fs : Fat12FileSystem) (file : FileRef) (n : UInt32) :
    (fs.read file n).2 = fs ∨
      ∃ count, (fs.read file n).2 = (readLoop (fs.target file) count.toNat count [] fs).2 := by
  rw [read]
  dsimp only
  split
  · exact Or.inr ⟨_, rfl⟩
  · exact Or.inl rfl

/-! ### Seeking -/

/-- **The cluster walk of `seek`** follows as many links as the offset has clusters. -/
theorem seekLoop_links (clusterSize : UInt32) (hpos : 0 < clusterSize.toNat) (fuel : ℕ) :
    ∀ (cluster offset : UInt32) (fs : Fat12FileSystem), offset.toNat ≤ fuel →
      (∃ look, (seekLoop clusterSize fuel cluster offset fs).1 = none ∧
          (seekLoop clusterSize fuel cluster offset fs).2.trace = look ++ fs.trace ∧
          ∀ lba, Event.sectorRead lba ∉ look) ∨
        ∃ c o look, (seekLoop clusterSize fuel cluster offset fs).1 = some (c, o) ∧
          (seekLoop clusterSize fuel cluster offset fs).2.trace = look ++ fs.trace ∧
          Links cluster (offset.toNat / clusterSize.toNat) look c ∧
          o.toNat = offset.toNat % clusterSize.toNat := by
  induction fuel with
  | zero =>
    intro cluster offset fs hfuel
    have hzero : offset.toNat = 0 := by omega
    refine Or.inr ⟨cluster, offset, [], rfl, rfl, ?_, ?_⟩
    · rw [hzero, Nat.zero_div]
      exact Links.nil
    · rw [hzero, Nat.zero_mod]
  | succ fuel ih =>
    intro cluster offset fs hfuel
    rw [seekLoop]
    dsimp only
    split
    · next hge =>
      have hle := UInt32.le_iff_toNat_le.1 hge
      have hsub : (offset - clusterSize).toNat = offset.toNat - clusterSize.toNat :=
        UInt32.toNat_sub_of_le _ _ hge
      obtain ⟨look, htrace, hlook⟩ := nextCluster_looksUp fs cluster
      split
      · exact Or.inl ⟨look, rfl, htrace, hlook.noData⟩
      · next hdata =>
        rcases ih (fs.nextCluster cluster).1 (offset - clusterSize) (fs.nextCluster cluster).2
          (by omega) with ⟨evs, hnone, htrace', hnodata⟩ | ⟨c, o, evs, hsome, htrace', hlinks, ho⟩
        · refine Or.inl ⟨evs ++ look, hnone, ?_, fun lba hmem ↦ ?_⟩
          · rw [htrace', htrace, List.append_assoc]
          · exact (List.mem_append.1 hmem).elim (hnodata lba) (hlook.noData lba)
        · refine Or.inr ⟨c, o, evs ++ look, hsome, ?_, ?_, ?_⟩
          · rw [htrace', htrace, List.append_assoc]
          · have hdiv : offset.toNat / clusterSize.toNat =
                (offset - clusterSize).toNat / clusterSize.toNat + 1 := by
              rw [hsub, Nat.div_eq_sub_div hpos hle]
            rw [hdiv]
            exact hlinks.cons hlook hdata
          · rw [ho, hsub, Nat.mod_eq_sub_mod hle]
    · next hlt =>
      have hlt' : offset.toNat < clusterSize.toNat :=
        Nat.lt_of_not_ge fun hge ↦ hlt (UInt32.le_iff_toNat_le.2 hge)
      refine Or.inr ⟨cluster, offset, [], rfl, rfl, ?_, ?_⟩
      · rw [Nat.div_eq_of_lt hlt']
        exact Links.nil
      · rw [Nat.mod_eq_of_lt hlt']

/-- **A seek** leaves the counters alone and requests nothing, or it sets them to the cluster and
the sector of the position and requests that sector. -/
theorem seek_cases (fs : Fat12FileSystem) (hspc : 0 < spc fs.bs) (file : FileRef)
    (position : UInt32) :
    (∃ evs, (fs.seek file position).2.trace = evs ++ fs.trace ∧
        (∀ lba, Event.sectorRead lba ∉ evs) ∧
        ((fs.seek file position).2.fileData (fs.target file)).currentCluster =
          (fs.fileData (fs.target file)).currentCluster ∧
        ((fs.seek file position).2.fileData (fs.target file)).currentSectorInCluster =
          (fs.fileData (fs.target file)).currentSectorInCluster) ∨
      ∃ c o look, Links (fs.fileData (fs.target file)).firstCluster
          (position.toNat / (spc fs.bs * sectorSize)) look c ∧
        o.toNat = position.toNat % (spc fs.bs * sectorSize) ∧
        (fs.seek file position).2.trace =
          .sectorRead (fs.clusterToLba c + o / 512).toNat :: (look ++ fs.trace) ∧
        ((fs.seek file position).2.fileData (fs.target file)).currentCluster = c ∧
        ((fs.seek file position).2.fileData (fs.target file)).currentSectorInCluster = o / 512 := by
  have hpos : 0 < (fs.bs.sectorsPerCluster.toUInt32 * 512).toNat := by
    rw [toNat_clusterSize]
    exact Nat.mul_pos hspc (by decide)
  have hlinks := seekLoop_links _ hpos position.toNat (fs.fileData (fs.target file)).firstCluster
    position (fs.setPosition (fs.target file) position) (Nat.le_refl _)
  rw [← seekWalk, toNat_clusterSize, setPosition, trace_setFileData] at hlinks
  have h := fs.seeks file position
  generalize fs.seek file position = result at h ⊢
  cases h with
  | behind => exact Or.inl ⟨[], rfl, fun _ ↦ List.not_mem_nil, rfl, rfl⟩
  | closed => exact Or.inl ⟨[], rfl, fun _ ↦ List.not_mem_nil, rfl, rfl⟩
  | off _ _ hwalk =>
    rw [hwalk] at hlinks
    rcases hlinks with ⟨look, -, hlook, hnodata⟩ | ⟨_, _, _, hsome, -⟩
    · refine Or.inl ⟨look, hlook, hnodata, ?_, ?_⟩ <;> rw [fileData_of_seekWalk hwalk]
    · exact absurd hsome (by simp)
  | @found c o fs' _ _ hwalk =>
    rw [hwalk] at hlinks
    rcases hlinks with ⟨_, hnone, -⟩ | ⟨c', o', look, hsome, hlook, hlinks, ho⟩
    · exact absurd hnone (by simp)
    obtain ⟨rfl, rfl⟩ := Prod.mk.inj (Option.some.inj hsome)
    refine Or.inr ⟨c, o, look, hlinks, ho, ?_, ?_, ?_⟩
    · rw [trace_readSector, setCounters, trace_setFileData, hlook,
        (frame_of_seekWalk hwalk).clusterToLba]
    · rw [fileData_readSector, fileData_setCounters]
    · rw [fileData_readSector, fileData_setCounters]

end Fat12FileSystem

end Aidos.Fat12
