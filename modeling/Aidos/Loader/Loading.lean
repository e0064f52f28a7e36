import Aidos.Paging.HeapRoom
import Aidos.Loader.Segments

/-!
# Loading an image

The run of `readElf` on a file that is served faithfully and can be loaded (`LoadableImage`), from
the tables that `setup_paging` leaves. Each turn of the loop carries `Mapped` and `Filled` one
program header further; at the end every segment is where it belongs (`wp_readElf`), and the result
is the entry point and the smallest physical address (`Serves.info_spec`). No allocation fails if
the heap has room for the page tables of all segments (`Source.readElf_room`).
-/

namespace Aidos.Loader

open ByteMemory Paging

variable {σ : Type} {B : Boot} {S : Source σ} {file : List UInt8} {data : UInt64}
    {n : ℕ} {m : Machine}

/-- No allocation of page tables fails. -/
def LoadEvent.Allocates : LoadEvent → Prop
  | paging e => e.Allocates
  | _ => True

/-! ### The loop with an invariant of its own -/

theorem wp_ask {assume : LoadEvent → Prop} {F : FileSystem σ} {part : Part}
    {position wanted : UInt64} {s : σ}
    {Q : List UInt8 → Machine × σ → Prop}
    (h : Q (F.fetch position wanted s).bytes (m, (F.fetch position wanted s).after)) :
    (ask F part position wanted).wp assume Q (m, s) :=
  Exec.wp_bind (Exec.wp_get (Exec.wp_bind (Exec.wp_modify (Exec.wp_bind
    (Exec.wp_emit fun _ ↦ Exec.wp_pure h)))))

/-- Loading a segment: what holds after the mapping call, after the copy, and at the end. -/
theorem wp_loadSegment_of {F : FileSystem σ} {p : Phdr} {i : ℕ} {s : σ} {P₁ P₂ P₃ : Machine → Prop}
    (hmap : (B.perform (p.call data)).wp Event.Allocates (fun _ ↦ P₁) m)
    (hcopy : ∀ m₁, P₁ m₁ → (storeRun p.vaddr (fun b ↦ (F.fetch p.offset p.filesz s).bytes.getD b 0)
      (F.fetch p.offset p.filesz s).bytes.length).wp (fun _ ↦ True) (fun _ ↦ P₂) m₁)
    (hclear : ∀ m₂, P₂ m₂ →
      (memset (p.vaddr + p.filesz) 0 (p.memsz - p.filesz)).wp (fun _ ↦ True) (fun _ ↦ P₃) m₂)
    (hfull : p.memsz ≤ p.filesz → ∀ m₂, P₂ m₂ → P₃ m₂) :
    (loadSegment B F data i p).wp LoadEvent.Allocates
      (fun _ s' ↦ P₃ s'.1 ∧ s'.2 = (F.fetch p.offset p.filesz s).after) (m, s) := by
  rw [Phdr.call, ← mapSegment_eq] at hmap
  have hfirst : (Exec.onFst LoadEvent.paging (mapSegment B p.vaddr (data + p.paddr) p.memsz)).wp
      LoadEvent.Allocates (fun _ s' ↦ P₁ s'.1 ∧ s'.2 = s) (m, s) :=
    Exec.wp_onFst (Exec.wp_mono hmap fun _ _ h ↦ ⟨h, rfl⟩)
  refine Exec.wp_bind_of hfirst ?_
  rintro _ ⟨m₁, _⟩ ⟨h₁, rfl⟩
  refine Exec.wp_bind_of (wp_ask (Q := fun bytes s' ↦ bytes = (F.fetch p.offset p.filesz _).bytes ∧
    s' = (m₁, (F.fetch p.offset p.filesz _).after)) ⟨rfl, rfl⟩) ?_
  rintro _ _ ⟨rfl, rfl⟩
  refine Exec.wp_bind (Exec.wp_onFst (Exec.wp_mono (hcopy m₁ h₁) fun _ m₂ h₂ ↦ ?_))
  split
  · exact Exec.wp_onFst (Exec.wp_mono (hclear m₂ h₂) fun _ _ h₃ ↦ ⟨h₃, rfl⟩)
  · next hmore => exact Exec.wp_pure ⟨hfull (UInt64.not_lt.1 hmore) m₂ h₂, rfl⟩

section Loop

variable (hserves : Serves S.fs file) (hheaders : HasHeaders file)
include hserves hheaders

/-- What `read` delivers of a segment that lies in the file. -/
theorem Serves.segment_bytes (hn : n < fileCount file)
    (hin : (filePhdr file n).offset.toNat + (filePhdr file n).filesz.toNat ≤ file.length) :
    (S.segment n).bytes.length = (filePhdr file n).filesz.toNat ∧
      ∀ b < (filePhdr file n).filesz.toNat,
        (S.segment n).bytes.getD b 0 = loadedByte file (filePhdr file n) b := by
  rw [hserves.segment_eq hheaders hn hin]
  refine ⟨?_, fun b hb ↦ ?_⟩
  · rw [List.length_take, List.length_drop]
    omega
  · rw [loadedByte, if_pos hb, List.getD_eq_getElem?_getD, List.getElem?_take_of_lt hb,
      List.getElem?_drop, List.getD_eq_getElem?_getD]

/-- A turn of the loop: one program header further. -/
theorem wp_loadTurn_of {P P' : Machine → Prop} (hn : n < fileCount file) (hP : P m)
    (hskip : ¬ IsSegment file n → P m → P' m)
    (hload : IsSegment file n → P m →
      (loadSegment B S.fs data n (filePhdr file n)).wp LoadEvent.Allocates
      (fun _ s' ↦ P' s'.1 ∧ s'.2 = (S.segment n).after) (m, (S.program n).after)) :
    (loadTurn B S.fs S.rest data S.elfHeader n (S.baseAt data n)).wp
      LoadEvent.Allocates (fun base s' ↦
      base = S.baseAt data (n + 1) ∧ s'.2 = S.stateAt (n + 1) ∧ P' s'.1) (m, S.stateAt n) := by
  have hphdr := hserves.phdr_eq hheaders hn
  have htype := hserves.isLoad_iff hheaders hn
  -- the offset
  have hoffset : (programOffset S.elfHeader n : Load σ UInt64).wp LoadEvent.Allocates
      (fun offset s' ↦ offset = S.position n ∧ s' = (m, S.stateAt n)) (m, S.stateAt n) := by
    have hsmall := hheaders.small n hn
    rw [← hserves.elfHeader_eq hheaders] at hsmall
    rw [programOffset, if_pos hsmall]
    exact Exec.wp_pure ⟨rfl, rfl⟩
  refine Exec.wp_bind_of hoffset ?_
  rintro _ _ ⟨rfl, rfl⟩
  -- the program header
  refine Exec.wp_bind_of (wp_ask (Q := fun bytes s' ↦
    bytes = (S.program n).bytes ∧ s' = (m, (S.program n).after)) ⟨rfl, rfl⟩) ?_
  rintro _ _ ⟨rfl, rfl⟩
  show Exec.wp LoadEvent.Allocates (if (S.phdr n).type ≠ ptLoad then pure (S.baseAt data n)
    else loadSegment B S.fs data n (S.phdr n) >>= fun _ ↦
      pure (if S.phys data n < S.baseAt data n then S.phys data n else S.baseAt data n)) _ _
  rw [S.stateAt_succ]
  split
  · next hnot =>
    refine Exec.wp_pure ⟨?_, (if_neg hnot).symm, hskip (fun h ↦ hnot (htype.2 h.2)) hP⟩
    rw [Source.baseAt, if_neg fun h ↦ hnot h.1]
  · next hnot =>
    rw [hphdr]
    refine Exec.wp_bind_of (hload ⟨hn, htype.1 (not_not.1 hnot)⟩ hP) ?_
    rintro _ s' ⟨hP', hs'⟩
    refine Exec.wp_pure ⟨?_, hs'.trans (if_pos (not_not.1 hnot)).symm, hP'⟩
    rw [Source.baseAt]
    exact if_congr (and_iff_right (not_not.1 hnot)).symm rfl rfl

/-- **The loop**: an invariant that each turn carries one program header further. The result follows
from the file. -/
theorem wp_readElf_of {P : ℕ → Machine → Prop} (h₀ : P 0 m)
    (hskip : ∀ n m, ¬ IsSegment file n → P n m → P (n + 1) m)
    (hload : ∀ n m, IsSegment file n → P n m → (loadSegment B S.fs data n (filePhdr file n)).wp
      LoadEvent.Allocates (fun _ s' ↦ P (n + 1) s'.1 ∧ s'.2 = (S.segment n).after)
      (m, (S.program n).after)) :
    (readElf B S.fs S.rest data).wp LoadEvent.Allocates
      (fun info s' ↦ info = S.info data ∧ P (fileCount file) s'.1) (m, S.start) := by
  have hmagic := hserves.magic hheaders
  have hcount := hserves.count_eq hheaders
  refine Exec.wp_bind_of (wp_ask (Q := fun bytes s' ↦
    bytes = S.header.bytes ∧ s' = (m, S.header.after)) ⟨rfl, rfl⟩) ?_
  rintro _ _ ⟨rfl, rfl⟩
  show Exec.wp LoadEvent.Allocates (if S.elfHeader.ident ≠ elfMagic then pure (ElfInfo.mk 0 0)
    else Exec.foldUpTo S.count (loadTurn B S.fs S.rest data S.elfHeader) noBase >>= fun physBase ↦
      pure (ElfInfo.mk S.elfHeader.entry (if physBase = noBase then data else physBase))) _ _
  rw [if_neg fun hne ↦ hne hmagic]
  have hloop : (Exec.foldUpTo S.count (loadTurn B S.fs S.rest data S.elfHeader) noBase).wp
      LoadEvent.Allocates (fun base s' ↦ base = S.baseAt data S.count ∧ s'.2 = S.stateAt S.count ∧
        P S.count s'.1) (m, S.header.after) := by
    refine Exec.wp_foldUpTo (fun i base (s' : Machine × σ) ↦ base = S.baseAt data i ∧
      s'.2 = S.stateAt i ∧ P i s'.1) ⟨rfl, rfl, h₀⟩ ?_
    rintro i hi _ ⟨m', _⟩ ⟨rfl, rfl, hP⟩
    exact wp_loadTurn_of hserves hheaders (hcount ▸ hi) hP (hskip i m') (hload i m')
  refine Exec.wp_bind_of hloop ?_
  rintro _ s' ⟨rfl, -, hP⟩
  exact Exec.wp_pure ⟨rfl, hcount ▸ hP⟩

end Loop

/-! ### Images that can be loaded -/

/-- Writing bytes of a segment that is mapped. -/
theorem Mapped.wp_storeRun (h : Mapped B file data (n + 1) m)
    (hload : (filePhdr file n).Loadable file data)
    (hseg : IsSegment file n) {dest : UInt64} {base o k : ℕ}
    (hdest : dest = (filePhdr file n).vaddr + UInt64.ofNat o)
    (hbase : base = data.toNat + (filePhdr file n).paddr.toNat + o)
    (hk : o + k ≤ (filePhdr file n).memsz.toNat) (f : ℕ → UInt8) {assume : Event → Prop}
    {Q : Unit → Machine → Prop} (hQ : Q () { m with mem := fillRun m.mem base f k }) :
    (storeRun dest f k).wp assume Q m := by
  have hlow := hload.phys_low
  refine Paging.wp_storeRun (fun i hi ↦ ?_) (fun i _ ht ↦ ?_) hQ
  · have hplaced := h.placed n (Nat.lt_succ_self n) hseg (o + i) (by omega)
    rw [hdest, UInt64.add_assoc, ← UInt64.ofNat_add, hplaced, hbase, Nat.add_assoc _ o i]
  · have hlt := table_lt h.sound ht
    omega

/-- The bytes of the segment that has just been written. -/
theorem Filled.succ (hprev : Filled file data n m)
    (hnew : ∀ b < (filePhdr file n).memsz.toNat,
      m.mem (data.toNat + (filePhdr file n).paddr.toNat + b) =
        loadedByte file (filePhdr file n) b) :
    Filled file data (n + 1) m := by
  intro j hj hseg
  rcases Nat.lt_succ_iff_lt_or_eq.1 hj with hlt | rfl
  · exact hprev j hlt hseg
  · exact hnew

/-- The part of a segment that is in the file has been copied. -/
def Copied (file : List UInt8) (data : UInt64) (n : ℕ) (m : Machine) : Prop :=
  ∀ b < (filePhdr file n).filesz.toNat,
    m.mem (data.toNat + (filePhdr file n).paddr.toNat + b) = loadedByte file (filePhdr file n) b

section Segment

variable (himage : LoadableImage file data)
include himage

/-- Copying the part of a segment that is in the file. -/
theorem Mapped.wp_copy (h : Mapped B file data (n + 1) m) (hfilled : Filled file data n m)
    (hseg : IsSegment file n) {f : ℕ → UInt8}
    (hf : ∀ b < (filePhdr file n).filesz.toNat, f b = loadedByte file (filePhdr file n) b)
    {assume : Event → Prop} :
    (storeRun (filePhdr file n).vaddr f (filePhdr file n).filesz.toNat).wp assume
      (fun _ m' ↦ Mapped B file data (n + 1) m' ∧ Filled file data n m' ∧
        Copied file data n m') m := by
  have hload := himage.loadable n hseg
  have hlow := hload.phys_low
  have hfit : 0 + (filePhdr file n).filesz.toNat ≤ (filePhdr file n).memsz.toNat :=
    (Nat.zero_add _).trans_le hload.filesz_le
  refine h.wp_storeRun hload hseg (UInt64.add_zero _).symm (Nat.add_zero _).symm hfit f ?_
  refine ⟨h.fill hlow f, hfilled.fill himage hseg (Nat.add_zero _).symm hfit f, fun b hb ↦ ?_⟩
  dsimp only
  rw [fillRun_of_mem hb, hf b hb]

/-- Clearing the rest of it. -/
theorem Mapped.wp_clear (h : Mapped B file data (n + 1) m) (hfilled : Filled file data n m)
    (hcopied : Copied file data n m) (hseg : IsSegment file n) {assume : Event → Prop} :
    (memset ((filePhdr file n).vaddr + (filePhdr file n).filesz) 0
      ((filePhdr file n).memsz - (filePhdr file n).filesz)).wp assume
      (fun _ m' ↦ Mapped B file data (n + 1) m' ∧ Filled file data (n + 1) m') m := by
  have hload := himage.loadable n hseg
  have hlow := hload.phys_low
  have hfilesz := hload.filesz_le
  have hdiff : ((filePhdr file n).memsz - (filePhdr file n).filesz).toNat =
      (filePhdr file n).memsz.toNat - (filePhdr file n).filesz.toNat :=
    UInt64.toNat_sub_of_le _ _ (UInt64.le_iff_toNat_le.2 hfilesz)
  have hdest : (filePhdr file n).vaddr + (filePhdr file n).filesz =
      (filePhdr file n).vaddr + UInt64.ofNat (filePhdr file n).filesz.toNat := by
    rw [UInt64.ofNat_toNat]
  have hfit : (filePhdr file n).filesz.toNat +
      ((filePhdr file n).memsz.toNat - (filePhdr file n).filesz.toNat)
      ≤ (filePhdr file n).memsz.toNat := (Nat.add_sub_cancel' hfilesz).le
  rw [memset, hdiff]
  refine h.wp_storeRun hload hseg hdest rfl hfit _ ?_
  refine ⟨h.fill (hlow.trans (Nat.le_add_right _ _)) _,
    Filled.succ (hfilled.fill himage hseg rfl hfit _) fun b hb ↦ ?_⟩
  rcases Nat.lt_or_ge b (filePhdr file n).filesz.toNat with hlt | hge
  · have hout := Nat.add_lt_add_left hlt (data.toNat + (filePhdr file n).paddr.toNat)
    dsimp only
    rw [fillRun_of_not_mem (Or.inl hout), hcopied b hlt]
  · obtain ⟨c, rfl⟩ := Nat.exists_eq_add_of_le hge
    have hc : c < (filePhdr file n).memsz.toNat - (filePhdr file n).filesz.toNat :=
      Nat.lt_sub_iff_add_lt'.2 hb
    dsimp only
    rw [loadedByte, if_neg (Nat.not_lt.2 (Nat.le_add_right _ c)), ← Nat.add_assoc,
      fillRun_of_mem hc]

end Segment

section Image

variable (hserves : Serves S.fs file) (himage : LoadableImage file data)
include hserves himage

/-- **Loading a segment**: map it, copy its bytes and clear the rest. -/
theorem wp_loadSegment (hmapped : Mapped B file data n m) (hfilled : Filled file data n m)
    (hseg : IsSegment file n) :
    (loadSegment B S.fs data n (filePhdr file n)).wp LoadEvent.Allocates (fun _ s' ↦
      (Mapped B file data (n + 1) s'.1 ∧ Filled file data (n + 1) s'.1) ∧
        s'.2 = (S.segment n).after)
      (m, (S.program n).after) := by
  obtain ⟨hlength, hbyte⟩ :=
    hserves.segment_bytes himage.headers hseg.1 (himage.loadable n hseg).inFile
  rw [Source.segment, hserves.phdr_eq himage.headers hseg.1] at hlength hbyte ⊢
  have hparts := @wp_loadSegment_of σ B data m S.fs (filePhdr file n) n (S.program n).after
    (fun m' ↦ Mapped B file data (n + 1) m' ∧ Filled file data n m')
    (fun m' ↦ Mapped B file data (n + 1) m' ∧ Filled file data n m' ∧ Copied file data n m')
    (fun m' ↦ Mapped B file data (n + 1) m' ∧ Filled file data (n + 1) m')
  refine hparts (hmapped.wp_map himage hfilled hseg) ?_ ?_ ?_
  · rintro m₁ ⟨hmapped₁, hfilled₁⟩
    rw [hlength]
    exact hmapped₁.wp_copy himage hfilled₁ hseg hbyte
  · rintro m₂ ⟨hmapped₂, hfilled₂, hcopied⟩
    exact hmapped₂.wp_clear himage hfilled₂ hcopied hseg
  · rintro hle m₂ ⟨hmapped₂, hfilled₂, hcopied⟩
    have hle' := UInt64.le_iff_toNat_le.1 hle
    exact ⟨hmapped₂, Filled.succ hfilled₂ fun b hb ↦ hcopied b (Nat.lt_of_lt_of_le hb hle')⟩

/-- **The run of `readElf`** returns what follows from the file, and leaves every segment loaded. -/
theorem wp_readElf (h : Prepared B m) :
    (readElf B S.fs S.rest data).wp LoadEvent.Allocates (fun info s' ↦ info = S.info data ∧
      Mapped B file data (fileCount file) s'.1 ∧ Filled file data (fileCount file) s'.1)
        (m, S.start) := by
  refine wp_readElf_of (P := fun n m' ↦ Mapped B file data n m' ∧ Filled file data n m')
    hserves himage.headers
    ⟨h.mapped, fun j hj ↦ absurd hj (Nat.not_lt_zero j)⟩ ?_ ?_
  · rintro n m' hn ⟨hmapped, hfilled⟩
    exact ⟨hmapped.skip hn, hfilled.skip hn⟩
  · rintro n m' hseg ⟨hmapped, hfilled⟩
    exact wp_loadSegment hserves himage hmapped hfilled hseg

end Image

/-! ### The result -/

/-- The physical base of an image: where its lowest segment is, or `data` if it has none. -/
def IsBase (file : List UInt8) (data base : UInt64) : Prop :=
  (∃ i, IsSegment file i ∧ base = data + (filePhdr file i).paddr ∧
    ∀ j, IsSegment file j → (filePhdr file i).paddr ≤ (filePhdr file j).paddr) ∨
  ((∀ i, ¬ IsSegment file i) ∧ base = data)

/-- `physBase` is the smallest physical address so far, if there is one. -/
theorem baseAt_spec (hserves : Serves S.fs file) (himage : LoadableImage file data)
    (hn : n ≤ fileCount file) :
    (∃ i < n, IsSegment file i ∧ S.baseAt data n = data + (filePhdr file i).paddr ∧
      ∀ j < n, IsSegment file j → (filePhdr file i).paddr ≤ (filePhdr file j).paddr) ∨
    ((∀ i < n, ¬ IsSegment file i) ∧ S.baseAt data n = noBase) := by
  induction n with
  | zero => exact Or.inr ⟨fun i hi ↦ absurd hi (Nat.not_lt_zero i), rfl⟩
  | succ n ih =>
    have hlt : n < fileCount file := hn
    have hphdr := hserves.phdr_eq himage.headers hlt
    have hload := hserves.isLoad_iff himage.headers hlt
    have hphys : S.phys data n = data + (filePhdr file n).paddr := by
      rw [Source.phys, hphdr]
    by_cases hseg : IsSegment file n
    · have hn' := (himage.loadable n hseg).toNat_phys
      have hend := (himage.loadable n hseg).phys_end
      have hsucc : S.baseAt data (n + 1) = if data + (filePhdr file n).paddr < S.baseAt data n then
          data + (filePhdr file n).paddr else S.baseAt data n := by
        rw [← hphys]
        exact if_congr (and_iff_right (hload.2 hseg.2)) rfl rfl
      rcases ih hlt.le with ⟨i, hi, hiseg, hbase, hmin⟩ | ⟨hnone, hbase⟩
      · have hi' := (himage.loadable i hiseg).toNat_phys
        have hcmp : data + (filePhdr file n).paddr < S.baseAt data n ↔
            (filePhdr file n).paddr < (filePhdr file i).paddr := by
          rw [hbase, UInt64.lt_iff_toNat_lt, hn', hi',
            Nat.add_lt_add_iff_left, ← UInt64.lt_iff_toNat_lt]
        by_cases hnew : (filePhdr file n).paddr < (filePhdr file i).paddr
        · rw [hsucc, if_pos (hcmp.2 hnew)]
          refine Or.inl ⟨n, Nat.lt_succ_self n, hseg, rfl, fun j hj hjseg ↦ ?_⟩
          rcases Nat.lt_succ_iff_lt_or_eq.1 hj with hold | rfl
          · exact UInt64.le_trans (UInt64.le_of_lt hnew) (hmin j hold hjseg)
          · exact UInt64.le_refl _
        · rw [hsucc, if_neg fun h ↦ hnew (hcmp.1 h)]
          refine Or.inl ⟨i, Nat.lt_succ_of_lt hi, hiseg, hbase, fun j hj hjseg ↦ ?_⟩
          rcases Nat.lt_succ_iff_lt_or_eq.1 hj with hold | rfl
          · exact hmin j hold hjseg
          · exact UInt64.not_lt.1 hnew
      · have hbig : data + (filePhdr file n).paddr < S.baseAt data n := by
          rw [hbase, UInt64.lt_iff_toNat_lt, hn']
          exact Nat.lt_of_le_of_lt ((Nat.le_add_right _ _).trans hend) (by decide)
        rw [hsucc, if_pos hbig]
        refine Or.inl ⟨n, Nat.lt_succ_self n, hseg, rfl, fun j hj hjseg ↦ ?_⟩
        rcases Nat.lt_succ_iff_lt_or_eq.1 hj with hold | rfl
        · exact absurd hjseg (hnone j hold)
        · exact UInt64.le_refl _
    · have hnot : ¬ S.IsLoad n := fun h ↦ hseg ⟨hlt, hload.1 h⟩
      rw [Source.baseAt, if_neg fun h ↦ hnot h.1]
      refine (ih hlt.le).imp ?_ ?_
      · rintro ⟨i, hi, hiseg, hbase, hmin⟩
        refine ⟨i, Nat.lt_succ_of_lt hi, hiseg, hbase, fun j hj hjseg ↦ ?_⟩
        rcases Nat.lt_succ_iff_lt_or_eq.1 hj with hold | rfl
        · exact hmin j hold hjseg
        · exact absurd hjseg hseg
      · rintro ⟨hnone, hbase⟩
        refine ⟨fun j hj hjseg ↦ ?_, hbase⟩
        rcases Nat.lt_succ_iff_lt_or_eq.1 hj with hold | rfl
        · exact hnone j hold hjseg
        · exact hseg hjseg

/-- What `readElf` returns. -/
theorem Serves.info_spec (hserves : Serves S.fs file) (himage : LoadableImage file data) :
    (S.info data).entry = (fileHeader file).entry ∧ IsBase file data (S.info data).physBase := by
  have hcount := hserves.count_eq himage.headers
  refine ⟨congrArg Ehdr.entry (hserves.elfHeader_eq himage.headers), ?_⟩
  rw [Source.info, hcount]
  rcases baseAt_spec hserves himage le_rfl with ⟨i, -, hseg, hbase, hmin⟩ | ⟨hnone, hbase⟩
  · have hphys := (himage.loadable i hseg).toNat_phys
    have hend := (himage.loadable i hseg).phys_end
    have hne : data + (filePhdr file i).paddr ≠ noBase := by
      rintro heq
      have hnum := congrArg UInt64.toNat heq
      have hbig : noBase.toNat = 2 ^ 64 - 1 := rfl
      omega
    refine Or.inl ⟨i, hseg, ?_, fun j hj ↦ hmin j hj.1 hj⟩
    show (if S.baseAt data (fileCount file) = noBase then data
      else S.baseAt data (fileCount file)) = _
    rw [hbase, if_neg hne]
  · refine Or.inr ⟨fun i hseg ↦ hnone i hseg.1 hseg, if_pos hbase⟩

/-! ### Room in the heap -/

/-- How many page tables a segment may need. -/
def Phdr.tables (p : Phdr) (data : UInt64) : ℕ :=
  (p.call data).size.depth * (p.call data).count.toNat

/-- A segment takes no more. -/
theorem loadSegment_room {F : FileSystem σ} {p : Phdr} {k : ℕ} (h : B.Room (p.tables data + k) m)
    (i : ℕ) (s : σ) :
    (loadSegment B F data i p).Yields LoadEvent.Allocates (fun _ s' _ ↦ B.Room k s'.1) (m, s) := by
  have hstore : ∀ (x : Prog Unit) (m' : Machine) (s' : σ), KeepsHeap x → B.Room k m' →
      (Exec.onFst (LoadEvent.store i) x).Yields LoadEvent.Allocates
        (fun _ s'' _ ↦ B.Room k s''.1) (m', s') :=
    fun x m' s' hx hm' ↦
      Exec.yields_onFst ⟨fun _ _ ↦ trivial, fun a ha ↦ hm'.keeps ((hx m').2 a ha)⟩
  -- the mapping call
  have hcall := Boot.perform_yields (p.call data) h
  rw [Phdr.call, ← mapSegment_eq] at hcall
  have hmap : (Exec.onFst LoadEvent.paging (mapSegment B p.vaddr (data + p.paddr) p.memsz)).Yields
      LoadEvent.Allocates (fun _ s' _ ↦ B.Room k s'.1) (m, s) := Exec.yields_onFst hcall
  refine Exec.yields_bind hmap ?_
  rintro _ ⟨m₁, s₁⟩ _ hroom₁
  -- the bytes
  refine Exec.yields_bind (ask_yields (Q := fun _ s' _ ↦ B.Room k s'.1) trivial hroom₁) ?_
  rintro bytes ⟨m₂, s₂⟩ _ hroom₂
  refine Exec.yields_bind (hstore _ m₂ s₂ (keepsHeap_storeRun _ _ _) hroom₂) ?_
  rintro _ ⟨m₃, s₃⟩ _ hroom₃
  split
  · exact hstore _ m₃ s₃ (keepsHeap_storeRun _ _ _) hroom₃
  · exact Exec.yields_pure hroom₃

namespace Source

variable (S : Source σ) (B : Boot) (data : UInt64)

/-- How many page tables the first `n` turns may need. -/
def tables : ℕ → ℕ
  | 0 => 0
  | i + 1 => tables i + if S.IsLoad i then (S.phdr i).tables data else 0

theorem loadTurn_room {i k : ℕ} {m : Machine}
    (h : B.Room ((if S.IsLoad i then (S.phdr i).tables data else 0) + k) m) (base : UInt64) :
    (loadTurn B S.fs S.rest data S.elfHeader i base).Yields LoadEvent.Allocates
      (fun _ s' _ ↦ B.Room k s'.1) (m, S.stateAt i) := by
  have hoffset : (programOffset S.elfHeader i : Load σ UInt64).Yields LoadEvent.Allocates
      (fun offset s' _ ↦ offset = S.position i ∧ s' = (m, S.stateAt i)) (m, S.stateAt i) := by
    rw [programOffset]
    split
    · exact Exec.yields_pure ⟨rfl, rfl⟩
    · exact Exec.yields_bind (Exec.yields_emit (Q := fun _ _ _ ↦ True) trivial trivial)
        fun _ _ _ _ ↦ Exec.yields_fault
  refine Exec.yields_bind hoffset ?_
  rintro _ _ _ ⟨rfl, rfl⟩
  refine Exec.yields_bind (ask_yields (Q := fun bytes s' _ ↦
    bytes = (S.program i).bytes ∧ s' = (m, (S.program i).after)) trivial ⟨rfl, rfl⟩) ?_
  rintro _ _ _ ⟨rfl, rfl⟩
  show Exec.Yields LoadEvent.Allocates _ (if (S.phdr i).type ≠ ptLoad then pure base
    else loadSegment B S.fs data i (S.phdr i) >>= fun _ ↦
      pure (if S.phys data i < base then S.phys data i else base)) _
  split
  · exact Exec.yields_pure (h.mono (Nat.le_add_left _ _))
  · next hnot =>
    have hload : S.IsLoad i := not_not.1 hnot
    rw [if_pos hload] at h
    exact Exec.yields_bind (loadSegment_room h i _) fun _ _ _ hm' ↦ Exec.yields_pure hm'

theorem loop_room {n k : ℕ} {m : Machine} (h : B.Room (S.tables data n + k) m) :
    (Exec.foldUpTo n (loadTurn B S.fs S.rest data S.elfHeader) noBase).Yields LoadEvent.Allocates
      (fun base s' _ ↦ B.Room k s'.1 ∧ base = S.baseAt data n ∧ s'.2 = S.stateAt n)
      (m, S.stateAt 0) := by
  induction n generalizing k with
  | zero => exact Exec.yields_pure ⟨h.mono (Nat.le_add_left _ _), rfl, rfl⟩
  | succ n ih =>
    rw [tables, Nat.add_assoc] at h
    refine Exec.yields_bind (ih h) ?_
    rintro _ ⟨m', _⟩ _ ⟨hroom, rfl, rfl⟩
    refine Exec.yields_mono (Exec.yields_and (S.loadTurn_room B data hroom _)
      (S.turn_yields (P := fun _ ↦ True) B data (fun _ _ ↦ trivial) m')) ?_
    rintro base s' _ ⟨hroom', -, hbase, hs', -⟩
    exact ⟨hroom', hbase, hs'⟩

/-- **Enough room**: if the heap has room for the page tables of all segments, no allocation fails,
whatever the file and memory hold. -/
theorem readElf_room {m : Machine} (h : B.Room (S.tables data S.count) m) :
    (readElf B S.fs S.rest data).Yields LoadEvent.Allocates (fun _ _ _ ↦ True) (m, S.start) := by
  refine Exec.yields_bind (ask_yields (Q := fun bytes s' _ ↦
    bytes = S.header.bytes ∧ s' = (m, S.header.after)) trivial ⟨rfl, rfl⟩) ?_
  rintro _ _ _ ⟨rfl, rfl⟩
  show Exec.Yields LoadEvent.Allocates _ (if S.elfHeader.ident ≠ elfMagic then pure (ElfInfo.mk 0 0)
    else Exec.foldUpTo S.count (loadTurn B S.fs S.rest data S.elfHeader) noBase >>= fun physBase ↦
      pure (ElfInfo.mk S.elfHeader.entry (if physBase = noBase then data else physBase))) _
  split
  · exact Exec.yields_pure trivial
  · exact Exec.yields_bind (S.loop_room (k := 0) B data h) fun _ _ _ _ ↦ Exec.yields_pure trivial

end Source

end Aidos.Loader
