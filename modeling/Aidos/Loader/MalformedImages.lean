import Aidos.Loader.LoadedKernel
import Aidos.Loader.SegmentMapping

/-!
# Malformed images

`readElf` takes the fields of the headers as they are. `readElf_careful_iff` says for which sources
it is careful nevertheless: the orderly ones.

The loader does not ask either where its own memory is. Its code, its stack, its objects and those
of the drivers are in low memory, and a segment that is mapped over them, or put in their place,
changes the program that loads it. `Clear` excludes these segments by their fields, for any set
`own` of pages of low memory in which the second stage is. From a clear and orderly source no run of
`readElf`, whether it returns or a page fault stops it, changes these pages beyond the page tables
and the free heap (`keeps_readElf`). The invariant is `Guarded`, which each turn of the loop keeps.
-/

namespace Aidos.Loader

open ByteMemory Paging

variable {σ : Type} {S : Source σ} {B : Boot} {data : UInt64} {n : ℕ} {m m₁ : Machine}
  {own : Set ℕ}

/-! ### Segments away from the loader -/

/-- 2 MiB pages are used only for whole ones. -/
theorem segmentCall_whole {virt phys size : UInt64}
    (h : (segmentCall virt phys size).size = .large) : size.toNat % 0x200000 = 0 := by
  rw [segmentCall] at h
  split at h
  · next hlarge => exact mod_eq_zero_iff.1 hlarge.2.2
  · exact PageSize.noConfusion h

/-- The pages `own` are those of the second stage: they are in low memory, with the page tables and
the free heap among them. -/
structure Owned (B : Boot) (m₁ : Machine) (own : Set ℕ) : Prop where
  /-- Below 1 MiB. -/
  low : ∀ k ∈ own, k < 256
  /-- The pages that the paging code is going to access. -/
  inUse : ∀ k ∈ B.inUse m₁, k ∈ own

/-- The ranges of a segment are ranges of the two address spaces, and meet no page of `own`. -/
structure Phdr.Apart (p : Phdr) (own : Set ℕ) (data : UInt64) : Prop where
  /-- The virtual range lies in one of the two halves of the address space. -/
  canonical : p.vaddr.toNat + p.memsz.toNat ≤ 2 ^ 47 ∨
    (2 ^ 64 - 2 ^ 47 ≤ p.vaddr.toNat ∧ p.vaddr.toNat + p.memsz.toNat ≤ 2 ^ 64)
  /-- It is apart from the pages. -/
  virt : ∀ k ∈ own, (k + 1) * 4096 ≤ p.vaddr.toNat ∨ p.vaddr.toNat + p.memsz.toNat ≤ k * 4096
  /-- The physical range ends in the physical address space. -/
  phys_end : data.toNat + p.paddr.toNat + p.memsz.toNat ≤ 2 ^ 52
  /-- It is apart from the pages. -/
  phys : ∀ k ∈ own, (k + 1) * 4096 ≤ data.toNat + p.paddr.toNat ∨
    data.toNat + p.paddr.toNat + p.memsz.toNat ≤ k * 4096

/-- Every segment is apart from the loader, and none that takes 4 KiB pages reaches into one before
that has 2 MiB pages. -/
structure Source.Clear (S : Source σ) (own : Set ℕ) (data : UInt64) : Prop where
  /-- The ranges. -/
  apart : S.Magic → ∀ i < S.count, S.IsLoad i → (S.phdr i).memsz ≠ 0 → (S.phdr i).Apart own data
  /-- The page sizes. -/
  sizes : S.Magic → ∀ i < S.count, ∀ j < i, S.IsLoad i → S.IsLoad j →
    ((S.phdr i).call data).size = .small → ((S.phdr j).call data).size = .large →
    (S.phdr i).vaddr.toNat + (S.phdr i).memsz.toNat ≤ (S.phdr j).vaddr.toNat ∨
      (S.phdr j).vaddr.toNat + (S.phdr j).memsz.toNat ≤ (S.phdr i).vaddr.toNat

/-- An empty segment covers nothing. -/
theorem not_covers_of_empty {p : Phdr} (hzero : p.memsz = 0) {w : UInt64} :
    ¬ (p.call data).Covers w := by
  have hcount : (p.call data).count.toNat * (p.call data).size.bytes = span p.memsz.toNat :=
    segmentCall_count _ _ (by rw [hzero]; decide)
  rw [hzero, span, UInt64.toNat_zero] at hcount
  have hnone : (p.call data).count.toNat = 0 :=
    (Nat.mul_eq_zero.1 hcount).resolve_right (Nat.ne_of_gt (p.call data).size.bytes_pos)
  rw [BootCall.Covers, hnone]
  exact Nat.not_lt_zero _

namespace Phdr.Apart

variable {p : Phdr} (h : p.Apart own data)

include h

theorem toNat_phys : (data + p.paddr).toNat = data.toNat + p.paddr.toNat := by
  have hend := h.phys_end
  rw [UInt64.toNat_add]
  omega

/-- No address of the segment is in those pages. -/
theorem pageOf_not_mem (hlow : ∀ k ∈ own, k < 256) {v : UInt64} (hv : p.Contains v) :
    pageOf v ∉ own := by
  intro hown
  have hlt := hlow _ hown
  have hcan := h.canonical
  have hvirt := h.virt _ hown
  obtain ⟨hge, hend⟩ := hv
  have hv64 := v.toNat_lt
  rw [pageOf] at hlt hvirt
  omega

/-- The pages of the call are pages of the segment: none wraps around. -/
theorem of_covers {w : UInt64} (hw : (p.call data).Covers w) :
    (p.call data).size.pageNumber w =
        (p.call data).size.pageNumber p.vaddr + (p.call data).turn w ∧
      (p.call data).turn w * (p.call data).size.bytes < p.memsz.toNat ∧
      ((p.call data).size = .large →
        (p.call data).turn w * 0x200000 + 0x200000 ≤ p.memsz.toNat ∧
          p.vaddr.toNat % 0x200000 = 0 ∧ (data.toNat + p.paddr.toNat) % 0x200000 = 0) := by
  have hend := h.phys_end
  have hcan := h.canonical
  have hvirt := p.vaddr.toNat_lt
  have hphys := h.toNat_phys
  have hstart : (p.call data).virt = p.vaddr := (segmentCall_start _ _ _).1
  have hcount : (p.call data).count.toNat * (p.call data).size.bytes = span p.memsz.toNat :=
    segmentCall_count _ _ (by omega)
  have hlarge : (p.call data).size = .large → p.vaddr.toNat % 0x200000 = 0 ∧
      (data + p.paddr).toNat % 0x200000 = 0 := segmentCall_large
  have hwhole : (p.call data).size = .large → p.memsz.toNat % 0x200000 = 0 := segmentCall_whole
  rw [hphys] at hlarge
  rcases hcall : p.call data with ⟨s, virt, phys, count⟩
  rw [hcall] at hw hcount hstart hlarge hwhole
  obtain rfl : virt = p.vaddr := hstart
  rw [BootCall.Covers, BootCall.turn] at hw
  rw [span] at hcount
  cases s with
  | small =>
    rw [BootCall.turn]
    simp only [PageSize.pageNumber, PageSize.bytes, PageSize.pages, reduceCtorEq,
      false_implies, and_true] at hw hcount ⊢
    omega
  | large =>
    obtain ⟨hv, hp⟩ := hlarge rfl
    have hsize := hwhole rfl
    rw [BootCall.turn]
    simp only [PageSize.pageNumber, PageSize.bytes, PageSize.pages, true_implies] at hw hcount ⊢
    omega

/-- The call leaves those pages where they are. -/
theorem pageOf_not_mem_of_covers (hlow : ∀ k ∈ own, k < 256) {w : UInt64}
    (hw : (p.call data).Covers w) : pageOf w ∉ own := by
  intro hown
  have hlt := hlow _ hown
  have hcan := h.canonical
  have hvirt := h.virt _ hown
  have hv64 := p.vaddr.toNat_lt
  obtain ⟨hpage, hturn, hlarge⟩ := h.of_covers hw
  rw [pageOf] at hlt hvirt
  rcases hsize : (p.call data).size with - | -
  · rw [hsize] at hpage hturn
    simp only [PageSize.pageNumber, PageSize.bytes, PageSize.pages] at hpage hturn
    omega
  · obtain ⟨hfit, hmod, -⟩ := hlarge hsize
    rw [hsize] at hpage hturn
    simp only [PageSize.pageNumber, PageSize.bytes, PageSize.pages] at hpage hturn
    omega

/-- The entries of the call are for other pages. -/
theorem physical_not_mem {w : UInt64} (hw : (p.call data).Covers w) {q : ℕ}
    (hq : physical w ((p.call data).size.depth,
      (p.call data).size.entry ((p.call data).pa ((p.call data).turn w))) = some q) :
    q / 4096 ∉ own := by
  intro hown
  have hapart := h.phys _ hown
  have hend := h.phys_end
  have hphys := h.toNat_phys
  obtain ⟨-, hturn, hlarge⟩ := h.of_covers hw
  have hstart : (p.call data).phys = data + p.paddr := (segmentCall_start _ _ _).2
  have hpa := BootCall.toNat_pa_of_lt (c := p.call data) (i := (p.call data).turn w)
    (by rw [hstart, hphys]; omega)
  rw [hstart, hphys] at hpa
  rcases hsize : (p.call data).size with - | -
  · rw [hsize] at hq hpa hturn
    simp only [PageSize.bytes] at hpa hturn
    have hq' : physical w (3, presentRw ((p.call data).pa ((p.call data).turn w))) = some q := hq
    rw [(physical_presentRw _ _).2, frameOf, hpa] at hq'
    have hsum := Option.some.inj hq'
    omega
  · obtain ⟨hfit, -, hp⟩ := hlarge hsize
    rw [hsize] at hq hpa hturn
    simp only [PageSize.bytes] at hpa hturn
    have hmod : ((p.call data).pa ((p.call data).turn w)).toNat % PageSize.large.bytes = 0 := by
      rw [hpa]
      simp only [PageSize.bytes]
      omega
    rw [(PageSize.large.entry_fields hmod (by rw [hpa]; omega) w).2.2, hpa] at hq
    have hsum := Option.some.inj hq
    simp only [PageSize.bytes] at hsum
    omega

/-- A segment with 4 KiB pages takes none inside a segment with 2 MiB pages that it does not meet.
-/
theorem not_covers_both {q : Phdr} (hq : q.Apart own data) (hsmall : (p.call data).size = .small)
    (hlarge : (q.call data).size = .large)
    (hdisj : p.vaddr.toNat + p.memsz.toNat ≤ q.vaddr.toNat ∨
      q.vaddr.toNat + q.memsz.toNat ≤ p.vaddr.toNat) {w : UInt64}
    (hp : (p.call data).Covers w) : ¬ (q.call data).Covers w := by
  intro hqw
  have hcan := h.canonical
  have hqcan := hq.canonical
  have hvirt := p.vaddr.toNat_lt
  have hqvirt := q.vaddr.toNat_lt
  obtain ⟨hpage, hturn, -⟩ := h.of_covers hp
  obtain ⟨hqpage, -, hqlarge⟩ := hq.of_covers hqw
  obtain ⟨hfit, hmod, -⟩ := hqlarge hlarge
  rw [hsmall] at hpage hturn
  rw [hlarge] at hqpage
  simp only [PageSize.pageNumber, PageSize.bytes, PageSize.pages] at hpage hturn hqpage
  omega

end Phdr.Apart

/-! ### The invariant -/

/-- The memory of the second stage is what it was in `m₁`, beyond the page tables and the free heap,
and it is where it was. -/
structure OwnKept (B : Boot) (own : Set ℕ) (m₁ m : Machine) : Prop where
  /-- The bytes. -/
  mem : ∀ q, q / 4096 ∈ own → q / 4096 ∉ B.inUse m₁ → m.mem q = m₁.mem q
  /-- The addresses. -/
  translate : ∀ v : UInt64, v.toNat / 4096 ∈ own → m.translate v = some v.toNat

/-- The loader has made the first `n` turns since `m₁`. -/
structure Guarded (S : Source σ) (B : Boot) (own : Set ℕ) (data : UInt64) (m₁ : Machine) (n : ℕ)
    (m : Machine) : Prop where
  /-- Its memory is mapped to itself. -/
  linear : (B.space own).Sound m
  /-- The tables are in pages that were tables or free heap. -/
  sound : (B.space (B.inUse m₁)).Sound m
  /-- The rest of its memory is kept. -/
  mem : ∀ q, q / 4096 ∈ own → q / 4096 ∉ B.inUse m₁ → m.mem q = m₁.mem q
  /-- The other pages are mapped elsewhere. -/
  apart : ∀ w l, m.look w = some l → pageOf w ∉ own → ∀ q, physical w l = some q → q / 4096 ∉ own
  /-- The 2 MiB pages are those of segments. -/
  sizes : ∀ w l, m.look w = some l → l.1 = 3 ∨ (l.1 = 2 ∧ ∃ j < n, S.IsLoad j ∧
    (S.phdr j).memsz ≠ 0 ∧ ((S.phdr j).call data).size = .large ∧
    ((S.phdr j).call data).Covers w)

namespace Guarded

theorem ownKept (h : Guarded S B own data m₁ n m) : OwnKept B own m₁ m where
  mem := h.mem
  translate := by
    intro v hv
    rw [h.linear.linear v hv]
    exact congrArg (fun x : UInt64 ↦ some x.toNat) (UInt64.sub_zero v)

/-- A later turn has begun. -/
theorem mono (h : Guarded S B own data m₁ n m) {k : ℕ} (hk : n ≤ k) :
    Guarded S B own data m₁ k m :=
  { h with
    sizes := fun w l hl ↦ (h.sizes w l hl).imp_right fun ⟨hdepth, j, hj, hrest⟩ ↦
      ⟨hdepth, j, Nat.lt_of_lt_of_le hj hk, hrest⟩ }

/-- The tables that `setup_paging` leaves. -/
theorem of_started (hm : B.Started m₁) (hown : Owned B m₁ own) :
    Guarded S B own data m₁ 0 m₁ where
  linear := { hm.tight with
    linear := fun v hv ↦ (prepared_of_started hm).sound.linear v (hown.low _ hv)
    free_mem := fun p hp ↦ hown.inUse _ (hm.tight.free_mem p hp)
    tables := fun t ht ↦ hown.inUse _ (hm.tight.tables t ht) }
  sound := hm.tight
  mem := fun _ _ _ ↦ rfl
  apart := by
    intro w l hl hw q hq
    rw [hm.look] at hl
    split at hl
    · next hlow =>
      rw [← Option.some.inj hl, (physical_presentRw _ w).2, frameOf,
        UInt64.toNat_ofNat_of_lt' (Nat.lt_of_le_of_lt (Nat.mul_le_mul_left 4096 hlow.le)
          (by decide))] at hq
      have hsum := Option.some.inj hq
      have hpage : q / 4096 = pageOf w := by omega
      rwa [hpage]
    · exact absurd hl (by simp)
  sizes := by
    intro w l hl
    exact Or.inl ((undisturbed_of_started hm).small w l hl)

/-- Writing a byte through an address of other pages. -/
theorem store (hown : Owned B m₁ own) (h : Guarded S B own data m₁ n m) {v : UInt64}
    (hv : pageOf v ∉ own) {q : ℕ} (hq : m.translate v = some q) (b : UInt8) :
    Guarded S B own data m₁ n { m with mem := Function.update m.mem q b } := by
  have hcan := Machine.canonical_of_translate hq
  rw [Machine.translate_eq hcan] at hq
  obtain ⟨l, hl, hphys⟩ := Option.bind_eq_some_iff.1 hq
  have hout := h.apart v l hl hv q hphys
  have hkeep : m.KeepsTables { m with mem := Function.update m.mem q b } := by
    refine Machine.keepsTables_of_mem fun a ha ↦ Function.update_of_ne (fun heq ↦ ?_) _ _
    have hin := h.sound.tables _ ha
    rw [Boot.page_pointer_space (Machine.isTable_lt ha), heq] at hin
    exact hout (hown.inUse _ hin)
  refine ⟨h.linear.keeps hkeep rfl, h.sound.keeps hkeep rfl, fun a ha hfree ↦ ?_, fun w l hl ↦ ?_,
    fun w l hl ↦ ?_⟩
  · rw [← h.mem a ha hfree]
    refine Function.update_of_ne (fun heq ↦ hout ?_) _ _
    rwa [heq] at ha
  · rw [hkeep.look] at hl
    exact h.apart w l hl
  · rw [hkeep.look] at hl
    exact h.sizes w l hl

end Guarded

/-! ### A turn -/

/-- Writing bytes through addresses of other pages, as far as they are mapped. -/
theorem Guarded.keeps_storeRun (hown : Owned B m₁ own) (h : Guarded S B own data m₁ n m)
    {dest : UInt64} {f : ℕ → UInt8} {k : ℕ}
    (hdest : ∀ b < k, pageOf (dest + UInt64.ofNat b) ∉ own) {assume : Event → Prop} :
    (storeRun dest f k).Keeps assume (OwnKept B own m₁) (fun _ ↦ Guarded S B own data m₁ n) m := by
  refine Exec.keeps_forUpTo (fun _ ↦ Guarded S B own data m₁ n) (fun _ _ h' ↦ h'.ownKept) h ?_
  intro b hb m' h'
  have haccess : (access (Event.write (dest + UInt64.ofNat b)) (dest + UInt64.ofNat b)).Keeps assume
      (OwnKept B own m₁)
      (fun q m'' ↦ m' = m'' ∧ m'.translate (dest + UInt64.ofNat b) = some q) m' := by
    refine Exec.keeps_bind (Q := fun _ m'' ↦ m' = m'') (Exec.keeps_of_wp
      (Exec.wp_emit fun _ ↦ rfl) ?_) ?_
    · rintro _ _ rfl
      exact h'.ownKept
    rintro _ _ rfl
    refine Exec.keeps_bind (Q := fun s m'' ↦ m' = s ∧ m' = m'') (Exec.keeps_of_wp
      (Exec.wp_get ⟨rfl, rfl⟩) ?_) ?_
    · rintro _ _ ⟨-, rfl⟩
      exact h'.ownKept
    rintro _ _ ⟨rfl, rfl⟩
    split
    · next q hq =>
      refine Exec.keeps_of_wp (Exec.wp_pure ⟨rfl, hq⟩) ?_
      rintro _ _ ⟨rfl, -⟩
      exact h'.ownKept
    · exact Exec.keeps_fault h'.ownKept
  refine Exec.keeps_bind haccess ?_
  rintro q _ ⟨rfl, hq⟩
  exact Exec.keeps_of_wp (Exec.wp_modify (h'.store hown (hdest b hb) hq _))
    fun _ _ h'' ↦ h''.ownKept

section Turn

variable (hown : Owned B m₁ own) (hmagic : S.Magic) (hclear : S.Clear own data) (hn : n < S.count)
  (hload : S.IsLoad n)
include hown hmagic hclear hn hload

/-- Mapping the segment. -/
theorem Guarded.wp_map (h : Guarded S B own data m₁ n m) :
    (B.perform ((S.phdr n).call data)).wp Event.Allocates
      (fun _ m' ↦ Guarded S B own data m₁ (n + 1) m') m := by
  have hapart {w : UInt64} (hw : ((S.phdr n).call data).Covers w) :
      (S.phdr n).memsz ≠ 0 ∧ (S.phdr n).Apart own data := by
    have hne : (S.phdr n).memsz ≠ 0 := fun hzero ↦ not_covers_of_empty hzero hw
    exact ⟨hne, hclear.apart hmagic n hn hload hne⟩
  have hentry (i : ℕ) : x86.child ((S.phdr n).call data).size.depth
        (((S.phdr n).call data).size.entry (((S.phdr n).call data).pa i)) = none ∧
      x86.leaf ((S.phdr n).call data).size.depth
        (((S.phdr n).call data).size.entry (((S.phdr n).call data).pa i)) = true := by
    refine PageSize.entry_leaf _ fun hsize ↦ ?_
    have hphys := (segmentCall_large hsize).2
    rw [BootCall.pa_offset]
    have hstart : ((S.phdr n).call data).phys = data + (S.phdr n).paddr :=
      (segmentCall_start _ _ _).2
    rw [hstart]
    omega
  have hcovers {i : ℕ} (hi : i < ((S.phdr n).call data).count.toNat) :
      ((S.phdr n).call data).Covers (((S.phdr n).call data).va i) :=
    BootCall.covers_iff.1 ⟨i, hi, List.take_prefix _ _⟩
  have hstay (i : ℕ) (hi : i < ((S.phdr n).call data).count.toNat) (w : UInt64)
      (hw : w.toNat / 4096 ∈ own)
      (hpre : (pathOf (((S.phdr n).call data).va i)).take
        (((S.phdr n).call data).size.depth + 1) <+: pathOf w) : False := by
    have hcov : ((S.phdr n).call data).Covers w := BootCall.covers_iff.1 ⟨i, hi, hpre⟩
    have hlt := hown.low _ hw
    refine (hapart hcov).2.pageOf_not_mem_of_covers hown.low hcov ?_
    rwa [pageOf, Nat.mod_eq_of_lt (Nat.lt_trans hlt (by decide))]
  have hbig (i : ℕ) (hi : i < ((S.phdr n).call data).count.toNat) (l : ℕ × UInt64)
      (hl : m.look (((S.phdr n).call data).va i) = some l) :
      ((S.phdr n).call data).size.depth ≤ l.1 := by
    rcases hsize : ((S.phdr n).call data).size with - | -
    · rcases h.sizes _ l hl with hdepth | ⟨-, j, hj, hjload, hjne, hjlarge, hjcov⟩
      · exact hdepth.ge
      · have hcov := hcovers hi
        obtain ⟨-, hp⟩ := hapart hcov
        have hq := hclear.apart hmagic j (Nat.lt_trans hj hn) hjload hjne
        exact absurd hjcov (hp.not_covers_both hq hsize hjlarge
          (hclear.sizes hmagic n hn j hj hload hjload hsize hjlarge) hcov)
    · rcases h.sizes _ l hl with hdepth | ⟨hdepth, -⟩
      · rw [hdepth]
        exact Nat.le_succ 2
      · exact hdepth.ge
  have hspan : ((S.phdr n).call data).count.toNat * ((S.phdr n).call data).size.bytes ≤ 2 ^ 48 := by
    by_cases hzero : (S.phdr n).memsz = 0
    · rw [Nat.eq_zero_of_not_pos fun hpos ↦ not_covers_of_empty hzero (hcovers hpos), Nat.zero_mul]
      exact Nat.zero_le _
    · have hcan := (hclear.apart hmagic n hn hload hzero).canonical
      rw [Phdr.call, segmentCall_count _ _ (by omega), span]
      omega
  refine Exec.wp_mono (Exec.wp_and
    (Boot.wp_turns h.linear (fun i _ ↦ (hentry i).1) hbig fun i hi w hw hpre ↦
      (hstay i hi w hw hpre).elim)
    (Boot.wp_turns h.sound (fun i _ ↦ (hentry i).1) hbig fun i hi w hw hpre ↦
      (hstay i hi w (hown.inUse _ hw) hpre).elim)) ?_
  rintro _ m' ⟨hown', hin'⟩
  have hlook {w : UInt64} {l : ℕ × UInt64} (hl : m'.look w = some l) : m.look w = some l ∨
      (((S.phdr n).call data).Covers w ∧ l = (((S.phdr n).call data).size.depth,
        ((S.phdr n).call data).size.entry
          (((S.phdr n).call data).pa (((S.phdr n).call data).turn w)))) := by
    rw [hown'.look, BootCall.overlay_count hspan fun i _ ↦ (hentry i).2, BootCall.leafOf] at hl
    split at hl
    · next hcov => exact Or.inr ⟨hcov, (Option.some.inj hl).symm⟩
    · exact Or.inl hl
  refine ⟨hown'.sound, hin'.sound, fun q hq hout ↦ ?_, fun w l hl hw q hphys ↦ ?_,
    fun w l hl ↦ ?_⟩
  · -- what changes is in the tables
    rw [← h.mem q hq hout]
    by_contra hne
    obtain ⟨path, -, hpath⟩ := hin'.changed q hne
    have hin := hin'.sound.tables _ ⟨path, hpath⟩
    rw [Boot.page_pointer_space (Machine.isTable_lt ⟨path, hpath⟩)] at hin
    exact hout hin
  · rcases hlook hl with hold | ⟨hcov, rfl⟩
    · exact h.apart w l hold hw q hphys
    · exact (hapart hcov).2.physical_not_mem hcov hphys
  · rcases hlook hl with hold | ⟨hcov, rfl⟩
    · exact (h.mono (Nat.le_succ n)).sizes w l hold
    · rcases hsize : ((S.phdr n).call data).size with - | -
      · exact Or.inl rfl
      · exact Or.inr ⟨rfl, n, Nat.lt_succ_self n, hload, (hapart hcov).1, hsize, hcov⟩

variable (htame : S.Tame n)
include htame

/-- What is written of the segment goes to other pages. -/
theorem pageOf_not_mem_of_written {b : ℕ} (hb : S.Written n b) :
    pageOf ((S.phdr n).vaddr + UInt64.ofNat b) ∉ own := by
  have hin {j : ℕ} (hj : j < S.count) (hjload : S.IsLoad j)
      (hcontains : (S.phdr j).Contains ((S.phdr n).vaddr + UInt64.ofNat b)) :
      pageOf ((S.phdr n).vaddr + UInt64.ofNat b) ∉ own := by
    refine (hclear.apart hmagic j hj hjload fun hzero ↦ ?_).pageOf_not_mem hown.low hcontains
    obtain ⟨hge, hlt⟩ := hcontains
    rw [hzero, UInt64.toNat_zero, Nat.add_zero] at hlt
    exact Nat.not_lt.2 hge hlt
  rcases htame.ends hload b hb with hthis | ⟨j, hj, hjload, hcontains⟩
  · exact hin hn hload ((Phdr.contains_add_iff hb.lt).2 hthis)
  · exact hin (Nat.lt_trans hj hn) hjload hcontains

/-- **Loading the segment**, as far as its addresses are mapped. -/
theorem Guarded.keeps_loadSegment (h : Guarded S B own data m₁ n m) :
    (loadSegment B S.fs data n (S.phdr n)).Keeps LoadEvent.Allocates
      (fun s' ↦ OwnKept B own m₁ s'.1)
      (fun _ s' ↦ Guarded S B own data m₁ (n + 1) s'.1 ∧ s'.2 = (S.segment n).after)
      (m, (S.program n).after) := by
  have hout {b : ℕ} (hb : S.Written n b) :=
    pageOf_not_mem_of_written hown hmagic hclear hn hload htame hb
  have hmap := h.wp_map hown hmagic hclear hn hload
  rw [Phdr.call, ← mapSegment_eq] at hmap
  refine Exec.keeps_bind (Q := fun _ s' ↦ Guarded S B own data m₁ (n + 1) s'.1 ∧
    s'.2 = (S.program n).after) (Exec.keeps_onFst (Exec.keeps_of_wp (Exec.wp_mono hmap
      fun _ _ h₁ ↦ ⟨h₁, rfl⟩) fun _ _ h₁ ↦ h₁.1.ownKept)) ?_
  rintro _ ⟨m₂, _⟩ ⟨h₂, rfl⟩
  -- the bytes of the file
  refine Exec.keeps_bind (Q := fun bytes s' ↦ bytes = (S.segment n).bytes ∧
    s' = (m₂, (S.segment n).after)) (Exec.keeps_of_wp (wp_ask ⟨rfl, rfl⟩) ?_) ?_
  · rintro _ _ ⟨-, rfl⟩
    exact h₂.ownKept
  rintro _ _ ⟨rfl, rfl⟩
  refine Exec.keeps_bind (Q := fun _ s' ↦ Guarded S B own data m₁ (n + 1) s'.1 ∧
    s'.2 = (S.segment n).after) (Exec.keeps_onFst (Exec.keeps_mono
      (h₂.keeps_storeRun hown fun b hb ↦ hout (Or.inl hb)) fun _ _ h₃ ↦ ⟨h₃, rfl⟩)) ?_
  rintro _ ⟨m₃, _⟩ ⟨h₃, rfl⟩
  -- the zeros behind them
  split
  · next hmore =>
    have hsum := Source.toNat_sub_filesz hmore
    rw [memset]
    refine Exec.keeps_onFst (Exec.keeps_mono (h₃.keeps_storeRun hown fun b hb ↦ ?_)
      fun _ _ h₄ ↦ ⟨h₄, rfl⟩)
    rw [Source.cleared_addr]
    exact hout (Or.inr ⟨Nat.le_add_right _ b, by omega⟩)
  · exact Exec.keeps_of_wp (Exec.wp_pure ⟨h₃, rfl⟩) fun _ _ h₄ ↦ h₄.1.ownKept

end Turn

/-- A turn of the loop. -/
theorem Guarded.keeps_loadTurn (hown : Owned B m₁ own) (hmagic : S.Magic)
    (hclear : S.Clear own data)
    (hn : n < S.count) (htame : S.Tame n) (h : Guarded S B own data m₁ n m) {base : UInt64} :
    (loadTurn B S.fs S.rest data S.elfHeader n base).Keeps LoadEvent.Allocates
      (fun s' ↦ OwnKept B own m₁ s'.1)
      (fun _ s' ↦ Guarded S B own data m₁ (n + 1) s'.1 ∧ s'.2 = S.stateAt (n + 1))
      (m, S.stateAt n) := by
  -- the offset
  have hoffset : (programOffset S.elfHeader n : Load σ UInt64).wp LoadEvent.Allocates
      (fun offset s' ↦ offset = S.position n ∧ s' = (m, S.stateAt n)) (m, S.stateAt n) := by
    have hsmall : n * S.elfHeader.phentsize.toNat < 2 ^ 31 := htame.product
    rw [programOffset, if_pos hsmall]
    exact Exec.wp_pure ⟨rfl, rfl⟩
  refine Exec.keeps_bind (Exec.keeps_of_wp hoffset ?_) ?_
  · rintro _ _ ⟨-, rfl⟩
    exact h.ownKept
  rintro _ _ ⟨rfl, rfl⟩
  -- the program header
  refine Exec.keeps_bind (Q := fun bytes s' ↦ bytes = (S.program n).bytes ∧
    s' = (m, (S.program n).after)) (Exec.keeps_of_wp (wp_ask ⟨rfl, rfl⟩) ?_) ?_
  · rintro _ _ ⟨-, rfl⟩
    exact h.ownKept
  rintro _ _ ⟨rfl, rfl⟩
  show Exec.Keeps LoadEvent.Allocates _ (if (S.phdr n).type ≠ ptLoad then pure base
    else loadSegment B S.fs data n (S.phdr n) >>= fun _ ↦
      pure (if S.phys data n < base then S.phys data n else base)) _ _
  rw [S.stateAt_succ]
  split
  · next hnot =>
    exact Exec.keeps_of_wp (Exec.wp_pure ⟨h.mono (Nat.le_succ n), (if_neg hnot).symm⟩)
      fun _ _ h' ↦ h'.1.ownKept
  · next hnot =>
    have hload : S.IsLoad n := not_not.1 hnot
    rw [if_pos hload]
    refine Exec.keeps_bind (h.keeps_loadSegment hown hmagic hclear hn hload htame) ?_
    exact fun _ _ h' ↦ Exec.keeps_of_wp (Exec.wp_pure h') fun _ _ h'' ↦ h''.1.ownKept

/-- **The loader keeps its own memory** when it loads a clear and orderly source, also where the
processor stops it. -/
theorem keeps_readElf (hm : B.Started m₁) (hown : Owned B m₁ own) (hclear : S.Clear own data)
    (hord : S.Orderly) :
    (readElf B S.fs S.rest data).Keeps LoadEvent.Allocates (fun s' ↦ OwnKept B own m₁ s'.1)
      (fun _ s' ↦ OwnKept B own m₁ s'.1) (m₁, S.start) := by
  have h₀ : Guarded S B own data m₁ 0 m₁ := Guarded.of_started hm hown
  refine Exec.keeps_bind (Q := fun bytes s' ↦ bytes = S.header.bytes ∧
    s' = (m₁, S.header.after)) (Exec.keeps_of_wp (wp_ask ⟨rfl, rfl⟩) ?_) ?_
  · rintro _ _ ⟨-, rfl⟩
    exact h₀.ownKept
  rintro _ _ ⟨rfl, rfl⟩
  show Exec.Keeps LoadEvent.Allocates _ (if S.elfHeader.ident ≠ elfMagic then pure (ElfInfo.mk 0 0)
    else Exec.foldUpTo S.count (loadTurn B S.fs S.rest data S.elfHeader) noBase >>= fun physBase ↦
      pure (ElfInfo.mk S.elfHeader.entry (if physBase = noBase then data else physBase))) _ _
  split
  · exact Exec.keeps_of_wp (Exec.wp_pure h₀.ownKept) fun _ _ h ↦ h
  · next hmagic =>
    have hloop : (Exec.foldUpTo S.count (loadTurn B S.fs S.rest data S.elfHeader) noBase).Keeps
        LoadEvent.Allocates (fun s' ↦ OwnKept B own m₁ s'.1)
        (fun _ s' ↦ Guarded S B own data m₁ S.count s'.1 ∧ s'.2 = S.stateAt S.count)
        (m₁, S.header.after) := by
      refine Exec.keeps_foldUpTo (fun i _ (s' : Machine × σ) ↦
        Guarded S B own data m₁ i s'.1 ∧ s'.2 = S.stateAt i) (fun _ _ _ h ↦ h.1.ownKept)
          ⟨h₀, rfl⟩ ?_
      rintro i hi base ⟨m', _⟩ ⟨h, rfl⟩
      exact h.keeps_loadTurn hown (not_not.1 hmagic) hclear hi
        (hord.tame (not_not.1 hmagic) i hi)
    refine Exec.keeps_bind hloop fun _ _ h ↦ ?_
    exact Exec.keeps_of_wp (Exec.wp_pure h.1.ownKept) fun _ _ h' ↦ h'

/-- The headers of the image with two segments. -/
theorem orderly_twoSegments : (Source.ofBytes twoSegments).Orderly where
  sought := by decide +kernel
  full := by decide +kernel
  tame := by
    intro _ i hi
    have hcount : (Source.ofBytes twoSegments).count = 3 := by decide +kernel
    have hchecks : ∀ i < 3, (Source.ofBytes twoSegments).distance i < 2 ^ 31 ∧
        (Source.ofBytes twoSegments).elfHeader.phoff.toNat +
          (Source.ofBytes twoSegments).distance i < 2 ^ 32 ∧
        ((Source.ofBytes twoSegments).program i).ok = true ∧
        ((Source.ofBytes twoSegments).program i).bytes.length = phdrSize.toNat ∧
        ((Source.ofBytes twoSegments).segment i).bytes.length ≤
          ((Source.ofBytes twoSegments).phdr i).memsz.toNat ∧
        ((Source.ofBytes twoSegments).phdr i).vaddr.toNat +
          ((Source.ofBytes twoSegments).phdr i).memsz.toNat ≤ 2 ^ 64 := by decide +kernel
    obtain ⟨hproduct, hfits, hsought, hfull, hle, hwrap⟩ := hchecks i (hcount ▸ hi)
    exact ⟨hproduct, hfits, hsought, hfull, fun _ _ hb ↦ Or.inl (Source.ends_of_le hle hwrap hb)⟩

/-- Its segments are above 1 MiB. -/
theorem clear_twoSegments : (Source.ofBytes twoSegments).Clear lowPages 0x400000 where
  apart := by
    intro _ i hi hload _
    have hcount : (Source.ofBytes twoSegments).count = 3 := by decide +kernel
    have hchecks : ∀ i < 3, (Source.ofBytes twoSegments).IsLoad i →
        (((Source.ofBytes twoSegments).phdr i).vaddr.toNat +
          ((Source.ofBytes twoSegments).phdr i).memsz.toNat ≤ 2 ^ 47 ∨
          (2 ^ 64 - 2 ^ 47 ≤ ((Source.ofBytes twoSegments).phdr i).vaddr.toNat ∧
            ((Source.ofBytes twoSegments).phdr i).vaddr.toNat +
              ((Source.ofBytes twoSegments).phdr i).memsz.toNat ≤ 2 ^ 64)) ∧
        0x100000 ≤ ((Source.ofBytes twoSegments).phdr i).vaddr.toNat ∧
        0x400000 + ((Source.ofBytes twoSegments).phdr i).paddr.toNat +
          ((Source.ofBytes twoSegments).phdr i).memsz.toNat ≤ 2 ^ 52 := by decide +kernel
    obtain ⟨hcan, hvirt, hend⟩ := hchecks i (hcount ▸ hi) hload
    refine ⟨hcan, fun k hk ↦ Or.inl ?_, hend, fun k hk ↦ Or.inl ?_⟩
    · have hlow : k < 256 := hk
      omega
    · have hlow : k < 256 := hk
      have hdata : (0x400000 : UInt64).toNat = 0x400000 := rfl
      omega
  sizes := by
    intro _ i hi j hj _ _ hsmall hlarge
    have hcount : (Source.ofBytes twoSegments).count = 3 := by decide +kernel
    have hchecks : ∀ i < 3, ∀ j < i,
        (((Source.ofBytes twoSegments).phdr i).call 0x400000).size = .small →
        (((Source.ofBytes twoSegments).phdr j).call 0x400000).size ≠ .large := by decide +kernel
    exact absurd hlarge (hchecks i (hcount ▸ hi) j hj hsmall)

/-- An image with one segment of one byte in the file and none in memory. -/
def strayByte : Source ℕ := Source.ofBytes (image 0 [⟨ptLoad, 120, 0, 0, 1, 0⟩] [0x90])

end Aidos.Loader
