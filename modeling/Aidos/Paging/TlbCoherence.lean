import Aidos.Paging.KernelMapping

/-!
# Cached translations and the kernel's `invlpg`

A processor may answer a translation from its TLB, a set of leaves it has read from the tables
before. Software keeps the TLB `Coherent` with the tables by executing `invlpg` on the page of every
leaf it clears.

`unmap_4k` and `unmap_2m` clear one entry in each turn, at `va`, but every turn flushes `virt`, the
start of the range. So the TLB stays coherent exactly if whatever the tables map in the range is
mapped by the page of `virt` itself (`UnmapCall.keepsCoherent_iff`).
-/

namespace Aidos.Paging

/-- An entry of the TLB: the leaf of a page, which is named by the indices that lead to the leaf. -/
structure Cached where
  /-- The indices of the page. -/
  page : List Index
  /-- The leaf, with its depth. -/
  leaf : ℕ × UInt64
  /-- The last index is the one of the leaf. -/
  length_page : page.length = leaf.1 + 1
  /-- Only leaves that translate are cached. -/
  valid : (leafPage leaf).isSome

namespace Cached

/-- The entry translates this address. -/
def Translates (t : Cached) (v : UInt64) : Prop := t.page <+: pathOf v

/-- The entry is what the walk of its page finds. -/
def Agrees (m : Machine) (t : Cached) : Prop := ∀ v, t.Translates v → m.look v = some t.leaf

end Cached

/-- Every cached translation agrees with the tables. -/
def Coherent (m : Machine) (T : Set Cached) : Prop := ∀ t ∈ T, t.Agrees m

/-- The TLB after the events of a run: each `invlpg` has removed the page of its address. -/
def flushed (events : List Event) (T : Set Cached) : Set Cached :=
  {t | t ∈ T ∧ ∀ v, Event.invlpg v ∈ events → Canonical v → ¬ t.Translates v}

/-! ### Leaves and pages -/

namespace Machine

variable {m : Machine} {v w : UInt64} {l : ℕ × UInt64}

/-- A leaf is the leaf of its whole page. -/
theorem look_of_same_page (h : m.look v = some l) (hw : (pathOf v).take (l.1 + 1) <+: pathOf w) :
    m.look w = some l := by
  obtain ⟨p, t, i, hp, ⟨r, hr⟩, rfl, hleaf⟩ := exists_of_look h
  have htake : (pathOf v).take (p.length + 1) = p ++ [i] := by
    rw [← hr, List.take_left' (by simp)]
  obtain ⟨r', hr'⟩ := htake ▸ hw
  have hnone : x86.child p.length (entryAt m.mem t i) = none := by
    rcases hc : x86.child p.length (entryAt m.mem t i) with _ | s
    · rfl
    · exact absurd (x86.leaf_of_child hc) (by rw [hleaf]; simp)
  rw [Machine.look, lookAt, ← hr', List.append_assoc, List.singleton_append,
    TreeFormat.look_append (i :: r') hp, Nat.zero_add,
      TreeFormat.look_cons_of_none r' hnone, if_pos hleaf]

end Machine

/-- The entry of a page that the tables map. -/
def Cached.ofLook {m : Machine} {v : UInt64} {l : ℕ × UInt64} (h : m.look v = some l)
    (hl : (leafPage l).isSome) : Cached where
  page := (pathOf v).take (l.1 + 1)
  leaf := l
  length_page := length_take_pathOf v (Nat.succ_le_succ (Machine.look_depth h))
  valid := hl

theorem Cached.agrees_ofLook {m : Machine} {v : UInt64} {l : ℕ × UInt64} (h : m.look v = some l)
    (hl : (leafPage l).isSome) : (Cached.ofLook h hl).Agrees m :=
  fun _ hw ↦ Machine.look_of_same_page h hw

/-- The page of an entry that translates an address. -/
theorem Cached.page_eq {t : Cached} {v : UInt64} (h : t.Translates v) :
    t.page = (pathOf v).take (t.leaf.1 + 1) := by
  rw [← t.length_page]
  exact List.prefix_iff_eq_take.1 h

/-! ### The calls -/

/-- A call of the kernel's interface that unmaps pages. -/
inductive UnmapCall where
  /-- `unmap_4k(virt, count)`. -/
  | unmap4k (virt count : UInt64)
  /-- `unmap_2m(virt, count)`. -/
  | unmap2m (virt count : UInt64)

namespace UnmapCall

/-- The start of the range. -/
def virt : UnmapCall → UInt64
  | unmap4k v _ => v
  | unmap2m v _ => v

/-- The number of turns. -/
def count : UnmapCall → UInt64
  | unmap4k _ n => n
  | unmap2m _ n => n

/-- The depth of the entries that are cleared. -/
def depth : UnmapCall → ℕ
  | unmap4k _ _ => 3
  | unmap2m _ _ => 2

/-- The program of a call. -/
def prog (K : Kernel) : UnmapCall → Prog Unit
  | unmap4k v n => K.unmap4k v n
  | unmap2m v n => K.unmap2m v n

/-- The body of its loop, for the page `va`. -/
def body (K : Kernel) (c : UnmapCall) (va : UInt64) : Prog Unit :=
  match c with
  | unmap4k v _ => K.unmapPage v va
  | unmap2m v _ => K.unmapLarge v va

theorem prog_eq (K : Kernel) (c : UnmapCall) :
    c.prog K = Exec.forUpTo c.count.toNat fun i ↦ c.body K (rangePage c.virt i) := by
  cases c <;> rfl

/-- The entry cleared in some turn is on the path of the address. -/
def Covers (c : UnmapCall) (v : UInt64) : Prop :=
  ∃ i < c.count.toNat, (pathOf (rangePage c.virt i)).take (c.depth + 1) <+: pathOf v

/-- After the call the TLB is as it should be, whatever coherent entries it had: no page whose leaf
the call cleared is cached, and every cached translation agrees with the tables. -/
def KeepsCoherent (K : Kernel) (c : UnmapCall) (m : Machine) : Prop :=
  ∀ T : Set Cached, Coherent m T →
    (∀ v, m.look v ≠ none → ((c.prog K).run m).state.look v = none →
      ∀ t ∈ flushed ((c.prog K).run m).events T, ¬ t.Translates v) ∧
    Coherent ((c.prog K).run m).state (flushed ((c.prog K).run m).events T)

/-- Whatever the tables map in the range is mapped by the page of `virt`. -/
def OnlyFirstPage (c : UnmapCall) (m : Machine) : Prop :=
  ∀ v l, c.Covers v → m.look v = some l → (leafPage l).isSome →
    Canonical c.virt ∧ (pathOf v).take (l.1 + 1) <+: pathOf c.virt

end UnmapCall

/-- A page-table state of the kernel: its tables are accessible at the distance `KERNEL_OFFSET`, in
pages that the calls to come leave alone. -/
structure Kernel.Serves (K : Kernel) (S : Space) (m : Machine) : Prop where
  /-- The invariant of the paging code. -/
  sound : S.Sound m
  /-- The tables are where the kernel looks for them. -/
  offset : m.kernelOffset = S.offset
  /-- The root is the static table. -/
  pml4 : S.pml4 = K.pml4
  /-- No table is at the null pointer. -/
  zero : 0 ∉ S.region

namespace UnmapCall

variable {K : Kernel} {S : Space} {m : Machine}

/-- The call leaves the pages alone that the kernel keeps its tables in. -/
def Away (S : Space) (c : UnmapCall) : Prop :=
  ∀ w : UInt64, w.toNat / 4096 ∈ S.region → ¬ c.Covers w

/-- No page of the range is part of a larger page than the call unmaps. -/
def Fits (c : UnmapCall) (m : Machine) : Prop :=
  ∀ v l, c.Covers v → m.look v = some l → c.depth ≤ l.1

/-- One turn clears an entry and flushes `virt`, or finds nothing to clear. -/
theorem wp_body (h : K.Serves S m) {c : UnmapCall} {va : UInt64}
    (hfits : ∀ l, m.look va = some l → c.depth ≤ l.1)
    (haway : ∀ w : UInt64, w.toNat / 4096 ∈ S.region →
      ¬ (pathOf va).take (c.depth + 1) <+: pathOf w)
    {assume : Event → Prop} :
    (c.body K va).wp assume (fun _ m' ↦ (S.Sound m' ∧ Space.Remapped c.depth va 0 m m') ∧
      (m' = m ∨ assume (Event.invlpg c.virt))) m := by
  cases c with
  | unmap4k virt count =>
    refine Kernel.wp_unmapPage h.pml4 h.sound h.offset h.zero (fun l hl ↦ ?_) haway
    exact Nat.le_antisymm (Machine.look_depth hl) (hfits l hl)
  | unmap2m virt count => exact Kernel.wp_unmapLarge h.pml4 h.sound h.offset h.zero hfits haway

/-- A turn of the loop covers its page. -/
theorem covers_turn (c : UnmapCall) {i : ℕ} (hi : i < c.count.toNat) :
    c.Covers (rangePage c.virt i) :=
  ⟨i, hi, List.take_prefix _ _⟩

/-- The call clears what it covers and nothing else. -/
theorem wp_prog (h : K.Serves S m) {c : UnmapCall} (haway : c.Away S) (hfits : c.Fits m)
    {assume : Event → Prop} :
    (c.prog K).wp assume (fun _ m' ↦ (∀ v, c.Covers v → m'.look v = none) ∧
      ∀ v, ¬ c.Covers v → m'.look v = m.look v) m := by
  have hloop : (c.prog K).wp assume (fun _ ↦ S.Stage c.depth m
      (Space.overlay c.depth (rangePage c.virt) (fun _ ↦ 0) m.look c.count.toNat)) m := by
    rw [prog_eq]
    refine Space.Stage.loop h.sound fun i hi m' hm' ↦ ?_
    refine Exec.wp_mono (wp_body ⟨hm'.sound, hm'.kernelOffset.trans h.offset, h.pml4, h.zero⟩
      (fun l hl ↦ ?_) fun w hw hpre ↦ haway w hw ⟨i, hi, hpre⟩) fun _ _ h ↦ h.1
    rw [hm'.look] at hl
    rcases Space.overlay_cases hl with hold | hdepth
    · exact hfits _ l (c.covers_turn hi) hold
    · exact hdepth.ge
  refine Exec.wp_mono hloop fun _ m' hm' ↦ ⟨?_, fun v hv ↦ ?_⟩
  · rintro v ⟨i, hi, hpre⟩
    rw [hm'.look, Space.overlay_of_covered _ _ hi hpre fun _ _ _ ↦ rfl, leaf_zero]
    rfl
  · rw [hm'.look]
    exact Space.overlay_of_not_covered fun j hj hpre ↦ hv ⟨j, hj, hpre⟩

/-- A call that does not flush `virt` has changed nothing. -/
theorem wp_prog_of_not_flush (h : K.Serves S m) {c : UnmapCall} (haway : c.Away S)
    (hfits : c.Fits m) :
    (c.prog K).wp (fun e ↦ e ≠ Event.invlpg c.virt) (fun _ m' ↦ m' = m) m := by
  rw [prog_eq]
  refine Exec.wp_forUpTo (fun _ m' ↦ m' = m) rfl fun i hi m' hm' ↦ ?_
  subst hm'
  refine Exec.wp_mono (wp_body h (fun l ↦ hfits _ l (c.covers_turn hi))
    fun w hw hpre ↦ haway w hw ⟨i, hi, hpre⟩) ?_
  rintro _ m' ⟨-, hsame | hflush⟩
  · exact hsame
  · exact absurd rfl hflush

/-! ### What a call flushes -/

/-- The event flushes no page but the one of `virt`. -/
def FlushesOnly (virt : UInt64) (e : Event) : Prop := ∀ v, e = Event.invlpg v → v = virt

theorem emits_getTableIfExists (virt parent i : UInt64) :
    (Kernel.getTableIfExists parent i).Emits (FlushesOnly virt) := by
  have hload : (load64 (parent + 8 * i)).Emits (FlushesOnly virt) := emits_load64 fun v hv ↦ by
    exact absurd hv (by simp)
  refine Exec.emits_bind hload fun entry ↦ ?_
  split
  · exact Exec.emits_pure 0
  · exact Exec.emits_bind hload fun _ ↦ Exec.emits_bind Exec.emits_get fun _ ↦ Exec.emits_pure _

theorem emits_clear (virt p : UInt64) :
    (do store64 p 0; Kernel.flushTlbSingle virt : Prog Unit).Emits (FlushesOnly virt) := by
  refine Exec.emits_bind (emits_store64 fun v hv ↦ absurd hv (by simp)) fun _ ↦ Exec.emits_emit ?_
  intro v hv
  exact (Event.invlpg.inj hv).symm

/-- Every `invlpg` of a call is of the start of its range. -/
theorem emits_prog (c : UnmapCall) : (c.prog K).Emits (FlushesOnly c.virt) := by
  rw [prog_eq]
  refine Exec.emits_forUpTo fun i ↦ ?_
  have hnext (parent j : UInt64) {f : UInt64 → Prog Unit} (hf : ∀ t,
      (f t).Emits (FlushesOnly c.virt)) :
      (do let t ← Kernel.getTableIfExists parent j
          if t = 0 then pure () else f t : Prog Unit).Emits (FlushesOnly c.virt) := by
    refine Exec.emits_bind (emits_getTableIfExists _ parent j) fun t ↦ ?_
    split
    · exact Exec.emits_pure ()
    · exact hf t
  cases c with
  | unmap4k virt count =>
    exact hnext _ _ fun _ ↦ hnext _ _ fun _ ↦ hnext _ _ fun _ ↦ emits_clear virt _
  | unmap2m virt count => exact hnext _ _ fun _ ↦ hnext _ _ fun _ ↦ emits_clear virt _

/-! ### Coherence -/

/-- If everything in the range is mapped by the page of `virt`, the TLB stays coherent. -/
theorem keepsCoherent_of_onlyFirstPage (h : K.Serves S m) {c : UnmapCall} (haway : c.Away S)
    (hfits : c.Fits m) (honly : c.OnlyFirstPage m) : c.KeepsCoherent K m := by
  intro T hT
  have hprog : (c.prog K).wp (fun _ ↦ True) _ m := wp_prog h haway hfits
  obtain ⟨-, -, hclear, hkeep⟩ := hprog fun _ _ ↦ trivial
  have hagrees : Coherent ((c.prog K).run m).state (flushed ((c.prog K).run m).events T) := by
    rintro t ⟨ht, hleft⟩ v hv
    have hold := hT t ht v hv
    by_cases hcov : c.Covers v
    · -- the page of `t` is the one of `virt`, so that nothing has been flushed
      obtain ⟨hcan, hpage⟩ := honly v t.leaf hcov hold t.valid
      rw [← t.page_eq hv] at hpage
      obtain ⟨-, -, hsame⟩ := wp_prog_of_not_flush h haway hfits fun e he heq ↦
        hleft c.virt (heq ▸ he) hcan hpage
      rw [hsame]
      exact hold
    · rw [hkeep v hcov]
      exact hold
  refine ⟨fun v _ hnone t ht hv ↦ ?_, hagrees⟩
  have hlook := hagrees t ht v hv
  rw [hnone] at hlook
  exact absurd hlook (by simp)

/-- If the TLB stays coherent, everything in the range is mapped by the page of `virt`. -/
theorem onlyFirstPage_of_keepsCoherent (h : K.Serves S m) {c : UnmapCall} (haway : c.Away S)
    (hfits : c.Fits m) (hkeeps : c.KeepsCoherent K m) : c.OnlyFirstPage m := by
  intro v l hcov hlook hvalid
  have hprog : (c.prog K).wp (fun _ ↦ True) _ m := wp_prog h haway hfits
  obtain ⟨-, -, hclear, -⟩ := hprog fun _ _ ↦ trivial
  have hone : Coherent m {Cached.ofLook hlook hvalid} := by
    intro t ht
    rw [Set.mem_singleton_iff.1 ht]
    exact Cached.agrees_ofLook hlook hvalid
  obtain ⟨hgone, -⟩ := hkeeps _ hone
  by_contra hnot
  refine hgone v (by rw [hlook]; simp) (hclear v hcov) (Cached.ofLook hlook hvalid) ⟨rfl, ?_⟩
    (List.take_prefix _ _)
  rintro u hu hcan hpage
  rw [emits_prog c m _ hu u rfl] at hcan hpage
  exact hnot ⟨hcan, hpage⟩

/-- **TLB coherence.** In a page-table state of the kernel, a call that unmaps a range without
larger pages, away from the pages of the tables, returns, and it keeps every coherent TLB coherent
if and only if whatever the tables map in the range is mapped by the page of `virt`. -/
theorem keepsCoherent_iff (h : K.Serves S m) {c : UnmapCall} (haway : c.Away S) (hfits : c.Fits m) :
    ((c.prog K).run m).value = some () ∧ (c.KeepsCoherent K m ↔ c.OnlyFirstPage m) := by
  have hprog : (c.prog K).wp (fun _ ↦ True) _ m := wp_prog h haway hfits
  obtain ⟨_, hvalue, -⟩ := hprog fun _ _ ↦ trivial
  exact ⟨hvalue, onlyFirstPage_of_keepsCoherent h haway hfits,
    keepsCoherent_of_onlyFirstPage h haway hfits⟩

end UnmapCall

/-! ### Two mapped pages -/

namespace Kernel

/-- The small kernel with two pages mapped above its image, from `0xFFFF800000100000` on. -/
def twoPages : Machine :=
  (smallMachine.setEntry 259 256 (presentRw 0x300000)).setEntry 259 257 (presentRw 0x301000)

/-- What holds of the small kernel after entries have been stored above its image: the machine still
serves it, its page table is where it was, and there are no large pages. -/
structure Small (m : Machine) : Prop where
  /-- The paging code can run. -/
  serves : small.Serves ready_smallMachine.space m
  /-- The page table of the image. -/
  table : m.tableAt [256, 0, 0] = some 259
  /-- There are no large pages. -/
  bottom : ∀ v l, m.look v = some l → l.1 = 3

theorem small_smallMachine : Small smallMachine where
  serves := ⟨ready_smallMachine.sound, rfl, rfl, fun h ↦ zero_not_mem_imagePages h.1⟩
  table := by decide
  bottom := ready_smallMachine.small

/-- The pages from the seventeenth on are not part of the image. -/
theorem not_mem_region {i : Index} (hi : 17 ≤ (i : ℕ)) {w : UInt64}
    (hw : w.toNat / 4096 ∈ ready_smallMachine.space.region) : ¬ [256, 0, 0, i] <+: pathOf w := by
  obtain ⟨⟨hlow, hend⟩, -⟩ := hw
  have hlow' : 0xFFFF800000000 ≤ w.toNat / 4096 := hlow
  have hend' : w.toNat / 4096 * 4096 < 0xFFFF800000011000 := hend
  intro hpre
  have hpath : [256, 0, 0, i] = pathOf w := hpre.eq_of_length rfl
  have hindex : i = index 12 w := by
    simp only [pathOf, List.cons.injEq, and_true] at hpath
    exact hpath.2.2.2
  have hval : (i : ℕ) = w.toNat / 2 ^ 12 % 512 := by
    rw [hindex]
    rfl
  omega

/-- Mapping one more page. -/
theorem Small.setEntry {m : Machine} (h : Small m) {i : Index} {x : UInt64} (hi : 17 ≤ (i : ℕ)) :
    Small (m.setEntry 259 i x) ∧ ∀ v, (m.setEntry 259 i x).look v =
      if [256, 0, 0, i] <+: pathOf v then if x86.leaf 3 x then some (3, x) else none
        else m.look v := by
  obtain ⟨hsound, hlook, htable⟩ :=
    h.serves.sound.setEntry (i := i) (x := x) h.table (child_bottom x)
    fun v hv hpre ↦ absurd hpre (not_mem_region hi hv)
  refine ⟨⟨⟨hsound, h.serves.offset, rfl, h.serves.zero⟩,
    (htable _ _).2 ⟨h.table, fun hpre ↦ ?_⟩, ?_⟩, hlook⟩
  · exact absurd hpre.length_le (by simp)
  · intro v l hl
    rw [hlook] at hl
    split at hl
    · split at hl
      · exact (congrArg Prod.fst (Option.some.inj hl)).symm
      · exact absurd hl (by simp)
    · exact h.bottom v l hl

theorem small_twoPages : Small twoPages :=
  (small_smallMachine.setEntry (by decide)).1.setEntry (by decide) |>.1

/-- The second page is mapped. -/
theorem look_twoPages : twoPages.look 0xFFFF800000101000 = some (3, presentRw 0x301000) := by
  have hlook :=
    ((small_smallMachine.setEntry (i := 256) (x := presentRw 0x300000) (by decide)).1.setEntry
    (i := 257) (x := presentRw 0x301000) (by decide)).2 0xFFFF800000101000
  exact hlook.trans (by decide)

/-- Unmapping at most two pages above the image leaves the tables alone. -/
theorem away_twoPages {count : UInt64} (hcount : count.toNat ≤ 2) :
    (UnmapCall.unmap4k 0xFFFF800000100000 count).Away ready_smallMachine.space := by
  rintro w hw ⟨i, hi, hpre⟩
  have hi' : i < count.toNat := hi
  have hturn : ∀ i < 2, 17 ≤ (index 12 (rangePage 0xFFFF800000100000 i) : ℕ) ∧
      (pathOf (rangePage 0xFFFF800000100000 i)).take 4 =
        [256, 0, 0, index 12 (rangePage 0xFFFF800000100000 i)] := by decide
  obtain ⟨hj, hpath⟩ := hturn i (by omega)
  have hpre' : (pathOf (rangePage 0xFFFF800000100000 i)).take 4 <+: pathOf w := hpre
  rw [hpath] at hpre'
  exact not_mem_region hj hw hpre'

theorem fits_twoPages (count : UInt64) :
    (UnmapCall.unmap4k 0xFFFF800000100000 count).Fits twoPages :=
  fun v l _ hl ↦ (small_twoPages.bottom v l hl).ge

theorem keepsCoherent_iff_twoPages :
    (((UnmapCall.unmap4k 0xFFFF800000100000 1).prog small).run twoPages).value = some () ∧
      (UnmapCall.unmap4k 0xFFFF800000100000 1).KeepsCoherent small twoPages := by
  obtain ⟨hvalue, hiff⟩ :=
    UnmapCall.keepsCoherent_iff small_twoPages.serves (away_twoPages (by decide))
    (fits_twoPages 1)
  refine ⟨hvalue, hiff.2 ?_⟩
  rintro v l ⟨i, hi, hpre⟩ hl -
  have hzero : i = 0 := Nat.lt_one_iff.1 hi
  have hpre' : (pathOf 0xFFFF800000100000).take 4 <+: pathOf v := by
    rw [hzero] at hpre
    exact hpre
  refine ⟨by decide, ?_⟩
  rw [small_twoPages.bottom v l hl, prefix_four_iff]
  exact (prefix_four_iff.1 hpre').symm

/-- Unmapping both pages leaves the second one in the TLB. -/
theorem not_keepsCoherent_twoPages :
    ¬ (UnmapCall.unmap4k 0xFFFF800000100000 2).KeepsCoherent small twoPages := by
  intro hkeeps
  have honly :=
    UnmapCall.onlyFirstPage_of_keepsCoherent small_twoPages.serves (away_twoPages (by decide))
    (fits_twoPages 2) hkeeps
  obtain ⟨-, hpage⟩ :=
    honly 0xFFFF800000101000 _ ⟨1, by decide, by decide⟩ look_twoPages (by decide)
  exact absurd hpage (by decide)

end Kernel

end Aidos.Paging
