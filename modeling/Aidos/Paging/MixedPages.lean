import Mathlib.Data.Bool.AllAny
import Aidos.Library.Updates
import Aidos.Paging.BootMapping
import Aidos.Paging.KernelTables

/-!
# Mixed page sizes

Histories of `map_4k` and `map_2m` calls of the bootloader, from `setup_paging` on. The address
space is what the calls say, the latest one first, as long as every call is compatible with what is
mapped when it is made (`Boot.Compatible`): no 4 KiB page is asked for inside a 2 MiB page, and no
page that the page tables or the free heap live in is moved away. Such calls write page tables only.

The first condition is needed because `get_or_create_table` and `get_table_if_exists` do not look at
`PAGE_PSE` (`returnsTable_iff`): they take a 2 MiB page for a page table, and `map_4k` stores its
entry into the data.
-/

namespace Aidos.Paging

open ByteMemory Memory

/-! ### What the helpers return -/

namespace Space

variable {S : Space} {m : Machine}

/-- At entry `idx` of the table `t`, which the path `p` leads to, the helper returns the pointer to
the table of the tree that stands below this entry. -/
def ReturnsTable (S : Space) (get : UInt64 → UInt64 → Prog UInt64) (m : Machine)
    (p : List Index) (t : ℕ)
    (i : UInt64) (idx : Index) : Prop :=
  (get (S.pointer t) i).wp Event.Allocates
    (fun a m' ↦ ∃ s, a = S.pointer s ∧ m'.tableAt (p ++ [idx]) = some s) m

theorem Sound.run_loadEntry (h : S.Sound m) {t : ℕ} (ht : m.IsTable t) {i : UInt64} {idx : Index}
    (hi : i.toNat = idx) :
    (load64 (S.pointer t + 8 * i)).run m =
      ⟨some (entryAt m.mem t idx), m, [Event.read (S.pointer t + 8 * i)]⟩ := by
  obtain ⟨hal, htr⟩ := h.translate_entry ht hi
  rw [load64, if_pos hal, Exec.run_bind_of_some (run_access htr)]
  rfl

/-- Below an entry that maps a large page there is no table. -/
theorem not_returnsTable {get : UInt64 → UInt64 → Prog UInt64} {p : List Index} {t : ℕ} {i : UInt64}
    {idx : Index} {a : UInt64} {es : List Event} (ht : m.tableAt p = some t)
    (hl : large (entryAt m.mem t idx) = true) (hrun : (get (S.pointer t) i).run m = ⟨some a, m, es⟩)
    (hes : ∀ e ∈ es, e.Allocates) : ¬ S.ReturnsTable get m p t i idx := by
  intro hret
  rw [ReturnsTable, Exec.wp, hrun] at hret
  obtain ⟨-, -, s, -, hs⟩ := hret hes
  rw [Machine.tableAt, TreeFormat.tableAt_snoc] at hs
  obtain ⟨t', ht', hc⟩ := Option.bind_eq_some_iff.1 hs
  obtain rfl := Option.some.inj (ht.symm.trans ht')
  rw [child_of_large hl] at hc
  exact absurd hc (by simp)

/-- The helpers that return a table for every present entry: the table of the tree below it, unless
the entry maps a large page. -/
theorem GetsTable.returnsTable_iff {get : UInt64 → UInt64 → Prog UInt64}
    (hg : GetsTable S m.kernelOffset get) (h : S.Sound m) {p : List Index} {t : ℕ} {i : UInt64}
    {idx : Index} (ht : m.tableAt p = some t) (hp : p.length < 3) (hi : i.toNat = idx)
    (hrun : present (entryAt m.mem t idx) = true → ∃ a es,
      (get (S.pointer t) i).run m = ⟨some a, m, es⟩ ∧
      ∀ e ∈ es, e.Allocates) :
    S.ReturnsTable get m p t i idx ↔
      ¬ (present (entryAt m.mem t idx) = true ∧ large (entryAt m.mem t idx) = true) := by
  constructor
  · rintro hret ⟨hpres, hl⟩
    obtain ⟨a, es, hrun, hes⟩ := hrun hpres
    exact not_returnsTable ht hl hrun hes hret
  · intro hnot
    refine Exec.wp_mono (hg h rfl ht hp hi fun hpres ↦ ?_) fun a m' hm' ↦ hm'.2.2
    by_contra hl
    exact hnot ⟨hpres, by simpa using hl⟩

end Space

/-- The bootloader's `get_or_create_table` does not look at `PAGE_PSE`. -/
theorem Boot.run_getOrCreateTable (B : Boot) {R : Set ℕ} {m : Machine} (h : (B.space R).Sound m)
    {t : ℕ} (ht : m.IsTable t) {i : UInt64} {idx : Index} (hi : i.toNat = idx)
    (hpres : present (entryAt m.mem t idx) = true) :
    (B.getOrCreateTable ((B.space R).pointer t) i).run m =
      ⟨some (entryAt m.mem t idx &&& ~~~0xFFF), m,
        [Event.read ((B.space R).pointer t + 8 * i),
          Event.read ((B.space R).pointer t + 8 * i)]⟩ := by
  have hload := h.run_loadEntry ht hi
  rw [Boot.getOrCreateTable, Exec.run_bind_of_some hload, hpres, if_neg (by simp),
    Exec.run_bind_of_some hload]
  rfl

/-- The kernel's `get_or_create_table` does not look at `PAGE_PSE`. -/
theorem Kernel.run_getOrCreateTable (K : Kernel) {S : Space} {m : Machine} (h : S.Sound m)
    {t : ℕ} (ht : m.IsTable t) {i : UInt64} {idx : Index} (hi : i.toNat = idx)
    (hpres : present (entryAt m.mem t idx) = true) :
    (K.getOrCreateTable (S.pointer t) i).run m =
      ⟨some ((entryAt m.mem t idx &&& ~~~0xFFF) + m.kernelOffset), m,
        [Event.read (S.pointer t + 8 * i), Event.read (S.pointer t + 8 * i)]⟩ := by
  have hload := h.run_loadEntry ht hi
  rw [Kernel.getOrCreateTable, Exec.run_bind_of_some hload, hpres, if_neg (by simp),
    Exec.run_bind_of_some hload]
  rfl

/-- Nor does `get_table_if_exists`. -/
theorem Kernel.run_getTableIfExists {S : Space} {m : Machine} (h : S.Sound m)
    {t : ℕ} (ht : m.IsTable t) {i : UInt64} {idx : Index} (hi : i.toNat = idx)
    (hpres : present (entryAt m.mem t idx) = true) :
    (Kernel.getTableIfExists (S.pointer t) i).run m =
      ⟨some ((entryAt m.mem t idx &&& ~~~0xFFF) + m.kernelOffset), m,
        [Event.read (S.pointer t + 8 * i), Event.read (S.pointer t + 8 * i)]⟩ := by
  have hload := h.run_loadEntry ht hi
  rw [Kernel.getTableIfExists, Exec.run_bind_of_some hload, hpres, if_neg (by simp),
    Exec.run_bind_of_some hload]
  rfl

/-! ### Histories of calls -/

namespace Boot

variable {B : Boot} {m m₀ : Machine}

/-- A call that fits what is mapped when it is made. -/
structure Compatible (B : Boot) (m : Machine) (c : BootCall) : Prop where
  /-- The ranges fit the address spaces. -/
  fits : c.Fits
  /-- No 4 KiB page is asked for below an entry with `PAGE_PSE`. -/
  small : c.size = .small → ∀ w, c.Covers w → ∀ l, m.look w = some l → l.1 = 3
  /-- Pages that hold page tables or free heap are mapped to themselves. -/
  stays : ∀ w : UInt64, w.toNat / 4096 ∈ B.inUse m → c.Covers w → c.assign w = some (some w.toNat)

/-- The state between two calls: the tree is as the routines need it, and all pages are 4 KiB or
2 MiB. -/
structure Serving (B : Boot) (m : Machine) : Prop where
  /-- The invariant. -/
  tight : B.Tight m
  /-- The page sizes. -/
  sizes : ∀ v l, m.look v = some l → 2 ≤ l.1

/-- Every byte that changes from `m` to `m'` is in a page table. -/
def WritesTables (m m' : Machine) : Prop := ∀ q, m'.mem q ≠ m.mem q → m'.IsTable (q / 4096)

/-- The mapping of `setup_paging`. -/
def lowIdentity (v : UInt64) : Option ℕ := if pageOf v < 256 then some (v.toNat % 2 ^ 48) else none

theorem Started.serving (h : B.Started m) : B.Serving m where
  tight := h.tight
  sizes := by
    intro v l hl
    rw [h.look] at hl
    split at hl
    · rw [← Option.some.inj hl]
      exact Nat.le_succ 2
    · exact absurd hl (by simp)

theorem Started.walk (h : B.Started m) (v : UInt64) : m.walk v = lowIdentity v := by
  rw [Machine.walk_eq, h.look, lowIdentity]
  split
  · next hlow =>
    have hnum : (UInt64.ofNat (4096 * pageOf v)).toNat = 4096 * pageOf v :=
      UInt64.toNat_ofNat_of_lt' (Nat.lt_of_le_of_lt (Nat.mul_le_mul_left 4096 hlow.le) (by decide))
    rw [Option.bind_some, (physical_presentRw _ v).2, frameOf, hnum, pageOf]
    refine congrArg some ?_
    omega
  · rfl

/-- **A compatible call** returns, is its update, and writes page tables only. -/
theorem Serving.wp_perform (h : B.Serving m) {c : BootCall} (hal : c.Aligned)
    (hc : B.Compatible m c) :
    (B.perform c).wp Event.Allocates (fun _ m' ↦ (B.Serving m' ∧
      ∀ w, m'.walk w = (c.assign w).getD (m.walk w)) ∧ WritesTables m m') m := by
  have hdepth : 2 ≤ c.size.depth := by cases c.size <;> decide
  have hbig : ∀ w, c.Covers w → ∀ l, m.look w = some l → c.size.depth ≤ l.1 := by
    intro w hw l hl
    cases hsize : c.size with
    | small => exact (hc.small hsize w hw l hl).ge
    | large => exact h.sizes w l hl
  refine Exec.wp_mono (wp_call h.tight hal hc.fits hbig hc.stays) fun _ m' hm' ↦ ?_
  refine ⟨⟨⟨Tight.of_sound hm'.sound, fun v l hl ↦ ?_⟩, fun w ↦ ?_⟩, fun q hq ↦ ?_⟩
  · rw [hm'.look, BootCall.leafOf] at hl
    split at hl
    · rw [← Option.some.inj hl]
      exact hdepth
    · exact h.sizes v l hl
  · rw [Machine.walk_eq, hm'.look]
    exact BootCall.bind_leafOf hal hc.fits w (m.look w)
  · obtain ⟨p, -, hp⟩ := hm'.changed q hq
    exact ⟨p, hp⟩

/-- `m` is reached from `m₀` by `setup_paging` and the given calls, none of which runs out of
memory. Each call is `ok` in the state it is made in. -/
inductive Reaches (B : Boot) (ok : Machine → BootCall → Prop) (m₀ : Machine) :
    List BootCall → Machine → Prop
  | setup {m : Machine} {es : List Event} (hrun : B.setupPaging.run m₀ = ⟨some (), m, es⟩) :
      Reaches B ok m₀ [] m
  | call {calls : List BootCall} {c : BootCall} {m m' : Machine} {es : List Event}
      (hbefore : Reaches B ok m₀ calls m) (hok : ok m c)
        (hrun : (B.perform c).run m = ⟨some (), m', es⟩)
      (hev : ∀ e ∈ es, e.Allocates) : Reaches B ok m₀ (calls ++ [c]) m'

/-- An aligned and compatible call. -/
def Proper (B : Boot) (m : Machine) (c : BootCall) : Prop := c.Aligned ∧ B.Compatible m c

theorem Reaches.serving (hm : B.Entered m₀) {calls : List BootCall}
    (h : B.Reaches B.Proper m₀ calls m) :
    B.Serving m ∧ ∀ v, m.walk v = latest BootCall.assign calls lowIdentity v := by
  induction h with
  | setup hrun =>
    have hstart : B.setupPaging.wp (fun _ ↦ True) (fun _ m ↦ B.Started m) m₀ :=
      wp_setupPaging_started hm
    have hm' := Exec.of_wp_of_run hstart hrun fun _ _ ↦ trivial
    exact ⟨hm'.serving, hm'.walk⟩
  | call hbefore hok hrun hev ih =>
    obtain ⟨hserv, hwalk⟩ := ih
    obtain ⟨⟨hserv', hwalk'⟩, -⟩ := Exec.of_wp_of_run (hserv.wp_perform hok.1 hok.2) hrun hev
    refine ⟨hserv', fun v ↦ ?_⟩
    rw [hwalk', hwalk, latest_snoc]

/-- **Mixed page sizes.** `setup_paging` returns. After any history of aligned and compatible calls
that do not run out of memory, the hardware walk of every address gives what the latest call
covering it says; one more such call returns and writes page tables only. Of the helpers, those of
the kernel included, each returns a table of the tree, except where it is asked for the table below
an entry that maps a large page. -/
theorem mixed_pages (hm : B.Entered m₀) :
    (∃ m es, B.setupPaging.run m₀ = ⟨some (), m, es⟩) ∧
    (∀ calls m, B.Reaches B.Proper m₀ calls m →
      (∀ v, m.walk v = latest BootCall.assign calls lowIdentity v) ∧
      (∀ c, B.Proper m c → (B.perform c).wp Event.Allocates (fun _ m' ↦ WritesTables m m') m) ∧
      ∀ (p : List Index) (t : ℕ) (i : UInt64) (idx : Index), m.tableAt p = some t →
        p.length < 3 → i.toNat = idx →
        ((B.space (B.inUse m)).ReturnsTable B.getOrCreateTable m p t i idx ↔
          ¬ (present (entryAt m.mem t idx) = true ∧ large (entryAt m.mem t idx) = true))) ∧
    (∀ (K : Kernel) (S : Space) (m : Machine), S.heap = K.heap → S.Sound m →
      m.kernelOffset = S.offset →
      ∀ (p : List Index) (t : ℕ) (i : UInt64) (idx : Index), m.tableAt p = some t →
        p.length < 3 → i.toNat = idx →
        (S.ReturnsTable K.getOrCreateTable m p t i idx ↔
          ¬ (present (entryAt m.mem t idx) = true ∧ large (entryAt m.mem t idx) = true)) ∧
        (present (entryAt m.mem t idx) = true →
          (S.ReturnsTable Kernel.getTableIfExists m p t i idx ↔
            ¬ large (entryAt m.mem t idx) = true))) := by
  have hreads : ∀ v, ∀ e ∈ [Event.read v, Event.read v], e.Allocates := by
    simp [Event.Allocates]
  refine ⟨?_, fun calls m h ↦ ?_, fun K S m hheap h hk p t i idx ht hp hi ↦ ⟨?_, fun hpres ↦ ?_⟩⟩
  · have hstart : B.setupPaging.wp (fun _ ↦ True) (fun _ m ↦ B.Started m) m₀ :=
      wp_setupPaging_started hm
    obtain ⟨_, m, es, hrun, -⟩ := Exec.exists_run_of_wp hstart
    exact ⟨m, es, hrun⟩
  · obtain ⟨hserv, hwalk⟩ := h.serving hm
    refine ⟨hwalk, fun c hc ↦ Exec.wp_mono (hserv.wp_perform hc.1 hc.2) fun _ _ hm' ↦ hm'.2,
      fun p t i idx ht hp hi ↦ ?_⟩
    refine Space.GetsTable.returnsTable_iff getsTable hserv.tight ht hp hi fun hpres ↦ ?_
    exact ⟨_, _, B.run_getOrCreateTable hserv.tight ⟨p, ht⟩ hi hpres, hreads _⟩
  · refine Space.GetsTable.returnsTable_iff (by rw [hk]; exact Kernel.getsTable hheap) h ht hp hi
      fun hpres ↦ ?_
    exact ⟨_, _, K.run_getOrCreateTable h ⟨p, ht⟩ hi hpres, hreads _⟩
  · have hrun := Kernel.run_getTableIfExists h ⟨p, ht⟩ hi hpres
    constructor
    · intro hret hl
      exact Space.not_returnsTable ht hl hrun (hreads _) hret
    · intro hl
      have hchild := child_of_pointer (d := p.length) hpres (by simpa using hl) hp
      have hptr := h.pointer_of_entry ht hchild
      rw [Space.ReturnsTable, Exec.wp, hrun, hk, hptr]
      exact fun _ ↦ ⟨_, rfl, _, rfl, TreeFormat.reached_of_child ht hchild⟩

/-! ### A small second stage -/

/-- Static tables at `0x20000` and a heap of 64 KiB behind them. -/
def small : Boot where
  heap :=
    { heapStart := 0x30000
      heapEnd := 0x40000
      start_pos := by decide
      start_le_end := by decide }
  pml4 := 0x20000
  pdpt := 0x21000
  pd := 0x22000
  pt := 0x23000
  aligned := List.all_iff_forall_prop.1 (by decide)
  low := List.all_iff_forall_prop.1 (by decide)
  nodup := by decide
  lt_heapStart := by decide
  heap_low := by decide
  heap_apart := List.all_iff_forall_prop.1 (by decide)

/-- The tables of the start-up code, in the frames 16 to 18: the first 1 GiB in 2 MiB pages. -/
def startEntries (f i : ℕ) : UInt64 :=
  if f = 16 then if i = 0 then presentRw 0x11000 else 0
  else if f = 17 then if i = 0 then presentRw 0x12000 else 0
  else if f = 18 then PageSize.large.entry (UInt64.ofNat (0x200000 * i))
  else 0

/-- The machine when the second stage starts. -/
def smallStart : Machine where
  mem := ofEntries startEntries
  cr3 := 0x10000
  heapOffset := 0
  kernelOffset := 0

/-- The tables of the start-up code and their paths. -/
def startTables : List (List Index × ℕ) := [([], 16), ([0], 17), ([0, 0], 18)]

theorem mem_startTables {p : List Index} {t : ℕ} (h : smallStart.tableAt p = some t) :
    (p, t) ∈ startTables := by
  refine TreeFormat.tableAt_induction (P := fun p t ↦ (p, t) ∈ startTables) (by decide) ?_ h
  intro p t i s ht hs
  have hentry : entryAt smallStart.mem t i = startEntries t i := entryAt_ofEntries startEntries t i
  rw [hentry] at hs
  simp only [startTables, List.mem_cons, Prod.mk.injEq, List.not_mem_nil, or_false] at ht
  rcases ht with ⟨rfl, rfl⟩ | ⟨rfl, rfl⟩ | ⟨rfl, rfl⟩
  · by_cases hi : i = 0
    · subst hi
      obtain rfl : 17 = s := Option.some.inj hs
      decide
    · simp [startEntries, hi] at hs
  · by_cases hi : i = 0
    · subst hi
      obtain rfl : 18 = s := Option.some.inj hs
      decide
    · simp [startEntries, hi] at hs
  · have hi := i.isLt
    have hnum : (UInt64.ofNat (0x200000 * (i : ℕ))).toNat = 0x200000 * (i : ℕ) :=
      UInt64.toNat_ofNat_of_lt'
        (Nat.lt_of_lt_of_le ((Nat.mul_lt_mul_left (by decide)).2 hi) (by decide))
    have hpage : (UInt64.ofNat (0x200000 * (i : ℕ))).toNat % PageSize.large.bytes = 0 := by
      rw [hnum]
      exact Nat.mul_mod_right _ _
    have hnone := (PageSize.large.entry_fields hpage (by omega) 0).1
    have hs' : x86.child 2 (PageSize.large.entry (UInt64.ofNat (0x200000 * (i : ℕ)))) = some s := hs
    exact absurd (hnone.symm.trans hs') (by simp)

theorem entered_smallStart : small.Entered smallStart where
  identity := by
    intro v hv
    have hpath : pathOf v = [0, 0, 0, index 12 v] := by
      have hzero : ∀ n, 20 ≤ n → index n v = 0 := by
        intro n hn
        have hpow : 2 ^ 20 ≤ 2 ^ n := Nat.pow_le_pow_right (by decide) hn
        refine Fin.ext ?_
        rw [toNat_index, Nat.div_eq_of_lt (Nat.lt_of_lt_of_le hv hpow)]
        rfl
      rw [pathOf, hzero 39 (by decide), hzero 30 (by decide), hzero 21 (by decide)]
    have hlook : smallStart.look v = some (2, 0x83) := by
      have hroot : smallStart.root = 16 := by decide
      rw [Machine.look, lookAt, hpath, hroot,
        TreeFormat.look_cons_of_child _ (show x86.child 0 (entryAt smallStart.mem 16 0) =
          some 17 by decide),
        TreeFormat.look_cons_of_child _ (show x86.child 1 (entryAt smallStart.mem 17 0) =
          some 18 by decide),
        TreeFormat.look_cons_of_none _ (show x86.child 2 (entryAt smallStart.mem 18 0) =
          none by decide)]
      decide
    have hpage : leafPage (2, 0x83) = some (2 ^ 21, 0) := by decide
    rw [Machine.translate_of_look (Or.inl (by omega)) hlook, physical, hpage, Option.map_some]
    refine congrArg some ?_
    show 0 + v.toNat % 2 ^ 21 = v.toNat
    omega
  apart := by
    rintro p hp ⟨q, hq⟩
    have hall : ∀ a ∈ small.statics, ∀ b ∈ startTables, b.2 ≠ a.toNat / 4096 :=
      List.all_iff_forall_prop.1 (by decide)
    exact hall p hp _ (mem_startTables hq) rfl
  heapOffset_le := by decide

/-- The tables after `setup_paging`. -/
def readyEntries (f i : ℕ) : UInt64 :=
  if f = 32 then if i = 0 then presentRw 0x21000 else 0
  else if f = 33 then if i = 0 then presentRw 0x22000 else 0
  else if f = 34 then if i = 0 then presentRw 0x23000 else 0
  else if f = 35 then if i < 256 then presentRw (UInt64.ofNat (4096 * i)) else 0
  else startEntries f i

/-- The machine after `setup_paging`. -/
def smallReady : Machine where
  mem := ofEntries readyEntries
  cr3 := 0x20000
  heapOffset := 0
  kernelOffset := 0

theorem setupPaging_smallStart :
    ∃ es, small.setupPaging.run smallStart = ⟨some (), smallReady, es⟩ := by
  have hsetup : small.setupPaging.wp (fun _ ↦ True) (fun _ m ↦ m.cr3 = small.pml4 ∧
      small.Scratch smallStart small.setupEntries { m with cr3 := smallStart.cr3 }) smallStart :=
    wp_setupPaging entered_smallStart
  obtain ⟨_, m, es, hrun, hcr3, hscratch⟩ := Exec.exists_run_of_wp hsetup
  have hentries : ∀ f i, entryAt m.mem f i = entryAt smallReady.mem f i := by
    intro f i
    have hstatic : ∀ p ∈ small.statics, f = p.toNat / 4096 →
        entryAt m.mem f i = small.setupEntries p i := fun p hp hf ↦ hf ▸ hscratch.entries p hp i
    have hready : entryAt smallReady.mem f i = readyEntries f i :=
      entryAt_ofEntries readyEntries f i
    rw [hready, readyEntries]
    by_cases h₁ : f = 32
    · rw [hstatic 0x20000 (by decide) h₁, if_pos h₁]
      exact (small.setupEntries_eq i).1.trans (if_congr Fin.ext_iff rfl rfl)
    by_cases h₂ : f = 33
    · rw [hstatic 0x21000 (by decide) h₂, if_neg h₁, if_pos h₂]
      exact (small.setupEntries_eq i).2.1.trans (if_congr Fin.ext_iff rfl rfl)
    by_cases h₃ : f = 34
    · rw [hstatic 0x22000 (by decide) h₃, if_neg h₁, if_neg h₂, if_pos h₃]
      exact (small.setupEntries_eq i).2.2.1.trans (if_congr Fin.ext_iff rfl rfl)
    by_cases h₄ : f = 35
    · rw [hstatic 0x23000 (by decide) h₄, if_neg h₁, if_neg h₂, if_neg h₃, if_pos h₄]
      exact (small.setupEntries_eq i).2.2.2
    rw [if_neg h₁, if_neg h₂, if_neg h₃, if_neg h₄]
    refine (entryAt_congr (fun q hq ↦ hscratch.mem q fun p hp heq ↦ ?_) i).trans
      (entryAt_ofEntries startEntries f i)
    have hall : ∀ p ∈ small.statics, p.toNat / 4096 = 32 ∨ p.toNat / 4096 = 33 ∨
        p.toNat / 4096 = 34 ∨ p.toNat / 4096 = 35 := List.all_iff_forall_prop.1 (by decide)
    have hfour := hall p hp
    omega
  have hmem : m.mem = smallReady.mem := funext fun q ↦ mem_eq_of_entries (hentries (q / 4096))
  have hm : m = smallReady := by
    obtain ⟨mem, cr3, heapOffset, kernelOffset⟩ := m
    obtain rfl : mem = smallReady.mem := hmem
    obtain rfl : cr3 = small.pml4 := hcr3
    obtain rfl : heapOffset = smallStart.heapOffset := hscratch.heapOffset
    obtain rfl : kernelOffset = smallStart.kernelOffset := hscratch.kernelOffset
    rfl
  rw [hm] at hrun
  exact ⟨es, hrun⟩

/-- The 2 MiB page at 2 MiB. -/
def largeCall : BootCall := ⟨.large, 0x200000, 0x200000, 1⟩

/-- A 4 KiB page inside it. -/
def insideCall : BootCall := ⟨.small, 0x200000, 0x800000, 1⟩

/-- The machine after the call. -/
def after (m : Machine) (c : BootCall) : Machine := ((small.perform c).run m).state

theorem run_largeCall : ∃ es, (small.perform largeCall).run smallReady =
    ⟨some (), after smallReady largeCall, es⟩ ∧ ∀ e ∈ es, e.Allocates :=
  ⟨_, Exec.run_eq_of_value (by decide), by decide⟩

theorem run_insideCall : ∃ es, (small.perform insideCall).run (after smallReady largeCall) =
    ⟨some (), after (after smallReady largeCall) insideCall, es⟩ ∧ ∀ e ∈ es, e.Allocates :=
  ⟨_, Exec.run_eq_of_value (by decide), by decide⟩

/-- The 4 KiB page is not mapped: its entry is in the first bytes of the 2 MiB page. -/
theorem mixed_pages_fails : small.Entered smallStart ∧
    ∃ m, small.Reaches (fun _ c ↦ c.Aligned) smallStart [largeCall, insideCall] m ∧
      m.walk 0x200000 = some 0x200000 ∧
      latest BootCall.assign [largeCall, insideCall] lowIdentity 0x200000 = some 0x800000 ∧
      read64 smallStart.mem 0x200000 = 0 ∧ read64 m.mem 0x200000 = 0x800003 := by
  obtain ⟨_, hsetup⟩ := setupPaging_smallStart
  obtain ⟨_, hlarge, hlargeEv⟩ := run_largeCall
  obtain ⟨_, hinside, hinsideEv⟩ := run_insideCall
  have hreach : small.Reaches (fun _ c ↦ c.Aligned) smallStart [] smallReady := Reaches.setup hsetup
  have hfirst := hreach.call (by decide) hlarge hlargeEv
  have hsecond := hfirst.call (by decide) hinside hinsideEv
  refine ⟨entered_smallStart, _, hsecond, by decide, ?_, by decide, by decide⟩
  have hturn : insideCall.turn 0x200000 = 0 := by
    rw [BootCall.turn]
    decide
  have hcov : insideCall.Covers 0x200000 := by
    rw [BootCall.Covers, hturn]
    decide
  have hassign : insideCall.assign 0x200000 = some (some 0x800000) := by
    rw [BootCall.assign, if_pos hcov, hturn]
    decide
  exact (latest_snoc _ _ _ [largeCall] insideCall).trans (by rw [hassign, Option.getD_some])

/-- The first of the two calls alone. -/
theorem mixed_pages_small : ∃ m, small.Reaches small.Proper smallStart [largeCall] m ∧
    ∀ v, m.walk v = latest BootCall.assign [largeCall] lowIdentity v := by
  obtain ⟨_, hsetup⟩ := setupPaging_smallStart
  obtain ⟨_, hlarge, hlargeEv⟩ := run_largeCall
  have hstarted : small.Started smallReady := by
    have hwp : small.setupPaging.wp (fun _ ↦ True) (fun _ m ↦ small.Started m) smallStart :=
      wp_setupPaging_started entered_smallStart
    exact Exec.of_wp_of_run hwp hsetup fun _ _ ↦ trivial
  have hproper : small.Proper smallReady largeCall := by
    refine ⟨by decide, by decide, fun hsize ↦ absurd hsize (by decide), fun w hw hcov ↦ ?_⟩
    have hlow := hstarted.inUse_lt hw
    rw [BootCall.Covers, BootCall.turn] at hcov
    simp only [largeCall, PageSize.pageNumber, PageSize.bytes, PageSize.pages,
      UInt64.reduceToNat] at hcov
    omega
  have hreach := (Reaches.setup hsetup).call hproper hlarge hlargeEv
  exact ⟨_, hreach, ((mixed_pages entered_smallStart).2.1 _ _ hreach).1⟩

end Boot

end Aidos.Paging
