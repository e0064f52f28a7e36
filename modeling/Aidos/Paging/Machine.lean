import Aidos.Library.Exec
import Aidos.Memory.Kmalloc
import Aidos.Paging.Tables

/-!
# The machine the paging code runs on

Physical memory, the page-table base register and the two static variables that belong to the
paging code, `heap_offset` and `KERNEL_OFFSET`. Every access of the code, to page tables too, goes
through the translation the tables currently give: a pointer that is not mapped faults, and a store
into a page table changes what later accesses see. There is no translation cache here.

A 64-bit access needs an aligned pointer, as the language requires of `uint64_t*`; the model faults
where alignment is missing. The static variables are kept beside the memory, since no claim about
the page tables depends on where the image holds them.

A run records what `kmalloc` and `virt_to_phys` answered, every access, and every `invlpg`. That the
heap does not run out during a run is the assumption `Event.Allocates` on its events.
-/

namespace Aidos.Paging

open ByteMemory Memory

/-- The machine state. -/
structure Machine where
  /-- Physical memory. -/
  mem : ℕ → UInt8
  /-- The page-table base register. -/
  cr3 : UInt64
  /-- `heap_offset`. -/
  heapOffset : UInt64
  /-- `KERNEL_OFFSET`. -/
  kernelOffset : UInt64

/-- What a run records. -/
inductive Event where
  /-- A call of `kmalloc` returned this pointer. -/
  | alloc (p : UInt64)
  /-- A read through this pointer. -/
  | read (v : UInt64)
  /-- A write through this pointer. -/
  | write (v : UInt64)
  /-- `invlpg` of this address. -/
  | invlpg (v : UInt64)
  /-- `virt_to_phys` of `v` returned `x`. -/
  | resolved (v x : UInt64)
  deriving DecidableEq

/-- The event is not a failed allocation. -/
def Event.Allocates (e : Event) : Prop := e ≠ Event.alloc 0

instance (e : Event) : Decidable e.Allocates := inferInstanceAs (Decidable (_ ≠ _))

/-- A program of the machine. -/
abbrev Prog (α : Type) : Type := Exec Machine Event α

namespace Machine

variable (m : Machine)

/-- The frame of the PML4 in use. -/
def root : ℕ := frameOf m.cr3

/-- The table of the tree in use that a path of indices leads to. -/
def tableAt (p : List Index) : Option ℕ := x86.tableAt (entryAt m.mem) 0 m.root p

/-- The frame is a table of the tree in use. -/
def IsTable (t : ℕ) : Prop := ∃ p, m.tableAt p = some t

/-- The leaf that maps a virtual address. -/
def look (v : UInt64) : Option (ℕ × UInt64) := lookAt m.mem m.root v

/-- The hardware walk from the PML4 in use, of an address modulo `2 ^ 48`. -/
def walk (v : UInt64) : Option ℕ := walkTo m.mem m.root v

/-- The physical address of an access, `none` if it faults. -/
def translate (v : UInt64) : Option ℕ := if Canonical v then m.walk v else none

end Machine

/-! ### Accesses -/

/-- One access: record it and translate. -/
def access (e : Event) (v : UInt64) : Prog ℕ := do
  Exec.emit e
  let m ← Exec.get
  match m.translate v with
  | some p => pure p
  | none => Exec.fault

/-- Read a byte. -/
def load8 (v : UInt64) : Prog UInt8 := do
  let p ← access (Event.read v) v
  let m ← Exec.get
  pure (m.mem p)

/-- Write a byte. -/
def store8 (v : UInt64) (b : UInt8) : Prog Unit := do
  let p ← access (Event.write v) v
  Exec.modify fun m ↦ { m with mem := Function.update m.mem p b }

/-- Read a 64-bit word. -/
def load64 (v : UInt64) : Prog UInt64 :=
  if v.toNat % 8 = 0 then do
    let p ← access (Event.read v) v
    let m ← Exec.get
    pure (read64 m.mem p)
  else Exec.fault

/-- Write a 64-bit word. -/
def store64 (v x : UInt64) : Prog Unit :=
  if v.toNat % 8 = 0 then do
    let p ← access (Event.write v) v
    Exec.modify fun m ↦ { m with mem := write64 m.mem p x }
  else Exec.fault

/-- Write `f 0`, …, `f (n - 1)` from `dest` on, byte by byte. -/
def storeRun (dest : UInt64) (f : ℕ → UInt8) (n : ℕ) : Prog Unit :=
  Exec.forUpTo n fun i ↦ store8 (dest + UInt64.ofNat i) (f i)

/-- `memset(ptr, value, num)`. -/
def memset (ptr : UInt64) (value : UInt8) (num : UInt64) : Prog Unit :=
  storeRun ptr (fun _ ↦ value) num.toNat

/-- `memcpy(dest, src, num)`. -/
def memcpy (dest src num : UInt64) : Prog Unit :=
  Exec.forUpTo num.toNat fun i ↦ do
    let b ← load8 (src + UInt64.ofNat i)
    store8 (dest + UInt64.ofNat i) b

/-- `load_cr3(x)`. -/
def loadCr3 (x : UInt64) : Prog Unit := Exec.modify fun m ↦ { m with cr3 := x }

/-- `kmalloc(size, align)` on the heap `H`. -/
def kmalloc (H : Heap) (size align : UInt64) : Prog UInt64 := do
  let m ← Exec.get
  let answer := H.kmalloc size align m.heapOffset
  Exec.modify fun m ↦ { m with heapOffset := answer.2 }
  Exec.emit (Event.alloc answer.1)
  pure answer.1

/-! ### Entries under memory changes -/

theorem entryAt_congr {mem mem' : ℕ → UInt8} {t : ℕ} (h : ∀ q, q / 4096 = t → mem' q = mem q)
    (i : Index) : entryAt mem' t i = entryAt mem t i :=
  read64_congr fun k hk ↦ h _ (by omega)

/-- Storing an entry changes that entry only. -/
theorem entryAt_write64_self (mem : ℕ → UInt8) (t : ℕ) (i : Index) (x : UInt64) :
    entryAt (write64 mem (4096 * t + 8 * i) x) t i = x := read64_write64_self mem _ x

theorem entryAt_write64_of_ne (mem : ℕ → UInt8) {t t' : ℕ} {i i' : Index} (x : UInt64)
    (h : (t', i') ≠ (t, i)) :
    entryAt (write64 mem (4096 * t + 8 * i) x) t' i' = entryAt mem t' i' := by
  refine read64_write64_of_disjoint x ?_
  rcases eq_or_ne t' t with rfl | ht
  · have hi : (i' : ℕ) ≠ i := fun heq ↦ h (by rw [Fin.ext heq])
    omega
  · omega

/-- Filling a frame replaces its entries. -/
theorem entryAt_fillRun_self {mem mem' : ℕ → UInt8} {t s : ℕ} {f : ℕ → UInt8}
    (hf : ∀ k < 4096, f k = mem' (4096 * s + k)) (i : Index) :
    entryAt (fillRun mem (4096 * t) f 4096) t i = entryAt mem' s i := by
  refine read64_congr fun k hk ↦ ?_
  rw [Nat.add_assoc, fillRun_of_mem (by omega), hf _ (by omega), Nat.add_assoc]

theorem entryAt_fillRun_of_ne {mem : ℕ → UInt8} {t t' : ℕ} {f : ℕ → UInt8}
    (h : t' ≠ t) (i : Index) :
    entryAt (fillRun mem (4096 * t) f 4096) t' i = entryAt mem t' i :=
  entryAt_congr (fun _ hq ↦ fillRun_of_not_mem (by omega)) i

/-- A frame filled with zeros has zero entries. -/
theorem entryAt_fillRun_zero (mem : ℕ → UInt8) (t : ℕ) (i : Index) :
    entryAt (fillRun mem (4096 * t) (fun _ ↦ 0) 4096) t i = 0 := by
  have hzero := @entryAt_fillRun_self mem (fun _ ↦ 0) t 0 _ (fun _ _ ↦ rfl) i
  rw [hzero]
  rfl

/-! ### Translation under memory changes -/

namespace Machine

variable {m m' : Machine}

/-- `m'` has the tree of `m`, byte for byte. -/
structure KeepsTables (m m' : Machine) : Prop where
  /-- The same PML4 is in use. -/
  root : m'.root = m.root
  /-- The bytes of all its tables are the same. -/
  mem : ∀ q, m.IsTable (q / 4096) → m'.mem q = m.mem q

theorem KeepsTables.entry (h : m.KeepsTables m') (t : ℕ) (i : Index) (ht : m.IsTable t) :
    entryAt m'.mem t i = entryAt m.mem t i :=
  entryAt_congr (fun q hq ↦ h.mem q (hq ▸ ht)) i

theorem KeepsTables.look (h : m.KeepsTables m') (v : UInt64) : m'.look v = m.look v := by
  rw [Machine.look, Machine.look, lookAt, lookAt, h.root]
  exact TreeFormat.look_congr h.entry _

theorem walk_eq (v : UInt64) : m.walk v = (m.look v).bind (physical v) := rfl

theorem translate_congr_of_look {v : UInt64} (h : m'.look v = m.look v) :
    m'.translate v = m.translate v := by
  rw [Machine.translate, Machine.translate]
  exact if_congr Iff.rfl (congrArg (Option.bind · (physical v)) h) rfl

theorem KeepsTables.translate (h : m.KeepsTables m') (v : UInt64) :
    m'.translate v = m.translate v :=
  translate_congr_of_look (h.look v)

theorem KeepsTables.tableAt (h : m.KeepsTables m') (p : List Index) :
    m'.tableAt p = m.tableAt p := by
  rw [Machine.tableAt, Machine.tableAt, h.root]
  exact TreeFormat.tableAt_congr h.entry p

theorem KeepsTables.isTable (h : m.KeepsTables m') {t : ℕ} : m'.IsTable t ↔ m.IsTable t :=
  exists_congr fun p ↦ by rw [h.tableAt]

/-- A frame number has 40 bits. -/
theorem isTable_lt {t : ℕ} (ht : m.IsTable t) : t < 2 ^ 40 := by
  obtain ⟨p, hp⟩ := ht
  refine TreeFormat.tableAt_induction (P := fun _ t ↦ t < 2 ^ 40) (frameOf_lt _) ?_ hp
  intro _ _ _ _ _ hc
  obtain ⟨-, -, -, rfl⟩ := child_eq_some hc
  exact frameOf_lt _

/-- A leaf of an address is an entry of a table on its path. -/
theorem exists_of_look {v : UInt64} {l : ℕ × UInt64} (h : m.look v = some l) :
    ∃ p t i, m.tableAt p = some t ∧ p ++ [i] <+: pathOf v ∧ l = (p.length, entryAt m.mem t i) ∧
      x86.leaf p.length (entryAt m.mem t i) = true :=
  TreeFormat.exists_of_look (p := []) rfl h

/-- There are no leaves below the page tables. -/
theorem look_depth {v : UInt64} {l : ℕ × UInt64} (h : m.look v = some l) : l.1 ≤ 3 := by
  obtain ⟨p, t, i, -, hpre, rfl, -⟩ := exists_of_look h
  have hlen := hpre.length_le
  rw [List.length_append, List.length_singleton, length_pathOf] at hlen
  exact Nat.le_of_succ_le_succ hlen

/-- Writing outside all tables keeps the tree. -/
theorem keepsTables_of_mem {mem : ℕ → UInt8} (h : ∀ q, m.IsTable (q / 4096) → mem q = m.mem q) :
    m.KeepsTables { m with mem := mem } := ⟨rfl, h⟩

/-- Filling bytes outside all tables keeps the tree. -/
theorem keepsTables_fillRun {base n : ℕ} (f : ℕ → UInt8)
    (hfree : ∀ i < n, ¬ m.IsTable ((base + i) / 4096)) :
    m.KeepsTables { m with mem := fillRun m.mem base f n } := by
  refine keepsTables_of_mem fun q hq ↦ fillRun_of_not_mem ?_
  by_contra hin
  have hpos := hfree (q - base) (by omega)
  rw [Nat.add_sub_cancel' (by omega)] at hpos
  exact hpos hq

theorem canonical_of_translate {v : UInt64} {p : ℕ} (h : m.translate v = some p) : Canonical v := by
  by_contra hc
  rw [Machine.translate, if_neg hc] at h
  exact absurd h (by simp)

theorem translate_eq {v : UInt64} (hv : Canonical v) :
    m.translate v = (m.look v).bind (physical v) := by
  rw [Machine.translate, if_pos hv]
  rfl

theorem translate_of_look {v : UInt64} {l : ℕ × UInt64} (hv : Canonical v) (h : m.look v = some l) :
    m.translate v = physical v l := by
  rw [translate_eq hv, h, Option.bind_some]

/-- Canonical addresses come in whole pages. -/
theorem canonical_of_page {v w : UInt64} (hvw : v.toNat / 4096 = w.toNat / 4096)
    (hv : Canonical v) :
    Canonical w := by
  have hw := w.toNat_lt
  unfold Canonical at hv ⊢
  omega

/-- Translation moves whole pages and keeps the offset in the page. -/
theorem translate_page {v w : UInt64} {p : ℕ} (hvw : v.toNat / 4096 = w.toNat / 4096)
    (h : m.translate v = some p) :
    p % 4096 = v.toNat % 4096 ∧ m.translate w = some (p / 4096 * 4096 + w.toNat % 4096) := by
  have hcv := canonical_of_translate h
  have hpage : pageOf v = pageOf w := by
    rw [pageOf, pageOf, hvw]
  rw [translate_eq hcv] at h
  obtain ⟨l, hl, hp⟩ := Option.bind_eq_some_iff.1 h
  have hphys := physical_page hvw hp
  refine ⟨hphys.1, ?_⟩
  have hlw : m.look w = some l := by
    rw [← hl, Machine.look, Machine.look, lookAt, lookAt, pathOf_eq_iff.2 hpage]
  rw [translate_eq (canonical_of_page hvw hcv), hlw, Option.bind_some, hphys.2]

end Machine

/-! ### What each access does -/

section Access

variable {assume : Event → Prop} {m : Machine}

theorem run_access {e : Event} {v : UInt64} {p : ℕ} (hv : m.translate v = some p) :
    (access e v).run m = ⟨some p, m, [e]⟩ := by
  rw [access, Exec.run_bind_of_some (Exec.run_emit e m), Exec.run_bind_of_some (Exec.run_get m), hv]
  rfl

theorem wp_access {e : Event} {v : UInt64} {p : ℕ} {Q : ℕ → Machine → Prop}
    (hv : m.translate v = some p) (h : Q p m) : (access e v).wp assume Q m := by
  refine Exec.wp_bind (Exec.wp_emit fun _ ↦ Exec.wp_bind (Exec.wp_get ?_))
  rw [hv]
  exact Exec.wp_pure h

theorem wp_load8 {v : UInt64} {p : ℕ} {Q : UInt8 → Machine → Prop} (hv : m.translate v = some p)
    (h : Q (m.mem p) m) : (load8 v).wp assume Q m :=
  Exec.wp_bind (wp_access hv (Exec.wp_bind (Exec.wp_get (Exec.wp_pure h))))

theorem wp_store8 {v : UInt64} {b : UInt8} {p : ℕ} {Q : Unit → Machine → Prop}
    (hv : m.translate v = some p) (h : Q () { m with mem := Function.update m.mem p b }) :
    (store8 v b).wp assume Q m :=
  Exec.wp_bind (wp_access hv (Exec.wp_modify h))

theorem wp_load64 {v : UInt64} {p : ℕ} {Q : UInt64 → Machine → Prop} (ha : v.toNat % 8 = 0)
    (hv : m.translate v = some p) (h : Q (read64 m.mem p) m) : (load64 v).wp assume Q m := by
  rw [load64, if_pos ha]
  exact Exec.wp_bind (wp_access hv (Exec.wp_bind (Exec.wp_get (Exec.wp_pure h))))

theorem wp_store64 {v x : UInt64} {p : ℕ} {Q : Unit → Machine → Prop} (ha : v.toNat % 8 = 0)
    (hv : m.translate v = some p) (h : Q () { m with mem := write64 m.mem p x }) :
    (store64 v x).wp assume Q m := by
  rw [store64, if_pos ha]
  exact Exec.wp_bind (wp_access hv (Exec.wp_modify h))

/-- Writing a run of bytes to where the tables send them, outside of all tables. -/
theorem wp_storeRun {dest : UInt64} {f : ℕ → UInt8} {n base : ℕ} {Q : Unit → Machine → Prop}
    (hv : ∀ i < n, m.translate (dest + UInt64.ofNat i) = some (base + i))
    (hfree : ∀ i < n, ¬ m.IsTable ((base + i) / 4096))
    (h : Q () { m with mem := fillRun m.mem base f n }) : (storeRun dest f n).wp assume Q m := by
  refine Exec.wp_mono (Exec.wp_forUpTo
    (fun k m' ↦ m' = { m with mem := fillRun m.mem base f k }) ?_ ?_) ?_
  · rw [fillRun_zero]
  · rintro i hi _ rfl
    have hkeep := Machine.keepsTables_fillRun f fun k (hk : k < i) ↦ hfree k (by omega)
    refine wp_store8 ((hkeep.translate _).trans (hv i hi)) ?_
    rw [fillRun_succ]
  · rintro _ _ rfl
    exact h

theorem wp_memset {ptr num : UInt64} {value : UInt8} {b : ℕ} {Q : Unit → Machine → Prop}
    (hv : ∀ i < num.toNat, m.translate (ptr + UInt64.ofNat i) = some (b + i))
    (hfree : ∀ i < num.toNat, ¬ m.IsTable ((b + i) / 4096))
    (h : Q () { m with mem := fillRun m.mem b (fun _ ↦ value) num.toNat }) :
    (memset ptr value num).wp assume Q m :=
  wp_storeRun hv hfree h

/-- Copying between two runs that do not meet, outside of all tables at the destination. -/
theorem wp_memcpy {dest src num : UInt64} {base source : ℕ} {Q : Unit → Machine → Prop}
    (hv : ∀ i < num.toNat, m.translate (dest + UInt64.ofNat i) = some (base + i))
    (hsrc : ∀ i < num.toNat, m.translate (src + UInt64.ofNat i) = some (source + i))
    (hfree : ∀ i < num.toNat, ¬ m.IsTable ((base + i) / 4096))
    (hdisj : source + num.toNat ≤ base ∨ base + num.toNat ≤ source)
    (h : Q () { m with mem := fillRun m.mem base (fun i ↦ m.mem (source + i)) num.toNat }) :
    (memcpy dest src num).wp assume Q m := by
  refine Exec.wp_mono (Exec.wp_forUpTo
    (fun k m' ↦ m' = { m with mem := fillRun m.mem base (fun i ↦ m.mem (source + i)) k }) ?_ ?_) ?_
  · rw [fillRun_zero]
  · rintro i hi _ rfl
    have hkeep := Machine.keepsTables_fillRun (fun i ↦ m.mem (source + i))
      fun k (hk : k < i) ↦ hfree k (by omega)
    refine Exec.wp_bind (wp_load8 ((hkeep.translate _).trans (hsrc i hi)) ?_)
    refine wp_store8 ((hkeep.translate _).trans (hv i hi)) ?_
    have hread : fillRun m.mem base (fun i ↦ m.mem (source + i)) i (source + i) =
        m.mem (source + i) :=
      fillRun_of_not_mem (by omega)
    dsimp only
    rw [hread, fillRun_succ m.mem base fun i ↦ m.mem (source + i)]
  · rintro _ _ rfl
    exact h

/-! ### What each access records -/

variable {P : Event → Prop}

theorem emits_access {e : Event} {v : UInt64} (h : P e) : (access e v).Emits P := by
  refine Exec.emits_bind (Exec.emits_emit h) fun _ ↦ Exec.emits_bind Exec.emits_get fun m ↦ ?_
  split
  · exact Exec.emits_pure _
  · exact Exec.emits_fault

theorem emits_load64 {v : UInt64} (h : P (Event.read v)) : (load64 v).Emits P := by
  rw [load64]
  split
  · exact Exec.emits_bind (emits_access h) fun _ ↦ Exec.emits_bind Exec.emits_get fun _ ↦
      Exec.emits_pure _
  · exact Exec.emits_fault

theorem emits_store64 {v x : UInt64} (h : P (Event.write v)) : (store64 v x).Emits P := by
  rw [store64]
  split
  · exact Exec.emits_bind (emits_access h) fun _ ↦ Exec.emits_modify _
  · exact Exec.emits_fault

theorem emits_memcpy (hread : ∀ v, P (Event.read v)) (hwrite : ∀ v, P (Event.write v))
    (dest src num : UInt64) : (memcpy dest src num).Emits P := by
  refine Exec.emits_forUpTo fun i ↦ Exec.emits_bind ?_ fun b ↦ ?_
  · exact Exec.emits_bind (emits_access (hread _)) fun _ ↦ Exec.emits_bind Exec.emits_get fun _ ↦
      Exec.emits_pure _
  · exact Exec.emits_bind (emits_access (hwrite _)) fun _ ↦ Exec.emits_modify _

/-- The event of an allocation is its answer. -/
theorem yields_kmalloc {H : Heap} {size align : UInt64}
    (h : P (Event.alloc (H.kmalloc size align m.heapOffset).1)) :
    (kmalloc H size align).Yields P (fun p m' _ ↦ (H.kmalloc size align m.heapOffset).1 = p ∧
      { m with heapOffset := (H.kmalloc size align m.heapOffset).2 } = m') m :=
  ⟨fun _ he ↦ List.mem_singleton.1 he ▸ h, fun _ hp ↦ ⟨Option.some.inj hp, rfl⟩⟩

end Access

end Aidos.Paging
