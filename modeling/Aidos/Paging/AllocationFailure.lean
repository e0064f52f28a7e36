import Aidos.Paging.BootTables
import Aidos.Paging.KernelMapping

/-!
# When no page table can be allocated

The kernel's `get_or_create_table` returns `nullptr` when `kmalloc` fails, but `map_4k` and `map_2m`
pass what it returns on as the parent of the next level and store through it. The bootloader's copy
does not look at the result of `kmalloc` at all and clears the table at address zero. So in every
run in which an allocation fails, the null page is accessed (`MapCall.not_contained_of_fails`), from
whatever page tables and whatever heap the run starts.
-/

namespace Aidos.Paging

/-- A read or write through a null table pointer. -/
def Event.NullAccess (e : Event) : Prop :=
  ∃ v : UInt64, v.toNat < 4096 ∧ (e = Event.read v ∨ e = Event.write v)

/-- `kmalloc` has returned `nullptr`. -/
def Event.Failed (e : Event) : Prop := e = Event.alloc 0

/-- A call of a mapping routine. -/
inductive MapCall where
  /-- The kernel's `map_4k(virt, phys, count)`. -/
  | kernel4k (K : Kernel) (virt phys count : UInt64)
  /-- The kernel's `map_2m(virt, phys, count)`. -/
  | kernel2m (K : Kernel) (virt phys count : UInt64)
  /-- The bootloader's `map_4k(virt, phys, count)`. -/
  | boot4k (B : Boot) (virt phys count : UInt64)
  /-- The bootloader's `map_2m(virt, phys, count)`. -/
  | boot2m (B : Boot) (virt phys count : UInt64)

namespace MapCall

/-- The program of a call. -/
def prog : MapCall → Prog Unit
  | kernel4k K v p n => K.map4k v p n
  | kernel2m K v p n => K.map2m v p n
  | boot4k B v p n => B.map4k v p n
  | boot2m B v p n => B.map2m v p n

/-- The number of turns. -/
def count : MapCall → UInt64
  | kernel4k _ _ _ n | kernel2m _ _ _ n | boot4k _ _ _ n | boot2m _ _ _ n => n

/-- The address that the entry of a turn is placed for. -/
def page : MapCall → ℕ → UInt64
  | kernel4k _ v _ _ | kernel2m _ v _ _ => rangePage v
  | boot4k _ v _ _ => fun i ↦ v + UInt64.ofNat i * pageSize4k
  | boot2m _ v _ _ => fun i ↦ v + UInt64.ofNat i * pageSize2m

/-- The depth of the entries that are placed. -/
def depth : MapCall → ℕ
  | kernel4k _ _ _ _ | boot4k _ _ _ _ => 3
  | kernel2m _ _ _ _ | boot2m _ _ _ _ => 2

/-- The distance between a table pointer and the physical address of the table. -/
def offset (m : Machine) : MapCall → UInt64
  | kernel4k _ _ _ _ | kernel2m _ _ _ _ => m.kernelOffset
  | boot4k _ _ _ _ | boot2m _ _ _ _ => 0

/-- The address is below the entry of some turn. -/
def Covers (c : MapCall) (v : UInt64) : Prop :=
  ∃ i < c.count.toNat, (pathOf (c.page i)).take (c.depth + 1) <+: pathOf v

/-- Some allocation of the run fails. -/
def Fails (c : MapCall) (m : Machine) : Prop := Event.alloc 0 ∈ (c.prog.run m).events

instance (c : MapCall) (m : Machine) : Decidable (c.Fails m) := inferInstanceAs (Decidable (_ ∈ _))

/-- What a failure must not do. -/
structure Contained (c : MapCall) (m : Machine) : Prop where
  /-- Nothing is read or written through a null table pointer. -/
  noNull : ∀ e ∈ (c.prog.run m).events, ¬ e.NullAccess
  /-- Every table was there before or has been allocated. -/
  allocated : ∀ t, (c.prog.run m).state.IsTable t → m.IsTable t ∨
    ∃ p, p ≠ 0 ∧ Event.alloc p ∈ (c.prog.run m).events ∧ t = (p - c.offset m).toNat / 4096
  /-- Translations outside of the range are as before. -/
  kept : ∀ v, ¬ c.Covers v → m.look v ≠ none → (c.prog.run m).state.look v = m.look v

end MapCall

/-! ### Accesses through a null pointer -/

/-- An entry of the table at the null pointer. -/
theorem null_entry {i : UInt64} {idx : Index} (hi : i.toNat = idx) :
    (0 + 8 * i).toNat % 8 = 0 ∧ (0 + 8 * i).toNat < 4096 := by
  have hidx := idx.isLt
  rw [UInt64.zero_add, Space.toNat_entryOffset hi]
  omega

theorem surely_access {P : Event → Prop} {e : Event} {v : UInt64}
    (h : P e) : (access e v).Surely P :=
  Exec.surely_bind (Exec.surely_emit h)

theorem surely_load_null {i : UInt64} {idx : Index} (hi : i.toNat = idx) :
    (load64 (0 + 8 * i)).Surely Event.NullAccess := by
  obtain ⟨hal, hlt⟩ := null_entry hi
  rw [load64, if_pos hal]
  exact Exec.surely_bind (surely_access ⟨_, hlt, Or.inl rfl⟩)

theorem surely_store_null {i x : UInt64} {idx : Index} (hi : i.toNat = idx) :
    (store64 (0 + 8 * i) x).Surely Event.NullAccess := by
  obtain ⟨hal, hlt⟩ := null_entry hi
  rw [store64, if_pos hal]
  exact Exec.surely_bind (surely_access ⟨_, hlt, Or.inr rfl⟩)

theorem surely_memset_null : (memset 0 0 4096).Surely Event.NullAccess := by
  have hturn : (store8 (0 + UInt64.ofNat 0) 0).Surely Event.NullAccess :=
    Exec.surely_bind (surely_access ⟨_, by decide, Or.inr rfl⟩)
  exact Exec.surely_forUpTo (n := 4095) hturn

/-! ### Accesses allocate nothing -/

theorem read_not_failed (v : UInt64) : ¬ (Event.read v).Failed := by simp [Event.Failed]

theorem write_not_failed (v : UInt64) : ¬ (Event.write v).Failed := by simp [Event.Failed]

section Leads

variable {α : Type} {R : Event → Prop} {bad : α → Prop}

theorem leads_load64 (v : UInt64) {bad : UInt64 → Prop} : (load64 v).Leads Event.Failed R bad :=
  Exec.leads_of_emits (emits_load64 (read_not_failed v))

theorem leads_store64 (v x : UInt64) {bad : Unit → Prop} : (store64 v x).Leads Event.Failed R bad :=
  Exec.leads_of_emits (emits_store64 (write_not_failed v))

theorem leads_pure (a : α) : (pure a : Prog α).Leads Event.Failed R bad :=
  Exec.leads_of_emits (Exec.emits_pure a)

theorem leads_memset (ptr : UInt64) (value : UInt8) (num : UInt64) {bad : Unit → Prop} :
    (memset ptr value num).Leads Event.Failed R bad := by
  refine Exec.leads_of_emits (Exec.emits_forUpTo fun i ↦ ?_)
  exact Exec.emits_bind (emits_access (write_not_failed _)) fun _ ↦ Exec.emits_modify _

/-- A failed `kmalloc` returns zero. -/
theorem leads_kmalloc (H : Memory.Heap) (size align : UInt64) :
    (kmalloc H size align).Leads Event.Failed R (· = 0) := by
  rintro m ⟨e, he, hfail⟩
  obtain rfl : e = Event.alloc (H.kmalloc size align m.heapOffset).1 := List.mem_singleton.1 he
  exact Or.inr ⟨_, rfl, Event.alloc.inj hfail⟩

/-- Nothing bad: the next program has nothing to answer for. -/
theorem leads_seq {β : Type} {x : Prog α} {f : α → Prog β} {bad' : β → Prop}
    (hx : x.Leads Event.Failed R fun _ ↦ False) (hf : ∀ a, (f a).Leads Event.Failed R bad') :
    (x >>= f).Leads Event.Failed R bad' :=
  Exec.leads_bind hx (fun _ hbad ↦ absurd hbad id) hf

end Leads

/-! ### The helpers -/

/-- What both copies of `get_or_create_table` have in common: after a failed allocation they access
the null page or return `nullptr`, and they access it at once when the parent is `nullptr`. -/
structure PassesNull (get : UInt64 → UInt64 → Prog UInt64) : Prop where
  /-- A failed allocation is used or returned. -/
  leads : ∀ parent index, (get parent index).Leads Event.Failed Event.NullAccess (· = 0)
  /-- A null parent is used. -/
  surely : ∀ {index : UInt64} {idx : Index}, index.toNat = idx →
    (get 0 index).Surely Event.NullAccess

theorem Kernel.passesNull (K : Kernel) : PassesNull K.getOrCreateTable where
  leads := by
    intro parent index
    refine leads_seq (leads_load64 _) fun entry ↦ ?_
    split
    · refine Exec.leads_bind (leads_kmalloc K.heap 4096 4096) ?_ fun newTable ↦ ?_
      · rintro _ rfl
        exact Exec.ends_pure rfl
      · split
        · exact leads_pure 0
        · refine leads_seq (leads_memset _ _ _) fun _ ↦
            leads_seq (Exec.leads_of_emits Exec.emits_get) ?_
          exact fun _ ↦ leads_seq (leads_store64 _ _) fun _ ↦ leads_pure _
    · refine leads_seq (leads_load64 _) fun _ ↦ ?_
      exact leads_seq (Exec.leads_of_emits Exec.emits_get) fun _ ↦ leads_pure _
  surely := fun hi ↦ Exec.surely_bind (surely_load_null hi)

theorem Boot.passesNull (B : Boot) : PassesNull B.getOrCreateTable where
  leads := by
    intro parent index
    refine leads_seq (leads_load64 _) fun entry ↦ ?_
    split
    · refine Exec.leads_bind (leads_kmalloc B.heap 4096 4096) ?_ fun newTable ↦ ?_
      · rintro _ rfl
        exact Exec.ends_of_surely (Exec.surely_bind surely_memset_null)
      · refine leads_seq (leads_memset _ _ _) fun _ ↦
          leads_seq (leads_store64 _ _) fun _ ↦ leads_pure _
    · exact leads_seq (leads_load64 _) fun _ ↦ leads_pure _
  surely := fun hi ↦ Exec.surely_bind (surely_load_null hi)

section Turns

variable {get : UInt64 → UInt64 → Prog UInt64} (hget : PassesNull get)
include hget

/-- One level of the walk: if the table cannot be allocated, the next level uses the null pointer.
-/
theorem PassesNull.level {parent index : UInt64} {f : UInt64 → Prog Unit}
    (hf : ∀ t, (f t).Leads Event.Failed Event.NullAccess fun _ ↦ False)
    (hnull : (f 0).Surely Event.NullAccess) :
    (get parent index >>= f).Leads Event.Failed Event.NullAccess fun _ ↦ False := by
  refine Exec.leads_bind (hget.leads parent index) ?_ hf
  rintro _ rfl
  exact Exec.ends_of_surely hnull

theorem PassesNull.place4k (pml4 va entry : UInt64) :
    (place4k get pml4 va entry).Leads Event.Failed Event.NullAccess fun _ ↦ False := by
  refine hget.level (fun pdptTbl ↦ ?_) (Exec.surely_bind (hget.surely (toNat_pdptIndex va)))
  refine hget.level (fun pdTbl ↦ ?_) (Exec.surely_bind (hget.surely (toNat_pdIndex va)))
  exact hget.level (fun ptTbl ↦ leads_store64 _ _) (surely_store_null (toNat_ptIndex va))

theorem PassesNull.place2m (pml4 va entry : UInt64) :
    (place2m get pml4 va entry).Leads Event.Failed Event.NullAccess fun _ ↦ False := by
  refine hget.level (fun pdptTbl ↦ ?_) (Exec.surely_bind (hget.surely (toNat_pdptIndex va)))
  exact hget.level (fun pdTbl ↦ leads_store64 _ _) (surely_store_null (toNat_pdIndex va))

end Turns

namespace MapCall

/-- In every run with a failed allocation the null page is accessed. -/
theorem leads_prog (c : MapCall) :
    c.prog.Leads Event.Failed Event.NullAccess fun _ ↦ False := by
  cases c with
  | kernel4k K virt phys count => exact Exec.leads_forUpTo fun _ ↦ K.passesNull.place4k _ _ _
  | kernel2m K virt phys count => exact Exec.leads_forUpTo fun _ ↦ K.passesNull.place2m _ _ _
  | boot4k B virt phys count => exact Exec.leads_forUpTo fun _ ↦ B.passesNull.place4k _ _ _
  | boot2m B virt phys count => exact Exec.leads_forUpTo fun _ ↦ B.passesNull.place2m _ _ _

/-- **No allocation failure is contained**: whatever the page tables and the heap are, a call in
which a `kmalloc` returns `nullptr` accesses the null page. -/
theorem not_contained_of_fails (c : MapCall) (m : Machine) (hfails : c.Fails m) :
    ¬ c.Contained m := by
  intro hcontained
  rcases c.leads_prog m ⟨_, hfails, rfl⟩ with ⟨e, he, hnull⟩ | ⟨_, -, hbad⟩
  · exact hcontained.noNull e he hnull
  · exact hbad

/-- The small kernel with its heap used up. -/
def exhausted : Machine := { Kernel.smallMachine with heapOffset := 0x10000 }

/-- Mapping a page of the lower half, for which there is no table yet. -/
def lowPage : MapCall := kernel4k Kernel.small 0x200000 0x300000 1

theorem not_contained_lowPage : ¬ lowPage.Contained exhausted :=
  not_contained_of_fails lowPage exhausted (by decide)

/-- The null pointer is read in the second level of the walk. -/
theorem not_failureContained_lowPage :
    ¬ (lowPage.Fails exhausted → lowPage.Contained exhausted) := by
  intro h
  have hread : Event.read 0 ∈ (lowPage.prog.run exhausted).events := by decide
  exact (h (by decide)).noNull _ hread ⟨0, by decide, Or.inl rfl⟩

end MapCall

end Aidos.Paging
