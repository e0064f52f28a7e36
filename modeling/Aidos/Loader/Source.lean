import Aidos.Loader.Elf

/-!
# What a run of the loader does

The requests of `readElf` do not depend on the machine: they follow from the file system and from
what the stack held. A `Source` packs these, and its functions follow the loop over the program
headers from turn to turn, as pure functions: the headers, the bytes delivered, the state of the
file system.

`readElf_yields` ties the run to them. Every event of a run, whether it faults or not, is `Allowed`;
and a run that returns has every event that one of its turns is to cause (`Caused`).
-/

namespace Aidos.Loader

open ByteMemory Paging

variable {σ : Type}

/-- Where a run of the loader gets its bytes from. -/
structure Source (σ : Type) where
  /-- The file system. -/
  fs : FileSystem σ
  /-- What the stack held. -/
  rest : Leftovers
  /-- The state of the file system, with the file open. -/
  start : σ

namespace Source

variable (S : Source σ)

/-- The answer to the request for the ELF header. -/
def header : Answer σ := S.fs.fetch 0 ehdrSize S.start

/-- `elfHeader`. -/
def elfHeader : Ehdr := Ehdr.decode (overwrite S.header.bytes S.rest.header)

/-- The image has the magic number. -/
def Magic : Prop := S.elfHeader.ident = elfMagic

/-- The number of program headers. -/
def count : ℕ := S.elfHeader.phnum.toNat

/-- The product `i * e_phentsize`, as an integer. -/
def distance (i : ℕ) : ℕ := i * S.elfHeader.phentsize.toNat

/-- The position computed for a program header. -/
def position (i : ℕ) : UInt64 := S.elfHeader.phoff + UInt64.ofNat (S.distance i)

/-- The program header of turn `i`, from what was delivered. -/
def phdrOf (i : ℕ) (a : Answer σ) : Phdr := Phdr.decode (overwrite a.bytes (S.rest.program i))

/-- The state of the file system before turn `i`. -/
def stateAt : ℕ → σ
  | 0 => S.header.after
  | i + 1 =>
    let a := S.fs.fetch (S.position i) phdrSize (stateAt i)
    if (S.phdrOf i a).type = ptLoad then
      (S.fs.fetch (S.phdrOf i a).offset (S.phdrOf i a).filesz a.after).after
    else a.after

/-- The answer to the request for a program header. -/
def program (i : ℕ) : Answer σ := S.fs.fetch (S.position i) phdrSize (S.stateAt i)

/-- `phdr` in turn `i`. -/
def phdr (i : ℕ) : Phdr := S.phdrOf i (S.program i)

/-- Turn `i` loads a segment. -/
def IsLoad (i : ℕ) : Prop := (S.phdr i).type = ptLoad

instance (i : ℕ) : Decidable (S.IsLoad i) := inferInstanceAs (Decidable (_ = _))

/-- The answer to the request for the bytes of a segment. -/
def segment (i : ℕ) : Answer σ := S.fs.fetch (S.phdr i).offset (S.phdr i).filesz (S.program i).after

theorem stateAt_succ (i : ℕ) :
    S.stateAt (i + 1) = if S.IsLoad i then (S.segment i).after else (S.program i).after := rfl

/-- The address that the first byte of a segment is loaded to. -/
def phys (data : UInt64) (i : ℕ) : UInt64 := data + (S.phdr i).paddr

/-- `physBase` before turn `i`. -/
def baseAt (data : UInt64) : ℕ → UInt64
  | 0 => noBase
  | i + 1 => if S.IsLoad i ∧ S.phys data i < baseAt data i then S.phys data i else baseAt data i

/-- What `readElf` returns. -/
def info (data : UInt64) : ElfInfo :=
  ⟨S.elfHeader.entry, if S.baseAt data S.count = noBase then data else S.baseAt data S.count⟩

/-- The events that turn `i` is to cause, those of the mapping call apart. -/
inductive Caused (i : ℕ) : LoadEvent → Prop
  /-- The request for the program header. -/
  | program : Caused i (LoadEvent.request (Part.program i) (S.position i).toUInt32 phdrSize
      (S.program i).ok (S.program i).bytes)
  /-- The request for the bytes of the segment. -/
  | segment (hload : S.IsLoad i) :
    Caused i (LoadEvent.request (Part.segment i) (S.phdr i).offset.toUInt32
      (S.phdr i).filesz (S.segment i).ok (S.segment i).bytes)
  /-- The bytes delivered are copied. -/
  | copied (hload : S.IsLoad i) (b : ℕ) (hb : b < (S.segment i).bytes.length) :
      Caused i (LoadEvent.store i (Event.write ((S.phdr i).vaddr + UInt64.ofNat b)))
  /-- The rest is cleared. -/
  | cleared (hload : S.IsLoad i) (hmore : (S.phdr i).memsz > (S.phdr i).filesz) (b : ℕ)
      (hb : b < ((S.phdr i).memsz - (S.phdr i).filesz).toNat) :
      Caused i (LoadEvent.store i
        (Event.write ((S.phdr i).vaddr + (S.phdr i).filesz + UInt64.ofNat b)))

/-- The request for the ELF header, with its answer. -/
def headerRequest : LoadEvent :=
  LoadEvent.request Part.header (0 : UInt64).toUInt32 ehdrSize S.header.ok S.header.bytes

/-- The events that a run may have. -/
inductive Allowed : LoadEvent → Prop
  /-- The request for the ELF header. -/
  | header : Allowed S.headerRequest
  /-- The paging code at work. -/
  | paging (e : Event) : Allowed (LoadEvent.paging e)
  /-- What a turn causes. -/
  | turn (hmagic : S.Magic) {i : ℕ} (hi : i < S.count)
    (hsmall : S.distance i < 2 ^ 31) {e : LoadEvent}
      (he : S.Caused i e) : Allowed e
  /-- A product that does not fit an `int`. -/
  | overflow (hmagic : S.Magic) {i : ℕ} (hi : i < S.count) (hbig : ¬ S.distance i < 2 ^ 31) :
      Allowed (LoadEvent.overflow i)

end Source

/-! ### The parts of a turn -/

section Turn

variable {P : LoadEvent → Prop} {B : Boot} {F : FileSystem σ}

/-- A request. -/
theorem ask_yields {part : Part} {position wanted : UInt64} {m : Machine} {s : σ}
    {Q : List UInt8 → Machine × σ → List LoadEvent → Prop}
    (hP : P (LoadEvent.request part position.toUInt32 wanted (F.fetch position wanted s).ok
      (F.fetch position wanted s).bytes))
    (hQ : Q (F.fetch position wanted s).bytes (m, (F.fetch position wanted s).after)
      [LoadEvent.request part position.toUInt32 wanted (F.fetch position wanted s).ok
        (F.fetch position wanted s).bytes]) :
    (ask F part position wanted).Yields P Q (m, s) := by
  refine ⟨fun e he ↦ ?_, fun _ hb ↦ ?_⟩
  · obtain rfl := List.mem_singleton.1 he
    exact hP
  · obtain rfl := Option.some.inj hb
    exact hQ

/-- A mapping call leaves the file system alone. -/
theorem paging_yields (hP : ∀ e, P (LoadEvent.paging e)) (x : Prog Unit) (m : Machine) (s : σ) :
    (Exec.onFst LoadEvent.paging x).Yields P (fun _ s' _ ↦ s'.2 = s) (m, s) := by
  refine Exec.yields_onFst ⟨fun e _ ↦ hP e, fun _ _ ↦ rfl⟩

/-- Writing a run of bytes. -/
theorem storeRun_yields {P : Event → Prop} (dest : UInt64) (f : ℕ → UInt8) (n : ℕ) (m : Machine)
    (hP : ∀ b < n, P (Event.write (dest + UInt64.ofNat b))) :
    (storeRun dest f n).Yields P (fun _ _ es ↦ ∀ b < n,
      Event.write (dest + UInt64.ofNat b) ∈ es) m := by
  refine Exec.yields_forUpTo (fun i _ es ↦ ∀ b < i, Event.write (dest + UInt64.ofNat b) ∈ es)
    (fun b hb ↦ absurd hb (Nat.not_lt_zero b)) fun i hi m' es hes ↦ ?_
  have hone : (store8 (dest + UInt64.ofNat i) (f i)).Yields P
      (fun _ _ es' ↦ Event.write (dest + UInt64.ofNat i) ∈ es') m' := by
    refine ⟨Exec.emits_bind (emits_access (hP i hi)) (fun _ ↦ Exec.emits_modify _) m', fun _ _ ↦ ?_⟩
    have hsure : (store8 (dest + UInt64.ofNat i) (f i)).Surely
        fun e ↦ e = Event.write (dest + UInt64.ofNat i) :=
      Exec.surely_bind (Exec.surely_bind (Exec.surely_emit rfl))
    obtain ⟨e, he, rfl⟩ := hsure m'
    exact he
  refine Exec.yields_mono hone fun _ _ es' hes' b hb ↦ ?_
  rcases Nat.lt_succ_iff_lt_or_eq.1 hb with hlt | rfl
  · exact List.mem_append_left _ (hes b hlt)
  · exact List.mem_append_right _ hes'

/-- Writing a run of bytes through the addresses of a segment. -/
theorem store_yields (i : ℕ) (dest : UInt64) (f : ℕ → UInt8) (n : ℕ) (m : Machine) (s : σ)
    (hP : ∀ b < n, P (LoadEvent.store i (Event.write (dest + UInt64.ofNat b)))) :
    (Exec.onFst (LoadEvent.store i) (storeRun dest f n)).Yields P (fun _ s' es ↦ s'.2 = s ∧
      ∀ b < n, LoadEvent.store i (Event.write (dest + UInt64.ofNat b)) ∈ es) (m, s) := by
  refine Exec.yields_onFst
    (Exec.yields_mono (storeRun_yields dest f n m hP) fun _ _ _ hes ↦ ⟨rfl, ?_⟩)
  exact fun b hb ↦ List.mem_map_of_mem (hes b hb)

end Turn

/-! ### The loop -/

namespace Source

variable (S : Source σ) (B : Boot) (data : UInt64)

/-- Loading a segment causes what is left of the turn. -/
theorem segment_yields {i : ℕ} (hload : S.IsLoad i) {P : LoadEvent → Prop}
    (hP : ∀ e, S.Caused i e ∨ (∃ e', e = LoadEvent.paging e') → P e) (m : Machine) :
    (loadSegment B S.fs data i (S.phdr i)).Yields P (fun _ s' es ↦ s'.2 = (S.segment i).after ∧
      ∀ e, S.Caused i e → e ∈ LoadEvent.request (Part.program i) (S.position i).toUInt32 phdrSize
        (S.program i).ok (S.program i).bytes :: es) (m, (S.program i).after) := by
  -- the mapping call
  have hpaging : ∀ e, P (LoadEvent.paging e) := fun e ↦ hP _ (Or.inr ⟨e, rfl⟩)
  refine Exec.yields_bind (paging_yields hpaging _ m _) ?_
  rintro _ ⟨m₁, s₁⟩ es₁ rfl
  -- the request for the bytes
  refine Exec.yields_bind (ask_yields
    (Q := fun bytes s' es ↦ bytes = (S.segment i).bytes ∧ s'.2 = (S.segment i).after ∧
      LoadEvent.request (Part.segment i) (S.phdr i).offset.toUInt32 (S.phdr i).filesz
        (S.segment i).ok
        (S.segment i).bytes ∈ es)
    (hP _ (Or.inl (Caused.segment hload))) ⟨rfl, rfl, List.mem_singleton.2 rfl⟩) ?_
  rintro _ ⟨m₂, s₂⟩ es₂ ⟨rfl, rfl, hrequest⟩
  -- the copy
  refine Exec.yields_bind (store_yields i _ _ _ m₂ _
    fun b hb ↦ hP _ (Or.inl (Caused.copied hload b hb))) ?_
  rintro _ ⟨m₃, s₃⟩ es₃ ⟨rfl, hcopied⟩
  split
  · -- the zeros
    next hmore =>
    refine Exec.yields_mono (store_yields i _ _ _ m₃ _
      fun b hb ↦ hP _ (Or.inl (Caused.cleared hload hmore b hb))) ?_
    rintro _ ⟨m₄, s₄⟩ es₄ ⟨rfl, hcleared⟩
    refine ⟨rfl, fun e he ↦ ?_⟩
    cases he with
    | program => exact List.mem_cons_self
    | segment _ => simp [hrequest]
    | copied _ b hb => simp [hcopied b hb]
    | cleared _ _ b hb => simp [hcleared b hb]
  · next hmore =>
    refine Exec.yields_pure ⟨rfl, fun e he ↦ ?_⟩
    cases he with
    | program => exact List.mem_cons_self
    | segment _ => simp [hrequest]
    | copied _ b hb => simp [hcopied b hb]
    | cleared _ hgt b hb => exact absurd hgt hmore

/-- A turn causes what it is to cause. -/
theorem turn_yields {i : ℕ} {P : LoadEvent → Prop}
    (hP : ∀ e, (S.distance i < 2 ^ 31 ∧ S.Caused i e) ∨ (∃ e', e = LoadEvent.paging e') ∨
      (¬ S.distance i < 2 ^ 31 ∧ e = LoadEvent.overflow i) → P e) (m : Machine) :
    (loadTurn B S.fs S.rest data S.elfHeader i (S.baseAt data i)).Yields P (fun base s' es ↦
      S.distance i < 2 ^ 31 ∧ base = S.baseAt data (i + 1) ∧ s'.2 = S.stateAt (i + 1) ∧
        ∀ e, S.Caused i e → e ∈ es) (m, S.stateAt i) := by
  -- the offset
  have hoffset : (programOffset S.elfHeader i : Load σ UInt64).Yields P (fun offset s' es ↦
      S.distance i < 2 ^ 31 ∧ offset = S.position i ∧ s' = (m, S.stateAt i) ∧ es = [])
        (m, S.stateAt i) := by
    rw [programOffset]
    split
    · next hsmall => exact Exec.yields_pure ⟨hsmall, rfl, rfl, rfl⟩
    · next hbig =>
      exact Exec.yields_bind (Exec.yields_emit (Q := fun _ _ _ ↦ True)
        (hP _ (Or.inr (Or.inr ⟨hbig, rfl⟩))) trivial) fun _ _ _ _ ↦ Exec.yields_fault
  refine Exec.yields_bind hoffset ?_
  rintro _ _ _ ⟨hsmall, rfl, rfl, rfl⟩
  -- the program header
  have hcaused : ∀ e, S.Caused i e ∨ (∃ e', e = LoadEvent.paging e') → P e :=
    fun e he ↦ hP e (he.imp (fun h ↦ ⟨hsmall, h⟩) Or.inl)
  refine Exec.yields_bind (ask_yields
    (Q := fun bytes s' es ↦ bytes = (S.program i).bytes ∧ s' = (m, (S.program i).after) ∧
      es = [LoadEvent.request (Part.program i) (S.position i).toUInt32 phdrSize (S.program i).ok
        (S.program i).bytes])
    (hcaused _ (Or.inl Caused.program)) ⟨rfl, rfl, rfl⟩) ?_
  rintro _ _ _ ⟨rfl, rfl, rfl⟩
  show (if (S.phdr i).type ≠ ptLoad then pure (S.baseAt data i)
    else loadSegment B S.fs data i (S.phdr i) >>= fun _ ↦
      pure (if S.phys data i < S.baseAt data i then S.phys data i
        else S.baseAt data i)).Yields P _ _
  split
  · next hnot =>
    refine Exec.yields_pure ⟨hsmall, ?_, ?_, fun e he ↦ ?_⟩
    · rw [baseAt, if_neg fun h ↦ hnot h.1]
    · rw [stateAt_succ]
      exact (if_neg hnot).symm
    · cases he with
      | program => simp
      | segment hload | copied hload _ _ | cleared hload _ _ _ => exact absurd hload hnot
  · next hnot =>
    have hload : S.IsLoad i := not_not.1 hnot
    refine Exec.yields_bind (S.segment_yields B data hload hcaused m) ?_
    rintro _ ⟨m', s'⟩ es ⟨rfl, hes⟩
    refine Exec.yields_pure ⟨hsmall, ?_, ?_, fun e he ↦ ?_⟩
    · rw [baseAt]
      exact if_congr (and_iff_right hload).symm rfl rfl
    · rw [stateAt_succ, if_pos hload]
    · simpa using hes e he

/-- The first turns of the loop over the program headers. -/
theorem loop_yields (hmagic : S.Magic) {n : ℕ} (hn : n ≤ S.count) (m : Machine) :
    (Exec.foldUpTo n (loadTurn B S.fs S.rest data S.elfHeader) noBase).Yields S.Allowed
      (fun base s' es ↦ base = S.baseAt data n ∧ s'.2 = S.stateAt n ∧
        ∀ j < n, S.distance j < 2 ^ 31 ∧ ∀ e, S.Caused j e → e ∈ es) (m, S.stateAt 0) := by
  refine Exec.yields_foldUpTo (fun i base (s' : Machine × σ) es ↦ base = S.baseAt data i ∧
      s'.2 = S.stateAt i ∧ ∀ j < i, S.distance j < 2 ^ 31 ∧ ∀ e, S.Caused j e → e ∈ es)
    ⟨rfl, rfl, fun j hj ↦ absurd hj (Nat.not_lt_zero j)⟩ ?_
  rintro i hi _ ⟨m', s'⟩ es ⟨rfl, rfl, hes⟩
  have hallowed : ∀ e, (S.distance i < 2 ^ 31 ∧ S.Caused i e) ∨ (∃ e', e = LoadEvent.paging e') ∨
      (¬ S.distance i < 2 ^ 31 ∧ e = LoadEvent.overflow i) → S.Allowed e := by
    rintro e (⟨hsmall, he⟩ | ⟨e', rfl⟩ | ⟨hbig, rfl⟩)
    · exact Allowed.turn hmagic (Nat.lt_of_lt_of_le hi hn) hsmall he
    · exact Allowed.paging e'
    · exact Allowed.overflow hmagic (Nat.lt_of_lt_of_le hi hn) hbig
  refine Exec.yields_mono (S.turn_yields B data hallowed m') ?_
  rintro _ s'' es' ⟨hsmall, rfl, hs'', hes'⟩
  refine ⟨rfl, hs'', fun j hj ↦ ?_⟩
  rcases Nat.lt_succ_iff_lt_or_eq.1 hj with hlt | rfl
  · exact ⟨(hes j hlt).1, fun e he ↦ List.mem_append_left _ ((hes j hlt).2 e he)⟩
  · exact ⟨hsmall, fun e he ↦ List.mem_append_right _ (hes' e he)⟩

/-- What a run that returns has done. -/
structure Done (es : List LoadEvent) (info : ElfInfo) : Prop where
  /-- The ELF header has been asked for. -/
  header : S.headerRequest ∈ es
  /-- With the magic number, every turn has been made. -/
  turns : S.Magic → info = S.info data ∧ ∀ i < S.count, S.distance i < 2 ^ 31 ∧
    ∀ e, S.Caused i e → e ∈ es
  /-- Without it, none. -/
  refused : ¬ S.Magic → info = ⟨0, 0⟩

/-- **The run of `readElf`.** All its events are allowed, and if it returns, it has done everything
that it is to do. -/
theorem readElf_yields (m : Machine) :
    (readElf B S.fs S.rest data).Yields S.Allowed (fun info _ es ↦ S.Done data es info)
    (m, S.start) := by
  have hask : (ask S.fs Part.header 0 ehdrSize).Yields S.Allowed
      (fun bytes s' es ↦ bytes = S.header.bytes ∧ s' = (m, S.header.after) ∧ es = [S.headerRequest])
      (m, S.start) := ask_yields Allowed.header ⟨rfl, rfl, rfl⟩
  refine Exec.yields_bind hask ?_
  rintro _ _ _ ⟨rfl, rfl, rfl⟩
  show Exec.Yields S.Allowed _ (if S.elfHeader.ident ≠ elfMagic then pure (ElfInfo.mk 0 0)
    else Exec.foldUpTo S.count (loadTurn B S.fs S.rest data S.elfHeader) noBase >>= fun physBase ↦
      pure (ElfInfo.mk S.elfHeader.entry (if physBase = noBase then data else physBase))) _
  split
  · next hnot =>
    exact Exec.yields_pure ⟨List.mem_cons_self, fun hmagic ↦ absurd hmagic hnot, fun _ ↦ rfl⟩
  · next hnot =>
    have hmagic : S.Magic := not_not.1 hnot
    refine Exec.yields_bind (S.loop_yields B data hmagic le_rfl m) ?_
    rintro _ s' es ⟨rfl, -, hes⟩
    refine Exec.yields_pure ⟨List.mem_cons_self,
      fun _ ↦ ⟨rfl, fun i hi ↦ ⟨(hes i hi).1, fun e he ↦ ?_⟩⟩,
      fun hno ↦ absurd hmagic hno⟩
    rw [List.append_nil]
    exact List.mem_cons_of_mem _ ((hes i hi).2 e he)

/-! ### Headers come first -/

/-- The request for the program header of a turn. -/
def programRequest (i : ℕ) : LoadEvent :=
  LoadEvent.request (Part.program i) (S.position i).toUInt32 phdrSize (S.program i).ok
    (S.program i).bytes

/-- The turn that an event belongs to. -/
def turnOf : LoadEvent → Option ℕ
  | LoadEvent.request (Part.program i) _ _ _ _ => some i
  | LoadEvent.request (Part.segment i) _ _ _ _ => some i
  | LoadEvent.store i _ => some i
  | _ => none

theorem turnOf_caused {S : Source σ} {i : ℕ} {e : LoadEvent} (h : S.Caused i e) :
    turnOf e = some i := by
  cases h <;> rfl

/-- A turn begins with the request for its program header. -/
theorem programRequest_mem_turn {i : ℕ} (hsmall : S.distance i < 2 ^ 31)
    (base : UInt64) (m : Machine) :
    S.programRequest i ∈
      ((loadTurn B S.fs S.rest data S.elfHeader i base).run (m, S.stateAt i)).events := by
  have hoffset :
      (programOffset S.elfHeader i : Load σ UInt64) = pure (S.position i) := if_pos hsmall
  rw [loadTurn, hoffset]
  exact Exec.mem_events_bind.2 (Or.inr ⟨S.position i, rfl,
    Exec.mem_events_bind.2 (Or.inl (List.mem_singleton.2 rfl))⟩)

/-- What a turn causes comes after the requests for the program headers up to its own. -/
theorem programRequest_mem_loop (hmagic : S.Magic) (m : Machine) {n : ℕ} (hn : n ≤ S.count) {i : ℕ}
    {e : LoadEvent} (hcaused : S.Caused i e) (he : e ∈
      ((Exec.foldUpTo n (loadTurn B S.fs S.rest data S.elfHeader) noBase).run
        (m, S.stateAt 0)).events) :
    ∀ j ≤ i, S.programRequest j ∈
      ((Exec.foldUpTo n (loadTurn B S.fs S.rest data S.elfHeader) noBase).run
        (m, S.stateAt 0)).events := by
  induction n with
  | zero => exact absurd he List.not_mem_nil
  | succ n ih =>
    have hle : n ≤ S.count := Nat.le_of_succ_le hn
    intro j hj
    rcases Exec.mem_events_bind.1 he with hbefore | ⟨base, hvalue, hlast⟩
    · exact Exec.mem_events_bind.2 (Or.inl (ih hle hbefore j hj))
    · -- the turns before have been made, and the event is one of the last turn
      obtain ⟨hbase, hstate, hes⟩ := (S.loop_yields B data hmagic hle m).2 base hvalue
      rcases hrun : (Exec.foldUpTo n (loadTurn B S.fs S.rest data S.elfHeader) noBase).run
        (m, S.stateAt 0) with ⟨v, ⟨m', s'⟩, es⟩
      rw [hrun] at hstate hlast hes hvalue
      dsimp only at hstate hlast hes hvalue
      subst hstate hbase hvalue
      have hturn : ((S.distance n < 2 ^ 31 ∧ S.Caused n e) ∨ (∃ e', e = LoadEvent.paging e') ∨
          (¬ S.distance n < 2 ^ 31 ∧ e = LoadEvent.overflow n)) :=
        (S.turn_yields B data (fun _ h ↦ h) m').1 e hlast
      obtain ⟨hsmall, hown⟩ : S.distance n < 2 ^ 31 ∧ S.Caused n e := by
        rcases hturn with h | ⟨e', rfl⟩ | ⟨-, rfl⟩
        · exact h
        · exact absurd (turnOf_caused hcaused) (by simp [turnOf])
        · exact absurd (turnOf_caused hcaused) (by simp [turnOf])
      have hsame : i = n :=
        Option.some.inj ((turnOf_caused hcaused).symm.trans (turnOf_caused hown))
      subst hsame
      rw [Exec.foldUpTo, Exec.run_bind_of_some hrun]
      rcases Nat.lt_or_eq_of_le hj with hlt | rfl
      · exact List.mem_append_left _ ((hes j hlt).2 _ Caused.program)
      · exact List.mem_append_right _ (S.programRequest_mem_turn B data hsmall _ m')

/-- In a run of `readElf` too. -/
theorem programRequest_mem (m : Machine) {i : ℕ} {e : LoadEvent} (hcaused : S.Caused i e)
    (he : e ∈ ((readElf B S.fs S.rest data).run (m, S.start)).events) :
    ∀ j ≤ i, S.programRequest j ∈ ((readElf B S.fs S.rest data).run (m, S.start)).events := by
  intro j hj
  have hask : (ask S.fs Part.header 0 ehdrSize).run (m, S.start) =
      ⟨some S.header.bytes, (m, S.header.after), [S.headerRequest]⟩ := rfl
  rw [readElf, Exec.run_bind_of_some hask] at he ⊢
  refine List.mem_append_right _ ?_
  rcases List.mem_append.1 he with hheader | he
  · obtain rfl := List.mem_singleton.1 hheader
    exact absurd (turnOf_caused hcaused) (by simp [turnOf, headerRequest])
  have hbody : ∀ x : LoadEvent, x ∈ ((if S.elfHeader.ident ≠ elfMagic then pure (ElfInfo.mk 0 0)
      else Exec.foldUpTo S.count (loadTurn B S.fs S.rest data S.elfHeader) noBase >>= fun physBase ↦
        pure (ElfInfo.mk S.elfHeader.entry (if physBase = noBase then data else physBase)) :
          Load σ ElfInfo).run (m, S.stateAt 0)).events ↔ S.Magic ∧ x ∈ ((Exec.foldUpTo S.count
        (loadTurn B S.fs S.rest data S.elfHeader) noBase).run (m, S.stateAt 0)).events := by
    intro x
    split
    · next hnot => exact ⟨fun hx ↦ absurd hx List.not_mem_nil, fun hx ↦ absurd hx.1 hnot⟩
    · next hnot =>
      rw [Exec.mem_events_bind]
      refine ⟨fun hx ↦ ⟨not_not.1 hnot, ?_⟩, fun hx ↦ Or.inl hx.2⟩
      rcases hx with hx | ⟨_, -, hx⟩
      · exact hx
      · exact absurd hx List.not_mem_nil
  obtain ⟨hmagic, he⟩ := (hbody e).1 he
  exact (hbody _).2 ⟨hmagic, S.programRequest_mem_loop B data hmagic m le_rfl hcaused he j hj⟩

/-! ### Requests for program headers -/

variable {S}

theorem caused_program {i j : ℕ} {position : UInt32} {wanted : UInt64} {ok : Bool}
    {bytes : List UInt8}
    (h : S.Caused i (LoadEvent.request (Part.program j) position wanted ok bytes)) :
    j = i ∧ position = (S.position i).toUInt32 ∧ wanted = phdrSize ∧ ok = (S.program i).ok ∧
      bytes = (S.program i).bytes := by
  cases h
  exact ⟨rfl, rfl, rfl, rfl, rfl⟩

/-- A request for a program header is one of a turn. -/
theorem allowed_program {j : ℕ} {position : UInt32} {wanted : UInt64} {ok : Bool}
    {bytes : List UInt8}
    (h : S.Allowed (LoadEvent.request (Part.program j) position wanted ok bytes)) :
    S.Magic ∧ j < S.count ∧ position = (S.position j).toUInt32 ∧ wanted = phdrSize ∧
      ok = (S.program j).ok ∧ bytes = (S.program j).bytes := by
  cases h with
  | turn hmagic hi _ he =>
    obtain ⟨rfl, hrest⟩ := caused_program he
    exact ⟨hmagic, hi, hrest⟩

end Source

end Aidos.Loader
