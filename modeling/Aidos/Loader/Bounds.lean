import Aidos.Loader.Source

/-!
# What the loader may write and read

A careful loader writes through virtual addresses only inside the segments whose headers it has
read, computes the position of every program header exactly, and decodes no header that it has not
read in full from there. `readElf` checks none of this: the length of the copy (`p_filesz`) and the
length of the mapping (`p_memsz`) are independent fields of the file, positions pass through an
`int` product and an `uint32_t` parameter, and the results of `seek` and `read` are dropped.

`Orderly` is a condition on the fields of the headers and on what the file system delivers.
`careful_of_orderly` and `orderly_of_careful` say that it is what carefulness takes.
-/

namespace Aidos.Loader

open ByteMemory Paging

variable {σ : Type}

/-- The address is in `[p_vaddr, p_vaddr + p_memsz)`. -/
def Phdr.Contains (p : Phdr) (v : UInt64) : Prop :=
  p.vaddr.toNat ≤ v.toNat ∧ v.toNat < p.vaddr.toNat + p.memsz.toNat

instance (p : Phdr) (v : UInt64) : Decidable (p.Contains v) := inferInstanceAs (Decidable (_ ∧ _))

/-- The addresses of the segment, counted from its start: those that do not wrap around. -/
theorem Phdr.contains_add_iff {p : Phdr} {b : ℕ} (hb : b < 2 ^ 64) :
    p.Contains (p.vaddr + UInt64.ofNat b) ↔
      p.vaddr.toNat + b < 2 ^ 64 ∧ b < p.memsz.toNat := by
  have hvirt := p.vaddr.toNat_lt
  have hmem := p.memsz.toNat_lt
  rw [Phdr.Contains, UInt64.toNat_add, UInt64.toNat_ofNat_of_lt' hb]
  omega

/-- The events of a careful run, with what the stack held and the ELF header as decoded. -/
structure Careful (rest : Leftovers) (elfHeader : Ehdr) (es : List LoadEvent) : Prop where
  /-- Segment `i` is written inside the segments of the headers read up to then. -/
  inside : ∀ i v, LoadEvent.store i (Event.write v) ∈ es → ∃ j ≤ i, ∃ position wanted ok bytes,
    LoadEvent.request (Part.program j) position wanted ok bytes ∈ es ∧
      (Phdr.decode (overwrite bytes (rest.program j))).type = ptLoad ∧
      (Phdr.decode (overwrite bytes (rest.program j))).Contains v
  /-- Program header `i` is looked for where it is. -/
  exact : ∀ i position wanted ok bytes, LoadEvent.request (Part.program i) position
    wanted ok bytes ∈ es →
    position.toNat = elfHeader.phoff.toNat + i * elfHeader.phentsize.toNat
  /-- No product overflows. -/
  noOverflow : ∀ i, LoadEvent.overflow i ∉ es
  /-- Headers are read from their place, in full. -/
  headers : ∀ part position wanted ok bytes, LoadEvent.request part position wanted ok bytes ∈ es →
    (∀ i, part ≠ Part.segment i) → ok = true ∧ bytes.length = wanted.toNat

namespace Source

variable (S : Source σ)

/-- Turn `i` writes byte `b` of its segment: `read` has delivered it, or it lies between `p_filesz`
and `p_memsz`, and is cleared. -/
def Written (i b : ℕ) : Prop :=
  b < (S.segment i).bytes.length ∨ ((S.phdr i).filesz.toNat ≤ b ∧ b < (S.phdr i).memsz.toNat)

/-- The address is in the segment of an earlier `PT_LOAD` header. -/
def InEarlier (i : ℕ) (v : UInt64) : Prop := ∃ j < i, S.IsLoad j ∧ (S.phdr j).Contains v

/-- A program header that the loader treats well: its position is below 4 GiB, with a product below
2 GiB, and it is delivered in full from there; and what is written of its segment is below `p_memsz`
and does not wrap around, or goes to earlier segments. -/
structure Tame (i : ℕ) : Prop where
  /-- The product fits an `int`. -/
  product : S.distance i < 2 ^ 31
  /-- The position fits an `uint32_t`. -/
  fits : S.elfHeader.phoff.toNat + S.distance i < 2 ^ 32
  /-- The position is one of the file. -/
  sought : (S.program i).ok = true
  /-- The header is delivered. -/
  full : (S.program i).bytes.length = phdrSize.toNat
  /-- The segment ends where the header says, or inside earlier ones. -/
  ends : S.IsLoad i → ∀ b, S.Written i b →
    ((S.phdr i).vaddr.toNat + b < 2 ^ 64 ∧ b < (S.phdr i).memsz.toNat) ∨
      S.InEarlier i ((S.phdr i).vaddr + UInt64.ofNat b)

/-- A source that `readElf` reads carefully. -/
structure Orderly : Prop where
  /-- The file system can go to the start of the file. -/
  sought : S.header.ok = true
  /-- The ELF header is delivered. -/
  full : S.header.bytes.length = ehdrSize.toNat
  /-- With the magic number, every program header is well-behaved. -/
  tame : S.Magic → ∀ i < S.count, S.Tame i

variable {S}

/-- The position handed to `seek` is the intended one. -/
theorem toNat_position {i : ℕ} (h : S.elfHeader.phoff.toNat + S.distance i < 2 ^ 32) :
    (S.position i).toUInt32.toNat = S.elfHeader.phoff.toNat + S.distance i := by
  have hdist : (UInt64.ofNat (S.distance i)).toNat = S.distance i :=
    UInt64.toNat_ofNat_of_lt'
      (Nat.lt_of_le_of_lt (Nat.le_add_left _ _) (Nat.lt_trans h (by decide)))
  rw [UInt64.toNat_toUInt32, position, UInt64.toNat_add, hdist]
  omega

/-- No byte has a number of more than 64 bits. -/
theorem Written.lt {i b : ℕ} (h : S.Written i b) : b < 2 ^ 64 := by
  have hread : (S.segment i).bytes.length ≤ (S.phdr i).filesz.toUInt32.toNat := S.fs.read_le _ _
  have hsize := (S.phdr i).filesz.toUInt32.toNat_lt
  have hmem := (S.phdr i).memsz.toNat_lt
  rcases h with hb | ⟨-, hb⟩ <;> omega

/-- A segment of which no more than `p_memsz` bytes are delivered, and which does not wrap around,
ends where its header says. -/
theorem ends_of_le {i b : ℕ} (hle : (S.segment i).bytes.length ≤ (S.phdr i).memsz.toNat)
    (hwrap : (S.phdr i).vaddr.toNat + (S.phdr i).memsz.toNat ≤ 2 ^ 64) (h : S.Written i b) :
    (S.phdr i).vaddr.toNat + b < 2 ^ 64 ∧ b < (S.phdr i).memsz.toNat := by
  rcases h with hb | ⟨-, hb⟩ <;> omega

/-! ### Requests and stores of a run -/

/-- The bytes from `p_filesz` on, counted from the start of the segment. -/
theorem cleared_addr (p : Phdr) (b : ℕ) :
    p.vaddr + p.filesz + UInt64.ofNat b = p.vaddr + UInt64.ofNat (p.filesz.toNat + b) := by
  rw [UInt64.ofNat_add, UInt64.ofNat_toNat, UInt64.add_assoc]

theorem toNat_sub_filesz {p : Phdr} (hmore : p.memsz > p.filesz) :
    p.filesz.toNat + (p.memsz - p.filesz).toNat = p.memsz.toNat := by
  have hlt : p.filesz.toNat < p.memsz.toNat := UInt64.lt_iff_toNat_lt.1 hmore
  rw [UInt64.toNat_sub_of_le _ _ (UInt64.le_iff_toNat_le.2 hlt.le)]
  omega

theorem caused_store_iff {i j : ℕ} {v : UInt64} :
    S.Caused i (LoadEvent.store j (Event.write v)) ↔
      j = i ∧ S.IsLoad i ∧ ∃ b, S.Written i b ∧ v = (S.phdr i).vaddr + UInt64.ofNat b := by
  constructor
  · intro h
    cases h with
    | copied hload b hb => exact ⟨rfl, hload, b, Or.inl hb, rfl⟩
    | cleared hload hmore b hb =>
      have hsum := toNat_sub_filesz hmore
      exact ⟨rfl, hload, _, Or.inr ⟨Nat.le_add_right _ b, by omega⟩, cleared_addr _ b⟩
  · rintro ⟨rfl, hload, b, hb | ⟨hlow, hhigh⟩, rfl⟩
    · exact Caused.copied hload b hb
    · have hmore : (S.phdr j).memsz > (S.phdr j).filesz :=
        UInt64.lt_iff_toNat_lt.2 (Nat.lt_of_le_of_lt hlow hhigh)
      have hsum := toNat_sub_filesz hmore
      have hcleared := Caused.cleared hload hmore (b - (S.phdr j).filesz.toNat) (by omega)
      rwa [cleared_addr, Nat.add_sub_cancel' hlow] at hcleared

/-! ### Carefulness -/

variable (S) (B : Boot) (data : UInt64) (m : Machine)

/-- The events of `readElf`. -/
def events : List LoadEvent := ((readElf B S.fs S.rest data).run (m, S.start)).events

/-- `readElf` has returned, or it has run into an overflow. -/
def Ended : Prop :=
  ((readElf B S.fs S.rest data).run (m, S.start)).value ≠ none ∨
    ∃ i, LoadEvent.overflow i ∈ S.events B data m

variable {S B data m}

theorem allowed_of_mem {e : LoadEvent} (he : e ∈ S.events B data m) : S.Allowed e :=
  (S.readElf_yields B data m).1 e he

/-- An orderly source is read carefully, also where the processor stops the loader. -/
theorem careful_of_orderly (h : S.Orderly) : Careful S.rest S.elfHeader (S.events B data m) where
  inside := by
    intro i v he
    cases allowed_of_mem he with
    | turn hmagic hi _ hcaused =>
      obtain ⟨rfl, hload, b, hb, rfl⟩ := caused_store_iff.1 hcaused
      rcases (h.tame hmagic _ hi).ends hload b hb with hown | ⟨j, hj, hjload, hcontains⟩
      · exact ⟨i, le_rfl, _, _, _, _, S.programRequest_mem B data m hcaused he i le_rfl, hload,
          (Phdr.contains_add_iff hb.lt).2 hown⟩
      · exact ⟨j, hj.le, _, _, _, _, S.programRequest_mem B data m hcaused he j hj.le, hjload,
          hcontains⟩
  exact := by
    intro i position wanted ok bytes he
    obtain ⟨hmagic, hi, rfl, -, -, -⟩ := allowed_program (allowed_of_mem he)
    exact toNat_position (h.tame hmagic i hi).fits
  noOverflow := by
    intro i he
    cases allowed_of_mem he with
    | turn _ _ _ hcaused => exact absurd (turnOf_caused hcaused) (by simp [turnOf])
    | overflow hmagic hi hbig => exact hbig (h.tame hmagic i hi).product
  headers := by
    intro part position wanted ok bytes he hpart
    cases part with
    | header =>
      cases allowed_of_mem he with
      | header => exact ⟨h.sought, h.full⟩
      | turn _ _ _ hcaused => exact absurd (turnOf_caused hcaused) (by simp [turnOf])
    | program i =>
      obtain ⟨hmagic, hi, -, rfl, rfl, rfl⟩ := allowed_program (allowed_of_mem he)
      exact ⟨(h.tame hmagic i hi).sought, (h.tame hmagic i hi).full⟩
    | segment i => exact absurd rfl (hpart i)

/-- A source that is read carefully, to the end, is orderly. -/
theorem orderly_of_careful (hended : S.Ended B data m)
    (h : Careful S.rest S.elfHeader (S.events B data m)) : S.Orderly := by
  have hvalue : ((readElf B S.fs S.rest data).run (m, S.start)).value ≠ none := by
    rcases hended with hvalue | ⟨i, hi⟩
    · exact hvalue
    · exact absurd hi (h.noOverflow i)
  obtain ⟨info, hinfo⟩ := Option.ne_none_iff_exists'.1 hvalue
  have hdone := (S.readElf_yields B data m).2 info hinfo
  obtain ⟨hsought, hfull⟩ := h.headers _ _ _ _ _ hdone.header fun i ↦ by simp
  refine ⟨hsought, hfull, fun hmagic i hi ↦ ?_⟩
  obtain ⟨hsmall, hcaused⟩ := (hdone.turns hmagic).2 i hi
  have hrequest := hcaused _ Caused.program
  obtain ⟨hsought', hfull'⟩ := h.headers _ _ _ _ _ hrequest fun j ↦ by simp
  refine ⟨hsmall, ?_, hsought', hfull', fun hload b hb ↦ ?_⟩
  · have hexact : (S.position i).toUInt32.toNat = S.elfHeader.phoff.toNat + S.distance i :=
      h.exact _ _ _ _ _ hrequest
    rw [← hexact]
    exact (S.position i).toUInt32.toNat_lt
  · have hstore := hcaused _ (caused_store_iff.2 ⟨rfl, hload, b, hb, rfl⟩)
    obtain ⟨j, hj, position, wanted, ok, bytes, hmem, htype, hcontains⟩ := h.inside i _ hstore
    obtain ⟨-, -, -, -, -, rfl⟩ := allowed_program (allowed_of_mem hmem)
    rcases Nat.lt_or_eq_of_le hj with hlt | rfl
    · exact Or.inr ⟨j, hlt, htype, hcontains⟩
    · exact Or.inl ((Phdr.contains_add_iff hb.lt).1 hcontains)

end Source

/-- A source with one file, over a stack of zeros. -/
def Source.ofBytes (file : List UInt8) : Source ℕ :=
  ⟨FileSystem.ofBytes file, ⟨fun _ ↦ 0, fun _ _ ↦ 0⟩, 0⟩

end Aidos.Loader
