import Aidos.Loader.Source

/-!
# Images that are served faithfully

What the loader sees of a file when every request for a part of the file is answered with that part:
the ELF header, the program headers and the bytes of the segments are those of the file
(`Serves.elfHeader_eq`, `Serves.phdr_eq`, `Serves.segment_eq`), and nothing depends on what the
stack held.
-/

namespace Aidos.Loader

open ByteMemory

variable {σ : Type}

/-! ### Decoding -/

/-- A header is decoded from its own bytes. -/
theorem Ehdr.decode_congr {b b' : ℕ → UInt8} (h : ∀ k < 64, b k = b' k) :
    Ehdr.decode b = Ehdr.decode b' := by
  have hword : ∀ n p, p + n ≤ 64 → littleEndian b n p = littleEndian b' n p := fun n p hp ↦
    littleEndian_congr fun i hi ↦ h _ (by omega)
  simp only [Ehdr.decode, read64, hword 8 24 (by omega), hword 8 32 (by omega),
    hword 2 54 (by omega),
    hword 2 56 (by omega), h 0 (by omega), h 1 (by omega), h 2 (by omega), h 3 (by omega)]

theorem Phdr.decode_congr {b b' : ℕ → UInt8} (h : ∀ k < 56, b k = b' k) :
    Phdr.decode b = Phdr.decode b' := by
  have hword : ∀ n p, p + n ≤ 56 → littleEndian b n p = littleEndian b' n p := fun n p hp ↦
    littleEndian_congr fun i hi ↦ h _ (by omega)
  simp only [Phdr.decode, read64, hword 4 0 (by omega), hword 8 8 (by omega), hword 8 16 (by omega),
    hword 8 24 (by omega), hword 8 32 (by omega), hword 8 40 (by omega)]

/-- The ELF header of a file. -/
def fileHeader (file : List UInt8) : Ehdr := Ehdr.decode fun k ↦ file.getD k 0

/-- Where the file has its program header `i`. -/
def fileOffset (file : List UInt8) (i : ℕ) : ℕ :=
  (fileHeader file).phoff.toNat + i * (fileHeader file).phentsize.toNat

/-- Program header `i` of a file. -/
def filePhdr (file : List UInt8) (i : ℕ) : Phdr :=
  Phdr.decode fun k ↦ file.getD (fileOffset file i + k) 0

/-- The number of program headers of a file. -/
def fileCount (file : List UInt8) : ℕ := (fileHeader file).phnum.toNat

/-- The headers of a file are in place: the magic number, the ELF header, and every program header,
at a distance from the start of their table that fits an `int`. -/
structure HasHeaders (file : List UInt8) : Prop where
  /-- The magic number. -/
  magic : (fileHeader file).ident = elfMagic
  /-- The ELF header. -/
  header : 64 ≤ file.length
  /-- The program headers. -/
  programs : ∀ i < fileCount file, fileOffset file i + 56 ≤ file.length
  /-- The products are small. -/
  small : ∀ i < fileCount file, i * (fileHeader file).phentsize.toNat < 2 ^ 31

/-- The file system serves a file: a `seek` to a position in the file or at its end succeeds, and
the `read` behind it delivers the bytes from there on, as many as there are. -/
structure Serves (F : FileSystem σ) (file : List UInt8) : Prop where
  /-- A size is an `uint32_t`. -/
  size : file.length < 2 ^ 32
  /-- The slice. -/
  slice : ∀ s (p n : UInt32), p.toNat ≤ file.length →
    (F.seek p s).1 = true ∧ (F.read n (F.seek p s).2).1 = (file.drop p.toNat).take n.toNat

namespace Serves

variable {S : Source σ} {file : List UInt8} (h : Serves S.fs file)
include h

/-- A request for a part of the file. -/
theorem fetch_eq {position wanted : UInt64}
    (hpos : position.toNat + wanted.toNat ≤ file.length) (s : σ) :
    (S.fs.fetch position wanted s).ok = true ∧
      (S.fs.fetch position wanted s).bytes = (file.drop position.toNat).take wanted.toNat := by
  have hsize := h.size
  have hp : position.toUInt32.toNat = position.toNat := by
    rw [UInt64.toNat_toUInt32]
    omega
  have hn : wanted.toUInt32.toNat = wanted.toNat := by
    rw [UInt64.toNat_toUInt32]
    omega
  have hslice := h.slice s position.toUInt32 wanted.toUInt32 (by omega)
  rw [hp, hn] at hslice
  exact hslice

/-- The byte of a buffer that a part of the file has been read to. -/
theorem overwrite_eq {position wanted : UInt64}
    (hpos : position.toNat + wanted.toNat ≤ file.length) (s : σ)
    (old : ℕ → UInt8) {k : ℕ} (hk : k < wanted.toNat) :
    overwrite (S.fs.fetch position wanted s).bytes old k = file.getD (position.toNat + k) 0 := by
  have hlt : position.toNat + k < file.length := by omega
  rw [(h.fetch_eq hpos s).2, overwrite, List.getD_eq_getElem?_getD, List.getElem?_take_of_lt hk,
    List.getElem?_drop, List.getD_eq_getElem?_getD, List.getElem?_eq_getElem hlt]
  rfl

variable (hfile : HasHeaders file)
include hfile

theorem elfHeader_eq : S.elfHeader = fileHeader file := by
  refine Ehdr.decode_congr fun k hk ↦ ?_
  have hin : (0 : UInt64).toNat + ehdrSize.toNat ≤ file.length := hfile.header
  have hbyte := h.overwrite_eq hin S.start S.rest.header hk
  rw [UInt64.toNat_zero, Nat.zero_add] at hbyte
  exact hbyte

theorem count_eq : S.count = fileCount file := by
  rw [Source.count, h.elfHeader_eq hfile]
  rfl

theorem magic : S.Magic := by
  rw [Source.Magic, h.elfHeader_eq hfile]
  exact hfile.magic

theorem toNat_position {i : ℕ} (hi : i < fileCount file) :
    (S.position i).toNat = fileOffset file i := by
  have hsize := h.size
  have hin := hfile.programs i hi
  have hsmall := hfile.small i hi
  have hdist : S.distance i = i * (fileHeader file).phentsize.toNat := by
    rw [Source.distance, h.elfHeader_eq hfile]
  have hnum : (UInt64.ofNat (S.distance i)).toNat = i * (fileHeader file).phentsize.toNat := by
    rw [hdist]
    exact UInt64.toNat_ofNat_of_lt' (Nat.lt_trans hsmall (by decide))
  rw [fileOffset] at hin ⊢
  rw [Source.position, UInt64.toNat_add, hnum, h.elfHeader_eq hfile]
  omega

theorem phdrOf_eq {i : ℕ} (hi : i < fileCount file) (s : σ) :
    S.phdrOf i (S.fs.fetch (S.position i) phdrSize s) = filePhdr file i := by
  have hpos := h.toNat_position hfile hi
  have hin : (S.position i).toNat + phdrSize.toNat ≤ file.length := hpos ▸ hfile.programs i hi
  refine Phdr.decode_congr fun k hk ↦ ?_
  have hbyte := h.overwrite_eq hin s (S.rest.program i) hk
  rw [hpos] at hbyte
  exact hbyte

theorem phdr_eq {i : ℕ} (hi : i < fileCount file) : S.phdr i = filePhdr file i :=
  h.phdrOf_eq hfile hi _

theorem isLoad_iff {i : ℕ} (hi : i < fileCount file) :
    S.IsLoad i ↔ (filePhdr file i).type = ptLoad := by
  rw [Source.IsLoad, h.phdr_eq hfile hi]

/-- The bytes of a segment that lies in the file. -/
theorem segment_eq {i : ℕ} (hi : i < fileCount file)
    (hin : (filePhdr file i).offset.toNat + (filePhdr file i).filesz.toNat ≤ file.length) :
    (S.segment i).bytes =
      (file.drop (filePhdr file i).offset.toNat).take (filePhdr file i).filesz.toNat := by
  rw [← h.phdr_eq hfile hi] at hin ⊢
  exact (h.fetch_eq hin _).2

end Serves

end Aidos.Loader
