import Aidos.Paging.BootTables

/-!
# The ELF loader of the second stage

`readElf` of `stage2/elf.cpp` and the part of `stage2_main` around it: choose a memory region, load
the kernel there and jump to it.

The file system is a parameter with a state of its own. A request for bytes of the file is a `seek`
followed by a `read`, whose results the loader does not look at; the run records each request with
what was answered. The two headers are local variables: what a short read leaves of them is what the
stack held before (`Leftovers`). The bytes of a segment and the zeros behind them are written
through the segment's virtual addresses, as the page tables translate them.
-/

namespace Aidos.Loader

open ByteMemory Paging

/-! ### The file format -/

/-- The fields of `Elf64_Ehdr` that the loader looks at. -/
structure Ehdr where
  /-- The first four bytes of `e_ident`. -/
  ident : List UInt8
  /-- `e_entry`. -/
  entry : UInt64
  /-- `e_phoff`. -/
  phoff : UInt64
  /-- `e_phentsize`. -/
  phentsize : UInt16
  /-- `e_phnum`. -/
  phnum : UInt16

/-- `sizeof(Elf64_Ehdr)`. -/
def ehdrSize : UInt64 := 64

/-- The header in a buffer. -/
def Ehdr.decode (b : ℕ → UInt8) : Ehdr where
  ident := [b 0, b 1, b 2, b 3]
  entry := read64 b 24
  phoff := read64 b 32
  phentsize := UInt16.ofNat (littleEndian b 2 54)
  phnum := UInt16.ofNat (littleEndian b 2 56)

/-- The magic number: `0x7F`, `'E'`, `'L'`, `'F'`. -/
def elfMagic : List UInt8 := [0x7F, 0x45, 0x4C, 0x46]

/-- The fields of `Elf64_Phdr` that the loader looks at. -/
structure Phdr where
  /-- `p_type`. -/
  type : UInt32
  /-- `p_offset`. -/
  offset : UInt64
  /-- `p_vaddr`. -/
  vaddr : UInt64
  /-- `p_paddr`. -/
  paddr : UInt64
  /-- `p_filesz`. -/
  filesz : UInt64
  /-- `p_memsz`. -/
  memsz : UInt64
  deriving DecidableEq

/-- `sizeof(Elf64_Phdr)`. -/
def phdrSize : UInt64 := 56

/-- The program header in a buffer. -/
def Phdr.decode (b : ℕ → UInt8) : Phdr where
  type := UInt32.ofNat (littleEndian b 4 0)
  offset := read64 b 8
  vaddr := read64 b 16
  paddr := read64 b 24
  filesz := read64 b 32
  memsz := read64 b 40

/-- `PT_LOAD`. -/
def ptLoad : UInt32 := 1

/-! ### Images -/

/-- A number in `n` bytes, least significant byte first. -/
def bytesOf (n x : ℕ) : List UInt8 := (List.range n).map fun k ↦ UInt8.ofNat (x / 256 ^ k)

/-- The bytes of an ELF header; the fields that the loader does not look at are zero. -/
def Ehdr.encode (h : Ehdr) : List UInt8 :=
  h.ident ++ List.replicate 20 0 ++ bytesOf 8 h.entry.toNat ++ bytesOf 8 h.phoff.toNat ++
    List.replicate 14 0 ++ bytesOf 2 h.phentsize.toNat ++ bytesOf 2 h.phnum.toNat ++
      List.replicate 6 0

/-- The bytes of a program header. -/
def Phdr.encode (p : Phdr) : List UInt8 :=
  bytesOf 4 p.type.toNat ++ List.replicate 4 0 ++ bytesOf 8 p.offset.toNat ++
    bytesOf 8 p.vaddr.toNat ++
    bytesOf 8 p.paddr.toNat ++ bytesOf 8 p.filesz.toNat ++ bytesOf 8 p.memsz.toNat ++
      List.replicate 8 0

/-- An image with these program headers, which follow the ELF header, and this data behind them. -/
def image (entry : UInt64) (phdrs : List Phdr) (contents : List UInt8) : List UInt8 :=
  Ehdr.encode ⟨elfMagic, entry, 64, 56, UInt16.ofNat phdrs.length⟩ ++
    phdrs.flatMap Phdr.encode ++ contents

/-! ### The file system -/

variable {σ : Type}

/-- The two calls of a `FileSystem` that the loader makes for its open file. -/
structure FileSystem (σ : Type) where
  /-- `seek(file, position)`. -/
  seek : UInt32 → σ → Bool × σ
  /-- `read(file, byteCount, out)`: the bytes it writes to `out`, as many as it returns. -/
  read : UInt32 → σ → List UInt8 × σ
  /-- At most as many bytes as asked for. -/
  read_le : ∀ n s, (read n s).1.length ≤ n.toNat

/-- A file system that serves one file, from its current position on. -/
def FileSystem.ofBytes (file : List UInt8) : FileSystem ℕ where
  seek p s := if p.toNat ≤ file.length then (true, p.toNat) else (false, s)
  read n s := ((file.drop s).take n.toNat, s + ((file.drop s).take n.toNat).length)
  read_le _ _ := List.length_take_le _ _

/-- What comes back from a request. -/
structure Answer (σ : Type) where
  /-- What `seek` returned. -/
  ok : Bool
  /-- The bytes that `read` delivered. -/
  bytes : List UInt8
  /-- The file system afterwards. -/
  after : σ

/-- A `seek` and a `read`. Both parameters are of type `uint32_t`. -/
def FileSystem.fetch (F : FileSystem σ) (position wanted : UInt64) (s : σ) : Answer σ :=
  let sought := F.seek position.toUInt32 s
  let got := F.read wanted.toUInt32 sought.2
  ⟨sought.1, got.1, got.2⟩

/-- What a request is for. -/
inductive Part where
  /-- The ELF header. -/
  | header
  /-- Program header `i`. -/
  | program (i : ℕ)
  /-- The bytes of the segment of program header `i`. -/
  | segment (i : ℕ)
  deriving DecidableEq

/-- What a run of the loader records. -/
inductive LoadEvent where
  /-- A request: the position handed to `seek`, how many bytes the loader means to read, what `seek`
  returned and the bytes delivered. -/
  | request (part : Part) (position : UInt32) (wanted : UInt64) (ok : Bool) (bytes : List UInt8)
  /-- An event of the paging code. -/
  | paging (e : Event)
  /-- An access through the virtual addresses of segment `i`. -/
  | store (i : ℕ) (e : Event)
  /-- The product `i * e_phentsize` does not fit an `int`. -/
  | overflow (i : ℕ)
  deriving DecidableEq

/-- A program of the loader. -/
abbrev Load (σ α : Type) : Type := Exec (Machine × σ) LoadEvent α

/-- Make a request. -/
def ask (F : FileSystem σ) (part : Part) (position wanted : UInt64) : Load σ (List UInt8) := do
  let s ← Exec.get
  let answer := F.fetch position wanted s.2
  Exec.modify fun s ↦ (s.1, answer.after)
  Exec.emit (LoadEvent.request part position.toUInt32 wanted answer.ok answer.bytes)
  pure answer.bytes

/-- What the stack held where the loader keeps its two headers. -/
structure Leftovers where
  /-- Under `elfHeader`. -/
  header : ℕ → UInt8
  /-- Under `phdr`, in each turn of the loop. -/
  program : ℕ → ℕ → UInt8

/-- A buffer after bytes have been read to its start. -/
def overwrite (bytes : List UInt8) (old : ℕ → UInt8) (k : ℕ) : UInt8 := bytes.getD k (old k)

/-! ### `readElf` -/

/-- `ElfInfo`. -/
structure ElfInfo where
  /-- `entry`. -/
  entry : UInt64
  /-- `phys_base`. -/
  physBase : UInt64
  deriving DecidableEq

/-- The position of a program header, `e_phoff + i * e_phentsize`. The product is one of `int`s. -/
def programOffset (elfHeader : Ehdr) (i : ℕ) : Load σ UInt64 :=
  if i * elfHeader.phentsize.toNat < 2 ^ 31 then
    pure (elfHeader.phoff + UInt64.ofNat (i * elfHeader.phentsize.toNat))
  else do
    Exec.emit (LoadEvent.overflow i)
    Exec.fault

/-- Step 1 of a segment: map its virtual range to its physical one. -/
def mapSegment (B : Boot) (virt phys size : UInt64) : Prog Unit :=
  if virt % pageSize2m = 0 ∧ phys % pageSize2m = 0 ∧ size % pageSize2m = 0 then
    B.map2m virt phys (size / pageSize2m)
  else
    B.map4k virt phys ((size + pageSize4k - 1) / pageSize4k)

/-- Map, copy and clear the segment of a `PT_LOAD` header. -/
def loadSegment (B : Boot) (F : FileSystem σ) (data : UInt64) (i : ℕ) (phdr : Phdr) :
    Load σ Unit := do
  let phys := data + phdr.paddr
  let virt := phdr.vaddr
  let size := phdr.memsz
  Exec.onFst LoadEvent.paging (mapSegment B virt phys size)
  let bytes ← ask F (Part.segment i) phdr.offset phdr.filesz
  Exec.onFst (LoadEvent.store i) (storeRun virt (fun b ↦ bytes.getD b 0) bytes.length)
  if phdr.memsz > phdr.filesz then
    Exec.onFst (LoadEvent.store i) (memset (virt + phdr.filesz) 0 (phdr.memsz - phdr.filesz))
  else pure ()

/-- One turn of the loop over the program headers; `physBase` is carried along. -/
def loadTurn (B : Boot) (F : FileSystem σ) (rest : Leftovers) (data : UInt64)
    (elfHeader : Ehdr) (i : ℕ)
    (physBase : UInt64) : Load σ UInt64 := do
  let offset ← programOffset elfHeader i
  let bytes ← ask F (Part.program i) offset phdrSize
  let phdr := Phdr.decode (overwrite bytes (rest.program i))
  if phdr.type ≠ ptLoad then pure physBase
  else do
    let phys := data + phdr.paddr
    loadSegment B F data i phdr
    pure (if phys < physBase then phys else physBase)

/-- `(uint64_t)-1`. -/
def noBase : UInt64 := 0xFFFFFFFFFFFFFFFF

/-- `readElf(fs, file, data)`. -/
def readElf (B : Boot) (F : FileSystem σ) (rest : Leftovers) (data : UInt64) : Load σ ElfInfo := do
  let bytes ← ask F Part.header 0 ehdrSize
  let elfHeader := Ehdr.decode (overwrite bytes rest.header)
  if elfHeader.ident ≠ elfMagic then pure ⟨0, 0⟩
  else do
    let physBase ← Exec.foldUpTo elfHeader.phnum.toNat (loadTurn B F rest data elfHeader) noBase
    pure ⟨elfHeader.entry, if physBase = noBase then data else physBase⟩

/-! ### `stage2_main` -/

/-- `MemoryRegion`. -/
structure MemoryRegion where
  /-- `Base`. -/
  base : UInt64
  /-- `Length`. -/
  length : UInt64
  /-- `type`. -/
  type : UInt32

/-- `boot_info`: the entries of `mem_map` that `mem_map_count` counts. -/
structure BootInfo where
  /-- `mem_map`. -/
  memMap : List MemoryRegion
  /-- The array has `2048 / sizeof(MemoryRegion)` entries. -/
  length_le : memMap.length ≤ 85

/-- `BootInfoExtended`. -/
structure BootInfoExtended where
  /-- `memoryMapIndex`. -/
  memoryMapIndex : UInt8
  /-- `PML4Address`. -/
  pml4Address : UInt64
  /-- `kernelPhysicalBase`. -/
  kernelPhysicalBase : UInt64
  deriving DecidableEq

/-- The test for a region to load the kernel to. -/
def MemoryRegion.suits (r : MemoryRegion) : Bool :=
  r.base ≥ 0x100000 && r.length ≥ 0x100000 && r.type == 1

/-- The loop over the memory map, from entry `i` on. -/
def selectRegion : ℕ → List MemoryRegion → Option (ℕ × MemoryRegion)
  | _, [] => none
  | i, r :: rest => if r.suits then some (i, r) else selectRegion (i + 1) rest

/-- What the drivers answer before the kernel is loaded. -/
structure Drivers (σ : Type) where
  /-- `ata.initialize()`. -/
  ata : Bool
  /-- `detectAndMount(&ata)`; `none` stands for `nullptr`. -/
  fs : Option (FileSystem σ)
  /-- `fs->open("/kernel.elf")` returned a file. -/
  kernel : Bool

/-- How `stage2_main` ends. -/
inductive Stage2 where
  /-- In one of its endless loops, after a message. -/
  | halted
  /-- With a jump to `entry`, with this `bootInfoExtended`. -/
  | jumped (entry : UInt64) (info : BootInfoExtended)
  deriving DecidableEq

/-- `stage2_main()`, without the text it prints. The second part of the state is the file system
with the file open. -/
def stage2Main (B : Boot) (D : Drivers σ) (bootInfo : BootInfo) (rest : Leftovers) :
    Load σ Stage2 := do
  Exec.onFst LoadEvent.paging B.setupPaging
  if !D.ata then pure Stage2.halted
  else match D.fs with
    | none => pure Stage2.halted
    | some fs =>
      if !D.kernel then pure Stage2.halted
      else match selectRegion 0 bootInfo.memMap with
        | none => pure Stage2.halted
        | some (i, region) => do
          let info ← readElf B fs rest region.base
          pure (Stage2.jumped info.entry ⟨UInt8.ofNat i, B.pml4, info.physBase⟩)

end Aidos.Loader
