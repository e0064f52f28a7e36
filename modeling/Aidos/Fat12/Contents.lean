import Aidos.Fat12.Read

/-!
# File contents

What a file's bytes are, from the disk alone: a `ClusterChain` is a sound chain of the on-disk FAT,
and `ClusterChain.byteAt` reads the file's stream off it, in natural numbers. The places where the
driver looks for all this are computed in 32-bit words; on a volume that `detect` accepts they are
the ones meant.

`Volume` says that a driver is mounted on a disk, `Serves` that its reads succeed as well.
-/

namespace Aidos.Fat12

/-! ### The volume in numbers -/

/-- The first sector of the data section. -/
def dataStart (b : FatBootSector) : ℕ :=
  b.reservedSectorCount.toNat + b.numFats.toNat * b.fatSize16.toNat +
    (32 * b.rootEntryCount.toNat + b.bytesPerSector.toNat - 1) / b.bytesPerSector.toNat

/-- Sectors per cluster. -/
def spc (b : FatBootSector) : ℕ := b.sectorsPerCluster.toNat

/-- Byte `k` of the FAT of a disk with boot sector `b`. -/
def diskFat (disk : BlockDevice) (b : FatBootSector) (k : ℕ) : UInt8 :=
  disk.sector (b.reservedSectorCount.toNat + k / sectorSize) (k % sectorSize)

theorem spc_pos {b : FatBootSector} (h : detectAccepts b = true) : 0 < spc b :=
  Nat.pos_of_isPowerOfTwo (isPowerOfTwo_of_detectAccepts h).2

theorem bytesPerSector_pos {b : FatBootSector} (h : detectAccepts b = true) :
    0 < b.bytesPerSector.toNat :=
  Nat.pos_of_isPowerOfTwo (isPowerOfTwo_of_detectAccepts h).1

open Fat12FileSystem in
/-- The root directory's first sector is computed without overflow. -/
theorem toNat_rootDirLba (b : FatBootSector) :
    (rootDirLba b).toNat =
      b.reservedSectorCount.toNat + b.numFats.toNat * b.fatSize16.toNat := by
  have hres := b.reservedSectorCount.toNat_lt
  have hsize := b.fatSize16.toNat_lt
  have hnum := b.numFats.toNat_lt
  have hmul : b.fatSize16.toNat * b.numFats.toNat ≤ 65535 * 255 :=
    Nat.mul_le_mul (by omega) (by omega)
  rw [rootDirLba, UInt32.toNat_add, UInt32.toNat_mul, UInt16.toNat_toUInt32, UInt16.toNat_toUInt32,
    UInt8.toNat_toUInt32, Nat.mul_comm b.numFats.toNat]
  omega

open Fat12FileSystem in
theorem toNat_rootDirSize (b : FatBootSector) :
    (rootDirSize b).toNat = 32 * b.rootEntryCount.toNat := by
  have hcount := b.rootEntryCount.toNat_lt
  rw [rootDirSize, UInt32.toNat_mul, UInt16.toNat_toUInt32]
  simp only [UInt32.reduceToNat]
  omega

open Fat12FileSystem in
theorem toNat_rootDirSectors {b : FatBootSector} (h : detectAccepts b = true) :
    (rootDirSectors b).toNat =
      (32 * b.rootEntryCount.toNat + b.bytesPerSector.toNat - 1) / b.bytesPerSector.toNat := by
  have hcount := b.rootEntryCount.toNat_lt
  have hbps := b.bytesPerSector.toNat_lt
  have hpos := bytesPerSector_pos h
  rw [rootDirSectors, UInt32.toNat_div, UInt32.toNat_sub, UInt32.toNat_add, toNat_rootDirSize,
    UInt16.toNat_toUInt32]
  simp only [UInt32.reduceToNat]
  congr 1
  omega

open Fat12FileSystem in
/-- The data section starts where the layout says. -/
theorem toNat_dataSectionLba {b : FatBootSector} (h : detectAccepts b = true) :
    (rootDirLba b + rootDirSectors b).toNat = dataStart b := by
  have hres := b.reservedSectorCount.toNat_lt
  have hsize := b.fatSize16.toNat_lt
  have hnum := b.numFats.toNat_lt
  have hcount := b.rootEntryCount.toNat_lt
  have hbps := b.bytesPerSector.toNat_lt
  have hmul : b.numFats.toNat * b.fatSize16.toNat ≤ 255 * 65535 :=
    Nat.mul_le_mul (by omega) (by omega)
  have hdiv := Nat.div_le_self (32 * b.rootEntryCount.toNat + b.bytesPerSector.toNat - 1)
    b.bytesPerSector.toNat
  rw [UInt32.toNat_add, toNat_rootDirLba, toNat_rootDirSectors h, dataStart]
  generalize (32 * b.rootEntryCount.toNat + b.bytesPerSector.toNat - 1) /
    b.bytesPerSector.toNat = sectors at hdiv ⊢
  omega

theorem dataStart_lt (b : FatBootSector) : dataStart b < 2 ^ 25 := by
  have hres := b.reservedSectorCount.toNat_lt
  have hsize := b.fatSize16.toNat_lt
  have hnum := b.numFats.toNat_lt
  have hcount := b.rootEntryCount.toNat_lt
  have hbps := b.bytesPerSector.toNat_lt
  have hmul : b.numFats.toNat * b.fatSize16.toNat ≤ 255 * 65535 :=
    Nat.mul_le_mul (by omega) (by omega)
  have hdiv := Nat.div_le_self (32 * b.rootEntryCount.toNat + b.bytesPerSector.toNat - 1)
    b.bytesPerSector.toNat
  rw [dataStart]
  generalize (32 * b.rootEntryCount.toNat + b.bytesPerSector.toNat - 1) /
    b.bytesPerSector.toNat = sectors at hdiv ⊢
  omega

/-! ### Cluster chains -/

/-- A sound cluster chain of a FAT: clusters numbered 2 to `0xFEF`, each linked to the next, the
last one to an end mark. -/
structure ClusterChain (fat : ℕ → UInt8) where
  /-- The clusters, in order. -/
  clusters : List UInt32
  /-- They are data clusters. -/
  inRange : ∀ c ∈ clusters, 2 ≤ c.toNat ∧ c.toNat ≤ 0xFEF
  /-- Each links to the next. -/
  linked : ∀ (i : ℕ) (h : i + 1 < clusters.length),
    fatEntry fat clusters[i].toNat = clusters[i + 1]
  /-- The last links to an end mark. -/
  ends : ∀ c, clusters.getLast? = some c → 0xFF8 ≤ (fatEntry fat c.toNat).toNat

/-- A chain of two clusters. -/
def ClusterChain.pair {fat : ℕ → UInt8} {a b : UInt32}
    (hrange : ∀ c ∈ [a, b], 2 ≤ c.toNat ∧ c.toNat ≤ 0xFEF) (hlinked : fatEntry fat a.toNat = b)
    (hends : 0xFF8 ≤ (fatEntry fat b.toNat).toNat) : ClusterChain fat where
  clusters := [a, b]
  inRange := hrange
  linked i h := by
    obtain rfl : i = 0 := by
      simp only [List.length_cons, List.length_nil] at h
      omega
    exact hlinked
  ends c h := by
    obtain rfl : b = c := Option.some.inj h
    exact hends

/-- End marks come out widened. -/
theorem endMark_of_le {fat : ℕ → UInt8} {c : ℕ} (h : 0xFF8 ≤ (fatEntry fat c).toNat) :
    fatEntry fat c ≥ 0xFFFFFFF8 := by
  rw [fatEntry, decodeEntry] at h ⊢
  have h₀ := (fat (c + c / 2)).toNat_lt
  have h₁ := (fat (c + c / 2 + 1)).toNat_lt
  generalize hw : (fat (c + c / 2)).toNat + 256 * (fat (c + c / 2 + 1)).toNat = w at h ⊢
  have hv : (if c % 2 = 0 then w % 4096 else w / 16) < 4096 := by
    split <;> omega
  generalize (if c % 2 = 0 then w % 4096 else w / 16) = v at h hv ⊢
  have hge : UInt32.ofNat v ≥ 0xFF8 := by
    by_contra hlt
    rw [if_neg hlt] at h
    exact hlt (UInt32.le_iff_toNat_le.2 h)
  rw [if_pos hge]
  have hlow := UInt32.le_iff_toNat_le.1 hge
  rw [UInt32.toNat_ofNat_of_lt' (Nat.lt_trans hv (by decide))] at hlow
  simp only [UInt32.reduceToNat] at hlow
  have hcases : v = 0xFF8 ∨ v = 0xFF9 ∨ v = 0xFFA ∨ v = 0xFFB ∨ v = 0xFFC ∨ v = 0xFFD ∨
    v = 0xFFE ∨ v = 0xFFF := by omega
  rcases hcases with rfl | rfl | rfl | rfl | rfl | rfl | rfl | rfl <;> decide

namespace ClusterChain

variable {disk : BlockDevice} {b : FatBootSector} (C : ClusterChain (diskFat disk b))

/-- Cluster `i` of the chain. -/
def cluster (i : ℕ) : UInt32 := C.clusters.getD i 0

/-- The sector that holds the stream's bytes from `k * 512` on. -/
def sectorLba (k : ℕ) : ℕ :=
  dataStart b + ((C.cluster (k / spc b)).toNat - 2) * spc b + k % spc b

/-- Byte `p` of the stream. -/
def byteAt (p : ℕ) : UInt8 := disk.sector (C.sectorLba (p / sectorSize)) (p % sectorSize)

/-- The chain belongs to a file: it starts at the file's first cluster and has room for its size. -/
structure Covers (first : UInt32) (size : ℕ) : Prop where
  /-- The chain starts at the first cluster. -/
  first : C.clusters.head? = some first
  /-- It has at least as many clusters as the size takes. -/
  room : size ≤ C.clusters.length * spc b * sectorSize

variable {C}

theorem cluster_eq {i : ℕ} (h : i < C.clusters.length) : C.cluster i = C.clusters[i] := by
  rw [cluster, List.getD_eq_getElem?_getD, List.getElem?_eq_getElem h, Option.getD_some]

theorem cluster_mem {i : ℕ} (h : i < C.clusters.length) : C.cluster i ∈ C.clusters := by
  rw [cluster_eq h]
  exact List.getElem_mem h

theorem Covers.cluster_zero {first : UInt32} {size : ℕ} (h : C.Covers first size) :
    C.cluster 0 = first := by
  have hfirst := h.first
  rw [List.head?_eq_getElem?] at hfirst
  rw [cluster, List.getD_eq_getElem?_getD, hfirst]
  rfl

theorem Covers.length_pos {first : UInt32} {size : ℕ} (h : C.Covers first size) :
    0 < C.clusters.length := by
  have hfirst := h.first
  rcases hC : C.clusters with - | ⟨c, cs⟩
  · rw [hC] at hfirst
    exact absurd hfirst (by simp)
  · exact Nat.succ_pos _

/-- The links of the chain, and its end mark. -/
theorem fatEntry_cluster {i : ℕ} (h : i + 1 < C.clusters.length) :
    fatEntry (diskFat disk b) (C.cluster i).toNat = C.cluster (i + 1) := by
  rw [cluster_eq h, cluster_eq (by omega)]
  exact C.linked i h

theorem fatEntry_last {i : ℕ} (h : i + 1 = C.clusters.length) :
    fatEntry (diskFat disk b) (C.cluster i).toNat ≥ 0xFFFFFFF8 := by
  refine endMark_of_le (C.ends _ ?_)
  have hi : C.clusters.length - 1 = i := by omega
  rw [List.getLast?_eq_getElem?, hi, List.getElem?_eq_getElem (by omega), cluster_eq (by omega)]

end ClusterChain

/-! ### A driver over a volume -/

namespace Fat12FileSystem

/-- The driver is mounted on the volume of `disk` with boot sector `b`, whatever the device does. -/
structure Volume (disk : BlockDevice) (b : FatBootSector) (fs : Fat12FileSystem) : Prop where
  /-- The boot sector in memory. -/
  bs : fs.bs = b
  /-- The contents of the device. -/
  sector : fs.disk.sector = disk.sector
  /-- Where the driver thinks the data section starts. -/
  dataSectionLba : fs.dataSectionLba = rootDirLba b + rootDirSectors b

/-- The driver is mounted on the volume of `disk` with boot sector `b`, and reads succeed. -/
structure Serves (disk : BlockDevice) (b : FatBootSector) (fs : Fat12FileSystem) : Prop where
  /-- The boot sector in memory. -/
  bs : fs.bs = b
  /-- The contents of the device. -/
  sector : fs.disk.sector = disk.sector
  /-- The device is faultless. -/
  reads : fs.disk.AllReadsSucceed
  /-- Where the driver thinks the data section starts. -/
  dataSectionLba : fs.dataSectionLba = rootDirLba b + rootDirSectors b
  /-- The FAT window is in step with the disk. -/
  cacheValid : fs.CacheValid

theorem Mounted.volume {disk : BlockDevice} {fs : Fat12FileSystem} (h : Mounted disk fs) :
    Volume disk fs.bs fs :=
  ⟨rfl, h.sector, h.dataSectionLba⟩

theorem Mounted.serves {disk : BlockDevice} {fs : Fat12FileSystem} (hd : disk.AllReadsSucceed)
    (h : Mounted disk fs) : Serves disk fs.bs fs :=
  ⟨rfl, h.sector, h.allReadsSucceed hd, h.dataSectionLba, h.cacheValid⟩

variable {disk : BlockDevice} {b : FatBootSector} {fs fs' : Fat12FileSystem} {refs : Set FileRef}

theorem Serves.volume (h : Serves disk b fs) : Volume disk b fs :=
  ⟨h.bs, h.sector, h.dataSectionLba⟩

theorem Volume.of_frame (h : Volume disk b fs) (hf : Frame refs fs fs') : Volume disk b fs' where
  bs := hf.bs.trans h.bs
  sector := hf.sector.trans h.sector
  dataSectionLba := hf.dataSectionLba.trans h.dataSectionLba

theorem Serves.of_frame (h : Serves disk b fs) (hf : Frame refs fs fs') : Serves disk b fs' where
  bs := hf.bs.trans h.bs
  sector := hf.sector.trans h.sector
  reads := hf.allReadsSucceed h.reads
  dataSectionLba := hf.dataSectionLba.trans h.dataSectionLba
  cacheValid := hf.cacheValid h.reads h.cacheValid

theorem Volume.fatByte (h : Volume disk b fs) : fs.fatByte = diskFat disk b := by
  funext k
  rw [Fat12FileSystem.fatByte, diskFat, h.sector, h.bs]

theorem Serves.fatByte (h : Serves disk b fs) : fs.fatByte = diskFat disk b := h.volume.fatByte

theorem Volume.toNat_sectorsPerCluster (h : Volume disk b fs) :
    fs.bs.sectorsPerCluster.toUInt32.toNat = spc b := by
  rw [UInt8.toNat_toUInt32, h.bs, spc]

theorem Serves.toNat_sectorsPerCluster (h : Serves disk b fs) :
    fs.bs.sectorsPerCluster.toUInt32.toNat = spc b := h.volume.toNat_sectorsPerCluster

theorem spc_lt (b : FatBootSector) : spc b < 256 := b.sectorsPerCluster.toNat_lt

/-- The size of a cluster, in bytes, as `seek` counts it. -/
theorem toNat_clusterSize (b : FatBootSector) :
    (b.sectorsPerCluster.toUInt32 * 512).toNat = spc b * sectorSize := by
  have hlt := spc_lt b
  rw [UInt32.toNat_mul, UInt8.toNat_toUInt32, ← spc]
  simp only [UInt32.reduceToNat, sectorSize]
  omega

/-- A sector of a data cluster is requested where the layout says. -/
theorem Volume.toNat_clusterToLba (h : Volume disk b fs) (ha : detectAccepts b = true)
    {c s : UInt32} (hc : 2 ≤ c.toNat ∧ c.toNat ≤ 0xFF7) (hs : s.toNat < spc b) :
    (fs.clusterToLba c + s).toNat = dataStart b + (c.toNat - 2) * spc b + s.toNat := by
  have htwo : (2 : UInt32) ≤ c := UInt32.le_iff_toNat_le.2 hc.1
  have hstart := dataStart_lt b
  have hspc := spc_lt b
  have hmul : (c.toNat - 2) * spc b ≤ 0xFF7 * 256 := Nat.mul_le_mul (by omega) (by omega)
  rw [clusterToLba, h.dataSectionLba, UInt32.toNat_add, UInt32.toNat_add, UInt32.toNat_mul,
    UInt32.toNat_sub_of_le _ _ htwo, h.toNat_sectorsPerCluster, toNat_dataSectionLba ha]
  simp only [UInt32.reduceToNat]
  omega

end Fat12FileSystem

end Aidos.Fat12
