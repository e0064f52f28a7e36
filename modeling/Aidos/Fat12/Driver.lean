import Aidos.Fat12.Layout

/-!
# The FAT12 driver

`FAT12FileSystem`, function by function: `fat12.cpp` and the detection in `fat_common.cpp`.

A `File*` always points at the `Public` part of the root record or of one of the `OpenedFiles`
slots, so a file reference is a `FileRef`; the record that `read`, `seek` and `close` work on is the
one named by the *handle* stored there (`target`), as in the source. Arrays are functions of their
index, so that nothing about bounds is assumed.

`FatCache` is followed in memory by `FatCachePosition` (`FAT_Data` has no padding between them), so
a read just past the cache sees the bytes of the position; `cacheByte` says so.

## What the model adds

* `trace` records the driver's requests to the device, the cache bytes `NextCluster` looks at and
  the results it returns. The source has no such field, and nothing in the functions reads it.
* `open` hands back, beside the file, the directory entry it was opened from.
* `FindFile` loops until its directory ends, which a damaged disk may prevent; it takes the number
  of entries it may look at, and answers `running` when that is used up.
* Behaviour the language leaves undefined (a null `File*`, a name that does not fit its buffer) is
  the outcome `undefined`.
-/

namespace Aidos.Fat12

/-- `File`. -/
structure File where
  /-- `handle`. -/
  handle : UInt8
  /-- `is_directory`. -/
  isDirectory : Bool
  /-- `size`. -/
  size : UInt32
  /-- `position`. -/
  position : UInt32

/-- `FAT_FileData`: an open file with its one-sector buffer. -/
structure FatFileData where
  /-- `Buffer`. -/
  buffer : ℕ → UInt8
  /-- `Public`. -/
  pub : File
  /-- `Opened`. -/
  opened : Bool
  /-- `FirstCluster`. -/
  firstCluster : UInt32
  /-- `CurrentCluster`. -/
  currentCluster : UInt32
  /-- `CurrentSectorInCluster`. -/
  currentSectorInCluster : UInt32

/-- `FAT_Data`. -/
structure FatData where
  /-- `BS`, the boot sector. -/
  bs : FatBootSector
  /-- `RootDirectory`. -/
  rootDirectory : FatFileData
  /-- `OpenedFiles`. -/
  openedFiles : ℕ → FatFileData
  /-- `FatCache`. -/
  fatCache : ℕ → UInt8
  /-- `FatCachePosition`. -/
  fatCachePosition : UInt32

/-- What the driver did, newest first in a trace. -/
inductive Event where
  /-- One sector was requested for a handle's buffer. -/
  | sectorRead (lba : ℕ)
  /-- A window of the FAT was requested. -/
  | fatRead (lba : ℕ)
  /-- `NextCluster` looked at this byte, counted from the start of `FatCache`. -/
  | cacheByte (index : ℕ)
  /-- `NextCluster(c)` returned `r`. -/
  | successor (c r : UInt32)

/-- `FAT12FileSystem`, with its device. -/
structure Fat12FileSystem where
  /-- `_data`. -/
  data : FatData
  /-- `_dataSectionLba`. -/
  dataSectionLba : UInt32
  /-- `_totalSectors`. -/
  totalSectors : UInt32
  /-- `_sectorsPerFat`. -/
  sectorsPerFat : UInt32
  /-- `disk`. -/
  disk : BlockDevice
  /-- What was done so far. -/
  trace : List Event

/-- A `File*`. -/
inductive FileRef where
  /-- `&_data.RootDirectory.Public`. -/
  | root
  /-- `&_data.OpenedFiles[i].Public`. -/
  | slot (i : ℕ)
  deriving DecidableEq

/-- The record a handle names. -/
def FileRef.ofHandle (h : UInt8) : FileRef :=
  if h = rootDirectoryHandle then .root else .slot h.toNat

namespace Fat12FileSystem

variable (fs : Fat12FileSystem)

/-- `_data.BS.BootSector`. -/
abbrev bs : FatBootSector := fs.data.bs

/-- The record a reference points into. -/
def fileData : FileRef → FatFileData
  | .root => fs.data.rootDirectory
  | .slot i => fs.data.openedFiles i

/-- Overwrite the record a reference points into. -/
def setFileData : FileRef → FatFileData → Fat12FileSystem
  | .root, fd => { fs with data := { fs.data with rootDirectory := fd } }
  | .slot i, fd =>
    { fs with data := { fs.data with
        openedFiles := fun j ↦ if j = i then fd else fs.data.openedFiles j } }

/-- `fd`: the record named by the handle stored behind the pointer. -/
def target (file : FileRef) : FileRef := .ofHandle (fs.fileData file).pub.handle

/-! ### The FAT -/

/-- `ReadFat(lbaIndex)`. -/
def readFat (lbaIndex : UInt32) : Bool × Fat12FileSystem :=
  let lba := (fs.bs.reservedSectorCount.toUInt32 + lbaIndex).toNat
  let (ok, cache, disk) := fs.disk.readSectors lba fatCacheSize fs.data.fatCache
  (ok, { fs with
    data := { fs.data with fatCache := cache }
    disk := disk
    trace := .fatRead lba :: fs.trace })

/-- The byte at offset `i` from the start of `FatCache`: past the array come the bytes of
`FatCachePosition`. -/
def cacheByte (i : ℕ) : UInt8 :=
  if i < fatCacheSize * sectorSize then fs.data.fatCache i
  else UInt8.ofNat (fs.data.fatCachePosition.toNat / 256 ^ (i - fatCacheSize * sectorSize))

/-- The head of `NextCluster`: make sure the cache has the right window. The result of `ReadFat` is
not looked at. -/
def ensureWindow (fatIndexSector : UInt32) : Fat12FileSystem :=
  if fatIndexSector < fs.data.fatCachePosition ∨
      fatIndexSector ≥ fs.data.fatCachePosition + 5 then
    let fs := (fs.readFat fatIndexSector).2
    { fs with data := { fs.data with fatCachePosition := fatIndexSector } }
  else fs

/-- `NextCluster(currentCluster)`. -/
def nextCluster (currentCluster : UInt32) : UInt32 × Fat12FileSystem :=
  let fatIndex := currentCluster * 3 / 2
  let fs := fs.ensureWindow (fatIndex / 512)
  let i := (fatIndex - fs.data.fatCachePosition * 512).toNat
  let word := UInt32.ofNat ((fs.cacheByte i).toNat + 256 * (fs.cacheByte (i + 1)).toNat)
  let next := if currentCluster % 2 = 0 then word &&& 0x0FFF else word >>> 4
  let next := if next ≥ 0xFF8 then next ||| 0xFFFFF000 else next
  (next, { fs with
    trace := .successor currentCluster next :: .cacheByte (i + 1) :: .cacheByte i :: fs.trace })

/-! ### Reading and positioning -/

/-- `clusterToLba(cluster)`. -/
def clusterToLba (cluster : UInt32) : UInt32 :=
  fs.dataSectionLba + (cluster - 2) * fs.bs.sectorsPerCluster.toUInt32

/-- Request one sector into the buffer of a record. -/
def readSector (ref : FileRef) (lba : UInt32) : Bool × Fat12FileSystem :=
  let fd := fs.fileData ref
  let (ok, buffer, disk) := fs.disk.readSectors lba.toNat 1 fd.buffer
  (ok, { fs.setFileData ref { fd with buffer := buffer } with
    disk := disk
    trace := .sectorRead lba.toNat :: fs.trace })

/-- The end of an iteration of `read` that has used up the buffer: step to the next sector of the
cluster or to the next cluster, mark the end of the file, or fetch the sector. `false` is `break`.
-/
def advance (ref : FileRef) : Bool × Fat12FileSystem :=
  let fd := fs.fileData ref
  let sector := fd.currentSectorInCluster + 1
  let fs :=
    if sector ≥ fs.bs.sectorsPerCluster.toUInt32 then
      let (next, fs) := fs.nextCluster fd.currentCluster
      fs.setFileData ref { fd with currentSectorInCluster := 0, currentCluster := next }
    else fs.setFileData ref { fd with currentSectorInCluster := sector }
  let fd := fs.fileData ref
  if fd.currentCluster ≥ 0xFFFFFFF8 then
    -- mark end of file
    (false, fs.setFileData ref { fd with pub := { fd.pub with size := fd.pub.position } })
  else
    fs.readSector ref (fs.clusterToLba fd.currentCluster + fd.currentSectorInCluster)

/-- The loop of `read`, with what has been delivered so far. Each iteration delivers at least one
byte, so `byteCount` iterations are enough. -/
def readLoop (ref : FileRef) :
    ℕ → UInt32 → List UInt8 → Fat12FileSystem → List UInt8 × Fat12FileSystem
  | 0, _, out, fs => (out, fs)
  | fuel + 1, byteCount, out, fs =>
    if byteCount > 0 then
      let fd := fs.fileData ref
      let leftInBuffer := 512 - fd.pub.position % 512
      let take := min byteCount leftInBuffer
      let out := out ++ slice fd.buffer (fd.pub.position % 512).toNat take.toNat
      let fs := fs.setFileData ref
        { fd with pub := { fd.pub with position := fd.pub.position + take } }
      if leftInBuffer = take then
        match fs.advance ref with
        | (true, fs) => readLoop ref fuel (byteCount - take) out fs
        | (false, fs) => (out, fs)
      else readLoop ref fuel (byteCount - take) out fs
    else (out, fs)

/-- `read(file, byteCount, dataOut)`: the bytes delivered. -/
def read (file : FileRef) (byteCount : UInt32) : List UInt8 × Fat12FileSystem :=
  let ref := fs.target file
  let fd := fs.fileData ref
  if fd.opened then
    -- don't read past the end of the file
    let byteCount :=
      if !fd.pub.isDirectory || fd.pub.isDirectory && fd.pub.size != 0 then
        min byteCount (fd.pub.size - fd.pub.position)
      else byteCount
    readLoop ref byteCount.toNat byteCount [] fs
  else ([], fs)

/-- The cluster walk of `seek`: the cluster and the offset inside it, or nothing when the chain ends
first. The offset shrinks with every step, so `offset` steps are enough. -/
def seekLoop (clusterSize : UInt32) :
    ℕ → UInt32 → UInt32 → Fat12FileSystem → Option (UInt32 × UInt32) × Fat12FileSystem
  | 0, cluster, offset, fs => (some (cluster, offset), fs)
  | fuel + 1, cluster, offset, fs =>
    if offset ≥ clusterSize then
      let (cluster, fs) := fs.nextCluster cluster
      if cluster ≥ 0xFFFFFFF8 then (none, fs)
      else seekLoop clusterSize fuel cluster (offset - clusterSize) fs
    else (some (cluster, offset), fs)

/-- `seek(file, position)`. -/
def seek (file : FileRef) (position : UInt32) : Bool × Fat12FileSystem :=
  let f := (fs.fileData file).pub
  -- validate bounds
  if !f.isDirectory && position > f.size then (false, fs)
  else
    let ref := fs.target file
    let fd := fs.fileData ref
    if fd.opened then
      let fs := fs.setFileData ref { fd with pub := { fd.pub with position := position } }
      let clusterSize := fs.bs.sectorsPerCluster.toUInt32 * 512
      match seekLoop clusterSize position.toNat fd.firstCluster position fs with
      | (none, fs) => (false, fs)
      | (some (cluster, offset), fs) =>
        let fd := fs.fileData ref
        let fs := fs.setFileData ref
          { fd with currentCluster := cluster, currentSectorInCluster := offset / 512 }
        fs.readSector ref (fs.clusterToLba cluster + offset / 512)
    else (false, fs)

/-- `close(file)`. -/
def close (file : FileRef) : Fat12FileSystem :=
  match fs.target file with
  | .root =>
    let f := fs.fileData file
    let fs := fs.setFileData file { f with pub := { f.pub with position := 0 } }
    let fd := fs.data.rootDirectory
    fs.setFileData .root { fd with currentCluster := fd.firstCluster }
  | .slot i => fs.setFileData (.slot i) { fs.data.openedFiles i with opened := false }

/-! ### Directories -/

/-- `ReadEntry(file, dirEntry)`: the next entry, unless the directory ends or the entry is the
terminator. -/
def readEntry (file : FileRef) : Option FatDirectoryEntry × Fat12FileSystem :=
  let (bytes, fs) := fs.read file 32
  let entry : FatDirectoryEntry := ⟨bytes⟩
  (if bytes.length = entrySize ∧ entry.name 0 ≠ 0 then some entry else none, fs)

end Fat12FileSystem

/-- `strchr(str, c)`, as an index. -/
def strchr (str : List UInt8) (c : UInt8) : Option ℕ := str.findIdx? (· == c)

/-- `toupper(c)`. -/
def toupper (c : UInt8) : UInt8 := if 97 ≤ c ∧ c ≤ 122 then c - 32 else c

/-- `fatName`, the 8.3 form of a name: the base in the first eight places, the extension in the last
three, padded with blanks. A dot at index eleven is taken for no dot at all (`ext == name + 11`). -/
def fatName (name : List UInt8) (j : ℕ) : UInt8 :=
  let ext := (strchr name 46).getD 11
  if j < 8 then
    if j < name.length ∧ j < ext then toupper (name.getD j 0) else 32
  else if ext ≠ 11 ∧ ext + 1 + (j - 8) < name.length then toupper (name.getD (ext + 1 + (j - 8)) 0)
  else 32

/-- `memcmp(fatName, entry.Name, 11) == 0`. -/
def nameMatches (name : List UInt8) (e : FatDirectoryEntry) : Bool :=
  (List.range 11).all fun j ↦ fatName name j == e.name j

/-- How a directory scan ends. -/
inductive Search where
  /-- It has not ended yet. -/
  | running
  /-- The directory has no such entry. -/
  | notFound
  /-- The entry found. -/
  | found (entry : FatDirectoryEntry)
  deriving DecidableEq

/-- How `open` ends. -/
inductive Opened where
  /-- It has not ended yet. -/
  | running
  /-- The behaviour is undefined. -/
  | undefined
  /-- `NULL`. -/
  | null
  /-- A file, and the entry it was opened from (none for the root). -/
  | file (ref : FileRef) (entry : Option FatDirectoryEntry)
  deriving DecidableEq

namespace Fat12FileSystem

variable (fs : Fat12FileSystem)

/-- The scan of `FindFile`, over at most `fuel` entries. -/
def findFileLoop (current : FileRef) (name : List UInt8) :
    ℕ → Fat12FileSystem → Search × Fat12FileSystem
  | 0, fs => (.running, fs)
  | fuel + 1, fs =>
    match fs.readEntry current with
    | (none, fs) => (.notFound, fs)
    | (some e, fs) =>
      if nameMatches name e then (.found e, fs) else findFileLoop current name fuel fs

/-- `FindFile(current, name, entryOut)`. -/
def findFile (fuel : ℕ) (current : FileRef) (name : List UInt8) : Search × Fat12FileSystem :=
  findFileLoop current name fuel fs

/-- The first slot that is not open. -/
def freeHandle : Option ℕ :=
  (List.range maxFileHandles).find? fun i ↦ !(fs.data.openedFiles i).opened

/-- `OpenEntry(entry)`. The slot is filled in before its cluster is checked. -/
def openEntry (entry : FatDirectoryEntry) : Option FileRef × Fat12FileSystem :=
  match fs.freeHandle with
  | none => (none, fs)
  | some handle =>
    let first := entry.firstClusterLow.toUInt32 + (entry.firstClusterHigh.toUInt32 <<< 16)
    let fs := fs.setFileData (.slot handle)
      { fs.data.openedFiles handle with
        pub :=
          { handle := UInt8.ofNat handle
            isDirectory := entry.isDirectory
            position := 0
            size := entry.size }
        firstCluster := first
        currentCluster := first
        currentSectorInCluster := 0 }
    if first < 2 ∨ first ≥ 0xFF8 then (none, fs)
    else
      match fs.readSector (.slot handle) (fs.clusterToLba first) with
      | (false, fs) => (none, fs)
      | (true, fs) =>
        (some (.slot handle),
          fs.setFileData (.slot handle) { fs.data.openedFiles handle with opened := true })

/-- The next file name of a path, what is behind it, and whether it is the last one. -/
def nextName (path : List UInt8) : List UInt8 × List UInt8 × Bool :=
  match strchr path 47 with
  | some delim => (path.take delim, path.drop (delim + 1), false)
  | none => (path, [], true)

/-- The loop of `open` over what is left of the path. Each iteration consumes at least one
character, so `path.length` iterations are enough. -/
def openLoop (fuel : ℕ) : ℕ → Option FileRef → Option FatDirectoryEntry → List UInt8 →
    Fat12FileSystem → Opened × Fat12FileSystem
  | _, current, entry, [], fs =>
    match current with
    | none => (.null, fs)
    | some file => (.file file entry, fs)
  | 0, _, _, _ :: _, fs => (.running, fs)
  | n + 1, current, _, c :: path, fs =>
    -- extract next file name from path
    let (name, rest, isLast) := nextName (c :: path)
    if maxPathSize ≤ name.length then (.undefined, fs)
    else
      match current with
      | none => (.undefined, fs)
      | some file =>
        match fs.findFile fuel file name with
        | (.running, fs) => (.running, fs)
        | (.notFound, fs) => (.null, fs.close file)
        | (.found e, fs) =>
          let fs := fs.close file
          -- check if directory
          if !isLast && !e.isDirectory then (.null, fs)
          else
            let (current, fs) := fs.openEntry e
            openLoop fuel n current (some e) rest fs

/-- `open(path)`, each directory scan looking at no more than `fuel` entries. -/
def openPath (fuel : ℕ) (path : List UInt8) : Opened × Fat12FileSystem :=
  let path := if path.head? = some 47 then path.tail else path
  openLoop fuel path.length (some .root) none path fs

/-! ### Mounting -/

/-- The first sector of the root directory. -/
def rootDirLba (b : FatBootSector) : UInt32 :=
  b.reservedSectorCount.toUInt32 + b.fatSize16.toUInt32 * b.numFats.toUInt32

/-- `rootDirSize`, in bytes. -/
def rootDirSize (b : FatBootSector) : UInt32 := 32 * b.rootEntryCount.toUInt32

/-- `rootDirSectors`. -/
def rootDirSectors (b : FatBootSector) : UInt32 :=
  (rootDirSize b + b.bytesPerSector.toUInt32 - 1) / b.bytesPerSector.toUInt32

/-- `initialize()`. -/
def initializeFs : Bool × Fat12FileSystem :=
  match fs.disk.readSectors 0 1 fs.data.bs.bytes with
  | (false, bytes, disk) =>
    (false, { fs with data := { fs.data with bs := ⟨bytes⟩ }, disk := disk })
  | (true, bytes, disk) =>
    let b : FatBootSector := ⟨bytes⟩
    let fs := { fs with
      data := { fs.data with bs := b, fatCachePosition := 0xFFFFFFFF }
      totalSectors := b.totalSectors16.toUInt32
      disk := disk }
    if b.totalSectors16 = 0 then (false, fs)
    else if b.fatSize16 = 0 then (false, fs)
    else
      let fs := { fs with
        sectorsPerFat := b.fatSize16.toUInt32
        dataSectionLba := rootDirLba b + rootDirSectors b }
      let fs := fs.setFileData .root
        { fs.data.rootDirectory with
          pub :=
            { handle := rootDirectoryHandle
              isDirectory := true
              position := 0
              size := rootDirSize b }
          opened := true
          firstCluster := rootDirLba b
          currentCluster := rootDirLba b
          currentSectorInCluster := 0 }
      match fs.readSector .root (rootDirLba b) with
      | (false, fs) => (false, fs)
      | (true, fs) =>
        (true, { fs with data := { fs.data with
          openedFiles := fun i ↦
            if i < maxFileHandles then { fs.data.openedFiles i with opened := false }
            else fs.data.openedFiles i } })

end Fat12FileSystem

/-- The checks of `FAT12FileSystem::detect` on sector zero. -/
def detectAccepts (b : FatBootSector) : Bool :=
  let bps := b.bytesPerSector
  let spc := b.sectorsPerCluster
  let totSec := if b.totalSectors16 = 0 then b.totalSectors32 else b.totalSectors16.toUInt32
  let fatSz := b.fatSize16.toUInt32
  let rootDirSec :=
    (b.rootEntryCount.toUInt32 * 32 + (bps.toUInt32 - 1)) / bps.toUInt32
  let dataSec := totSec - (b.reservedSectorCount.toUInt32 + b.numFats.toUInt32 * fatSz + rootDirSec)
  let clusters := dataSec / spc.toUInt32
  b.bytes 510 == 0x55 && b.bytes 511 == 0xAA &&
    bps != 0 && bps &&& (bps - 1) == 0 && spc != 0 && spc &&& (spc - 1) == 0 &&
    fatSz != 0 && clusters < 4085

/-- `detectAndMount(disk)`, with FAT12 as the only detector. `fresh` is the uninitialised memory of
the new driver object. -/
def detectAndMount (disk : BlockDevice) (fresh : FatData) : Option Fat12FileSystem :=
  match disk.readSectors 0 1 fresh.bs.bytes with
  | (false, _, _) => none
  | (true, sector, disk) =>
    if detectAccepts ⟨sector⟩ then
      match ({ data := fresh, dataSectionLba := 0, totalSectors := 0, sectorsPerFat := 0,
               disk := disk, trace := [] } : Fat12FileSystem).initializeFs with
      | (true, fs) => some fs
      | (false, _) => none
    else none

end Aidos.Fat12
