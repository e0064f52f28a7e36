import Aidos.Memory.Kmalloc
import Aidos.Fat12.RootDirectory
import Aidos.Fat12.History
import Aidos.Fat12.FatFaults
import Aidos.Fat12.ReadFaults
import Aidos.Fat12.Geometry
import Aidos.Fat12.Termination
import Aidos.Fat12.DataRequests
import Aidos.Paging.KernelMapping
import Aidos.Paging.MixedPages
import Aidos.Paging.HigherHalf
import Aidos.Paging.OldTables
import Aidos.Paging.TlbCoherence
import Aidos.Paging.AllocationFailure
import Aidos.Loader.LinearOffset
import Aidos.Loader.Handoff
import Aidos.Fat12.HandleTable
import Aidos.Stage1.SectorRequests
import Aidos.Console.TextView
import Aidos.Paging.VirtToPhys
import Aidos.Paging.KernelLargePages
import Aidos.Paging.ParseRsdp
import Aidos.Paging.KernelMain
import Aidos.Loader.Fat12File
import Aidos.Fat12.SeekAtomicity
import Aidos.Fat12.ShortNames
import Aidos.Fat12.PathResolution
import Aidos.Fat12.Subdirectories
import Aidos.Loader.SegmentMapping
import Aidos.Loader.MalformedImages
import Aidos.Fat12.PathSafety
import Aidos.Fat12.Positions
import Aidos.Disk.AtaReads
import Aidos.Disk.AtaBlocks
import Aidos.Console.Attributes
import Aidos.Stage2.Rsdp
import Aidos.Stage2.MemoryMap
import Aidos.Stage2.StartupErrors
import Aidos.Scripts.InstallStage2Info
import Aidos.Fat12.Detection
import Aidos.Console.Printf
import Aidos.Stage1.LbaToChs
