import Kraftwerk.Lib.Runs
import Kraftwerk.Lib.Cover
import Kraftwerk.Lib.Dyadic
import Kraftwerk.Lib.DownStack
import Kraftwerk.Lib.CString
import Kraftwerk.Lib.WordBits
import Kraftwerk.Lib.Chain
import Kraftwerk.Lib.Loops
import Kraftwerk.Lib.Buffer
import Kraftwerk.Lib.Storage
import Kraftwerk.Lib.Holders
import Kraftwerk.Lib.Simulation
import Kraftwerk.Lib.FlatMemory
import Kraftwerk.Lib.LittleEndian
import Kraftwerk.Pmem.FreeLists
import Kraftwerk.Pmem.Blocks
import Kraftwerk.Pmem.Allocate
import Kraftwerk.Pmem.AddFreeList
import Kraftwerk.Pmem.BuddyRuns
import Kraftwerk.Pmem.Coalescing
import Kraftwerk.Pmem.Initialize
import Kraftwerk.Boot.MemoryMap
import Kraftwerk.Boot.MapPasses
import Kraftwerk.Boot.KernelFrames
import Kraftwerk.Pmem.BootRanges
import Kraftwerk.Pmem.Checked
import Kraftwerk.Pmem.AllocateExact
import Kraftwerk.Pmem.Reserve
import Kraftwerk.Pmem.ReserveExact
import Kraftwerk.Pmem.DecomposeBlock
import Kraftwerk.Pmem.Indexing
import Kraftwerk.Pmem.OwnershipRuns
import Kraftwerk.Pmem.FrameSupply
import Kraftwerk.Paging.Walk
import Kraftwerk.Paging.Window
import Kraftwerk.Paging.RecursiveSlot
import Kraftwerk.Paging.Tables
import Kraftwerk.Paging.PageManip
import Kraftwerk.Paging.WindowAccess
import Kraftwerk.Paging.EntryBits
import Kraftwerk.Paging.EntryPacking
import Kraftwerk.Paging.MapRange
import Kraftwerk.Paging.UnmapRange
import Kraftwerk.Paging.EntryLaws
import Kraftwerk.Paging.CreateTables
import Kraftwerk.Paging.DemandPaging
import Kraftwerk.Paging.PagePlacing
import Kraftwerk.Paging.FramedPager
import Kraftwerk.Paging.AddressSpace
import Kraftwerk.Paging.DemandMemory
import Kraftwerk.Boot.InitTables
import Kraftwerk.Vmem.Regions
import Kraftwerk.Vmem.Tiling
import Kraftwerk.Vmem.RegionRuns
import Kraftwerk.Vmem.Linked
import Kraftwerk.Vmem.BootReservation
import Kraftwerk.Vmem.LinkedRefinement
import Kraftwerk.Vmem.Walks
import Kraftwerk.Vmem.ReserveRange
import Kraftwerk.Vmem.FreeRegion
import Kraftwerk.Vmem.IsAllocatedRegion
import Kraftwerk.Vmem.KernelRegion
import Kraftwerk.Isr.Machine
import Kraftwerk.Isr.Stubs
import Kraftwerk.Isr.Context
import Kraftwerk.Isr.Preservation
import Kraftwerk.Isr.FaultedProgram
import Kraftwerk.Vga.Terminal
import Kraftwerk.Vga.Page
import Kraftwerk.Vga.Refinement
import Kraftwerk.Vga.Bounds
import Kraftwerk.Vga.Writehex
import Kraftwerk.Print.Itoa
import Kraftwerk.Print.Directives
import Kraftwerk.Print.Convert
import Kraftwerk.Print.Kvsnprintf
import Kraftwerk.Print.Truncation
import Kraftwerk.Print.BoundedOutput
import Kraftwerk.Print.MeasureThenPrint
import Kraftwerk.Print.Grammar
import Kraftwerk.Print.FormatScan
import Kraftwerk.Print.NumberText
import Kraftwerk.Print.Amounts
import Kraftwerk.Print.StringCopy
import Kraftwerk.Print.Justify
import Kraftwerk.Print.ItoaBlock
import Kraftwerk.Print.ItoaExact
import Kraftwerk.Print.FormatAppend
import Kraftwerk.Print.Kprintf
import Kraftwerk.Print.Panic
import Kraftwerk.Boot.KernelInit
import Kraftwerk.Boot.KernelRun
import Kraftwerk.Boot.StartCode
import Kraftwerk.Boot.StartEffects
import Kraftwerk.Boot.StartRun
import Kraftwerk.Boot.StartToTest
import Kraftwerk.Isr.TrapReport
import Kraftwerk.Util.Compare
import Kraftwerk.Util.CompareOrder
import Kraftwerk.Util.Copy
import Kraftwerk.StandaloneStd.Vector
import Kraftwerk.StandaloneStd.VectorInsert
import Kraftwerk.StandaloneStd.VectorErase
import Kraftwerk.StandaloneStd.VectorRuns
import Kraftwerk.StandaloneStd.UniquePtr
import Kraftwerk.StandaloneStd.SharedPtr
import Kraftwerk.StandaloneStd.SharedCounts
import Kraftwerk.Malloc.Heap
import Kraftwerk.Malloc.Bitmap
import Kraftwerk.Malloc.Init
import Kraftwerk.Malloc.System
import Kraftwerk.Malloc.Invariant
import Kraftwerk.Malloc.Kfree
import Kraftwerk.Malloc.Kmalloc
import Kraftwerk.Malloc.HeapRuns
import Kraftwerk.Malloc.Accounting
import Kraftwerk.Malloc.Sizes
import Kraftwerk.Malloc.KfreeExact
import Kraftwerk.Malloc.MarkOpenSlot
import Kraftwerk.Malloc.LargeAllocations
import Kraftwerk.Malloc.NewPages
import Kraftwerk.Malloc.Termination
import Kraftwerk.Malloc.EmergencyStore
import Kraftwerk.Malloc.SlotAddresses
import Kraftwerk.Malloc.FreshContents
