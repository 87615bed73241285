import TimbOS.ForStd.Memory
import TimbOS.ForStd.Linked
import TimbOS.Native.Mmdef
import TimbOS.Native.KHeap
import TimbOS.Spec.KHeapLayout
import TimbOS.ForStd.List
import TimbOS.ForStd.Transition
import TimbOS.Native.Fat12
import TimbOS.Native.Floppy
import TimbOS.Native.Multiboot
import TimbOS.Native.Physical
import TimbOS.Native.Scheduler
import TimbOS.Spec.DirTree
import TimbOS.Spec.DiskCacheHits
import TimbOS.Spec.DiskCacheLocks
import TimbOS.Spec.Fat12Chain
import TimbOS.Spec.Fat12Enum
import TimbOS.Spec.Fat12Reads
import TimbOS.Spec.ConsoleLayout
import TimbOS.Spec.Fat12Regions
import TimbOS.Spec.FloppyCache
import TimbOS.Spec.FloppyDma
import TimbOS.Spec.FloppyMotor
import TimbOS.Spec.FormatPieces
import TimbOS.Spec.KHeapAbstract
import TimbOS.Spec.KHeapAlloc
import TimbOS.Spec.KHeapFree
import TimbOS.Spec.KHeapRuns
import TimbOS.Spec.KHeapSafety
import TimbOS.Spec.LinearMapping
import TimbOS.Spec.PageFault
import TimbOS.Spec.PhysicalAlloc
import TimbOS.Spec.PhysicalInit
import TimbOS.Spec.PhysicalBoot
import TimbOS.Spec.PhysicalMap
import TimbOS.Spec.PhysicalPage
import TimbOS.Spec.SchedulerRing
import TimbOS.Spec.IrqAcknowledge
import TimbOS.Spec.Interlocked64
import TimbOS.Spec.TaskFrame
import TimbOS.Spec.PageLifeCycles
import TimbOS.Spec.SpinLock
import TimbOS.Spec.Fat12Walk
import TimbOS.Spec.MmapWalk
import TimbOS.Spec.MemoryEnd
import TimbOS.Spec.PhysicalRange
import TimbOS.Spec.PhysicalAligned
import TimbOS.Spec.PhysicalFind
import TimbOS.Spec.MapPage
import TimbOS.Native.KlibcString
import TimbOS.Native.DevManager
import TimbOS.Native.Keyboard
import TimbOS.Native.Fat12Name
import TimbOS.Spec.Memmove
import TimbOS.Spec.Strncmp
import TimbOS.Spec.Fat12Lookups
import TimbOS.Spec.FloppyRelease
import TimbOS.Spec.DeviceLookup
import TimbOS.Spec.FloppyRange
import TimbOS.Spec.DiskCacheSizes
import TimbOS.Spec.ShiftKeys
import TimbOS.Spec.Fat12Names
import TimbOS.Spec.KHeapDoubleFree
import TimbOS.ForStd.Numeral
import TimbOS.Spec.Strcmp
import TimbOS.Spec.FormatNumbers
import TimbOS.Spec.LinearAlloc
import TimbOS.Native.Memdump
import TimbOS.Spec.Memdump
import TimbOS.Native.KernelTable
import TimbOS.Spec.KernelTable
import TimbOS.ForStd.I386
import TimbOS.ForStd.TimeSharing
import TimbOS.Native.Gdt
import TimbOS.Native.Idt
import TimbOS.Native.InterruptStubs
import TimbOS.Native.System
import TimbOS.Spec.Descriptors
import TimbOS.Spec.InterruptFrame
import TimbOS.Spec.Interrupts
import TimbOS.Spec.Exceptions
import TimbOS.Spec.VirtualProcessors
import TimbOS.Native.KernelMemory
import TimbOS.Spec.PageAccounts
import TimbOS.Spec.KernelMemory
