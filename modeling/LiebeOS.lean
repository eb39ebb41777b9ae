import LiebeOS.Status
import LiebeOS.Lib.MachineInt
import LiebeOS.Lib.Run
import LiebeOS.Lib.Loop
import LiebeOS.Lib.LinkedQueue
import LiebeOS.Lib.Bytes
import LiebeOS.Lib.Words
import LiebeOS.Lib.Fetch
import LiebeOS.Lib.Attempt
import LiebeOS.Lib.MarkedRing
import LiebeOS.Lib.Pieces
import LiebeOS.Lib.Separated
import LiebeOS.Lib.Slots
import LiebeOS.Disk.Streamer
import LiebeOS.Disk.StreamExact
import LiebeOS.Disk.StreamServed
import LiebeOS.Fs.Fat16
import LiebeOS.Fs.DirectoryScan
import LiebeOS.Fs.ClusterChain
import LiebeOS.Fs.FileRead
import LiebeOS.Fs.ChunkRead
import LiebeOS.Fs.Mount
import LiebeOS.Memory.Heap
import LiebeOS.Memory.HeapSafety
import LiebeOS.Memory.BlockRuns
import LiebeOS.Memory.Paging
import LiebeOS.Loader.Elf
import LiebeOS.Task.Task
import LiebeOS.Task.RunQueue
import LiebeOS.Task.Process
import LiebeOS.Task.Focus
import LiebeOS.Task.RunOrder
import LiebeOS.Task.ProcessTable
import LiebeOS.Task.KeyboardQueue
import LiebeOS.Kernel.Terminal
import LiebeOS.Kernel.Strings
import LiebeOS.Task.ProcessMap
import LiebeOS.Loader.ElfBounds
import LiebeOS.Task.SegmentMap
import LiebeOS.Task.LoadedImage
import LiebeOS.Task.MappedProgram
import LiebeOS.Lib.X86
import LiebeOS.Lib.X86Ports
import LiebeOS.Disk.Ata
import LiebeOS.Disk.BootLoad
import LiebeOS.Fs.FileTable
import LiebeOS.Memory.KernelMemory
import LiebeOS.Memory.Protected
import LiebeOS.Memory.TakenPages
import LiebeOS.Memory.BlockRequest
import LiebeOS.Memory.Allotted
import LiebeOS.Task.ProcessMemory
import LiebeOS.Task.StringFromTask
import LiebeOS.Task.ProcessArguments
import LiebeOS.Task.ProcessLoad
import LiebeOS.Task.ProgramStart
import LiebeOS.Task.LoadKeeps
import LiebeOS.Task.LoadAtomic
import LiebeOS.Task.FlatProgram
import LiebeOS.Fs.PathParser
import LiebeOS.Fs.PathRoundTrip
import LiebeOS.Task.StartProgram
import LiebeOS.Fs.Fat16Open
import LiebeOS.Fs.PathWalk
import LiebeOS.Fs.DirectoryBlock
import LiebeOS.Fs.ShortName
import LiebeOS.Fs.DirectoryLookup
import LiebeOS.Fs.PathLeak
import LiebeOS.Fs.OpenedFile
import LiebeOS.Fs.FileAccess
import LiebeOS.Fs.FilePosition
import LiebeOS.Memory.PageDirectory
import LiebeOS.Memory.PageLifeCycle
import LiebeOS.Memory.Undisturbed
import LiebeOS.Task.ProcessFree
import LiebeOS.Task.AllocationRun
import LiebeOS.Task.ContextSwitch
import LiebeOS.Programs.Strtok
import LiebeOS.Programs.ParseCommand
import LiebeOS.Memory.FirstFit
import LiebeOS.Kernel.Gdt
import LiebeOS.Lib.CharArray
import LiebeOS.Lib.Decimal
import LiebeOS.Programs.Itoa
import LiebeOS.Programs.Printf
import LiebeOS.Programs.Readline
import LiebeOS.Fs.ItemKind
import LiebeOS.Kernel.ClassicKeyboard
import LiebeOS.Kernel.SystemCall
import LiebeOS.Kernel.Interrupt
import LiebeOS.Kernel.TypedKeys
import LiebeOS.Lib.TextScreen
import LiebeOS.Kernel.ScreenText
import LiebeOS.Programs.TypedLine
import LiebeOS.Task.ArgumentsPassed
import LiebeOS.Task.ProgramFromDisk
import LiebeOS.Task.ProcessLife
import LiebeOS.Task.Teardown
import LiebeOS.Task.Isolation
import LiebeOS.Task.ProgramParts
import LiebeOS.Task.ElfProgram
import LiebeOS.Task.SystemRun
import LiebeOS.Task.WriteIsolation
import LiebeOS.Task.KernelWindow
import LiebeOS.Task.ArgumentsAcross
