import OwnKernel.Disk.Stream
import OwnKernel.Elf.Bounds
import OwnKernel.Elf.Reads
import OwnKernel.Fat16.Clusters
import OwnKernel.Fat16.Directory
import OwnKernel.Fat16.Divide
import OwnKernel.Fat16.Find
import OwnKernel.Fat16.Layout
import OwnKernel.Fat16.Load
import OwnKernel.Fat16.Markers
import OwnKernel.Fat16.Names
import OwnKernel.Fat16.Pieces
import OwnKernel.Fat16.Read
import OwnKernel.Fat16.Resolve
import OwnKernel.Fat16.SameName
import OwnKernel.Fat16.Walk
import OwnKernel.File.Close
import OwnKernel.File.Cursor
import OwnKernel.File.Delivered
import OwnKernel.File.Leak
import OwnKernel.File.Objects
import OwnKernel.File.Open
import OwnKernel.File.Owned
import OwnKernel.File.PastEnd
import OwnKernel.File.PathParser
import OwnKernel.File.Seek
import OwnKernel.File.Table
import OwnKernel.Gdt.Encode
import OwnKernel.Heap.Blocks
import OwnKernel.Heap.Calls
import OwnKernel.Heap.Create
import OwnKernel.Heap.Runs
import OwnKernel.Heap.Serving
import OwnKernel.Heap.Undo
import OwnKernel.Kernel.Objects
import OwnKernel.Keyboard.Overflow
import OwnKernel.Keyboard.Queue
import OwnKernel.Lib.Align
import OwnKernel.Lib.ByteMemory
import OwnKernel.Lib.Fallible
import OwnKernel.Lib.Interleaving
import OwnKernel.Lib.LinkedList
import OwnKernel.Lib.Logged
import OwnKernel.Lib.Overlay
import OwnKernel.Lib.Pieces
import OwnKernel.Lib.RingBuffer
import OwnKernel.Lib.Rotation
import OwnKernel.Lib.Running
import OwnKernel.Lib.Scan
import OwnKernel.Lib.Words
import OwnKernel.Lib.X86
import OwnKernel.Model.Arguments
import OwnKernel.Model.Commands
import OwnKernel.Model.Config
import OwnKernel.Model.CopyString
import OwnKernel.Model.Cstring
import OwnKernel.Model.Disk
import OwnKernel.Model.ElfLoader
import OwnKernel.Model.Fat16
import OwnKernel.Model.Fat16Files
import OwnKernel.Model.Fat16Resolve
import OwnKernel.Model.File
import OwnKernel.Model.FileState
import OwnKernel.Model.Gdt
import OwnKernel.Model.Heap
import OwnKernel.Model.Interrupts
import OwnKernel.Model.Kernel
import OwnKernel.Model.KernelMain
import OwnKernel.Model.Keyboard
import OwnKernel.Model.Os
import OwnKernel.Model.Paging
import OwnKernel.Model.PathParser
import OwnKernel.Model.Process
import OwnKernel.Model.Stdlib
import OwnKernel.Model.Store
import OwnKernel.Model.Syscall
import OwnKernel.Model.Task
import OwnKernel.Model.TaskReturn
import OwnKernel.Model.Terminal
import OwnKernel.Model.UserString
import OwnKernel.Paging.Chunk
import OwnKernel.Paging.Entries
import OwnKernel.Paging.Free
import OwnKernel.Paging.Ranges
import OwnKernel.Paging.Refinement
import OwnKernel.Paging.Restore
import OwnKernel.Process.Allocations
import OwnKernel.Process.ArgumentWalk
import OwnKernel.Process.Arguments
import OwnKernel.Process.Balance
import OwnKernel.Process.CommandPath
import OwnKernel.Process.Headers
import OwnKernel.Process.Held
import OwnKernel.Process.Injected
import OwnKernel.Process.Invoke
import OwnKernel.Process.KernelPages
import OwnKernel.Process.Load
import OwnKernel.Process.Loading
import OwnKernel.Process.Mapping
import OwnKernel.Process.Placement
import OwnKernel.Process.Program
import OwnKernel.Process.Release
import OwnKernel.Process.Requests
import OwnKernel.Process.Segments
import OwnKernel.Process.Terminate
import OwnKernel.Store.Confined
import OwnKernel.Store.Granted
import OwnKernel.Store.Owned
import OwnKernel.Store.Past
import OwnKernel.Store.Room
import OwnKernel.Store.Strncpy
import OwnKernel.Store.Taken
import OwnKernel.Strings.Compare
import OwnKernel.Strings.Length
import OwnKernel.System.Access
import OwnKernel.System.Arguments
import OwnKernel.System.Boot
import OwnKernel.System.Calls
import OwnKernel.System.Ends
import OwnKernel.System.Granted
import OwnKernel.System.Handlers
import OwnKernel.System.Holdings
import OwnKernel.System.Isolation
import OwnKernel.System.Loads
import OwnKernel.System.MemoryCalls
import OwnKernel.System.Os
import OwnKernel.System.Pages
import OwnKernel.System.Preempted
import OwnKernel.System.Programs
import OwnKernel.System.Runs
import OwnKernel.System.Sharing
import OwnKernel.System.Spared
import OwnKernel.System.Steps
import OwnKernel.Task.CopyString
import OwnKernel.Task.Lifecycle
import OwnKernel.Task.List
import OwnKernel.Task.Owned
import OwnKernel.Task.RoundRobin
import OwnKernel.Task.Switch
import OwnKernel.Task.Syscall
import OwnKernel.Terminal.Backspace
import OwnKernel.Terminal.Bounds
import OwnKernel.User.Itoa
import OwnKernel.User.ParseCommand
import OwnKernel.User.Printf
import OwnKernel.User.Readline
import OwnKernel.User.Strtok
