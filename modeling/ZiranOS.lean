import ZiranOS.Lib.Exec
import ZiranOS.Lib.Run
import ZiranOS.Lib.Traced
import ZiranOS.Lib.Compare
import ZiranOS.Lib.Text
import ZiranOS.Lib.Window
import ZiranOS.Lib.Words
import ZiranOS.Lib.FirstFit
import ZiranOS.Lib.Linked
import ZiranOS.Lib.Bitmap
import ZiranOS.Lib.Lanes
import ZiranOS.Lib.Cpu
import ZiranOS.Lib.TwoRuns
import ZiranOS.Lib.Field
import ZiranOS.Lib.Walk
import ZiranOS.Lib.Limiter
import ZiranOS.Lib.Deque
import ZiranOS.Lib.Stream
import ZiranOS.Lib.Store
import ZiranOS.Lib.Follows
import ZiranOS.Fs.Reader
import ZiranOS.Fs.Tree
import ZiranOS.Fs.Validate
import ZiranOS.Fs.BootImage
import ZiranOS.Fs.Trace
import ZiranOS.Fs.Compare
import ZiranOS.Fs.Lookup
import ZiranOS.Fs.Listing
import ZiranOS.Fs.Confinement
import ZiranOS.Fs.Flat
import ZiranOS.Fs.Craft
import ZiranOS.Fs.Preset
import ZiranOS.Fs.Sharing
import ZiranOS.Boot.Multiboot
import ZiranOS.Boot.Bounds
import ZiranOS.Boot.Encode
import ZiranOS.Boot.FwCfg
import ZiranOS.Boot.Start
import ZiranOS.Boot.EarlyTables
import ZiranOS.Frames.Allocator
import ZiranOS.Frames.Refinement
import ZiranOS.Frames.Reserved
import ZiranOS.Frames.Answers
import ZiranOS.Frames.SelfTest
import ZiranOS.Paging.Tables
import ZiranOS.Paging.Tree
import ZiranOS.Paging.Grow
import ZiranOS.Paging.Walk
import ZiranOS.Paging.Build
import ZiranOS.Paging.Calls
import ZiranOS.Paging.Refinement
import ZiranOS.Paging.Access
import ZiranOS.Paging.Privilege
import ZiranOS.Paging.Permission
import ZiranOS.Paging.Failure
import ZiranOS.Paging.Footprint
import ZiranOS.Paging.TableCount
import ZiranOS.Paging.NewTables
import ZiranOS.Syscall.Dispatch
import ZiranOS.Syscall.Write
import ZiranOS.Syscall.Excursion
import ZiranOS.Usermode.Kernel
import ZiranOS.Usermode.Program
import ZiranOS.Usermode.Stale
import ZiranOS.Usermode.Pages
import ZiranOS.Usermode.Conservation
import ZiranOS.Usermode.Reuse
import ZiranOS.Usermode.Alike
import ZiranOS.Usermode.Ring3
import ZiranOS.Boot.Handover
import ZiranOS.Boot.StandUp
import ZiranOS.Usermode.Instr
import ZiranOS.Usermode.Blobs
import ZiranOS.Usermode.Kept
import ZiranOS.Usermode.Security
import ZiranOS.Heap.FreeList
import ZiranOS.Heap.Blocks
import ZiranOS.Heap.Packing
import ZiranOS.Heap.Memory
import ZiranOS.Heap.Links
import ZiranOS.Heap.Safety
import ZiranOS.Heap.Exhaustion
import ZiranOS.Heap.Reclaim
import ZiranOS.Heap.Conservation
import ZiranOS.Shell.Base64
import ZiranOS.Shell.Encode
import ZiranOS.Shell.Codec
import ZiranOS.Shell.Load
import ZiranOS.Shell.Growth
import ZiranOS.Shell.LoadRoom
import ZiranOS.Shell.Parse
import ZiranOS.Shell.Path
import ZiranOS.Shell.Command
import ZiranOS.Shell.Delivery
import ZiranOS.Shell.Active
import ZiranOS.Shell.Directory
import ZiranOS.Shell.Listing
import ZiranOS.Shell.Capture
import ZiranOS.Task.Scheduler
import ZiranOS.Task.Runnable
import ZiranOS.Task.Idle
import ZiranOS.Task.Status
import ZiranOS.Task.Switch
import ZiranOS.Task.Transparent
import ZiranOS.Task.Locks
import ZiranOS.Task.Deadlock
import ZiranOS.Task.Waiting
import ZiranOS.Task.Buffer
import ZiranOS.Bridge.Session
import ZiranOS.Bridge.Step
import ZiranOS.Bridge.Effect
import ZiranOS.Bridge.Admission
import ZiranOS.Bridge.Isolation
import ZiranOS.Bridge.Accounting
import ZiranOS.Bridge.RateLimit
import ZiranOS.Bridge.InputPath
import ZiranOS.Console.Line
import ZiranOS.Console.Bounds
import ZiranOS.Input.Fifo
import ZiranOS.Input.Keyboard
import ZiranOS.Net.Delivery
