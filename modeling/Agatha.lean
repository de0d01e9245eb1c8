import Agatha.Sys.IpcScheduler
import Agatha.Sys.ObjectRuns
import Agatha.Library.Probing
import Agatha.Fs.Crc
import Agatha.Fs.State
import Agatha.Fs.Checkpoint
import Agatha.Fs.Directory
import Agatha.Fs.Format
import Agatha.Fs.CrcRegister
import Agatha.Fs.Scan
import Agatha.Fs.Damage
import Agatha.Fs.Layout
import Agatha.Fs.Truncate
import Agatha.Fs.BlockLists
import Agatha.Fs.Corruption
import Agatha.Fs.DirectoryRuns
import Agatha.Fs.FileContents
import Agatha.Library.Cutting
import Agatha.Root.Ram
import Agatha.User.Malloc
import Agatha.Net.Tcp
import Agatha.Sys.Calls
import Agatha.User.MallocRuns
import Agatha.Sys.Numbers
import Agatha.Sys.Atomic
import Agatha.Sys.Window
import Agatha.Sys.Walks
import Agatha.Sys.PanicRuns
import Agatha.Sys.Bounds
import Agatha.Sys.Isolation
import Agatha.Sys.IsolationRuns
import Agatha.Fs.CheckpointRuns
import Agatha.Drivers.Virtq
import Agatha.Net.Ip
import Agatha.Net.Udp
import Agatha.Net.Fragments
import Agatha.Net.Requests
import Agatha.Net.Pending
import Agatha.Drivers.AcceptLoops
import Agatha.Drivers.Descriptors
import Agatha.Net.Frames
import Agatha.Net.PacketOwners
import Agatha.Net.Answered
import Agatha.Net.Arrivals
import Agatha.Sys.Slices
import Agatha.Net.ReceivePath
import Agatha.Net.Parsing
import Agatha.Sys.Capabilities
import Agatha.Sys.CapabilityCalls
import Agatha.Sys.CapabilityFrames
import Agatha.Sys.CapabilityRuns
import Agatha.Sys.NextProc
import Agatha.Drivers.Timers
import Agatha.Root.Resources
import Agatha.Sys.WindowRuns
import Agatha.Sys.MapUnmap
import Agatha.Fs.CheckpointLists
import Agatha.Sys.ProcStarts
import Agatha.Net.SendQueue
import Agatha.Library.OnesComplement
import Agatha.Net.Segments
import Agatha.Net.Checksums
import Agatha.Fs.Flush
import Agatha.Fs.FlushRuns
import Agatha.Drivers.BlockFrames
import Agatha.User.LogRing
import Agatha.Net.ArpCallbacks
import Agatha.Root.FixedRange
import Agatha.Root.FailedRequests
import Agatha.User.Coalescing
import Agatha.Net.PeerFin
import Agatha.Net.Bindings
import Agatha.User.Spans
import Agatha.Sys.ObjectEffects
import Agatha.User.KernelObjects
import Agatha.User.KernelObjectSteps
import Agatha.User.KernelObjectRuns
import Agatha.User.MallocSizes
import Agatha.User.Pool
import Agatha.User.Print
import Agatha.FatFs.Volume
import Agatha.FatFs.Chains
import Agatha.FatFs.Reads
import Agatha.FatFs.Errors
import Agatha.Fs.Crashes
