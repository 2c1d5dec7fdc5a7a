import PickleOS.NextFs.Trees
import PickleOS.NextFs.SparseFiles
import PickleOS.NextFs.CutBytes
import PickleOS.NextFs.Touches
import PickleOS.NextFs.FirstMount
import PickleOS.NextFs.Removal
import PickleOS.NextFs.NameMaps
import PickleOS.Elf.ParseSafety
import PickleOS.Ipc.Wakeups
import PickleOS.Ipc.Locking
import PickleOS.Memory.Processes
import PickleOS.Memory.Programs
import PickleOS.Memory.Heaps
import PickleOS.Syscall.Signals
import PickleOS.Fs.PipeStreams
import PickleOS.Fs.SocketMap
import PickleOS.Fs.OpenInodes
import PickleOS.Fs.OrderlyRuns
import PickleOS.Fs.Loading
import PickleOS.Capabilities.Authority
import PickleOS.Driver.Mmio
import PickleOS.Driver.Transmit
import PickleOS.Driver.Receive
import PickleOS.Driver.Dma
import PickleOS.Tasks.Zombies
import PickleOS.Tasks.Endings
import PickleOS.Tasks.Timeline
import PickleOS.Syscall.Confinement
import PickleOS.Syscall.Inheritance
import PickleOS.Syscall.Sigreturn
import PickleOS.Driver.Irq
import PickleOS.Fs.MountLock
import PickleOS.Windows.Dragging
import PickleOS.Services.Namespace
import PickleOS.Console.TerminalSafety
import PickleOS.Console.Waiting
import PickleOS.Syscall.StatAbi
import PickleOS.Fs.Keyboard
import PickleOS.Elf.LoadExact
import PickleOS.Tasks.Fairness
import PickleOS.Tasks.Killing
import PickleOS.Tasks.Ignored
import PickleOS.Tasks.Stacks
import PickleOS.Syscall.Mmap
import PickleOS.Driver.Block
import PickleOS.Windows.FocusEvents
import PickleOS.Windows.ButtonEvents
import PickleOS.Windows.Clients
import PickleOS.Console.Scrollback
import PickleOS.Console.EditorRow
import PickleOS.Console.HistoryBoots
import PickleOS.Apps.EditorFile
import PickleOS.Apps.EditorBuffer
import PickleOS.Apps.BoxCursor
import PickleOS.Windows.Cursor
import PickleOS.NextFs.InodeTable
import PickleOS.Memory.PrivateMemories
import PickleOS.Elf.RelocationWords
import PickleOS.Shared.TreePaths
import PickleOS.NextFs.PathMap
import PickleOS.Fs.ShellFiles
import PickleOS.Shared.Layers
import PickleOS.Windows.Drawing
import PickleOS.Windows.TextConsole
