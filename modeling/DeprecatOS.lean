import DeprecatOS.Proof.BlockCounts
import DeprecatOS.Proof.Calendar
import DeprecatOS.Proof.ChangeDir
import DeprecatOS.Proof.CopyFile
import DeprecatOS.Proof.Dinv
import DeprecatOS.Proof.FileContents
import DeprecatOS.Proof.FileStore
import DeprecatOS.Proof.FrameAllocator
import DeprecatOS.Proof.InodeStore
import DeprecatOS.Proof.KernelHeap
import DeprecatOS.Proof.Keyboard
import DeprecatOS.Proof.LongOps
import DeprecatOS.Proof.Mem
import DeprecatOS.Proof.MountTable
import DeprecatOS.Proof.NewEntry
import DeprecatOS.Proof.NoTrace
import DeprecatOS.Proof.Partition
import DeprecatOS.Proof.Queues
import DeprecatOS.Proof.RemoveTree
import DeprecatOS.Proof.Scheduler
import DeprecatOS.Proof.Scrollback
import DeprecatOS.Proof.ShellPaths
import DeprecatOS.Proof.StaleMemory
