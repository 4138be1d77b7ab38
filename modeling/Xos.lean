import Xos.Dafne.Damage
import Xos.Exec.Arguments
import Xos.Fs.Files
import Xos.Fs.Listing
import Xos.Fs.NameBounds
import Xos.Fs.Termination
import Xos.Graphics.Blit
import Xos.Graphics.Clip
import Xos.Graphics.Console
import Xos.Graphics.Isqrt
import Xos.Graphics.Line
import Xos.Io.Calendar
import Xos.Io.Descriptors
import Xos.Io.Dma
import Xos.Io.Events
import Xos.Io.Rings
import Xos.Ipc.Framing
import Xos.Ipc.HandleTypes
import Xos.Ipc.Servers
import Xos.Ipc.Wakeups
import Xos.Memory.AddressSpaces
import Xos.Memory.HeapWrap
import Xos.Memory.HhdmCoverage
import Xos.Memory.PmmAccounting
import Xos.Memory.PmmRuns
import Xos.Memory.VmmBoot
import Xos.Memory.VmmUnmap
import Xos.Net.Announcements
import Xos.Net.Backlog
import Xos.Net.ByteOrder
import Xos.Net.Cards
import Xos.Net.DataOffset
import Xos.Net.Flush
import Xos.Net.Identity
import Xos.Net.Loopback
import Xos.Net.Pending
import Xos.Net.ReceiveStream
import Xos.Net.RingBuf
import Xos.Net.SocketIds
import Xos.Net.Transmit
import Xos.Net.UdpOwners
import Xos.Scheduler.PickNext
import Xos.Scheduler.ProcessList
import Xos.Scheduler.Threads
import Xos.Scheduler.Wait
import Xos.Service.CfgKeys
import Xos.Shell.Lines
import Xos.Syscall.Clock
import Xos.Syscall.Keyboard
import Xos.Syscall.Sharing
import Xos.Ui.HitTest
