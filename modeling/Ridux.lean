import Ridux.Paging.Isolation
import Ridux.Paging.Lifecycle
import Ridux.Vfs.Runs
import Ridux.Fd.Exact
import Ridux.Dbus.RoundTrip
import Ridux.Net.Fifo
import Ridux.Net.Rights
import Ridux.Net.Peering
import Ridux.Dbus.Names
import Ridux.Dbus.Framing
import Ridux.Task.Creds
import Ridux.Proc.ShellAgree
import Ridux.Proc.Shebang
import Ridux.Proc.Spawn
import Ridux.Proc.Reap
import Ridux.Pipe.Fifo
import Ridux.Signal.Shadow
import Ridux.Tcp.States
import Ridux.Tcp.Sender
import Ridux.Tcp.Receive
import Ridux.Futex.Wakes
import Ridux.Futex.Pi
import Ridux.Tls.Connect
import Ridux.Net.Unix
import Ridux.Epoll.Runs
import Ridux.Ready.Agree
import Ridux.Signal.Temporary
import Ridux.X11.Stream
import Ridux.Wl.Stream
import Ridux.Wl.Lifecycle
import Ridux.Pmm.Firmware
import Ridux.Vfs.Getdents
import Ridux.Vfs.Symlink
import Ridux.Fd.Vector
import Ridux.Fd.Leftover
import Ridux.Lib.Cursor
import Ridux.Lib.Lines
import Ridux.Vfs.DirNames
import Ridux.Vfs.Keep
import Ridux.Paging.OnePage
import Ridux.Net.Responder
import Ridux.Net.NetlinkQueue
import Ridux.Kernel.Processes
import Ridux.Lib.Edit
import Ridux.Tty.Lines
import Ridux.Input.Evdev
import Ridux.Futex.Robust
import Ridux.Kernel.Elf64
import Ridux.Kernel.Initrd
import Ridux.Kernel.Elf32
import Ridux.Disk.Sectors
import Ridux.Lib.Walk
import Ridux.Disk.Fat32
import Ridux.Disk.Ext2
import Ridux.Disk.Ext2Data
import Ridux.Lib.Digits
import Ridux.Tls.Rsa
import Ridux.Ready.Timers
import Ridux.Epoll.Rounds
import Ridux.Tls.Sha256
import Ridux.Tls.Aes
import Ridux.Proc.UserStack
