import RadKernel.Fd.Results
import RadKernel.Vfs.Access
import RadKernel.Vfs.Handles
import RadKernel.Ext4.ExtentTree
import RadKernel.Ext4.Truncate
import RadKernel.Ext4.Space
import RadKernel.Process.Credentials
import RadKernel.Net.Datagrams
import RadKernel.Net.StreamCalls
import RadKernel.Ethernet.Configured
import RadKernel.Fat.Commit
import RadKernel.Fat.Reopen
import RadKernel.Tty.Sessions
import RadKernel.Tty.Lines
import RadKernel.Tty.Settings
import RadKernel.Sched.Preemption
import RadKernel.Sched.Sleeping
import RadKernel.Overlay.Lifecycle
import RadKernel.Overlay.RoundTrip
import RadKernel.Overlay.Registrations
import RadKernel.Overlay.Drawing
import RadKernel.Overlay.Interrupts
import RadKernel.Overlay.Atomic
import RadKernel.Overlay.DmaAccounts
import RadKernel.Rash.Descriptors
import RadKernel.Rash.Dns
import RadKernel.User.Teardown
import RadKernel.Vm.Regions
import RadKernel.Heap.Capacity
import RadKernel.Elf.Bounds
import RadKernel.Vfs.Mounts
import RadKernel.Virtio.Completion
import RadKernel.Compositor.Order
import RadKernel.Compositor.Buffers
import RadKernel.Radinit.Runs
import RadKernel.Queue.Handles
import RadKernel.Log.Paging
import RadKernel.Ext4.LinkCounts
import RadKernel.Syscall.Create
import RadKernel.Overlay.DmaAccounts
import RadKernel.Libc.SearchTree
import RadKernel.Libc.Environment
import RadKernel.Slint.Scrollback
