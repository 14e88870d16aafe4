import Mathlib.Algebra.Group.Nat.Defs
import Mathlib.Logic.Function.Basic

/-!
# Tables of the runtime kernel

The part of `KernelState` in `core/RADKernel_runtime.cpp` that the descriptor, pipe,
socket, shared-memory and process calls work on. A C array is a function from its index;
its size is the constant of the default build. A record that was cleared by `memset` is
the default value of its structure.

File, directory and device handles are pointers to heap memory the kernel gets from
`rad_vfs_open`, `rad_vfs_opendir` and `rad_device_open`. They are numbered in the order
they are handed out, and the log of closed handles is kept beside the tables.
-/

namespace RadKernel

/-- `rad_status_t`. -/
inductive Status where
  | ok
  | error
  | invalidArgument
  | notFound
  | noMemory
  | timeout
  | notSupported
  | alreadyExists
  | notInitialized
  deriving DecidableEq, Repr

/-- The value a status has as the result of a call that also returns descriptors. -/
def Status.code : Status → Int
  | .ok => 0
  | .error => -1
  | .invalidArgument => -2
  | .notFound => -3
  | .noMemory => -4
  | .timeout => -5
  | .notSupported => -6
  | .alreadyExists => -7
  | .notInitialized => -8

namespace Kernel

def maxPosixFds : Nat := 32
def maxPipes : Nat := 8
def maxUdpSockets : Nat := 8
def maxShmObjects : Nat := 8
def maxProcesses : Nat := 16

def vfsRead : Nat := 1
def vfsWrite : Nat := 2
def vfsCreate : Nat := 4
def vfsTruncate : Nat := 8
def vfsAppend : Nat := 16
def vfsDirectory : Nat := 32

inductive FdKind where
  | empty
  | file
  | device
  | pipe
  | shm
  | socket
  | dir
  deriving DecidableEq, Repr

/-- What a descriptor stands for: the fields of `FdRecord` that name the open object. -/
structure FdObject where
  kind : FdKind := .empty
  file : Option Nat := none
  dir : Option Nat := none
  device : Option Nat := none
  pipeIndex : Nat := 0
  shmIndex : Nat := 0
  socketIndex : Nat := 0
  pipeWriteEnd : Bool := false
  deriving DecidableEq, Repr

structure FdRecord extends FdObject where
  flags : Nat := 0
  descriptorFlags : Nat := 0
  refs : Int := 0
  ownerFd : Int := 0
  ownerPid : Int := 0
  localFd : Int := 0
  used : Bool := false
  deriving DecidableEq, Repr

structure PipeRecord where
  buffer : Nat → UInt8 := fun _ => 0
  readPos : Nat := 0
  size : Nat := 0
  readRefs : Int := 0
  writeRefs : Int := 0
  used : Bool := false

structure Ipv4Address where
  b0 : UInt8 := 0
  b1 : UInt8 := 0
  b2 : UInt8 := 0
  b3 : UInt8 := 0
  deriving DecidableEq, Repr

/-- `rad_default_ipv4_address` with the constants of the default configuration. -/
def defaultIpv4Address : Ipv4Address := ⟨10, 0, 2, 15⟩

inductive TcpState where
  | closed
  | listen
  | synSent
  | synReceived
  | established
  | finWait
  | closeWait
  | lastAck
  | timeWait
  deriving DecidableEq, Repr

def afInet : Int := 2
def sockDgram : Int := 2
def sockStream : Int := 1
def ipprotoUdp : Int := 17
def ipprotoTcp : Int := 6

/-- `rad_sockaddr_in_t`. -/
structure SockAddr where
  family : Int := 0
  port : Nat := 0
  address : Ipv4Address := {}
  deriving DecidableEq, Repr

structure UdpDatagram where
  sender : SockAddr := {}
  payload : List UInt8 := []
  used : Bool := false

/-- `stream_rx` holds the received bytes, `stream_rx_size` is its length. -/
structure SocketRecord where
  used : Bool := false
  domain : Int := 0
  type : Int := 0
  protocol : Int := 0
  tcpState : TcpState := .closed
  localPort : Nat := 0
  remotePort : Nat := 0
  localAddress : Ipv4Address := {}
  remoteAddress : Ipv4Address := {}
  datagrams : Nat → UdpDatagram := fun _ => {}
  streamRx : List UInt8 := []
  pendingAccepts : Nat → Nat := fun _ => 0
  pendingCount : Nat := 0
  peerIndex : Nat := 0
  shutdownRead : Bool := false
  shutdownWrite : Bool := false

structure ShmRecord where
  name : List Char := []
  byteSize : Nat := 0
  pageCount : Nat := 0
  pages : Nat → Nat := fun _ => 0
  linked : Bool := false
  used : Bool := false

inductive ProcessState where
  | none
  | running
  | waiting
  | zombie
  deriving DecidableEq, Repr

/-- `rad_credentials_t`. -/
structure Credentials where
  uid : Nat := 0
  gid : Nat := 0
  euid : Nat := 0
  egid : Nat := 0
  deriving DecidableEq, Repr

structure ProcessRecord where
  pid : Int := 0
  parentPid : Int := 0
  processGroupId : Int := 0
  sessionId : Int := 0
  state : ProcessState := .none
  exitCode : Int := 0
  credentials : Credentials := {}
  path : List Char := []
  used : Bool := false

structure KernelState where
  fds : Nat → FdRecord := fun _ => {}
  pipes : Nat → PipeRecord := fun _ => {}
  sockets : Nat → SocketRecord := fun _ => {}
  shmObjects : Nat → ShmRecord := fun _ => {}
  processes : Nat → ProcessRecord := fun _ => {}
  nextPid : Int := 2
  /-- How many file, directory and device handles were handed out. -/
  opened : Nat := 0
  /-- The handles closed so far, the latest first. -/
  closed : List Nat := []

end Kernel

end RadKernel
