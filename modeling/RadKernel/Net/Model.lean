import RadKernel.Fd.Model

/-!
# Socket calls

`rad_socket_bind` to `rad_socket_shutdown` and the queue of datagrams of a socket.
`rad_socket_create`, `rad_socket_accept` and the closing of a socket are with the descriptor
calls. Addresses are given (a null address or a short length is turned down before anything
else), and a buffer is the list of its bytes.

The network card is outside: what `poll_network_for_udp` reads is a list of received
datagrams, and what `send_udp_frame` returns is a parameter.
-/

namespace RadKernel.Net

open Kernel Fd

def maxUdpDatagrams : Nat := 8
def udpPayloadBytes : Nat := 512
def pipeBufferBytes : Nat := 512

/-- `find_socket`, the index in place of the pointer. -/
def findSocket (s : KernelState) (type : Int) (port : Nat) : Option Nat :=
  if port = 0 then none
  else (List.range maxUdpSockets).find? fun i =>
    (s.sockets i).used ∧ (s.sockets i).type = type ∧ (s.sockets i).localPort = port

/-- The first record not in use. -/
def freeSocket (s : KernelState) : Option Nat :=
  (List.range maxUdpSockets).find? fun i => !(s.sockets i).used

def radSocketBind (s : KernelState) (pid fd : Int) (address : SockAddr) : Status × KernelState :=
  if address.family ≠ afInet ∨ address.port = 0 then (.invalidArgument, s)
  else
    match socketFromFd s pid fd with
    | none => (.notFound, s)
    | some i =>
      let found := findSocket s (s.sockets i).type address.port
      if found ≠ none ∧ found ≠ some i then (.alreadyExists, s)
      else
        (.ok, setSocket s i
          { s.sockets i with
            localPort := address.port
            localAddress := if address.address.b0 ≠ 0 then address.address else defaultIpv4Address })

def radSocketListen (s : KernelState) (pid fd backlog : Int) : Status × KernelState :=
  match socketFromFd s pid fd with
  | none => (.notFound, s)
  | some i =>
    if (s.sockets i).type ≠ sockStream ∨ (s.sockets i).localPort = 0 ∨ backlog < 0 then
      (.invalidArgument, s)
    else (.ok, setSocket s i { s.sockets i with tcpState := .listen })

/-- The checks of `rad_socket_connect`: the client, the listener it found and the record for
the server's end. -/
def connectParties (s : KernelState) (pid fd : Int) (address : SockAddr) :
    Except Status (Nat × Nat × Nat) :=
  if address.family ≠ afInet ∨ address.port = 0 then .error .invalidArgument
  else
    match socketFromFd s pid fd with
    | none => .error .invalidArgument
    | some client =>
      if (s.sockets client).type ≠ sockStream then .error .invalidArgument
      else
        match findSocket s sockStream address.port with
        | none => .error .notFound
        | some listener =>
          if (s.sockets listener).tcpState ≠ .listen ∨
              maxUdpSockets ≤ (s.sockets listener).pendingCount then .error .notFound
          else
            match freeSocket s with
            | none => .error .noMemory
            | some server => .ok (client, listener, server)

/-- The client once `rad_socket_connect` has its parties. -/
def connectedClient (r : SocketRecord) (index : Nat) (address : SockAddr) : SocketRecord :=
  { r with
    localPort := if r.localPort = 0 then 50000 + index % 1000 else r.localPort
    remotePort := address.port
    remoteAddress := address.address
    tcpState := .established }

/-- The server's end of the connection. -/
def serverSocket (listener client : SocketRecord) (clientIndex : Nat) : SocketRecord where
  used := true
  domain := afInet
  type := sockStream
  protocol := ipprotoTcp
  tcpState := .established
  localPort := listener.localPort
  localAddress := listener.localAddress
  remotePort := client.localPort
  remoteAddress := client.localAddress
  peerIndex := clientIndex

/-- `listener->pending_accepts[listener->pending_count++] = server_index`. -/
def enqueuePending (r : SocketRecord) (server : Nat) : SocketRecord :=
  { r with
    pendingAccepts := Function.update r.pendingAccepts r.pendingCount server
    pendingCount := r.pendingCount + 1 }

/-- The assignments of `rad_socket_connect`, in its order: client and listener may be one. -/
def connectSockets (s : KernelState) (client listener server : Nat) (address : SockAddr) :
    KernelState :=
  let s := setSocket s client (connectedClient (s.sockets client) client address)
  let s := setSocket s server (serverSocket (s.sockets listener) (s.sockets client) client)
  let s := setSocket s client { s.sockets client with peerIndex := server }
  setSocket s listener (enqueuePending (s.sockets listener) server)

def radSocketConnect (s : KernelState) (pid fd : Int) (address : SockAddr) :
    Status × KernelState :=
  match connectParties s pid fd address with
  | .error status => (status, s)
  | .ok (client, listener, server) => (.ok, connectSockets s client listener server address)

/-- `rad_socket_send`; the result is the number of bytes taken, or a status. -/
def radSocketSend (s : KernelState) (pid fd : Int) (buffer : List UInt8) : Int × KernelState :=
  match socketFromFd s pid fd with
  | none => (Status.notFound.code, s)
  | some i =>
    let socket := s.sockets i
    if socket.type ≠ sockStream ∨ socket.tcpState ≠ .established ∨
        maxUdpSockets ≤ socket.peerIndex then (Status.invalidArgument.code, s)
    else
      let peer := s.sockets socket.peerIndex
      if !peer.used ∨ socket.shutdownWrite ∨ peer.shutdownRead then (Status.notFound.code, s)
      else
        let count := min (pipeBufferBytes - peer.streamRx.length) buffer.length
        (count, setSocket s socket.peerIndex
          { peer with streamRx := peer.streamRx ++ buffer.take count })

/-- `rad_socket_recv`: its result and the bytes stored for the caller. -/
def radSocketRecv (s : KernelState) (pid fd : Int) (size : Nat) :
    (Int × List UInt8) × KernelState :=
  match socketFromFd s pid fd with
  | none => ((Status.notFound.code, []), s)
  | some i =>
    let socket := s.sockets i
    if socket.type ≠ sockStream then ((Status.invalidArgument.code, []), s)
    else
      let count := min socket.streamRx.length size
      ((count, socket.streamRx.take count),
        setSocket s i { socket with streamRx := socket.streamRx.drop count })

def radSocketShutdown (s : KernelState) (pid fd how : Int) : Status × KernelState :=
  match socketFromFd s pid fd with
  | none => (.notFound, s)
  | some i =>
    let socket := s.sockets i
    (.ok, setSocket s i
      { socket with
        shutdownRead := socket.shutdownRead || how = 0 || how = 2
        shutdownWrite := socket.shutdownWrite || how = 1 || how = 2
        tcpState := if socket.tcpState = .established then .finWait else socket.tcpState })

/-! ## Datagrams -/

/-- The first free place in the queue of a socket. -/
def freeDatagram (r : SocketRecord) : Option Nat :=
  (List.range maxUdpDatagrams).find? fun i => !(r.datagrams i).used

/-- The first place in use. -/
def firstDatagram (r : SocketRecord) : Option Nat :=
  (List.range maxUdpDatagrams).find? fun i => (r.datagrams i).used

def enqueueUdpDatagram (r : SocketRecord) (sender : SockAddr) (payload : List UInt8) :
    Status × SocketRecord :=
  if udpPayloadBytes < payload.length then (.invalidArgument, r)
  else
    match freeDatagram r with
    | none => (.noMemory, r)
    | some i =>
      let datagram : UdpDatagram := ⟨sender, payload, true⟩
      (.ok, { r with datagrams := Function.update r.datagrams i datagram })

/-- The end of `rad_socket_recvfrom`: what is stored of the datagram for the caller, with its
sender, when there is one. -/
def takeDatagram (r : SocketRecord) (size : Nat) :
    Option (List UInt8 × SockAddr) × SocketRecord :=
  match firstDatagram r with
  | none => (none, r)
  | some i =>
    (some ((r.datagrams i).payload.take size, (r.datagrams i).sender),
      { r with datagrams := Function.update r.datagrams i {} })

/-- A datagram as `parse_ethernet_frame` takes it from a frame. -/
structure Frame where
  source : Ipv4Address
  sourcePort : Nat
  destinationPort : Nat
  payload : List UInt8
  deriving DecidableEq, Repr

/-- Put a datagram into the queue of the socket bound to the port, if there is one. -/
def deliver (s : KernelState) (port : Nat) (sender : SockAddr) (payload : List UInt8) :
    Status × KernelState :=
  match findSocket s sockDgram port with
  | none => (.notFound, s)
  | some i =>
    let (status, r) := enqueueUdpDatagram (s.sockets i) sender payload
    (status, setSocket s i r)

def dispatchUdpDatagram (s : KernelState) (f : Frame) : Status × KernelState :=
  deliver s f.destinationPort ⟨afInet, f.sourcePort, f.source⟩ f.payload

/-- `poll_network_for_udp`: every frame that came in is dispatched. -/
def pollNetworkForUdp (s : KernelState) (frames : List Frame) : KernelState :=
  frames.foldl (fun s f => (dispatchUdpDatagram s f).2) s

/-- `rad_socket_recvfrom`. `frames` came in since the last poll. -/
def radSocketRecvfrom (s : KernelState) (pid fd : Int) (size : Nat) (frames : List Frame) :
    Option (List UInt8 × SockAddr) × KernelState :=
  match socketFromFd s pid fd with
  | none => (none, s)
  | some i =>
    let s := pollNetworkForUdp s frames
    let (taken, r) := takeDatagram (s.sockets i) size
    (taken, setSocket s i r)

/-- The sender's port and address as `rad_socket_sendto` completes them. -/
def namedSender (r : SocketRecord) (index : Nat) (own : Ipv4Address) : SocketRecord :=
  { r with
    localPort := if r.localPort = 0 then 49152 + index % 1024 else r.localPort
    localAddress := if r.localAddress.b0 = 0 then own else r.localAddress }

/-- `send_udp_frame`: `frames` came in while it waited for the hardware address, and `sent` is
what it returns. -/
def sendUdpFrame (s : KernelState) (buffer : List UInt8) (frames : List Frame) (sent : Status) :
    Int × KernelState :=
  (if sent = .ok ∨ sent = .notFound then buffer.length else sent.code, pollNetworkForUdp s frames)

/-- `rad_socket_sendto`. `own` is the address of the network configuration; what is not
delivered in loopback goes to `send_udp_frame`. -/
def radSocketSendto (s : KernelState) (pid fd : Int) (buffer : List UInt8) (address : SockAddr)
    (own : Ipv4Address) (frames : List Frame) (sent : Status) : Int × KernelState :=
  if address.family ≠ afInet ∨ address.port = 0 then (Status.invalidArgument.code, s)
  else
    match socketFromFd s pid fd with
    | none => (Status.notFound.code, s)
    | some i =>
      let socket := namedSender (s.sockets i) i own
      let s := setSocket s i socket
      if address.address = socket.localAddress ∨ address.address = own then
        let (status, t) := deliver s address.port ⟨afInet, socket.localPort, socket.localAddress⟩
          buffer
        if status = .ok then (buffer.length, t) else sendUdpFrame t buffer frames sent
      else sendUdpFrame s buffer frames sent

/-! ## Calls -/

/-- The calls on stream sockets, and those on descriptors that reach them. -/
inductive Call where
  | socket (domain type protocol : Int)
  | bind (fd : Int) (address : SockAddr)
  | listen (fd backlog : Int)
  | connect (fd : Int) (address : SockAddr)
  | accept (fd : Int)
  | send (fd : Int) (buffer : List UInt8)
  | recv (fd : Int) (size : Nat)
  | shutdown (fd how : Int)
  | dup (fd : Int)
  | close (fd : Int)
  deriving DecidableEq, Repr

/-- The result of a call, the bytes it stored for the caller, and the new state. -/
def Call.perform (pid : Nat) (s : KernelState) : Call → (Int × List UInt8) × KernelState
  | socket domain type protocol =>
    let (fd, t) := radSocketCreate s pid domain type protocol
    ((fd, []), t)
  | bind fd address =>
    let (status, t) := radSocketBind s pid fd address
    ((status.code, []), t)
  | listen fd backlog =>
    let (status, t) := radSocketListen s pid fd backlog
    ((status.code, []), t)
  | connect fd address =>
    let (status, t) := radSocketConnect s pid fd address
    ((status.code, []), t)
  | accept fd =>
    let ((result, _), t) := radSocketAccept s pid fd
    ((result, []), t)
  | send fd buffer =>
    let (count, t) := radSocketSend s pid fd buffer
    ((count, []), t)
  | recv fd size => radSocketRecv s pid fd size
  | shutdown fd how =>
    let (status, t) := radSocketShutdown s pid fd how
    ((status.code, []), t)
  | dup fd =>
    let (result, t) := radFdDup s pid fd
    ((result, []), t)
  | close fd =>
    let (result, t) := radFdClose s pid fd
    ((result, []), t)

def callStep (s : KernelState) (e : Nat × Call) : KernelState := (e.2.perform e.1 s).2

end RadKernel.Net
