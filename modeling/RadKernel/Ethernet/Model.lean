import RadKernel.Lib.OnesComplement
import RadKernel.Net.Model

/-!
# Ethernet frames

`parse_ethernet_frame` with the functions it calls, `send_arp_packet`, `send_icmp_echo_reply` and
`send_udp_frame`. A received frame is the list of its bytes and a frame that is built an array of
cells; every access to one of them is checked against its bounds, and a `Fault` says where the
first one outside was. Counters of packets are left out.

The driver of the network card is outside: it gives the hardware address, takes frames and
answers with a status.
-/

namespace RadKernel.Ethernet

open Kernel Fd Net

/-- The first access out of bounds. -/
inductive Fault where
  | read (index : Nat)
  | write (index : Nat)
  deriving DecidableEq, Repr

/-! ## Reading a frame -/

def readByte (bytes : List UInt8) (i : Nat) : Except Fault UInt8 :=
  match bytes[i]? with
  | some b => .ok b
  | none => .error (.read i)

def readBytes (bytes : List UInt8) (offset count : Nat) : Except Fault (List UInt8) :=
  if offset + count ≤ bytes.length then .ok ((bytes.drop offset).take count)
  else .error (.read (max offset bytes.length))

/-- Two bytes as a big-endian number. -/
def be16 (hi lo : UInt8) : Nat := 256 * hi.toNat + lo.toNat

def readBe16 (bytes : List UInt8) (i : Nat) : Except Fault Nat := do
  let hi ← readByte bytes i
  let lo ← readByte bytes (i + 1)
  return be16 hi lo

/-- `rad_mac_address_t`. -/
structure MacAddress where
  m0 : UInt8 := 0
  m1 : UInt8 := 0
  m2 : UInt8 := 0
  m3 : UInt8 := 0
  m4 : UInt8 := 0
  m5 : UInt8 := 0
  deriving DecidableEq, Repr

def readMac (bytes : List UInt8) (i : Nat) : Except Fault MacAddress := do
  let m0 ← readByte bytes i
  let m1 ← readByte bytes (i + 1)
  let m2 ← readByte bytes (i + 2)
  let m3 ← readByte bytes (i + 3)
  let m4 ← readByte bytes (i + 4)
  let m5 ← readByte bytes (i + 5)
  return ⟨m0, m1, m2, m3, m4, m5⟩

def readIpv4 (bytes : List UInt8) (i : Nat) : Except Fault Ipv4Address := do
  let b0 ← readByte bytes i
  let b1 ← readByte bytes (i + 1)
  let b2 ← readByte bytes (i + 2)
  let b3 ← readByte bytes (i + 3)
  return ⟨b0, b1, b2, b3⟩

/-- `ipv4_checksum` of the bytes; the sum has 32 bits. -/
def ipv4Checksum (data : List UInt8) : Nat :=
  OnesComplement.checksum (OnesComplement.wordSum data % 2 ^ 32)

/-! ## Building a frame -/

/-- The size of the frames that are built. -/
def frameBytes : Nat := 1514

def writeBytes (frame : Nat → UInt8) (offset : Nat) (bytes : List UInt8) :
    Except Fault (Nat → UInt8) :=
  if offset + bytes.length ≤ frameBytes then .ok (Buffer.store frame offset bytes)
  else .error (.write (max offset frameBytes))

/-- Bytes of the frame that is built. -/
def frameSlice (frame : Nat → UInt8) (offset count : Nat) : List UInt8 :=
  (List.range count).map fun k => frame (offset + k)

/-- The bytes that `write_be16` stores. -/
def be16Bytes (value : Nat) : List UInt8 := [(value / 256).toUInt8, value.toUInt8]

def MacAddress.bytes (mac : MacAddress) : List UInt8 :=
  [mac.m0, mac.m1, mac.m2, mac.m3, mac.m4, mac.m5]

def ipv4Bytes (a : Ipv4Address) : List UInt8 := [a.b0, a.b1, a.b2, a.b3]

/-! ## State -/

structure ArpEntry where
  ipv4 : Ipv4Address := {}
  mac : MacAddress := {}
  valid : Bool := false
  deriving DecidableEq, Repr

def arpCacheSize : Nat := 8

/-- `rad_net_stack_config_t`. -/
structure NetStackConfig where
  size : Nat := 0
  ipv4 : Ipv4Address := {}
  netmask : Ipv4Address := {}
  gateway : Ipv4Address := {}
  ntpServer : Ipv4Address := {}
  ntpPort : Nat := 0
  flags : Nat := 0
  deriving DecidableEq, Repr

/-- `/dev/net0` where it opens and reports its link. -/
structure NetDevice where
  mac : MacAddress := {}
  send : List UInt8 → Status := fun _ => .ok

structure NetState where
  kernel : KernelState := {}
  arpCache : Nat → ArpEntry := fun _ => {}
  config : NetStackConfig := {}
  device : Option NetDevice := none
  /-- The frames given to the driver. -/
  sent : List (List UInt8) := []

/-! ## Configuration -/

def defaultNetmask : Ipv4Address := ⟨255, 255, 255, 0⟩
def defaultGateway : Ipv4Address := ⟨10, 0, 2, 2⟩
def defaultNtpServer : Ipv4Address := ⟨10, 0, 2, 2⟩
def defaultNtpPort : Nat := 12300

def initialNetConfig : NetStackConfig where
  size := 24
  ipv4 := defaultIpv4Address
  netmask := defaultNetmask
  gateway := defaultGateway
  ntpServer := defaultNtpServer
  ntpPort := defaultNtpPort

def activeNetConfig (s : NetState) : NetStackConfig :=
  if s.config.size < 4 then initialNetConfig else s.config

def ipv4IsZero (a : Ipv4Address) : Prop := a.b0 ||| a.b1 ||| a.b2 ||| a.b3 = 0

instance ipv4IsZero.decidable (a : Ipv4Address) : Decidable (ipv4IsZero a) :=
  inferInstanceAs (Decidable (_ = _))

/-- `net_configure_internal`; `flags` is at offset 22. -/
def netConfigure (s : NetState) (config : NetStackConfig) : Status × NetState :=
  if config.size < 22 then (.invalidArgument, s)
  else
    let next : NetStackConfig :=
      { size := 24
        ipv4 := if ipv4IsZero config.ipv4 then defaultIpv4Address else config.ipv4
        netmask := if ipv4IsZero config.netmask then defaultNetmask else config.netmask
        gateway := if ipv4IsZero config.gateway then defaultGateway else config.gateway
        ntpServer := if ipv4IsZero config.ntpServer then defaultNtpServer else config.ntpServer
        ntpPort := if config.ntpPort ≠ 0 then config.ntpPort else defaultNtpPort
        flags := config.flags }
    (.ok, { s with config := next, arpCache := fun _ => {} })

/-! ## Address resolution -/

def findArpEntry (s : NetState) (address : Ipv4Address) : Option Nat :=
  (List.range arpCacheSize).find? fun i => (s.arpCache i).valid ∧ (s.arpCache i).ipv4 = address

def updateArpCache (s : NetState) (address : Ipv4Address) (mac : MacAddress) : NetState :=
  if ipv4IsZero address then s
  else
    let entry :=
      match findArpEntry s address with
      | some i => i
      | none =>
        match (List.range arpCacheSize).find? fun i => !(s.arpCache i).valid with
        | some i => i
        | none => 0
    { s with arpCache := Function.update s.arpCache entry ⟨address, mac, true⟩ }

/-- `rad_net_send`. -/
def netSend (s : NetState) (device : NetDevice) (frame : List UInt8) : Status × NetState :=
  (device.send frame, { s with sent := s.sent ++ [frame] })

/-- The 60 bytes that `send_arp_packet` builds. -/
def arpPacket (own : MacAddress) (targetIp : Ipv4Address) (targetMac : Option MacAddress)
    (opcode : Nat) : List UInt8 :=
  (match targetMac with | some mac => mac.bytes | none => List.replicate 6 0xff) ++
  own.bytes ++ [0x08, 0x06] ++ be16Bytes 1 ++ be16Bytes 0x0800 ++ [6, 4] ++ be16Bytes opcode ++
  own.bytes ++ ipv4Bytes defaultIpv4Address ++
  (match targetMac with | some mac => mac.bytes | none => List.replicate 6 0) ++
  ipv4Bytes targetIp ++ List.replicate 18 0

def sendArpPacket (s : NetState) (targetIp : Ipv4Address) (targetMac : Option MacAddress)
    (opcode : Nat) : Status × NetState :=
  match s.device with
  | none => (.notFound, s)
  | some device => netSend s device (arpPacket device.mac targetIp targetMac opcode)

/-! ## Receiving -/

/-- The writes of `send_icmp_echo_reply` and the frame it sends. -/
def icmpEchoReply (own : MacAddress) (request : List UInt8) (ihl ipTotal : Nat) :
    Except Fault (List UInt8) := do
  let frame := fun _ => 0
  let sender ← readBytes request 6 6
  let frame ← writeBytes frame 0 sender
  let frame ← writeBytes frame 6 own.bytes
  let frame ← writeBytes frame 12 [0x08, 0x00]
  let packet ← readBytes request 14 ipTotal
  let frame ← writeBytes frame 14 packet
  let destination ← readBytes request 30 4
  let frame ← writeBytes frame 26 destination
  let source ← readBytes request 26 4
  let frame ← writeBytes frame 30 source
  let frame ← writeBytes frame 22 [64]
  let frame ← writeBytes frame 24 [0]
  let frame ← writeBytes frame 25 [0]
  let ipSum := ipv4Checksum (frameSlice frame 14 ihl)
  let frame ← writeBytes frame 24 (be16Bytes ipSum)
  let icmp := 14 + ihl
  let frame ← writeBytes frame icmp [0]
  let frame ← writeBytes frame (icmp + 2) [0]
  let frame ← writeBytes frame (icmp + 3) [0]
  let icmpSum := ipv4Checksum (frameSlice frame icmp (ipTotal - ihl))
  let frame ← writeBytes frame (icmp + 2) (be16Bytes icmpSum)
  return frameSlice frame 0 (14 + ipTotal)

def sendIcmpEchoReply (s : NetState) (request : List UInt8) : Except Fault (Status × NetState) :=
  if request.length < 14 + 20 + 8 then return (.invalidArgument, s)
  else do
    let versionIhl ← readByte request 14
    let ihl := versionIhl.toNat % 16 * 4
    let ipTotal ← readBe16 request 16
    if ihl < 20 ∨ request.length < 14 + ipTotal ∨ ipTotal < ihl + 8 then
      return (.invalidArgument, s)
    else
      match s.device with
      | none => return (.notFound, s)
      | some device => do
        let frame ← icmpEchoReply device.mac request ihl ipTotal
        return netSend s device frame

def parseArpFrame (s : NetState) (bytes : List UInt8) : Except Fault (Status × NetState) :=
  if bytes.length < 42 then return (.invalidArgument, s)
  else do
    let hardware ← readBe16 bytes 14
    if hardware ≠ 1 then return (.notSupported, s)
    let protocol ← readBe16 bytes 16
    if protocol ≠ 0x0800 then return (.notSupported, s)
    let hardwareLength ← readByte bytes 18
    if hardwareLength ≠ 6 then return (.notSupported, s)
    let protocolLength ← readByte bytes 19
    if protocolLength ≠ 4 then return (.notSupported, s)
    let opcode ← readBe16 bytes 20
    let senderMac ← readMac bytes 22
    let senderIp ← readIpv4 bytes 28
    let targetIp ← readIpv4 bytes 38
    let s := updateArpCache s senderIp senderMac
    if opcode = 1 ∧ targetIp = defaultIpv4Address then
      return (.ok, (sendArpPacket s senderIp (some senderMac) 2).2)
    return (.ok, s)

/-- The part of `parse_ipv4_frame` after the destination was checked. -/
def parseIpv4Payload (s : NetState) (bytes : List UInt8) (ihl ipTotal : Nat) (source : Ipv4Address) :
    Except Fault (Status × NetState) := do
  let protocol ← readByte bytes 23
  let offset := 14 + ihl
  if protocol = 17 then
    if ipTotal < ihl + 8 then return (.invalidArgument, s)
    let sourcePort ← readBe16 bytes offset
    let destinationPort ← readBe16 bytes (offset + 2)
    let udpLength ← readBe16 bytes (offset + 4)
    if udpLength < 8 ∨ ipTotal < ihl + udpLength then return (.invalidArgument, s)
    let payload ← readBytes bytes (offset + 8) (udpLength - 8)
    let (status, kernel) := dispatchUdpDatagram s.kernel ⟨source, sourcePort, destinationPort, payload⟩
    return (status, { s with kernel := kernel })
  else if protocol = 1 then
    if ipTotal < ihl + 8 then return (.invalidArgument, s)
    let type ← readByte bytes offset
    if type = 8 then sendIcmpEchoReply s bytes
    else return (.notSupported, s)
  else return (.notSupported, s)

def parseIpv4Frame (s : NetState) (bytes : List UInt8) : Except Fault (Status × NetState) :=
  if bytes.length < 34 then return (.invalidArgument, s)
  else do
    let versionIhl ← readByte bytes 14
    let ihl := versionIhl.toNat % 16 * 4
    if versionIhl.toNat / 16 ≠ 4 ∨ ihl < 20 ∨ bytes.length < 14 + ihl then
      return (.invalidArgument, s)
    let ipTotal ← readBe16 bytes 16
    if ipTotal < ihl ∨ bytes.length < 14 + ipTotal then return (.invalidArgument, s)
    let header ← readBytes bytes 14 ihl
    if ipv4Checksum header ≠ 0 then return (.invalidArgument, s)
    let sourceMac ← readMac bytes 6
    let source ← readIpv4 bytes 26
    let destination ← readIpv4 bytes 30
    let s := updateArpCache s source sourceMac
    if destination ≠ defaultIpv4Address ∧ destination ≠ ⟨255, 255, 255, 255⟩ then
      return (.notSupported, s)
    parseIpv4Payload s bytes ihl ipTotal source

def parseEthernetFrame (s : NetState) (bytes : List UInt8) : Except Fault (Status × NetState) :=
  if bytes.length < 14 then return (.invalidArgument, s)
  else do
    let ethertype ← readBe16 bytes 12
    if ethertype = 0x0806 then parseArpFrame s bytes
    else if ethertype = 0x0800 then parseIpv4Frame s bytes
    else return (.notSupported, s)

/-! ## Sending datagrams -/

/-- The writes of `send_udp_frame` and the frame it sends. -/
def udpFrame (nextHop own : MacAddress) (source destination : Ipv4Address)
    (sourcePort destinationPort packetId : Nat) (payload : List UInt8) :
    Except Fault (List UInt8) := do
  let frame := fun _ => 0
  let frame ← writeBytes frame 0 nextHop.bytes
  let frame ← writeBytes frame 6 own.bytes
  let frame ← writeBytes frame 12 [0x08]
  let frame ← writeBytes frame 13 [0x00]
  let ipTotal := (20 + 8 + payload.length) % 65536
  let frame ← writeBytes frame 14 [0x45]
  let frame ← writeBytes frame 18 (be16Bytes packetId)
  let frame ← writeBytes frame 20 (be16Bytes 0x4000)
  let frame ← writeBytes frame 16 (be16Bytes ipTotal)
  let frame ← writeBytes frame 22 [64]
  let frame ← writeBytes frame 23 [17]
  let frame ← writeBytes frame 26 (ipv4Bytes source)
  let frame ← writeBytes frame 30 (ipv4Bytes destination)
  let sum := ipv4Checksum (frameSlice frame 14 20)
  let frame ← writeBytes frame 24 (be16Bytes sum)
  let udpLength := (8 + payload.length) % 65536
  let frame ← writeBytes frame 34 (be16Bytes sourcePort)
  let frame ← writeBytes frame 36 (be16Bytes destinationPort)
  let frame ← writeBytes frame 38 (be16Bytes udpLength)
  let frame ← writeBytes frame 42 payload
  return frameSlice frame 0 (14 + ipTotal)

/-- `poll_network_for_udp`; `frames` is what the card received. -/
def pollNetworkForUdp (s : NetState) (frames : List (List UInt8)) : Except Fault NetState :=
  match s.device with
  | none => return s
  | some _ => (frames.take 16).foldlM (fun s frame => do return (← parseEthernetFrame s frame).2) s

def ipv4SameSubnet (a b mask : Ipv4Address) : Prop :=
  a.b0 &&& mask.b0 = b.b0 &&& mask.b0 ∧ a.b1 &&& mask.b1 = b.b1 &&& mask.b1 ∧
    a.b2 &&& mask.b2 = b.b2 &&& mask.b2 ∧ a.b3 &&& mask.b3 = b.b3 &&& mask.b3

instance ipv4SameSubnet.decidable (a b mask : Ipv4Address) : Decidable (ipv4SameSubnet a b mask) :=
  inferInstanceAs (Decidable (_ ∧ _ ∧ _ ∧ _))

/-- The rounds of `send_udp_frame` that wait for an answer; each receives a frame or none. -/
def awaitArpEntry (s : NetState) (nextHop : Ipv4Address) :
    List (Option (List UInt8)) → Except Fault NetState
  | [] => return s
  | received :: rest => do
    let s ←
      match received with
      | none => pure s
      | some frame => do return (← parseEthernetFrame s frame).2
    if (findArpEntry s nextHop).isSome then return s
    else awaitArpEntry s nextHop rest

/-- `send_udp_frame`. `received` is what comes in while it waits for the hardware address of the
next hop, and `packetId` what `next_ipv4_id` returns. -/
def sendUdpFrame (s : NetState) (socket : SocketRecord) (destination : SockAddr)
    (payload : List UInt8) (packetId : Nat) (received : List (Option (List UInt8))) :
    Except Fault (Status × NetState) :=
  if 1400 < payload.length then return (.invalidArgument, s)
  else
    match s.device with
    | none => return (.notFound, s)
    | some device => do
      let config := activeNetConfig s
      let source := if socket.localAddress.b0 ≠ 0 then socket.localAddress else config.ipv4
      let nextHop :=
        if ipv4SameSubnet source destination.address config.netmask then destination.address
        else config.gateway
      let s ←
        match findArpEntry s nextHop with
        | some _ => pure s
        | none => awaitArpEntry (sendArpPacket s nextHop none 1).2 nextHop (received.take 20)
      let mac :=
        match findArpEntry s nextHop with
        | some i => (s.arpCache i).mac
        | none => ⟨0xff, 0xff, 0xff, 0xff, 0xff, 0xff⟩
      let frame ← udpFrame mac device.mac source destination.address socket.localPort
        destination.port packetId payload
      return netSend s device frame

end RadKernel.Ethernet
