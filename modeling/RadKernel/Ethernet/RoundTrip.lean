import RadKernel.Ethernet.Receive

/-!
# Datagrams sent and received

The frame that `send_udp_frame` builds, field by field, and what `parse_ethernet_frame` does with
it. The two halves meet at `udpFrameBytes`: the sender writes these bytes, and the receiver finds
its fields in them.
-/

namespace RadKernel.Ethernet

open Kernel Fd Net

variable {nextHop own : MacAddress} {source destination : Ipv4Address}
  {sourcePort destinationPort packetId total sum n : Nat} {payload : List UInt8}

/-! ## The bytes of a frame -/

def ipv4HeaderBytes (source destination : Ipv4Address) (total packetId sum : Nat) : List UInt8 :=
  [0x45, 0] ++ be16Bytes total ++ be16Bytes packetId ++ be16Bytes 0x4000 ++ [64, 17] ++
  be16Bytes sum ++ ipv4Bytes source ++ ipv4Bytes destination

def udpHeaderBytes (sourcePort destinationPort length : Nat) : List UInt8 :=
  be16Bytes sourcePort ++ be16Bytes destinationPort ++ be16Bytes length ++ [0, 0]

def summedHeaderBytes (source destination : Ipv4Address) (total packetId : Nat) : List UInt8 :=
  ipv4HeaderBytes source destination total packetId
    (ipv4Checksum (ipv4HeaderBytes source destination total packetId 0))

def udpFrameBytes (nextHop own : MacAddress) (source destination : Ipv4Address)
    (sourcePort destinationPort packetId : Nat) (payload : List UInt8) : List UInt8 :=
  nextHop.bytes ++ own.bytes ++ [0x08, 0x00] ++
  summedHeaderBytes source destination (28 + payload.length) packetId ++
  udpHeaderBytes sourcePort destinationPort (8 + payload.length) ++ payload

/-! ## The sender -/

theorem writeBytes_bind {α : Type} {frame : Nat → UInt8} {offset : Nat} {data : List UInt8}
    {rest : (Nat → UInt8) → Except Fault α} (h : offset + data.length ≤ 1514) :
    (writeBytes frame offset data >>= rest) = rest (Buffer.store frame offset data) := by
  have hfits : offset + data.length ≤ frameBytes := h
  rw [writeBytes, if_pos hfits]
  rfl

theorem frameSlice_zero_add (frame : Nat → UInt8) (m n : Nat) :
    frameSlice frame 0 (m + n) = frameSlice frame 0 m ++ frameSlice frame m n := by
  simp [frameSlice, List.range_add]

theorem frameSlice_store (frame : Nat → UInt8) (offset : Nat) (data : List UInt8) :
    frameSlice (Buffer.store frame offset data) offset data.length = data := by
  refine List.ext_getElem (by simp [frameSlice]) fun k hk hk' => ?_
  simp [frameSlice, Buffer.store, hk']

@[simp] theorem length_ipv4Bytes (a : Ipv4Address) : (ipv4Bytes a).length = 4 := rfl

theorem udpFrame_eq (hsize : payload.length ≤ 1400) :
    udpFrame nextHop own source destination sourcePort destinationPort packetId payload =
      .ok (udpFrameBytes nextHop own source destination sourcePort destinationPort packetId
        payload) := by
  have htotal : (20 + 8 + payload.length) % 65536 = 28 + payload.length := by omega
  have hlength : (8 + payload.length) % 65536 = 8 + payload.length := by omega
  have hpayload : 42 + payload.length ≤ 1514 := by omega
  have hframe : 14 + (28 + payload.length) = 42 + payload.length := by omega
  unfold udpFrame
  simp only [htotal, hlength, hframe]
  -- the two headers, in the order they are written
  rw [writeBytes_bind (by simp), writeBytes_bind (by simp), writeBytes_bind (by simp),
    writeBytes_bind (by simp), writeBytes_bind (by simp), writeBytes_bind (by simp),
    writeBytes_bind (by simp), writeBytes_bind (by simp), writeBytes_bind (by simp),
    writeBytes_bind (by simp), writeBytes_bind (by simp), writeBytes_bind (by simp)]
  rw [writeBytes_bind (by simp), writeBytes_bind (by simp), writeBytes_bind (by simp),
    writeBytes_bind (by simp), writeBytes_bind hpayload]
  rw [frameSlice_zero_add, frameSlice_store]
  rfl

/-! ## The receiver -/

theorem be16_be16Bytes (hn : n < 65536) : be16 (n / 256).toUInt8 n.toUInt8 = n := by
  simp only [be16, Nat.toUInt8, UInt8.toNat_ofNat']
  omega

theorem ipv4Checksum_le (data : List UInt8) : ipv4Checksum data ≤ 65535 :=
  OnesComplement.checksum_le _

/-- A checksum adds itself to the sum of the header it is written into. -/
theorem wordSum_ipv4HeaderBytes (hsum : sum < 65536) :
    OnesComplement.wordSum (ipv4HeaderBytes source destination total packetId sum) =
      OnesComplement.wordSum (ipv4HeaderBytes source destination total packetId 0) + sum := by
  have hfield := be16_be16Bytes hsum
  unfold be16 at hfield
  simp only [ipv4HeaderBytes, be16Bytes, ipv4Bytes, List.cons_append, List.nil_append,
    OnesComplement.wordSum, Nat.zero_div]
  have hzero : 256 * (Nat.toUInt8 0).toNat + (Nat.toUInt8 0).toNat = 0 := rfl
  omega

theorem wordSum_ipv4HeaderBytes_lt :
    OnesComplement.wordSum (ipv4HeaderBytes source destination total packetId sum) < 655360 := by
  have hbyte : ∀ b : UInt8, b.toNat < 256 := UInt8.toNat_lt
  simp only [ipv4HeaderBytes, be16Bytes, ipv4Bytes, List.cons_append, List.nil_append,
    OnesComplement.wordSum]
  grind

/-- The header verifies itself, whatever its fields are. -/
theorem ipv4Checksum_header :
    ipv4Checksum (summedHeaderBytes source destination total packetId) = 0 := by
  have hle := ipv4Checksum_le (ipv4HeaderBytes source destination total packetId 0)
  have hlt := @wordSum_ipv4HeaderBytes_lt source destination packetId total 0
  have hsmall : OnesComplement.wordSum (ipv4HeaderBytes source destination total packetId 0) %
      2 ^ 32 = OnesComplement.wordSum (ipv4HeaderBytes source destination total packetId 0) :=
    Nat.mod_eq_of_lt (by omega)
  rw [summedHeaderBytes, ipv4Checksum, wordSum_ipv4HeaderBytes (by omega)]
  rw [ipv4Checksum, hsmall] at hle ⊢
  rw [Nat.mod_eq_of_lt (by omega)]
  exact OnesComplement.checksum_add_checksum (by omega)

/-- What the receiver finds in the frame. -/
structure Carries (bytes : List UInt8) (own : MacAddress) (destination : Ipv4Address)
    (f : Frame) : Prop where
  packet : UdpPacket bytes
  sender : macAt bytes 6 = own
  source : ipv4At bytes 26 = f.source
  destination : ipv4At bytes 30 = destination
  datagram : datagramOf bytes = f

theorem header_udpFrameBytes :
    ((udpFrameBytes nextHop own source destination sourcePort destinationPort packetId
      payload).drop 14).take 20 =
      summedHeaderBytes source destination (28 + payload.length) packetId := rfl

theorem carries_udpFrameBytes (hsource : sourcePort < 65536)
    (hdestination : destinationPort < 65536) (hsize : payload.length ≤ 1400) :
    Carries (udpFrameBytes nextHop own source destination sourcePort destinationPort packetId payload)
      own destination ⟨source, sourcePort, destinationPort, payload⟩ := by
  set bytes := udpFrameBytes nextHop own source destination sourcePort destinationPort packetId
    payload with hbytes
  have hversion : byteAt bytes 14 = 0x45 := rfl
  have hihl : ihlOf bytes = 20 := by
    rw [ihlOf, hversion]
    rfl
  have htotal : totalOf bytes = 28 + payload.length := be16_be16Bytes (by omega)
  have hudpLength : udpLengthOf bytes = 8 + payload.length := by
    rw [udpLengthOf, hihl]
    exact be16_be16Bytes (by omega)
  have hlength : bytes.length = 42 + payload.length := by
    rw [hbytes, udpFrameBytes, List.length_append]
    rfl
  refine ⟨?packet, rfl, rfl, rfl, ?datagram⟩
  case packet =>
    refine ⟨⟨rfl, ?_, by omega, by omega, by omega, ?_⟩, rfl, by omega, by omega⟩
    · rw [hversion]
      rfl
    · rw [hihl, header_udpFrameBytes]
      exact ipv4Checksum_header
  case datagram =>
    have hsourcePort : be16At bytes 34 = sourcePort := be16_be16Bytes hsource
    have hdestinationPort : be16At bytes 36 = destinationPort := be16_be16Bytes hdestination
    have hpayload : (bytes.drop 42).take (8 + payload.length - 8) = payload := by
      rw [Nat.add_sub_cancel_left]
      exact List.take_length
    simp only [datagramOf, hihl, hudpLength, hsourcePort, hdestinationPort, hpayload]
    rfl

/-! ## Round trip -/

variable {s t : NetState} {device : NetDevice} {socket : SocketRecord} {dest : SockAddr}
  {received : List (Option (List UInt8))}

theorem ok_of_bind {α β : Type} {x : Except Fault α} {f : α → Except Fault β} {b : β}
    (h : x >>= f = .ok b) : ∃ a, x = .ok a ∧ f a = .ok b := by
  cases x with
  | error fault => cases h
  | ok a => exact ⟨a, rfl, h⟩

/-- The address that `send_udp_frame` sends from. -/
def sourceOf (s : NetState) (socket : SocketRecord) : Ipv4Address :=
  if socket.localAddress.b0 ≠ 0 then socket.localAddress else (activeNetConfig s).ipv4

theorem sendUdpFrame_sent (hdevice : s.device = some device)
    (h : sendUdpFrame s socket dest payload packetId received = .ok (.ok, t)) :
    payload.length ≤ 1400 ∧ ∃ nextHop frame before, t.sent = before ++ [frame] ∧
      udpFrame nextHop device.mac (sourceOf s socket) dest.address socket.localPort dest.port
        packetId payload = .ok frame := by
  by_cases hlong : 1400 < payload.length
  · rw [sendUdpFrame, if_pos hlong] at h
    cases h
  rw [sendUdpFrame, if_neg hlong, hdevice] at h
  dsimp only at h
  rw [← sourceOf] at h
  split at h
  all_goals
    obtain ⟨s', -, h⟩ := ok_of_bind h
    obtain ⟨frame, hframe, h⟩ := ok_of_bind h
    have hsent := congrArg (·.2.sent) (Except.ok.inj h)
    exact ⟨Nat.not_lt.1 hlong, _, frame, s'.sent, hsent.symm, hframe⟩

/-- Whatever comes in while `send_udp_frame` waits for the hardware address, the last frame that it
sends brings this host the datagram. -/
theorem sendUdpFrame_delivers (hdevice : s.device = some device)
    (haddress : dest.address = defaultIpv4Address) (hsource : socket.localPort < 65536)
    (hport : dest.port < 65536)
    (h : sendUdpFrame s socket dest payload packetId received = .ok (.ok, t))
    (receiver : NetState) : ∃ frame, t.sent.getLast? = some frame ∧
      parseEthernetFrame receiver frame =
        .ok (dispatchFrame (updateArpCache receiver (sourceOf s socket) device.mac)
          ⟨sourceOf s socket, socket.localPort, dest.port, payload⟩) := by
  obtain ⟨hsize, nextHop, frame, before, hsent, hframe⟩ := sendUdpFrame_sent hdevice h
  have hcarries := @carries_udpFrameBytes nextHop device.mac (sourceOf s socket)
    defaultIpv4Address socket.localPort dest.port packetId payload hsource hport hsize
  rw [haddress, udpFrame_eq hsize] at hframe
  cases hframe
  refine ⟨_, by rw [hsent, List.getLast?_concat], ?_⟩
  rw [parseEthernetFrame_udp hcarries.packet (.inl hcarries.destination), hcarries.source,
    hcarries.sender, hcarries.datagram]

theorem sendUdpFrame_delivers_alone : ∃ t, sendUdpFrame { device := some {} } {}
      ⟨afInet, 7, defaultIpv4Address⟩ [65] 1 [] = .ok (.ok, t) ∧
    ∃ frame, t.sent.getLast? = some frame ∧ parseEthernetFrame {} frame =
      .ok (dispatchFrame (updateArpCache {} (sourceOf { device := some {} } {}) {})
        ⟨sourceOf { device := some {} } {}, 0, 7, [65]⟩) :=
  ⟨_, rfl, @sendUdpFrame_delivers 1 [65] { device := some {} } _ {} {}
    ⟨afInet, 7, defaultIpv4Address⟩ [] rfl rfl (by decide) (by decide) rfl {}⟩

end RadKernel.Ethernet
