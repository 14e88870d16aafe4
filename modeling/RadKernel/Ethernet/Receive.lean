import RadKernel.Ethernet.Bounds

/-!
# Frames received

What `parse_ethernet_frame` does with a frame: a datagram to this host is dispatched, a request
for its hardware address is answered, and nothing else reaches the sockets.
-/

namespace RadKernel.Ethernet

open Kernel Fd Net

variable {s t : NetState} {bytes : List UInt8} {status : Status}

/-! ## Datagrams -/

def udpLengthOf (bytes : List UInt8) : Nat := be16At bytes (14 + ihlOf bytes + 4)

/-- A well-formed datagram in a well-formed packet. -/
structure UdpPacket (bytes : List UInt8) : Prop extends Ipv4Packet bytes where
  protocol : byteAt bytes 23 = 17
  header : 8 ≤ udpLengthOf bytes
  udp : ihlOf bytes + udpLengthOf bytes ≤ totalOf bytes

instance (bytes : List UInt8) : Decidable (Ipv4Packet bytes) :=
  decidable_of_iff
    (be16At bytes 12 = 0x0800 ∧ (byteAt bytes 14).toNat / 16 = 4 ∧ 20 ≤ ihlOf bytes ∧
      ihlOf bytes ≤ totalOf bytes ∧ 14 + totalOf bytes ≤ bytes.length ∧
      ipv4Checksum ((bytes.drop 14).take (ihlOf bytes)) = 0)
    ⟨fun ⟨h₁, h₂, h₃, h₄, h₅, h₆⟩ => ⟨h₁, h₂, h₃, h₄, h₅, h₆⟩,
      fun ⟨h₁, h₂, h₃, h₄, h₅, h₆⟩ => ⟨h₁, h₂, h₃, h₄, h₅, h₆⟩⟩

instance (bytes : List UInt8) : Decidable (UdpPacket bytes) :=
  decidable_of_iff
    (Ipv4Packet bytes ∧ byteAt bytes 23 = 17 ∧ 8 ≤ udpLengthOf bytes ∧
      ihlOf bytes + udpLengthOf bytes ≤ totalOf bytes)
    ⟨fun ⟨h₁, h₂, h₃, h₄⟩ => ⟨h₁, h₂, h₃, h₄⟩, fun ⟨h₁, h₂, h₃, h₄⟩ => ⟨h₁, h₂, h₃, h₄⟩⟩

instance (bytes : List UInt8) : Decidable (Addressed bytes) :=
  inferInstanceAs (Decidable (_ ∨ _))

def datagramOf (bytes : List UInt8) : Frame where
  source := ipv4At bytes 26
  sourcePort := be16At bytes (14 + ihlOf bytes)
  destinationPort := be16At bytes (14 + ihlOf bytes + 2)
  payload := (bytes.drop (14 + ihlOf bytes + 8)).take (udpLengthOf bytes - 8)

/-- `dispatch_udp_datagram`, in the state of the network. -/
def dispatchFrame (s : NetState) (f : Frame) : Status × NetState :=
  ((dispatchUdpDatagram s.kernel f).1, { s with kernel := (dispatchUdpDatagram s.kernel f).2 })

theorem parseIpv4Payload_udp (h : UdpPacket bytes) :
    parseIpv4Payload s bytes (ihlOf bytes) (totalOf bytes) (ipv4At bytes 26) =
      .ok (dispatchFrame s (datagramOf bytes)) := by
  have hihl := h.ihl
  have hlength := h.length
  have hheader := h.header
  have hudp := h.udp
  have hshort : ¬ totalOf bytes < ihlOf bytes + 8 := by omega
  have hlengths : ¬ (udpLengthOf bytes < 8 ∨ totalOf bytes < ihlOf bytes + udpLengthOf bytes) := by
    omega
  have hpayload := readBytes_ok
    (show 14 + ihlOf bytes + 8 + (udpLengthOf bytes - 8) ≤ bytes.length by omega)
  rw [udpLengthOf] at hlengths hpayload
  simp (disch := omega) only [parseIpv4Payload, readByte_ok, readBe16_ok, bind, Except.bind,
    if_pos h.protocol, if_neg hshort, if_neg hlengths, hpayload]
  rfl

/-- The frame of an IPv4 packet goes to `parse_ipv4_frame`. -/
theorem parseEthernetFrame_ipv4 (h : be16At bytes 12 = 0x0800) (hlong : 14 ≤ bytes.length) :
    parseEthernetFrame s bytes = parseIpv4Frame s bytes := by
  have harp : ¬ be16At bytes 12 = 0x0806 := by omega
  simp (disch := omega) only [parseEthernetFrame, if_neg (Nat.not_lt.2 hlong), readBe16_ok, bind,
    Except.bind, if_neg harp, if_pos h]

theorem Ipv4Packet.long (h : Ipv4Packet bytes) : 34 ≤ bytes.length := by
  have := h.ihl
  have := h.total
  have := h.length
  omega

theorem parseEthernetFrame_udp (h : UdpPacket bytes) (haddressed : Addressed bytes) :
    parseEthernetFrame s bytes =
      .ok (dispatchFrame (updateArpCache s (ipv4At bytes 26) (macAt bytes 6))
        (datagramOf bytes)) := by
  have hlong := h.toIpv4Packet.long
  rw [parseEthernetFrame_ipv4 h.ethertype (by omega), parseIpv4Frame_packet h.toIpv4Packet,
    if_neg (by rw [Addressed] at haddressed; tauto), parseIpv4Payload_udp h]

/-- A datagram to another host is dropped. -/
theorem parseEthernetFrame_notAddressed (h : Ipv4Packet bytes) (haddressed : ¬ Addressed bytes) :
    parseEthernetFrame s bytes =
      .ok (.notSupported, updateArpCache s (ipv4At bytes 26) (macAt bytes 6)) := by
  have hlong := h.long
  rw [parseEthernetFrame_ipv4 h.ethertype (by omega), parseIpv4Frame_packet h,
    if_pos (by rw [Addressed] at haddressed; tauto)]

/-! ## Requests for the hardware address -/

structure ArpRequest (bytes : List UInt8) : Prop where
  length : 42 ≤ bytes.length
  ethertype : be16At bytes 12 = 0x0806
  hardware : be16At bytes 14 = 1
  protocol : be16At bytes 16 = 0x0800
  hardwareLength : byteAt bytes 18 = 6
  protocolLength : byteAt bytes 19 = 4
  opcode : be16At bytes 20 = 1

theorem parseEthernetFrame_arpRequest (h : ArpRequest bytes) :
    parseEthernetFrame s bytes =
      .ok (.ok,
        if ipv4At bytes 38 = defaultIpv4Address then
          (sendArpPacket (updateArpCache s (ipv4At bytes 28) (macAt bytes 22)) (ipv4At bytes 28)
            (some (macAt bytes 22)) 2).2
        else updateArpCache s (ipv4At bytes 28) (macAt bytes 22)) := by
  have hlength := h.length
  have hlong : ¬ bytes.length < 14 := by omega
  have hshort : ¬ bytes.length < 42 := by omega
  simp (disch := omega) only [parseEthernetFrame, parseArpFrame, if_neg hlong, if_neg hshort,
    readByte_ok, readBe16_ok, readMac_ok, readIpv4_ok, pure, Except.pure, bind, Except.bind,
    h.ethertype, h.hardware, h.protocol, h.hardwareLength, h.protocolLength, h.opcode, ne_eq,
    not_true_eq_false, if_true, if_false, true_and]
  split_ifs <;> rfl

/-! ## The sockets -/

@[simp] theorem updateArpCache_kernel (address : Ipv4Address) (mac : MacAddress) :
    (updateArpCache s address mac).kernel = s.kernel := by
  unfold updateArpCache
  split_ifs <;> rfl

@[simp] theorem sendArpPacket_kernel (targetIp : Ipv4Address) (targetMac : Option MacAddress)
    (opcode : Nat) : (sendArpPacket s targetIp targetMac opcode).2.kernel = s.kernel := by
  unfold sendArpPacket
  cases s.device <;> rfl

/-- The datagram that a frame brings to this host. -/
def received (bytes : List UInt8) : Option Frame :=
  if UdpPacket bytes ∧ Addressed bytes then some (datagramOf bytes) else none

end RadKernel.Ethernet
