import RadKernel.Ethernet.RoundTrip
import RadKernel.Net.Connect

/-!
# The configured address

`rad_net_configure` sets the address of this host. Datagrams and requests for the hardware address
are compared with the default address, whatever is configured.
-/

namespace RadKernel.Ethernet

open Kernel Fd Net

variable {s t : NetState} {bytes : List UInt8} {i : Nat}

/-! ## Configuration -/

def configuredAddress (config : NetStackConfig) : Ipv4Address :=
  if ipv4IsZero config.ipv4 then defaultIpv4Address else config.ipv4

theorem activeNetConfig_configured {config : NetStackConfig}
    (haccepted : (netConfigure s config).1 = .ok)
    (hconfig : t.config = (netConfigure s config).2.config) :
    (activeNetConfig t).ipv4 = configuredAddress config := by
  by_cases hshort : config.size < 22
  · rw [netConfigure, if_pos hshort] at haccepted
    cases haccepted
  · rw [netConfigure, if_neg hshort] at hconfig
    rw [activeNetConfig, hconfig]
    rfl

/-! ## Datagrams -/

/-- A datagram socket bound to the port, with a free place in its queue. -/
structure Awaits (k : KernelState) (i port : Nat) : Prop where
  index : i < maxUdpSockets
  used : (k.sockets i).used = true
  type : (k.sockets i).type = sockDgram
  localPort : (k.sockets i).localPort = port
  bound : port ≠ 0
  place : freeDatagram (k.sockets i) ≠ none

def queued (f : Frame) : UdpDatagram := ⟨⟨afInet, f.sourcePort, f.source⟩, f.payload, true⟩

/-- The datagram of the frame is put into the first free place of the socket's queue. -/
def Delivered (s : NetState) (bytes : List UInt8) (i : Nat) : Prop :=
  ∃ t place, parseEthernetFrame s bytes = .ok (.ok, t) ∧
    freeDatagram (s.kernel.sockets i) = some place ∧
    (t.kernel.sockets i).datagrams place = queued (datagramOf bytes)

/-- A datagram whose sender is not in its place was not delivered there. -/
theorem not_delivered_of_kernel (h : ∀ status t, parseEthernetFrame s bytes = .ok (status, t) →
      t.kernel.sockets i = s.kernel.sockets i) : ¬ Delivered s bytes i := by
  rintro ⟨t, place, hparse, hplace, hqueued⟩
  obtain ⟨hfree, -⟩ := List.find?_range_eq_some.1 hplace
  rw [h _ _ hparse] at hqueued
  rw [hqueued] at hfree
  cases hfree

variable {k : KernelState} {f : Frame}

theorem dispatchUdpDatagram_other (h : findSocket k sockDgram f.destinationPort ≠ some i) :
    (dispatchUdpDatagram k f).2.sockets i = k.sockets i := by
  unfold dispatchUdpDatagram deliver
  cases hfind : findSocket k sockDgram f.destinationPort with
  | none => rfl
  | some j =>
    have hij : i ≠ j := by
      rintro rfl
      exact h hfind
    simp [setSocket, hij]

theorem dispatchUdpDatagram_found (h : findSocket k sockDgram f.destinationPort = some i) :
    dispatchUdpDatagram k f =
      ((enqueueUdpDatagram (k.sockets i) ⟨afInet, f.sourcePort, f.source⟩ f.payload).1,
        setSocket k i
          (enqueueUdpDatagram (k.sockets i) ⟨afInet, f.sourcePort, f.source⟩ f.payload).2) := by
  rw [dispatchUdpDatagram, deliver, h]

/-- Which datagrams reach a socket that waits for them. -/
theorem delivered_iff (hudp : UdpPacket bytes)
    (hawaits : Awaits s.kernel i (datagramOf bytes).destinationPort) :
    Delivered s bytes i ↔
      Addressed bytes ∧
      findSocket s.kernel sockDgram (datagramOf bytes).destinationPort = some i ∧
      (datagramOf bytes).payload.length ≤ udpPayloadBytes := by
  by_cases haddressed : Addressed bytes
  case neg =>
    refine iff_of_false (not_delivered_of_kernel fun status t hparse => ?_) fun h => haddressed h.1
    rw [parseEthernetFrame_notAddressed hudp.toIpv4Packet haddressed] at hparse
    cases hparse
    rw [updateArpCache_kernel]
  have hparse := @parseEthernetFrame_udp s bytes hudp haddressed
  rw [dispatchFrame, updateArpCache_kernel] at hparse
  by_cases hfind : findSocket s.kernel sockDgram (datagramOf bytes).destinationPort = some i
  case neg =>
    refine iff_of_false (not_delivered_of_kernel fun status t ht => ?_) fun h => hfind h.2.1
    rw [hparse] at ht
    cases ht
    exact dispatchUdpDatagram_other hfind
  rw [dispatchUdpDatagram_found hfind] at hparse
  by_cases hsize : (datagramOf bytes).payload.length ≤ udpPayloadBytes
  · refine iff_of_true ?_ ⟨haddressed, hfind, hsize⟩
    obtain ⟨place, hplace⟩ := Option.ne_none_iff_exists'.1 hawaits.place
    rw [enqueueUdpDatagram, if_neg (by omega), hplace] at hparse
    refine ⟨_, place, hparse, hplace, ?_⟩
    simp [setSocket, queued]
  · refine iff_of_false (not_delivered_of_kernel fun status t ht => ?_) fun h => hsize h.2.2
    rw [hparse, enqueueUdpDatagram, if_pos (by omega)] at ht
    cases ht
    simp [setSocket]

/-! ## Requests for the hardware address -/

/-- The request is answered, in the name of the address. -/
def Answered (s : NetState) (bytes : List UInt8) (own : Ipv4Address) : Prop :=
  ∃ t reply, parseEthernetFrame s bytes = .ok (.ok, t) ∧ t.sent = s.sent ++ [reply] ∧
    be16At reply 12 = 0x0806 ∧ be16At reply 20 = 2 ∧ ipv4At reply 28 = own ∧
    ipv4At reply 38 = ipv4At bytes 28

@[simp] theorem updateArpCache_sent (address : Ipv4Address) (mac : MacAddress) :
    (updateArpCache s address mac).sent = s.sent := by
  unfold updateArpCache
  split_ifs <;> rfl

section Reply

variable (own mac : MacAddress) (targetIp : Ipv4Address)

theorem arpPacket_ethertype : be16At (arpPacket own targetIp (some mac) 2) 12 = 0x0806 := by
  simp [be16At, byteAt, arpPacket, MacAddress.bytes, be16]

theorem arpPacket_opcode : be16At (arpPacket own targetIp (some mac) 2) 20 = 2 := by
  simp [be16At, byteAt, arpPacket, MacAddress.bytes, be16Bytes, be16]

theorem arpPacket_sender :
    ipv4At (arpPacket own targetIp (some mac) 2) 28 = defaultIpv4Address := by
  simp [ipv4At, byteAt, arpPacket, MacAddress.bytes, be16Bytes, ipv4Bytes]

theorem arpPacket_target : ipv4At (arpPacket own targetIp (some mac) 2) 38 = targetIp := by
  simp [ipv4At, byteAt, arpPacket, MacAddress.bytes, be16Bytes, ipv4Bytes]

end Reply

/-- Requests are answered for the default address and in its name. -/
theorem answered_iff (harp : ArpRequest bytes) {own : Ipv4Address}
    (htarget : ipv4At bytes 38 = own) :
    Answered s bytes own ↔ s.device ≠ none ∧ own = defaultIpv4Address := by
  have hparse := @parseEthernetFrame_arpRequest s bytes harp
  rw [htarget] at hparse
  by_cases hown : own = defaultIpv4Address
  case neg =>
    refine iff_of_false ?_ fun h => hown h.2
    rintro ⟨t, reply, ht, hsent, -⟩
    rw [hparse, if_neg hown] at ht
    cases ht
    simp at hsent
  rw [if_pos hown] at hparse
  cases hdevice : s.device with
  | none =>
    refine iff_of_false ?_ fun h => h.1 rfl
    rintro ⟨t, reply, ht, hsent, -⟩
    rw [hparse, sendArpPacket, updateArpCache_device, hdevice] at ht
    cases ht
    simp at hsent
  | some device =>
    refine iff_of_true ?_ ⟨by simp, hown⟩
    rw [sendArpPacket, updateArpCache_device, hdevice] at hparse
    refine ⟨_, arpPacket device.mac (ipv4At bytes 28) (some (macAt bytes 22)) 2, hparse, ?_,
      arpPacket_ethertype _ _ _, arpPacket_opcode _ _ _, ?_, arpPacket_target _ _ _⟩
    · simp [netSend]
    · rw [hown, arpPacket_sender]

/-! ## The configured address -/

/-- While a configuration that was accepted is in force, which datagrams to its address reach a
socket that waits for them, and which requests for it are answered. The address has to be the
one that the code compares with. -/
theorem followsConfiguration_iff (s t : NetState) (config : NetStackConfig)
    (haccepted : (netConfigure s config).1 = .ok)
    (hconfig : t.config = (netConfigure s config).2.config) :
    (∀ bytes i, UdpPacket bytes → ipv4At bytes 30 = (activeNetConfig t).ipv4 →
      Awaits t.kernel i (datagramOf bytes).destinationPort →
      (Delivered t bytes i ↔
        (configuredAddress config = defaultIpv4Address ∨
          configuredAddress config = ⟨255, 255, 255, 255⟩) ∧
        findSocket t.kernel sockDgram (datagramOf bytes).destinationPort = some i ∧
        (datagramOf bytes).payload.length ≤ udpPayloadBytes)) ∧
    (∀ bytes, ArpRequest bytes → ipv4At bytes 38 = (activeNetConfig t).ipv4 →
      (Answered t bytes (activeNetConfig t).ipv4 ↔
        t.device ≠ none ∧ configuredAddress config = defaultIpv4Address)) := by
  have hactive := activeNetConfig_configured haccepted hconfig
  rw [hactive]
  refine ⟨fun bytes i hudp hdestination hawaits => ?_, fun bytes harp htarget => ?_⟩
  · rw [delivered_iff hudp hawaits, Addressed, hdestination]
  · exact answered_iff harp htarget

/-! ## A host on an emulated network -/

/-- A host with a card, whose socket 0 is bound to port 7. -/
def echoHost (config : NetStackConfig) : NetState where
  kernel := { sockets := fun i => if i = 0 then
    { used := true, type := sockDgram, localPort := 7 } else {} }
  config := (netConfigure {} config).2.config
  device := some {}

theorem awaits_echoHost (config : NetStackConfig) : Awaits (echoHost config).kernel 0 7 where
  index := by decide
  used := rfl
  type := rfl
  localPort := rfl
  bound := by decide
  place := by
    rw [show freeDatagram ((echoHost config).kernel.sockets 0) = some 0 from rfl]
    simp

/-- A byte from port 1024 of 10.0.2.2 to port 7. -/
def echoDatagram (destination : Ipv4Address) : List UInt8 :=
  udpFrameBytes {} {} ⟨10, 0, 2, 2⟩ destination 1024 7 1 [65]

theorem udpPacket_echoDatagram (destination : Ipv4Address) : UdpPacket (echoDatagram destination) :=
  (carries_udpFrameBytes (by decide) (by decide) (by decide)).packet

theorem datagramOf_echoDatagram (destination : Ipv4Address) :
    datagramOf (echoDatagram destination) = ⟨⟨10, 0, 2, 2⟩, 1024, 7, [65]⟩ :=
  (carries_udpFrameBytes (by decide) (by decide) (by decide)).datagram

/-- The default address is followed. -/
theorem followsConfiguration_initial :
    (Delivered (echoHost initialNetConfig) (echoDatagram defaultIpv4Address) 0 ↔
      (configuredAddress initialNetConfig = defaultIpv4Address ∨
        configuredAddress initialNetConfig = ⟨255, 255, 255, 255⟩) ∧
      findSocket (echoHost initialNetConfig).kernel sockDgram 7 = some 0 ∧ 1 ≤ udpPayloadBytes) ∧
    (Answered (echoHost initialNetConfig) (arpPacket {} defaultIpv4Address none 1)
        (activeNetConfig (echoHost initialNetConfig)).ipv4 ↔
      (echoHost initialNetConfig).device ≠ none ∧
        configuredAddress initialNetConfig = defaultIpv4Address) := by
  have hfollows := followsConfiguration_iff {} (echoHost initialNetConfig) initialNetConfig
    (by decide) rfl
  refine ⟨?_, hfollows.2 _ (by constructor <;> decide) (by decide)⟩
  have hdelivered := hfollows.1 (echoDatagram defaultIpv4Address) 0 (udpPacket_echoDatagram _)
    (by decide) (by
      rw [datagramOf_echoDatagram]
      exact awaits_echoHost _)
  rw [datagramOf_echoDatagram] at hdelivered
  exact hdelivered

/-- With another address configured, a datagram to it is dropped. -/
theorem not_followsConfiguration_other :
    ¬ ∀ (s t : NetState) (config : NetStackConfig), (netConfigure s config).1 = .ok →
      t.config = (netConfigure s config).2.config →
      (∀ bytes i, UdpPacket bytes → ipv4At bytes 30 = (activeNetConfig t).ipv4 →
        Awaits t.kernel i (datagramOf bytes).destinationPort → Delivered t bytes i) ∧
      (∀ bytes, ArpRequest bytes → ipv4At bytes 38 = (activeNetConfig t).ipv4 →
        t.device ≠ none → Answered t bytes (activeNetConfig t).ipv4) := by
  intro h
  have hdelivered := (h {} (echoHost { initialNetConfig with ipv4 := ⟨10, 0, 2, 16⟩ })
    { initialNetConfig with ipv4 := ⟨10, 0, 2, 16⟩ } (by decide) rfl).1
    (echoDatagram ⟨10, 0, 2, 16⟩) 0 (udpPacket_echoDatagram _) (by decide) (by
      rw [datagramOf_echoDatagram]
      exact awaits_echoHost _)
  refine not_delivered_of_kernel (fun status t hparse => ?_) hdelivered
  rw [parseEthernetFrame_notAddressed (udpPacket_echoDatagram _).toIpv4Packet (by decide)] at hparse
  cases hparse
  rw [updateArpCache_kernel]

end RadKernel.Ethernet
