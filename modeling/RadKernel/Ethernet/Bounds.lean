import RadKernel.Ethernet.Model

/-!
# Accesses to frames

Which accesses `parse_ethernet_frame` makes. Every length field is checked before bytes are read
by it, so no read is outside of the received frame. The reply to an echo request is built in a
frame of 1514 bytes, and a longer request was received into a buffer of 1536.
-/

namespace RadKernel.Ethernet

open Kernel Fd Net

variable {s : NetState} {bytes : List UInt8} {i offset count : Nat} {α : Type}

/-! ## Reads -/

/-- Byte `i` of a frame. -/
def byteAt (bytes : List UInt8) (i : Nat) : UInt8 := bytes.getD i 0

def be16At (bytes : List UInt8) (i : Nat) : Nat := be16 (byteAt bytes i) (byteAt bytes (i + 1))

def macAt (bytes : List UInt8) (i : Nat) : MacAddress :=
  ⟨byteAt bytes i, byteAt bytes (i + 1), byteAt bytes (i + 2), byteAt bytes (i + 3),
    byteAt bytes (i + 4), byteAt bytes (i + 5)⟩

def ipv4At (bytes : List UInt8) (i : Nat) : Ipv4Address :=
  ⟨byteAt bytes i, byteAt bytes (i + 1), byteAt bytes (i + 2), byteAt bytes (i + 3)⟩

theorem readByte_ok (h : i < bytes.length) : readByte bytes i = .ok (byteAt bytes i) := by
  simp [readByte, byteAt, h]

theorem readBe16_ok (h : i + 1 < bytes.length) : readBe16 bytes i = .ok (be16At bytes i) := by
  have hi : i < bytes.length := by omega
  simp [readBe16, readByte_ok, hi, h, be16At]
  rfl

theorem readMac_ok (h : i + 5 < bytes.length) : readMac bytes i = .ok (macAt bytes i) := by
  simp (disch := omega) only [readMac, readByte_ok]
  rfl

theorem readIpv4_ok (h : i + 3 < bytes.length) : readIpv4 bytes i = .ok (ipv4At bytes i) := by
  simp (disch := omega) only [readIpv4, readByte_ok]
  rfl

theorem readBytes_ok (h : offset + count ≤ bytes.length) :
    readBytes bytes offset count = .ok ((bytes.drop offset).take count) := by
  rw [readBytes, if_pos h]

/-! ## IPv4 packets -/

/-- The length of the header. -/
def ihlOf (bytes : List UInt8) : Nat := (byteAt bytes 14).toNat % 16 * 4

def totalOf (bytes : List UInt8) : Nat := be16At bytes 16

/-- The frame passes the checks of the IPv4 header. -/
structure Ipv4Packet (bytes : List UInt8) : Prop where
  ethertype : be16At bytes 12 = 0x0800
  version : (byteAt bytes 14).toNat / 16 = 4
  ihl : 20 ≤ ihlOf bytes
  total : ihlOf bytes ≤ totalOf bytes
  length : 14 + totalOf bytes ≤ bytes.length
  checksum : ipv4Checksum ((bytes.drop 14).take (ihlOf bytes)) = 0

/-- The destination is this host. -/
def Addressed (bytes : List UInt8) : Prop :=
  ipv4At bytes 30 = defaultIpv4Address ∨ ipv4At bytes 30 = ⟨255, 255, 255, 255⟩

theorem parseIpv4Frame_packet (h : Ipv4Packet bytes) :
    parseIpv4Frame s bytes =
      if ipv4At bytes 30 ≠ defaultIpv4Address ∧ ipv4At bytes 30 ≠ ⟨255, 255, 255, 255⟩ then
        .ok (.notSupported, updateArpCache s (ipv4At bytes 26) (macAt bytes 6))
      else parseIpv4Payload (updateArpCache s (ipv4At bytes 26) (macAt bytes 6)) bytes (ihlOf bytes)
        (totalOf bytes) (ipv4At bytes 26) := by
  obtain ⟨hethertype, hversion, hihl, htotal, hlength, hchecksum⟩ := h
  have hlong : ¬ bytes.length < 34 := by omega
  have hheader : ¬ ((byteAt bytes 14).toNat / 16 ≠ 4 ∨ ihlOf bytes < 20 ∨
      bytes.length < 14 + ihlOf bytes) := by omega
  have htotals : ¬ (totalOf bytes < ihlOf bytes ∨ bytes.length < 14 + totalOf bytes) := by omega
  have hsum := readBytes_ok (show 14 + ihlOf bytes ≤ bytes.length by omega)
  rw [ihlOf] at hheader htotals hsum hchecksum
  rw [totalOf] at htotals
  simp (disch := omega) only [parseIpv4Frame, if_neg hlong, readByte_ok, readBe16_ok, readMac_ok,
    readIpv4_ok, pure, Except.pure, bind, Except.bind, if_neg hheader, if_neg htotals, hsum,
    hchecksum, ihlOf, totalOf]
  rfl

/-- A frame that fails a check of the header changes nothing. -/
theorem parseIpv4Frame_other (hethertype : be16At bytes 12 = 0x0800) (h : ¬ Ipv4Packet bytes) :
    parseIpv4Frame s bytes = .ok (.invalidArgument, s) := by
  by_cases hshort : bytes.length < 34
  · rw [parseIpv4Frame, if_pos hshort]
    rfl
  simp (disch := omega) only [parseIpv4Frame, if_neg hshort, readByte_ok, readBe16_ok, pure,
    Except.pure, bind, Except.bind]
  by_cases hheader : (byteAt bytes 14).toNat / 16 ≠ 4 ∨ ihlOf bytes < 20 ∨
      bytes.length < 14 + ihlOf bytes
  · rw [ihlOf] at hheader
    rw [if_pos hheader]
  have hsum := readBytes_ok (show 14 + ihlOf bytes ≤ bytes.length by omega)
  by_cases htotals : totalOf bytes < ihlOf bytes ∨ bytes.length < 14 + totalOf bytes
  · rw [ihlOf] at hheader htotals
    rw [totalOf] at htotals
    rw [if_neg hheader]
    simp only [if_pos htotals]
  have hchecksum : ipv4Checksum ((bytes.drop 14).take (ihlOf bytes)) ≠ 0 := by
    intro hchecksum
    exact h ⟨hethertype, by omega, by omega, by omega, by omega, hchecksum⟩
  rw [ihlOf] at hheader htotals hsum hchecksum
  rw [totalOf] at htotals
  rw [if_neg hheader]
  simp only [if_neg htotals, hsum, if_pos hchecksum]

theorem parseArpFrame_ok (s : NetState) (bytes : List UInt8) :
    ∃ r, parseArpFrame s bytes = .ok r := by
  by_cases hshort : bytes.length < 42
  · exact ⟨_, by rw [parseArpFrame, if_pos hshort]; rfl⟩
  simp (disch := omega) only [parseArpFrame, if_neg hshort, readByte_ok, readBe16_ok, readMac_ok,
    readIpv4_ok, pure, Except.pure, bind, Except.bind]
  split_ifs <;> exact ⟨_, rfl⟩

/-! ## Accesses in bounds -/

/-- No access was out of bounds. -/
def InBounds (r : Except Fault α) : Prop := ∃ v, r = .ok v

variable {β : Type} {x : Except Fault α} {f : α → Except Fault β} {frame : Nat → UInt8}

theorem InBounds.bind (hx : InBounds x)
    (hf : ∀ v, x = .ok v → InBounds (f v)) : InBounds (x >>= f) := by
  obtain ⟨v, rfl⟩ := hx
  exact hf v rfl

theorem InBounds.of_bind (h : InBounds (x >>= f)) : ∃ v, x = .ok v ∧ InBounds (f v) := by
  cases x with
  | error fault =>
    obtain ⟨w, hw⟩ := h
    cases hw
  | ok v => exact ⟨v, rfl, h⟩

theorem inBounds_pure (v : α) : InBounds (pure v : Except Fault α) := ⟨v, rfl⟩

theorem readBytes_inBounds (h : offset + count ≤ bytes.length) :
    InBounds (readBytes bytes offset count) := ⟨_, readBytes_ok h⟩

variable {data : List UInt8}

theorem length_readBytes (h : readBytes bytes offset count = .ok data) : data.length = count := by
  unfold readBytes at h
  split_ifs at h with hin
  rw [← Except.ok.inj h, List.length_take, List.length_drop]
  omega

theorem writeBytes_inBounds
    (h : offset + data.length ≤ frameBytes) : InBounds (writeBytes frame offset data) :=
  ⟨_, if_pos h⟩

theorem le_of_writeBytes {frame' : Nat → UInt8}
    (h : writeBytes frame offset data = .ok frame') : offset + data.length ≤ frameBytes := by
  unfold writeBytes at h
  split_ifs at h with hin
  exact hin

@[simp] theorem length_macBytes (mac : MacAddress) : mac.bytes.length = 6 := rfl

@[simp] theorem length_be16Bytes (value : Nat) : (be16Bytes value).length = 2 := rfl

/-! ## Echo requests -/

section EchoReply

variable {own : MacAddress} {ihl ipTotal : Nat}

/-- A reply that was built fits into its frame: the packet of the request is copied into it. -/
theorem le_of_icmpEchoReply (h : InBounds (icmpEchoReply own bytes ihl ipTotal)) :
    14 + ipTotal ≤ frameBytes := by
  obtain ⟨sender, -, h⟩ := h.of_bind
  obtain ⟨frame₁, -, h⟩ := h.of_bind
  obtain ⟨frame₂, -, h⟩ := h.of_bind
  obtain ⟨frame₃, -, h⟩ := h.of_bind
  obtain ⟨packet, hpacket, h⟩ := h.of_bind
  obtain ⟨frame₄, hcopy, -⟩ := h.of_bind
  rw [← length_readBytes hpacket]
  exact le_of_writeBytes hcopy

theorem icmpEchoReply_inBounds (hlong : 34 ≤ bytes.length) (htotal : 14 + ipTotal ≤ bytes.length)
    (hihl : ihl ≤ 60) (hfits : 14 + ipTotal ≤ frameBytes) :
    InBounds (icmpEchoReply own bytes ihl ipTotal) := by
  have hwrite : ∀ {frame : Nat → UInt8} {offset : Nat} {data : List UInt8},
      offset + data.length ≤ 1514 → InBounds (writeBytes frame offset data) :=
    fun h => writeBytes_inBounds h
  rw [frameBytes] at hfits
  refine (readBytes_inBounds (by omega)).bind fun sender hsender => ?_
  have hsender := length_readBytes hsender
  refine (hwrite (by omega)).bind fun frame₁ _ => ?_
  refine (hwrite (by simp)).bind fun frame₂ _ => ?_
  refine (hwrite (by simp)).bind fun frame₃ _ => ?_
  refine (readBytes_inBounds (by omega)).bind fun packet hpacket => ?_
  have hpacket := length_readBytes hpacket
  refine (hwrite (by omega)).bind fun frame₄ _ => ?_
  refine (readBytes_inBounds (by omega)).bind fun destination hdestination => ?_
  have hdestination := length_readBytes hdestination
  refine (hwrite (by omega)).bind fun frame₅ _ => ?_
  refine (readBytes_inBounds (by omega)).bind fun source hsource => ?_
  have hsource := length_readBytes hsource
  refine (hwrite (by omega)).bind fun frame₆ _ => ?_
  -- the fields of the two headers end before byte 79
  have hfield : ∀ {frame : Nat → UInt8} {offset : Nat} {data : List UInt8}, data.length ≤ 2 →
      offset ≤ 77 → InBounds (writeBytes frame offset data) :=
    fun hdata hoffset => hwrite (by omega)
  refine (hfield (by simp) (by omega)).bind fun frame₇ _ => ?_
  refine (hfield (by simp) (by omega)).bind fun frame₈ _ => ?_
  refine (hfield (by simp) (by omega)).bind fun frame₉ _ => ?_
  refine (hfield (by simp) (by omega)).bind fun frame₁₀ _ => ?_
  refine (hfield (by simp) (by omega)).bind fun frame₁₁ _ => ?_
  refine (hfield (by simp) (by omega)).bind fun frame₁₂ _ => ?_
  refine (hfield (by simp) (by omega)).bind fun frame₁₃ _ => ?_
  refine (hfield (by simp) (by omega)).bind fun frame₁₄ _ => ?_
  exact inBounds_pure _

end EchoReply

theorem ihlOf_le (bytes : List UInt8) : ihlOf bytes ≤ 60 := by
  unfold ihlOf
  omega

@[simp] theorem updateArpCache_device (address : Ipv4Address) (mac : MacAddress) :
    (updateArpCache s address mac).device = s.device := by
  unfold updateArpCache
  split_ifs <;> rfl

theorem sendIcmpEchoReply_inBounds (h : Ipv4Packet bytes)
    (hheader : ihlOf bytes + 8 ≤ totalOf bytes) :
    InBounds (sendIcmpEchoReply s bytes) ↔
      ¬ (s.device ≠ none ∧ frameBytes < 14 + totalOf bytes) := by
  have hihl := h.ihl
  have hlength := h.length
  have hlong : ¬ bytes.length < 14 + 20 + 8 := by omega
  have hchecks : ¬ (ihlOf bytes < 20 ∨ bytes.length < 14 + totalOf bytes ∨
      totalOf bytes < ihlOf bytes + 8) := by omega
  rw [ihlOf, totalOf] at hchecks
  simp (disch := omega) only [sendIcmpEchoReply, if_neg hlong, readByte_ok, readBe16_ok, pure,
    Except.pure, bind, Except.bind, if_neg hchecks]
  cases hdevice : s.device with
  | none => simp [InBounds]
  | some device =>
    simp only [ne_eq, reduceCtorEq, not_false_eq_true, true_and, Nat.not_lt]
    constructor
    · intro hreply
      obtain ⟨frame, hframe, -⟩ := InBounds.of_bind hreply
      exact le_of_icmpEchoReply ⟨frame, hframe⟩
    · intro hfits
      refine (icmpEchoReply_inBounds (by omega) hlength (ihlOf_le bytes) hfits).bind fun frame _ => ?_
      exact inBounds_pure _

/-- An echo request to this host that is longer than the frame its reply is built in. -/
structure OversizedEcho (s : NetState) (bytes : List UInt8) : Prop where
  packet : Ipv4Packet bytes
  addressed : Addressed bytes
  icmp : byteAt bytes 23 = 1
  header : ihlOf bytes + 8 ≤ totalOf bytes
  echo : byteAt bytes (14 + ihlOf bytes) = 8
  device : s.device ≠ none
  large : frameBytes < 14 + totalOf bytes

/-- What follows the header of a packet is read in bounds, and a reply is what it takes. -/
theorem parseIpv4Payload_inBounds (h : Ipv4Packet bytes) (source : Ipv4Address) :
    InBounds (parseIpv4Payload s bytes (ihlOf bytes) (totalOf bytes) source) ↔
      ¬ (byteAt bytes 23 = 1 ∧ ihlOf bytes + 8 ≤ totalOf bytes ∧
        byteAt bytes (14 + ihlOf bytes) = 8 ∧ s.device ≠ none ∧
        frameBytes < 14 + totalOf bytes) := by
  have hihl := h.ihl
  have htotal := h.total
  have hlength := h.length
  have hprotocol := readByte_ok (show 23 < bytes.length by omega)
  simp only [parseIpv4Payload, hprotocol, bind, Except.bind]
  by_cases hudp : byteAt bytes 23 = 17
  · have hother : ¬ byteAt bytes 23 = 1 := by
      rw [hudp]
      decide
    simp only [if_pos hudp, hother, false_and, not_false_eq_true, iff_true]
    by_cases hshort : totalOf bytes < ihlOf bytes + 8
    · exact ⟨_, if_pos hshort⟩
    simp (disch := omega) only [if_neg hshort, readBe16_ok]
    by_cases hudpLength : be16At bytes (14 + ihlOf bytes + 4) < 8 ∨
        totalOf bytes < ihlOf bytes + be16At bytes (14 + ihlOf bytes + 4)
    · exact ⟨_, if_pos hudpLength⟩
    have hpayload := readBytes_ok (show 14 + ihlOf bytes + 8 +
      (be16At bytes (14 + ihlOf bytes + 4) - 8) ≤ bytes.length by omega)
    rw [if_neg hudpLength, hpayload]
    exact inBounds_pure _
  rw [if_neg hudp]
  by_cases hicmp : byteAt bytes 23 = 1
  · simp only [hicmp, true_and]
    by_cases hshort : totalOf bytes < ihlOf bytes + 8
    · have hheader : ¬ ihlOf bytes + 8 ≤ totalOf bytes := by omega
      simp only [if_pos hshort, hheader, false_and, not_false_eq_true, iff_true]
      exact inBounds_pure _
    have hheader : ihlOf bytes + 8 ≤ totalOf bytes := by omega
    simp (disch := omega) only [if_neg hshort, readByte_ok, hheader, true_and]
    by_cases hecho : byteAt bytes (14 + ihlOf bytes) = 8
    · simp only [hecho, true_and]
      exact sendIcmpEchoReply_inBounds h hheader
    · simp only [hecho, false_and, not_false_eq_true, iff_true]
      exact inBounds_pure _
  · simp only [hicmp, false_and, not_false_eq_true, iff_true]
    exact inBounds_pure _

theorem parseIpv4Frame_inBounds (hethertype : be16At bytes 12 = 0x0800) :
    InBounds (parseIpv4Frame s bytes) ↔ ¬ OversizedEcho s bytes := by
  by_cases hpacket : Ipv4Packet bytes
  · rw [parseIpv4Frame_packet hpacket]
    by_cases haddressed : Addressed bytes
    · rw [if_neg (by rw [Addressed] at haddressed; tauto), parseIpv4Payload_inBounds hpacket,
        updateArpCache_device]
      refine not_congr ⟨?_, ?_⟩
      · rintro ⟨hicmp, hheader, hecho, hdevice, hlarge⟩
        exact ⟨hpacket, haddressed, hicmp, hheader, hecho, hdevice, hlarge⟩
      · rintro ⟨-, -, hicmp, hheader, hecho, hdevice, hlarge⟩
        exact ⟨hicmp, hheader, hecho, hdevice, hlarge⟩
    · rw [if_pos (by rw [Addressed] at haddressed; tauto)]
      exact iff_of_true (inBounds_pure _) fun h => haddressed h.addressed
  · rw [parseIpv4Frame_other hethertype hpacket]
    exact iff_of_true (inBounds_pure _) fun h => hpacket h.packet

/-- Every access while a frame is parsed and answered is in bounds, exactly when the frame is no
oversized echo request. -/
theorem inBounds_iff (s : NetState) (bytes : List UInt8) :
    InBounds (parseEthernetFrame s bytes) ↔ ¬ OversizedEcho s bytes := by
  by_cases hshort : bytes.length < 14
  · rw [parseEthernetFrame, if_pos hshort]
    refine iff_of_true (inBounds_pure _) fun h => ?_
    have := h.packet.length
    omega
  simp (disch := omega) only [parseEthernetFrame, if_neg hshort, readBe16_ok, bind, Except.bind]
  by_cases harp : be16At bytes 12 = 0x0806
  · rw [if_pos harp]
    refine iff_of_true (parseArpFrame_ok s bytes) fun h => ?_
    have := h.packet.ethertype
    omega
  rw [if_neg harp]
  by_cases hipv4 : be16At bytes 12 = 0x0800
  · rw [if_pos hipv4]
    exact parseIpv4Frame_inBounds hipv4
  · rw [if_neg hipv4]
    exact iff_of_true (inBounds_pure _) fun h => hipv4 h.packet.ethertype

/-- An echo request from 10.0.2.2 with 1473 bytes of data. -/
def longEcho : List UInt8 :=
  List.replicate 12 0 ++ [0x08, 0x00] ++
  [0x45, 0, 0x05, 0xdd, 0, 0, 0, 0, 64, 1, 0x5d, 0x10, 10, 0, 2, 2, 10, 0, 2, 15] ++
  [8, 0, 0, 0, 0, 0, 0, 0] ++ List.replicate 1473 0

/-- One byte more than a reply can have, and fewer than the receive buffer takes. -/
theorem not_inBounds_longEcho :
    ¬ ∀ s : NetState, ∀ bytes : List UInt8, bytes.length ≤ 1536 →
      InBounds (parseEthernetFrame s bytes) := by
  intro h
  obtain ⟨r, hr⟩ := h { device := some {} } longEcho (by decide +kernel)
  have hfault : (parseEthernetFrame { device := some {} } longEcho).isOk = false := by
    decide +kernel
  rw [hr] at hfault
  cases hfault

end RadKernel.Ethernet
