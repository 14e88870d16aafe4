import Mathlib.Data.List.Basic

/-!
# The name server client of the shell

Host names in packets, and the answer of a name server. A packet is the list of its bytes, and `none`
stands for a read behind its end; the encoder appends to the bytes before the name. The system calls
are parameters.

A name is skipped in at most 64 rounds, one for each label and one for its end, but the encoder has no
bound on the number of labels.
-/

namespace RadKernel.Rash.Dns

open Option

variable {size hops count pos first start : Nat} {packet name label out : List UInt8}

def dot : UInt8 := 46

/-- The size of the two buffers. -/
def packetSize : Nat := 512

/-! ## Names -/

/-- A label is written, when there is room for it. -/
def putLabel (size : Nat) (packet label : List UInt8) : Option (List UInt8) :=
  if label.length = 0 ∨ 63 < label.length ∨ size ≤ packet.length + label.length + 1 then none
  else some (packet ++ label.length.toUInt8 :: label)

/-- The loop of `dns_put_name_radsh` over the characters still to come, within a label. -/
def putLabels (size : Nat) : List UInt8 → List UInt8 → List UInt8 → Option (List UInt8)
  | label, [], packet => if label = [] then some packet else putLabel size packet label
  | label, c :: name, packet =>
    if c = dot then (putLabel size packet label).bind (putLabels size [] name)
    else putLabels size (label ++ [c]) name packet

def dnsPutName (size : Nat) (packet name : List UInt8) : Option (List UInt8) :=
  (putLabels size [] name packet).bind fun packet =>
    if size ≤ packet.length then none else some (packet ++ [0])

/-- The loop of `dns_skip_name_radsh`; the position behind the name, if there is one. -/
def skipName (packet : List UInt8) : Nat → Nat → Option (Option Nat)
  | 0, _ => some none
  | hops + 1, p =>
    if packet.length ≤ p then some none
    else do
      let len ← packet[p]?
      if len = 0 then some (some (p + 1))
      else if len &&& 0xc0 = 0xc0 then
        if packet.length ≤ p + 1 then some none else some (some (p + 2))
      else if len &&& 0xc0 ≠ 0 ∨ packet.length < p + 1 + len.toNat then some none
      else skipName packet hops (p + 1 + len.toNat)

def dnsSkipName (packet : List UInt8) (pos : Nat) : Option (Option Nat) := skipName packet 64 pos

/-- The labels of a name, the first one with what was read of it before. -/
def labels : List UInt8 → List UInt8 → List (List UInt8)
  | label, [] => if label = [] then [] else [label]
  | label, c :: name => if c = dot then label :: labels [] name else labels (label ++ [c]) name

def wire (ls : List (List UInt8)) : List UInt8 := ls.flatMap fun l => l.length.toUInt8 :: l

theorem putLabel_some (h : putLabel size packet label = some out) :
    out = packet ++ wire [label] ∧ 0 < label.length ∧ label.length ≤ 63 := by
  unfold putLabel at h
  grind [wire]

theorem putLabels_some (h : putLabels size label name packet = some out) :
    out = packet ++ wire (labels label name) ∧
      ∀ l ∈ labels label name, 0 < l.length ∧ l.length ≤ 63 := by
  induction name generalizing label packet with
  | nil =>
    rw [putLabels] at h
    rw [labels]
    split_ifs at h ⊢ with hlabel
    · cases h
      simp [wire]
    · simpa using putLabel_some h
  | cons c name ih =>
    rw [putLabels] at h
    rw [labels]
    split_ifs at h ⊢ with hdot
    · obtain ⟨packet', hput, hrest⟩ := Option.bind_eq_some_iff.1 h
      obtain ⟨rfl, hlength⟩ := putLabel_some hput
      obtain ⟨rfl, hall⟩ := ih hrest
      exact ⟨by simp [wire], by simpa [hlength] using hall⟩
    · exact ih h

/-- A name is skipped when there is a round for each label and one for its end. -/
theorem skipName_wire {ls : List (List UInt8)} (hops : Nat) (before tail : List UInt8)
    (h : ∀ l ∈ ls, 0 < l.length ∧ l.length ≤ 63) :
    skipName (before ++ wire ls ++ 0 :: tail) hops before.length =
      some (if ls.length < hops then some (before ++ wire ls ++ [0]).length else none) := by
  induction ls generalizing before hops with
  | nil => cases hops <;> simp [skipName, wire]
  | cons l ls ih =>
    cases hops with
    | zero => rfl
    | succ hops =>
      obtain ⟨hpos, hmax⟩ := h l (List.mem_cons_self ..)
      have hflags : ∀ n < 64, n ≠ 0 → n.toUInt8 ≠ 0 ∧ n.toUInt8 &&& 0xc0 = 0 ∧
        n.toUInt8.toNat = n := by decide
      obtain ⟨hzero, hmask, hlen⟩ := hflags l.length (by omega) (by omega)
      have hrest := ih hops (before ++ wire [l]) fun l' hl' => h l' (List.mem_cons_of_mem _ hl')
      have hlist : before ++ wire (l :: ls) = before ++ wire [l] ++ wire ls := by simp [wire]
      have hread : (before ++ wire [l] ++ wire ls ++ 0 :: tail)[before.length]? =
          some l.length.toUInt8 := by simp [wire]
      have hnext : (before ++ wire [l]).length = before.length + 1 + l.length := by
        simp [wire]
        omega
      have hroom : (before ++ wire [l]).length ≤
          (before ++ wire [l] ++ wire ls ++ 0 :: tail).length := by simp
      rw [hlist, skipName, if_neg (by omega), hread, bind_eq_bind, bind_some,
        if_neg hzero, if_neg (by simp [hmask]), if_neg (by rw [hmask, hlen, ← hnext]; simp), hlen, ← hnext, hrest]
      simp

/-- A name that was written is skipped when it has at most 63 labels. -/
theorem dnsSkipName_dnsPutName (tail : List UInt8) (h : dnsPutName size packet name = some out) :
    dnsSkipName (out ++ tail) packet.length =
      some (if (labels [] name).length ≤ 63 then some out.length else none) := by
  obtain ⟨body, hbody, h⟩ := Option.bind_eq_some_iff.1 h
  obtain ⟨rfl, hlabels⟩ := putLabels_some hbody
  split_ifs at h
  cases h
  rw [dnsSkipName, List.append_assoc _ [0], List.singleton_append, skipName_wire 64 packet tail hlabels]
  simp only [Nat.lt_succ_iff]

/-! ## Answers -/

def readBe16 (packet : List UInt8) (p : Nat) : Option Nat := do
  let high ← packet[p]?
  let low ← packet[p + 1]?
  some (high.toNat * 256 + low.toNat)

def readBytes (packet : List UInt8) (p n : Nat) : Option (List UInt8) :=
  if packet.length < p + n then none else some ((packet.drop p).take n)

/-- The loop over the questions; the position behind them, if there is one. -/
def skipQuestions (packet : List UInt8) : Nat → Nat → Option (Option Nat)
  | 0, pos => some (some pos)
  | count + 1, pos => do
    match ← dnsSkipName packet pos with
    | none => some none
    | some pos =>
      if packet.length < pos + 4 then some none else skipQuestions packet count (pos + 4)

/-- The loop over the answers. -/
def findAddress (packet : List UInt8) : Nat → Nat → Option (Except Int (List UInt8))
  | 0, _ => some (.error (-3))
  | count + 1, pos => do
    match ← dnsSkipName packet pos with
    | none => some (.error (-1))
    | some pos =>
      if packet.length < pos + 10 then some (.error (-1))
      else
        let type ← readBe16 packet pos
        let klass ← readBe16 packet (pos + 2)
        let rdlen ← readBe16 packet (pos + 8)
        if packet.length < pos + 10 + rdlen then some (.error (-1))
        else if type = 1 ∧ klass = 1 ∧ rdlen = 4 then
          let address ← readBytes packet (pos + 10) 4
          some (.ok address)
        else findAddress packet count (pos + 10 + rdlen)

/-- What `dns_lookup_a_radsh` does with a response. -/
def parseResponse (txid : UInt16) (response : List UInt8) : Option (Except Int (List UInt8)) :=
  if response.length < 12 then some (.error (-5))
  else do
    if (← readBe16 response 0) ≠ txid.toNat then some (.error (-1))
    else if (← readBe16 response 2) &&& 0x000f ≠ 0 then some (.error (-3))
    else
      let qd ← readBe16 response 4
      let an ← readBe16 response 6
      match ← skipQuestions response qd 12 with
      | none => some (.error (-1))
      | some pos => findAddress response an pos

/-- The system calls, and the id that is made from the time. -/
structure DnsCalls where
  socket : Int
  txid : UInt16
  sendto (query : List UInt8) : Int
  recvfrom (attempt : Nat) : Except Int (List UInt8)
  expired (attempt : Nat) : Bool

/-- The attempts to receive; what is received, if anything. -/
def receive (calls : DnsCalls) : Nat → Nat → Except Int (List UInt8)
  | 0, _ => .ok []
  | rounds + 1, attempt =>
    match calls.recvfrom attempt with
    | .ok [] =>
      if 16 < attempt ∧ calls.expired attempt then .ok [] else receive calls rounds (attempt + 1)
    | received => received

def dnsLookupA (calls : DnsCalls) (name : List UInt8) : Option (Except Int (List UInt8)) :=
  if calls.socket < 0 then some (.error calls.socket)
  else
    let header := [(calls.txid >>> 8).toUInt8, calls.txid.toUInt8, 1, 0, 0, 1, 0, 0, 0, 0, 0, 0]
    match dnsPutName packetSize header name with
    | none => some (.error (-2))
    | some query =>
      if packetSize < query.length + 4 then some (.error (-2))
      else
        let sent := calls.sendto (query ++ [0, 1, 0, 1])
        if sent ≠ query.length + 4 then some (.error (if sent < 0 then sent else -1))
        else
          match receive calls 2000 0 with
          | .error status => some (.error status)
          | .ok response => parseResponse calls.txid response

/-! ## Reads -/

/-- An answer begins here, when they begin at `first`. -/
inductive AnswerAt (packet : List UInt8) (first : Nat) : Nat → Prop
  | first : AnswerAt packet first first
  | next {start pos rdlen : Nat} (h : AnswerAt packet first start)
      (hname : dnsSkipName packet start = some (some pos))
      (hdata : readBe16 packet (pos + 8) = some rdlen) : AnswerAt packet first (pos + 10 + rdlen)

/-- The address is the data of an A record of the Internet class, which lie in the packet. -/
structure ARecord (packet : List UInt8) (pos : Nat) (address : List UInt8) : Prop where
  type : readBe16 packet pos = some 1
  klass : readBe16 packet (pos + 2) = some 1
  rdlen : readBe16 packet (pos + 8) = some 4
  inside : pos + 14 ≤ packet.length
  data : address = (packet.drop (pos + 10)).take 4

/-- The address is the one in an answer of the response. -/
def FromAnswer (response address : List UInt8) : Prop :=
  ∃ qd first start pos, readBe16 response 4 = some qd ∧
    skipQuestions response qd 12 = some (some first) ∧ AnswerAt response first start ∧
    dnsSkipName response start = some (some pos) ∧ ARecord response pos address

theorem skipName_inside (packet : List UInt8) (hops p : Nat) :
    ∃ end?, skipName packet hops p = some end? := by
  induction hops generalizing p with
  | zero => exact ⟨none, rfl⟩
  | succ hops ih =>
    rw [skipName]
    by_cases hp : packet.length ≤ p
    · simp [hp]
    · have hlt : p < packet.length := by omega
      obtain ⟨next?, hnext⟩ := ih (p + 1 + packet[p].toNat)
      rw [if_neg hp, List.getElem?_eq_getElem hlt, bind_eq_bind, bind_some]
      split_ifs <;> simp [hnext]

theorem readBe16_inside {p : Nat} (h : p + 2 ≤ packet.length) :
    ∃ value, readBe16 packet p = some value := by
  simp [readBe16, List.getElem?_eq_getElem (show p < packet.length by omega),
    List.getElem?_eq_getElem (show p + 1 < packet.length by omega)]

theorem skipQuestions_inside (packet : List UInt8) (count pos : Nat) :
    ∃ end?, skipQuestions packet count pos = some end? := by
  induction count generalizing pos with
  | zero => exact ⟨some pos, rfl⟩
  | succ count ih =>
    obtain ⟨end?, hname⟩ := skipName_inside packet 64 pos
    rw [skipQuestions, dnsSkipName, hname]
    cases end? with
    | none => exact ⟨none, rfl⟩
    | some pos =>
      simp only [bind_eq_bind, bind_some]
      split_ifs
      · exact ⟨none, rfl⟩
      · exact ih (pos + 4)

theorem findAddress_inside (hstart : AnswerAt packet first start) (count : Nat) :
    ∃ answer, findAddress packet count start = some answer ∧ ∀ address, answer = .ok address →
      ∃ start pos, AnswerAt packet first start ∧ dnsSkipName packet start = some (some pos) ∧
        ARecord packet pos address := by
  induction count generalizing start with
  | zero => exact ⟨_, rfl, fun _ h => by cases h⟩
  | succ count ih =>
    obtain ⟨end?, hname⟩ := skipName_inside packet 64 start
    rw [findAddress, dnsSkipName, hname]
    cases end? with
    | none => exact ⟨_, rfl, fun _ h => by cases h⟩
    | some pos =>
      simp only [bind_eq_bind, bind_some]
      split_ifs with hshort
      · exact ⟨_, rfl, fun _ h => by cases h⟩
      obtain ⟨type, htype⟩ := readBe16_inside (show pos + 2 ≤ packet.length by omega)
      obtain ⟨klass, hklass⟩ := readBe16_inside (show pos + 2 + 2 ≤ packet.length by omega)
      obtain ⟨rdlen, hrdlen⟩ := readBe16_inside (show pos + 8 + 2 ≤ packet.length by omega)
      simp only [htype, hklass, hrdlen, bind_some]
      split_ifs with hlong hfound
      · exact ⟨_, rfl, fun _ h => by cases h⟩
      · obtain ⟨rfl, rfl, rfl⟩ := hfound
        rw [readBytes, if_neg (by omega)]
        refine ⟨_, rfl, fun address h => ⟨start, pos, hstart, hname, ?_⟩⟩
        cases h
        exact ⟨htype, hklass, hrdlen, by omega, rfl⟩
      · exact ih (.next hstart hname hrdlen)

theorem parseResponse_inside (txid : UInt16) (response : List UInt8) :
    ∃ answer, parseResponse txid response = some answer ∧
      ∀ address, answer = .ok address → FromAnswer response address := by
  unfold parseResponse
  split_ifs with hshort
  · exact ⟨_, rfl, fun _ h => by cases h⟩
  obtain ⟨id, hid⟩ := readBe16_inside (show 0 + 2 ≤ response.length by omega)
  obtain ⟨flags, hflags⟩ := readBe16_inside (show 2 + 2 ≤ response.length by omega)
  obtain ⟨qd, hqd⟩ := readBe16_inside (show 4 + 2 ≤ response.length by omega)
  obtain ⟨an, han⟩ := readBe16_inside (show 6 + 2 ≤ response.length by omega)
  obtain ⟨first?, hfirst⟩ := skipQuestions_inside response qd 12
  simp only [hid, hflags, hqd, han, hfirst, bind_eq_bind, bind_some]
  split_ifs
  · exact ⟨_, rfl, fun _ h => by cases h⟩
  · exact ⟨_, rfl, fun _ h => by cases h⟩
  cases first? with
  | none => exact ⟨_, rfl, fun _ h => by cases h⟩
  | some first =>
    obtain ⟨answer, hanswer, haddress⟩ := findAddress_inside (@AnswerAt.first response _) an
    refine ⟨answer, hanswer, fun address h => ?_⟩
    obtain ⟨start, pos, hstart, hname, hrecord⟩ := haddress address h
    exact ⟨qd, first, start, pos, hqd, hfirst, hstart, hname, hrecord⟩

theorem receive_from (calls : DnsCalls) (rounds attempt : Nat) {response : List UInt8}
    (hresponse : response ≠ []) (h : receive calls rounds attempt = .ok response) :
    ∃ attempt, calls.recvfrom attempt = .ok response := by
  induction rounds generalizing attempt with
  | zero => grind [receive]
  | succ rounds ih =>
    unfold receive at h
    split at h
    · split_ifs at h
      · grind
      · exact ih _ h
    · exact ⟨attempt, h⟩

/-- Names of up to 63 labels are skipped, and what a lookup answers is in a response. -/
theorem dns_client :
    (∀ {size : Nat} {packet name out : List UInt8} (tail : List UInt8),
      dnsPutName size packet name = some out → (labels [] name).length ≤ 63 →
        dnsSkipName (out ++ tail) packet.length = some (some out.length)) ∧
      ∀ (calls : DnsCalls) (name : List UInt8), ∃ answer, dnsLookupA calls name = some answer ∧
        ∀ address, answer = .ok address →
          ∃ attempt response, calls.recvfrom attempt = .ok response ∧ FromAnswer response address := by
  refine ⟨fun tail h hlabels => ?_, fun calls name => ?_⟩
  · rw [dnsSkipName_dnsPutName tail h, if_pos hlabels]
  · have hrefused : ∀ status : Int, ∃ answer : Except Int (List UInt8),
        some (.error status) = some answer ∧ ∀ address, answer = .ok address →
          ∃ attempt response, calls.recvfrom attempt = .ok response ∧ FromAnswer response address :=
      fun status => ⟨_, rfl, fun _ h => by cases h⟩
    unfold dnsLookupA
    split_ifs
    · exact hrefused _
    dsimp only
    split
    · exact hrefused _
    split_ifs
    · exact hrefused _
    · exact hrefused _
    · exact hrefused _
    cases hreceive : receive calls 2000 0 with
    | error status => exact hrefused status
    | ok response =>
      obtain ⟨answer, hanswer, haddress⟩ := parseResponse_inside calls.txid response
      refine ⟨answer, hanswer, fun address h => ?_⟩
      have hfrom := haddress address h
      have hresponse : response ≠ [] := by
        rintro rfl
        obtain ⟨_, _, _, _, hqd, -⟩ := hfrom
        cases hqd
      obtain ⟨attempt, hattempt⟩ := receive_from calls 2000 0 hresponse hreceive
      exact ⟨attempt, response, hattempt, hfrom⟩

theorem dns_client_name : dnsSkipName [1, 97, 2, 98, 99, 0, 7] 0 = some (some 6) :=
  @dns_client.1 packetSize [] [97, dot, 98, 99] [1, 97, 2, 98, 99, 0] [7] (by decide) (by decide)

/-- A name of 64 labels is written but not skipped. -/
theorem not_dnsSkipName :
    let name := (List.replicate 64 [97, dot]).flatten
    ∃ out, dnsPutName packetSize (List.replicate 12 0) name = some out ∧ dnsSkipName out 12 = some none := by
  refine ⟨List.replicate 12 0 ++ (List.replicate 64 [1, 97]).flatten ++ [0], ?_, ?_⟩ <;>
    decide +kernel

end RadKernel.Rash.Dns
