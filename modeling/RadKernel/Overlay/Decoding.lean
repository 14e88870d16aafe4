import RadKernel.Overlay.Encoding
import RadKernel.Overlay.Load

/-!
# What the loader reads

The loader finds in the bytes of the compiler what the compiler has written down, and the checksums
agree.
-/

namespace RadKernel.Overlay

open Words List

/-! ## Segments of bytes -/

namespace Segment

variable {α : Type} {l xs ys : List α} {offset : Nat}

theorem trans {offset' : Nat} (h : Segment l offset xs) (h' : Segment xs offset' ys) :
    Segment l (offset + offset') ys := by
  obtain ⟨before, after, rfl, rfl⟩ := h
  obtain ⟨before', after', rfl, rfl⟩ := h'
  exact ⟨before ++ before', after' ++ after, by simp only [append_assoc], length_append⟩

theorem left (h : Segment l offset (xs ++ ys)) : Segment l offset xs :=
  h.trans (show Segment (xs ++ ys) 0 xs from ⟨[], ys, rfl, rfl⟩)

theorem right (h : Segment l offset (xs ++ ys)) : Segment l (offset + xs.length) ys :=
  h.trans ⟨xs, [], (append_nil _).symm, rfl⟩

section
variable (h : Segment l offset xs)
include h

theorem drop_eq : ∃ after, l.drop offset = xs ++ after := by
  obtain ⟨before, after, rfl, rfl⟩ := h
  exact ⟨after, by rw [append_assoc, drop_left]⟩

theorem length_le : offset + xs.length ≤ l.length := by
  obtain ⟨before, after, rfl, rfl⟩ := h
  simp only [length_append]
  omega

theorem getElem? {i : Nat} (hi : i < xs.length) : l[offset + i]? = some xs[i] := by
  obtain ⟨before, after, rfl, rfl⟩ := h
  rw [append_assoc, List.getElem?_append_right (Nat.le_add_right ..), Nat.add_sub_cancel_left,
    List.getElem?_append_left hi, List.getElem?_eq_getElem hi]

end

theorem flatMap {β : Type} {f : β → List α} {k : Nat} {items : List β}
    (hk : ∀ x ∈ items, (f x).length = k) {i : Nat} (hi : i < items.length) :
    Segment (items.flatMap f) (k * i) (f items[i]) := by
  induction items generalizing i with
  | nil => simp at hi
  | cons x items ih =>
    have hx := hk x mem_cons_self
    cases i with
    | zero => exact ⟨[], items.flatMap f, by simp, by simp⟩
    | succ i =>
      have hrest := ih (fun y hy => hk y (mem_cons_of_mem _ hy)) (Nat.lt_of_succ_lt_succ hi)
      have hall : Segment ((x :: items).flatMap f) k (items.flatMap f) := ⟨f x, [], by simp, hx⟩
      rw [Nat.mul_succ, Nat.add_comm]
      exact hall.trans hrest

end Segment

theorem fieldAt_segment {bytes : List UInt8} {offset size n : Nat}
    (h : Segment bytes offset (encode size n)) (hn : n < 256 ^ size) :
    fieldAt bytes offset size = n := by
  obtain ⟨after, hdrop⟩ := h.drop_eq
  rw [fieldAt, hdrop, take_left' (length_encode ..), decode_encode_of_lt hn]

theorem length_numbers (numbers : List Nat) :
    (numbers.flatMap (encode 4)).length = numbers.length * 4 := by
  simp

theorem fieldAt_numbers {bytes : List UInt8} {offset : Nat} {numbers : List Nat}
    (h : Segment bytes offset (numbers.flatMap (encode 4))) (hlt : ∀ n ∈ numbers, n < 2 ^ 32)
    {j : Nat} (hj : j < numbers.length) : fieldAt bytes (offset + 4 * j) 4 = numbers[j] :=
  fieldAt_segment (h.trans (.flatMap (fun _ _ => length_encode ..) hj)) (hlt _ (getElem_mem hj))

/-- A string that ends with the first zero. -/
theorem cStringAt_holds {strings : List UInt8} {offset : Nat} {s : Str}
    (h : HoldsString strings offset s) (hs : '\x00' ∉ s) : cStringAt strings offset = utf8 s := by
  obtain ⟨after, hdrop⟩ := h.drop_eq
  have hzero := zero_notMem_utf8 hs
  have hall : ∀ b ∈ utf8 s, decide (b ≠ 0) = true := by
    intro b hb
    refine decide_eq_true ?_
    rintro rfl
    exact hzero hb
  rw [cStringAt, hdrop, append_assoc, takeWhile_append_of_pos hall]
  simp

/-! ## The checksum -/

theorem crcBit_eq (c : UInt32) : crcBit c = Crc32.shift c := by
  unfold crcBit Crc32.shift
  rcases Crc32.and_one_cases c with h | h
  · rw [h, if_pos rfl]
    simp
  · rw [h, if_neg (by decide), UInt32.xor_comm]
    rfl

theorem crc32Update_eq (bytes : List UInt8) : crc32Update 0 bytes = Crc32.crc32 bytes := by
  have hbyte : crcByte = fun c byte => Crc32.shifts 8 (c ^^^ byte.toUInt32) := by
    funext c byte
    unfold crcByte
    simp only [crcBit_eq]
    rfl
  rw [← Crc32.bitByBit_eq, Crc32.bitByBit, crc32Update, hbyte]

/-! ## The parts of the bytes -/

def nodeRecordOf (record : List Nat) : OverlayNodeRecord where
  pathOffset := record.getD 0 0
  nameOffset := record.getD 1 0
  parentOffset := record.getD 2 0
  propertyStart := record.getD 3 0
  propertyCount := record.getD 4 0

def propertyRecordOf (record : List Nat) : OverlayPropertyRecord where
  nodeIndex := record.getD 0 0
  nameOffset := record.getD 1 0
  type := record.getD 2 0
  value := record.getD 3 0
  size := record.getD 4 0

/-- Records of five numbers of four bytes. -/
structure Packable (records : List (List Nat)) : Prop where
  length_eq : ∀ record ∈ records, record.length = 5
  lt : ∀ record ∈ records, ∀ n ∈ record, n < 2 ^ 32

def packed (records : List (List Nat)) : List UInt8 :=
  records.flatMap fun record => record.flatMap (encode 4)

theorem mapM_pack {records : List (List Nat)} {parts : List (List UInt8)}
    (h : records.mapM pack = .ok parts) :
    (∀ record ∈ records, ∀ n ∈ record, n < 2 ^ 32) ∧ parts.flatten = packed records := by
  induction records generalizing parts with
  | nil =>
    cases h
    exact ⟨fun _ h => (by cases h), rfl⟩
  | cons record records ih =>
    rw [mapM_cons] at h
    cases hpack : pack record with
    | error e =>
      rw [hpack] at h
      cases h
    | ok bytes =>
      cases hrest : records.mapM pack with
      | error e =>
        rw [hpack, hrest] at h
        cases h
      | ok rest =>
        rw [hpack, hrest] at h
        cases h
        obtain ⟨hlt, rfl⟩ := pack_eq hpack
        obtain ⟨hall, hflat⟩ := ih hrest
        refine ⟨List.forall_mem_cons.2 ⟨hlt, hall⟩, ?_⟩
        rw [flatten_cons, hflat]
        rfl

namespace Packable

variable {records : List (List Nat)}

section
variable (h : Packable records)
include h

theorem length_numbers {record : List Nat} (hrecord : record ∈ records) :
    (record.flatMap (encode 4)).length = recordBytes := by
  rw [Overlay.length_numbers, h.length_eq record hrecord]
  rfl

theorem length_packed : (packed records).length = records.length * recordBytes := by
  rw [packed, length_flatMap, map_congr_left fun _ hr => h.length_numbers hr]
  simp

theorem fieldAt_eq (after : List UInt8) {i j : Nat} (hi : i < records.length) (hj : j < 5) :
    fieldAt (packed records ++ after) (recordBytes * i + 4 * j) 4 = (records[i]).getD j 0 := by
  have hmem := getElem_mem hi
  have hall : Segment (packed records ++ after) 0 (packed records) := ⟨[], after, rfl, rfl⟩
  have hrecord := hall.trans (.flatMap (fun _ hr => h.length_numbers hr) hi)
  rw [Nat.zero_add] at hrecord
  have hj' : j < (records[i]).length := by rwa [h.length_eq _ hmem]
  rw [fieldAt_numbers hrecord (h.lt _ hmem) hj', getD_eq_getElem _ _ hj']

theorem nodes_eq (after : List UInt8) :
    (List.range records.length).map (overlayNodeRecord (packed records ++ after)) =
      records.map nodeRecordOf := by
  refine ext_getElem (by simp) fun i h₁ h₂ => ?_
  have hi : i < records.length := by simpa using h₂
  have hfield := fun j hj => h.fieldAt_eq after (j := j) hi hj
  rw [getElem_map, getElem_map, getElem_range]
  exact OverlayNodeRecord.mk.injEq .. ▸ ⟨hfield 0 (by omega), hfield 1 (by omega),
    hfield 2 (by omega), hfield 3 (by omega), hfield 4 (by omega)⟩

theorem props_eq (after : List UInt8) :
    (List.range records.length).map (overlayPropertyRecord (packed records ++ after)) =
      records.map propertyRecordOf := by
  refine ext_getElem (by simp) fun i h₁ h₂ => ?_
  have hi : i < records.length := by simpa using h₂
  have hfield := fun j hj => h.fieldAt_eq after (j := j) hi hj
  rw [getElem_map, getElem_map, getElem_range]
  exact OverlayPropertyRecord.mk.injEq .. ▸ ⟨hfield 0 (by omega), hfield 1 (by omega),
    hfield 2 (by omega), hfield 3 (by omega), hfield 4 (by omega)⟩

end

end Packable

/-- What the loader makes of the records of the compiler. -/
def Builder.parsed (b : Builder) (beyond : List UInt8) : Blob where
  strings := b.strings.data
  nodes := b.nodeRecords.map nodeRecordOf
  props := b.propRecords.map propertyRecordOf
  data := b.data
  beyond := beyond

def headerNumbers (b : Builder) (payload : List UInt8) : List Nat :=
  [b.strings.data.length, b.nodeRecords.length, b.propRecords.length, b.data.length, 0,
    (Crc32.crc32 payload).toNat]

def headerStart : List UInt8 := text "RADO" ++ encode 2 overlayVersion ++ encode 2 0

theorem blob_eq {b : Builder} {bytes : List UInt8} (h : b.blob = .ok bytes) :
    (∀ record ∈ b.nodeRecords, ∀ n ∈ record, n < 2 ^ 32) ∧
      (∀ record ∈ b.propRecords, ∀ n ∈ record, n < 2 ^ 32) ∧
      ∃ payload, payload = b.strings.data ++ packed b.nodeRecords ++ packed b.propRecords ++ b.data ∧
        (∀ n ∈ headerNumbers b payload, n < 2 ^ 32) ∧
        bytes = headerStart ++ (headerNumbers b payload).flatMap (encode 4) ++ payload := by
  unfold Builder.blob at h
  cases hnodes : b.nodeRecords.mapM pack with
  | error e =>
    rw [hnodes] at h
    cases h
  | ok nodes =>
    cases hprops : b.propRecords.mapM pack with
    | error e =>
      rw [hnodes, hprops] at h
      cases h
    | ok props =>
      obtain ⟨hnodesLt, hnodesFlat⟩ := mapM_pack hnodes
      obtain ⟨hpropsLt, hpropsFlat⟩ := mapM_pack hprops
      refine ⟨hnodesLt, hpropsLt, _, rfl, ?_⟩
      simp only [hnodes, hprops, hnodesFlat, hpropsFlat, header, bind, Except.bind] at h
      split at h
      · cases h
      · next head hhead =>
        cases hpack : pack (headerNumbers b
            (b.strings.data ++ packed b.nodeRecords ++ packed b.propRecords ++ b.data)) with
        | error e =>
          rw [headerNumbers] at hpack
          rw [hpack] at hhead
          cases hhead
        | ok sizes =>
          obtain ⟨hlt, hsizes⟩ := pack_eq hpack
          rw [headerNumbers] at hpack
          rw [hpack] at hhead
          cases hhead
          cases h
          exact ⟨hlt, by rw [hsizes]; rfl⟩

/-- The bytes are taken apart where they were put together. -/
theorem parseBlob_blob {b : Builder} {bytes : List UInt8} (beyond : List UInt8)
    (hnodes : ∀ record ∈ b.nodeRecords, record.length = 5)
    (hprops : ∀ record ∈ b.propRecords, record.length = 5) (h : b.blob = .ok bytes) :
    parseBlob bytes beyond = some (b.parsed beyond) := by
  obtain ⟨hnodesLt, hpropsLt, payload, hpayload, hlt, rfl⟩ := blob_eq h
  have hnodes' : Packable b.nodeRecords := ⟨hnodes, hnodesLt⟩
  have hprops' : Packable b.propRecords := ⟨hprops, hpropsLt⟩
  set bytes := headerStart ++ (headerNumbers b payload).flatMap (encode 4) ++ payload with hbytes
  have hnumbers : Segment bytes 8 ((headerNumbers b payload).flatMap (encode 4)) :=
    ⟨headerStart, payload, rfl, rfl⟩
  have hfield := fun j hj => fieldAt_numbers hnumbers hlt (j := j) hj
  have hhead : (headerStart ++ (headerNumbers b payload).flatMap (encode 4)).length = 32 := rfl
  have hdrop : bytes.drop headerBytes = payload := drop_left' hhead
  have hsize : payload.length = b.strings.data.length + b.nodeRecords.length * recordBytes +
      b.propRecords.length * recordBytes + b.data.length := by
    rw [hpayload]
    simp only [length_append, hnodes'.length_packed, hprops'.length_packed]
  have hstrings : fieldAt bytes 8 4 = b.strings.data.length := hfield 0 (by simp [headerNumbers])
  have hcount : fieldAt bytes 12 4 = b.nodeRecords.length := hfield 1 (by simp [headerNumbers])
  have hcount' : fieldAt bytes 16 4 = b.propRecords.length := hfield 2 (by simp [headerNumbers])
  have hdata : fieldAt bytes 20 4 = b.data.length := hfield 3 (by simp [headerNumbers])
  have hcrc : fieldAt bytes 28 4 = (Crc32.crc32 payload).toNat := hfield 5 (by simp [headerNumbers])
  unfold parseBlob
  simp only [hstrings, hcount, hcount', hdata, hcrc, hdrop, crc32Update_eq]
  rw [if_neg (not_not.2 hsize), if_neg (not_not.2 rfl)]
  have hafter : payload.drop b.strings.data.length =
      packed b.nodeRecords ++ (packed b.propRecords ++ b.data) := by
    rw [hpayload, append_assoc, append_assoc, drop_left]
  have hafter' : (packed b.nodeRecords ++ (packed b.propRecords ++ b.data)).drop
      (b.nodeRecords.length * recordBytes) = packed b.propRecords ++ b.data :=
    drop_left' hnodes'.length_packed
  have hafter'' : (packed b.propRecords ++ b.data).drop (b.propRecords.length * recordBytes) =
      b.data :=
    drop_left' hprops'.length_packed
  have hbefore : payload.take b.strings.data.length = b.strings.data := by
    rw [hpayload, append_assoc, append_assoc, take_left]
  rw [hafter, hafter', hafter'', hbefore, hnodes'.nodes_eq, hprops'.props_eq]
  rfl

/-! ## What the records say -/

/-- No zero, and with the final zero at most `size` bytes. -/
def FitsIn (size : Nat) (s : Str) : Prop := '\x00' ∉ s ∧ (utf8 s).length < size

instance (size : Nat) (s : Str) : Decidable (FitsIn size s) := inferInstanceAs (Decidable (_ ∧ _))

/-- Only the first string of an array is read. -/
def PropertySpec.Fits : PropertySpec → Prop
  | .bool _ => True
  | .u32 _ => True
  | .string s => FitsIn treeMaxValue s
  | .u32s l => l.length ≤ maxArrayValues
  | .strings l => FitsIn treeMaxValue (l.headD [])

instance : DecidablePred PropertySpec.Fits := by
  intro spec
  cases spec <;> unfold PropertySpec.Fits <;> infer_instance

/-- What the runtime keeps of a value. -/
def PropertySpec.value : PropertySpec → PropertyValue
  | .bool v => { type := treePropBool, boolValue := v }
  | .u32 n => { type := treePropU32, u32Value := n }
  | .string s => { type := treePropString, stringValue := utf8 s }
  | .u32s l => { type := treePropU32Array, arrayValues := l }
  | .strings l => { type := treePropStringArray, stringValue := utf8 (l.headD []) }

def propertyOf (item : Str × PropertySpec) : TreeProperty := ⟨utf8 item.1, item.2.value⟩

def nodeOf (node : Str × List (Str × PropertySpec)) : NodeView :=
  (utf8 node.1, node.2.map propertyOf)

theorem copyString_fits {size : Nat} {s : Str} (h : FitsIn size s) :
    copyString size (utf8 s) = utf8 s :=
  take_of_length_le (Nat.le_sub_one_of_lt h.2)

theorem utf8_append (s t : Str) : utf8 (s ++ t) = utf8 s ++ utf8 t := flatMap_append

/-- A joined array starts with its first string. -/
theorem joined_eq (l : List Str) : ∃ more, joined l = utf8 (l.headD []) ++ [0] ++ more := by
  have hzero : utf8 ['\x00'] = [0] := by decide
  rcases l with _ | ⟨s, _ | ⟨s', rest⟩⟩
  · exact ⟨[], rfl⟩
  · exact ⟨[], by simp [joined]⟩
  · refine ⟨joined (s' :: rest), ?_⟩
    rw [joined, joined, intercalate_cons_cons, utf8_append, utf8_append, hzero]
    simp

variable {b : Builder} (beyond : List UInt8)

theorem stringAt_eq {offset : Nat} {s : Str} (h : HoldsString b.strings.data offset s) :
    (b.parsed beyond).stringAt offset = some (cStringAt b.strings.data offset) := by
  have hlength := h.length_le
  obtain ⟨after, hdrop⟩ := h.drop_eq
  rw [length_append, length_singleton] at hlength
  have hin : ¬b.strings.data.length ≤ offset := by omega
  have hzero : 0 ∈ b.strings.data.drop offset := by simp [hdrop]
  rw [Blob.stringAt, Builder.parsed, if_neg hin, if_pos hzero]

theorem stringAt_holds {offset : Nat} {s : Str} (h : HoldsString b.strings.data offset s)
    (hs : '\x00' ∉ s) : (b.parsed beyond).stringAt offset = some (utf8 s) := by
  rw [stringAt_eq beyond h, cStringAt_holds h hs]

theorem propertyValue_recorded (record : OverlayPropertyRecord) {spec : PropertySpec}
    (h : SpecRecorded b.strings.data b.data record.type record.value record.size spec)
    (hfits : spec.Fits) : (b.parsed beyond).propertyValue record = some spec.value := by
  unfold Blob.propertyValue
  cases spec with
  | bool v =>
    obtain ⟨htype, hvalue⟩ := h
    rw [htype, hvalue]
    cases v <;> rfl
  | u32 n =>
    obtain ⟨htype, hvalue⟩ := h
    rw [htype, hvalue]
    rfl
  | string s =>
    obtain ⟨htype, hholds⟩ := h
    have hread := stringAt_holds beyond hholds hfits.1
    rw [htype, if_neg (by decide), if_neg (by decide), if_pos rfl, hread, Option.map_some,
      copyString_fits hfits]
    rfl
  | u32s l =>
    obtain ⟨htype, hsize, hlt, hsegment⟩ := h
    have hlength := hsegment.length_le
    rw [length_numbers] at hlength
    have hvalue : record.value ≤ b.data.length := by omega
    have hroom : record.size ≤ b.data.length - record.value := by omega
    have hin : (b.parsed beyond).inData record ∧ record.size % 4 = 0 :=
      ⟨⟨hvalue, hroom⟩, by omega⟩
    have hcount : min maxArrayValues (record.size / 4) = l.length := by
      have : l.length ≤ maxArrayValues := hfits
      omega
    have hvalues : ((List.range l.length).map fun j => fieldAt b.data (record.value + 4 * j) 4) =
        l := by
      refine ext_getElem (by simp) fun j h₁ h₂ => ?_
      rw [getElem_map, getElem_range]
      exact fieldAt_numbers hsegment hlt h₂
    rw [htype, if_neg (by decide), if_neg (by decide), if_neg (by decide), if_pos rfl, if_pos hin,
      hcount]
    simp only [Builder.parsed, hvalues, PropertySpec.value]
  | strings l =>
    obtain ⟨htype, hsize, hsegment⟩ := h
    have hlength := hsegment.length_le
    have hvalue : record.value ≤ b.data.length := by omega
    have hroom : record.size ≤ b.data.length - record.value := by omega
    have hin : (b.parsed beyond).inData record := ⟨hvalue, hroom⟩
    obtain ⟨more, hmore⟩ := joined_eq l
    rw [hmore] at hsegment
    have hholds : HoldsString (b.data ++ beyond) record.value (l.headD []) :=
      hsegment.left.mono (prefix_append ..)
    have hread : copyString treeMaxValue (cStringAt (b.data ++ beyond) record.value) =
        utf8 (l.headD []) := by
      rw [cStringAt_holds hholds hfits.1, copyString_fits hfits]
    rw [htype, if_neg (by decide), if_neg (by decide), if_neg (by decide), if_neg (by decide),
      if_pos rfl, if_pos hin]
    simp only [Builder.parsed, hread, PropertySpec.value]

theorem property_recorded {record : List Nat} {item : Str × PropertySpec}
    (h : PropertyRecorded b.strings.data b.data record item) (hname : '\x00' ∉ item.1)
    (hfits : item.2.Fits) :
    (b.parsed beyond).property (propertyRecordOf record) = some (propertyOf item) := by
  obtain ⟨node, nameOffset, type, value, size, rfl, hholds, hspec⟩ := h
  have hstring := stringAt_holds beyond hholds hname
  have hvalue := propertyValue_recorded beyond
    (propertyRecordOf [node, nameOffset, type, value, size]) hspec hfits
  unfold Blob.property
  rw [hvalue]
  simp only [propertyRecordOf, getD_cons_succ, getD_cons_zero, hstring]
  rfl

theorem properties_recorded {records : List (List Nat)} {items : List (Str × PropertySpec)}
    (hcount : b.propRecords.length < 2 ^ 32) {start : Nat}
    (hsegment : Segment b.propRecords start records)
    (h : List.Forall₂ (PropertyRecorded b.strings.data b.data) records items)
    (hnames : ∀ item ∈ items, '\x00' ∉ item.1) (hfits : ∀ item ∈ items, item.2.Fits) :
    (b.parsed beyond).properties items.length start = some (items.map propertyOf) := by
  induction h generalizing start with
  | nil => rfl
  | @cons record item records items hfirst _ ih =>
    have hget := hsegment.getElem? (i := 0) (by simp)
    have hcons : Segment b.propRecords start ([record] ++ records) := hsegment
    have hnext : Segment b.propRecords (start + 1) records := hcons.right
    have hlength := hsegment.length_le
    have hprop := property_recorded beyond hfirst (hnames item mem_cons_self)
      (hfits item mem_cons_self)
    have hrest := ih hnext (fun item hitem => hnames item (mem_cons_of_mem _ hitem))
      (fun item hitem => hfits item (mem_cons_of_mem _ hitem))
    have hrecord : (b.parsed beyond).props[start]? = some (propertyRecordOf record) := by
      simp only [Builder.parsed, List.getElem?_map]
      simpa using congrArg (Option.map propertyRecordOf) hget
    have hindex : (start + 1) % 2 ^ 32 = start + 1 := by
      rw [length_cons] at hlength
      exact Nat.mod_eq_of_lt (by omega)
    rw [length_cons, Blob.properties, hrecord, hindex]
    simp only [Option.bind_eq_bind, Option.bind_some, hprop, hrest]
    rfl

/-- What a node says that can be read back. -/
def Legible (node : Str × List (Str × PropertySpec)) : Prop :=
  '\x00' ∉ node.1 ∧ ∀ item ∈ node.2, '\x00' ∉ item.1 ∧ item.2.Fits

theorem node_recorded {record : List Nat} {node : Str × List (Str × PropertySpec)}
    (hcount : b.propRecords.length < 2 ^ 32)
    (h : NodeRecorded b.strings.data b.data b.propRecords record node) (hnode : Legible node) :
    (b.parsed beyond).node (nodeRecordOf record) = some (nodeOf node) := by
  obtain ⟨pathOffset, nameOffset, parentOffset, start, records, rfl, hpath, hname, hparent,
    hsegment, hall⟩ := h
  have hprops := properties_recorded beyond hcount hsegment hall
    (fun item hitem => (hnode.2 item hitem).1) fun item hitem => (hnode.2 item hitem).2
  unfold Blob.node
  simp only [nodeRecordOf, getD_cons_succ, getD_cons_zero, stringAt_holds beyond hpath hnode.1,
    stringAt_eq beyond hname, stringAt_eq beyond hparent, hprops, Option.bind_eq_bind, Option.bind_some]
  rfl

theorem Builder.Recorded.contents {done : List (Str × List (Str × PropertySpec))}
    (hb : b.Recorded done) (hcount : b.propRecords.length < 2 ^ 32)
    (hdone : ∀ node ∈ done, Legible node) :
    (b.parsed beyond).contents = some (done.map nodeOf) := by
  have hloop : ∀ {records : List (List Nat)} {nodes : List (Str × List (Str × PropertySpec))},
      List.Forall₂ (NodeRecorded b.strings.data b.data b.propRecords) records nodes →
      (∀ node ∈ nodes, Legible node) →
      (records.map nodeRecordOf).mapM (b.parsed beyond).node = some (nodes.map nodeOf) := by
    intro records nodes h hnodes
    induction h with
    | nil => rfl
    | @cons record node records nodes hfirst _ ih =>
      have hnode := node_recorded beyond hcount hfirst (hnodes node mem_cons_self)
      have hrest := ih fun node hmem => hnodes node (mem_cons_of_mem _ hmem)
      rw [map_cons, mapM_cons, hnode, hrest]
      rfl
  exact hloop hb.nodes hdone

theorem Builder.Recorded.length_nodes {done : List (Str × List (Str × PropertySpec))}
    (hb : b.Recorded done) : ∀ record ∈ b.nodeRecords, record.length = 5 := by
  intro record hrecord
  obtain ⟨i, hi, rfl⟩ := List.mem_iff_getElem.1 hrecord
  obtain ⟨_, _, _, _, _, hshape, -⟩ := List.Forall₂.get hb.nodes hi (hb.nodes.length_eq ▸ hi)
  exact congrArg List.length hshape

theorem length_propRecords_lt {bytes : List UInt8} (h : b.blob = .ok bytes) :
    b.propRecords.length < 2 ^ 32 := by
  obtain ⟨-, -, payload, -, hlt, -⟩ := blob_eq h
  exact hlt _ (by simp [headerNumbers])

end RadKernel.Overlay
