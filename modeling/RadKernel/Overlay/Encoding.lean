import RadKernel.Overlay.Compile

/-!
# What the compiler writes down

Strings and arrays are found at their offsets, and what is found stays there while the string
table, the data and the records grow.
-/

namespace RadKernel.Overlay

open Words List

/-! ## UTF-8 -/

theorem utf8_injective : Function.Injective utf8 := by
  intro s t h
  have hbytes : (String.ofList s).toByteArray = (String.ofList t).toByteArray := by
    exact congrArg List.toByteArray h
  have hlist := congrArg String.toList (String.toByteArray_inj.1 hbytes)
  simpa using hlist

theorem zero_notMem_utf8EncodeChar {c : Char} (hc : c ≠ '\x00') : 0 ∉ String.utf8EncodeChar c := by
  have hv : c.val.toNat ≠ 0 := fun h => hc (Char.ext (UInt32.toNat_inj.1 h))
  have hbyte : ∀ n, n < 256 → n ≠ 0 → (0 : UInt8) ≠ UInt8.ofNat n := by
    intro n hn h0 h
    have hnat := congrArg UInt8.toNat h
    simp at hnat
    omega
  unfold String.utf8EncodeChar
  dsimp only
  split_ifs <;> simp only [mem_cons, not_mem_nil, or_false, not_or]
  · exact hbyte _ (by omega) (by omega)
  · refine ⟨hbyte _ ?_ ?_, hbyte _ ?_ ?_⟩ <;> omega
  · refine ⟨hbyte _ ?_ ?_, hbyte _ ?_ ?_, hbyte _ ?_ ?_⟩ <;> omega
  · refine ⟨hbyte _ ?_ ?_, hbyte _ ?_ ?_, hbyte _ ?_ ?_, hbyte _ ?_ ?_⟩ <;> omega

/-- A string without NUL has none in its encoding. -/
theorem zero_notMem_utf8 {s : Str} (h : '\x00' ∉ s) : 0 ∉ utf8 s := by
  intro hmem
  obtain ⟨c, hc, h0⟩ := List.mem_flatMap.1 hmem
  refine zero_notMem_utf8EncodeChar ?_ h0
  rintro rfl
  exact h hc

/-! ## Segments -/

/-- The items are those of the list from the offset on. -/
def Segment {α : Type} (l : List α) (offset : Nat) (items : List α) : Prop :=
  ∃ before after, l = before ++ items ++ after ∧ before.length = offset

theorem Segment.mono {α : Type} {l l' items : List α} {offset : Nat} (h : Segment l offset items)
    (hl : l <+: l') : Segment l' offset items := by
  obtain ⟨before, after, rfl, hlength⟩ := h
  obtain ⟨more, rfl⟩ := hl
  exact ⟨before, after ++ more, by simp only [append_assoc], hlength⟩

theorem Segment.last {α : Type} (l items : List α) : Segment (l ++ items) l.length items :=
  ⟨l, [], (append_nil _).symm, rfl⟩

/-- The string stands in the table at the offset, with its final zero. -/
def HoldsString (strings : List UInt8) (offset : Nat) (s : Str) : Prop :=
  Segment strings offset (utf8 s ++ [0])

def StringTable.Sound (table : StringTable) : Prop :=
  ∀ s offset, table.offsets.lookup s = some offset → HoldsString table.data offset s

namespace StringTable

variable {table : StringTable}

theorem prefix_add (table : StringTable) (s : Str) : table.data <+: (table.add s).2.data := by
  unfold add
  split
  · exact prefix_rfl
  · rw [append_assoc]
    exact prefix_append ..

theorem Sound.add (h : table.Sound) (s : Str) : (table.add s).2.Sound := by
  intro s' offset hs'
  unfold StringTable.add at hs' ⊢
  cases hs : table.offsets.lookup s with
  | some o =>
    rw [hs] at hs'
    exact h s' offset hs'
  | none =>
    rw [hs] at hs'
    rw [append_assoc]
    rw [lookup_cons] at hs'
    split at hs'
    · next heq =>
      cases hs'
      rw [eq_of_beq heq]
      exact .last ..
    · exact (h s' offset hs').mono (prefix_append ..)

theorem Sound.holds (h : table.Sound) (s : Str) :
    HoldsString (table.add s).2.data (table.add s).1 s := by
  unfold StringTable.add
  cases hs : table.offsets.lookup s with
  | some o => exact h s o hs
  | none =>
    rw [append_assoc]
    exact .last ..

end StringTable

/-! ## Records -/

/-- What the fields of a record say about the value of a property. -/
def SpecRecorded (strings data : List UInt8) (type value size : Nat) : PropertySpec → Prop
  | .bool v => type = treePropBool ∧ value = v.toNat
  | .u32 n => type = treePropU32 ∧ value = n
  | .string s => type = treePropString ∧ HoldsString strings value s
  | .u32s l => type = treePropU32Array ∧ size = l.length * 4 ∧ (∀ n ∈ l, n < 2 ^ 32) ∧
      Segment data value (l.flatMap (encode 4))
  | .strings l => type = treePropStringArray ∧ size = (joined l).length ∧
      Segment data value (joined l)

def PropertyRecorded (strings data : List UInt8) (record : List Nat) (item : Str × PropertySpec) :
    Prop :=
  ∃ node nameOffset type value size, record = [node, nameOffset, type, value, size] ∧
    HoldsString strings nameOffset item.1 ∧ SpecRecorded strings data type value size item.2

def NodeRecorded (strings data : List UInt8) (props : List (List Nat)) (record : List Nat)
    (node : Str × List (Str × PropertySpec)) : Prop :=
  ∃ pathOffset nameOffset parentOffset start records,
    record = [pathOffset, nameOffset, parentOffset, start, node.2.length] ∧
      HoldsString strings pathOffset node.1 ∧ HoldsString strings nameOffset (nodeName node.1) ∧
      HoldsString strings parentOffset (parentPath node.1) ∧ Segment props start records ∧
      List.Forall₂ (PropertyRecorded strings data) records node.2

variable {strings strings' data' data : List UInt8} {b b' : Builder}
  {items : List (Str × PropertySpec)} {record : List Nat}

theorem PropertyRecorded.mono
    {item : Str × PropertySpec} (h : PropertyRecorded strings data record item)
    (hstrings : strings <+: strings') (hdata : data <+: data') :
    PropertyRecorded strings' data' record item := by
  obtain ⟨node, nameOffset, type, value, size, hrecord, hname, hspec⟩ := h
  refine ⟨node, nameOffset, type, value, size, hrecord, hname.mono hstrings, ?_⟩
  cases hitem : item.2 with
  | bool v => rwa [hitem] at hspec
  | u32 n => rwa [hitem] at hspec
  | string s =>
    rw [hitem] at hspec
    exact ⟨hspec.1, hspec.2.mono hstrings⟩
  | u32s l =>
    rw [hitem] at hspec
    exact ⟨hspec.1, hspec.2.1, hspec.2.2.1, hspec.2.2.2.mono hdata⟩
  | strings l =>
    rw [hitem] at hspec
    exact ⟨hspec.1, hspec.2.1, hspec.2.2.mono hdata⟩

theorem NodeRecorded.mono {props props' : List (List Nat)} {node : Str × List (Str × PropertySpec)}
    (h : NodeRecorded strings data props record node) (hstrings : strings <+: strings')
    (hdata : data <+: data') (hprops : props <+: props') :
    NodeRecorded strings' data' props' record node := by
  obtain ⟨pathOffset, nameOffset, parentOffset, start, records, hrecord, hpath, hname, hparent,
    hsegment, hall⟩ := h
  exact ⟨pathOffset, nameOffset, parentOffset, start, records, hrecord, hpath.mono hstrings,
    hname.mono hstrings, hparent.mono hstrings, hsegment.mono hprops,
    hall.imp fun _ _ hp => hp.mono hstrings hdata⟩

/-! ## The loops -/

/-- Everything written so far stays. -/
structure Builder.Grows (b b' : Builder) : Prop where
  strings : b.strings.data <+: b'.strings.data
  data : b.data <+: b'.data
  props : b.propRecords <+: b'.propRecords

theorem Builder.Grows.trans {b'' : Builder} (h : b.Grows b') (h' : b'.Grows b'') : b.Grows b'' :=
  ⟨h.strings.trans h'.strings, h.data.trans h'.data, h.props.trans h'.props⟩

theorem Builder.Grows.refl (b : Builder) : b.Grows b :=
  ⟨prefix_rfl, prefix_rfl, prefix_rfl⟩

theorem pack_eq {numbers : List Nat} {bytes : List UInt8} (h : pack numbers = .ok bytes) :
    (∀ n ∈ numbers, n < 2 ^ 32) ∧ bytes = numbers.flatMap (encode 4) := by
  unfold pack at h
  split_ifs at h with hall
  exact ⟨by simpa using hall, (Except.ok.inj h).symm⟩

theorem buildProperty_recorded (hb : b.strings.Sound) {name : Str}
    {spec : PropertySpec} (h : buildProperty b name spec = .ok b') :
    b'.strings.Sound ∧ b.Grows b' ∧ b'.nodeRecords = b.nodeRecords ∧
      ∃ record, b'.propRecords = b.propRecords ++ [record] ∧
        PropertyRecorded b'.strings.data b'.data record (name, spec) := by
  have hsound := hb.add name
  have hname := hb.holds name
  have hgrows := b.strings.prefix_add name
  unfold buildProperty at h
  cases spec with
  | bool v =>
    cases h
    exact ⟨hsound, ⟨hgrows, prefix_rfl, prefix_append ..⟩, rfl, _, rfl,
      _, _, _, _, _, rfl, hname, rfl, rfl⟩
  | u32 n =>
    cases h
    exact ⟨hsound, ⟨hgrows, prefix_rfl, prefix_append ..⟩, rfl, _, rfl,
      _, _, _, _, _, rfl, hname, rfl, rfl⟩
  | string s =>
    cases h
    have hmore := (b.strings.add name).2.prefix_add s
    exact ⟨hsound.add s, ⟨hgrows.trans hmore, prefix_rfl, prefix_append ..⟩, rfl, _, rfl,
      _, _, _, _, _, rfl, hname.mono hmore, rfl, hsound.holds s⟩
  | u32s l =>
    dsimp only at h
    cases hpack : pack l with
    | error e =>
      rw [hpack] at h
      cases h
    | ok bytes =>
      rw [hpack] at h
      obtain ⟨hlt, rfl⟩ := pack_eq hpack
      cases h
      exact ⟨hsound, ⟨hgrows, prefix_append .., prefix_append ..⟩, rfl, _, rfl,
        _, _, _, _, _, rfl, hname, rfl, rfl, hlt, .last ..⟩
  | strings l =>
    cases h
    exact ⟨hsound, ⟨hgrows, prefix_append .., prefix_append ..⟩, rfl, _, rfl,
      _, _, _, _, _, rfl, hname, rfl, rfl, .last ..⟩

theorem buildProperties_recorded (hb : b.strings.Sound)
    (h : items.foldlM (fun b item => buildProperty b item.1 item.2) b = .ok b') :
    b'.strings.Sound ∧ b.Grows b' ∧ b'.nodeRecords = b.nodeRecords ∧
      ∃ records, b'.propRecords = b.propRecords ++ records ∧
        List.Forall₂ (PropertyRecorded b'.strings.data b'.data) records items := by
  induction items generalizing b with
  | nil =>
    obtain rfl : b = b' := Except.ok.inj h
    exact ⟨hb, .refl b, rfl, [], (append_nil _).symm, .nil⟩
  | cons item items ih =>
    rw [foldlM_cons] at h
    cases hfirst : buildProperty b item.1 item.2 with
    | error e =>
      rw [hfirst] at h
      cases h
    | ok b₁ =>
      rw [hfirst] at h
      obtain ⟨hb₁, hgrows₁, hnodes₁, record, hprops₁, hrecord⟩ := buildProperty_recorded hb hfirst
      obtain ⟨hb', hgrows, hnodes, records, hprops, hall⟩ := ih hb₁ h
      refine ⟨hb', hgrows₁.trans hgrows, hnodes.trans hnodes₁, record :: records, ?_, .cons ?_ hall⟩
      · rw [hprops, hprops₁, append_assoc]
        rfl
      · exact hrecord.mono hgrows.strings hgrows.data

theorem length_of_recorded {records : List (List Nat)}
    (h : List.Forall₂ (PropertyRecorded strings data) records items)
    (hrecord : record ∈ records) : record.length = 5 := by
  induction h with
  | nil => cases hrecord
  | cons hfirst _ ih =>
    rcases List.mem_cons.1 hrecord with rfl | hrest
    · obtain ⟨_, _, _, _, _, rfl, -⟩ := hfirst
      rfl
    · exact ih hrest

/-- The records stand for the nodes that are done. -/
structure Builder.Recorded (b : Builder) (done : List (Str × List (Str × PropertySpec))) : Prop where
  sound : b.strings.Sound
  props : ∀ record ∈ b.propRecords, record.length = 5
  nodes : List.Forall₂ (NodeRecorded b.strings.data b.data b.propRecords) b.nodeRecords done

theorem Builder.Recorded.buildNode
    {done : List (Str × List (Str × PropertySpec))} (hb : b.Recorded done) {path : Str}
    {properties : Properties} (h : buildNode b path properties = .ok b') :
    b'.Recorded (done ++ [(path, sortedItems properties)]) := by
  unfold Overlay.buildNode at h
  cases hitems : (sortedItems properties).foldlM
      (fun b item => buildProperty b item.1 item.2) b with
  | error e =>
    rw [hitems] at h
    cases h
  | ok b₁ =>
    rw [hitems] at h
    cases h
    obtain ⟨hb₁, hgrows, hnodes, records, hprops, hall⟩ := buildProperties_recorded hb.sound hitems
    have hpath := b₁.strings.prefix_add path
    have hname := (b₁.strings.add path).2.prefix_add (nodeName path)
    have hparent := ((b₁.strings.add path).2.add (nodeName path)).2.prefix_add (parentPath path)
    have hmore := (hpath.trans hname).trans hparent
    have hcount : b₁.propRecords.length - b.propRecords.length =
        (sortedItems properties).length := by
      rw [hprops, length_append, ← hall.length_eq]
      omega
    refine ⟨((hb₁.add path).add _).add _, ?_, rel_append ?_ (.cons ?_ .nil)⟩
    · intro record hrecord
      rw [hprops] at hrecord
      rcases List.mem_append.1 hrecord with hmem | hmem
      · exact hb.props record hmem
      · exact length_of_recorded hall hmem
    · rw [hnodes]
      exact hb.nodes.imp fun _ _ hn =>
        hn.mono (hgrows.strings.trans hmore) hgrows.data hgrows.props
    · rw [hcount]
      refine ⟨_, _, _, _, records, rfl, (hb₁.holds path).mono (hname.trans hparent),
        ((hb₁.add path).holds _).mono hparent, ((hb₁.add path).add _).holds _, ?_,
        hall.imp fun _ _ hp => hp.mono hmore prefix_rfl⟩
      rw [hprops]
      exact .last ..

/-- The nodes in the order in which they are written. -/
def sortedNodes (nodes : Nodes) : List (Str × List (Str × PropertySpec)) :=
  (nodes.keys.insertionSort fun p q => pathLe p q).map fun path => (path, sortedItems ((nodes.lookup path).getD ∅))

theorem buildNodes_recorded {nodes : Nodes} (h : buildNodes nodes = .ok b) :
    b.Recorded (sortedNodes nodes) := by
  have hloop : ∀ (paths : List Str) (done : List (Str × List (Str × PropertySpec)))
      (b b' : Builder), b.Recorded done →
      paths.foldlM (fun b path => buildNode b path ((nodes.lookup path).getD ∅)) b = .ok b' →
      b'.Recorded (done ++ paths.map fun path =>
        (path, sortedItems ((nodes.lookup path).getD ∅))) := by
    intro paths
    induction paths with
    | nil =>
      intro done b b' hb hb'
      cases hb'
      simpa using hb
    | cons path paths ih =>
      intro done b b' hb hb'
      rw [foldlM_cons] at hb'
      cases hnode : buildNode b path ((nodes.lookup path).getD ∅) with
      | error e =>
        rw [hnode] at hb'
        cases hb'
      | ok b₁ =>
        rw [hnode] at hb'
        simpa using ih _ b₁ b' (hb.buildNode hnode) hb'
  exact hloop _ [] {} b ⟨fun s offset hs => (by cases hs), fun _ h => (by cases h), .nil⟩ h

end RadKernel.Overlay
