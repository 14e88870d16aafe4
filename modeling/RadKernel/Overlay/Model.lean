import RadKernel.Kernel.State
import RadKernel.Lib.Words

/-!
# The runtime tree and its overlays

`subsystems/RADOverlayRuntime.cpp`: tree nodes with properties, and the overlays they are loaded
from. Nodes, properties and overlay records are taken from tables that only `rad_overlay_reset`
empties, so that the records in use are the first of each table; they are lists here, in the order
of the tables. A node names its properties by their index.

A C string is the list of its bytes without the final zero. Null pointers are not passed.
-/

namespace RadKernel.Overlay

open Words

abbrev CString := List UInt8

def text (s : String) : CString := s.toList.map fun c => c.toNat.toUInt8

def treeMaxPath : Nat := 96
def treeMaxPropertyName : Nat := 64
def treeMaxValue : Nat := 96
def maxNodeProperties : Nat := 16
def maxArrayValues : Nat := 8
def maxTreeNodes : Nat := 64
def maxTreeProps : Nat := 192
def maxOverlays : Nat := 16

/-- `copy_string` into an array of `size` bytes. -/
def copyString (size : Nat) (src : CString) : CString := src.take (size - 1)

/-- The C string that starts at `offset`. -/
def cStringAt (memory : List UInt8) (offset : Nat) : CString :=
  (memory.drop offset).takeWhile fun b => b ≠ 0

def treePropBool : Nat := 1
def treePropU32 : Nat := 2
def treePropString : Nat := 3
def treePropU32Array : Nat := 4
def treePropStringArray : Nat := 5

/-! ## State -/

/-- The type of a property and what it holds; `arrayValues` are the first `array_count` cells of
the array. -/
structure PropertyValue where
  type : Nat := 0
  u32Value : Nat := 0
  boolValue : Bool := false
  stringValue : CString := []
  arrayValues : List Nat := []
  deriving DecidableEq, Repr

structure TreeProperty where
  name : CString := []
  value : PropertyValue := {}
  deriving DecidableEq, Repr

structure TreeNode where
  path : CString := []
  name : CString := []
  parent : CString := []
  module : CString := []
  properties : List Nat := []
  bound : Bool := false
  deriving DecidableEq, Repr

structure OverlayRecord where
  name : CString := []
  source : CString := []
  nodeCount : Nat := 0
  propertyCount : Nat := 0
  deriving DecidableEq, Repr

structure TreeState where
  nodes : List TreeNode := []
  props : List TreeProperty := []
  overlays : List OverlayRecord := []
  deriving DecidableEq, Repr

/-! ## Nodes and properties -/

/-- `find_node_mut`, and `rad_tree_find`. -/
def findNode (t : TreeState) (path : CString) : Option Nat :=
  t.nodes.findIdx? fun node => node.path = path

/-- Node `i`; what the source never does is to look at one that is not in use. -/
def TreeState.node (t : TreeState) (i : Nat) : TreeNode := t.nodes.getD i {}

def TreeState.prop (t : TreeState) (k : Nat) : TreeProperty := t.props.getD k {}

def setNode (t : TreeState) (i : Nat) (node : TreeNode) : TreeState :=
  { t with nodes := t.nodes.set i node }

def setValue (t : TreeState) (k : Nat) (value : PropertyValue) : TreeState :=
  { t with props := t.props.set k { t.prop k with value := value } }

/-- The name of a node that exists is replaced by one that is not empty. -/
def renamed (size : Nat) (old new : CString) : CString :=
  if new = [] then old else copyString size new

def allocateNode (t : TreeState) (path name parent : CString) : Option Nat × TreeState :=
  match findNode t path with
  | some i =>
    let node := t.node i
    (some i, setNode t i { node with
      name := renamed treeMaxPropertyName node.name name
      parent := renamed treeMaxPath node.parent parent })
  | none =>
    if maxTreeNodes ≤ t.nodes.length then (none, t)
    else
      let node : TreeNode :=
        { path := copyString treeMaxPath path
          name := copyString treeMaxPropertyName name
          parent := copyString treeMaxPath parent }
      (some t.nodes.length, { t with nodes := t.nodes ++ [node] })

/-- `find_property_mut`. -/
def findProperty (t : TreeState) (i : Nat) (name : CString) : Option Nat :=
  (t.node i).properties.find? fun k => k < t.props.length ∧ (t.prop k).name = name

def allocateProperty (t : TreeState) (i : Nat) (name : CString) : Option Nat × TreeState :=
  match findProperty t i name with
  | some k => (some k, t)
  | none =>
    let node := t.node i
    if maxNodeProperties ≤ node.properties.length then (none, t)
    else if maxTreeProps ≤ t.props.length then (none, t)
    else
      let k := t.props.length
      let t := setNode t i { node with properties := node.properties ++ [k] }
      (some k, { t with props := t.props ++ [{ name := copyString treeMaxPropertyName name }] })

/-- What a property holds, when the node has it. -/
def TreeState.value? (t : TreeState) (i : Nat) (name : CString) : Option PropertyValue :=
  (findProperty t i name).map fun k => (t.prop k).value

def TreeState.valueOf? (t : TreeState) (i : Nat) (name : CString) (type : Nat) :
    Option PropertyValue :=
  (t.value? i name).filter fun value => value.type = type

def lastSlash (path : CString) : Option Nat :=
  (List.range path.length).reverse.find? fun j => path[j]? = some 47

/-- `path_parent_name`: the parent and the name. -/
def pathParentName (path : CString) : CString × CString :=
  if path = [] ∨ path = text "/" then ([], [])
  else
    match lastSlash path with
    | none => ([], copyString treeMaxPropertyName path)
    | some j =>
      (if j = 0 then text "/" else copyString treeMaxPath (path.take j),
        copyString treeMaxPropertyName (path.drop (j + 1)))

/-- `ensure_node_path`; a parent is shorter than its path, so the rounds do not run out. -/
def ensureNodes : Nat → TreeState → CString → Option Nat × TreeState
  | 0, t, _ => (none, t)
  | rounds + 1, t, path =>
    if path = [] ∨ path.head? ≠ some 47 then (none, t)
    else
      match findNode t path with
      | some i => (some i, t)
      | none =>
        let (parent, name) := pathParentName path
        if parent ≠ [] ∧ parent ≠ path ∧ findNode t parent = none then
          match ensureNodes rounds t parent with
          | (none, t) => (none, t)
          | (some _, t) => allocateNode t path name parent
        else allocateNode t path name parent

def ensureNodePath (t : TreeState) (path : CString) : Option Nat × TreeState :=
  ensureNodes (path.length + 1) t path

/-- The property `module` is also the module of its node. -/
def setModule (t : TreeState) (i : Nat) (module : CString) : TreeState :=
  setNode t i { t.node i with module := copyString treeMaxPropertyName module }

def setBound (t : TreeState) (i : Nat) (bound : Bool) : TreeState :=
  setNode t i { t.node i with bound := bound }

/-- `set_property_bool`, `set_property_u32` and `set_property_string`. -/
def setProperty (t : TreeState) (i : Nat) (name : CString) (value : PropertyValue) : TreeState :=
  match allocateProperty t i name with
  | (none, t) => t
  | (some k, t) => setValue t k value

def setPropertyBool (t : TreeState) (i : Nat) (name : CString) (value : Bool) : TreeState :=
  setProperty t i name { type := treePropBool, boolValue := value }

def setPropertyU32 (t : TreeState) (i : Nat) (name : CString) (value : Nat) : TreeState :=
  setProperty t i name { type := treePropU32, u32Value := value }

def setPropertyString (t : TreeState) (i : Nat) (name value : CString) : TreeState :=
  let stored := setProperty t i name
    { type := treePropString, stringValue := copyString treeMaxValue value }
  if name = text "module" ∧ (findProperty stored i name).isSome then setModule stored i value
  else stored

/-! ## Reading properties -/

def radTreeGetPropertyU32 (t : TreeState) (i : Nat) (name : CString) : Except Status Nat :=
  match t.value? i name with
  | none => .error .notFound
  | some value =>
    if value.type ≠ treePropU32 then .error .invalidArgument else .ok value.u32Value

def radTreeGetPropertyBool (t : TreeState) (i : Nat) (name : CString) : Except Status Bool :=
  match t.value? i name with
  | none => .error .notFound
  | some value =>
    if value.type ≠ treePropBool then .error .invalidArgument else .ok value.boolValue

/-- The buffer has `size` bytes. -/
def radTreeGetPropertyString (t : TreeState) (i : Nat) (name : CString) (size : Nat) :
    Except Status CString :=
  match t.value? i name with
  | none => .error .notFound
  | some value =>
    if size = 0 then .error .notFound
    else if value.type ≠ treePropString ∧ value.type ≠ treePropStringArray then
      .error .invalidArgument
    else .ok (copyString size value.stringValue)

/-- The count that is returned and the values that are stored. -/
def radTreeGetPropertyU32Array (t : TreeState) (i : Nat) (name : CString) (capacity : Nat) :
    Nat × List Nat :=
  match t.valueOf? i name treePropU32Array with
  | none => (0, [])
  | some value => (value.arrayValues.length, value.arrayValues.take capacity)

/-! ## Overlays in memory -/

/-- `OverlayNodeRecord`. -/
structure OverlayNodeRecord where
  pathOffset : Nat
  nameOffset : Nat
  parentOffset : Nat
  propertyStart : Nat
  propertyCount : Nat
  deriving DecidableEq, Repr

/-- `OverlayPropertyRecord`. -/
structure OverlayPropertyRecord where
  nodeIndex : Nat
  nameOffset : Nat
  type : Nat
  value : Nat
  size : Nat
  deriving DecidableEq, Repr

/-- The parts of an overlay that `rad_overlay_load_memory` finds in a byte string. -/
structure Blob where
  strings : List UInt8
  nodes : List OverlayNodeRecord
  props : List OverlayPropertyRecord
  data : List UInt8
  /-- The memory behind the byte string. -/
  beyond : List UInt8
  deriving DecidableEq, Repr

def headerBytes : Nat := 32
def recordBytes : Nat := 20
def overlayVersion : Nat := 1

/-- The number of `size` bytes at `offset`. -/
def fieldAt (bytes : List UInt8) (offset size : Nat) : Nat := decode ((bytes.drop offset).take size)

def overlayNodeRecord (bytes : List UInt8) (i : Nat) : OverlayNodeRecord where
  pathOffset := fieldAt bytes (recordBytes * i) 4
  nameOffset := fieldAt bytes (recordBytes * i + 4) 4
  parentOffset := fieldAt bytes (recordBytes * i + 8) 4
  propertyStart := fieldAt bytes (recordBytes * i + 12) 4
  propertyCount := fieldAt bytes (recordBytes * i + 16) 4

def overlayPropertyRecord (bytes : List UInt8) (i : Nat) : OverlayPropertyRecord where
  nodeIndex := fieldAt bytes (recordBytes * i) 4
  nameOffset := fieldAt bytes (recordBytes * i + 4) 4
  type := fieldAt bytes (recordBytes * i + 8) 4
  value := fieldAt bytes (recordBytes * i + 12) 4
  size := fieldAt bytes (recordBytes * i + 16) 4

/-- One round of the inner loop of `crc32_update`. -/
def crcBit (crc : UInt32) : UInt32 := (crc >>> 1) ^^^ (0xedb88320 &&& (0 - (crc &&& 1)))

def crcByte (crc : UInt32) (byte : UInt8) : UInt32 :=
  (List.range 8).foldl (fun crc _ => crcBit crc) (crc ^^^ byte.toUInt32)

def crc32Update (crc : UInt32) (data : List UInt8) : UInt32 := ~~~data.foldl crcByte (~~~crc)

/-- The checks that `rad_overlay_load_memory` makes before it takes an overlay record; `size_t` has
64 bits. -/
def parseBlob (bytes beyond : List UInt8) : Option Blob :=
  if bytes.length < headerBytes then none
  else if bytes.take 4 ≠ text "RADO" ∨ fieldAt bytes 4 2 ≠ overlayVersion then none
  else
    let stringSize := fieldAt bytes 8 4
    let nodeCount := fieldAt bytes 12 4
    let propertyCount := fieldAt bytes 16 4
    let dataSize := fieldAt bytes 20 4
    let payload := bytes.drop headerBytes
    let nodesBytes := nodeCount * recordBytes
    let propsBytes := propertyCount * recordBytes
    if payload.length ≠ stringSize + nodesBytes + propsBytes + dataSize then none
    else if (crc32Update 0 payload).toNat ≠ fieldAt bytes 28 4 then none
    else
      let nodes := payload.drop stringSize
      let props := nodes.drop nodesBytes
      some
        { strings := payload.take stringSize
          nodes := (List.range nodeCount).map (overlayNodeRecord nodes)
          props := (List.range propertyCount).map (overlayPropertyRecord props)
          data := props.drop propsBytes
          beyond }

/-- `string_at`. -/
def Blob.stringAt (b : Blob) (offset : Nat) : Option CString :=
  if b.strings.length ≤ offset then none
  else if 0 ∈ b.strings.drop offset then some (cStringAt b.strings offset)
  else none

def Blob.inData (b : Blob) (record : OverlayPropertyRecord) : Prop :=
  record.value ≤ b.data.length ∧ record.size ≤ b.data.length - record.value

instance (b : Blob) (record : OverlayPropertyRecord) : Decidable (b.inData record) :=
  inferInstanceAs (Decidable (_ ∧ _))

/-- The value that `apply_property` stores. A string in the data is read up to its zero, which may
lie behind the byte string. -/
def Blob.propertyValue (b : Blob) (record : OverlayPropertyRecord) : Option PropertyValue :=
  let value : PropertyValue := { type := record.type }
  if record.type = treePropBool then some { value with boolValue := record.value ≠ 0 }
  else if record.type = treePropU32 then some { value with u32Value := record.value }
  else if record.type = treePropString then
    (b.stringAt record.value).map fun s =>
      { value with stringValue := copyString treeMaxValue s }
  else if record.type = treePropU32Array then
    if b.inData record ∧ record.size % 4 = 0 then
      some { value with
        arrayValues := (List.range (min maxArrayValues (record.size / 4))).map fun j =>
          fieldAt b.data (record.value + 4 * j) 4 }
    else none
  else if record.type = treePropStringArray then
    if b.inData record then
      some { value with
        stringValue := copyString treeMaxValue (cStringAt (b.data ++ b.beyond) record.value) }
    else none
  else none

def applyProperty (b : Blob) (t : TreeState) (i : Nat) (record : OverlayPropertyRecord) :
    Status × TreeState :=
  match b.stringAt record.nameOffset with
  | none => (.invalidArgument, t)
  | some name =>
    match allocateProperty t i name with
    | (none, t) => (.noMemory, t)
    | (some k, t) =>
      match b.propertyValue record with
      | none => (.invalidArgument, setValue t k { type := record.type })
      | some value =>
        let t := setValue t k value
        if record.type = treePropString ∧ name = text "module" then
          (.ok, setModule t i ((b.stringAt record.value).getD []))
        else (.ok, t)

def setOverlay (t : TreeState) (o : Nat) (f : OverlayRecord → OverlayRecord) : TreeState :=
  { t with overlays := t.overlays.modify o f }

/-- The property `name` of the root is the name of the overlay. -/
def nameOverlay (b : Blob) (t : TreeState) (o i : Nat) (path : CString)
    (record : OverlayPropertyRecord) : TreeState :=
  if path = text "/" ∧ b.stringAt record.nameOffset = some (text "name") then
    match t.valueOf? i (text "name") treePropString with
    | none => t
    | some value =>
      setOverlay t o fun overlay =>
        { overlay with name := copyString treeMaxPropertyName value.stringValue }
  else t

/-- The next step is taken when the status of the one before is `RAD_STATUS_OK`. -/
def andThen (r : Status × TreeState) (next : TreeState → Status × TreeState) : Status × TreeState :=
  if r.1 = .ok then next r.2 else r

/-- The loop over the properties of a node, from index `k` of the records on. -/
def loadProperties (b : Blob) (o i : Nat) (path : CString) :
    Nat → Nat → TreeState → Status × TreeState
  | 0, _, t => (.ok, t)
  | count + 1, k, t =>
    match b.props[k]? with
    | none => (.invalidArgument, t)
    | some record =>
      andThen (applyProperty b t i record) fun t =>
        loadProperties b o i path count ((k + 1) % 2 ^ 32) (nameOverlay b t o i path record)

def loadNode (b : Blob) (o : Nat) (t : TreeState) (record : OverlayNodeRecord) :
    Status × TreeState :=
  match b.stringAt record.pathOffset, b.stringAt record.nameOffset,
      b.stringAt record.parentOffset with
  | some path, some name, some parent =>
    match allocateNode t path name parent with
    | (none, t) => (.noMemory, t)
    | (some i, t) => loadProperties b o i path record.propertyCount record.propertyStart t
  | _, _, _ => (.invalidArgument, t)

def loadNodes (b : Blob) (o : Nat) : List OverlayNodeRecord → TreeState → Status × TreeState
  | [], t => (.ok, t)
  | record :: rest, t => andThen (loadNode b o t record) (loadNodes b o rest)

/-- The record that `allocate_overlay_record` hands out, as it is filled in. -/
def newOverlay (b : Blob) : OverlayRecord where
  name := text "overlay"
  source := text "memory"
  nodeCount := b.nodes.length
  propertyCount := b.props.length

/-- `rad_overlay_load_memory`; `beyond` is what lies in memory behind the bytes. -/
def radOverlayLoadMemory (t : TreeState) (bytes beyond : List UInt8) : Status × TreeState :=
  match parseBlob bytes beyond with
  | none => (.invalidArgument, t)
  | some b =>
    if maxOverlays ≤ t.overlays.length then (.noMemory, t)
    else
      loadNodes b t.overlays.length b.nodes { t with overlays := t.overlays ++ [newOverlay b] }

/-- The tree after `rad_overlay_reset`. -/
def radOverlayReset : TreeState := (allocateNode {} (text "/") [] []).2

end RadKernel.Overlay
