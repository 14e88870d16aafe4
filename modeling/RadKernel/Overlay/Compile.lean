import RadKernel.Lib.Crc32
import RadKernel.Overlay.Model
import Mathlib.Data.List.AList
import Mathlib.Data.List.Sort
import Mathlib.Data.Char
import Mathlib.Data.List.Lex

/-!
# The overlay compiler

`tools/radoverlay_compile.py`, from the parsed document to the bytes. Strings are lists of Unicode
scalar values, dictionaries lists of pairs or, where they are built, association lists without
duplicate keys. What `str` makes of a value that is no string is a parameter.
-/

namespace RadKernel.Overlay

open Words

abbrev Str := List Char

/-- What `json.load` returns. Of a number that is no integer only its truth value is used. -/
inductive Json where
  | null
  | bool (b : Bool)
  | int (n : Int)
  | float (truth : Bool)
  | str (s : Str)
  | arr (items : List Json)
  | obj (fields : List (Str × Json))

/-- The truth value of a Python object. -/
def Json.truth : Json → Bool
  | .null => false
  | .bool b => b
  | .int n => n ≠ 0
  | .float truth => truth
  | .str s => s ≠ []
  | .arr items => !items.isEmpty
  | .obj fields => !fields.isEmpty

/-- The value of a property with its type. -/
inductive PropertySpec where
  | bool (b : Bool)
  | u32 (n : Nat)
  | string (s : Str)
  | u32s (l : List Nat)
  | strings (l : List Str)
  deriving DecidableEq, Repr

abbrev Properties := AList fun _ : Str => PropertySpec
abbrev Nodes := AList fun _ : Str => Properties

/-! ## Paths -/

/-- `path.rstrip("/")`. -/
def rstrip (path : Str) : Str := (path.reverse.dropWhile (· = '/')).reverse

/-- `path.rsplit("/", 1)`, the last part and the part before it. -/
def rsplitLast (path : Str) : Str := (path.reverse.takeWhile (· ≠ '/')).reverse
def rsplitFirst (path : Str) : Str := ((path.reverse.dropWhile (· ≠ '/')).drop 1).reverse

def nodeName (path : Str) : Str := if path = ['/'] then [] else rsplitLast (rstrip path)

def parentPath (path : Str) : Str :=
  if path = ['/'] ∨ '/' ∉ rstrip path then []
  else
    let parent := rsplitFirst (rstrip path)
    if parent = [] then ['/'] else parent

def joinPath (parent child : Str) : Str :=
  if child = [] then if parent = [] then ['/'] else parent
  else if child.head? = some '/' then child
  else if parent = ['/'] then '/' :: child
  else rstrip parent ++ '/' :: child

/-! ## Collecting nodes -/

def validateU32 (value : Int) (name : Str) : Except String Nat :=
  if value < 0 ∨ 0xffffffff < value then .error (String.ofList name ++ " must be a uint32")
  else .ok value.toNat

/-- An `int` or a `bool`, which is one. -/
def Json.int? : Json → Option Int
  | .bool b => some b.toNat
  | .int n => some n
  | _ => none

def Json.str? : Json → Option Str
  | .str s => some s
  | _ => none

def Json.obj? : Json → Option (List (Str × Json))
  | .obj fields => some fields
  | _ => none

def unsupported (path name : Str) : String :=
  "unsupported property type for " ++ String.ofList path ++ ":" ++ String.ofList name

/-- The type and the value of a property, as `add_property` tells them. -/
def propertySpec (path name : Str) : Json → Except String PropertySpec
  | .bool b => .ok (.bool b)
  | .int n => (validateU32 n name).map .u32
  | .str s => .ok (.string s)
  | .arr items =>
    match items.mapM Json.int? with
    | some ints => (ints.mapM fun n => validateU32 n name).map .u32s
    | none =>
      match items.mapM Json.str? with
      | some strs => .ok (.strings strs)
      | none => .error (unsupported path name)
  | _ => .error (unsupported path name)

def setDefault (nodes : Nodes) (path : Str) : Nodes :=
  if path ∈ nodes then nodes else nodes.insert path ∅

def addProperty (nodes : Nodes) (path name : Str) (value : Json) : Except String Nodes := do
  let nodes := setDefault nodes path
  let spec ← propertySpec path name value
  return nodes.insert path (((nodes.lookup path).getD ∅).insert name spec)

section

variable (pyStr : Json → Str)

def childName (key : Str) (index : Nat) (fields : List (Str × Json)) : Str :=
  match fields.lookup "name".toList with
  | none => key ++ '@' :: (toString index).toList
  | some (.str s) => s
  | some value => pyStr value

mutual

/-- The loop of `add_object_as_tree` over the items of an object. -/
def addFields (path : Str) (nodes : Nodes) : List (Str × Json) → Except String Nodes
  | [] => .ok nodes
  | (key, value) :: rest => do
    let nodes ← addField path key nodes value
    addFields path nodes rest

def addField (path key : Str) (nodes : Nodes) : Json → Except String Nodes
  | .obj fields =>
    addFields (joinPath path key) (setDefault nodes (joinPath path key)) fields
  | .arr items =>
    if items.isEmpty || items.any fun item => item.obj?.isNone then
      addProperty nodes path key (.arr items)
    else addItems (joinPath path key) key 0 (setDefault nodes (joinPath path key)) items
  | value => addProperty nodes path key value

def addItems (root key : Str) (index : Nat) (nodes : Nodes) : List Json → Except String Nodes
  | [] => .ok nodes
  | .obj fields :: rest => do
    let child := joinPath root (childName pyStr key index fields)
    let nodes ← addFields child (setDefault nodes child) fields
    addItems root key (index + 1) nodes rest
  | _ :: rest => addItems root key (index + 1) nodes rest

end

def addObjectAsTree (nodes : Nodes) (path : Str) (fields : List (Str × Json)) :
    Except String Nodes :=
  addFields pyStr path (setDefault nodes path) fields

/-- A field of an object that is to be an object itself, and may be missing. -/
def objectField (fields : List (Str × Json)) (name message : String) :
    Except String (List (Str × Json)) :=
  match fields.lookup name.toList with
  | none => .ok []
  | some value =>
    if value.truth then
      match value.obj? with
      | some fields => .ok fields
      | none => .error message
    else .ok []

def addProperties (nodes : Nodes) (path : Str) (fields : List (Str × Json)) : Except String Nodes :=
  fields.foldlM (fun nodes field => addProperty nodes path field.1 field.2) nodes

def addChild (target : Str) (nodes : Nodes) (child : Str × Json) : Except String Nodes :=
  match child.2.obj? with
  | none => .error "child node must be an object"
  | some fields =>
    let path := joinPath target child.1
    addProperties (setDefault nodes path) path fields

def addFragment (nodes : Nodes) (fragment : Json) : Except String Nodes := do
  match fragment.obj? with
  | none => .error "fragment must be an object"
  | some fields =>
    match (fields.lookup "target".toList).bind Json.str? with
    | none => .error "fragment target must be an absolute path"
    | some target =>
      if target.head? ≠ some '/' then .error "fragment target must be an absolute path"
      else
        let nodes := setDefault nodes target
        let properties ← objectField fields "properties" "fragment properties must be an object"
        let nodes ← addProperties nodes target properties
        let children ← objectField fields "children" "fragment children must be an object"
        children.foldlM (addChild target) nodes

/-- `document[name]` becomes a property of the root. -/
def addRootProperty (document : List (Str × Json)) (name : String) (nodes : Nodes) :
    Except String Nodes :=
  match document.lookup name.toList with
  | none => .ok nodes
  | some value => addProperty nodes ['/'] name.toList value

def addBoot (document : List (Str × Json)) (nodes : Nodes) : Except String Nodes :=
  match document.lookup "boot".toList with
  | none => .ok nodes
  | some boot =>
    match boot.obj? with
    | none => .error "boot must be an object"
    | some fields => addObjectAsTree pyStr nodes "/boot".toList fields

def addMemory (document : List (Str × Json)) (nodes : Nodes) : Except String Nodes :=
  match document.lookup "memory".toList with
  | none => .ok nodes
  | some memory => addObjectAsTree pyStr nodes "/memory".toList [("regions".toList, memory)]

def collectNodes (document : List (Str × Json)) : Except String Nodes := do
  let nodes ← addRootProperty document "name" (setDefault ∅ ['/'])
  let nodes ← addRootProperty document "compatible" nodes
  let nodes ← addBoot pyStr document nodes
  let nodes ← addMemory pyStr document nodes
  match document.lookup "fragments".toList with
  | none => return nodes
  | some (.arr fragments) => fragments.foldlM addFragment nodes
  | some _ => .error "fragments must be an array"

end

/-! ## Building the bytes -/

/-- `value.encode("utf-8")`. -/
def utf8 (s : Str) : List UInt8 := s.flatMap String.utf8EncodeChar

structure StringTable where
  offsets : List (Str × Nat) := []
  data : List UInt8 := []

def StringTable.add (table : StringTable) (value : Str) : Nat × StringTable :=
  match table.offsets.lookup value with
  | some offset => (offset, table)
  | none =>
    let offset := table.data.length
    (offset,
      { offsets := (value, offset) :: table.offsets, data := table.data ++ utf8 value ++ [0] })

/-- What the loops of `build_blob` fill; a record is the list of its five numbers. -/
structure Builder where
  strings : StringTable := {}
  data : List UInt8 := []
  propRecords : List (List Nat) := []
  nodeRecords : List (List Nat) := []

/-- `"\0".join(value).encode("utf-8") + b"\0"`. -/
def joined (value : List Str) : List UInt8 := (utf8 ((['\x00'] : Str).intercalate value)) ++ [0]

/-- A record with the number of the node that comes next. -/
def Builder.addRecord (b : Builder) (nameOffset type value size : Nat) : Builder :=
  { b with propRecords := b.propRecords ++ [[b.nodeRecords.length, nameOffset, type, value, size]] }

/-- `struct.pack` of numbers of four bytes. -/
def pack (numbers : List Nat) : Except String (List UInt8) :=
  if numbers.all fun n => n < 2 ^ 32 then .ok (numbers.flatMap (encode 4))
  else .error "argument out of range"

def buildProperty (b : Builder) (name : Str) (spec : PropertySpec) : Except String Builder :=
  let (nameOffset, strings) := b.strings.add name
  let b := { b with strings := strings }
  match spec with
  | .bool v => .ok (b.addRecord nameOffset treePropBool v.toNat 0)
  | .u32 n => .ok (b.addRecord nameOffset treePropU32 n 4)
  | .string s =>
    let (offset, strings) := b.strings.add s
    .ok ({ b with strings := strings }.addRecord nameOffset treePropString offset s.length)
  | .u32s l => do
    let bytes ← pack l
    return { b with data := b.data ++ bytes }.addRecord nameOffset treePropU32Array b.data.length
      (l.length * 4)
  | .strings l =>
    .ok ({ b with data := b.data ++ joined l }.addRecord nameOffset treePropStringArray
      b.data.length (joined l).length)

/-- `sorted(nodes[path].items())`; names are different. -/
def sortedItems (properties : Properties) : List (Str × PropertySpec) :=
  (properties.entries.map fun item => (item.1, item.2)).insertionSort fun p q => p.1 ≤ q.1

def buildNode (b : Builder) (path : Str) (properties : Properties) : Except String Builder := do
  let propStart := b.propRecords.length
  let b ← (sortedItems properties).foldlM (fun b item => buildProperty b item.1 item.2) b
  let (pathOffset, strings) := b.strings.add path
  let (nameOffset, strings) := strings.add (nodeName path)
  let (parentOffset, strings) := strings.add (parentPath path)
  return { b with
    strings := strings
    nodeRecords := b.nodeRecords ++
      [[pathOffset, nameOffset, parentOffset, propStart, b.propRecords.length - propStart]] }

/-- The order of `(path.count("/"), path)`. -/
def pathLe (p q : Str) : Bool :=
  p.count '/' < q.count '/' || (p.count '/' = q.count '/' && p ≤ q)

def buildNodes (nodes : Nodes) : Except String Builder :=
  (nodes.keys.insertionSort fun p q => pathLe p q).foldlM
    (fun b path => buildNode b path ((nodes.lookup path).getD ∅)) {}

def header (b : Builder) (payload : List UInt8) : Except String (List UInt8) := do
  let sizes ← pack [b.strings.data.length, b.nodeRecords.length, b.propRecords.length,
    b.data.length, 0, (Crc32.crc32 payload).toNat]
  return text "RADO" ++ encode 2 overlayVersion ++ encode 2 0 ++ sizes

def Builder.blob (b : Builder) : Except String (List UInt8) := do
  let nodes ← b.nodeRecords.mapM pack
  let props ← b.propRecords.mapM pack
  let payload := b.strings.data ++ nodes.flatten ++ props.flatten ++ b.data
  let header ← header b payload
  return header ++ payload

def buildBlob (pyStr : Json → Str) (document : Json) : Except String (List UInt8) := do
  match document.obj? with
  | none => .error "overlay root must be an object"
  | some fields =>
    let nodes ← collectNodes pyStr fields
    let b ← buildNodes nodes
    b.blob

end RadKernel.Overlay
