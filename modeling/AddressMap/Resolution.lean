import AddressMap.Define
import AddressMap.Description
import AddressMap.Fingerprint
import AddressMap.Pattern.Reader
import AddressMap.Record.Access
import AddressMap.Record.LoopNest
import AddressMap.Record.Override
import AddressMap.Record.Scaling
import AddressMap.Record.Walk
import AddressMap.Reference
import AddressMap.Typedef.Layout
import AddressMap.Typedef.Order

set_option autoImplicit false

/-!
A description is resolved section by section: defines, metadata, enums, bitfields, typedefs, maps,
overrides; then every record gets its rights and values, and the whole its fingerprints. Each stage
builds on the tables of the stages before it, and what a failing stage has finished stays in the tables.
-/

namespace AddressMap

/-- Everything resolved so far. The orders list the names of a section as they are to be published. -/
structure Resolution where
  env : Env
  defines : Entries Define
  defineOrder : List String
  metadata : Option Metadata
  enums : Entries Enumeration
  enumOrder : List String
  bitfields : Entries Bitfield
  bitfieldOrder : List String
  typedefs : Entries Typedef
  typedefOrder : List String
  maps : List FlatMap
  defaultMap : Option String

structure ResolvedMap where
  typedefs : Entries Typedef
  bitfields : Entries Bitfield
  enums : Entries Enumeration
  defines : Entries Define
  metadata : Metadata
  maps : List FlatMap

namespace Resolution

def start : Resolution := ⟨[], [], [], none, [], [], [], [], [], [], [], none⟩

def fallbackType (r : Resolution) : Primitive := (r.metadata.map (·.defaultType)).getD .fallback

def readEntries {α : Type} (kind : Section) (read : Value → Option α) :
    Props → Except Error (Entries α)
  | [] => .ok []
  | (name, v) :: rest =>
    match read v with
    | none => .error (.invalidEntry kind name)
    | some x => (readEntries kind read rest).map ((name, x) :: ·)

def resolveInto {α β : Type} (resolve : String → α → Except Error β) (table : Entries β) :
    Entries α → Outcome (Entries β)
  | [] => .done table
  | (name, x) :: rest =>
    match resolve name x with
    | .error e => ⟨table, some e⟩
    | .ok y => resolveInto resolve (table.insert name y) rest

def addDefines (r : Resolution) (es : Props) : Outcome Resolution :=
  let o := Define.resolve ⟨r.env, r.defines⟩ es
  ⟨{ r with defineOrder := es.keys, env := o.state.env, defines := o.state.defines }, o.error⟩

def addMetadata (r : Resolution) (es : Props) : Outcome Resolution :=
  if es.isEmpty then .done r
  else match Metadata.resolve es with
    | .error e => ⟨r, some e⟩
    | .ok m => .done { r with metadata := some m, defaultMap := m.defaultMap }

def addEnums (r : Resolution) (es : Props) : Outcome Resolution :=
  match readEntries .enums Declaration.enum? es with
  | .error e => ⟨r, some e⟩
  | .ok entries =>
    let r := { r with enumOrder := es.keys }
    match Reference.expand .enums entries.sortByKey with
    | .error e => ⟨r, some e⟩
    | .ok expanded =>
      let o := resolveInto (Enumeration.resolve r.env r.fallbackType) r.enums expanded
      ⟨{ r with enums := o.state }, o.error⟩

def addBitfields (r : Resolution) (es : Props) : Outcome Resolution :=
  match readEntries .bitfields Declaration.bitfield? es with
  | .error e => ⟨r, some e⟩
  | .ok entries =>
    let r := { r with bitfieldOrder := es.keys }
    match Reference.expand .bitfields entries.sortByKey with
    | .error e => ⟨r, some e⟩
    | .ok expanded =>
      let o := resolveInto (Bitfield.resolve r.env) r.bitfields expanded
      ⟨{ r with bitfields := o.state }, o.error⟩

def scope (r : Resolution) : Scope where
  env := r.env
  fallback := r.fallbackType
  align := r.metadata.bind (·.align)
  structAlign := r.metadata.bind (·.structAlign)
  enums := r.enums
  bitfields := r.bitfields
  typedefs := r.typedefs

def shared {α β : Type} (a : Entries α) (b : Entries β) : List String := a.keys.filter fun k => b.has k

def checkTypeNames (r : Resolution) : Option Error :=
  let clash (names : List String) (first second : Section) : Option Error :=
    if names.isEmpty then none else some (.nameConflict names first second)
  (clash (shared r.typedefs r.bitfields) .bitfields .typedefs).or
    ((clash (shared r.typedefs r.enums) .enums .typedefs).or
      (clash (shared r.bitfields r.enums) .enums .bitfields))

def addTypedefs (r : Resolution) (es : Props) : Outcome Resolution :=
  match readEntries .typedefs Declaration.typedef? es with
  | .error e => ⟨r, some e⟩
  | .ok entries =>
    match Reference.expand .typedefs entries.sortByKey with
    | .error e => ⟨r, some e⟩
    | .ok table =>
      match Typedef.order r.scope.isLeaf r.fallbackType table with
      | .error e => ⟨r, some e⟩
      | .ok order =>
        let o := Typedef.layoutAll r.scope table order
        let r := { r with typedefs := o.state }
        match o.error with
        | some e => ⟨r, some e⟩
        | none =>
          let r := { r with typedefOrder := order }
          ⟨r, r.checkTypeNames⟩

def flattenAll (table : TypeTable) (uid : Nat) (maps : List FlatMap) :
    Entries MapDecl → Outcome (List FlatMap)
  | [] => .done maps
  | (name, d) :: rest =>
    match table.typedefs.get? d.type with
    | none => ⟨maps, some (.unknownType d.type s!"map {name}")⟩
    | some root =>
      match Walk.flatten table root uid with
      | .error e => ⟨maps, some e⟩
      | .ok (records, uid) =>
        flattenAll table uid (maps ++ [⟨name, d.type, root.size, records, []⟩]) rest

/-- The map of overrides that name none: the only map, else the one that the metadata names. -/
def checkDefaultMap (r : Resolution) (names : List String) : Outcome Resolution :=
  let next : Resolution :=
    match names with
    | [only] => { r with defaultMap := some only }
    | _ => r
  match r.defaultMap with
  | some name => if names.contains name then .done next else ⟨r, some (.unknownMap name)⟩
  | none => .done next

def addMaps (r : Resolution) (es : Props) : Outcome Resolution :=
  match readEntries .maps Declaration.map? es with
  | .error e => ⟨r, some e⟩
  | .ok entries =>
    if entries.isEmpty then ⟨r, some (.missingSection .maps)⟩
    else
      let o := flattenAll ⟨r.typedefs, r.bitfields⟩ 1 r.maps entries
      let r := { r with maps := o.state }
      match o.error with
      | some e => ⟨r, some e⟩
      | none => r.checkDefaultMap entries.keys

def addOverrides (r : Resolution) (es : Props) (patterns : PatternReader := Pattern.read) : Outcome Resolution :=
  let o := Override.applyAll patterns r.defaultMap r.maps es
  ⟨{ r with maps := o.state }, o.error⟩

/-- A record with its rights and values. When only the values fail, the rights are kept. -/
def finishRecord (users : Entries Nat) (env : Env) (r : Record) : Outcome Record :=
  match Access.resolve users r with
  | .error e => ⟨r, some e⟩
  | .ok r =>
    match Scaling.resolve env r with
    | .error e => ⟨r, some e⟩
    | .ok r => .done r

/-- Finishes items in order up to the first error; the others stay as they are. -/
def finishAll {α : Type} (finish : α → Outcome α) : List α → Outcome (List α)
  | [] => .done []
  | x :: rest =>
    let o := finish x
    match o.error with
    | some e => ⟨o.state :: rest, some e⟩
    | none =>
      let p := finishAll finish rest
      ⟨o.state :: p.state, p.error⟩

def finishMap (users : Entries Nat) (env : Env) (m : FlatMap) : Outcome FlatMap :=
  let o := finishAll (finishRecord users env) m.records
  match o.error with
  | some e => ⟨{ m with records := o.state }, some e⟩
  | none => .done { m with records := o.state, folded := LoopNest.fold o.state }

def userBits (r : Resolution) : Entries Nat :=
  Metadata.userBits ((r.metadata.map (·.users)).getD [])

def finishRecords (r : Resolution) : Outcome Resolution :=
  let o := finishAll (finishMap r.userBits r.env) r.maps
  ⟨{ r with maps := o.state }, o.error⟩

def layoutKeys : List String :=
  ["name", "resolved_type", "resolved_array_size", "resolved_type_size", "resolved_total_size",
    "resolved_offset"]

def isLayoutKey (key : String) : Bool := layoutKeys.contains key

def isDocumentedKey (key : String) : Bool := isLayoutKey key || key == "description"

def recordTable (keep : String → Bool) (maps : List FlatMap) : Value :=
  let rows (m : FlatMap) : Value :=
    .array (m.records.map fun r => .object (r.toProps.filter fun e => keep e.1))
  .object (maps.foldl (fun table m => Entries.set table m.name (rows m)) [])

def addFingerprints (r : Resolution) : Outcome Resolution :=
  match r.metadata with
  | none => ⟨r, some (.missingSection .metadata)⟩
  | some m =>
    .done { r with metadata := some { m with
      fullHash := Fingerprint.ofValue (recordTable (fun _ => true) r.maps)
      fwHash := Fingerprint.ofValue (recordTable isLayoutKey r.maps)
      swHash := Fingerprint.ofValue (recordTable isDocumentedKey r.maps) } }

def inOrder {α : Type} (order : List String) (table : Entries α) : Entries α :=
  order.filterMap fun name => (table.get? name).map fun x => (name, x)

def finish (r : Resolution) : ResolvedMap where
  typedefs := inOrder r.typedefOrder r.typedefs
  bitfields := inOrder r.bitfieldOrder r.bitfields
  enums := inOrder r.enumOrder r.enums
  defines := inOrder r.defineOrder r.defines
  metadata := r.metadata.getD .blank
  maps := r.maps

/-- All stages in order. Metadata must be there, and at least one map. -/
def run (d : Description) (patterns : PatternReader) : Outcome Resolution :=
  let entries (s : Section) : Props := (d.section? s).getD []
  let withMetadata (r : Resolution) : Outcome Resolution :=
    match d.section? .metadata with
    | none => ⟨r, some (.missingSection .metadata)⟩
    | some es => r.addMetadata es
  start.addDefines (entries .defines)
    |>.andThen withMetadata
    |>.andThen (·.addEnums (entries .enums))
    |>.andThen (·.addBitfields (entries .bitfields))
    |>.andThen (·.addTypedefs (entries .typedefs))
    |>.andThen (·.addMaps (entries .maps))
    |>.andThen (·.addOverrides (entries .overrides) patterns)
    |>.andThen finishRecords
    |>.andThen addFingerprints

end Resolution

def resolve (d : Description) (patterns : PatternReader := Pattern.read) : Except Error ResolvedMap :=
  (Resolution.run d patterns).toExcept.map Resolution.finish

namespace ResolvedMap

def hasDefine (m : ResolvedMap) (name : String) : Bool := m.defines.has name

def toValue (m : ResolvedMap) : Value :=
  .object [
    ("typedefs", .array (m.typedefs.map fun t => .object [(t.1, .object t.2.toProps)])),
    ("bitfields", .object (m.bitfields.mapValues fun b => .object b.toProps)),
    ("enums", .object (m.enums.mapValues fun e => .object e.toProps)),
    ("defines", .object (m.defines.mapValues fun d => .object d.toProps)),
    ("metadata", .object m.metadata.toProps),
    ("maps", .object (m.maps.foldl (fun es f => Entries.set es f.name f.toValue) []))]

end ResolvedMap

end AddressMap
