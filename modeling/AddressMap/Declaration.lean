import AddressMap.Value

set_option autoImplicit false

namespace AddressMap

/-- An entry whose members may be preceded by those of the entry it refers to. -/
structure Declared (μ η : Type) where
  members : List μ
  reference : Option String
  head : η

structure ElementDecl where
  name : String
  type : Option String
  arraySize : Option Value
  description : Option String
  props : Props

structure TypedefHead where
  totalSize : Option Value
  description : Option String
  props : Props

structure BitDecl where
  name : String
  bits : Option Value
  description : Option String
  props : Props

structure BitfieldHead where
  type : Option String
  description : Option String
  props : Props

structure OptionDecl where
  name : String
  value : Option Value
  description : Option String
  props : Props

structure EnumHead where
  type : Option String
  bitwise : Bool
  description : Option String
  props : Props

structure MetadataDecl where
  appName : String
  version : Option String
  align : Option Nat
  structAlign : Option Nat
  defaultMap : Option String
  defaultType : Option String
  users : List String
  props : Props

structure MapDecl where
  type : String
  props : Props

abbrev TypedefDecl := Declared ElementDecl TypedefHead
abbrev BitfieldDecl := Declared BitDecl BitfieldHead
abbrev EnumDecl := Declared OptionDecl EnumHead

namespace Declaration

def text? (es : Props) (key : String) : Option String :=
  match es.get? key with
  | some (.string s) => some s
  | _ => none

def optionalText? (es : Props) (key : String) : Option (Option String) :=
  match es.get? key with
  | none | some .null => some none
  | some (.string s) => some (some s)
  | some _ => none

def optionalValue (es : Props) (key : String) : Option Value :=
  match es.get? key with
  | none | some .null => none
  | some v => some v

def optionalSize? (es : Props) (key : String) : Option (Option Nat) :=
  match es.get? key with
  | none | some .null => some none
  | some (.number (.int i)) => if 0 ≤ i then some (some i.toNat) else none
  | some _ => none

def flag? (es : Props) (key : String) : Option Bool :=
  match es.get? key with
  | none => some false
  | some (.bool b) => some b
  | some _ => none

def texts? (es : Props) (key : String) : Option (List String) :=
  match es.get? key with
  | none => some []
  | some (.array xs) => xs.mapM fun
    | .string s => some s
    | _ => none
  | some _ => none

def others (es : Props) (known : List String) : Props := es.filter fun e => !known.contains e.1

def entries? : Value → Option Props
  | .object es => some es
  | _ => none

/-- Members are mappings or bare names. -/
def members? {μ : Type} (ofName : String → μ) (ofEntries? : Props → Option μ) (es : Props) :
    Option (List μ) :=
  match es.get? "elements" with
  | none => some []
  | some (.array xs) => xs.mapM fun
    | .string s => some (ofName s)
    | .object es => ofEntries? es
    | _ => none
  | some _ => none

def element? (es : Props) : Option ElementDecl := do
  let name ← text? es "name"
  let type ← optionalText? es "type"
  let description ← optionalText? es "description"
  return {
    name, type, description
    arraySize := optionalValue es "array_size"
    props := others es ["name", "type", "array_size", "description"] }

def typedef? (v : Value) : Option TypedefDecl := do
  let es ← entries? v
  let members ← members? (fun name => ⟨name, none, none, none, []⟩) element? es
  let reference ← optionalText? es "reference"
  let description ← optionalText? es "description"
  return {
    members, reference
    head := {
      description
      totalSize := optionalValue es "total_size"
      props := others es ["elements", "reference", "total_size", "description"] } }

def bit? (es : Props) : Option BitDecl := do
  let name ← text? es "name"
  let description ← optionalText? es "description"
  return {
    name, description
    bits := optionalValue es "bits"
    props := others es ["name", "bits", "description"] }

def bitfield? (v : Value) : Option BitfieldDecl := do
  let es ← entries? v
  let members ← members? (fun name => ⟨name, none, none, []⟩) bit? es
  let type ← optionalText? es "type"
  let reference ← optionalText? es "reference"
  let description ← optionalText? es "description"
  return {
    members, reference
    head := {
      type, description
      props := others es ["elements", "type", "reference", "description"] } }

def option? (es : Props) : Option OptionDecl := do
  let name ← text? es "name"
  let description ← optionalText? es "description"
  return {
    name, description
    value := optionalValue es "value"
    props := others es ["name", "value", "description"] }

def enum? (v : Value) : Option EnumDecl := do
  let es ← entries? v
  let members ← members? (fun name => ⟨name, none, none, []⟩) option? es
  let type ← optionalText? es "type"
  let bitwise ← flag? es "bitwise"
  let reference ← optionalText? es "reference"
  let description ← optionalText? es "description"
  return {
    members, reference
    head := {
      type, bitwise, description
      props := others es ["elements", "type", "bitwise", "reference", "description"] } }

def metadata? (es : Props) : Option MetadataDecl := do
  let appName ← text? es "app_name"
  let version ← optionalText? es "version"
  let align ← optionalSize? es "align"
  let structAlign ← optionalSize? es "struct_align"
  let defaultMap ← optionalText? es "default_map"
  let defaultType ← optionalText? es "default_type"
  let users ← texts? es "permission_users"
  return {
    appName, version, align, structAlign, defaultMap, defaultType, users
    props := others es ["app_name", "version", "align", "struct_align", "default_map",
      "default_type", "permission_users"] }

def map? (v : Value) : Option MapDecl := do
  let es ← entries? v
  let type ← text? es "type"
  return { type, props := others es ["type"] }

end Declaration

end AddressMap
