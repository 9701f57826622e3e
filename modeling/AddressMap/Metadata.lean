import AddressMap.Declaration
import AddressMap.Error

set_option autoImplicit false

namespace AddressMap

structure Metadata where
  appName : String
  version : String
  major : Nat
  minor : Nat
  patch : Nat
  align : Option Nat
  structAlign : Option Nat
  defaultMap : Option String
  defaultType : Primitive
  users : List String
  fullHash : String
  fwHash : String
  swHash : String
  props : Props

/-- Fails on the first name that has occurred before. -/
def checkUnique (owner : String) (names : List String) : Except Error Unit :=
  go [] names
where
  go (seen : List String) : List String → Except Error Unit
    | [] => .ok ()
    | name :: rest =>
      if name ∈ seen then .error (.duplicate name owner) else go (name :: seen) rest

namespace Metadata

def maxUsers : Nat := 4

def blank : Metadata where
  appName := ""
  version := ""
  major := 0
  minor := 0
  patch := 0
  align := none
  structAlign := none
  defaultMap := none
  defaultType := .fallback
  users := []
  fullHash := ""
  fwHash := ""
  swHash := ""
  props := []

/-- A natural number of 64 bits, with an optional plus. -/
def versionPart? (part : List Char) : Option Nat :=
  let digits := match part with
    | '+' :: ds => ds
    | ds => ds
  if digits.isEmpty || !digits.all Char.isDigit then none
  else
    let n := Decimal.digitsValue digits
    if n < 0x10000000000000000 then some n else none

def version? (s : String) : Option (Nat × Nat × Nat) :=
  match (s.toList.splitOn '.').mapM versionPart? with
  | some [major, minor, patch] => some (major, minor, patch)
  | _ => none

def invalid {α : Type} (name : String) (fault : DefinitionFault) : Except Error α :=
  .error (.invalidDefinition .metadata name fault)

def resolve (es : Props) : Except Error Metadata := do
  let some d := Declaration.metadata? es | .error (.invalidEntry .metadata "metadata")
  let version := d.version.getD "0.0.0"
  let some (major, minor, patch) := version? version | invalid "version" (.version version)
  let defaultType ← match d.defaultType with
    | some name =>
      match Primitive.ofName? name with
      | some p => .ok p
      | none => invalid "default_type" (.notPrimitive name)
    | none => .ok .fallback
  if d.align = some 0 then invalid "align" .zeroAlignment
  if d.structAlign = some 0 then invalid "struct_align" .zeroAlignment
  if maxUsers < d.users.length then
    invalid "permission_users" (.tooManyUsers maxUsers d.users.length)
  checkUnique "permission_users" d.users
  return {
    appName := d.appName
    version, major, minor, patch, defaultType
    align := d.align
    structAlign := d.structAlign
    defaultMap := d.defaultMap
    users := d.users
    fullHash := ""
    fwHash := ""
    swHash := ""
    props := d.props }

def userBits (users : List String) : Entries Nat := users.zipIdx.map fun u => (u.1, Nat.pow 2 u.2)

/-- Keys of the description lie over computed ones of the same name. -/
def toProps (m : Metadata) : Props :=
  Entries.merge (
    [("app_name", .string m.appName), ("version", .string m.version),
      ("major_version", .ofNat m.major), ("minor_version", .ofNat m.minor),
      ("patch_version", .ofNat m.patch)] ++
    Entries.ofOption "align" (m.align.map .ofNat) ++
    Entries.ofOption "struct_align" (m.structAlign.map .ofNat) ++
    Entries.ofOption "default_map" (m.defaultMap.map .string) ++
    [("default_type", .string m.defaultType.name)] ++
    Entries.ofOption "permission_users" (if m.users.isEmpty then none else some (.strings m.users)) ++
    [("resolved_permission_users", .object ((userBits m.users).mapValues .ofNat)),
      ("full_hash", .string m.fullHash), ("fw_hash", .string m.fwHash),
      ("sw_hash", .string m.swHash)]) m.props

end Metadata

end AddressMap
