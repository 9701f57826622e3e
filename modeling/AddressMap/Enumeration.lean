import AddressMap.Metadata

set_option autoImplicit false

namespace AddressMap

structure EnumMember where
  name : String
  value : Option Value
  resolved : Int
  description : Option String
  props : Props

structure Enumeration where
  members : List EnumMember
  type : Option String
  base : Primitive
  bitwise : Bool
  description : Option String
  props : Props

namespace Enumeration

def invalid {α : Type} (name : String) (fault : DefinitionFault) : Except Error α :=
  .error (.invalidDefinition .enumeration name fault)

def bitLength (n : Nat) : Nat := if n = 0 then 0 else n.log2 + 1

/-- The value of a member that gives none, after the value of the member before. -/
def implied (bitwise : Bool) : Option Int → Except Scalar.Stop Int
  | none => .ok (if bitwise then 1 else 0)
  | some previous =>
    if bitwise then Scalar.shiftedLeft 1 (bitLength previous.natAbs)
    else Scalar.within .trapped (previous + 1)

def memberValue (env : Env) (name : String) (bitwise : Bool) (previous : Option Int)
    (d : OptionDecl) : Except Error Int :=
  match d.value with
  | none =>
    match implied bitwise previous with
    | .error _ => invalid name (.overflows d.name)
    | .ok i => .ok i
  | some v =>
    match evaluateValue v env with
    | .error e => .error (.evaluation s!"value of {name}.{d.name}" e)
    | .ok (.int i) => .ok i
    | .ok x => invalid name (.notInteger d.name x)

def membersFrom (env : Env) (name : String) (base : Primitive) (bounds : Int × Int)
    (bitwise : Bool) (previous : Option Int) : List OptionDecl → Except Error (List EnumMember)
  | [] => .ok []
  | d :: rest =>
    match memberValue env name bitwise previous d with
    | .error e => .error e
    | .ok value =>
      if value < bounds.1 || bounds.2 < value then invalid name (.outOfBounds value base)
      else
        (membersFrom env name base bounds bitwise (some value) rest).map
          (⟨d.name, d.value, value, d.description, d.props⟩ :: ·)

def baseType (fallback : Primitive) (name : String) (type : Option String) :
    Except Error Primitive :=
  match type with
  | none => .ok fallback
  | some type =>
    match Primitive.ofName? type with
    | some p => .ok p
    | none => .error (.unknownType type s!"enum {name}")

def resolve (env : Env) (fallback : Primitive) (name : String) (d : EnumDecl) :
    Except Error Enumeration := do
  let base ← baseType fallback name d.head.type
  let some bounds := base.bounds? | invalid name (.notEnumType base)
  let members ← membersFrom env name base bounds d.head.bitwise none d.members
  checkUnique name (members.map (·.name))
  return {
    members, base
    type := d.head.type
    bitwise := d.head.bitwise
    description := d.head.description
    props := d.head.props }

def usesDefines (e : Enumeration) : Bool := e.members.any fun m => m.value.any Value.isString

end Enumeration

def EnumMember.toProps (m : EnumMember) : Props :=
  Entries.merge (
    [("name", .string m.name)] ++
    Entries.ofOption "value" m.value ++
    [("resolved_value", .ofInt m.resolved)] ++
    Entries.ofOption "description" (m.description.map .string)) m.props

def Enumeration.toProps (e : Enumeration) : Props :=
  Entries.merge (
    [("elements", .array (e.members.map fun m => .object m.toProps))] ++
    Entries.ofOption "type" (e.type.map .string) ++
    [("resolved_type", .string e.base.name), ("resolved_type_size", .ofNat e.base.size)] ++
    Value.flag "bitwise" e.bitwise ++
    [("use_defines", .bool e.usesDefines)] ++
    Entries.ofOption "description" (e.description.map .string)) e.props

end AddressMap
