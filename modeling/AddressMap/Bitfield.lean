import AddressMap.Metadata

set_option autoImplicit false

namespace AddressMap

structure BitfieldMember where
  name : String
  bits : Option Value
  width : Nat
  offset : Nat
  reserved : Bool
  description : Option String
  props : Props

structure Bitfield where
  members : List BitfieldMember
  type : Option String
  base : Primitive
  description : Option String
  props : Props

namespace Bitfield

def maxBits : Nat := 64

/-- Widths and their sums are numbers of 32 bits; a sum beyond stays at the greatest one. -/
def widthLimit : Nat := 0x100000000

def invalid {α : Type} (name : String) (fault : DefinitionFault) : Except Error α :=
  .error (.invalidDefinition .bitfield name fault)

def padding (offset width : Nat) : BitfieldMember where
  name := "padding"
  bits := none
  width := width
  offset := offset
  reserved := true
  description := some "padding bits"
  props := []

def memberWidth (env : Env) (name : String) (d : BitDecl) : Except Error Nat :=
  match d.bits with
  | none => .ok 1
  | some v =>
    match evaluateValue v env with
    | .error e => .error (.evaluation s!"bits of {name}.{d.name}" e)
    | .ok x =>
      match x with
      | .int i =>
        if i < 0 || widthLimit ≤ i then invalid name (.invalidWidth d.name x)
        else if i = 0 then invalid name (.zeroWidth d.name)
        else .ok i.toNat
      | _ => invalid name (.invalidWidth d.name x)

def membersFrom (env : Env) (name : String) (offset : Nat) :
    List BitDecl → Except Error (List BitfieldMember)
  | [] => .ok []
  | d :: rest =>
    match memberWidth env name d with
    | .error e => .error e
    | .ok width =>
      (membersFrom env name (offset + width) rest).map
        (⟨d.name, d.bits, width, offset, false, d.description, d.props⟩ :: ·)

def totalWidth : List BitfieldMember → Nat
  | [] => 0
  | m :: rest => m.width + totalWidth rest

def baseType (name : String) (bits : Nat) (type : Option String) : Except Error Primitive :=
  match type with
  | none => .ok (.smallestUnsigned bits)
  | some type =>
    match Primitive.ofName? type with
    | none => .error (.unknownType type s!"bitfield {name}")
    | some p => if p.isInteger then .ok p else invalid name (.notIntegerType type)

def resolve (env : Env) (name : String) (d : BitfieldDecl) : Except Error Bitfield := do
  let declared ← membersFrom env name 0 d.members
  let bits := totalWidth declared
  if maxBits < bits then invalid name (.tooManyBits (min bits (widthLimit - 1)))
  let base ← baseType name bits d.head.type
  let capacity := 8 * base.size
  if capacity < bits then invalid name (.tooManyBitsFor bits base)
  let members := if bits < capacity then declared ++ [padding bits (capacity - bits)] else declared
  checkUnique name (members.map (·.name))
  return {
    members, base
    type := d.head.type
    description := d.head.description
    props := d.head.props }

def usesDefines (b : Bitfield) : Bool := b.members.any fun m => m.bits.any Value.isString

end Bitfield

def BitfieldMember.toProps (m : BitfieldMember) : Props :=
  Entries.merge (
    [("name", .string m.name)] ++
    Entries.ofOption "bits" m.bits ++
    [("resolved_bits", .ofNat m.width), ("resolved_bit_offset", .ofNat m.offset)] ++
    Value.flag "reserved" m.reserved ++
    Entries.ofOption "description" (m.description.map .string)) m.props

def Bitfield.toProps (b : Bitfield) : Props :=
  Entries.merge (
    [("elements", .array (b.members.map fun m => .object m.toProps))] ++
    Entries.ofOption "type" (b.type.map .string) ++
    [("resolved_type", .string b.base.name), ("resolved_type_size", .ofNat b.base.size),
      ("use_defines", .bool b.usesDefines)] ++
    Entries.ofOption "description" (b.description.map .string)) b.props

end AddressMap
