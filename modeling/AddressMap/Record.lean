import AddressMap.Typedef

set_option autoImplicit false

namespace AddressMap

/-- One array around a record, and which of its items the record is in. The number tells arrays of the
    same map apart. -/
structure ArrayLevel where
  size : Nat
  stride : Nat
  uid : Nat
  index : Nat
  deriving DecidableEq

structure LoopLevel where
  size : Nat
  stride : Nat
  uid : Nat
  variableName : String
  opens : Bool
  closes : Bool

structure ItemShape where
  type : Option String
  arraySize : Option Value
  enumName : Option String
  itemType : String
  totalSize : Nat
  offset : Nat
  count : Option Nat

structure BitShape where
  bits : Option Value
  width : Nat
  offset : Nat

inductive Shape where
  | item (s : ItemShape)
  | bits (s : BitShape)

structure ScaledValue where
  value : Option Scalar
  scaled : Option Scalar

def ScaledValue.absent : ScaledValue := ⟨none, none⟩

structure Record where
  name : String
  mapOffset : Nat
  shape : Shape
  /-- Size in bytes of the item, or of the integer that holds the bits. -/
  unitSize : Nat
  description : Option String
  reserved : Bool
  props : Props
  arrays : List ArrayLevel
  /-- Bits of the users that may read, and of those that may write. -/
  readers : Nat := 0
  writers : Nat := 0
  scalingFactor : Option Scalar := none
  default : ScaledValue := .absent
  min : ScaledValue := .absent
  max : ScaledValue := .absent
  /-- Whether the last override gave a new default; none if no override matched. -/
  defaultChanged : Option Bool := none
  /-- Offset as an expression over loop variables. -/
  loopOffset : Option String := none
  loops : List LoopLevel := []

namespace Record

def item? (r : Record) : Option ItemShape :=
  match r.shape with
  | .item s => some s
  | .bits _ => none

def bits? (r : Record) : Option BitShape :=
  match r.shape with
  | .item _ => none
  | .bits s => some s

/-- Writers in the low nibble, readers in the high one. -/
def access (r : Record) : Nat := r.writers + 16 * r.readers

def isIntegral (r : Record) : Bool :=
  match r.shape with
  | .bits _ => true
  | .item s => (Primitive.ofName? s.itemType).any Primitive.isInteger

/-- Whether the record is in the first item of every array around it. -/
def isFirst (r : Record) : Bool := r.arrays.all fun a => a.index == 0

end Record

def LoopLevel.toValue (l : LoopLevel) : Value :=
  .object [("size", .ofNat l.size), ("stride", .ofNat l.stride), ("uid", .ofNat l.uid),
    ("idx_name", .string l.variableName), ("start", .bool l.opens), ("end", .bool l.closes)]

namespace Record

/-- Computed keys in a fixed order, then the free keys; a free key lies over a computed one of the same
    name. -/
def toProps (r : Record) : Props :=
  let item (f : ItemShape → Option Value) : Option Value := r.item?.bind f
  let bits (f : BitShape → Option Value) : Option Value := r.bits?.bind f
  let scalar (x : Option Scalar) : Option Value := x.map Scalar.toValue
  Entries.merge (
    [("name", .string r.name), ("map_offset", .ofNat r.mapOffset)] ++
    Entries.ofOption "type" (item fun s => s.type.map .string) ++
    Entries.ofOption "array_size" (item (·.arraySize)) ++
    Entries.ofOption "description" (r.description.map .string) ++
    Entries.ofOption "enum" (item fun s => s.enumName.map .string) ++
    Value.flag "reserved" r.reserved ++
    Entries.ofOption "resolved_type" (item fun s => some (.string s.itemType)) ++
    [("resolved_type_size", .ofNat r.unitSize)] ++
    Entries.ofOption "resolved_total_size" (item fun s => some (.ofNat s.totalSize)) ++
    Entries.ofOption "resolved_offset" (item fun s => some (.ofNat s.offset)) ++
    Entries.ofOption "resolved_array_size" (item fun s => s.count.map .ofNat) ++
    Entries.ofOption "bits" (bits (·.bits)) ++
    Entries.ofOption "resolved_bits" (bits fun s => some (.ofNat s.width)) ++
    Entries.ofOption "resolved_bit_offset" (bits fun s => some (.ofNat s.offset)) ++
    [("resolved_read_permission", .ofNat r.readers),
      ("resolved_write_permission", .ofNat r.writers),
      ("resolved_access", .ofNat r.access),
      ("readable", .bool (r.readers != 0)),
      ("writable", .bool (r.writers != 0))] ++
    Entries.ofOption "resolved_scaling_factor" (scalar r.scalingFactor) ++
    Entries.ofOption "resolved_default" (scalar r.default.value) ++
    Entries.ofOption "resolved_min" (scalar r.min.value) ++
    Entries.ofOption "resolved_max" (scalar r.max.value) ++
    Entries.ofOption "resolved_scaled_default" (scalar r.default.scaled) ++
    Entries.ofOption "resolved_scaled_min" (scalar r.min.scaled) ++
    Entries.ofOption "resolved_scaled_max" (scalar r.max.scaled) ++
    Entries.ofOption "default_changed" (r.defaultChanged.map .bool) ++
    Entries.ofOption "compressed_offset" (r.loopOffset.map .string) ++
    Entries.ofOption "compressed_info"
      (if r.loops.isEmpty then none else some (.array (r.loops.map LoopLevel.toValue)))) r.props

def toValue (r : Record) : Value := .object r.toProps

end Record

/-- A flattened map: its records in byte order, and the same records with every array folded into a
    loop. -/
structure FlatMap where
  name : String
  type : String
  size : Nat
  records : List Record
  folded : List Record

def FlatMap.toValue (m : FlatMap) : Value :=
  .object [("records", .array (m.records.map Record.toValue)),
    ("compressed_records", .array (m.folded.map Record.toValue)), ("type", .string m.type)]

end AddressMap
