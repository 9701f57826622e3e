import AddressMap.Bitfield
import AddressMap.Enumeration

set_option autoImplicit false

namespace AddressMap

inductive ElementKind where
  | primitive (p : Primitive)
  | enumeration (name : String)
  | bitfield (name : String)
  | typedef (name : String)

structure Element where
  name : String
  type : Option String
  arraySize : Option Value
  description : Option String
  reserved : Bool
  /-- C type of one item. -/
  itemType : String
  itemSize : Nat
  offset : Nat
  count : Option Nat
  props : Props
  kind : ElementKind

namespace Element

def size (e : Element) : Nat := e.itemSize * e.count.getD 1

def stop (e : Element) : Nat := e.offset + e.size

def enumName (e : Element) : Option String :=
  match e.kind with
  | .enumeration name => some name
  | _ => none

def typedefName (e : Element) : Option String :=
  match e.kind with
  | .typedef name => some name
  | _ => none

def isBitfield (e : Element) : Bool :=
  match e.kind with
  | .bitfield _ => true
  | _ => false

def padding (name : String) (offset size : Nat) : Element where
  name := name
  type := none
  arraySize := none
  description := some "padding bytes"
  reserved := true
  itemType := Primitive.u8.name
  itemSize := 1
  offset := offset
  count := some size
  props := []
  kind := .primitive .u8

def toProps (e : Element) : Props :=
  Entries.merge (
    [("name", .string e.name)] ++
    Entries.ofOption "type" (e.type.map .string) ++
    Entries.ofOption "array_size" e.arraySize ++
    Entries.ofOption "description" (e.description.map .string) ++
    Entries.ofOption "enum" (e.enumName.map .string) ++
    Value.flag "reserved" e.reserved ++
    [("resolved_type", .string e.itemType), ("resolved_type_size", .ofNat e.itemSize),
      ("resolved_total_size", .ofNat e.size), ("resolved_offset", .ofNat e.offset)] ++
    Entries.ofOption "resolved_array_size" (e.count.map .ofNat)) e.props

end Element

structure Typedef where
  elements : List Element
  totalSize : Option Value
  size : Nat
  description : Option String
  props : Props

namespace Typedef

def deps (t : Typedef) : List String :=
  sortedNames (t.elements.filterMap Element.typedefName)

def usesBitfields (t : Typedef) : Bool := t.elements.any Element.isBitfield

def usesEnums (t : Typedef) : Bool := t.elements.any fun e => e.enumName.isSome

def usesDefines (t : Typedef) : Bool :=
  (t.elements.any fun e => e.arraySize.any Value.isString) || t.totalSize.any Value.isString

def toProps (t : Typedef) : Props :=
  Entries.merge (
    [("elements", .array (t.elements.map fun e => .object e.toProps))] ++
    Entries.ofOption "total_size" t.totalSize ++
    [("resolved_total_size", .ofNat t.size), ("deps", .strings t.deps),
      ("use_bitfields", .bool t.usesBitfields), ("use_enums", .bool t.usesEnums),
      ("use_defines", .bool t.usesDefines)] ++
    Entries.ofOption "description" (t.description.map .string)) t.props

end Typedef

end AddressMap
