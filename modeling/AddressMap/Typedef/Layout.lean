import AddressMap.Typedef

set_option autoImplicit false

/-!
Elements follow each other without gaps. With an element alignment, padding follows every element that
ends off the alignment. A total size pads the typedef to that size; without one, a structure alignment
pads it to the next multiple.
-/

namespace AddressMap

structure Scope where
  env : Env
  fallback : Primitive
  align : Option Nat
  structAlign : Option Nat
  enums : Entries Enumeration
  bitfields : Entries Bitfield
  typedefs : Entries Typedef

namespace Scope

def isLeaf (s : Scope) (type : String) : Bool :=
  (Primitive.ofName? type).isSome || s.bitfields.has type || s.enums.has type

structure ItemType where
  kind : ElementKind
  size : Nat
  name : String
  description : Option String
  props : Props

/-- Primitives come first, then bitfields, enums and typedefs. Only an enum hands down its keys. -/
def itemType? (s : Scope) (type : String) : Option ItemType :=
  match Primitive.ofName? type with
  | some p => some ⟨.primitive p, p.size, p.name, none, []⟩
  | none =>
    match s.bitfields.get? type with
    | some b => some ⟨.bitfield type, b.base.size, type, none, []⟩
    | none =>
      match s.enums.get? type with
      | some e => some ⟨.enumeration type, e.base.size, e.base.name, e.description, e.props⟩
      | none =>
        match s.typedefs.get? type with
        | some t => some ⟨.typedef type, t.size, type, none, []⟩
        | none => none

end Scope

namespace Typedef

def invalid {α : Type} (name : String) (fault : DefinitionFault) : Except Error α :=
  .error (.invalidDefinition .typedef name fault)

def sizeLimit : Nat := 0x10000000000000000

def evaluateSize (env : Env) (owner key : String) (v : Value) : Except Error Nat :=
  match evaluateValue v env with
  | .error e => .error (.evaluation s!"{key} of {owner}" e)
  | .ok x =>
    match x with
    | .int i => if i < 0 || sizeLimit ≤ i then invalid owner (.notSize key x) else .ok i.toNat
    | _ => invalid owner (.notSize key x)

def itemCount (s : Scope) (owner : String) (d : ElementDecl) : Except Error (Option Nat) :=
  match d.arraySize with
  | none => .ok none
  | some v => (evaluateSize s.env owner s!"array_size of {d.name}" v).map some

def element (s : Scope) (owner : String) (offset : Nat) (d : ElementDecl) :
    Except Error Element := do
  let count ← itemCount s owner d
  let type := d.type.getD s.fallback.name
  match s.itemType? type with
  | none => .error (.unknownType type s!"{owner}.{d.name}")
  | some item =>
    if sizeLimit ≤ item.size * count.getD 1 then invalid owner (.tooLarge d.name)
    else .ok {
      name := d.name
      type := d.type
      arraySize := d.arraySize
      description := d.description.or item.description
      reserved := false
      itemType := item.name
      itemSize := item.size
      offset
      count
      props := item.props.merge d.props
      kind := item.kind }

def gap (align : Option Nat) (offset : Nat) : Nat :=
  match align with
  | none => 0
  | some a => if offset % a = 0 then 0 else a - offset % a

def elementsFrom (s : Scope) (owner : String) (offset pads : Nat) :
    List ElementDecl → Except Error (List Element)
  | [] => .ok []
  | d :: rest =>
    match element s owner offset d with
    | .error err => .error err
    | .ok e =>
      let pad := gap s.align e.stop
      if pad = 0 then (elementsFrom s owner e.stop pads rest).map (e :: ·)
      else
        (elementsFrom s owner (e.stop + pad) (pads + 1) rest).map fun es =>
          e :: .padding s!"padding_{pads}" e.stop pad :: es

def stopOf (elements : List Element) : Nat := (elements.getLast?.map Element.stop).getD 0

def padTo (elements : List Element) (size : Nat) : List Element :=
  let stop := stopOf elements
  if stop < size then elements ++ [.padding "padding" stop (size - stop)] else elements

def finalSize (s : Scope) (owner : String) (totalSize : Option Value) (contents : Nat) :
    Except Error Nat :=
  match totalSize with
  | none => .ok (contents + gap s.structAlign contents)
  | some v =>
    match evaluateSize s.env owner "total_size" v with
    | .error e => .error e
    | .ok total => if total < contents then invalid owner (.exceedsTotal total contents) else .ok total

def layout (s : Scope) (name : String) (d : TypedefDecl) : Except Error Typedef := do
  let contents ← elementsFrom s name 0 0 d.members
  let size ← finalSize s name d.head.totalSize (stopOf contents)
  let elements := padTo contents size
  checkUnique name (elements.map (·.name))
  return {
    elements, size
    totalSize := d.head.totalSize
    description := d.head.description
    props := d.head.props }

/-- Lays out the typedefs in the given order, each with the ones before it in scope. Those laid out
    before an error stay. -/
def layoutAll (s : Scope) (table : Entries TypedefDecl) : List String → Outcome (Entries Typedef)
  | [] => .done s.typedefs
  | name :: rest =>
    match table.get? name with
    | none => layoutAll s table rest
    | some d =>
      match layout s name d with
      | .error e => ⟨s.typedefs, some e⟩
      | .ok t => layoutAll { s with typedefs := s.typedefs.insert name t } table rest

end Typedef

end AddressMap
