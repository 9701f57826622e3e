import AddressMap.Record

set_option autoImplicit false

/-!
A map is its root typedef walked depth first. Nested typedefs and bitfields put their names in front,
arrays their indices, and every leaf becomes a record at the running offset. Free keys are inherited on
the way down: root typedef, then each element followed by its typedef or bitfield, then the leaf.

What a walk inherits is an argument, so a subtree cannot hand anything to its siblings; only the offset
and the numbers of arrays run on.
-/

namespace AddressMap

structure TypeTable where
  typedefs : Entries Typedef
  bitfields : Entries Bitfield

namespace Walk

structure Place where
  path : Option String
  props : Props
  arrays : List ArrayLevel

structure Cursor where
  offset : Nat
  uid : Nat

abbrev Step := Except Error (List Record × Cursor)

def Place.qualify (p : Place) (name : String) : String :=
  match p.path with
  | some path => s!"{path}.{name}"
  | none => name

def Place.enter (p : Place) (name : String) : Place := { p with path := some (p.qualify name) }

def Place.inherit (p : Place) (props : Props) : Place := { p with props := p.props.merge props }

def Cursor.advance (c : Cursor) (bytes : Nat) : Cursor := { c with offset := c.offset + bytes }

def sequence {α : Type} (step : α → Cursor → Step) : List α → Cursor → Step
  | [], c => .ok ([], c)
  | x :: rest, c =>
    match step x c with
    | .error e => .error e
    | .ok (records, c) => (sequence step rest c).map fun r => (records ++ r.1, r.2)

def itemsFrom (p : Place) (e : Element) (size uid index : Nat) : Nat → List Place
  | 0 => []
  | more + 1 =>
    let level : ArrayLevel := ⟨size, e.itemSize, uid, index⟩
    { p.enter s!"{e.name}[{index}]" with arrays := p.arrays ++ [level] } ::
      itemsFrom p e size uid (index + 1) more

/-- Runs `body` at every item of an element. An array takes the next number. -/
def eachItem (p : Place) (e : Element) (body : Place → Cursor → Step) (c : Cursor) : Step :=
  match e.count with
  | none => body (p.enter e.name) c
  | some size => sequence body (itemsFrom p e size c.uid 0 size) { c with uid := c.uid + 1 }

def leaf (e : Element) (p : Place) (c : Cursor) : Step :=
  let record : Record := {
    name := p.path.getD ""
    mapOffset := c.offset
    shape := .item {
      type := e.type
      arraySize := e.arraySize
      enumName := e.enumName
      itemType := e.itemType
      totalSize := e.size
      offset := e.offset
      count := e.count }
    unitSize := e.itemSize
    description := e.description
    reserved := e.reserved
    props := p.props.merge e.props
    arrays := p.arrays }
  .ok ([record], c.advance e.itemSize)

def bits (b : Bitfield) (p : Place) (c : Cursor) : Step :=
  let record (m : BitfieldMember) : Record := {
    name := p.qualify m.name
    mapOffset := c.offset
    shape := .bits ⟨m.bits, m.width, m.offset⟩
    unitSize := b.base.size
    description := m.description
    reserved := m.reserved
    props := p.props.merge m.props
    arrays := p.arrays }
  .ok (b.members.map record, c.advance b.base.size)

/-- The records of an element. Typedefs nest no deeper than `depth`. -/
def visit (table : TypeTable) : (depth : Nat) → Place → Element → Cursor → Step
  | depth, p, e, c =>
    match e.kind with
    | .primitive _ | .enumeration _ => eachItem p e (leaf e) c
    | .bitfield name =>
      match table.bitfields.get? name with
      | none => .error (.unknownType name e.name)
      | some b => eachItem ((p.inherit e.props).inherit b.props) e (bits b) c
    | .typedef name =>
      match table.typedefs.get? name with
      | none => .error (.unknownType name e.name)
      | some t =>
        match depth with
        | 0 => .error (.unresolved (.nesting name e.name))
        | depth + 1 =>
          eachItem ((p.inherit e.props).inherit t.props) e
            (fun p => sequence (visit table depth p) t.elements) c

/-- The records of a root typedef, arrays numbered from `uid` on, and the next free number. -/
def flatten (table : TypeTable) (root : Typedef) (uid : Nat) : Except Error (List Record × Nat) :=
  (sequence (visit table table.typedefs.length ⟨none, root.props, []⟩) root.elements ⟨0, uid⟩).map
    fun r => (r.1, r.2.uid)

end Walk

end AddressMap
