import AddressMap.Proofs.Entries.Layer
import AddressMap.Proofs.Outcome
import AddressMap.Record.Walk

set_option autoImplicit false

/-!
The walk can also be run on one state that all its steps share. What is inherited is then a stack of layers:
keys are pushed on the way into a subtree and dropped on the way out, and so are the path and the array levels.
Such a step makes the records of the plain walk at the place that the state describes, and it leaves path,
layers and arrays as it found them. So nothing that is pushed for one subtree reaches the next.
-/

namespace AddressMap.StackWalk

open Walk (Place Cursor)

structure State where
  path : Option String
  layers : List Props
  arrays : List ArrayLevel
  offset : Nat
  uid : Nat
  records : List Record

abbrev Step := State → Except Error State

namespace State

def inherited (s : State) (own : Props) : Props := (s.layers.foldl Entries.merge []).merge own

def place (s : State) : Place := ⟨s.path, s.layers.foldl Entries.merge [], s.arrays⟩

def cursor (s : State) : Cursor := ⟨s.offset, s.uid⟩

def qualify (s : State) (name : String) : String :=
  match s.path with
  | some path => s!"{path}.{name}"
  | none => name

def after (s : State) (r : List Record × Cursor) : State :=
  { s with offset := r.2.offset, uid := r.2.uid, records := s.records ++ r.1 }

@[simp] theorem place_after (s : State) (r : List Record × Cursor) : (s.after r).place = s.place := rfl

@[simp] theorem cursor_after (s : State) (r : List Record × Cursor) : (s.after r).cursor = r.2 := rfl

theorem after_after (s : State) (r r' : List Record × Cursor) :
    (s.after r).after r' = s.after (r.1 ++ r'.1, r'.2) := by
  simp only [after, List.append_assoc]

theorem after_nil (s : State) : s.after ([], s.cursor) = s := by
  simp only [after, cursor, List.append_nil]

end State

def within (name : String) (body : Step) : Step := fun s =>
  (body { s with path := some (s.qualify name) }).map fun t => { t with path := s.path }

def inArray (level : ArrayLevel) (body : Step) : Step := fun s =>
  (body { s with arrays := s.arrays ++ [level] }).map fun t => { t with arrays := t.arrays.dropLast }

/-- Drops as many layers as were pushed. -/
def inherit (pushed : List Props) (body : Step) : Step := fun s =>
  (body { s with layers := s.layers ++ pushed }).map fun t =>
    { t with layers := t.layers.take (t.layers.length - pushed.length) }

def sequence {α : Type} (step : α → Step) : List α → Step
  | [], s => .ok s
  | x :: rest, s =>
    match step x s with
    | .error e => .error e
    | .ok s => sequence step rest s

def items (e : Element) (size : Nat) (body : Nat → Step) (s : State) : Except Error State :=
  sequence (fun i => inArray ⟨size, e.itemSize, s.uid, i⟩ (body i)) (List.range size) { s with uid := s.uid + 1 }

def itemName (e : Element) (i : Nat) : String := s!"{e.name}[{i}]"

def nest (e : Element) (body : Step) (s : State) : Except Error State :=
  match e.count with
  | none => within e.name body s
  | some size => items e size (fun i => within (itemName e i) body) s

def pushItem (e : Element) (name : String) : Step := fun s =>
  let record : Record := {
    name := s.qualify name
    mapOffset := s.offset
    shape := .item {
      type := e.type
      arraySize := e.arraySize
      enumName := e.enumName
      itemType := e.itemType
      totalSize := e.size
      offset := e.offset
      count := e.count }
    unitSize := e.itemSize
    description := e.description
    reserved := e.reserved
    props := s.inherited e.props
    arrays := s.arrays }
  .ok { s with offset := s.offset + e.itemSize, records := s.records ++ [record] }

/-- A leaf is named in place, without going into it. -/
def leaf (e : Element) (s : State) : Except Error State :=
  match e.count with
  | none => pushItem e e.name s
  | some size => items e size (fun i => pushItem e (itemName e i)) s

def bits (b : Bitfield) : Step := fun s =>
  let record (m : BitfieldMember) : Record := {
    name := s.qualify m.name
    mapOffset := s.offset
    shape := .bits ⟨m.bits, m.width, m.offset⟩
    unitSize := b.base.size
    description := m.description
    reserved := m.reserved
    props := s.inherited m.props
    arrays := s.arrays }
  .ok { s with offset := s.offset + b.base.size, records := s.records ++ b.members.map record }

def visit (table : TypeTable) : (depth : Nat) → Element → Step
  | depth, e, s =>
    match e.kind with
    | .primitive _ | .enumeration _ => leaf e s
    | .bitfield name =>
      match table.bitfields.get? name with
      | none => .error (.unknownType name e.name)
      | some b => inherit [e.props, b.props] (nest e (bits b)) s
    | .typedef name =>
      match table.typedefs.get? name with
      | none => .error (.unknownType name e.name)
      | some t =>
        match depth with
        | 0 => .error (.unresolved (.nesting name e.name))
        | depth + 1 => inherit [e.props, t.props] (nest e (sequence (visit table depth) t.elements)) s

def start (root : Typedef) (uid : Nat) : State := ⟨none, [root.props], [], 0, uid, []⟩

def flatten (table : TypeTable) (root : Typedef) (uid : Nat) : Except Error State :=
  sequence (visit table table.typedefs.length) root.elements (start root uid)

theorem map_map {α β γ : Type} (x : Except Error α) (f : α → β) (g : β → γ) :
    (x.map f).map g = x.map fun a => g (f a) := by
  cases x <;> rfl

/-- The step does what the plain one does at the place and cursor of its state, and changes nothing else. -/
def Mirrors (step : Step) (plain : Place → Cursor → Walk.Step) : Prop :=
  ∀ s : State, step s = (plain s.place s.cursor).map s.after

theorem within_mirrors {body : Step} {plain : Place → Cursor → Walk.Step} (h : Mirrors body plain) (name : String) :
    Mirrors (within name body) fun p => plain (p.enter name) := by
  intro s
  rw [within, h]
  exact map_map _ _ _

theorem inArray_mirrors {body : Step} {plain : Place → Cursor → Walk.Step} (h : Mirrors body plain)
    (level : ArrayLevel) :
    Mirrors (inArray level body) fun p => plain { p with arrays := p.arrays ++ [level] } := by
  intro s
  rw [inArray, h, map_map]
  refine congrArg (Except.map · _) (funext fun r => ?_)
  simp only [State.after, List.dropLast_concat]

theorem inherit_mirrors {body : Step} {plain : Place → Cursor → Walk.Step} (h : Mirrors body plain)
    (outer inner : Props) :
    Mirrors (inherit [outer, inner] body) fun p => plain ((p.inherit outer).inherit inner) := by
  intro s
  have inside : ({ s with layers := s.layers ++ [outer, inner] } : State).place =
      (s.place.inherit outer).inherit inner := by
    simp [State.place, Place.inherit]
  rw [inherit, h, map_map, inside]
  refine congrArg (Except.map · _) (funext fun r => ?_)
  simp [State.after]

theorem sequence_mirrors {α : Type} {step : α → Step} {plain : α → Place → Cursor → Walk.Step} {xs : List α}
    (h : ∀ x ∈ xs, Mirrors (step x) (plain x)) :
    Mirrors (sequence step xs) fun p => Walk.sequence (fun x => plain x p) xs := by
  induction xs with
  | nil => exact fun s => congrArg Except.ok s.after_nil.symm
  | cons x rest ih =>
    intro s
    rw [List.forall_mem_cons] at h
    beta_reduce
    rw [sequence, h.1 s, Walk.sequence]
    cases plain x s.place s.cursor with
    | error e => rfl
    | ok r =>
      have tail := ih h.2 (s.after r)
      simp only [Except.map, State.place_after, State.cursor_after] at tail ⊢
      rw [tail]
      cases Walk.sequence (fun x => plain x s.place) rest r.2 with
      | error e => rfl
      | ok r' => exact congrArg Except.ok (s.after_after r r')

theorem itemsFrom_eq_map (p : Place) (e : Element) (size uid index n : Nat) :
    Walk.itemsFrom p e size uid index n = (List.range' index n).map fun i =>
      Place.enter { p with arrays := p.arrays ++ [⟨size, e.itemSize, uid, i⟩] } (itemName e i) := by
  induction n generalizing index with
  | zero => rfl
  | succ n ih =>
    rw [Walk.itemsFrom, ih, List.range'_succ]
    rfl

theorem sequence_map {α β : Type} (step : β → Cursor → Walk.Step) (f : α → β) (xs : List α) (c : Cursor) :
    Walk.sequence step (xs.map f) c = Walk.sequence (fun x => step (f x)) xs c := by
  induction xs generalizing c with
  | nil => rfl
  | cons x rest ih => simp only [List.map_cons, Walk.sequence, ih]

theorem items_mirror {e : Element} {size : Nat} {body : Nat → Step} {plain : Place → Cursor → Walk.Step}
    (h : ∀ i, Mirrors (body i) fun p => plain (p.enter (itemName e i))) (hcount : e.count = some size) :
    Mirrors (items e size body) fun p => Walk.eachItem p e plain := by
  intro s
  have each := sequence_mirrors fun i (_ : i ∈ List.range size) =>
    inArray_mirrors (h i) ⟨size, e.itemSize, s.uid, i⟩
  simp only [Walk.eachItem, hcount, itemsFrom_eq_map, sequence_map, ← List.range_eq_range']
  exact each { s with uid := s.uid + 1 }

theorem nest_mirrors {body : Step} {plain : Place → Cursor → Walk.Step} (h : Mirrors body plain) (e : Element) :
    Mirrors (nest e body) fun p => Walk.eachItem p e plain := by
  intro s
  unfold nest
  cases hcount : e.count with
  | none =>
    simp only [Walk.eachItem, hcount]
    exact within_mirrors h e.name s
  | some size => exact items_mirror (fun i => within_mirrors h (itemName e i)) hcount s

theorem leaf_mirrors (e : Element) : Mirrors (leaf e) fun p => Walk.eachItem p e (Walk.leaf e) := by
  have item : ∀ name, Mirrors (pushItem e name) fun p => Walk.leaf e (p.enter name) := fun _ _ => rfl
  intro s
  unfold leaf
  cases hcount : e.count with
  | none =>
    simp only [Walk.eachItem, hcount]
    exact item e.name s
  | some size => exact items_mirror (fun i => item (itemName e i)) hcount s

theorem bits_mirrors (b : Bitfield) : Mirrors (bits b) (Walk.bits b) := fun _ => rfl

theorem visit_mirrors (table : TypeTable) (depth : Nat) (e : Element) :
    Mirrors (visit table depth e) fun p => Walk.visit table depth p e := by
  induction depth using Nat.strongRecOn generalizing e with
  | _ depth ih =>
    intro s
    beta_reduce
    unfold visit Walk.visit
    cases e.kind with
    | primitive base => exact leaf_mirrors e s
    | enumeration name => exact leaf_mirrors e s
    | bitfield name =>
      dsimp only
      cases table.bitfields.get? name with
      | none => rfl
      | some b => exact inherit_mirrors (nest_mirrors (bits_mirrors b) e) e.props b.props s
    | typedef name =>
      dsimp only
      cases table.typedefs.get? name with
      | none => rfl
      | some t =>
        cases depth with
        | zero => rfl
        | succ depth =>
          have elements := sequence_mirrors fun f (_ : f ∈ t.elements) => ih depth (Nat.lt_succ_self depth) f
          exact inherit_mirrors (nest_mirrors elements e) e.props t.props s

/-- A visit leaves path, layers and arrays as it finds them, and only adds records. -/
theorem visit_restores {table : TypeTable} {depth : Nat} {e : Element} {s t : State}
    (h : visit table depth e s = .ok t) :
    t.path = s.path ∧ t.layers = s.layers ∧ t.arrays = s.arrays ∧ s.records <+: t.records := by
  rw [visit_mirrors table depth e s, map_eq_ok] at h
  obtain ⟨r, _, rfl⟩ := h
  exact ⟨rfl, rfl, rfl, List.prefix_append _ _⟩

/-- The run over a root typedef starts with its keys on the stack, and ends with nothing else there. -/
theorem flatten_mirrors {table : TypeTable} {root : Typedef} (hroot : root.props.keys.Nodup) {uid next : Nat}
    {rs : List Record} (h : Walk.flatten table root uid = .ok (rs, next)) :
    ∃ t, flatten table root uid = .ok t ∧ t.records = rs ∧ t.uid = next ∧
      t.path = none ∧ t.layers = [root.props] ∧ t.arrays = [] := by
  obtain ⟨⟨records, c⟩, hwalk, heq⟩ := map_eq_ok.mp h
  cases heq
  have all := sequence_mirrors (fun e (_ : e ∈ root.elements) => visit_mirrors table table.typedefs.length e)
    (start root uid)
  have distinct : (Entries.keys ([] : Props) ++ root.props.keys).Nodup := hroot
  have bottom : Entries.merge [] root.props = root.props := Entries.merge_eq_append distinct
  have place : (start root uid).place = ⟨none, root.props, []⟩ := congrArg (Place.mk none · []) bottom
  rw [place, show (start root uid).cursor = ⟨0, uid⟩ from rfl] at all
  beta_reduce at all
  rw [hwalk] at all
  exact ⟨_, all, rfl, rfl, rfl, rfl, rfl⟩

end AddressMap.StackWalk
