import AddressMap.Record

set_option autoImplicit false

/-!
An override patches the free keys and the description of all records of one map that it selects, by
exact name or by a pattern `r"…"`. Overrides are applied in written order, so the last one that sets a
key wins. Computed keys cannot be set. How patterns are written and what they match is left open here.
-/

namespace AddressMap

/-- The test of names that a text stands for, if it is a pattern. -/
abbrev PatternReader := String → Option (String → Bool)

namespace Override

inductive Selector where
  | exact (name : String)
  | pattern (test : String → Bool)

def patternText? (key : String) : Option String :=
  match key.toList with
  | 'r' :: '"' :: rest =>
    match rest.reverse with
    | '"' :: body => some (String.ofList body.reverse)
    | _ => none
  | _ => none

def Selector.ofKey (patterns : PatternReader) (key : String) : Except Error Selector :=
  match patternText? key with
  | none => .ok (.exact key)
  | some text =>
    match patterns text with
    | some test => .ok (.pattern test)
    | none => .error .invalidPattern

def Selector.selects : Selector → String → Bool
  | .exact name, s => name == s
  | .pattern test, s => test s

def computedKeys : List String :=
  ["name", "map_offset", "type", "array_size", "bits", "enum", "reserved", "readable", "writable",
    "default_changed", "compressed_offset", "compressed_info"]

def isComputed (key : String) : Bool :=
  computedKeys.contains key || "resolved_".toList.isPrefixOf key.toList

def descriptionOf : Value → Option String
  | .null => none
  | .string s => some s
  | v => some v.compact

def setKey (r : Record) (key : String) (v : Value) : Record :=
  if key = "description" then { r with description := descriptionOf v }
  else { r with props := r.props.set key v }

def changesDefault (r : Record) (changes : Props) : Bool :=
  match changes.get? "default" with
  | none => false
  | some new =>
    match r.props.get? "default" with
    | none => true
    | some old => !old.same new

def patch (r : Record) (changes : Props) : Record :=
  let changed := changesDefault r changes
  { changes.foldl (fun r e => setKey r e.1 e.2) r with defaultChanged := some changed }

structure Entry where
  key : String
  mapName : String
  changes : Props
  selector : Selector

def invalid {α : Type} (key : String) (fault : OverrideFault) : Except Error α :=
  .error (.override key fault)

def mapName (defaultMap : Option String) (key : String) (v : Option Value) : Except Error String :=
  match v with
  | some (.string name) => .ok name
  | some other => invalid key (.invalidMap other)
  | none =>
    match defaultMap with
    | some name => .ok name
    | none => invalid key .noMap

def read (patterns : PatternReader) (defaultMap : Option String) (key : String) (v : Value) : Except Error Entry :=
  match v with
  | .object es => do
    let mapName ← mapName defaultMap key (Entries.get? es "map")
    let changes := Entries.swapErase es "map"
    match changes.keys.find? isComputed with
    | some computed => invalid key (.computedKey computed)
    | none =>
      let selector ← Selector.ofKey patterns key
      return { key, mapName, changes, selector }
  | _ => invalid key .notMapping

def Entry.patchRecord (e : Entry) (r : Record) : Record :=
  if e.selector.selects r.name then patch r e.changes else r

def Entry.applyTo (e : Entry) (m : FlatMap) : FlatMap :=
  { m with records := m.records.map e.patchRecord }

def updateMap (f : FlatMap → FlatMap) (name : String) : List FlatMap → List FlatMap
  | [] => []
  | m :: rest => if m.name = name then f m :: rest else m :: updateMap f name rest

def Entry.apply (e : Entry) (maps : List FlatMap) : Except Error (List FlatMap) :=
  match maps.find? fun m => m.name = e.mapName with
  | none => .error (.unknownMap e.mapName)
  | some m =>
    if m.records.any fun r => e.selector.selects r.name then
      .ok (updateMap e.applyTo e.mapName maps)
    else invalid e.key .noMatch

/-- Applies a section in order. What was applied before an error stays. -/
def applyAll (patterns : PatternReader) (defaultMap : Option String) (maps : List FlatMap) :
    Props → Outcome (List FlatMap)
  | [] => .done maps
  | (key, v) :: rest =>
    match (read patterns defaultMap key v).bind fun e => e.apply maps with
    | .error e => ⟨maps, some e⟩
    | .ok maps => applyAll patterns defaultMap maps rest

end Override

end AddressMap
