import AddressMap.FileTree
import AddressMap.Merge
import AddressMap.Settings.Variable

set_option autoImplicit false

namespace AddressMap

structure Settings where
  files : List String
  baseDir : Option String
  headerDir : Option String
  sheetDir : Option String
  snapshotDir : Option String
  promptConflicts : Bool
  overwriteConflicts : Bool

namespace Settings

def defaultFile : String := "main.yaml"

def variableKeys : List String := ["c_dir", "csv_dir", "cfg_dir", "prompt_conflicts", "overwrite_conflicts"]

def keys : List String := "files" :: "base_dir" :: variableKeys

def variableStart : String := "MMM_"

def variableKey? (name : String) : Option String :=
  let upper := name.map Char.toUpper
  if upper.startsWith variableStart then
    let key := String.ofList ((name.map Char.toLower).toList.drop variableStart.length)
    if variableKeys.contains key then some key else none
  else none

def overlay (es : Props) (environment : Entries String) : Props :=
  Entries.merge es (environment.filterMap fun v => (variableKey? v.1).map fun key => (key, Variable.read v.2))

def path? : Value → Option String
  | .string s => some s
  | _ => none

def paths? : Option Value → Option (List String)
  | some (.array items) => items.mapM path?
  | _ => none

def directory? : Option Value → Option (Option String)
  | none | some .null => some none
  | some v => (path? v).map some

def flag? : Option Value → Option Bool
  | none => some false
  | some (.bool b) => some b
  | _ => none

def ofEntries? (es : Props) : Option Settings := do
  if !es.keys.all keys.contains then none
  return {
    files := ← paths? (es.get? "files")
    baseDir := ← directory? (es.get? "base_dir")
    headerDir := ← directory? (es.get? "c_dir")
    sheetDir := ← directory? (es.get? "csv_dir")
    snapshotDir := ← directory? (es.get? "cfg_dir")
    promptConflicts := ← flag? (es.get? "prompt_conflicts")
    overwriteConflicts := ← flag? (es.get? "overwrite_conflicts") }

def ofText? (text : String) (environment : Entries String) : Option Settings :=
  match Yaml.read? text with
  | some (.object es) => ofEntries? (overlay es environment)
  | _ => none

def rebasePath (base path : String) : String := if Path.isHere path then base else Path.join base path

def rebase (s : Settings) (dir : String) : Settings :=
  let base := match s.baseDir with
    | some b => rebasePath dir b
    | none => dir
  { s with
    files := s.files.map (rebasePath base)
    baseDir := some base
    headerDir := s.headerDir.map (rebasePath base)
    sheetDir := s.sheetDir.map (rebasePath base)
    snapshotDir := s.snapshotDir.map (rebasePath base) }

def validate (s : Settings) : Except Error Settings :=
  if s.files.isEmpty then .error .noInputFiles else .ok s

def load (t : FileTree) (here : Location) (environment : Entries String) (path : String) :
    Except Error Settings :=
  match t.locate here path, t.readFile? here path with
  | .ok l, some text =>
    match ofText? text environment with
    | none => .error .settingsLoad
    | some s => (s.rebase (Location.text l.dropLast)).validate
  | _, _ => .error (.settingsNotFound path)

def policy (s : Settings) : ConflictPolicy := ⟨s.promptConflicts, s.overwriteConflicts⟩

def hasOutputs (s : Settings) : Bool := s.headerDir.isSome || s.sheetDir.isSome || s.snapshotDir.isSome

end Settings

end AddressMap
