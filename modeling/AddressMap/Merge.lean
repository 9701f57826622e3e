import AddressMap.Description
import AddressMap.Error
import AddressMap.Text.Class
import AddressMap.Yaml.Reader

set_option autoImplicit false

/-!
Description files are merged section by section and key by key, in the order in which they are given.
What happens to a key that an earlier file has already is a matter of policy: an error, a replacement,
or a question that is asked until its answer is one of the choices.
-/

namespace AddressMap

/-- Whether conflicts are asked about, and whether the later file wins when nothing else is said. -/
structure ConflictPolicy where
  prompt : Bool
  overwrite : Bool

namespace Description

/-- The section with its entries; one that is left blank has none. -/
def checkSection (name : String) (v : Value) : Except StructureFault (String × Props) :=
  if (Section.ofName? name).isNone then .error (.unknownSection name)
  else match v with
    | .object es => .ok (name, es)
    | .null => .ok (name, [])
    | _ => .error (.sectionNotMapping name)

def outline : Value → Except StructureFault (Entries Props)
  | .object es => es.mapM fun e => checkSection e.1 e.2
  | .null => .ok []
  | v => .error (.notMapping v)

/-- The sections of the file at a path; there may be no such file. White space is a blank document. -/
def readFile (path : String) (text : Option String) : Except Error (Entries Props) :=
  match text with
  | none => .error (.inputRead path)
  | some text =>
    if text.toList.all Text.isBlank then .ok []
    else match Yaml.read? text with
      | none => .error (.inputParse path)
      | some v => (outline v).mapError (.inputStructure path)

end Description

structure Dialogue where
  answers : List String
  /-- Whether empty answers follow without end. -/
  endless : Bool
  questions : List String

namespace ConflictPolicy

def question (p : ConflictPolicy) (key : String) (existing new : Value) : String :=
  let choices := if p.overwrite then "Y/n" else "y/N"
  s!"Conflict detected for {key}: {existing.compact}\nOverwrite with {new.compact} [{choices}]? "

/-- An answer that says nothing stands for the first choice. -/
def decide? (p : ConflictPolicy) (answer : String) : Option Bool :=
  match (Text.trim answer).map Char.toUpper with
  | "" => some p.overwrite
  | "Y" => some true
  | "N" => some false
  | _ => none

/-- Asks until an answer decides. Nothing is decided when the answers run out; an empty answer decides. -/
def ask (p : ConflictPolicy) (question : String) (endless : Bool) (asked : List String) :
    List String → Except Error Bool × Dialogue
  | [] => (if endless then .ok p.overwrite else .error .io, ⟨[], endless, asked ++ [question]⟩)
  | answer :: rest =>
    match p.decide? answer with
    | some b => (.ok b, ⟨rest, endless, asked ++ [question]⟩)
    | none => p.ask question endless (asked ++ [question]) rest

end ConflictPolicy

abbrev Dialogued (α : Type) := ExceptT Error (StateM Dialogue) α

namespace ConflictPolicy

def replaces (p : ConflictPolicy) (key : String) (existing new : Value) : Dialogued Bool :=
  if p.prompt then
    (fun d => p.ask (p.question key existing new) d.endless d.questions d.answers :
      StateM Dialogue (Except Error Bool))
  else if p.overwrite then pure true
  else throw (.conflict key existing new)

end ConflictPolicy

namespace Merge

def addEntry (p : ConflictPolicy) (name : String) (known : Props) (e : String × Value) : Dialogued Props := do
  match known.get? e.1 with
  | none => return known.set e.1 e.2
  | some existing =>
    if ← p.replaces s!"{name}.{e.1}" existing e.2 then return known.set e.1 e.2 else return known

def addSection (p : ConflictPolicy) (merged : Entries Props) (s : String × Props) : Dialogued (Entries Props) := do
  let known ← s.2.foldlM (addEntry p s.1) ((merged.get? s.1).getD [])
  return merged.set s.1 known

def addFile (p : ConflictPolicy) (merged : Entries Props) (file : String × Option String) :
    Dialogued (Entries Props) := do
  let sections ← liftExcept (Description.readFile file.1 file.2)
  sections.foldlM (addSection p) merged
where
  liftExcept {α : Type} (x : Except Error α) : Dialogued α := ExceptT.mk (pure x)

end Merge

def importFiles (p : ConflictPolicy) (files : List (String × Option String)) : Dialogued Description := do
  let merged ← files.foldlM (Merge.addFile p) []
  return ⟨merged.mapValues .object⟩

end AddressMap
