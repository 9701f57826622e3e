import AddressMap.Value.Json
import AddressMap.Yaml.Node.Grammar
import AddressMap.Yaml.Scalar
import AddressMap.Yaml.Token.Lexer

set_option autoImplicit false

namespace AddressMap.Yaml

def numberValue? : Plain → Option Value
  | .int i => some (.ofInt i)
  | _ => none

def plainValue? (text : String) : Option Value :=
  match plain text with
  | .null => some .null
  | .bool b => some (.bool b)
  | .int i => some (.ofInt i)
  | .wideInt => none
  | .float x => some (.ofFloat x)
  | .text => some (.string text)

def coreTag (name : String) : String := "tag:yaml.org,2002:" ++ name

def isLocalTag (tag : String) : Bool := tag.startsWith "!"

/-- A text under a tag. The tags of numbers, truth values and null ask for such a text; other tags make
    it a text as it is. -/
def taggedValue? (tag text : String) : Option Value :=
  if isLocalTag tag then none
  else if tag == coreTag "bool" then (bool? text).map .bool
  else if tag == coreTag "int" then numberValue? (plain text)
  else if tag == coreTag "float" then (float? text).map .ofFloat
  else if tag == coreTag "null" then if isNull text then some .null else none
  else some (.string text)

def scalarValue? (marks : Marks) ( isPlain : Bool) (text : String) : Option Value :=
  match marks.tag with
  | some tag => taggedValue? tag text
  | none => if isPlain then plainValue? text else some (.string text)

def depthLimit : Nat := 128

/-- Aliases may be followed a hundred times for each start and end of a node. -/
def aliasLimit (root : Node) : Nat := 100 * root.size

abbrev Unfolding (α : Type) := StateT Nat Option α

def target (root : Node) : Node → Unfolding Node
  | .reference slot => fun left =>
    match left with
    | 0 => none
    | n + 1 => (root.find? slot).map fun node => (node, n)
  | node => pure node

def keyText (root key : Node) : Unfolding String := do
  match ← target root key with
  | .scalar _ _ text => return text
  | _ => fun _ => none

def data (root : Node) (depth : Nat) (node : Node) : Unfolding Value :=
  match depth, node with
  | _, .scalar marks isPlain text => fun left => (scalarValue? marks isPlain text).map fun v => (v, left)
  | depth + 1, .sequence marks items =>
    if marks.tag.any isLocalTag then fun _ => none
    else do return .array (← items.mapM fun item => do data root depth (← target root item))
  | depth + 1, .mapping marks entries =>
    if marks.tag.any isLocalTag then fun _ => none
    else do
      let read (entry : Node × Node) : Unfolding (String × Value) := do
        let key ← keyText root entry.1
        return (key, ← data root depth (← target root entry.2))
      return .object (Entries.merge [] (← entries.mapM read))
  | _, _ => fun _ => none

def Node.value? (root : Node) : Option Value :=
  ((data root depthLimit root).run (aliasLimit root)).map (·.1)

def read? (text : String) : Option Value := do
  let tokens ← tokens? text
  let root ← Node.ofTokens? tokens
  root.value?

end AddressMap.Yaml
