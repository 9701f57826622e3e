import AddressMap.Error
import AddressMap.FileSet
import AddressMap.FileTree

set_option autoImplicit false

namespace AddressMap

inductive OutputKind where
  | header
  | sheet
  | snapshot
  deriving DecidableEq

def OutputKind.extensions : OutputKind → List String
  | .header => ["c", "h"]
  | .sheet => ["csv"]
  | .snapshot => ["yaml", "json"]

/-- Work on a file tree that may fail; what it has done until then stays. -/
abbrev Filing (α : Type) := ExceptT Error (StateM FileTree) α

namespace Output

def isGenerated (extensions : List String) (name : String) : Bool :=
  name.startsWith "mm_" && (Path.extension? name).any fun e => extensions.contains e

def clean (dir : String) (extensions : List String) : Filing Nat := do
  let t ← get
  match t.locate [] dir with
  | .error _ => throw .io
  | .ok l =>
    if t.isDirectoryAt l then
      let files := t.filesIn l (isGenerated extensions)
      set (t.removeFiles files)
      return files.length
    else throw .io

def ensureDirectory (dir : String) : Filing Unit := do
  let t ← get
  if (t.find? [] dir).isNone then
    let (made, t) := t.makeDirectories dir
    set t
    if !made then throw (.createDirectory dir)

def writeFile (dir : String) (file : String × String) : Filing String := do
  let path := Path.join dir file.1
  match (← get).writeFile? path file.2 with
  | some t =>
    set t
    return path
  | none => throw (.writeFile path)

/-- Writes files in order of their names, after removing generated ones if asked to, and lists the
    paths written. -/
def write (dir : String) (files : FileSet) (cleanFirst : Bool) (extensions : List String) :
    Filing (List String) := do
  ensureDirectory dir
  if cleanFirst then
    discard (clean dir extensions)
  files.mapM (writeFile dir)

end Output

end AddressMap
