import AddressMap.Path

set_option autoImplicit false

namespace AddressMap

abbrev Location := List String

def Location.text (l : Location) : String := "/" ++ "/".intercalate l

inductive FileItem where
  | directory
  | file (text : String)
  deriving DecidableEq

inductive PathFault where
  | missing
  | notDirectory
  | invalidName
  | present
  deriving DecidableEq

structure FileTree where
  items : List (Location × FileItem)

namespace FileTree

def empty : FileTree := ⟨[]⟩

def lookup (items : List (Location × FileItem)) (l : Location) : Option FileItem :=
  match items with
  | [] => none
  | (place, item) :: rest => if place = l then some item else lookup rest l

def item? (t : FileTree) (l : Location) : Option FileItem :=
  if l = [] then some .directory else lookup t.items l

def put (t : FileTree) (l : Location) (item : FileItem) : FileTree :=
  ⟨t.items.filter (fun e => e.1 ≠ l) ++ [(l, item)]⟩

def isDirectoryAt (t : FileTree) (l : Location) : Bool :=
  match t.item? l with
  | some .directory => true
  | _ => false

/-- Names have at most 255 bytes, none of which is zero. -/
def isName (name : String) : Bool := name.utf8ByteSize ≤ 255 && !name.toList.contains '\x00'

/-- Where the names lead, starting at a location. The last name need not be there. -/
def follow (t : FileTree) (here : Location) : List String → Except PathFault Location
  | [] => .ok here
  | name :: rest =>
    match t.item? here with
    | none => .error .missing
    | some (.file _) => .error .notDirectory
    | some .directory =>
      if name == "." then t.follow here rest
      else if name == ".." then t.follow here.dropLast rest
      else if isName name then t.follow (here ++ [name]) rest
      else .error .invalidName

def locate (t : FileTree) (here : Location) (path : String) : Except PathFault Location :=
  if path.isEmpty then .error .missing
  else t.follow (if Path.isAbsolute path then [] else here) (Path.steps path)

def find? (t : FileTree) (here : Location) (path : String) : Option FileItem :=
  match t.locate here path with
  | .ok l => t.item? l
  | .error _ => none

def isFile (t : FileTree) (here : Location) (path : String) : Bool :=
  match t.find? here path with
  | some (.file _) => true
  | _ => false

def readFile? (t : FileTree) (here : Location) (path : String) : Option String :=
  match t.find? here path with
  | some (.file text) => some text
  | _ => none

/-- Writes a file. Its directory has to be there, and no directory may have its name. -/
def writeFile? (t : FileTree) (path : String) (text : String) : Option FileTree :=
  match t.locate [] path with
  | .error _ => none
  | .ok l => if t.isDirectoryAt l then none else some (t.put l (.file text))

def makeDirectory (t : FileTree) (names : List String) : Except PathFault FileTree :=
  match t.follow [] names with
  | .error fault => .error fault
  | .ok l => if (t.item? l).isSome then .error .present else .ok (t.put l .directory)

def isDirectory (t : FileTree) (names : List String) : Bool :=
  match t.follow [] names with
  | .ok l => t.isDirectoryAt l
  | .error _ => false

def makeDirectoriesFrom (t : FileTree) (names : List String) : Nat → Bool × FileTree
  | 0 => (false, t)
  | fuel + 1 =>
    match t.makeDirectory names with
    | .ok t => (true, t)
    | .error .missing =>
      match Path.parent? names with
      | none => (false, t)
      | some parent =>
        let (made, t) := t.makeDirectoriesFrom parent fuel
        if !made then (false, t)
        else match t.makeDirectory names with
          | .ok t => (true, t)
          | .error _ => (t.isDirectory names, t)
    | .error _ => (t.isDirectory names, t)

def makeDirectories (t : FileTree) (path : String) : Bool × FileTree :=
  t.makeDirectoriesFrom (Path.names path) ((Path.names path).length + 1)

def filesIn (t : FileTree) (l : Location) (p : String → Bool) : List Location :=
  t.items.filterMap fun e =>
    match e.2, e.1.getLast? with
    | .file _, some name => if e.1.dropLast = l && p name then some e.1 else none
    | _, _ => none

def removeFiles (t : FileTree) (files : List Location) : FileTree :=
  ⟨t.items.filter fun e => !files.contains e.1⟩

end FileTree

end AddressMap
