import AddressMap.Program

set_option autoImplicit false

namespace AddressMap.Console

def attempt? {α : Type} (action : IO α) : IO (Option α) := do
  try
    return some (← action)
  catch _ => return none

def addItem (t : FileTree) (l : Location) (item : FileItem) : FileTree :=
  let around := (List.range l.length).map fun n => l.take n
  (around.foldl (fun t l => if (t.item? l).isNone then t.put l .directory else t) t).put l item

def location (path : String) : Location :=
  (Path.names path).foldl (fun l name =>
    if name == "." then l else if name == ".." then l.dropLast else l ++ [name]) []

def loadFile (t : FileTree) (path : String) : IO FileTree := do
  match ← attempt? (IO.FS.readFile path) with
  | some text => return addItem t (location path) (.file text)
  | none => return t

def loadDirectory (t : FileTree) (path : String) : IO FileTree := do
  match ← attempt? (do (← IO.FS.realPath path).readDir) with
  | none => loadFile t path
  | some entries =>
    let l := location path
    let mut t := addItem t l .directory
    for entry in entries do
      let isDirectory := (← attempt? (do (← IO.FS.realPath entry.path).readDir)).isSome
      let text ← attempt? (IO.FS.readFile entry.path)
      t := t.put (l ++ [entry.fileName]) (if isDirectory then .directory else .file (text.getD ""))
    return t

/-- Variables in either case. -/
def loadEnvironment : IO (Entries String) := do
  let names := Settings.variableKeys.flatMap fun key =>
    let name := Settings.variableStart ++ key
    [name.map Char.toLower, name.map Char.toUpper]
  names.filterMapM fun name => do
    return (← IO.getEnv name).map fun text => (name, text)

def loadTree (here : String) (environment : Entries String) (path : String) : IO FileTree := do
  let t ← loadFile (addItem .empty (location here) .directory) (Path.join here path)
  match Settings.load t (location here) environment path with
  | .error _ => return t
  | .ok s =>
    let t ← s.files.foldlM loadFile t
    [s.headerDir, s.sheetDir, s.snapshotDir].reduceOption.foldlM loadDirectory t

def store (old new : FileTree) : IO Unit := do
  for (l, item) in old.items do
    if (new.item? l).isNone && item != .directory then
      IO.FS.removeFile l.text
  for (l, item) in new.items do
    if old.item? l != some item then
      match item with
      | .directory => IO.FS.createDirAll l.text
      | .file text => IO.FS.writeFile l.text text

/-- Runs with the lines that have been read, and reads another one for every question. -/
partial def interact (setup : Program.Setup) (printed : Nat) : IO UInt32 := do
  let result := Program.run setup
  let stdout ← IO.getStdout
  stdout.putStr (String.ofList (result.output.toList.drop printed))
  stdout.flush
  if result.isWaiting then
    let line ← (← IO.getStdin).getLine
    let setup :=
      if line.isEmpty then { setup with inputEnded := true }
      else { setup with lines := setup.lines ++ (Program.linesOf line).take 1 }
    interact setup result.output.length
  else
    store setup.tree result.tree
    if !result.complaint.isEmpty then
      (← IO.getStderr).putStrLn s!"Error: {result.complaint}"
    return result.status.toUInt32

end AddressMap.Console

def main (arguments : List String) : IO UInt32 := do
  let here := (← IO.currentDir).toString
  let environment ← AddressMap.Console.loadEnvironment
  let tree ← match AddressMap.CommandLine.parse arguments with
    | .ok i => AddressMap.Console.loadTree here environment i.path
    | .error _ => pure .empty
  let setup : AddressMap.Program.Setup :=
    ⟨tree, AddressMap.Console.location here, environment, arguments, [], false⟩
  AddressMap.Console.interact setup 0
