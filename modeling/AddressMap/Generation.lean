import AddressMap.Header
import AddressMap.Output
import AddressMap.Settings
import AddressMap.Sheet
import AddressMap.Snapshot
import AddressMap.Summary

set_option autoImplicit false

namespace AddressMap

structure GenerationOptions where
  clean : Bool
  /-- Leave the version of the generator out of banners. -/
  hideVersion : Bool

structure GenerationReport where
  summary : Summary
  written : List String
  hasOutputs : Bool

namespace Generation

def load (s : Settings) (t : FileTree) (patterns : PatternReader) : Dialogued (Description × ResolvedMap) := do
  let d ← importFiles s.policy (s.files.map fun path => (path, t.readFile? [] path))
  match resolve d patterns with
  | .ok m => return (d, m)
  | .error e => throw e

structure Group where
  kind : OutputKind
  dir : Option String
  files : FileSet

def groups (s : Settings) (o : GenerationOptions) (d : Description) (m : ResolvedMap) : List Group :=
  [⟨.header, s.headerDir, Header.files m o.hideVersion⟩,
    ⟨.sheet, s.sheetDir, Sheet.files m⟩,
    ⟨.snapshot, s.snapshotDir, Snapshot.files m (some d)⟩]

def writeGroup (clean : Bool) (g : Group) : Filing (List String) :=
  match g.dir with
  | some dir => Output.write dir g.files clean g.kind.extensions
  | none => pure []

def publish (s : Settings) (o : GenerationOptions) (d : Description) (m : ResolvedMap) :
    Filing (List String) :=
  List.flatten <$> (groups s o d m).mapM (writeGroup o.clean)

structure Progress where
  tree : FileTree
  dialogue : Dialogue

def run (s : Settings) (o : GenerationOptions) (p : Progress) (patterns : PatternReader := Pattern.read) :
    Except Error GenerationReport × Progress :=
  match (load s p.tree patterns).run.run p.dialogue with
  | (.error e, dialogue) => (.error e, { p with dialogue })
  | (.ok (d, m), dialogue) =>
    match (publish s o d m).run.run p.tree with
    | (.error e, tree) => (.error e, ⟨tree, dialogue⟩)
    | (.ok written, tree) => (.ok ⟨m.summary, written, s.hasOutputs⟩, ⟨tree, dialogue⟩)

end Generation

end AddressMap
