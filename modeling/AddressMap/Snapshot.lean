import AddressMap.FileSet
import AddressMap.Resolution
import AddressMap.Yaml.Printer

set_option autoImplicit false

/-!
A snapshot keeps what a run worked with: the resolved map as JSON, under its full fingerprint, and the
merged description as YAML. All keys are in ascending order, so that equal data give equal files.
-/

namespace AddressMap

def Description.toYaml (d : Description) : String := Yaml.document (.object d.snapshot.sections)

namespace Snapshot

def inputFile : String := "mm_input_cfg.yaml"

def resolvedFile (m : ResolvedMap) : String := s!"mm_{m.metadata.fullHash}_cfg.json"

/-- The description is left out when there is none, or nothing in it. -/
def writes (m : ResolvedMap) (input : Option Description) : List (String × String) :=
  (resolvedFile m, m.toValue.sortKeys.pretty) ::
  match input with
  | some d => if d.isEmpty then [] else [(inputFile, d.toYaml)]
  | none => []

def files (m : ResolvedMap) (input : Option Description) : FileSet := .ofWrites (writes m input)

end Snapshot

end AddressMap
