import AddressMap.Header.Access

set_option autoImplicit false

namespace AddressMap.Header

def generatorVersion : String := "2.0.0"

def banner (m : ResolvedMap) (hideVersion : Bool) : Banner :=
  ⟨m.metadata.version, if hideVersion then none else some generatorVersion⟩

def unlessEmpty {α : Type} (entries : List α) (file : SourceFile) : List SourceFile :=
  if entries.isEmpty then [] else [file]

def sources (m : ResolvedMap) : List SourceFile :=
  accessFiles m ++
  unlessEmpty m.bitfields (bitfieldsFile m) ++
  defaultFiles m ++
  unlessEmpty m.defines (definesFile m) ++
  [typedefsFile m] ++
  m.typedefs.map (fun t => typedefFile m t.1 t.2) ++
  m.maps.map (mapFile m) ++
  [compilerFile, metadataFile m.metadata] ++
  unlessEmpty m.enums (enumsFile m)

def writes (m : ResolvedMap) (hideVersion : Bool) : List (String × String) :=
  (sources m).map fun f => (f.name, f.text (banner m hideVersion))

def files (m : ResolvedMap) (hideVersion : Bool) : FileSet :=
  .ofWrites (writes m hideVersion)

end AddressMap.Header
