import AddressMap.Section
import AddressMap.Value

set_option autoImplicit false

namespace AddressMap

structure Description where
  sections : Props

namespace Description

def section? (d : Description) (s : Section) : Option Props :=
  match d.sections.get? s.name with
  | some (.object es) => some es
  | _ => none

def isEmpty (d : Description) : Bool := d.sections.isEmpty

def snapshot (d : Description) : Description := ⟨Entries.sortByKey (Value.sortEntries d.sections)⟩

end Description

end AddressMap
