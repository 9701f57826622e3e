import AddressMap.Entries

set_option autoImplicit false

namespace AddressMap

abbrev FileSet := Entries String

/-- Writes files one after the other; a later file of the same name replaces an earlier one. -/
def FileSet.ofWrites (writes : List (String × String)) : FileSet :=
  writes.foldl (fun files w => Entries.insert files w.1 w.2) []

end AddressMap
