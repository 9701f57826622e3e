import AddressMap.Resolution

set_option autoImplicit false

namespace AddressMap

structure MapSummary where
  name : String
  type : String
  size : Nat
  records : Nat

structure Summary where
  appName : String
  version : String
  maps : List MapSummary
  fullHash : String
  fwHash : String
  swHash : String

def ResolvedMap.summary (m : ResolvedMap) : Summary where
  appName := m.metadata.appName
  version := m.metadata.version
  maps := m.maps.map fun f => ⟨f.name, f.type, f.size, f.records.length⟩
  fullHash := m.metadata.fullHash
  fwHash := m.metadata.fwHash
  swHash := m.metadata.swHash

def MapSummary.toValue (m : MapSummary) : Value :=
  .object [("name", .string m.name), ("type", .string m.type), ("size", .ofNat m.size),
    ("records", .ofNat m.records)]

def Summary.toValue (s : Summary) : Value :=
  .object [("app_name", .string s.appName), ("version", .string s.version),
    ("maps", .array (s.maps.map MapSummary.toValue)), ("full_hash", .string s.fullHash),
    ("fw_hash", .string s.fwHash), ("sw_hash", .string s.swHash)]

end AddressMap
