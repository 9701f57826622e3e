set_option autoImplicit false

namespace AddressMap.Yaml

structure TagName where
  handle : String
  suffix : String

inductive Token where
  | version (major minor : Nat)
  | handle (name tag : String)
  | documentStart
  | documentEnd
  | blockSequenceStart
  | blockMappingStart
  | blockEnd
  | flowSequenceStart
  | flowSequenceEnd
  | flowMappingStart
  | flowMappingEnd
  | blockEntry
  | flowEntry
  | key
  | value
  | reference (name : String)
  | anchor (name : String)
  | tag (name : TagName)
  | scalar ( isPlain : Bool) (text : String)

end AddressMap.Yaml
