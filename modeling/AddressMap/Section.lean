set_option autoImplicit false

namespace AddressMap

inductive Section where
  | metadata
  | defines
  | enums
  | bitfields
  | typedefs
  | maps
  | overrides
  deriving DecidableEq

namespace Section

def all : List Section := [.metadata, .defines, .enums, .bitfields, .typedefs, .maps, .overrides]

def name : Section → String
  | .metadata => "metadata"
  | .defines => "defines"
  | .enums => "enums"
  | .bitfields => "bitfields"
  | .typedefs => "typedefs"
  | .maps => "generated_maps"
  | .overrides => "overrides"

def ofName? (name : String) : Option Section := all.find? fun s => s.name = name

end Section

end AddressMap
