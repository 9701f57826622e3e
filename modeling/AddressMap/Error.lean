import AddressMap.Expr
import AddressMap.Primitive
import AddressMap.Section
import AddressMap.Text.Quoted

set_option autoImplicit false

namespace AddressMap

inductive Definition where
  | define
  | metadata
  | enumeration
  | bitfield
  | typedef
  deriving DecidableEq

def Definition.name : Definition → String
  | .define => "define"
  | .metadata => "metadata"
  | .enumeration => "enum"
  | .bitfield => "bitfield"
  | .typedef => "typedef"

inductive DefinitionFault where
  | noValue
  | noScalar
  | version (text : String)
  | notPrimitive (type : String)
  | zeroAlignment
  | tooManyUsers (limit count : Nat)
  | notEnumType (type : Primitive)
  | notInteger (member : String) (value : Scalar)
  | overflows (member : String)
  | outOfBounds (value : Int) (type : Primitive)
  | invalidWidth (member : String) (value : Scalar)
  | zeroWidth (member : String)
  | tooManyBits (bits : Nat)
  | notIntegerType (type : String)
  | tooManyBitsFor (bits : Nat) (type : Primitive)
  | notSize (key : String) (value : Scalar)
  | tooLarge (element : String)
  | exceedsTotal (total contents : Nat)

namespace DefinitionFault

def message : DefinitionFault → String
  | .noValue => "a mapping entry needs a value"
  | .noScalar => "value must be a scalar"
  | .version text => s!"{text} is not major.minor.patch"
  | .notPrimitive type => s!"{type} is not a primitive type"
  | .zeroAlignment => "alignment must be at least 1"
  | .tooManyUsers limit count => s!"at most {limit} users are supported, got {count}"
  | .notEnumType type => s!"{type.name} is not a valid type"
  | .notInteger member value => s!"{member} is not an integer ({value.toText})"
  | .overflows member => s!"{member} overflows"
  | .outOfBounds value type => s!"{value} is out of bounds of {type.name}"
  | .invalidWidth member value => s!"{member} has invalid bits {value.toText}"
  | .zeroWidth member => s!"{member} has 0 bits"
  | .tooManyBits bits => s!"too many bits ({bits})"
  | .notIntegerType type => s!"{type} is not an integer type"
  | .tooManyBitsFor bits type => s!"too many bits ({bits}) for {type.name}"
  | .notSize key value => s!"{key} must be a non-negative integer, got {value.toText}"
  | .tooLarge element => s!"{element} is too large"
  | .exceedsTotal total contents =>
    s!"total size limit ({total}) exceeds calculated size {contents}"

end DefinitionFault

inductive ReferenceFault where
  | loop (target : String)
  | missing (target : String)

/-- Entries that depend on something missing or on themselves. -/
inductive Unresolved where
  | defines (names : List String)
  | typedefs (names types : List String)
  | reference (name : String) (kind : Section) (fault : ReferenceFault)
  | nesting (name element : String)

namespace Unresolved

def kindName : Unresolved → String
  | .defines _ => "defines"
  | .typedefs .. => "typedefs"
  | .reference .. => "references"
  | .nesting .. => "nested typedefs"

def names : Unresolved → List String
  | .defines names => names
  | .typedefs names _ => names
  | .reference name _ _ => [name]
  | .nesting name _ => [name]

def detail : Unresolved → String
  | .defines _ => ""
  | .typedefs _ types => s!"/typo. {Text.quotedSet types} types are not resolved"
  | .reference _ kind (.loop target) => s!" in {kind.name} (loop through {target})"
  | .reference _ kind (.missing target) => s!" in {kind.name} ({target} is not defined)"
  | .nesting _ element => s!" at {element}"

end Unresolved

/-- Who may do what is given by one of two free keys. -/
inductive Permission where
  | read
  | write
  deriving DecidableEq

def Permission.key : Permission → String
  | .read => "read_permission"
  | .write => "write_permission"

inductive PermissionFault where
  | unknownUser (user : String)
  | invalid (value : Value)
  | tooWide

def PermissionFault.message : PermissionFault → String
  | .unknownUser user => s!"unknown permission user {user}"
  | .invalid value => s!"invalid permission {value.compact}"
  | .tooWide => "must be less than 4 bits"

inductive OverrideFault where
  | notMapping
  | invalidMap (value : Value)
  | noMap
  | computedKey (key : String)
  | noMatch

def OverrideFault.message : OverrideFault → String
  | .notMapping => "must be a mapping"
  | .invalidMap value => s!"invalid map {value.compact}"
  | .noMap => "no map given and no default map"
  | .computedKey key => s!"{key} cannot be overridden"
  | .noMatch => "override did not match anything"

inductive StructureFault where
  | notMapping (value : Value)
  | unknownSection (name : String)
  | sectionNotMapping (name : String)

def StructureFault.message : StructureFault → String
  | .notMapping value => s!"expected a mapping, got {value.compact}"
  | .unknownSection name => s!"unknown section {name}"
  | .sectionNotMapping name => s!"section {name} must be a mapping"

inductive Error where
  | settingsLoad
  | settingsNotFound (path : String)
  | noInputFiles
  | inputRead (path : String)
  | inputParse (path : String)
  | inputStructure (path : String) (fault : StructureFault)
  | conflict (key : String) (existing new : Value)
  | invalidEntry (kind : Section) (name : String)
  | missingSection (kind : Section)
  | evaluation (context : String) (source : ExprError)
  | unresolved (what : Unresolved)
  | duplicate (name owner : String)
  | nameConflict (names : List String) (first second : Section)
  | unknownType (type context : String)
  | invalidDefinition (kind : Definition) (name : String) (fault : DefinitionFault)
  | invalidPermission (permission : Permission) (record : String) (fault : PermissionFault)
  | unknownMap (name : String)
  | override (selector : String) (fault : OverrideFault)
  | invalidPattern
  | io
  | createDirectory (path : String)
  | writeFile (path : String)

inductive ErrorGroup where
  | conflict
  | unresolved
  | invalid
  | other
  deriving DecidableEq

namespace Error

def group : Error → ErrorGroup
  | .conflict .. => .conflict
  | .unresolved _ => .unresolved
  | .invalidDefinition .. | .invalidPermission .. => .invalid
  | _ => .other

def message : Error → String
  | .settingsLoad => "failed to load configuration"
  | .settingsNotFound path => s!"configuration file not found: {path}"
  | .noInputFiles => "invalid configuration: files must list at least one map description"
  | .inputRead path => s!"failed to read {path}"
  | .inputParse path => s!"failed to parse {path}"
  | .inputStructure path fault => s!"invalid description in {path}: {fault.message}"
  | .conflict key existing new =>
    s!"conflicting configuration {key}: {existing.compact} with new value {new.compact}!"
  | .invalidEntry kind name => s!"invalid {kind.name} entry '{name}'"
  | .missingSection kind => s!"missing required section: {kind.name}"
  | .evaluation context source => s!"cannot evaluate {context}: {source.message}"
  | .unresolved what =>
    s!"cannot resolve {what.kindName} {Text.quotedList what.names} due to missing definition/circular dependency{what.detail}"
  | .duplicate name owner => s!"duplicate record {name} in {owner}"
  | .nameConflict names first second =>
    s!"conflicting names ({Text.quotedList names}) between {first.name} and {second.name}"
  | .unknownType type context => s!"{type} type for {context} does not exist"
  | .invalidDefinition kind name fault => s!"invalid {kind.name} '{name}': {fault.message}"
  | .invalidPermission permission record fault =>
    s!"invalid {permission.key} in {record}: {fault.message}"
  | .unknownMap name => s!"map {name} not defined in maps"
  | .override selector fault => s!"override {selector}: {fault.message}"
  | .invalidPattern => "invalid override pattern"
  | .io => "I/O error"
  | .createDirectory path => s!"failed to create directory {path}"
  | .writeFile path => s!"failed to write {path}"

end Error

/-- A state that was reached, and the error that stopped further progress, if any. -/
structure Outcome (σ : Type) where
  state : σ
  error : Option Error

namespace Outcome

variable {σ τ : Type}

def done (s : σ) : Outcome σ := ⟨s, none⟩

def andThen (o : Outcome σ) (f : σ → Outcome σ) : Outcome σ :=
  match o.error with
  | none => f o.state
  | some _ => o

def toExcept (o : Outcome σ) : Except Error σ :=
  match o.error with
  | none => .ok o.state
  | some e => .error e

@[simp] theorem andThen_done (s : σ) (f : σ → Outcome σ) : (done s).andThen f = f s := rfl

end Outcome

end AddressMap
