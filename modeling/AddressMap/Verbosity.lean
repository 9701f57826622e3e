set_option autoImplicit false

namespace AddressMap

inductive LogLevel where
  | debug
  | info
  | warning
  | error
  | fatal
  | critical
  deriving DecidableEq

def LogLevel.name : LogLevel → String
  | .debug => "debug"
  | .info => "info"
  | .warning => "warning"
  | .error => "error"
  | .fatal => "fatal"
  | .critical => "critical"

def LogLevel.ofName? (name : String) : Option LogLevel :=
  [LogLevel.debug, .info, .warning, .error, .fatal, .critical].find? fun l => l.name == name

inductive Verbosity where
  | quiet
  | warnings
  | normal
  | verbose
  | trace
  deriving DecidableEq

namespace Verbosity

def ofLogLevel : LogLevel → Verbosity
  | .debug => .verbose
  | .info => .normal
  | .warning => .warnings
  | .error | .fatal | .critical => .quiet

def ofCount : Nat → Verbosity
  | 0 => .normal
  | 1 => .verbose
  | _ => .trace

def levelName : Verbosity → String
  | .quiet => "ERROR"
  | .warnings => "WARN"
  | .normal => "INFO"
  | .verbose => "DEBUG"
  | .trace => "TRACE"

def directive (v : Verbosity) : String := s!"memory_map_manager={v.levelName},mmm_gen={v.levelName}"

end Verbosity

end AddressMap
