import AddressMap.Settings
import AddressMap.Verbosity

set_option autoImplicit false

/-!
Arguments of the program. Most options stand before the command or behind it, and behind it they win.
An option that takes a value is settled when the next option begins, so that of two faults the one
that is noticed first is reported.
-/

namespace AddressMap.CommandLine

inductive Refusal where
  | unknownArgument
  | unknownCommand
  | invalidValue
  | unneededValue
  | repeated
  | help
  | version (program : String)

inductive Command where
  | generate (hideVersion : Bool)
  | check (json : Bool)

inductive Level where
  | top
  | generate
  | check
  deriving DecidableEq

inductive Flag where
  | clean
  | quiet
  | verbose
  | hideVersion
  | json
  | help
  | version
  deriving DecidableEq

inductive Setting where
  | path
  | logLevel
  deriving DecidableEq

inductive Argument where
  | flag (f : Flag)
  | setting (s : Setting)

def programName : String := "mmm-gen"

def Level.program : Level → String
  | .top => programName
  | .generate => programName ++ "-generate"
  | .check => programName ++ "-check"

def command? : String → Option Level
  | "generate" => some .generate
  | "check" => some .check
  | _ => none

def isCommand (word : String) : Bool := word == "help" || (command? word).isSome

def Argument.ofLong? (level : Level) (name : String) : Option Argument :=
  match name with
  | "cfg-path" => some (.setting .path)
  | "loglevel" => some (.setting .logLevel)
  | "clean" => some (.flag .clean)
  | "verbose" => some (.flag .verbose)
  | "quiet" => some (.flag .quiet)
  | "help" => some (.flag .help)
  | "version" => some (.flag .version)
  | "hide-version" => if level = .generate then some (.flag .hideVersion) else none
  | "json" => if level = .check then some (.flag .json) else none
  | _ => none

def Argument.ofShort? (level : Level) (letter : Char) : Option Argument :=
  match letter with
  | 'p' => some (.setting .path)
  | 'C' => some (.flag .clean)
  | 'v' => some (.flag .verbose)
  | 'q' => some (.flag .quiet)
  | 'h' => some (.flag .help)
  | 'V' => some (.flag .version)
  | 'j' => if level = .check then some (.flag .json) else none
  | _ => none

/-- A setting that is not settled yet; its value may still have to come. -/
structure Pending where
  setting : Setting
  value : Option String

structure Given where
  path : Option String
  logLevel : Option LogLevel
  clean : Bool
  quiet : Bool
  hideVersion : Bool
  json : Bool
  verbose : Nat
  pending : Option Pending

namespace Given

def none : Given := ⟨.none, .none, false, false, false, false, 0, .none⟩

/-- A setting is given once. Paths are not empty, and levels have one of their names. -/
def assign (g : Given) (s : Setting) (value : String) : Except Refusal Given :=
  match s with
  | .path =>
    if g.path.isSome then .error .repeated
    else if value.isEmpty then .error .invalidValue
    else .ok { g with path := some value }
  | .logLevel =>
    if g.logLevel.isSome then .error .repeated
    else match LogLevel.ofName? value with
      | some l => .ok { g with logLevel := some l }
      | .none => .error .invalidValue

def settle (g : Given) : Except Refusal Given :=
  match g.pending with
  | .none => .ok g
  | some ⟨_, .none⟩ => .error .invalidValue
  | some ⟨s, some value⟩ => { g with pending := .none }.assign s value

/-- Flags are given once, but for the one that is counted, which stops at 255. -/
def raise (g : Given) (level : Level) (f : Flag) : Except Refusal Given := do
  let g ← g.settle
  match f with
  | .clean => if g.clean then .error .repeated else .ok { g with clean := true }
  | .quiet => if g.quiet then .error .repeated else .ok { g with quiet := true }
  | .hideVersion => if g.hideVersion then .error .repeated else .ok { g with hideVersion := true }
  | .json => if g.json then .error .repeated else .ok { g with json := true }
  | .verbose => .ok { g with verbose := min 255 (g.verbose + 1) }
  | .help => .error .help
  | .version => .error (.version level.program)

def await (g : Given) (s : Setting) : Except Refusal Given :=
  g.settle.map fun g => { g with pending := some ⟨s, .none⟩ }

def isAwaiting (g : Given) : Bool :=
  match g.pending with
  | some ⟨_, .none⟩ => true
  | _ => false

def attach (g : Given) (s : Setting) (value : String) : Except Refusal Given := do
  let g ← g.settle
  g.assign s value

def long (g : Given) (level : Level) (name : String) (value : Option String) : Except Refusal Given :=
  match Argument.ofLong? level name, value with
  | .none, _ => .error .unknownArgument
  | some (.flag _), some _ => .error .unneededValue
  | some (.flag f), .none => g.raise level f
  | some (.setting s), some value => g.attach s value
  | some (.setting s), .none => g.await s

/-- Letters behind one dash. What stands behind the letter of a setting is its value. -/
def short (g : Given) (level : Level) : List Char → Except Refusal Given
  | [] => .ok g
  | c :: rest =>
    match Argument.ofShort? level c with
    | .none => .error .unknownArgument
    | some (.flag f) => do
      let g ← g.raise level f
      g.short level rest
    | some (.setting s) =>
      match rest with
      | [] => g.await s
      | '=' :: value => g.attach s (String.ofList value)
      | value => g.attach s (String.ofList value)

end Given

def misplaced (level : Level) : Refusal := if level = .top then .unknownCommand else .unknownArgument

/-- A word behind two dashes, where no options and no commands are looked for. -/
def behindDashes (level : Level) (g : Given) : List String → Except Refusal Given
  | [] => .ok g
  | word :: _ =>
    .error (if level = .top && isCommand word then .unknownArgument else misplaced level)

def helpRequest : List String → Refusal
  | [] => .help
  | [word] => if isCommand word then .help else .unknownCommand
  | _ => .unknownCommand

def splitLong (name : List Char) : String × Option String :=
  let front := name.takeWhile (· != '=')
  match name.dropWhile (· != '=') with
  | [] => (String.ofList front, none)
  | _ :: value => (String.ofList front, some (String.ofList value))

def readLevel (level : Level) (g : Given) : List String → Except Refusal (Given × Option (Level × List String))
  | [] => .ok (g, none)
  | word :: rest =>
    let isOpen := level = .top && !g.isAwaiting
    match if isOpen then command? word else none with
    | some command => .ok (g, some (command, rest))
    | none =>
      if isOpen && word == "help" then .error (helpRequest rest)
      else match word.toList with
        | ['-', '-'] => (behindDashes level g rest).map fun g => (g, none)
        | '-' :: '-' :: name => do
          let (name, value) := splitLong name
          readLevel level (← g.long level name value) rest
        | '-' :: c :: letters => do
          readLevel level (← g.short level (c :: letters)) rest
        | _ =>
          match g.pending with
          | some ⟨s, none⟩ => readLevel level { g with pending := some ⟨s, some word⟩ } rest
          | _ => .error (misplaced level)

structure Invocation where
  path : String
  clean : Bool
  logLevel : Option LogLevel
  verbose : Nat
  quiet : Bool
  command : Option Command

/-- What was given behind the command lies over what was given before it. -/
def combine (top sub : Given) (command : Option Command) : Invocation where
  path := (sub.path.or top.path).getD Settings.defaultFile
  clean := top.clean || sub.clean
  logLevel := sub.logLevel.or top.logLevel
  verbose := if sub.verbose = 0 then top.verbose else sub.verbose
  quiet := top.quiet || sub.quiet
  command := command

def commandOf (level : Level) (g : Given) : Option Command :=
  match level with
  | .top => none
  | .generate => some (.generate g.hideVersion)
  | .check => some (.check g.json)

def parse (arguments : List String) : Except Refusal Invocation := do
  let (top, next) ← readLevel .top .none arguments
  match next with
  | none => return combine (← top.settle) .none none
  | some (level, rest) =>
    let (sub, _) ← readLevel level .none rest
    let sub ← sub.settle
    let top ← top.settle
    return combine top sub (commandOf level sub)

namespace Invocation

def verbosity (i : Invocation) : Verbosity :=
  if i.quiet then .quiet
  else match i.logLevel with
    | some l => .ofLogLevel l
    | none => .ofCount i.verbose

def task (i : Invocation) : Command := i.command.getD (.generate false)

end Invocation

end AddressMap.CommandLine
