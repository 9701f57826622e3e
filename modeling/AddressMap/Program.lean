import AddressMap.CommandLine
import AddressMap.Generation

set_option autoImplicit false

namespace AddressMap.Program

structure Setup where
  tree : FileTree
  here : Location
  environment : Entries String
  arguments : List String
  /-- Lines of input, without their ends. -/
  lines : List String
  /-- Whether the input ends behind these lines. -/
  inputEnded : Bool

structure Result where
  status : Nat
  output : String
  complaint : String
  tree : FileTree
  /-- Whether the run has stopped at a question for want of further lines. -/
  isWaiting : Bool

def padRight (width : Nat) (s : String) : String :=
  s ++ String.ofList (List.replicate (width - s.length) ' ')

def padLeft (width : Nat) (s : String) : String :=
  String.ofList (List.replicate (width - s.length) ' ') ++ s

def mapLine (m : MapSummary) : String :=
  s!"Map {padRight 16 m.name} type {padRight 16 m.type} {padLeft 6 (toString m.size)} bytes " ++
    s!"{padLeft 6 (toString m.records)} records"

def overview (s : Summary) : List String :=
  [s!"{s.appName} {s.version}", "----------------"] ++ s.maps.map mapLine ++
  ["", s!"Hash:    {s.fullHash}", s!"FW hash: {s.fwHash}", s!"SW hash: {s.swHash}"]

def help : List String :=
  ["Generate C, CSV and configuration files from memory map descriptions",
    "",
    "Usage: mmm-gen [OPTIONS] [COMMAND]",
    "",
    "Commands:",
    "  generate  Import, resolve and write every output",
    "  check     Resolve only and print an overview of the maps",
    "  help      Print this message or the help of the given subcommand(s)",
    "",
    "Options:",
    "  -p, --cfg-path <FILE>      Path to the generator configuration [default: main.yaml]",
    "  -C, --clean                Clean the generated directories before generation. Be careful!",
    "      --loglevel <LOGLEVEL>  Log level, overrides -v [possible values: debug, info, warning, error, fatal, critical]",
    "  -v, --verbose...           Increase verbosity (-v for debug, -vv for trace)",
    "  -q, --quiet                Suppress all output except errors",
    "  -h, --help                 Print help",
    "  -V, --version              Print version"]

def unlines (lines : List String) : String := String.join (lines.map (· ++ "\n"))

/-- The lines of an input. The end of a line is a line feed with any carriage returns before it. -/
def linesOf (input : String) : List String :=
  (input.splitOn "\n").map fun line => String.ofList (line.toList.reverse.dropWhile (· == '\r')).reverse

def Refusal.message : CommandLine.Refusal → String
  | .unknownArgument => "unexpected argument"
  | .unknownCommand => "unrecognized subcommand"
  | .invalidValue => "invalid value"
  | .unneededValue => "unexpected value"
  | .repeated => "the argument cannot be used multiple times"
  | .help | .version _ => ""

def refused (tree : FileTree) (refusal : CommandLine.Refusal) : Result :=
  let done (status : Nat) (output : String) : Result :=
    ⟨status, output, Refusal.message refusal, tree, false⟩
  match refusal with
  | .help => done 0 (unlines help)
  | .version program => done 0 s!"{program} {Header.generatorVersion}\n"
  | _ => done 2 ""

def showSummary (json : Bool) (s : Summary) : String :=
  if json then s.toValue.pretty ++ "\n" else unlines (overview s)

def shown (questions : List String) (output : String) : String := String.join questions ++ output

def runCommand (s : Settings) (clean : Bool) (command : CommandLine.Command) (p : Generation.Progress) :
    Except Error String × Generation.Progress :=
  match command with
  | .generate hideVersion =>
    let (result, p) := Generation.run s ⟨clean, hideVersion⟩ p
    (result.map fun r => if r.hasOutputs then "SUCCESS\n" else "", p)
  | .check json =>
    let (result, dialogue) := (Generation.load s p.tree Pattern.read).run.run p.dialogue
    (result.map fun r => showSummary json r.2.summary, { p with dialogue })

/-- Runs the program. Behind the end of the input every answer is empty. -/
def run (s : Setup) : Result :=
  match CommandLine.parse s.arguments with
  | .error refusal => refused s.tree refusal
  | .ok i =>
    match Settings.load s.tree s.here s.environment i.path with
    | .error e => ⟨1, "", e.message, s.tree, false⟩
    | .ok settings =>
      let dialogue : Dialogue := ⟨s.lines, s.inputEnded, []⟩
      let (result, p) := runCommand settings i.clean i.task ⟨s.tree, dialogue⟩
      let questions := p.dialogue.questions
      let isWaiting := !s.inputEnded && s.lines.length < questions.length
      match result with
      | .ok output => ⟨0, shown questions output, "", p.tree, isWaiting⟩
      | .error e => ⟨1, shown questions "", e.message, p.tree, isWaiting⟩

end AddressMap.Program
