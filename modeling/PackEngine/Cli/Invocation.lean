/-! The command line: what a list of arguments asks for. -/
namespace PackEngine

inductive CliCommand where
  | run (pack target : String) (arguments entity : Option String) (traced : Bool)
  | check (pack : String)
deriving DecidableEq, Repr

structure Invocation where
  /-- A configuration file given on the command line. -/
  config : Option String
  command : CliCommand
deriving DecidableEq, Repr

inductive HelpTopic where
  | program
  | run
  | check
  | help
deriving DecidableEq, Repr

inductive Refusal where
  | usage
  | help (topic : HelpTopic)
deriving DecidableEq, Repr

structure OptionTable where
  /-- Options with a value. -/
  valued : List String
  flags : List String
  /-- Arguments that are no options. -/
  places : Nat
  topic : HelpTopic

structure Given where
  values : List (String × String) := []
  flags : List String := []
  places : List String := []

namespace Given

def value? (given : Given) (name : String) : Option String :=
  (given.values.find? (·.1 == name)).map (·.2)

def addValue (given : Given) (name value : String) : Except Refusal Given :=
  if (given.value? name).isSome then .error .usage
  else .ok { given with values := (name, value) :: given.values }

def addFlag (given : Given) (name : String) : Except Refusal Given :=
  if given.flags.contains name then .error .usage
  else .ok { given with flags := name :: given.flags }

/-- The first place is a path and must not be empty. -/
def addPlace (table : OptionTable) (given : Given) (arg : String) : Except Refusal Given :=
  if given.places.length < table.places && !(given.places.isEmpty && arg.isEmpty) then
    .ok { given with places := given.places ++ [arg] }
  else .error .usage

end Given

/-- How an argument begins. A lone dash is an ordinary argument. -/
inductive ArgShape where
  | plain
  /-- Two dashes alone: only ordinary arguments follow. -/
  | separator
  | long (name : String) (value : Option String)
  | short (letter : Char)
deriving DecidableEq, Repr

def ArgShape.of (arg : String) : ArgShape :=
  match arg.toList with
  | ['-', '-'] => .separator
  | '-' :: '-' :: cs =>
      let name := String.ofList (cs.takeWhile (· != '='))
      match cs.dropWhile (· != '=') with
      | '=' :: value => .long name (some (String.ofList value))
      | _ => .long name none
  | '-' :: c :: _ => .short c
  | _ => .plain

/-- Reads arguments of one level up to the first ordinary one, if `subcommand` is set, and to the
end otherwise. -/
def OptionTable.scan (table : OptionTable) (subcommand : Bool) (given : Given) :
    List String → Except Refusal (Given × List String)
  | [] => .ok (given, [])
  | arg :: rest =>
      match ArgShape.of arg with
      | .plain =>
          if subcommand then .ok (given, arg :: rest)
          else do table.scan subcommand (← given.addPlace table arg) rest
      | .separator => do
          let given ← rest.foldlM (fun given arg => given.addPlace table arg) given
          return (given, [])
      | .short letter => .error (if letter == 'h' then .help table.topic else .usage)
      | .long name value =>
          if table.valued.contains name then
            match value, rest with
            | some value, rest => do table.scan subcommand (← given.addValue name value) rest
            | none, [] => .error .usage
            | none, next :: rest =>
                if ArgShape.of next = .plain then do
                  table.scan subcommand (← given.addValue name next) rest
                else .error .usage
          else if value.isSome then .error .usage
          else if name == "help" then .error (.help table.topic)
          else if table.flags.contains name then do
            table.scan subcommand (← given.addFlag name) rest
          else .error .usage

namespace Invocation

def programTable : OptionTable := ⟨["config"], [], 0, .program⟩

def runTable : OptionTable := ⟨["args", "as", "config"], ["trace"], 2, .run⟩

def checkTable : OptionTable := ⟨["config"], [], 1, .check⟩

def topicOf : List String → Refusal
  | [] => .help .program
  | ["run"] => .help .run
  | ["check"] => .help .check
  | ["help"] => .help .help
  | _ => .usage

/-- The file given last wins: options of the program may follow the command. -/
def parse (args : List String) : Except Refusal Invocation := do
  let (program, rest) ← programTable.scan true {} args
  match rest with
  | "run" :: rest =>
      let (given, _) ← runTable.scan false {} rest
      match given.places with
      | [pack, target] =>
          return {
            config := (given.value? "config").or (program.value? "config")
            command := .run pack target (given.value? "args") (given.value? "as")
              (given.flags.contains "trace") }
      | _ => throw .usage
  | "check" :: rest =>
      let (given, _) ← checkTable.scan false {} rest
      match given.places with
      | [pack] =>
          return ⟨(given.value? "config").or (program.value? "config"), .check pack⟩
      | _ => throw .usage
  | "help" :: rest => throw (topicOf rest)
  | _ => throw .usage

end Invocation

namespace HelpTopic

def lines : HelpTopic → List String
  | .program => [
      "cmdchain - run command-chain function packs",
      "",
      "Usage: cmdchain [OPTIONS] <COMMAND>",
      "",
      "Commands:",
      "  run    Run a function or function tag from a pack",
      "  check  Load a pack and instantiate every function that takes no arguments",
      "  help   Print this message or the help of the given subcommand(s)",
      "",
      "Options:",
      "      --config <CONFIG>  Path to config file (overrides default search)",
      "  -h, --help             Print help"]
  | .run => [
      "Run a function or function tag from a pack",
      "",
      "Usage: cmdchain run [OPTIONS] <PACK> <FUNCTION>",
      "",
      "Arguments:",
      "  <PACK>      Pack file (.json or .toml)",
      "  <FUNCTION>  Function id (\x60ns:path\x60) or tag (\x60#ns:tag\x60)",
      "",
      "Options:",
      "      --args <ARGS>      Macro arguments (JSON object)",
      "      --config <CONFIG>  Path to config file (overrides default search)",
      "      --as <AS_ENTITY>   Run as this entity instead of the server",
      "      --trace            Print an execution trace to stdout",
      "  -h, --help             Print help"]
  | .check => [
      "Load a pack and instantiate every function that takes no arguments",
      "",
      "Usage: cmdchain check [OPTIONS] <PACK>",
      "",
      "Arguments:",
      "  <PACK>  Pack file (.json or .toml)",
      "",
      "Options:",
      "      --config <CONFIG>  Path to config file (overrides default search)",
      "  -h, --help             Print help"]
  | .help => [
      "Print this message or the help of the given subcommand(s)",
      "",
      "Usage: cmdchain help [COMMAND]...",
      "",
      "Arguments:",
      "  [COMMAND]...  Print help for the subcommand(s)"]

end HelpTopic

end PackEngine
