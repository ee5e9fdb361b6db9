import PackEngine.Cli.Invocation
import PackEngine.Config.Config
import PackEngine.Pack.Check
import PackEngine.Pack.Run

/-! The program as a whole: what an invocation prints and writes. -/
namespace PackEngine

structure TraceFile where
  directory : String
  name : String
  text : ByteArray

/-- Everything a run of the program leaves behind. -/
structure Transcript where
  code : Nat := 0
  out : String := ""
  err : String := ""
  traces : List TraceFile := []

inductive CliError where
  | config (error : ConfigError)
  | load (path : String) (error : PackError)
  | arguments (fault : DocumentFault)
  | run (target : String) (error : RunError)
  | check (failures : Nat)
deriving DecidableEq, Repr

namespace CliError

def message : CliError → String
  | .config error => error.message ++ ": " ++ error.cause
  | .load path error =>
      "Failed to load pack " ++ path ++ ": " ++ error.message ++
        -- The reason is told as a part of the message and as its cause.
        match error with
        | .io _ fault => ": " ++ fault.message
        | _ => ""
  | .arguments fault => "--args must be valid JSON: " ++ fault.message
  | .run target error => "Failed to run " ++ target ++ ": " ++ error.message
  | .check failures => toString failures ++ " function(s) failed to instantiate"

end CliError

namespace Transcript

def printLine (line : String) (t : Transcript) : Transcript :=
  { t with out := t.out ++ line ++ "\n" }

def printLines (lines : List String) (t : Transcript) : Transcript := lines.foldl (·.printLine ·) t

def complain (line : String) (t : Transcript) : Transcript :=
  { t with err := t.err ++ line ++ "\n" }

def fail (error : CliError) (t : Transcript) : Transcript :=
  { t with code := 1, err := t.err ++ "Error: " ++ error.message ++ "\n" }

end Transcript

namespace Program

def consoleLine (line : String × String) : String := "[" ++ line.1 ++ "] " ++ line.2

def resultLine (result : FunctionId × Outcome) : String :=
  "  " ++ result.1.render ++ " -> " ++ toString result.2.value.toInt ++
    if result.2.success then " (success)" else " (failure)"

def errorLine (error : String × String × Bool) : String :=
  "  [" ++ error.1 ++ "] " ++ error.2.1 ++ if error.2.2 then " (forked)" else ""

def scoreLine (score : (String × String) × Int32) : String :=
  "  " ++ score.1.1 ++ " " ++ score.1.2 ++ " = " ++ toString score.2.toInt

/-- A heading and its lines; nothing without lines. -/
def listing (heading : String) (lines : List String) : List String :=
  if lines.isEmpty then [] else ["", heading] ++ lines

def reportLines (report : RunReport) (w : World) : List String :=
  let results := report.results.map resultLine
  listing "Results:" (if results.isEmpty then ["  (none)"] else results) ++
    listing "Errors:" ((Journal.errors w.journal.toList).map errorLine) ++
    listing "Scores:" (w.scores.map scoreLine) ++
    ["", "Executed " ++ toString report.executed ++ " command(s)"]

def traceFiles (directory : String) (w : World) : List TraceFile :=
  (List.range w.traces).map fun index =>
    ⟨directory, w.traceFile, (Journal.traceText (.opened index) w.journal.toList).sink.written⟩

def printRun (config : Config) (target : String) (traced : Bool)
    (ended : Except RunError RunReport × World) : Transcript :=
  let (result, w) := ended
  let t : Transcript := { traces := traceFiles config.traceDir w }
  let t :=
    if traced then
      let text := (Journal.traceText .given w.journal.toList).flush.2.sink.written
      { t with out := (String.fromUTF8? text).getD "" ++ "\n" }
    else t
  let t := t.printLines ((Journal.console w.journal.toList).map consoleLine)
  match result with
  | .ok report => t.printLines (reportLines report w)
  | .error error => t.fail (.run target error)

def printCheck (report : CheckReport) : Transcript :=
  let t : Transcript := {}
  let t := t.printLine ("Checked " ++ toString report.checked ++ " function(s), skipped " ++
    toString report.skipped ++ " macro function(s)")
  if report.failures.isEmpty then t
  else
    (report.failures.foldl (fun t (id, error) =>
      t.complain ("  " ++ id.render ++ ": " ++ error.message)) t).fail
      (.check report.failures.length)

variable {m : Type → Type} [Monad m]

/-- Runs a command under a configuration; `none` if the turns are not enough. -/
def execute (read : FileReader m) (stamp : String) (turns : Nat) (config : Config) :
    CliCommand → m (Option Transcript)
  | .check path => do
      match Pack.ofFile path (← read path) with
      | .error error => return some (Transcript.fail (.load path error) {})
      | .ok pack => return some (printCheck pack.check)
  | .run path target arguments entity traced => do
      match Pack.ofFile path (← read path), arguments.mapM Json.parse with
      | .error error, _ => return some (Transcript.fail (.load path error) {})
      | .ok _, .error fault => return some (Transcript.fail (.arguments fault) {})
      | .ok pack, .ok arguments =>
          let persona := entity.elim Persona.server Persona.server.withEntity
          let request : RunRequest :=
            { target
              source := ⟨persona, Callback.empty⟩
              arguments
              limits := config.limits
              traced }
          let w : World := { stamp }
          let tracesWritable ← FilePath.canWrite read config.traceDir w.traceFile
          return (runTarget pack turns request { w with tracesWritable }).map (printRun config target traced)

def usage : List String := HelpTopic.lines .program

/-- Answers a list of arguments. A configuration file given among them counts as the variable that
names one. -/
def run (read : FileReader m) (env : Variables) (stamp : String) (turns : Nat)
    (args : List String) : m (Option Transcript) := do
  match Invocation.parse args with
  | .error .usage => return some { code := 2, err := (Transcript.printLines usage {}).out }
  | .error (.help topic) => return some (Transcript.printLines topic.lines {})
  | .ok invocation =>
      let env := invocation.config.elim env (env.put Config.pathVariable)
      match ← Config.load read none (some env) with
      | .error error => return some (Transcript.fail (.config error) {})
      | .ok config => execute read stamp turns config invocation.command

end Program

end PackEngine
