import PackEngine.Config.DotEnv
import PackEngine.Engine.Task
import PackEngine.Files
import PackEngine.Toml.Reader

/-! The configuration of a run: standard values, over them a file, over that the environment. -/
namespace PackEngine

structure Config where
  limits : Limits := {}
  logFilter : String := "cmdchain_core=info"
  traceDir : String := "debug"
deriving DecidableEq, Repr

inductive ConfigError where
  /-- A file that was asked for is missing or malformed. -/
  | file (path : String)
  /-- The file that is looked for on its own is malformed. -/
  | standardFile
  /-- A setting has the wrong type. -/
  | invalid
deriving DecidableEq, Repr

def ConfigError.message : ConfigError → String
  | .file path => "Failed to read config file " ++ path
  | .standardFile => "Failed to read configuration"
  | .invalid => "Invalid configuration"

/-- What brings each error about. -/
def ConfigError.cause : ConfigError → String
  | .file _ => "the file is missing or malformed"
  | .standardFile => "the file is malformed"
  | .invalid => "a setting has the wrong type"

namespace Config

/-- Settings that are not asked for are passed over. -/
def ofSettings? (root : Setting) : Option Config := do
  let standard : Config := {}
  let engine := (root.field? "engine" 0).getD (.table [])
  let logging := (root.field? "logging" 1).getD (.table [])
  if !engine.isRecord || !logging.isRecord then none
  let commands ←
    engine.fieldOr "max_command_chain_length" 0 Setting.toCount? standard.limits.commands
  let forks ← engine.fieldOr "max_command_fork_count" 1 Setting.toCount? standard.limits.forks
  let queue ← engine.fieldOr "max_queue_depth" 2 Setting.toCount? standard.limits.queue
  let logFilter ← logging.fieldOr "filter" 0 Setting.toText? standard.logFilter
  let traceDir ← root.fieldOr "trace_dir" 2 Setting.toText? standard.traceDir
  return { limits := { commands, forks, queue }, logFilter, traceDir }

def pathVariable : String := "CMDCHAIN_CONFIG_PATH"

def standardPath : String := "cmdchain"

def variablesPath : String := ".env"

def ofText? (text : String) : Option (List (String × Setting)) :=
  match (Toml.parse? text).bind Setting.ofToml? with
  | some (.table entries) => some entries
  | _ => none

/-- The path with the extension that may be left out, if it names anything. -/
def withExtension? (path : String) : Option String :=
  let path := FilePath.trimEnd path
  if path.isEmpty || (FilePath.parts path).getLast? = some ".." then none
  else some (path ++ ".toml")

variable {m : Type → Type} [Monad m]

/-- Looks for a file under its path, then with its extension. -/
def find (read : FileReader m) (path : String) : m (Option ByteArray) := do
  match regular? (← read path) with
  | some bytes => return some bytes
  | none =>
      match withExtension? path with
      | none => return none
      | some path => return regular? (← read path)

/-- The settings of the file that was asked for, or else of the one that is looked for on its own.
The latter may be missing, and counts as missing if its bytes are no text. -/
def fileSettings (read : FileReader m) (path : Option String) :
    m (Except ConfigError (List (String × Setting))) := do
  let found ← find read (path.getD standardPath)
  let fault : ConfigError := path.elim .standardFile .file
  match found.bind String.fromUTF8?, path with
  | some text, _ => return (ofText? text).elim (.error fault) .ok
  | none, some _ => return .error fault
  | none, none => return .ok []

/-- The variables of the process, and those of the file of variables that it does not set. -/
def environment (read : FileReader m) (env : Variables) : m Variables := do
  match regular? (← read variablesPath) with
  | some bytes => return DotEnv.load bytes env
  | none => return env

def ofLayers (layers : List (List (String × Setting))) : Except ConfigError Config :=
  let root := layers.flatten.foldl (fun root (key, value) => Setting.set root key value) (.table [])
  (ofSettings? root).elim (.error .invalid) .ok

/-- Reads the configuration. Without variables the environment is not consulted, nor is the file of
variables. -/
def load (read : FileReader m) (path : Option String) (env : Option Variables) :
    m (Except ConfigError Config) := do
  match env with
  | none =>
      let file ← fileSettings read path
      return file.bind fun file => ofLayers [file]
  | some env =>
      let env ← environment read env
      let file ← fileSettings read (path.or (env.get? pathVariable))
      return file.bind fun file => ofLayers [file, env.settings]

end Config

end PackEngine
