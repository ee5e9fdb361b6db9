import PackEngine.Cli.Program
import PackEngine.Clock
import PackEngine.Text.Utf8

/-! The program: hands files, variables and the time to `Program.run`, and its transcript to the
system. -/
namespace PackEngine.Main

def faultOf : IO.Error → FileFault
  | .noFileOrDirectory _ _ _ => .missing
  | .inappropriateType _ 20 _ => .notDirectory
  | .inappropriateType _ 21 _ => .isDirectory
  | error => .other (toString error)

/-- What stands under `dev` is taken for a device. -/
def read (path : String) : IO (Except FileFault FileContents) := do
  try
    return .ok ⟨← IO.FS.readBinFile path, !path.startsWith "/dev/"⟩
  catch error => return .error (faultOf error)

/-- The text of a file of the system; nothing if it cannot be read. -/
def readSystem (path : String) : IO String := do
  return ((← read path).toOption.map fun file => Utf8.decode file.bytes).getD ""

def environment : IO Variables := do
  return (Variables.ofBlock (← readSystem "/proc/self/environ"))

def now : IO String := do
  return Clock.stamp (Clock.secondsOf (← readSystem "/proc/stat") (← readSystem "/proc/uptime"))

def write (file : TraceFile) : IO Unit := do
  let folder := if file.directory.isEmpty then "." else file.directory
  IO.FS.createDirAll folder
  IO.FS.writeBinFile (folder ++ "/" ++ file.name) file.text

/-- Turns granted to a run. -/
def turns : Nat := Nat.pow 10 15

end PackEngine.Main

open PackEngine in
def main (args : List String) : IO UInt32 := do
  match ← Program.run Main.read (← Main.environment) (← Main.now) Main.turns args with
  | none => return 3
  | some transcript =>
      transcript.traces.forM Main.write
      (← IO.getStdout).putStr transcript.out
      (← IO.getStderr).putStr transcript.err
      return transcript.code.toUInt32
