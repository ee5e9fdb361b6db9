import PackEngine.Pack.Commands

/-! Running functions of a pack from outside. -/
namespace PackEngine

inductive RunError where
  | command (error : CommandError)
  | engine (error : EngineError)
deriving DecidableEq, Repr

def RunError.message : RunError → String
  | .command error => error.message
  | .engine error => error.message

structure RunReport where
  /-- In the order of completion; functions without a result are absent. -/
  results : List (FunctionId × Outcome)
  executed : Nat

structure RunRequest where
  target : String
  source : PackSource := PackSource.server
  arguments : Option Json := none
  limits : Limits := {}
  /-- The run is traced from the start. -/
  traced : Bool := false

def World.effectsSince (w : World) (count : Nat) : List Effect := (w.journal.toList).drop count

def seedAll (source : PackSource) (functions : List (BoundFunction packWords))
    (m : Machine packWords) : Machine packWords :=
  functions.foldl (fun m function =>
    m.seedCall function source [.host (.finished function.id)]) m

/-- Runs the functions that a target names, one after the other. Nothing happens to the world if
one of them cannot be found or bound; `none` if the turns are not enough. -/
def runTarget (pack : Pack) (turns : Nat) (request : RunRequest) (w : World) :
    Option (Except RunError RunReport × World) :=
  let bound := do
    let functions ← pack.library.resolve request.target
    FunctionRef.instantiateAll request.arguments functions
  match bound with
  | .error error => some (.error (.command error), w)
  | .ok functions =>
      let start := w.journal.size
      let m := Machine.start request.limits ⟨{}, w⟩
      let m := if request.traced then { m with tracer := some .given } else m
      ((seedAll request.source functions m).run (packRules pack) turns).map fun (verdict, m) =>
        match verdict with
        | .ok () => (.ok ⟨Journal.results (m.setting.effectsSince start), m.executed⟩, m.setting)
        | .error error => (.error (.engine error), m.setting)

end PackEngine
