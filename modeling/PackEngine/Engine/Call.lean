import PackEngine.Engine.Scene
import PackEngine.Json.Value

/-! Finding functions by name, binding their arguments, and calling them. Where the results of a
call go depends on the call site: a return call hands them to the caller's own sink, a single
function to the caller's callback, and several functions with a consumer are summed first. -/
namespace PackEngine

variable {V : Vocabulary}

structure FunctionRef (V : Vocabulary) where
  id : FunctionId
  bind : Option Json → Except InstantiationError (List (Chain V))

/-- Arguments, when given, must be an object. -/
def checkCompound : Option Json → Except InstantiationError (Option (List (String × Json)))
  | none => .ok none
  | some (.obj members) => .ok (some members)
  | some other => .error (.notCompound other.kind)

namespace FunctionRef

def plain (id : FunctionId) (lines : List (Chain V)) : FunctionRef V where
  id := id
  bind arguments := (checkCompound arguments).map fun _ => lines

def instantiate (function : FunctionRef V) (arguments : Option Json) :
    Except CommandError (BoundFunction V) :=
  match function.bind arguments with
  | .ok lines => .ok ⟨function.id, lines⟩
  | .error reason => .error (.instantiation function.id reason)

/-- Binds every function, or fails with the first that refuses. -/
def instantiateAll (arguments : Option Json) :
    List (FunctionRef V) → Except CommandError (List (BoundFunction V))
  | [] => .ok []
  | function :: rest =>
      match function.instantiate arguments with
      | .error error => .error error
      | .ok bound =>
          match instantiateAll arguments rest with
          | .error error => .error error
          | .ok others => .ok (bound :: others)

end FunctionRef

structure Library (V : Vocabulary) where
  function? : FunctionId → Option (FunctionRef V)
  tag? : FunctionId → Option (List (FunctionRef V))

def parseId (text : String) : Except CommandError FunctionId :=
  (FunctionId.parse text).mapError .invalidFunctionId

/-- The functions named by `ns:path`, or by `#ns:path` for a tag. -/
def Library.resolve (library : Library V) (target : String) :
    Except CommandError (List (FunctionRef V)) :=
  match target.toList with
  | '#' :: tag => do
      let id ← parseId (String.ofList tag)
      match library.tag? id with
      | none => throw (.unknownTag id)
      | some [] => throw (.noFunctions target)
      | some functions => return functions
  | _ => do
      let id ← parseId target
      match library.function? id with
      | none => throw (.unknownFunction id)
      | some function => return [function]

def Control.queueAll : List (Task V) → Control V Unit
  | [] => return
  | task :: rest => Procedure.queue task (queueAll rest)

/-- Sources that are not silent are told what each function returned. -/
def announced (isSilent : V.Persona → Bool) (issuer : Source V) (function : FunctionId)
    (callback : Callback V) : Callback V :=
  if isSilent issuer.persona then callback
  else Callback.chain [.announce issuer.persona function] callback

/-- Schedules calls from the current frame. The callback of `issuer` is the consumer; the
functions run under `source` without its callback. All functions are bound before anything is
queued. -/
def queueFunctions (isSilent : V.Persona → Bool) (functions : List (FunctionRef V))
    (arguments : Option Json) (issuer source : Source V) (flags : Flags) : Control V Unit := do
  let bound ← Control.ofExcept (FunctionRef.instantiateAll arguments functions)
  let view ← Control.look
  let consumer := issuer.callback
  let calls (callback : Callback V) (returnCall : Bool) : List (Task V) :=
    bound.map fun function =>
      .call function (announced isSilent issuer function.id callback) returnCall
        source.clearCallbacks
  if flags.isReturn then
    -- Functions that never return make the caller fail.
    Control.queueAll (calls (consumer.chain view.frame.sink) true ++ [.fallthrough])
  else
    let sink := consumer.chain view.frame.recorder
    if bound.length == 1 || consumer.isEmpty then Control.queueAll (calls sink false)
    else
      let tally ← Control.newTally
      Control.queueAll (calls [.tally tally] false ++ [.deferred (Control.deliverTally tally sink)])

/-- Decides by function calls which sources go on with the line. Each source gets an isolated
frame that return-calls every function; the sources whose result passes are collected, and the
rest of the line resumes with them once all calls have settled. -/
def scheduleConditions (adapt : Source V → Source V) (polarity : Polarity)
    (functions : List (FunctionRef V)) (issuer : Source V) (sources : List (Source V))
    (chain : Chain V) (flags : Flags) : Control V Unit := do
  let bound ← Control.ofExcept (FunctionRef.instantiateAll none functions)
  let cell ← Control.newCell
  let condition (source : Source V) : Task V :=
    let callee := adapt source.clearCallbacks
    let producer : Control V Unit := do
      let view ← Control.look
      Control.queueAll
        (bound.map (fun function => .call function view.frame.sink true callee) ++ [.fallthrough])
    .isolated producer [.collect cell polarity source.persona source.callback]
  Control.queueAll (sources.map condition)
  match chain.next? with
  | some next => Control.queue (.continuation issuer cell next flags)
  | none => return

end PackEngine
