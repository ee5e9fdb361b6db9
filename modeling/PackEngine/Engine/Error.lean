import PackEngine.Engine.FunctionId

/-! What can go wrong. A command error belongs to one branch of a command line and goes to the
source that raised it; an engine error stops a whole run. -/
namespace PackEngine

inductive Phase where
  | idle
  | running
  | complete
  | failed
deriving DecidableEq, Repr

def Phase.name : Phase → String
  | .idle => "Idle"
  | .running => "Running"
  | .complete => "Complete"
  | .failed => "Failed"

/-- Misuse of the tracing facility from inside a command. -/
inductive UsageError where
  | tracerAlreadyAttached
  | returnRunTrace
deriving DecidableEq, Repr

def UsageError.message : UsageError → String
  | .tracerAlreadyAttached => "A tracer is already attached to this execution"
  | .returnRunTrace => "Tracing cannot be used as the target of 'return run'"

inductive InstantiationError where
  | notCompound (found : String)
  | missingArguments (names : List String)
  | invalidLine (line : Nat) (message : String)
deriving DecidableEq, Repr

def InstantiationError.message : InstantiationError → String
  | .notCompound found => "Expected compound arguments, found " ++ found
  | .missingArguments names => "Missing arguments: " ++ String.intercalate ", " names
  | .invalidLine line message => "Line " ++ toString line ++ ": " ++ message

inductive CommandError where
  /-- A failure of the command's own. -/
  | failed (message : String)
  | unknownFunction (id : FunctionId)
  | unknownTag (id : FunctionId)
  | noFunctions (target : String)
  | invalidFunctionId (fault : FunctionId.Fault)
  /-- Nothing of the call has been scheduled. -/
  | instantiation (function : FunctionId) (reason : InstantiationError)
  | forkLimitReached (limit : Nat)
  | usage (error : UsageError)
deriving DecidableEq, Repr

def FunctionId.Fault.message : FunctionId.Fault → String
  | .nspace id => "Invalid function id '" ++ id ++ "': namespace must match [a-z0-9_.-]+"
  | .path id => "Invalid function id '" ++ id ++ "': path must match [a-z0-9_.-/]+"

def CommandError.message : CommandError → String
  | .failed message => message
  | .unknownFunction id => "Unknown function " ++ id.render
  | .unknownTag id => "Unknown function tag #" ++ id.render
  | .noFunctions target => "No functions matched " ++ target
  | .invalidFunctionId fault => fault.message
  | .instantiation function reason =>
      "Failed to instantiate function " ++ function.render ++ ": " ++ reason.message
  | .forkLimitReached limit => "Fork limit reached: more than " ++ toString limit ++ " contexts"
  | .usage error => error.message

inductive EngineError where
  | commandLimitReached (executed : Nat)
  | queueOverflow (limit : Nat)
  | notIdle (phase : Phase)
deriving DecidableEq, Repr

def EngineError.message : EngineError → String
  | .commandLimitReached executed =>
      "Command limit reached after " ++ toString executed ++ " commands"
  | .queueOverflow limit => "Continuation queue exceeded " ++ toString limit ++ " entries"
  | .notIdle phase => "Execution context is " ++ phase.name ++ ", expected Idle"

end PackEngine
