import PackEngine.Engine.Callback

/-! What a tracer is told about a run. -/
namespace PackEngine

inductive TraceEvent where
  /-- A command line begins. -/
  | command (depth : Nat) (text : String)
  /-- A leaf command is done; a failure returns 0. -/
  | returned (depth : Nat) (text : String) (value : Int32)
  /-- A function is about to run its lines. -/
  | call (depth : Nat) (function : FunctionId) (lines : Nat)
  | error (message : String)
deriving DecidableEq, Repr

end PackEngine
