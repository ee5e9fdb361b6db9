import PackEngine.Pack.Commands

/-! Checking a pack without running it: every function that takes no arguments is bound. -/
namespace PackEngine

structure CheckReport where
  /-- Functions that could be bound. -/
  checked : Nat := 0
  /-- Functions with parameters, which are passed over. -/
  skipped : Nat := 0
  failures : List (FunctionId × InstantiationError) := []
deriving DecidableEq, Repr

namespace CheckReport

def ofFunction (id : FunctionId) (d : FunctionDef) : CheckReport :=
  if d.hasParams then { skipped := 1 }
  else
    match d.instantiate none with
    | .ok _ => { checked := 1 }
    | .error error => { failures := [(id, error)] }

def append (a b : CheckReport) : CheckReport :=
  ⟨a.checked + b.checked, a.skipped + b.skipped, a.failures ++ b.failures⟩

end CheckReport

def Pack.check (pack : Pack) : CheckReport :=
  pack.functions.foldr (fun (id, d) report => (CheckReport.ofFunction id d).append report) {}

end PackEngine
