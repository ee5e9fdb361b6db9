import PackEngine.Engine.Callback
import PackEngine.Trace.Printer

/-! What commands act on: a scoreboard, and the journal of everything that has happened, in
order. Console lines, reported errors, results and traces are read off the journal. -/
namespace PackEngine

/-- Scores by holder, then objective, in ascending order. -/
abbrev Scores := List ((String × String) × Int32)

namespace Scores

def compareKeys (a b : String × String) : Ordering := (compare a.1 b.1).then (compare a.2 b.2)

def find? (scores : Scores) (holder objective : String) : Option Int32 :=
  (List.find? (fun entry => entry.1 == (holder, objective)) scores).map (·.2)

def set (scores : Scores) (holder objective : String) (value : Int32) : Scores :=
  match scores with
  | [] => [((holder, objective), value)]
  | (key, old) :: rest =>
      match compareKeys (holder, objective) key with
      | .lt => ((holder, objective), value) :: (key, old) :: rest
      | .eq => ((holder, objective), value) :: rest
      | .gt => (key, old) :: set rest holder objective value

end Scores

/-- A trace is the one a run was started with, or one that a command opened. -/
inductive TracerId where
  | given
  | opened (index : Nat)
deriving DecidableEq, Repr

inductive Effect where
  | scored (holder objective : String) (value : Int32)
  | printed (sender text : String)
  | reported (sender message : String) (forked : Bool)
  /-- Feedback that goes to a sink of the source instead of the console. -/
  | sent (sink text : String)
  /-- A callback of the source has heard a result. -/
  | heard (callback : String) (outcome : Outcome)
  | traced (tracer : TracerId) (item : PrintItem)
  | traceOpened (index : Nat)
  /-- A function that the run was started with has returned. -/
  | finished (function : FunctionId) (outcome : Outcome)
deriving DecidableEq, Repr

structure World where
  scores : Scores := []
  journal : Array Effect := #[]
  /-- Trace files opened so far. -/
  traces : Nat := 0
  /-- Trace files can be created. -/
  tracesWritable : Bool := true
  /-- The time that names of trace files carry. -/
  stamp : String := ""

namespace World

/-- Notes an effect; a score takes effect at once. -/
def add (effect : Effect) (w : World) : World :=
  match effect with
  | .scored holder objective value =>
      { w with scores := w.scores.set holder objective value, journal := w.journal.push effect }
  | .traceOpened _ => { w with traces := w.traces + 1, journal := w.journal.push effect }
  | _ => { w with journal := w.journal.push effect }

def score (w : World) (holder objective : String) : Option Int32 :=
  w.scores.find? holder objective

def setScore (w : World) (holder objective : String) (value : Int32) : World :=
  w.add (.scored holder objective value)

/-- An unset score counts as zero; the sum wraps. -/
def addScore (w : World) (holder objective : String) (amount : Int32) : Int32 × World :=
  let value := (w.score holder objective).getD 0 + amount
  (value, w.setScore holder objective value)

def print (w : World) (sender text : String) : World := w.add (.printed sender text)

def traceFile (w : World) : String := "debug-trace-" ++ w.stamp ++ ".txt"

end World

/-! Views of a stretch of the journal. -/

namespace Journal

def console (effects : List Effect) : List (String × String) :=
  effects.filterMap fun
    | .printed sender text => some (sender, text)
    | _ => none

def errors (effects : List Effect) : List (String × String × Bool) :=
  effects.filterMap fun
    | .reported sender message forked => some (sender, message, forked)
    | _ => none

def results (effects : List Effect) : List (FunctionId × Outcome) :=
  effects.filterMap fun
    | .finished function outcome => some (function, outcome)
    | _ => none

def traceItems (tracer : TracerId) (effects : List Effect) : List PrintItem :=
  effects.filterMap fun
    | .traced id item => if id = tracer then some item else none
    | _ => none

def traceEvents (tracer : TracerId) (effects : List Effect) : List TraceEvent :=
  (traceItems tracer effects).filterMap fun
    | .event e => some e
    | _ => none

def traceText (tracer : TracerId) (effects : List Effect) : Printer :=
  (traceItems tracer effects).foldl Printer.item {}

end Journal

end PackEngine
