import PackEngine.Engine.Chain
import PackEngine.Engine.Error
import PackEngine.Engine.Frame

/-! Waiting work, and the procedures through which commands of a host act on a run. A procedure
is a tree of requests to the engine; it can do nothing else to the waiting work. -/
namespace PackEngine

/-- Bounds of one run. -/
structure Limits where
  /-- Leaf executions and function calls. -/
  commands : Nat := 65536
  /-- Sources one stage may produce. -/
  forks : Nat := 65536
  /-- Entries that may wait at one time. -/
  queue : Nat := 10000000
deriving DecidableEq, Repr, Inhabited

structure View (V : Vocabulary) where
  frame : Frame V
  recorded : Option Outcome
  traced : Bool
  limits : Limits

/-- Requests to the engine in the current frame, ending in a value or an error. -/
inductive Procedure (V : Vocabulary) (τ α : Type) where
  | done (value : α)
  | fail (error : CommandError)
  /-- Queues a task in the current frame. -/
  | queue (task : τ) (next : Procedure V τ α)
  /-- Gives the frame's sink a result and drops the frame's remaining work. -/
  | returnWith (outcome : Outcome) (next : Procedure V τ α)
  /-- Overwrites the frame's slot. -/
  | record (outcome : Outcome) (next : Procedure V τ α)
  | deliver (callback : Callback V) (outcome : Outcome) (next : Procedure V τ α)
  /-- Delivers a tally's total, if anything was reported to it. -/
  | deliverTally (tally : TallyId) (callback : Callback V) (next : Procedure V τ α)
  | report (source : Source V) (error : CommandError) (forked : Bool) (next : Procedure V τ α)
  /-- Attaches a tracer, unless there is one. -/
  | attach (tracer : V.Tracer) (next : Bool → Procedure V τ α)
  | detach (next : Option V.Tracer → Procedure V τ α)
  | look (next : View V → Procedure V τ α)
  | newTally (next : TallyId → Procedure V τ α)
  | newCell (next : CellId → Procedure V τ α)
  | collect (cell : CellId) (source : Source V) (next : Procedure V τ α)
  | update (change : V.Setting → V.Setting) (next : Procedure V τ α)
  | consult (next : V.Setting → Procedure V τ α)

namespace Procedure

variable {V : Vocabulary} {τ α β : Type}

def bind : Procedure V τ α → (α → Procedure V τ β) → Procedure V τ β
  | .done value, f => f value
  | .fail error, _ => .fail error
  | .queue task next, f => .queue task (next.bind f)
  | .returnWith outcome next, f => .returnWith outcome (next.bind f)
  | .record outcome next, f => .record outcome (next.bind f)
  | .deliver callback outcome next, f => .deliver callback outcome (next.bind f)
  | .deliverTally tally callback next, f => .deliverTally tally callback (next.bind f)
  | .report source error forked next, f => .report source error forked (next.bind f)
  | .attach tracer next, f => .attach tracer fun b => (next b).bind f
  | .detach next, f => .detach fun t => (next t).bind f
  | .look next, f => .look fun v => (next v).bind f
  | .newTally next, f => .newTally fun t => (next t).bind f
  | .newCell next, f => .newCell fun c => (next c).bind f
  | .collect cell source next, f => .collect cell source (next.bind f)
  | .update change next, f => .update change (next.bind f)
  | .consult next, f => .consult fun s => (next s).bind f

instance : Monad (Procedure V τ) where
  pure := .done
  bind := bind

/-- Goes on with `f` where the procedure fails. -/
def recover : Procedure V τ α → (CommandError → Procedure V τ α) → Procedure V τ α
  | .done value, _ => .done value
  | .fail error, f => f error
  | .queue task next, f => .queue task (next.recover f)
  | .returnWith outcome next, f => .returnWith outcome (next.recover f)
  | .record outcome next, f => .record outcome (next.recover f)
  | .deliver callback outcome next, f => .deliver callback outcome (next.recover f)
  | .deliverTally tally callback next, f => .deliverTally tally callback (next.recover f)
  | .report source error forked next, f => .report source error forked (next.recover f)
  | .attach tracer next, f => .attach tracer fun b => (next b).recover f
  | .detach next, f => .detach fun t => (next t).recover f
  | .look next, f => .look fun v => (next v).recover f
  | .newTally next, f => .newTally fun t => (next t).recover f
  | .newCell next, f => .newCell fun c => (next c).recover f
  | .collect cell source next, f => .collect cell source (next.recover f)
  | .update change next, f => .update change (next.recover f)
  | .consult next, f => .consult fun s => (next s).recover f

end Procedure

inductive Sources (V : Vocabulary) where
  | ready (sources : List (Source V))
  /-- Read from a cell when the task runs, which empties the cell. -/
  | collected (cell : CellId)

structure LeafLine (V : Vocabulary) where
  leaf : V.Leaf
  input : String
  flags : Flags

structure BoundFunction (V : Vocabulary) where
  id : FunctionId
  lines : List (Chain V)

inductive Task (V : Vocabulary) where
  /-- Walks the modifier stages of a line, then schedules what it executes. -/
  | line (issuer : Source V) (sources : Sources V) (chain : Chain V) (flags : Flags)
      (topLevel : Bool)
  /-- One leaf under one source. -/
  | execute (line : LeafLine V) (source : Source V)
  /-- Leaves put on the stack one at a time. -/
  | drip (line : LeafLine V) (sources : List (Source V))
  /-- Opens a callee's frame and queues its body. A return call shares the caller's boundary. -/
  | call (function : BoundFunction V) (callback : Callback V) (returnCall : Bool)
      (source : Source V)
  /-- Returns what the frame has recorded. -/
  | endFunction
  /-- Runs a procedure in a frame of its own. -/
  | isolated (producer : Procedure V (Task V) Unit) (output : Callback V)
  /-- Returns failure from the frame. -/
  | fallthrough
  | deferred (procedure : Procedure V (Task V) Unit)

/-- What commands of a host say to the engine. -/
abbrev Control (V : Vocabulary) := Procedure V (Task V)

namespace Control

variable {V : Vocabulary}

def fail (error : CommandError) : Control V α := Procedure.fail error
def queue (task : Task V) : Control V Unit := Procedure.queue task (.done ())
def returnWith (outcome : Outcome) : Control V Unit := Procedure.returnWith outcome (.done ())
def record (outcome : Outcome) : Control V Unit := Procedure.record outcome (.done ())
def deliver (callback : Callback V) (outcome : Outcome) : Control V Unit :=
  Procedure.deliver callback outcome (.done ())
def deliverTally (tally : TallyId) (callback : Callback V) : Control V Unit :=
  Procedure.deliverTally tally callback (.done ())
def report (source : Source V) (error : CommandError) (forked : Bool) : Control V Unit :=
  Procedure.report source error forked (.done ())
def attach (tracer : V.Tracer) : Control V Unit :=
  Procedure.attach tracer fun attached =>
    if attached then .done () else .fail (.usage .tracerAlreadyAttached)
def detach : Control V (Option V.Tracer) := Procedure.detach Procedure.done
def look : Control V (View V) := Procedure.look Procedure.done
def newTally : Control V TallyId := Procedure.newTally Procedure.done
def newCell : Control V CellId := Procedure.newCell Procedure.done
def collect (cell : CellId) (source : Source V) : Control V Unit :=
  Procedure.collect cell source (.done ())
def update (change : V.Setting → V.Setting) : Control V Unit := Procedure.update change (.done ())
def consult : Control V V.Setting := Procedure.consult Procedure.done

def ofExcept : Except CommandError α → Control V α
  | .ok value => Procedure.done value
  | .error error => Procedure.fail error

end Control

namespace Task

variable {V : Vocabulary}

/-- A command line under a single source. -/
def command (chain : Chain V) (source : Source V) : Task V :=
  .line source (.ready [source]) chain Flags.none true

def fork (issuer : Source V) (sources : List (Source V)) (chain : Chain V) (flags : Flags) :
    Task V :=
  .line issuer (.ready sources) chain flags false

/-- The rest of a line for sources that are still being collected. -/
def continuation (issuer : Source V) (cell : CellId) (chain : Chain V) (flags : Flags) :
    Task V :=
  .line issuer (.collected cell) chain flags false

def kind : Task V → String
  | .line .. => "Fork"
  | .execute .. => "Execute"
  | .drip .. => "Continuation"
  | .call .. => "CallFunction"
  | .endFunction => "EndFunction"
  | .isolated .. => "Isolated"
  | .fallthrough => "Fallthrough"
  | .deferred .. => "Deferred"

end Task

structure Entry (V : Vocabulary) where
  frame : Frame V
  task : Task V

def Entry.describe (entry : Entry V) : String :=
  "Entry \x7b depth: " ++ toString entry.frame.depth ++ ", task: \"" ++ entry.task.kind ++ "\" \x7d"

end PackEngine
