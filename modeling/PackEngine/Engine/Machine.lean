import PackEngine.Engine.Scene
import PackEngine.Engine.Stack

/-! The state of a run and the few operations that change its waiting work. What a task queues
is staged first and put on top of the stack, in order, once the task is done. -/
namespace PackEngine

structure Machine (V : Vocabulary) extends Scene V where
  limits : Limits
  /-- Commands that may still be charged. -/
  quota : Nat
  stack : Stack (Entry V)
  /-- Entries queued by the running task, the newest on top. -/
  pending : Stack (Entry V)
  tracer : Option V.Tracer
  /-- Depth of the frame whose task ran last. -/
  depth : Nat
  nextSeed : Nat
  overflowed : Bool
  phase : Phase

namespace Machine

variable {V : Vocabulary}

def start (limits : Limits) (scene : Scene V) : Machine V where
  toScene := scene
  limits := limits
  quota := limits.commands
  stack := Stack.empty
  pending := Stack.empty
  tracer := none
  depth := 0
  nextSeed := 0
  overflowed := false
  phase := .idle

def executed (m : Machine V) : Nat := m.limits.commands - m.quota

def queued (m : Machine V) : Nat := m.stack.size + m.pending.size

def charge (m : Machine V) : Machine V := { m with quota := m.quota - 1 }

/-- Stages an entry. The first one that finds no room marks the run as overflowed. -/
def enqueue (entry : Entry V) (m : Machine V) : Machine V :=
  if m.overflowed then m
  else if m.limits.queue ≤ m.queued then { m with overflowed := true }
  else { m with pending := m.pending.push entry }

/-- The first entry staged ends up on top. -/
def pushPending (m : Machine V) : Machine V :=
  { m with stack := m.pending.reverse.above m.stack, pending := Stack.empty }

/-- Drops the waiting work that a return under the boundary covers. -/
def discard (boundary : Boundary) (m : Machine V) : Machine V :=
  { m with
    pending := m.pending.filter fun entry => !boundary.covers entry.frame
    stack := m.stack.discard fun entry => boundary.covers entry.frame }

def deliver (rules : Rules V) (callback : Callback V) (outcome : Outcome) (m : Machine V) :
    Machine V :=
  { m with toScene := callback.deliver rules outcome m.toScene }

def record (frame : Frame V) (outcome : Outcome) (m : Machine V) : Machine V :=
  { m with heap := m.heap.record frame.slot outcome }

def returnFrom (rules : Rules V) (frame : Frame V) (outcome : Outcome) (m : Machine V) :
    Machine V :=
  (m.deliver rules frame.sink outcome).discard frame.boundary

def trace (rules : Rules V) (event : TraceEvent) (m : Machine V) : Machine V :=
  match m.tracer with
  | none => m
  | some tracer => { m with setting := rules.observe tracer event m.setting }

def report (rules : Rules V) (source : Source V) (error : CommandError) (forked : Bool)
    (m : Machine V) : Machine V :=
  let m := m.trace rules (.error error.message)
  { m with setting := rules.handleError source.persona error forked m.setting }

def attach (tracer : V.Tracer) (m : Machine V) : Except UsageError (Machine V) :=
  if m.tracer.isSome then .error .tracerAlreadyAttached
  else .ok { m with tracer := some tracer }

def newSlot (m : Machine V) : SlotId × Machine V :=
  let (slot, heap) := m.heap.newSlot
  (slot, { m with heap })

/-- Queues a task in a fresh frame at depth zero, whose return cannot reach other seeds. -/
def seed (task : Task V) (sink : Callback V) (m : Machine V) : Machine V :=
  let (slot, m) := m.newSlot
  let frame := Frame.root m.nextSeed sink slot
  { m with nextSeed := m.nextSeed + 1 }.enqueue ⟨frame, task⟩

/-- An explicit return of the line delivers to the sink. -/
def seedCommand (chain : Chain V) (source : Source V) (sink : Callback V) (m : Machine V) :
    Machine V :=
  m.seed (Task.command chain source) sink

def seedCall (function : BoundFunction V) (source : Source V) (callback : Callback V)
    (m : Machine V) : Machine V :=
  m.seed (.call function callback false source) Callback.empty

def seedTask (task : Task V) (m : Machine V) : Machine V := m.seed task Callback.empty

/-! Staging an entry changes what is staged, and tracing an event the setting. -/
section

variable (rules : Rules V) (event : TraceEvent) (entry : Entry V) (m : Machine V)

theorem enqueue_eq : ∃ pending overflowed,
    m.enqueue entry = { m with pending := pending, overflowed := overflowed } := by
  unfold enqueue
  split
  · exact ⟨_, _, rfl⟩
  · split <;> exact ⟨_, _, rfl⟩

@[simp] theorem enqueue_toScene : (m.enqueue entry).toScene = m.toScene := by
  obtain ⟨_, _, same⟩ := enqueue_eq entry m
  rw [same]

@[simp] theorem enqueue_limits : (m.enqueue entry).limits = m.limits := by
  obtain ⟨_, _, same⟩ := enqueue_eq entry m
  rw [same]

@[simp] theorem enqueue_quota : (m.enqueue entry).quota = m.quota := by
  obtain ⟨_, _, same⟩ := enqueue_eq entry m
  rw [same]

@[simp] theorem enqueue_tracer : (m.enqueue entry).tracer = m.tracer := by
  obtain ⟨_, _, same⟩ := enqueue_eq entry m
  rw [same]

@[simp] theorem enqueue_nextSeed : (m.enqueue entry).nextSeed = m.nextSeed := by
  obtain ⟨_, _, same⟩ := enqueue_eq entry m
  rw [same]

@[simp] theorem enqueue_phase : (m.enqueue entry).phase = m.phase := by
  obtain ⟨_, _, same⟩ := enqueue_eq entry m
  rw [same]

theorem trace_eq : ∃ setting, m.trace rules event = { m with setting := setting } := by
  unfold trace
  split <;> exact ⟨_, rfl⟩

@[simp] theorem trace_heap : (m.trace rules event).heap = m.heap := by
  obtain ⟨_, same⟩ := trace_eq rules event m
  rw [same]

@[simp] theorem trace_limits : (m.trace rules event).limits = m.limits := by
  obtain ⟨_, same⟩ := trace_eq rules event m
  rw [same]

@[simp] theorem trace_quota : (m.trace rules event).quota = m.quota := by
  obtain ⟨_, same⟩ := trace_eq rules event m
  rw [same]

end

end Machine

/-- Runs a procedure in a frame. The machine keeps what was done before an error. -/
def Procedure.run (rules : Rules V) (frame : Frame V) :
    Procedure V (Task V) α → Machine V → Except CommandError α × Machine V
  | .done value, m => (.ok value, m)
  | .fail error, m => (.error error, m)
  | .queue task next, m => next.run rules frame (m.enqueue ⟨frame, task⟩)
  | .returnWith outcome next, m => next.run rules frame (m.returnFrom rules frame outcome)
  | .record outcome next, m => next.run rules frame (m.record frame outcome)
  | .deliver callback outcome next, m => next.run rules frame (m.deliver rules callback outcome)
  | .deliverTally tally callback next, m =>
      next.run rules frame { m with toScene := callback.deliverTally rules tally m.toScene }
  | .report source error forked next, m =>
      next.run rules frame (m.report rules source error forked)
  | .attach tracer next, m =>
      match m.attach tracer with
      | .error _ => (next false).run rules frame m
      | .ok m => (next true).run rules frame m
  | .detach next, m => (next m.tracer).run rules frame { m with tracer := none }
  | .look next, m =>
      (next ⟨frame, m.heap.recorded frame.slot, m.tracer.isSome, m.limits⟩).run rules frame m
  | .newTally next, m =>
      let (tally, heap) := m.heap.newTally
      (next tally).run rules frame { m with heap }
  | .newCell next, m =>
      let (cell, heap) := m.heap.newCell
      (next cell).run rules frame { m with heap }
  | .collect cell source next, m =>
      next.run rules frame { m with heap := m.heap.collect cell source }
  | .update change next, m => next.run rules frame { m with setting := change m.setting }
  | .consult next, m => (next m.setting).run rules frame m

end PackEngine
