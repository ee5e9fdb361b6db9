import PackEngine.Engine.Task
import PackEngine.Trace.Event

/-! The part of a run that results flow into: the heap of slots, tallies and cells, and the
host's setting. The rules say how a host interprets its vocabulary. -/
namespace PackEngine

structure Tally where
  reported : Bool := false
  success : Bool := false
  sum : Int32 := 0
deriving DecidableEq, Repr, Inhabited

namespace Tally

def add (t : Tally) (outcome : Outcome) : Tally :=
  ⟨true, t.success || outcome.success, t.sum + outcome.value⟩

def total? (t : Tally) : Option Outcome :=
  if t.reported then some ⟨t.success, t.sum⟩ else none

end Tally

structure Heap (V : Vocabulary) where
  slots : Array (Option Outcome) := #[]
  tallies : Array Tally := #[]
  cells : Array (Array (Source V)) := #[]

namespace Heap

variable {V : Vocabulary}

def newSlot (h : Heap V) : SlotId × Heap V :=
  (h.slots.size, { h with slots := h.slots.push none })

def record (h : Heap V) (slot : SlotId) (outcome : Outcome) : Heap V :=
  { h with slots := h.slots.setIfInBounds slot (some outcome) }

def recorded (h : Heap V) (slot : SlotId) : Option Outcome := (h.slots[slot]?).join

def newTally (h : Heap V) : TallyId × Heap V :=
  (h.tallies.size, { h with tallies := h.tallies.push {} })

def addToTally (h : Heap V) (tally : TallyId) (outcome : Outcome) : Heap V :=
  { h with tallies := h.tallies.modify tally (·.add outcome) }

def total? (h : Heap V) (tally : TallyId) : Option Outcome := (h.tallies[tally]?).bind Tally.total?

def newCell (h : Heap V) : CellId × Heap V :=
  (h.cells.size, { h with cells := h.cells.push #[] })

def collect (h : Heap V) (cell : CellId) (source : Source V) : Heap V :=
  { h with cells := h.cells.modify cell (·.push source) }

def collected (h : Heap V) (cell : CellId) : List (Source V) := (h.cells[cell]?.getD #[]).toList

def emptyCell (h : Heap V) (cell : CellId) : Heap V :=
  { h with cells := h.cells.setIfInBounds cell #[] }

end Heap

structure Scene (V : Vocabulary) where
  heap : Heap V
  setting : V.Setting

/-- How a host interprets its vocabulary. -/
structure Rules (V : Vocabulary) where
  isSilent : V.Persona → Bool
  hear : V.Listener → Outcome → V.Setting → V.Setting
  /-- A failure raised while the persona was executing. -/
  handleError : V.Persona → CommandError → Bool → V.Setting → V.Setting
  announce : V.Persona → FunctionId → Outcome → V.Setting → V.Setting
  observe : V.Tracer → TraceEvent → V.Setting → V.Setting
  redirect : V.Redirect → Source V → V.Setting → Except CommandError (List (Source V))
  leaf : V.Leaf → Source V → V.Setting → Except CommandError Int32 × V.Setting
  /-- The source that issued the line, all current sources, and the line at the gate's stage. -/
  gate : V.Gate → Source V → List (Source V) → Chain V → Flags → Control V Unit
  act : V.Action → Source V → Chain V → Flags → Control V Unit

variable {V : Vocabulary}

def Receiver.hear (rules : Rules V) (outcome : Outcome) (scene : Scene V) :
    Receiver V → Scene V
  | .slot id => { scene with heap := scene.heap.record id outcome }
  | .tally id => { scene with heap := scene.heap.addToTally id outcome }
  | .collect cell polarity persona callback =>
      if polarity.passes outcome.value then
        { scene with heap := scene.heap.collect cell ⟨persona, callback⟩ }
      else scene
  | .announce persona function =>
      { scene with setting := rules.announce persona function outcome scene.setting }
  | .host listener => { scene with setting := rules.hear listener outcome scene.setting }

def Callback.deliver (rules : Rules V) (callback : Callback V) (outcome : Outcome)
    (scene : Scene V) : Scene V :=
  callback.foldl (fun scene receiver => receiver.hear rules outcome scene) scene

/-- Delivers a tally's total, if there is one; the total is read before anyone hears it. -/
def Callback.deliverTally (rules : Rules V) (tally : TallyId) (callback : Callback V)
    (scene : Scene V) : Scene V :=
  match scene.heap.total? tally with
  | some outcome => callback.deliver rules outcome scene
  | none => scene

@[simp] theorem Callback.deliver_empty (rules : Rules V) (outcome : Outcome) (scene : Scene V) :
    Callback.deliver rules Callback.empty outcome scene = scene := rfl

@[simp] theorem Callback.deliver_chain (rules : Rules V) (first second : Callback V)
    (outcome : Outcome) (scene : Scene V) :
    (first.chain second).deliver rules outcome scene =
      second.deliver rules outcome (first.deliver rules outcome scene) := by
  simp [Callback.deliver, Callback.chain]

end PackEngine
