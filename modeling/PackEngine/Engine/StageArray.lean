import PackEngine.Engine.Chain
import PackEngine.Engine.Error

/-! Lines as arrays of stages. A builder puts stages of any kind one behind the other, and a cursor
stands at one of them. The array by itself does not say where a line ends. -/
namespace PackEngine

variable {V : Vocabulary}

inductive StageAction (V : Vocabulary) where
  | redirect (produce : Source V → V.Setting → Except CommandError (List (Source V)))
  | gate (gate : V.Gate)
  | leaf (leaf : V.Leaf)
  | action (action : V.Action)

def StageAction.isExecutable : StageAction V → Bool
  | .redirect _ => false
  | .gate _ => false
  | .leaf _ => true
  | .action _ => true

structure PlacedStage (V : Vocabulary) where
  action : StageAction V
  flags : Flags

structure StageCursor (V : Vocabulary) where
  input : String
  stages : Array (PlacedStage V)
  index : Nat

namespace StageCursor

/-- Absent where the cursor is out of bounds. -/
def top? (here : StageCursor V) : Option (PlacedStage V) := here.stages[here.index]?

def next? (here : StageCursor V) : Option (StageCursor V) :=
  if here.index + 1 < here.stages.size then some { here with index := here.index + 1 } else none

def isExecutable (here : StageCursor V) : Bool := here.index + 1 == here.stages.size

def remaining (here : StageCursor V) : Nat := here.stages.size - here.index

theorem next?_eq_some_iff {here next : StageCursor V} : here.next? = some next ↔
    here.index + 1 < here.stages.size ∧ next = { here with index := here.index + 1 } := by
  unfold next?
  split
  · next within => simp [within, eq_comm]
  · next within => simp [within]

theorem remaining_next {here next : StageCursor V} (h : here.next? = some next) :
    next.remaining < here.remaining := by
  obtain ⟨within, rfl⟩ := next?_eq_some_iff.mp h
  unfold remaining
  dsimp only
  omega

end StageCursor

structure LineBuilder (V : Vocabulary) where
  input : String
  stages : Array (PlacedStage V) := #[]

namespace LineBuilder

def modifier (builder : LineBuilder V) (action : StageAction V) (flags : Flags) : LineBuilder V :=
  { builder with stages := builder.stages.push ⟨action, flags⟩ }

def finish (builder : LineBuilder V) (action : StageAction V) : StageCursor V where
  input := builder.input
  stages := builder.stages.push ⟨action, Flags.none⟩
  index := 0

def redirect (builder : LineBuilder V)
    (produce : Source V → V.Setting → Except CommandError (List (Source V))) : LineBuilder V :=
  builder.modifier (.redirect produce) Flags.none

def fork (builder : LineBuilder V)
    (produce : Source V → V.Setting → Except CommandError (List (Source V))) : LineBuilder V :=
  builder.modifier (.redirect produce) { Flags.none with forked := true }

def customModifier (builder : LineBuilder V) (gate : V.Gate) : LineBuilder V :=
  builder.modifier (.gate gate) Flags.none

def returnRun (builder : LineBuilder V) : LineBuilder V :=
  builder.modifier (.redirect fun source _ => .ok [source]) { Flags.none with isReturn := true }

def executes (builder : LineBuilder V) (leaf : V.Leaf) : StageCursor V :=
  builder.finish (.leaf leaf)

def custom (builder : LineBuilder V) (action : V.Action) : StageCursor V :=
  builder.finish (.action action)

end LineBuilder

end PackEngine
