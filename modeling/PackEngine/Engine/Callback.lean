import PackEngine.Engine.FunctionId

/-! Where results go. A callback is the list of its receivers: composing callbacks appends the
lists, and the empty list is the callback nobody listens to. -/
namespace PackEngine

/-- What a command or a function produced. -/
structure Outcome where
  success : Bool
  value : Int32
deriving DecidableEq, Repr, Inhabited

namespace Outcome

def ok (value : Int32) : Outcome := ⟨true, value⟩

def failure : Outcome := ⟨false, 0⟩

end Outcome

/-- How a function condition reads a result. -/
inductive Polarity where
  | holds
  | fails
deriving DecidableEq, Repr

def Polarity.passes : Polarity → Int32 → Bool
  | .holds, value => value != 0
  | .fails, value => value == 0

/-- The types a host of the engine chooses for its own notions. -/
structure Vocabulary where
  /-- Who runs a command, without the callback. -/
  Persona : Type
  /-- Receivers of results that the engine does not know. -/
  Listener : Type
  /-- All that commands read and write outside the engine. -/
  Setting : Type
  /-- Handles of event sinks. -/
  Tracer : Type
  /-- Stages that map one source to any number of sources. -/
  Redirect : Type
  /-- Stages that take over the scheduling of the rest of their line. -/
  Gate : Type
  /-- Commands that produce a value. -/
  Leaf : Type
  /-- Commands that schedule work. -/
  Action : Type

abbrev SlotId := Nat
abbrev TallyId := Nat
abbrev CellId := Nat

inductive Receiver (V : Vocabulary) where
  /-- Overwrites a frame's result slot. -/
  | slot (id : SlotId)
  /-- Adds to a tally. -/
  | tally (id : TallyId)
  /-- Puts a source aside when the result passes. -/
  | collect (cell : CellId) (polarity : Polarity) (persona : V.Persona)
      (callback : List (Receiver V))
  /-- Tells a source what a function returned. -/
  | announce (persona : V.Persona) (function : FunctionId)
  | host (listener : V.Listener)

abbrev Callback (V : Vocabulary) := List (Receiver V)

namespace Callback

variable {V : Vocabulary}

def empty : Callback V := []

/-- `first` sees every result before `second`. -/
def chain (first second : Callback V) : Callback V := first ++ second

def andThen (callback next : Callback V) : Callback V := callback.chain next

end Callback

structure Source (V : Vocabulary) where
  persona : V.Persona
  callback : Callback V

namespace Source

variable {V : Vocabulary}

def clearCallbacks (source : Source V) : Source V := { source with callback := Callback.empty }

def chainCallback (source : Source V) (callback : Callback V) : Source V :=
  { source with callback := source.callback.chain callback }

end Source

end PackEngine
