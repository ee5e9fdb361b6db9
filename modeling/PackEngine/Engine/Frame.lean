import PackEngine.Engine.Callback

/-! Call frames. A frame's boundary says which waiting work its return drops: that of its seed,
at the boundary's depth or deeper. -/
namespace PackEngine

structure Boundary where
  seed : Nat
  depth : Nat
deriving DecidableEq, Repr, Inhabited

namespace Boundary

def forDepth (depth : Nat) : Boundary := ⟨0, depth⟩

def forSeed (seed : Nat) : Boundary := ⟨seed, 0⟩

def nested (b : Boundary) (depth : Nat) : Boundary := ⟨b.seed, depth⟩

end Boundary

/-- One activation of a command line or of a function body. The slot holds the latest result
reported in the frame, which the frame returns when its body runs off the end. -/
structure Frame (V : Vocabulary) where
  depth : Nat
  sink : Callback V
  boundary : Boundary
  slot : SlotId

/-- A return under the boundary drops work queued in the frame. -/
def Boundary.covers (b : Boundary) (frame : Frame V) : Bool :=
  frame.boundary.seed == b.seed && b.depth ≤ frame.depth

namespace Frame

variable {V : Vocabulary}

def root (seed : Nat) (sink : Callback V) (slot : SlotId) : Frame V :=
  ⟨0, sink, Boundary.forSeed seed, slot⟩

/-- A callee's frame; without a boundary given it ends where it begins. -/
def child (frame : Frame V) (sink : Callback V) (boundary : Option Boundary) (slot : SlotId) :
    Frame V :=
  let depth := frame.depth + 1
  ⟨depth, sink, boundary.getD (frame.boundary.nested depth), slot⟩

def recorder (frame : Frame V) : Callback V := [.slot frame.slot]

end Frame

end PackEngine
