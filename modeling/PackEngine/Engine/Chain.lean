import PackEngine.Engine.Callback

/-! Staged command lines. A chain has any number of modifier stages and ends in what it
executes; advancing drops the first stage. -/
namespace PackEngine

/-- Flags of a stage. While a line runs, those of the visited stages are united. -/
structure Flags where
  forked : Bool := false
  isReturn : Bool := false
deriving DecidableEq, Repr, Inhabited

namespace Flags

def none : Flags := {}

def union (a b : Flags) : Flags := ⟨a.forked || b.forked, a.isReturn || b.isReturn⟩

end Flags

inductive ModifierAction (V : Vocabulary) where
  /-- Keeps every source; carries flags only. -/
  | keep
  | redirect (redirect : V.Redirect)
  | gate (gate : V.Gate)

structure Modifier (V : Vocabulary) where
  action : ModifierAction V
  flags : Flags

inductive Executable (V : Vocabulary) where
  | leaf (leaf : V.Leaf)
  | action (action : V.Action)

structure Chain (V : Vocabulary) where
  input : String
  modifiers : List (Modifier V)
  executable : Executable V

inductive Stage (V : Vocabulary) where
  | modifier (modifier : Modifier V)
  | executable (executable : Executable V)

namespace Stage

variable {V : Vocabulary}

/-- The name of the kind of a stage's action. -/
def kind : Stage V → String
  | .modifier ⟨.keep, _⟩ => "Redirect"
  | .modifier ⟨.redirect _, _⟩ => "Redirect"
  | .modifier ⟨.gate _, _⟩ => "CustomModify"
  | .executable (.leaf _) => "Execute"
  | .executable (.action _) => "CustomExecute"

/-- An executable stage has no flags of its own. -/
def flags : Stage V → Flags
  | .modifier m => m.flags
  | .executable _ => Flags.none

def isExecutable : Stage V → Bool
  | .modifier _ => false
  | .executable _ => true

end Stage

namespace Chain

variable {V : Vocabulary}

def top (chain : Chain V) : Stage V :=
  match chain.modifiers with
  | [] => .executable chain.executable
  | m :: _ => .modifier m

def next? (chain : Chain V) : Option (Chain V) :=
  match chain.modifiers with
  | [] => none
  | _ :: rest => some { chain with modifiers := rest }

/-- The current stage is the last. -/
def isExecutable (chain : Chain V) : Bool := chain.modifiers.isEmpty

def remaining (chain : Chain V) : Nat := chain.modifiers.length + 1

end Chain

/-- A stage that runs each source separately; a failing one stops the line. -/
def Modifier.redirect (r : V.Redirect) : Modifier V := ⟨.redirect r, Flags.none⟩

/-- Like a redirect, but a failing source does not stop the others. -/
def Modifier.fork (r : V.Redirect) : Modifier V := ⟨.redirect r, { forked := true }⟩

/-- Makes the rest of the line the return value of its frame. -/
def Modifier.returnRun : Modifier V := ⟨.keep, { isReturn := true }⟩

def Modifier.gated (g : V.Gate) : Modifier V := ⟨.gate g, Flags.none⟩

end PackEngine
