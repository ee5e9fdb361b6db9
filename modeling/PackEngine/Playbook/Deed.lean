import PackEngine.Engine.Callback
import PackEngine.Json.Value

/-! Command lines written out as data: what each stage produces, and lists of deeds to be done
through the engine. They drive the engine without any commands of its own. -/
namespace PackEngine.Playbook

structure SourceSpec where
  name : String
  callback : Option String := none
  loud : Bool := false

/-- The names of the copies a stage makes of a source, or the failure it raises. -/
structure Copies where
  failure : Option String := none
  names : List String := []

structure Reply where
  failure : Option String := none
  value : Int32 := 0

/-- A general case with exceptions for sources of certain names. -/
structure ByName (α : Type) where
  general : α
  exceptions : List (String × α) := []

def ByName.pick (cases : ByName α) (name : String) : α :=
  ((cases.exceptions.find? (·.1 == name)).map (·.2)).getD cases.general

inductive RedirectSpec where
  | copies (copies : ByName Copies)
  /-- Ends the source's silence. -/
  | loud
  | callback (name : Option String)

structure LeafSpec where
  label : String
  reply : ByName Reply

mutual

inductive Deed where
  | log (text : String)
  | queue (task : TaskSpec)
  | returnWith (outcome : Outcome)
  | record (outcome : Outcome)
  /-- Gives the frame's sink a result without ending the frame. -/
  | consume (outcome : Outcome)
  | collect (cell : String) (source : SourceSpec)
  | fail (message : String)
  | report (source : SourceSpec) (message : String) (forked : Bool)
  | attach
  | detach
  | info

inductive TaskSpec where
  | deferred (deeds : List Deed)
  | isolated (deeds : List Deed) (output : Option String)
  | command (chain : ChainSpec) (source : SourceSpec)
  | fork (issuer : SourceSpec) (sources : List SourceSpec) (chain : ChainSpec)
      (forked isReturn : Bool)
  | continuation (issuer : SourceSpec) (cell : String) (chain : ChainSpec)
      (forked isReturn : Bool)
  | call (target : String) (arguments : Option Json) (callback : Option String)
      (returnCall : Bool) (source : SourceSpec)
  | fallthrough

inductive StageSpec where
  | redirect (forked : Bool) (redirect : RedirectSpec)
  | returnRun
  | condition (polarity : Polarity) (target suffix : String)
  /-- Goes on with copies of every source. -/
  | resume (names : List String)
  | perform (deeds : List Deed)

inductive ExecutableSpec where
  | leaf (leaf : LeafSpec)
  | call (target : String) (arguments : Option Json)
  | perform (deeds : List Deed)

inductive ChainSpec where
  | make (input : String) (stages : List StageSpec) (executable : ExecutableSpec)

end

instance : Inhabited Deed := ⟨.info⟩
instance : Inhabited TaskSpec := ⟨.fallthrough⟩
instance : Inhabited StageSpec := ⟨.returnRun⟩
instance : Inhabited ChainSpec := ⟨.make "" [] (.perform [])⟩

end PackEngine.Playbook
