import PackEngine.Engine.StageArray
import PackEngine.Engine.Step

/-! The loop that takes the sources of a line from stage to stage of its array. -/
namespace PackEngine

variable {V : Vocabulary}

inductive LineExit (V : Vocabulary) where
  | executes (executable : Executable V)
  | asks (gate : V.Gate)
  /-- The stage has ended the line. -/
  | stops
  /-- There is no stage behind a redirect. -/
  | beyond
  /-- The cursor is out of bounds. -/
  | outside

/-- Where the loop is left, with the machine as it is before the work of that stage. -/
structure Departure (V : Vocabulary) where
  exit : LineExit V
  here : StageCursor V
  flags : Flags
  sources : List (Source V)
  machine : Machine V

namespace Machine

/-- Nothing in the form of the loop keeps it from getting `beyond` the last stage, or `outside`. -/
def follow (rules : Rules V) (issuer : Source V) (here : StageCursor V) (flags : Flags)
    (sources : List (Source V)) (m : Machine V) : Departure V :=
  match here.top? with
  | none => ⟨.outside, here, flags, sources, m⟩
  | some stage =>
      let flags := flags.union stage.flags
      match stage.action with
      | .redirect produce =>
          match m.redirectAll rules issuer produce flags.forked sources #[] with
          | (none, _) => ⟨.stops, here, flags, sources, m⟩
          | (some produced, after) =>
              match _ : here.next? with
              | some next => follow rules issuer next flags produced after
              | none => ⟨.beyond, here, flags, sources, m⟩
      | .gate gate => ⟨.asks gate, here, flags, sources, m⟩
      | .leaf leaf => ⟨.executes (.leaf leaf), here, flags, sources, m⟩
      | .action action => ⟨.executes (.action action), here, flags, sources, m⟩
termination_by here.remaining
decreasing_by exact StageCursor.remaining_next ‹_›

end Machine

end PackEngine
