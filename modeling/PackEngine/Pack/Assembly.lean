import PackEngine.Engine.StageArray
import PackEngine.Pack.Commands

/-! The lines of a pack as arrays of stages, each put there in its turn. -/
namespace PackEngine

def LineModifier.push (builder : LineBuilder packWords) : LineModifier → LineBuilder packWords
  | .redirect (.entities targets) =>
      builder.fork fun (source : PackSource) _ =>
        .ok (targets.map fun t => source.mapPersona (·.withEntity t))
  | .redirect r => builder.redirect fun (source : PackSource) w => .ok (r.produce source w)
  | .condition c => builder.customModifier c

def LineAction.finish (builder : LineBuilder packWords) : LineAction → StageCursor packWords
  | .leaf l => builder.executes l
  | .call c => builder.custom c

def CommandLine.assemble (line : CommandLine) : StageCursor packWords :=
  let builder : LineBuilder packWords := { input := line.render }
  let builder := if line.isReturn then builder.returnRun else builder
  let builder := line.modifiers.foldl (fun builder modifier => modifier.push builder) builder
  line.action.finish builder

end PackEngine
