import PackEngine.Engine.StageLoop
import PackEngine.Pack.Assembly
import PackEngine.Proofs.Arrivals

/-! Stages of lines. The array of a line has one stage for each of the line's parts, and only the
last is executable. From any of its stages on it reads as a chain, and the loop over it does what
the chain's line does in its turn: it is left at the executable, or at a condition, which has a
remainder to resume; or earlier, where a stage makes more sources than a line may have. -/
namespace PackEngine

variable {V : Vocabulary}

def Modifier.placed (rules : Rules V) (modifier : Modifier V) : PlacedStage V :=
  match modifier.action with
  | .keep => ⟨.redirect fun source _ => .ok [source], modifier.flags⟩
  | .redirect redirect => ⟨.redirect (rules.redirect redirect), modifier.flags⟩
  | .gate gate => ⟨.gate gate, modifier.flags⟩

def Executable.placed : Executable V → PlacedStage V
  | .leaf l => ⟨.leaf l, Flags.none⟩
  | .action a => ⟨.action a, Flags.none⟩

theorem Modifier.placed_of_produce? {rules : Rules V} {modifier : Modifier V}
    {produce : Source V → V.Setting → Except CommandError (List (Source V))}
    (stage : modifier.produce? rules = some produce) :
    modifier.placed rules = ⟨.redirect produce, modifier.flags⟩ := by
  obtain ⟨action, own⟩ := modifier
  cases action <;> cases stage <;> rfl

theorem Chain.eq_of_next? {chain next : Chain V} (h : chain.next? = some next) :
    ∃ modifier, chain = { next with modifiers := modifier :: next.modifiers } := by
  obtain ⟨input, modifiers, executable⟩ := chain
  cases modifiers with
  | nil => cases h
  | cons modifier rest =>
    cases Option.some.inj h
    exact ⟨modifier, rfl⟩

namespace StageCursor

variable {rules : Rules V} {start here next : StageCursor V} {input : String}
  {modifier : Modifier V} {rest : List (Modifier V)} {executable : Executable V} {n : Nat}

structure Reads (rules : Rules V) (here : StageCursor V) (chain : Chain V) : Prop where
  input : here.input = chain.input
  stages : here.stages.toList.drop here.index =
    chain.modifiers.map (Modifier.placed rules) ++ [chain.executable.placed]

theorem head?_drop (here : StageCursor V) :
    (here.stages.toList.drop here.index).head? = here.top? := by
  rw [List.head?_drop, top?, Array.getElem?_toList]

theorem Reads.top_modifier (h : here.Reads rules ⟨input, modifier :: rest, executable⟩) :
    here.top? = some (modifier.placed rules) := by
  rw [← head?_drop, h.stages]
  rfl

theorem Reads.top_executable (h : here.Reads rules ⟨input, [], executable⟩) :
    here.top? = some executable.placed := by
  rw [← head?_drop, h.stages]
  rfl

theorem Reads.remaining {chain : Chain V} (h : here.Reads rules chain) :
    here.remaining = chain.remaining := by
  have length := congrArg List.length h.stages
  simpa [StageCursor.remaining, Chain.remaining] using length

theorem Reads.next_modifier (h : here.Reads rules ⟨input, modifier :: rest, executable⟩) :
    ∃ next, here.next? = some next ∧ next.Reads rules ⟨input, rest, executable⟩ := by
  have ahead := h.remaining
  simp only [StageCursor.remaining, Chain.remaining, List.length_cons] at ahead
  refine ⟨_, next?_eq_some_iff.mpr ⟨by omega, rfl⟩, h.input, ?_⟩
  rw [← List.drop_drop, h.stages]
  rfl

theorem Reads.next_executable (h : here.Reads rules ⟨input, [], executable⟩) :
    here.next? = none := by
  have ahead := h.remaining
  simp only [StageCursor.remaining, Chain.remaining, List.length_nil] at ahead
  unfold next?
  rw [if_neg (by omega)]

def advance : Nat → StageCursor V → Option (StageCursor V)
  | 0, here => some here
  | n + 1, here => here.next?.bind (advance n)

theorem advance_eq_some_iff (within : start.index < start.stages.size) :
    start.advance n = some here ↔
      start.index + n < start.stages.size ∧ here = { start with index := start.index + n } := by
  induction n generalizing start with
  | zero => simp [advance, within, eq_comm]
  | succ n ih =>
    unfold advance next?
    split
    · next further =>
      rw [Option.bind_some, ih further, Nat.add_assoc, Nat.add_comm 1]
    · next ends =>
      have beyond : ¬start.index + (n + 1) < start.stages.size := by omega
      simp [beyond]

theorem advance_add (n k : Nat) (start : StageCursor V) :
    start.advance (n + k) = (start.advance n).bind (advance k) := by
  induction n generalizing start with
  | zero => rw [Nat.zero_add, advance, Option.bind_some]
  | succ n ih =>
    rw [Nat.add_right_comm, advance, advance, Option.bind_assoc]
    exact congrArg start.next?.bind (funext ih)

end StageCursor

/-! The loop. -/

namespace Machine

section

variable {rules : Rules V} {frame : Frame V} {issuer : Source V} {here next : StageCursor V}
  {chain : Chain V} {modifier : Modifier V} {rest : List (Modifier V)} {own flags : Flags}
  {sources produced : List (Source V)} {m after : Machine V}
  {produce : Source V → V.Setting → Except CommandError (List (Source V))}

theorem follow_executable {executable : Executable V}
    (top : here.top? = some executable.placed) :
    m.follow rules issuer here flags sources =
      ⟨.executes executable, here, flags, sources, m⟩ := by
  have same : flags.union Flags.none = flags := by simp [Flags.union, Flags.none]
  rw [follow, top]
  cases executable <;> simp only [Executable.placed, same]

theorem follow_gate {gate : V.Gate} (top : here.top? = some ⟨.gate gate, own⟩) :
    m.follow rules issuer here flags sources =
      ⟨.asks gate, here, flags.union own, sources, m⟩ := by
  rw [follow, top]

theorem follow_stops (top : here.top? = some ⟨.redirect produce, own⟩)
    (stops : m.redirectAll rules issuer produce (flags.union own).forked sources #[] =
      (none, after)) :
    m.follow rules issuer here flags sources =
      ⟨.stops, here, flags.union own, sources, m⟩ := by
  rw [follow, top]
  simp only [stops]

theorem follow_passes (top : here.top? = some ⟨.redirect produce, own⟩)
    (further : here.next? = some next)
    (passes : m.redirectAll rules issuer produce (flags.union own).forked sources #[] =
      (some produced, after)) :
    m.follow rules issuer here flags sources =
      after.follow rules issuer next (flags.union own) produced := by
  rw [follow, top]
  simp only [passes]
  split
  · next other same => cases further.symm.trans same; rfl
  · next ends => cases further.symm.trans ends

theorem walk_stops (stage : modifier.produce? rules = some produce)
    (stops : m.redirectAll rules issuer produce (flags.union modifier.flags).forked sources #[] =
      (none, after)) :
    m.walk rules frame issuer chain (modifier :: rest) flags sources = after := by
  obtain ⟨action, own⟩ := modifier
  rw [walk]
  cases action with
  | gate gate => cases stage
  | _ =>
    cases stage
    simp only [stops]

theorem walk_passes (stage : modifier.produce? rules = some produce)
    (passes : m.redirectAll rules issuer produce (flags.union modifier.flags).forked sources #[] =
      (some produced, after)) :
    m.walk rules frame issuer chain (modifier :: rest) flags sources =
      after.walk rules frame issuer chain rest (flags.union modifier.flags) produced := by
  obtain ⟨action, own⟩ := modifier
  rw [walk]
  cases action with
  | gate gate => cases stage
  | _ =>
    cases stage
    simp only [passes]

end

end Machine

inductive Departure.Does (rules : Rules V) (frame : Frame V) (issuer : Source V)
    (departure : Departure V) (chain : Chain V) (after : Machine V) : Prop where
  | executes (exit : departure.exit = .executes chain.executable)
      (top : departure.here.top? = some chain.executable.placed)
      (last : departure.here.next? = none)
      (work : after =
        departure.machine.finishLine rules frame chain departure.flags departure.sources)
  | asks {gate : V.Gate} {own : Flags} {next : StageCursor V} {rest : Chain V}
      (exit : departure.exit = .asks gate) (top : departure.here.top? = some ⟨.gate gate, own⟩)
      (further : departure.here.next? = some next)
      (remainder : chain.next? = some rest) (behind : next.Reads rules rest)
      (work : after = Operation.applyAll rules (Machine.gateOperations rules frame gate issuer
        departure.sources chain departure.flags departure.machine) departure.machine)
  | stops {produce : Source V → V.Setting → Except CommandError (List (Source V))} {own : Flags}
      {next : StageCursor V} (exit : departure.exit = .stops)
      (top : departure.here.top? = some ⟨.redirect produce, own⟩)
      (further : departure.here.next? = some next)
      (work : departure.machine.redirectAll rules issuer produce departure.flags.forked
        departure.sources #[] = (none, after))

theorem Machine.follow_does (rules : Rules V) (frame : Frame V) (issuer : Source V)
    {here : StageCursor V} (chain : Chain V) (modifiers : List (Modifier V))
    (h : here.Reads rules { chain with modifiers }) (flags : Flags) (sources : List (Source V))
    (m : Machine V) :
    ∃ k, here.advance k = some (m.follow rules issuer here flags sources).here ∧
      (m.follow rules issuer here flags sources).Does rules frame issuer
        { chain with modifiers := modifiers.drop k }
        (m.walk rules frame issuer chain modifiers flags sources) := by
  induction modifiers generalizing here flags sources m with
  | nil =>
    rw [follow_executable h.top_executable, walk]
    exact ⟨0, rfl, .executes rfl h.top_executable h.next_executable rfl⟩
  | cons modifier rest ih =>
    have top := h.top_modifier
    obtain ⟨next, further, reads⟩ := h.next_modifier
    cases stage : modifier.produce? rules with
    | none =>
      obtain ⟨action, own⟩ := modifier
      cases action with
      | gate gate =>
        rw [follow_gate top]
        refine ⟨0, rfl, .asks rfl top further rfl reads ?_⟩
        exact (applyAll_gateOperations rules frame gate issuer sources _ _ m).symm
      | _ => cases stage
    | some produce =>
      rw [Modifier.placed_of_produce? stage] at top
      cases result : m.redirectAll rules issuer produce (flags.union modifier.flags).forked
        sources #[] with
      | mk passed after =>
        cases passed with
        | none =>
          rw [follow_stops top result, walk_stops stage result]
          exact ⟨0, rfl, .stops rfl top further result⟩
        | some produced =>
          rw [follow_passes top further result, walk_passes stage result]
          obtain ⟨k, reached, does⟩ := ih reads (flags.union modifier.flags) produced after
          refine ⟨k + 1, ?_, does⟩
          rw [StageCursor.advance, further]
          exact reached

/-! Lines of packs. -/

inductive LinePart where
  | returned
  | modifier (modifier : LineModifier)
  | action (action : LineAction)

namespace LinePart

def placed : LinePart → PlacedStage packWords
  | .returned => ⟨.redirect fun source _ => .ok [source], { isReturn := true }⟩
  | .modifier (.redirect (.entities targets)) =>
      ⟨.redirect fun (source : PackSource) w => .ok ((Redirect.entities targets).produce source w),
        { forked := true }⟩
  | .modifier (.redirect r) =>
      ⟨.redirect fun (source : PackSource) w => .ok (r.produce source w), {}⟩
  | .modifier (.condition c) => ⟨.gate c, {}⟩
  | .action (.leaf l) => ⟨.leaf l, {}⟩
  | .action (.call c) => ⟨.action c, {}⟩

theorem isReturn_placed (part : LinePart) :
    part.placed.flags.isReturn = true ↔ part = .returned := by
  constructor
  · intro marked
    cases part with
    | returned => rfl
    | modifier m =>
      cases m with
      | redirect redirect => cases redirect <;> cases marked
      | condition condition => cases marked
    | action a => cases a <;> cases marked
  · rintro rfl
    rfl

theorem forked_placed (part : LinePart) :
    part.placed.flags.forked = true ↔
      ∃ targets, part = .modifier (.redirect (.entities targets)) := by
  constructor
  · intro forked
    cases part with
    | modifier m =>
      cases m with
      | redirect redirect =>
        cases redirect with
        | entities targets => exact ⟨targets, rfl⟩
        | _ => cases forked
      | condition condition => cases forked
    | action a => cases a <;> cases forked
    | returned => cases forked
  · rintro ⟨targets, rfl⟩
    rfl

theorem isExecutable_placed (part : LinePart) :
    part.placed.action.isExecutable = true ↔ ∃ action, part = .action action := by
  cases part with
  | returned => simp [placed, StageAction.isExecutable]
  | modifier m =>
    cases m with
    | redirect redirect => cases redirect <;> simp [placed, StageAction.isExecutable]
    | condition condition => simp [placed, StageAction.isExecutable]
  | action a => cases a <;> simp [placed, StageAction.isExecutable]

end LinePart

namespace CommandLine

def parts (line : CommandLine) : List LinePart :=
  (if line.isReturn then [.returned] else []) ++ line.modifiers.map .modifier ++
    [.action line.action]

theorem eq_action_iff_last {line : CommandLine} {n : Nat} {part : LinePart}
    (place : line.parts[n]? = some part) :
    (∃ action, part = .action action) ↔ n + 1 = line.parts.length := by
  unfold parts at place ⊢
  generalize heads : (if line.isReturn then [LinePart.returned] else []) ++
    line.modifiers.map .modifier = before at place ⊢
  have passive (action : LineAction) : LinePart.action action ∉ before := by
    rw [← heads]
    cases line.isReturn <;> simp
  rw [List.length_append, List.length_singleton, Nat.succ_inj]
  obtain early | late := Nat.lt_or_ge n before.length
  · rw [List.getElem?_append_left early] at place
    constructor
    · rintro ⟨action, rfl⟩
      exact absurd (List.mem_of_getElem? place) (passive action)
    · exact fun last => absurd last early.ne
  · rw [List.getElem?_append_right late] at place
    obtain ⟨zero, same⟩ := List.getElem?_eq_some_iff.mp place
    simp only [List.length_singleton, Nat.lt_one_iff] at zero
    refine ⟨fun _ => by omega, fun _ => ⟨line.action, ?_⟩⟩
    simpa [zero] using same.symm

theorem stages_push (builder : LineBuilder packWords) (modifier : LineModifier) :
    (modifier.push builder).stages = builder.stages.push (LinePart.modifier modifier).placed := by
  cases modifier with
  | redirect redirect => cases redirect <;> rfl
  | condition condition => rfl

theorem input_push (builder : LineBuilder packWords) (modifier : LineModifier) :
    (modifier.push builder).input = builder.input := by
  cases modifier with
  | redirect redirect => cases redirect <;> rfl
  | condition condition => rfl

theorem stages_foldl_push (modifiers : List LineModifier) (builder : LineBuilder packWords) :
    let pushed := modifiers.foldl (fun builder modifier => modifier.push builder) builder
    pushed.stages.toList =
        builder.stages.toList ++ modifiers.map (fun m => (LinePart.modifier m).placed) ∧
      pushed.input = builder.input := by
  induction modifiers generalizing builder with
  | nil => simp
  | cons modifier rest ih =>
    obtain ⟨stages, input⟩ := ih (modifier.push builder)
    refine ⟨?_, input.trans (input_push builder modifier)⟩
    rw [List.foldl_cons, stages, stages_push]
    simp

theorem stages_assemble (line : CommandLine) :
    line.assemble.stages.toList = line.parts.map LinePart.placed := by
  have finished (builder : LineBuilder packWords) (action : LineAction) :
      (action.finish builder).stages = builder.stages.push (LinePart.action action).placed := by
    cases action <;> rfl
  unfold assemble parts
  rw [finished, Array.toList_push, (stages_foldl_push _ _).1]
  cases line.isReturn <;> simp [LinePart.placed, LineBuilder.returnRun, LineBuilder.modifier,
    Flags.none]

theorem input_assemble (line : CommandLine) : line.assemble.input = line.render := by
  have finished (builder : LineBuilder packWords) (action : LineAction) :
      (action.finish builder).input = builder.input := by
    cases action <;> rfl
  unfold assemble
  rw [finished, (stages_foldl_push _ _).2]
  cases line.isReturn <;> rfl

theorem index_assemble (line : CommandLine) : line.assemble.index = 0 := by
  unfold assemble LineAction.finish
  cases line.action <;> rfl

theorem size_assemble (line : CommandLine) : line.assemble.stages.size = line.parts.length := by
  rw [← Array.length_toList, stages_assemble, List.length_map]

theorem map_placed_parts (pack : Pack) (line : CommandLine) :
    line.parts.map LinePart.placed =
      line.stages.map (Modifier.placed (packRules pack)) ++ [line.action.executable.placed] := by
  have executable : line.action.executable.placed = (LinePart.action line.action).placed := by
    cases line.action <;> rfl
  have modifiers (m : LineModifier) :
      m.stage.placed (packRules pack) = (LinePart.modifier m).placed := by
    cases m with
    | redirect redirect => cases redirect <;> rfl
    | condition condition => rfl
  unfold parts stages
  rw [executable]
  cases line.isReturn with
  | false => simp [modifiers]
  | true =>
    simp [modifiers]
    rfl

theorem advance_assemble_iff (line : CommandLine) (n : Nat) (here : StageCursor packWords) :
    line.assemble.advance n = some here ↔
      n < line.parts.length ∧ here = { line.assemble with index := n } := by
  have starts : line.assemble.index < line.assemble.stages.size := by
    rw [index_assemble, size_assemble, parts, List.length_append, List.length_singleton]
    omega
  rw [StageCursor.advance_eq_some_iff starts, size_assemble, index_assemble, Nat.zero_add]

def compileFrom (line : CommandLine) (n : Nat) : Chain packWords :=
  { line.compile with modifiers := line.stages.drop n }

theorem reads_assemble (pack : Pack) {line : CommandLine} {n : Nat}
    {here : StageCursor packWords} (reached : line.assemble.advance n = some here) :
    here.Reads (packRules pack) (line.compileFrom n) := by
  obtain ⟨within, rfl⟩ := (advance_assemble_iff line n here).mp reached
  have length : line.parts.length = line.stages.length + 1 := by
    have mapped := congrArg List.length (map_placed_parts pack line)
    simpa using mapped
  refine ⟨input_assemble line, ?_⟩
  dsimp only [compileFrom, compile]
  rw [stages_assemble, map_placed_parts pack line, List.drop_append_of_le_length, List.map_drop]
  rw [List.length_map]
  omega

structure StandsAt (line : CommandLine) (n : Nat) (part : LinePart)
    (here : StageCursor packWords) : Prop where
  input : here.input = line.render
  within : here.index < here.stages.size
  place : line.parts[n]? = some part
  top : here.top? = some part.placed
  isReturn : part.placed.flags.isReturn = true ↔ part = .returned
  forked : part.placed.flags.forked = true ↔
    ∃ targets, part = .modifier (.redirect (.entities targets))
  action : part.placed.action.isExecutable = true ↔ ∃ action, part = .action action
  last : part.placed.action.isExecutable = true ↔ n + 1 = line.parts.length
  executable : here.isExecutable = part.placed.action.isExecutable
  single : here.isExecutable = true ↔ here.remaining = 1
  ends : here.isExecutable = true ↔ here.next? = none
  ahead : here.remaining + n = line.parts.length
  drops : ∀ next, here.next? = some next → next.remaining + 1 = here.remaining

theorem stands {line : CommandLine} {n : Nat} {here : StageCursor packWords}
    (reached : line.assemble.advance n = some here) : ∃ part, line.StandsAt n part here := by
  obtain ⟨within, rfl⟩ := (advance_assemble_iff line n here).mp reached
  have size := line.size_assemble
  have inside : n < line.assemble.stages.size := by rw [size]; exact within
  have place := List.getElem?_eq_getElem within
  have action := (line.parts[n]).isExecutable_placed
  have last := action.trans (eq_action_iff_last place)
  refine ⟨line.parts[n], input_assemble line, inside, place, ?_, LinePart.isReturn_placed _,
    LinePart.forked_placed _, action, last, ?_, ?_, ?_, ?_, ?_⟩
  · rw [StageCursor.top?, ← Array.getElem?_toList, stages_assemble, List.getElem?_map, place]
    rfl
  · rw [Bool.eq_iff_iff, last, StageCursor.isExecutable, size]
    simp
  · simp only [StageCursor.isExecutable, StageCursor.remaining, beq_iff_eq]
    omega
  · simp only [StageCursor.isExecutable, StageCursor.next?, beq_iff_eq]
    split <;> simp <;> omega
  · simp only [StageCursor.remaining]
    omega
  · intro next further
    obtain ⟨more, rfl⟩ := StageCursor.next?_eq_some_iff.mp further
    simp only [StageCursor.remaining] at more ⊢
    omega

end CommandLine

/-- In a pack only too many sources end a line at a stage. A condition whose functions are found is
asked of all sources, and the line goes on behind it after them. -/
structure Departure.Ends (pack : Pack) (frame : Frame packWords) (issuer : PackSource)
    (departure : Departure packWords) (chain : Chain packWords) (after : Machine packWords) :
    Prop where
  does : departure.Does (packRules pack) frame issuer chain after
  asks : ∀ condition, departure.exit = .asks condition → ∃ rest, chain.next? = some rest ∧
    ∀ functions bound, pack.library.resolve condition.target = .ok functions →
      FunctionRef.instantiateAll none functions = .ok bound →
      Machine.gateOperations (packRules pack) frame condition issuer departure.sources chain
          departure.flags departure.machine =
        .newCell :: (departure.sources.map fun source =>
          .queue ⟨frame, condition.task bound departure.machine.heap.cells.size source⟩) ++
        [.queue ⟨frame, .continuation issuer departure.machine.heap.cells.size rest
          departure.flags⟩]
  stops : departure.exit = .stops →
    ∃ (outputs : PackSource → World → List PackSource) (own : Flags),
      departure.here.top? =
        some ⟨.redirect fun (source : PackSource) w => .ok (outputs source w), own⟩ ∧
      departure.machine.limits.forks <
        (departure.sources.flatMap (outputs · departure.machine.setting)).length ∧
      after = departure.machine.report (packRules pack) issuer
        (.forkLimitReached departure.machine.limits.forks) departure.flags.forked

theorem LinePart.exists_outputs {part : LinePart} {own : Flags}
    {produce : PackSource → World → Except CommandError (List PackSource)}
    (redirects : part.placed = ⟨.redirect produce, own⟩) :
    ∃ outputs : PackSource → World → List PackSource,
      produce = fun source w => .ok (outputs source w) := by
  cases part with
  | returned =>
    cases redirects
    exact ⟨fun source _ => [source], rfl⟩
  | modifier m =>
    cases m with
    | redirect redirect =>
      refine ⟨fun source w => redirect.produce source w, ?_⟩
      cases redirect <;> cases redirects <;> rfl
    | condition condition => cases redirects
  | action a => cases a <;> cases redirects

theorem Departure.Does.ends {pack : Pack} {frame : Frame packWords} {issuer : PackSource}
    {departure : Departure packWords} {chain : Chain packWords} {after : Machine packWords}
    {part : LinePart} (h : departure.Does (packRules pack) frame issuer chain after)
    (stands : departure.here.top? = some part.placed) :
    departure.Ends pack frame issuer chain after := by
  refine ⟨h, fun condition exits => ?_, fun exits => ?_⟩
  · cases h with
    | executes exit => cases exit.symm.trans exits
    | stops exit => cases exit.symm.trans exits
    | asks exit _ _ remainder =>
      cases exit.symm.trans exits
      refine ⟨_, remainder, fun functions bound resolves binds => ?_⟩
      obtain ⟨modifier, same⟩ := Chain.eq_of_next? remainder
      rw [same]
      exact gateOperations_bound resolves binds _ _ _
  · cases h with
    | executes exit => cases exit.symm.trans exits
    | asks exit => cases exit.symm.trans exits
    | @stops produce own next exit top further work =>
      obtain ⟨outputs, rfl⟩ := LinePart.exists_outputs (Option.some.inj (stands.symm.trans top))
      have ends := (redirectAll_eq (packRules pack) issuer outputs departure.flags.forked
        departure.sources #[] (m := departure.machine) (Nat.zero_le _)).2
      rw [work] at ends
      split at ends
      · next many =>
        refine ⟨outputs, own, top, ?_, (Prod.mk.inj ends).2⟩
        simpa using many
      · cases (Prod.mk.inj ends).1

/-- The array of a line has one stage for each part, of which only the last is executable, and reads
as the line's chain. The loop over it does what the line does in its turn. It is left at the last
stage or at a condition, which has a remainder to resume; or at a stage that makes too many sources.
There is always a stage behind a redirect. -/
theorem compiled_lines_well_formed (pack : Pack) (line : CommandLine) :
    line.assemble.stages.toList = line.parts.map LinePart.placed ∧
    (∀ n, (line.assemble.advance n).isSome = true ↔ n < line.parts.length) ∧
    ∀ n here, line.assemble.advance n = some here →
      (∃ part, line.StandsAt n part here) ∧
      here.Reads (packRules pack) (line.compileFrom n) ∧
      ∀ frame issuer sources flags topLevel (m : Machine packWords),
        let chain := line.compileFrom n
        let ready := m.lineSources (packRules pack) frame sources chain topLevel
        let departure := ready.2.follow (packRules pack) issuer here flags ready.1
        departure.exit ≠ .beyond ∧ departure.exit ≠ .outside ∧
        ∃ k, n ≤ k ∧ line.assemble.advance k = some departure.here ∧
          departure.Ends pack frame issuer (line.compileFrom k)
            (m.perform (packRules pack) frame (.line issuer sources chain flags topLevel)) := by
  refine ⟨line.stages_assemble, fun n => ?_, fun n here reached => ?_⟩
  · rw [Option.isSome_iff_exists]
    simp [CommandLine.advance_assemble_iff]
  have reads := CommandLine.reads_assemble pack reached
  refine ⟨CommandLine.stands reached, reads, ?_⟩
  intro frame issuer sources flags topLevel m chain ready departure
  obtain ⟨k, further, does⟩ := ready.2.follow_does (packRules pack) frame issuer chain
    chain.modifiers reads flags ready.1
  have passed : line.assemble.advance (n + k) = some departure.here := by
    rw [StageCursor.advance_add, reached]
    exact further
  obtain ⟨part, stands⟩ := CommandLine.stands passed
  refine ⟨?_, ?_, n + k, Nat.le_add_right n k, passed, ?_⟩
  · intro beyond
    cases does with
    | _ exit => cases exit.symm.trans beyond
  · intro outside
    cases does with
    | _ exit => cases exit.symm.trans outside
  · have ends := does.ends stands.top
    rw [show chain.modifiers = line.stages.drop n from rfl, List.drop_drop] at ends
    exact ends

/-- `return run execute as a,b if function g run say hi` -/
def askingLine : CommandLine where
  modifiers := [.redirect (.entities ["a", "b"]), .condition ⟨.holds, "g"⟩]
  isReturn := true
  action := .leaf (.say "hi")

theorem compiled_lines_well_formed_asking :
    let m := Machine.start (V := packWords) {} ⟨{}, {}⟩
    let departure := m.follow (packRules {}) PackSource.server askingLine.assemble Flags.none
      [PackSource.server]
    askingLine.StandsAt 0 .returned askingLine.assemble ∧
      (∃ k, departure.Ends {} (Frame.root 0 [] 0) PackSource.server (askingLine.compileFrom k)
        (m.perform (packRules {}) (Frame.root 0 [] 0)
          (.line PackSource.server (.ready [PackSource.server]) askingLine.compile Flags.none
            false))) ∧
      departure.exit = .asks (V := packWords) ⟨.holds, "g"⟩ ∧
      ∃ next, departure.here.next? = some next ∧ askingLine.assemble.advance 3 = some next := by
  intro m departure
  obtain ⟨⟨part, stands⟩, -, leaves⟩ := (compiled_lines_well_formed {} askingLine).2.2 0 _ rfl
  cases stands.place
  obtain ⟨_, _, k, _, _, ends⟩ := leaves (Frame.root 0 [] 0) PackSource.server
    (.ready [PackSource.server]) Flags.none false m
  refine ⟨stands, ⟨k, ends⟩, ?_⟩
  have forks : ({ askingLine.assemble with index := 1 } : StageCursor packWords).top? =
      some (LinePart.modifier (.redirect (.entities ["a", "b"]))).placed := rfl
  have passed : departure = m.follow (packRules {}) PackSource.server
      { askingLine.assemble with index := 2 } ⟨true, true⟩
      (Redirect.produce PackSource.server {} (.entities ["a", "b"])) :=
    (Machine.follow_passes stands.top rfl rfl).trans (Machine.follow_passes forks rfl rfl)
  rw [passed, Machine.follow_gate rfl]
  exact ⟨rfl, _, rfl, rfl⟩

/-- A pack with a return line that runs under two sources. -/
def crowdedPack : Pack where
  functions :=
    [(⟨"minecraft", "f", .refl true, .refl true⟩, { lines := [
        .obj [("modifiers", .arr [.arr [.str "As", .arr [.str "a", .str "b"]]]),
          ("return", .bool true), ("run", .arr [.str "Say", .str "hi"])],
        .obj [("run", .arr [.str "Say", .str "late"])]] })]

def crowdedLine : CommandLine where
  modifiers := [.redirect (.entities ["a", "b"])]
  isReturn := true
  action := .leaf (.say "hi")

def crowdedRun : Machine packWords :=
  let request : RunRequest := { target := "f", limits := { forks := 1 } }
  request.opening ((request.functions crowdedPack).toOption.getD []) {}

/-- The line gets neither to what it executes nor to a condition. -/
theorem crowds_leave_lines_early :
    crowdedRun.Runs (packRules crowdedPack) 1 ∧
    ∃ frame issuer lower, (crowdedRun.after (packRules crowdedPack) 1).stack.entries =
        ⟨frame, .line issuer (.ready [issuer]) crowdedLine.compile Flags.none true⟩ :: lower ∧
      let m := (crowdedRun.after (packRules crowdedPack) 1).taking
        ⟨frame, .line issuer (.ready [issuer]) crowdedLine.compile Flags.none true⟩ lower
      let ready := m.lineSources (packRules crowdedPack) frame (.ready [issuer])
        crowdedLine.compile true
      let departure := ready.2.follow (packRules crowdedPack) issuer crowdedLine.assemble
        Flags.none ready.1
      departure.exit = .stops ∧
        departure.here.top? =
          some (LinePart.modifier (.redirect (.entities ["a", "b"]))).placed := by
  obtain ⟨frame, issuer, lower, entries⟩ : ∃ frame issuer lower,
      (crowdedRun.after (packRules crowdedPack) 1).stack.entries =
        ⟨frame, .line issuer (.ready [issuer]) crowdedLine.compile Flags.none true⟩ :: lower :=
    ⟨_, _, _, rfl⟩
  refine ⟨(Machine.runs_succ_iff _ _ _).mpr ⟨rfl, Machine.runs_zero _ _⟩, frame, issuer, lower,
    entries, ?_⟩
  intro m ready departure
  have returns : crowdedLine.assemble.top? = some LinePart.returned.placed := rfl
  have last : departure = ready.2.follow (packRules crowdedPack) issuer
      { crowdedLine.assemble with index := 1 } { isReturn := true } ready.1 :=
    Machine.follow_passes returns rfl rfl
  rw [last, Machine.follow_stops rfl rfl]
  exact ⟨rfl, rfl⟩

end PackEngine
