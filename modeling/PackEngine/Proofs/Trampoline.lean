import PackEngine.Proofs.DirectLines

/-! Runs agree with evaluation in direct style. Stages, lines and calls carry their evaluations, by
induction on the stages of a line and on the nesting of calls. -/
namespace PackEngine

open Direct Operation Machine

variable {setup : Setup} {fuel : Nat} {frame : Frame packWords} {call : Caller}

def Frees (setup : Setup) (fuel : Nat) (frame : Frame packWords)
    (operations : List (Operation packWords)) (p : Play) (result : Option (Exit × Play)) : Prop :=
  costs operations = 0 ∧ Leads setup fuel frame operations p result

theorem carries_of_frees {task : Task packWords} {e : Eval}
    (frees : ∀ m : Machine packWords, frame.boundary.covers frame = true → m.Bounded setup →
      Frees setup fuel frame (m.operations (packRules setup.pack) frame task) m.play (e m.play)) :
    Carries setup fuel [⟨frame, task⟩] frame.boundary e := by
  refine carries_of_leads fun m own bounded => ?_
  obtain ⟨free, leads⟩ := frees m own bounded
  exact ⟨free ▸ Nat.zero_le 1, leads⟩

theorem Prepares.behind (first : List (Operation packWords)) (never : returnsIn first = [])
    (idle : queuedIn first = []) {operations : List (Operation packWords)} {p : Play}
    {result : Play × Eval}
    (h : Prepares setup (fuel - costs first) frame operations (effects setup.pack first p) result) :
    costs (first ++ operations) = costs first ∧ returnsIn (first ++ operations) = [] ∧
      Carries setup (fuel - costs (first ++ operations)) (queuedIn (first ++ operations))
        frame.boundary result.2 ∧
      effects setup.pack (first ++ operations) p = result.1 := by
  have cost : costs (first ++ operations) = costs first := by
    rw [costs_append, h.free, Nat.add_zero]
  refine ⟨cost, ?_, ?_, ?_⟩
  · rw [returnsIn_append, never, h.never, List.nil_append]
  · rw [cost, queuedIn_append, idle, List.nil_append]
    exact h.carries
  · rw [effects_append, h.play]

theorem Prepares.frees {operations : List (Operation packWords)} {p : Play} {result : Play × Eval}
    (h : Prepares setup fuel frame operations p result) :
    Frees setup fuel frame operations p (result.2 result.1) := by
  obtain ⟨_, never, carries, play⟩ := h.behind [] rfl rfl
  exact ⟨h.free, (Leads.works never carries).of_eq (congrArg result.2 play.symm)⟩

theorem Prepares.confined {inner : Frame packWords} (inside : frame.Inside inner)
    {operations : List (Operation packWords)} {p : Play} {result : Play × Eval}
    (h : Prepares setup fuel inner operations p result) :
    Frees setup fuel frame operations p (result.2.confine result.1) := by
  obtain ⟨_, never, carries, play⟩ := h.behind [] rfl rfl
  exact ⟨h.free, (Leads.confined inside never carries).of_eq
    (congrArg result.2.confine play.symm)⟩

theorem Frees.after (first : List (Operation packWords)) {operations : List (Operation packWords)}
    {p : Play} {result : Option (Exit × Play)} (never : returnsIn first = [])
    (free : costs first = 0) (idle : queuedIn first = [])
    (h : Frees setup fuel frame operations (effects setup.pack first p) result) :
    Frees setup fuel frame (first ++ operations) p result := by
  obtain ⟨cheap, leads⟩ := h
  have same : costs (first ++ operations) = costs operations := by
    rw [costs_append, free, Nat.zero_add]
  have returned : returnsIn (first ++ operations) = returnsIn operations := by
    rw [returnsIn_append, never, List.nil_append]
  have queued : queuedIn (first ++ operations) = queuedIn operations := by
    rw [queuedIn_append, idle, List.nil_append]
  refine ⟨same.trans cheap, ?_⟩
  cases leads with
  | works quiet carries =>
    rw [← effects_append]
    refine .works (returned.trans quiet) ?_
    rw [same, queued]
    exact carries
  | confined inside quiet carries =>
    rw [← effects_append]
    refine .confined inside (returned.trans quiet) ?_
    rw [same, queued]
    exact carries
  | returns found own queues =>
    rw [← effects_append]
    refine .returns ?_ ?_ (queued.trans queues)
    · rw [returned]
      exact found
    · rw [returned]
      exact own

theorem Machine.Bounded.applyAll {m : Machine packWords} (h : m.Bounded setup)
    (operations : List (Operation packWords)) (free : costs operations = 0) :
    (Operation.applyAll (packRules setup.pack) operations m).play =
        effects setup.pack operations m.play ∧
      (Operation.applyAll (packRules setup.pack) operations m).Bounded setup := by
  have enough : costs operations ≤ m.quota := free ▸ Nat.zero_le m.quota
  obtain ⟨play, quota, limits⟩ := play_applyAll setup.pack h.solvent enough
  refine ⟨play, ⟨?_, ?_⟩⟩
  · rw [quota, limits, free]
    exact h.solvent
  · rw [limits]
    exact h.forks

theorem prepares_action (carry : CallsCarry setup fuel call)
    (own : frame.boundary.covers frame = true) {action : CallAction}
    (other : action.returned? = none) (chain : Chain packWords) (flags : Flags)
    (source : PackSource) (m : Machine packWords) :
    Prepares setup fuel frame
      (actOperations (packRules setup.pack) frame action chain flags source m) m.play
      (prepare setup call frame.activation action source flags m.play) := by
  cases action with
  | function target arguments =>
    exact prepares_calls carry own target arguments chain flags source m
  | debug target => exact prepares_debug carry own target chain flags source m
  | returnValue value => cases other
  | returnFail => cases other

theorem prepares_actions (carry : CallsCarry setup fuel call)
    (own : frame.boundary.covers frame = true) {action : CallAction}
    (other : action.returned? = none) (chain : Chain packWords) (flags : Flags)
    (sources : List PackSource) {m : Machine packWords} (bounded : m.Bounded setup) :
    Prepares setup fuel frame
      (actAllOperations (packRules setup.pack) frame action chain flags sources m) m.play
      ((prepareAll setup call frame.activation action flags sources m.play).1,
        .each (prepareAll setup call frame.activation action flags sources m.play).2) := by
  induction sources generalizing m with
  | nil => exact .idle rfl rfl rfl
  | cons source rest ih =>
    have first := prepares_action carry own other chain flags source m
    obtain ⟨play, later⟩ := bounded.applyAll _ first.free
    have others := ih later
    rw [play, first.play] at others
    have single : Prepares setup fuel frame
        (actOperations (packRules setup.pack) frame action chain flags source m) m.play
        ((prepare setup call frame.activation action source flags m.play).1,
          .each [(prepare setup call frame.activation action source flags m.play).2]) := by
      rw [Eval.each_singleton]
      exact first
    exact single.append own others

theorem prepareAll_of_returned {action : CallAction} {outcome : Outcome}
    (returned : action.returned? = some outcome) (flags : Flags) (sources : List PackSource)
    (p : Play) :
    prepareAll setup call frame.activation action flags sources p =
      (effects setup.pack (returnsOf frame outcome sources) p, sources.map fun _ => .leave) := by
  have acts (source : PackSource) (p : Play) :
      prepare setup call frame.activation action source flags p =
        ((p.deliver setup.pack source.callback outcome).deliver setup.pack frame.sink outcome,
          .leave) := by
    cases action with
    | function target arguments => cases returned
    | debug target => cases returned
    | returnValue value =>
      cases returned
      rfl
    | returnFail =>
      cases returned
      rfl
  induction sources generalizing p with
  | nil => rfl
  | cons source rest ih =>
    unfold prepareAll
    dsimp only
    rw [acts, ih]
    rfl

theorem frees_returns {action : CallAction} {outcome : Outcome}
    (returned : action.returned? = some outcome) (flags : Flags) {sources : List PackSource}
    (present : sources ≠ []) (p : Play) :
    Frees setup fuel frame (returnsOf frame outcome sources) p
      (evalTogether setup call frame.activation action flags sources p) := by
  unfold evalTogether
  rw [prepareAll_of_returned returned]
  cases sources with
  | nil => exact absurd rfl present
  | cons source rest =>
    have free (sources : List PackSource) : costs (returnsOf frame outcome sources) = 0 := by
      induction sources with
      | nil => rfl
      | cons source rest ih =>
        have split := costs_append [.deliver source.callback outcome, .returnFrom frame outcome]
          (returnsOf frame outcome rest)
        rw [ih] at split
        exact split
    have idle (sources : List PackSource) : queuedIn (returnsOf frame outcome sources) = [] := by
      induction sources with
      | nil => rfl
      | cons source rest ih => exact ih
    refine ⟨free _, .returns ?_ ?_ (idle _)⟩
    · rw [returnsIn_returnsOf]
      exact List.cons_ne_nil _ _
    · rw [returnsIn_returnsOf]
      intro returned member
      rw [List.eq_of_mem_replicate member]

theorem frees_finish (carry : CallsCarry setup fuel call) (together : setup.inTurn = false)
    (own : frame.boundary.covers frame = true) (chain : Chain packWords) (flags : Flags)
    (sources : List PackSource) {m : Machine packWords} (bounded : m.Bounded setup) :
    Frees setup fuel frame
      (finishOperations (packRules setup.pack) frame { chain with modifiers := [] } flags sources m)
      m.play
      (evalFinish setup call frame.activation chain.input chain.executable flags sources
        m.play) := by
  unfold finishOperations evalFinish
  split
  · cases flags.isReturn with
    | true => exact ⟨rfl, .works rfl carries_fallthrough⟩
    | false => exact ⟨rfl, .of_idle rfl rfl⟩
  · next present =>
    cases chain.executable with
    | leaf leaf =>
      dsimp only
      exact (prepares_leaves own _ _ m.play).frees
    | action action =>
      dsimp only
      have whole : evalAction setup call frame.activation action flags sources =
          evalTogether setup call frame.activation action flags sources := by
        unfold evalAction
        rw [together]
        cases action <;> rfl
      rw [whole]
      cases returned : action.returned? with
      | none => exact (prepares_actions carry own returned _ flags sources bounded).frees
      | some outcome =>
        rw [actAllOperations_of_returned returned]
        exact frees_returns returned flags (fun nothing => present (List.isEmpty_iff.mpr nothing))
          m.play

theorem redirectAll_eq (rules : Rules packWords) (issuer : PackSource)
    (produce : PackSource → World → List PackSource) (forked : Bool) (sources : List PackSource)
    (done : Array PackSource) {m : Machine packWords} (few : done.size ≤ m.limits.forks) :
    let outputs := sources.flatMap fun source => produce source m.setting
    let error : CommandError := .forkLimitReached m.limits.forks
    let passes (source : PackSource) (w : World) : Except CommandError (List PackSource) :=
      .ok (produce source w)
    (redirectOperations rules issuer passes forked sources done m =
        if m.limits.forks < done.size + outputs.length then [.report issuer error forked]
        else []) ∧
      m.redirectAll rules issuer passes forked sources done =
        if m.limits.forks < done.size + outputs.length then
          (none, m.report rules issuer error forked)
        else (some (done.toList ++ outputs), m) := by
  induction sources generalizing done with
  | nil =>
    have fits : ¬m.limits.forks < done.size + 0 := by omega
    simp [redirectOperations, redirectAll, few]
  | cons source rest ih =>
    simp only [redirectOperations, redirectAll, List.flatMap_cons, List.length_append]
    have size : (done ++ produce source m.setting).size =
        done.size + (produce source m.setting).length := by
      rw [← Array.length_toList, Array.toList_appendList, List.length_append, Array.length_toList]
    by_cases full : m.limits.forks < (done ++ produce source m.setting).size
    · rw [if_pos full, if_pos full, if_pos (by omega), if_pos (by omega)]
      exact ⟨rfl, rfl⟩
    · obtain ⟨operations, passed⟩ := ih (done ++ produce source m.setting) (by omega)
      rw [if_neg full, if_neg full, operations, passed, size, Nat.add_assoc]
      simp

theorem scheduleConditions_run (rules : Rules packWords) (frame : Frame packWords)
    (adapt : PackSource → PackSource) (polarity : Polarity)
    (functions : List (FunctionRef packWords)) (issuer : PackSource) (sources : List PackSource)
    (chain : Chain packWords) (flags : Flags) (m : Machine packWords) :
    ((scheduleConditions adapt polarity functions issuer sources chain flags).run rules frame
      m).1 = (FunctionRef.instantiateAll none functions).map fun _ => () := by
  unfold scheduleConditions
  cases FunctionRef.instantiateAll none functions with
  | error error => rfl
  | ok bound =>
    simp only [bind, Procedure.bind, Control.ofExcept, Control.newCell, Procedure.run]
    rw [Procedure.run_bind, Procedure.run_queueAll]
    cases chain.next? <;> rfl

theorem carries_condition (carry : CallsCarry setup fuel call) (polarity : Polarity)
    (bound : List (BoundFunction packWords)) (cell : CellId) (source : PackSource) :
    Carries setup fuel
      [⟨frame, conditionTask (PackSource.mapPersona Persona.forFunction) polarity bound cell
        source⟩] frame.boundary
      (evalCondition setup call frame.activation polarity bound cell source) := by
  refine carries_of_frees fun m _ _ => ?_
  let inner := frame.child [.collect cell polarity source.persona source.callback] none
    m.heap.slots.size
  have own : inner.boundary.covers inner = true := by
    simp [inner, Frame.child, Boundary.nested, Boundary.covers]
  have queues := Prepares.of_queue (p := effects setup.pack [.newSlot] m.play)
    ((carry.calls own bound (fun _ => inner.sink) true
      (PackSource.mapPersona Persona.forFunction source.clearCallbacks)).append
        carries_fallthrough.single (covers_singleton own)) (frame_eq_of_mem bound (by simp))
  have opens := Prepares.after [.newSlot] rfl rfl rfl queues
  have operations : m.operations (packRules setup.pack) frame
      (conditionTask (PackSource.mapPersona Persona.forFunction) polarity bound cell source) =
      [.newSlot] ++ List.map .queue ((bound.map fun function => (⟨inner, .call function inner.sink
        true (PackSource.mapPersona Persona.forFunction source.clearCallbacks)⟩ :
          Entry packWords)) ++ [⟨inner, .fallthrough⟩]) := by
    simp only [conditionTask, Machine.operations, conditionProducer_operations]
    rw [List.map_append, List.map_map]
    rfl
  rw [operations]
  exact opens.confined (frame.inside_child _ _)

/-- The rest of a line does what its evaluation says, whatever sources get there. -/
def Walks (setup : Setup) (fuel : Nat) (frame : Frame packWords) (call : Caller)
    (issuer : PackSource) (chain : Chain packWords) (rest : List (Modifier packWords))
    (flags : Flags) : Prop :=
  ∀ sources (m : Machine packWords), m.Bounded setup → Frees setup fuel frame
    (walkOperations (packRules setup.pack) frame issuer chain rest flags sources m) m.play
    (evalStages setup call frame.activation issuer chain.input chain.executable rest flags sources
      m.play)

theorem carries_continuation (issuer : PackSource) (cell : CellId) (chain : Chain packWords)
    {rest : List (Modifier packWords)} {flags : Flags}
    (later : Walks setup fuel frame call issuer { chain with modifiers := rest } rest flags) :
    Carries setup fuel [⟨frame, .continuation issuer cell { chain with modifiers := rest } flags⟩]
      frame.boundary (fun p => evalStages setup call frame.activation issuer chain.input
        chain.executable rest flags (p.scene.heap.collected cell)
        (p.withHeap (p.scene.heap.emptyCell cell))) := by
  refine carries_of_frees fun m _ bounded => ?_
  obtain ⟨play, emptied⟩ := bounded.applyAll [.emptyCell cell] rfl
  have walks := later (m.heap.collected cell) _ emptied
  rw [play] at walks
  exact Frees.after [.emptyCell cell] rfl rfl rfl walks

theorem frees_gate (carry : CallsCarry setup fuel call)
    (own : frame.boundary.covers frame = true) (condition : Condition) (issuer : PackSource)
    (chain : Chain packWords) {modifier : Modifier packWords} {rest : List (Modifier packWords)}
    {flags : Flags} {sources : List PackSource} {m : Machine packWords}
    (later : Walks setup fuel frame call issuer { chain with modifiers := rest } rest flags) :
    Frees setup fuel frame
      (gateOperations (packRules setup.pack) frame condition issuer sources
        { chain with modifiers := modifier :: rest } flags m) m.play
      (match conditionFunctions setup condition with
      | .error error => some (.onward, m.play.report issuer error flags.forked)
      | .ok bound =>
          let cell := m.play.scene.heap.newCell.1
          Eval.andThen
            (.each (sources.map fun source =>
              evalCondition setup call frame.activation condition.polarity bound cell source))
            (fun p => evalStages setup call frame.activation issuer chain.input chain.executable
              rest flags (p.scene.heap.collected cell)
              (p.withHeap (p.scene.heap.emptyCell cell)))
            (m.play.withHeap m.play.scene.heap.newCell.2)) := by
  unfold gateOperations conditionFunctions
  have schedules : (packRules setup.pack).gate condition issuer sources
      { chain with modifiers := modifier :: rest } flags =
      condition.schedule setup.pack issuer sources { chain with modifiers := modifier :: rest }
        flags := rfl
  rw [schedules]
  unfold Condition.schedule
  cases setup.pack.library.resolve condition.target with
  | error error => exact ⟨rfl, .of_idle rfl rfl⟩
  | ok functions =>
    simp only [bind, Procedure.bind, Control.ofExcept, Except.bind]
    rw [scheduleConditions_operations, scheduleConditions_run]
    cases FunctionRef.instantiateAll none functions with
    | error error => exact ⟨rfl, .of_idle rfl rfl⟩
    | ok bound =>
      let cell := m.heap.newCell.1
      have conditions : Carries setup fuel
          (sources.map fun source => ⟨frame, conditionTask (PackSource.mapPersona
            Persona.forFunction) condition.polarity bound cell source⟩) frame.boundary
          (.each (sources.map fun source =>
            evalCondition setup call frame.activation condition.polarity bound cell source)) :=
        Carries.map (fun source _ => carries_condition carry condition.polarity bound cell source)
          fun _ _ => own
      have line := conditions.andThen (carries_continuation issuer cell chain later)
        (covers_singleton own)
      have queues := Prepares.of_queue (p := effects setup.pack [.newCell] m.play) line
        (frame_eq_of_mem sources (by simp))
      have gate := Prepares.after [.newCell] rfl rfl rfl queues
      rw [List.map_append, List.map_map] at gate
      dsimp only [Except.map, Chain.next?]
      rw [List.append_nil]
      exact gate.frees

/-- A line does what its evaluation says, from each of its stages on. -/
theorem walks (carry : CallsCarry setup fuel call) (together : setup.inTurn = false)
    (own : frame.boundary.covers frame = true) (issuer : PackSource) (chain : Chain packWords)
    (modifiers : List (Modifier packWords)) (flags : Flags) :
    Walks setup fuel frame call issuer chain modifiers flags := by
  induction modifiers generalizing chain flags with
  | nil =>
    exact fun sources _ bounded => frees_finish carry together own chain flags sources bounded
  | cons modifier rest ih =>
    obtain ⟨action, added⟩ := modifier
    intro sources m bounded
    have maps (produce : PackSource → World → List PackSource) :=
      redirectAll_eq (packRules setup.pack) issuer produce (flags.union added).forked sources
        #[] (m := m) (Nat.zero_le _)
    simp only [List.size_toArray, List.length_nil, Nat.zero_add, List.nil_append, bounded.forks]
      at maps
    cases action with
    | keep =>
      obtain ⟨operations, passed⟩ := maps fun source _ => [source]
      unfold walkOperations evalStages
      dsimp only
      rw [operations, passed, List.flatMap_singleton']
      split
      · exact ⟨rfl, .of_idle rfl rfl⟩
      · exact ih chain (flags.union added) sources m bounded
    | redirect redirect =>
      obtain ⟨operations, passed⟩ := maps fun source w => redirect.produce source w
      have produces : (packRules setup.pack).redirect redirect =
          fun source w => .ok (redirect.produce source w) := rfl
      have setting : m.play.scene.setting = m.setting := rfl
      unfold walkOperations evalStages
      dsimp only
      rw [produces, operations, passed, setting]
      split
      · exact ⟨rfl, .of_idle rfl rfl⟩
      · exact ih chain (flags.union added) _ m bounded
    | gate condition =>
      -- the rest of the line waits below the conditions, and continues in a turn of its own
      exact frees_gate carry own condition issuer chain
        (ih { chain with modifiers := rest } (flags.union added))

theorem carries_line (carry : CallsCarry setup fuel call) (together : setup.inTurn = false)
    (source : PackSource) (chain : Chain packWords) :
    Carries setup fuel [⟨frame, Task.command chain source⟩] frame.boundary
      (evalLine setup call frame.activation source chain) := by
  refine carries_of_frees fun m own bounded => ?_
  obtain ⟨play, traced⟩ :=
    bounded.applyAll [.trace (.command frame.depth chain.input)] rfl
  have walks := walks carry together own source chain chain.modifiers Flags.none [source] _ traced
  rw [play] at walks
  exact Frees.after [.trace (.command frame.depth chain.input)] rfl rfl rfl walks

@[simp] theorem Direct.Play.trace_heap (p : Play) (event : TraceEvent) :
    (p.trace event).scene.heap = p.scene.heap := by
  unfold trace
  cases p.tracer <;> rfl

theorem carries_body (carry : CallsCarry setup fuel call) (together : setup.inTurn = false) :
    CallsCarry setup (fuel + 1) (evalBody setup call) := by
  intro frame function callback returnCall source
  refine carries_of_leads fun m own _ => ?_
  let callee := frame.child callback (if returnCall then some frame.boundary else none)
    m.heap.slots.size
  let first : List (Operation packWords) :=
    [.charge, .trace (.call frame.depth function.id function.lines.length), .newSlot]
  have covered : callee.boundary.covers callee = true := by
    unfold Boundary.covers at own ⊢
    cases returnCall with
    | true =>
      have within : frame.boundary.depth ≤ frame.depth := by simpa using own
      simp [callee, Frame.child, Nat.le_succ_of_le within]
    | false => simp [callee, Frame.child, Boundary.nested]
  let entries : List (Entry packWords) :=
    (function.lines.map fun line => ⟨callee, Task.command line source⟩) ++ [⟨callee, .endFunction⟩]
  let body : Eval := Eval.andThen
    (.each (function.lines.map (evalLine setup call callee.activation source)))
    (evalEnd setup callee.activation)
  have lines : Carries setup fuel entries callee.boundary body :=
    (Carries.map (fun line _ => carries_line carry together source line)
      fun _ _ => covered).andThen carries_endFunction (covers_singleton covered)
  have queues : Prepares setup (fuel + 1 - costs first) callee (entries.map .queue) _ _ :=
    .of_queue (p := effects setup.pack first m.play) lines
      (frame_eq_of_mem function.lines (by simp))
  have operations : m.operations (packRules setup.pack) frame
      (.call function callback returnCall source) = first ++ entries.map .queue := by
    simp only [entries]
    rw [List.map_append, List.map_map, ← List.append_assoc]
    rfl
  obtain ⟨cost, never, carries, play⟩ := queues.behind first rfl rfl
  rw [operations]
  refine ⟨Nat.le_of_eq cost, ?_⟩
  have slot : (m.play.charge.trace (.call frame.activation.depth function.id
      function.lines.length)).scene.heap.newSlot.1 = m.heap.slots.size :=
    congrArg (·.newSlot.1) (Play.trace_heap _ _)
  unfold evalBody
  cases returnCall with
  | true =>
    have shared : callee.boundary = frame.boundary := rfl
    rw [shared] at carries
    refine (Leads.works never carries).of_eq ?_
    simp only [if_true]
    rw [play, slot]
    rfl
  | false =>
    refine (Leads.confined (frame.inside_child _ _) never carries).of_eq ?_
    simp only [Bool.false_eq_true, if_false]
    rw [play, slot]
    rfl

theorem carries_call (together : setup.inTurn = false) (fuel : Nat) :
    CallsCarry setup fuel (evalCall setup fuel) := by
  induction fuel with
  | zero =>
    -- no turn begins without quota
    intro frame function callback returnCall source m lower live quota stack
    have left := ((verdict?_eq_none_iff m).mp (live.goes stack)).2.2
    omega
  | succ fuel ih =>
    -- the call itself is charged for, so the calls in its body have less quota
    exact carries_body ih together

end PackEngine
