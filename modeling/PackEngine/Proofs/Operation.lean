import PackEngine.Engine.Step

/-! The operations of a task: all that it does to a machine, in order. The machine after a task is
what the operations make of the machine before it, so that facts about runs can be read off them. -/
namespace PackEngine

variable {V : Vocabulary}

inductive Operation (V : Vocabulary) where
  | queue (entry : Entry V)
  | returnFrom (frame : Frame V) (outcome : Outcome)
  | record (frame : Frame V) (outcome : Outcome)
  | deliver (callback : Callback V) (outcome : Outcome)
  | deliverTally (tally : TallyId) (callback : Callback V)
  | report (source : Source V) (error : CommandError) (forked : Bool)
  | attach (tracer : V.Tracer)
  | detach
  | newSlot
  | newTally
  | newCell
  | collect (cell : CellId) (source : Source V)
  | emptyCell (cell : CellId)
  | charge
  | trace (event : TraceEvent)
  | update (change : V.Setting → V.Setting)

namespace Operation

def apply (rules : Rules V) (m : Machine V) : Operation V → Machine V
  | .queue entry => m.enqueue entry
  | .returnFrom frame outcome => m.returnFrom rules frame outcome
  | .record frame outcome => m.record frame outcome
  | .deliver callback outcome => m.deliver rules callback outcome
  | .deliverTally tally callback =>
      { m with toScene := callback.deliverTally rules tally m.toScene }
  | .report source error forked => m.report rules source error forked
  | .attach tracer => if m.tracer.isSome then m else { m with tracer := some tracer }
  | .detach => { m with tracer := none }
  | .newSlot => m.newSlot.2
  | .newTally => { m with heap := m.heap.newTally.2 }
  | .newCell => { m with heap := m.heap.newCell.2 }
  | .collect cell source => { m with heap := m.heap.collect cell source }
  | .emptyCell cell => { m with heap := m.heap.emptyCell cell }
  | .charge => m.charge
  | .trace event => m.trace rules event
  | .update change => { m with setting := change m.setting }

def applyAll (rules : Rules V) (operations : List (Operation V)) (m : Machine V) : Machine V :=
  operations.foldl (apply rules) m

@[simp] theorem applyAll_nil (rules : Rules V) (m : Machine V) : applyAll rules [] m = m := rfl

@[simp] theorem applyAll_cons (rules : Rules V) (operation : Operation V)
    (rest : List (Operation V)) (m : Machine V) :
    applyAll rules (operation :: rest) m = applyAll rules rest (operation.apply rules m) := rfl

@[simp] theorem applyAll_append (rules : Rules V) (first second : List (Operation V))
    (m : Machine V) :
    applyAll rules (first ++ second) m = applyAll rules second (applyAll rules first m) := by
  simp [applyAll]

theorem applyAll_induction {rules : Rules V} {P : Machine V → Prop}
    {operations : List (Operation V)}
    (keep : ∀ operation ∈ operations, ∀ m, P m → P (operation.apply rules m))
    {m : Machine V} (start : P m) : P (applyAll rules operations m) := by
  induction operations generalizing m with
  | nil => exact start
  | cons operation rest ih =>
    rw [applyAll_cons]
    apply ih
    · intro other member
      exact keep other (List.mem_cons_of_mem _ member)
    · exact keep operation List.mem_cons_self m start

end Operation

/-- The operations of a procedure that runs in a frame, up to its end or its error. -/
def Procedure.operations (rules : Rules V) (frame : Frame V) :
    Procedure V (Task V) α → Machine V → List (Operation V)
  | .done _, _ => []
  | .fail _, _ => []
  | .queue task next, m =>
      .queue ⟨frame, task⟩ :: next.operations rules frame (m.enqueue ⟨frame, task⟩)
  | .returnWith outcome next, m =>
      .returnFrom frame outcome ::
        next.operations rules frame (m.returnFrom rules frame outcome)
  | .record outcome next, m =>
      .record frame outcome :: next.operations rules frame (m.record frame outcome)
  | .deliver callback outcome next, m =>
      .deliver callback outcome ::
        next.operations rules frame (m.deliver rules callback outcome)
  | .deliverTally tally callback next, m =>
      .deliverTally tally callback :: next.operations rules frame
        { m with toScene := callback.deliverTally rules tally m.toScene }
  | .report source error forked next, m =>
      .report source error forked ::
        next.operations rules frame (m.report rules source error forked)
  | .attach tracer next, m =>
      .attach tracer :: (next m.tracer.isNone).operations rules frame
        (if m.tracer.isSome then m else { m with tracer := some tracer })
  | .detach next, m =>
      .detach :: (next m.tracer).operations rules frame { m with tracer := none }
  | .look next, m =>
      (next ⟨frame, m.heap.recorded frame.slot, m.tracer.isSome, m.limits⟩).operations
        rules frame m
  | .newTally next, m =>
      .newTally :: (next m.heap.newTally.1).operations rules frame
        { m with heap := m.heap.newTally.2 }
  | .newCell next, m =>
      .newCell :: (next m.heap.newCell.1).operations rules frame
        { m with heap := m.heap.newCell.2 }
  | .collect cell source next, m =>
      .collect cell source ::
        next.operations rules frame { m with heap := m.heap.collect cell source }
  | .update change next, m =>
      .update change :: next.operations rules frame { m with setting := change m.setting }
  | .consult next, m => (next m.setting).operations rules frame m

namespace Machine

open Operation

def redirectOperations (rules : Rules V) (issuer : Source V)
    (produce : Source V → V.Setting → Except CommandError (List (Source V))) (forked : Bool) :
    List (Source V) → Array (Source V) → Machine V → List (Operation V)
  | [], _, _ => []
  | source :: rest, done, m =>
      match produce source m.setting with
      | .ok produced =>
          let done := done ++ produced
          if m.limits.forks < done.size then
            [.report issuer (.forkLimitReached m.limits.forks) forked]
          else redirectOperations rules issuer produce forked rest done m
      | .error error =>
          .report source error forked ::
            if forked then
              redirectOperations rules issuer produce forked rest done
                (m.report rules source error forked)
            else []

def actOperations (rules : Rules V) (frame : Frame V) (action : V.Action) (chain : Chain V)
    (flags : Flags) (source : Source V) (m : Machine V) : List (Operation V) :=
  let procedure := rules.act action source chain flags
  procedure.operations rules frame m ++
    match (procedure.run rules frame m).1 with
    | .ok () => []
    | .error error =>
        [.report source error flags.forked, .deliver source.callback Outcome.failure,
          .record frame Outcome.failure]

def actAllOperations (rules : Rules V) (frame : Frame V) (action : V.Action) (chain : Chain V)
    (flags : Flags) : List (Source V) → Machine V → List (Operation V)
  | [], _ => []
  | source :: rest, m =>
      let own := actOperations rules frame action chain flags source m
      own ++ actAllOperations rules frame action chain flags rest (applyAll rules own m)

def leavesOperations (frame : Frame V) (line : LeafLine V) :
    List (Source V) → List (Operation V)
  | [] => []
  | [a] => [.queue ⟨frame, .execute line a⟩]
  | [a, b] => [.queue ⟨frame, .execute line a⟩, .queue ⟨frame, .execute line b⟩]
  | sources => [.queue ⟨frame, .drip line sources⟩]

theorem forall_leavesOperations {frame : Frame V} {line : LeafLine V} {sources : List (Source V)}
    {P : Operation V → Prop}
    (execute : ∀ source ∈ sources, P (.queue ⟨frame, .execute line source⟩))
    (drip : P (.queue ⟨frame, .drip line sources⟩)) :
    ∀ operation ∈ leavesOperations frame line sources, P operation := by
  unfold leavesOperations
  split
  · simp
  · simpa using execute
  · simpa using execute
  · simpa using drip

theorem forall_actAllOperations {rules : Rules V} {frame : Frame V} {action : V.Action}
    {chain : Chain V} {flags : Flags} {sources : List (Source V)} {m : Machine V}
    {P : Operation V → Prop}
    (acts : ∀ source ∈ sources, ∀ before, ∀ operation ∈
      (rules.act action source chain flags).operations rules frame (applyAll rules before m),
      P operation)
    (refused : ∀ source ∈ sources, ∀ before error,
      ((rules.act action source chain flags).run rules frame (applyAll rules before m)).1 =
        .error error →
      P (.report source error flags.forked) ∧ P (.deliver source.callback Outcome.failure) ∧
        P (.record frame Outcome.failure)) :
    ∀ operation ∈ actAllOperations rules frame action chain flags sources m, P operation := by
  induction sources generalizing m with
  | nil => exact fun _ member => absurd member List.not_mem_nil
  | cons source rest ih =>
    unfold actAllOperations actOperations
    refine List.forall_mem_append.mpr ⟨List.forall_mem_append.mpr ⟨?_, ?_⟩, ih ?_ ?_⟩
    · exact acts source List.mem_cons_self []
    · split
      · exact fun _ member => absurd member List.not_mem_nil
      · next error failed =>
        obtain ⟨report, deliver, record⟩ := refused source List.mem_cons_self [] error failed
        simp [report, deliver, record]
    · intro other among before
      rw [← applyAll_append]
      exact acts other (List.mem_cons_of_mem source among) _
    · intro other among before
      rw [← applyAll_append]
      exact refused other (List.mem_cons_of_mem source among) _

def finishOperations (rules : Rules V) (frame : Frame V) (chain : Chain V) (flags : Flags)
    (sources : List (Source V)) (m : Machine V) : List (Operation V) :=
  if sources.isEmpty then
    if flags.isReturn then [.queue ⟨frame, .fallthrough⟩] else []
  else
    match chain.executable with
    | .leaf leaf =>
        leavesOperations frame ⟨leaf, chain.input, flags⟩
          (if flags.isReturn then sources.take 1 else sources)
    | .action action => actAllOperations rules frame action chain flags sources m

def gateOperations (rules : Rules V) (frame : Frame V) (gate : V.Gate) (issuer : Source V)
    (sources : List (Source V)) (here : Chain V) (flags : Flags) (m : Machine V) :
    List (Operation V) :=
  let procedure := rules.gate gate issuer sources here flags
  procedure.operations rules frame m ++
    match (procedure.run rules frame m).1 with
    | .ok () => []
    | .error error => [.report issuer error flags.forked]

def walkOperations (rules : Rules V) (frame : Frame V) (issuer : Source V) (chain : Chain V) :
    List (Modifier V) → Flags → List (Source V) → Machine V → List (Operation V)
  | [], flags, sources, m =>
      finishOperations rules frame { chain with modifiers := [] } flags sources m
  | modifier :: rest, flags, sources, m =>
      let flags := flags.union modifier.flags
      let through (produce : Source V → V.Setting → Except CommandError (List (Source V))) :=
        redirectOperations rules issuer produce flags.forked sources #[] m ++
          match m.redirectAll rules issuer produce flags.forked sources #[] with
          | (some sources, m) => walkOperations rules frame issuer chain rest flags sources m
          | (none, _) => []
      match modifier.action with
      | .keep => through fun source _ => .ok [source]
      | .redirect redirect => through (rules.redirect redirect)
      | .gate gate =>
          gateOperations rules frame gate issuer sources
            { chain with modifiers := modifier :: rest } flags m

def leafOperations (rules : Rules V) (frame : Frame V) (line : LeafLine V) (source : Source V)
    (m : Machine V) : List (Operation V) :=
  let finish (outcome : Outcome) : List (Operation V) :=
    [.deliver source.callback outcome, .record frame outcome] ++
      if line.flags.isReturn then [.returnFrom frame outcome] else []
  [.charge, .update fun setting => (rules.leaf line.leaf source setting).2] ++
    match (rules.leaf line.leaf source m.setting).1 with
    | .ok value => .trace (.returned frame.depth line.input value) :: finish (Outcome.ok value)
    | .error error =>
        .report source error line.flags.forked ::
          .trace (.returned frame.depth line.input 0) :: finish Outcome.failure

def dripOperations (frame : Frame V) (line : LeafLine V) : List (Source V) → List (Operation V)
  | [] => []
  | source :: rest =>
      .queue ⟨frame, .execute line source⟩ ::
        if rest.isEmpty then [] else [.queue ⟨frame, .drip line rest⟩]

def operations (rules : Rules V) (frame : Frame V) (task : Task V) (m : Machine V) :
    List (Operation V) :=
  match task with
  | .line issuer sources chain flags topLevel =>
      let opening := (if topLevel then [.trace (.command frame.depth chain.input)] else []) ++
        match sources with
        | .ready _ => []
        | .collected cell => [.emptyCell cell]
      let present :=
        ((if topLevel then m.trace rules (.command frame.depth chain.input) else m).takeSources
          sources).1
      opening ++ walkOperations rules frame issuer chain chain.modifiers flags present
        (applyAll rules opening m)
  | .execute line source => leafOperations rules frame line source m
  | .drip line sources => dripOperations frame line sources
  | .call function callback returnCall source =>
      let callee := frame.child callback (if returnCall then some frame.boundary else none)
        m.heap.slots.size
      [.charge, .trace (.call frame.depth function.id function.lines.length), .newSlot] ++
        function.lines.map (fun line => .queue ⟨callee, Task.command line source⟩) ++
        [.queue ⟨callee, .endFunction⟩]
  | .endFunction =>
      match m.heap.recorded frame.slot with
      | some outcome => [.returnFrom frame outcome]
      | none => []
  | .isolated producer output =>
      .newSlot :: producer.operations rules (frame.child output none m.heap.slots.size)
        m.newSlot.2
  | .fallthrough => [.returnFrom frame Outcome.failure]
  | .deferred procedure => procedure.operations rules frame m

/-! The operations are all that happens. -/

end Machine

theorem Procedure.applyAll_operations (rules : Rules V) (frame : Frame V)
    (procedure : Procedure V (Task V) α) (m : Machine V) :
    Operation.applyAll rules (procedure.operations rules frame m) m =
      (procedure.run rules frame m).2 := by
  induction procedure generalizing m with
  | done value => rfl
  | fail error => rfl
  | queue task next ih => exact ih _
  | returnWith outcome next ih => exact ih _
  | record outcome next ih => exact ih _
  | deliver callback outcome next ih => exact ih _
  | deliverTally tally callback next ih => exact ih _
  | report source error forked next ih => exact ih _
  | attach tracer next ih =>
    unfold Procedure.operations Procedure.run Machine.attach
    cases h : m.tracer with
    | none => simp [Operation.apply, h, ih]
    | some attached => simp [Operation.apply, h, ih]
  | detach next ih => exact ih _ _
  | look next ih => exact ih _ _
  | newTally next ih => exact ih _ _
  | newCell next ih => exact ih _ _
  | collect cell source next ih => exact ih _
  | update change next ih => exact ih _
  | consult next ih => exact ih _ _

namespace Machine

open Operation

theorem applyAll_redirectOperations (rules : Rules V) (issuer : Source V)
    (produce : Source V → V.Setting → Except CommandError (List (Source V))) (forked : Bool)
    (sources : List (Source V)) (done : Array (Source V)) (m : Machine V) :
    applyAll rules (redirectOperations rules issuer produce forked sources done m) m =
      (m.redirectAll rules issuer produce forked sources done).2 := by
  induction sources generalizing done m with
  | nil => rfl
  | cons source rest ih =>
    unfold redirectOperations redirectAll
    cases produce source m.setting with
    | ok produced =>
      dsimp only
      split
      · rfl
      · exact ih _ _
    | error error =>
      dsimp only
      rw [applyAll_cons]
      cases forked with
      | true => exact ih _ _
      | false => rfl

theorem applyAll_actOperations (rules : Rules V) (frame : Frame V) (action : V.Action)
    (chain : Chain V) (flags : Flags) (source : Source V) (m : Machine V) :
    applyAll rules (actOperations rules frame action chain flags source m) m =
      m.actForEach rules frame action chain flags [source] := by
  unfold actOperations actForEach
  rw [applyAll_append, Procedure.applyAll_operations, List.foldl_cons, List.foldl_nil]
  cases h : (rules.act action source chain flags).run rules frame m with
  | mk result after =>
    cases result with
    | ok value => rfl
    | error error => rfl

theorem applyAll_actAllOperations (rules : Rules V) (frame : Frame V) (action : V.Action)
    (chain : Chain V) (flags : Flags) (sources : List (Source V)) (m : Machine V) :
    applyAll rules (actAllOperations rules frame action chain flags sources m) m =
      m.actForEach rules frame action chain flags sources := by
  induction sources generalizing m with
  | nil => rfl
  | cons source rest ih =>
    unfold actAllOperations
    rw [applyAll_append, ih, applyAll_actOperations]
    rfl

theorem applyAll_leavesOperations (rules : Rules V) (frame : Frame V) (line : LeafLine V)
    (sources : List (Source V)) (m : Machine V) :
    applyAll rules (leavesOperations frame line sources) m = m.queueLeaves frame line sources := by
  match sources with
  | [] => rfl
  | [_] => rfl
  | [_, _] => rfl
  | _ :: _ :: _ :: _ => rfl

theorem applyAll_finishOperations (rules : Rules V) (frame : Frame V) (chain : Chain V)
    (flags : Flags) (sources : List (Source V)) (m : Machine V) :
    applyAll rules (finishOperations rules frame chain flags sources m) m =
      m.finishLine rules frame chain flags sources := by
  unfold finishOperations finishLine
  split
  · split <;> rfl
  · cases chain.executable with
    | leaf leaf => exact applyAll_leavesOperations rules frame _ _ m
    | action action => exact applyAll_actAllOperations rules frame action chain flags sources m

theorem applyAll_gateOperations (rules : Rules V) (frame : Frame V) (gate : V.Gate)
    (issuer : Source V) (sources : List (Source V)) (here : Chain V) (flags : Flags)
    (m : Machine V) :
    applyAll rules (gateOperations rules frame gate issuer sources here flags m) m =
      match (rules.gate gate issuer sources here flags).run rules frame m with
      | (.ok (), m) => m
      | (.error error, m) => m.report rules issuer error flags.forked := by
  unfold gateOperations
  rw [applyAll_append, Procedure.applyAll_operations]
  cases h : (rules.gate gate issuer sources here flags).run rules frame m with
  | mk result after =>
    cases result with
    | ok value => rfl
    | error error => rfl

theorem applyAll_walkOperations (rules : Rules V) (frame : Frame V) (issuer : Source V)
    (chain : Chain V) (modifiers : List (Modifier V)) (flags : Flags)
    (sources : List (Source V)) (m : Machine V) :
    applyAll rules (walkOperations rules frame issuer chain modifiers flags sources m) m =
      m.walk rules frame issuer chain modifiers flags sources := by
  induction modifiers generalizing flags sources m with
  | nil => exact applyAll_finishOperations rules frame _ flags sources m
  | cons modifier rest ih =>
    have through (produce : Source V → V.Setting → Except CommandError (List (Source V)))
        (forked : Bool) (flags : Flags) :
        applyAll rules (redirectOperations rules issuer produce forked sources #[] m ++
          match m.redirectAll rules issuer produce forked sources #[] with
          | (some sources, m) => walkOperations rules frame issuer chain rest flags sources m
          | (none, _) => []) m =
        match m.redirectAll rules issuer produce forked sources #[] with
        | (some sources, m) => m.walk rules frame issuer chain rest flags sources
        | (none, m) => m := by
      rw [applyAll_append, applyAll_redirectOperations]
      cases m.redirectAll rules issuer produce forked sources #[] with
      | mk passed after =>
        cases passed with
        | none => rfl
        | some passed => exact ih flags passed after
    unfold walkOperations walk
    cases modifier.action with
    | keep => exact through _ _ _
    | redirect redirect => exact through _ _ _
    | gate gate => exact applyAll_gateOperations rules frame gate issuer sources _ _ m

theorem applyAll_leafOperations (rules : Rules V) (frame : Frame V) (line : LeafLine V)
    (source : Source V) (m : Machine V) :
    applyAll rules (leafOperations rules frame line source m) m =
      m.runLeaf rules frame line source := by
  unfold leafOperations runLeaf
  cases h : rules.leaf line.leaf source m.setting with
  | mk result setting =>
    cases result with
    | ok value => cases line.flags.isReturn <;> simp [apply, charge, h]
    | error error => cases line.flags.isReturn <;> simp [apply, charge, h]

/-- A task does what its operations do, and nothing else. -/
theorem applyAll_operations (rules : Rules V) (frame : Frame V) (task : Task V) (m : Machine V) :
    applyAll rules (m.operations rules frame task) m = m.perform rules frame task := by
  cases task with
  | line issuer sources chain flags topLevel =>
    unfold operations perform runLine
    dsimp only
    rw [applyAll_append, applyAll_walkOperations]
    cases topLevel <;> cases sources <;> rfl
  | execute line source => exact applyAll_leafOperations rules frame line source m
  | drip line sources =>
    cases sources with
    | nil => rfl
    | cons source rest => cases rest <;> rfl
  | call function callback returnCall source =>
    unfold operations perform runCall applyAll
    simp only [List.foldl_append, List.foldl_map, List.foldl_cons, List.foldl_nil]
    have slots : (m.charge.trace rules
        (.call frame.depth function.id function.lines.length)).heap = m.heap := by
      unfold trace
      cases m.charge.tracer <;> rfl
    simp only [apply, newSlot, Heap.newSlot, slots, queueIn]
  | endFunction =>
    unfold operations perform
    cases m.heap.recorded frame.slot <;> rfl
  | isolated producer output =>
    exact Procedure.applyAll_operations rules _ producer m.newSlot.2
  | fallthrough => rfl
  | deferred procedure => exact Procedure.applyAll_operations rules frame procedure m

end Machine

end PackEngine
