import PackEngine.Proofs.Arrivals
import PackEngine.Proofs.Records

/-! How tracers are attached and taken off. A line with a debug command attaches one where there is
none, and queues the end of the trace behind its calls. Only that end takes the tracer off; all
other tasks are steady. -/
namespace PackEngine

open Machine

variable {pack : Pack} {frame : Frame packWords}

structure Operation.Mild (operation : Operation packWords) : Prop where
  mundane : operation.Mundane
  steady : operation.Steady
  eventless : ∀ event, operation ≠ .trace event

namespace DebugTrace

variable (trace : DebugTrace)

variable {trace} in
theorem frame_of_mem_calls {entry : Entry packWords} (member : entry ∈ trace.calls) :
    entry.frame = trace.frame := by
  obtain ⟨_, rfl⟩ | ⟨_, rfl⟩ := mem_calls member <;> rfl

theorem steady_calls : ∀ entry ∈ trace.calls, entry.task.Steady := by
  intro entry member
  obtain ⟨text, rfl⟩ | ⟨function, rfl⟩ := mem_calls member
  · exact fun w => w.adds_nothing _ rfl
  · trivial

theorem steady_tracing : ∀ operation ∈ trace.functions.flatMap trace.tracing,
    operation.Steady ∧ ∀ tracer, operation.records tracer = [] := by
  intro operation member
  obtain ⟨function, among, member⟩ := List.mem_flatMap.mp member
  obtain ⟨text, rfl⟩ | ⟨entry, queued, rfl⟩ := mem_tracing member
  · exact ⟨fun w => trace.source.persona.adds_sendFailure text w, fun _ => rfl⟩
  · exact ⟨trace.steady_calls entry (List.mem_flatMap.mpr ⟨function, among, queued⟩),
      fun _ => rfl⟩

theorem queuedIn_tracing (function : FunctionRef packWords) :
    Operation.queuedIn (trace.tracing function) = trace.callsOf function := by
  unfold tracing callsOf
  cases function.bind none <;> rfl

theorem queuedIn_opening : Operation.queuedIn trace.opening = trace.calls ++ [trace.closing] := by
  have each (functions : List (FunctionRef packWords)) :
      Operation.queuedIn (functions.flatMap trace.tracing) = functions.flatMap trace.callsOf := by
    induction functions with
    | nil => rfl
    | cons function rest ih =>
      rw [List.flatMap_cons, List.flatMap_cons, Operation.queuedIn_append, queuedIn_tracing, ih]
  unfold opening calls
  rw [Operation.queuedIn_append, Operation.queuedIn_append, each]
  rfl

theorem returnsIn_opening : returnsIn trace.opening = [] := by
  refine returnsIn_eq_nil fun frame outcome member => ?_
  obtain same | same | member | same := mem_opening member
  · cases same
  · cases same
  · obtain ⟨function, _, member⟩ := List.mem_flatMap.mp member
    obtain ⟨_, same⟩ | ⟨_, _, same⟩ := mem_tracing member <;> cases same
  · cases same

theorem applyAll_opening (pack : Pack) {m : Machine packWords} (free : m.tracer = none) :
    (Operation.applyAll (packRules pack) trace.opening m).tracer = some (.opened trace.index) ∧
      m.setting.Adds [] (Operation.applyAll (packRules pack) trace.opening m).setting ∧
      m.setting.traces <
        (Operation.applyAll (packRules pack) trace.opening m).setting.traces := by
  let attached : Machine packWords := { m with
    setting := m.setting.add (.traceOpened trace.index), tracer := some (.opened trace.index) }
  have begins : Operation.applyAll (packRules pack) [.update (World.add (.traceOpened trace.index)),
      .attach (.opened trace.index)] m = attached := by
    simp [Operation.apply, free, attached]
  obtain ⟨kept, told⟩ := Operation.steady_applyAll pack
    (fun operation member => (trace.steady_tracing operation member).1) attached
  have silent : (trace.functions.flatMap trace.tracing).flatMap
      (Operation.records attached.tracer) = [] :=
    List.flatMap_eq_nil_iff.mpr fun operation member =>
      (trace.steady_tracing operation member).2 _
  rw [silent] at told
  have added : m.setting.Adds [] attached.setting :=
    m.setting.adds_nothing (.traceOpened trace.index) rfl
  have more : m.setting.traces < attached.setting.traces := Nat.lt_succ_self _
  unfold opening
  rw [Operation.applyAll_append, Operation.applyAll_append, begins]
  simp only [Operation.applyAll_cons, Operation.applyAll_nil, Operation.apply]
  rw [enqueue_tracer, enqueue_toScene]
  exact ⟨kept, added.trans told, Nat.lt_of_lt_of_le more told.traces⟩

/-- The operations open the trace where no tracer is attached, behind some that are of no
consequence for the waiting work, and before some that are of no consequence at all. -/
structure OpensIn (pack : Pack) (m : Machine packWords) (operations : List (Operation packWords)) :
    Prop where
  free : m.tracer = none
  split : ∃ before after, operations = before ++ trace.opening ++ after ∧
    (∀ operation ∈ before, operation.Mundane ∧ operation.Steady) ∧
    (∀ operation ∈ after, operation.Mild) ∧
    trace.index = (Operation.applyAll (packRules pack) before m).setting.traces

variable {trace} in
theorem OpensIn.behind {first operations : List (Operation packWords)} {m : Machine packWords}
    (quiet : ∀ operation ∈ first, operation.Mundane ∧ operation.Steady)
    (h : trace.OpensIn pack (Operation.applyAll (packRules pack) first m) operations) :
    trace.OpensIn pack m (first ++ operations) := by
  have kept := (Operation.steady_applyAll pack
    (fun operation member => (quiet operation member).2) m).1
  obtain ⟨before, after, split, early, late, index⟩ := h.split
  refine ⟨kept.symm.trans h.free, first ++ before, after, ?_, fun operation member => ?_, late, ?_⟩
  · rw [split, List.append_assoc, List.append_assoc, List.append_assoc]
  · cases List.mem_append.mp member with
    | inl member => exact quiet operation member
    | inr member => exact early operation member
  · rw [Operation.applyAll_append]
    exact index

end DebugTrace

variable (pack frame) in
theorem actAllOperations_debug (target : String) (acted : Chain packWords) (flags : Flags)
    (sources : List PackSource) (m : Machine packWords) :
    (∀ operation ∈ actAllOperations (packRules pack) frame (.debug target) acted flags sources m,
        operation.Mild) ∨
      ∃ trace : DebugTrace, trace.frame = frame ∧
        pack.library.resolve target = .ok trace.functions ∧ trace.OpensIn pack m
          (actAllOperations (packRules pack) frame (.debug target) acted flags sources m) := by
  induction sources generalizing m with
  | nil => exact .inl fun _ member => absurd member List.not_mem_nil
  | cons source rest ih =>
    unfold actAllOperations
    dsimp only
    have acts : (packRules pack).act (.debug target) source acted flags =
      debugTrace pack target source flags := rfl
    obtain ⟨tells, _⟩ | ⟨free, accepted, trace, sameFrame, sameIndex, _, resolves, opens⟩ :=
      debugTrace_operations pack frame target source flags m
    · have own : ∀ operation ∈ actOperations (packRules pack) frame (.debug target) acted flags
          source m, operation.Mild := by
        unfold actOperations
        rw [acts]
        intro operation member
        cases List.mem_append.mp member with
        | inl member =>
          obtain ⟨text, rfl⟩ := tells operation member
          exact ⟨trivial, fun w => source.persona.adds_sendFailure text w,
            fun _ same => by cases same⟩
        | inr member =>
          split at member
          · cases member
          · simp only [List.mem_cons, List.not_mem_nil, or_false] at member
            obtain rfl | rfl | rfl := member <;>
              exact ⟨trivial, trivial, fun _ same => by cases same⟩
      obtain others | ⟨trace, same, resolves, opens⟩ := ih (Operation.applyAll (packRules pack)
        (actOperations (packRules pack) frame (.debug target) acted flags source m) m)
      · refine .inl fun operation member => ?_
        cases List.mem_append.mp member with
        | inl member => exact own operation member
        | inr member => exact others operation member
      · exact .inr ⟨trace, same, resolves, opens.behind fun operation member =>
          ⟨(own operation member).mundane, (own operation member).steady⟩⟩
    · have own : actOperations (packRules pack) frame (.debug target) acted flags source m =
          trace.opening := by
        unfold actOperations
        dsimp only
        rw [acts, opens, accepted]
        exact List.append_nil _
      rw [own]
      obtain ⟨attached, _⟩ := trace.applyAll_opening pack free
      obtain others | ⟨_, _, _, again⟩ := ih (Operation.applyAll (packRules pack) trace.opening m)
      · exact .inr ⟨trace, sameFrame, resolves, free, [], _, rfl,
          fun _ member => absurd member List.not_mem_nil, others, sameIndex⟩
      · cases attached.symm.trans again.free

theorem actAllOperations_steady {action : CallAction} (other : ∀ target, action ≠ .debug target)
    (acted : Chain packWords) (flags : Flags) (sources : List PackSource) (m : Machine packWords) :
    ∀ operation ∈ actAllOperations (packRules pack) frame action acted flags sources m,
      operation.Steady := by
  refine forall_actAllOperations (fun source _ _ operation member => ?_)
    fun _ _ _ _ _ => ⟨trivial, trivial, trivial⟩
  cases action.moves operation member with
  | tell => exact fun w => source.persona.adds_sendSuccess _ w
  | opened target => exact absurd rfl (other target)
  | attach target => exact absurd rfl (other target)
  | failed target => exact absurd rfl (other target)
  | heading target => exact absurd rfl (other target)
  | tracedCall target => exact absurd rfl (other target)
  | closing target => exact absurd rfl (other target)
  | _ => trivial

theorem leavesOperations_steady (line : LeafLine packWords) (sources : List PackSource) :
    ∀ operation ∈ leavesOperations frame line sources, operation.Steady :=
  forall_leavesOperations (fun _ _ => trivial) trivial

theorem gateOperations_steady (condition : Condition) (issuer : PackSource)
    (chain : Chain packWords) (modifier : Modifier packWords) (rest : List (Modifier packWords))
    (flags : Flags) (sources : List PackSource) (m : Machine packWords) :
    ∀ operation ∈ gateOperations (packRules pack) frame condition issuer sources
      { chain with modifiers := modifier :: rest } flags m, operation.Steady := by
  intro operation member
  by_cases bounds : ∃ functions bound, pack.library.resolve condition.target = .ok functions ∧
      FunctionRef.instantiateAll none functions = .ok bound
  · obtain ⟨functions, bound, resolves, binds⟩ := bounds
    rw [gateOperations_bound resolves binds] at member
    simp only [List.cons_append, List.mem_cons, List.mem_append, List.mem_map,
      List.not_mem_nil, or_false] at member
    obtain rfl | ⟨source, _, rfl⟩ | rfl := member
    · trivial
    · trivial
    · trivial
  · obtain ⟨error, refused⟩ := gateOperations_refused frame issuer chain modifier rest
      (fun functions bound resolves binds => bounds ⟨functions, bound, resolves, binds⟩) sources
      flags m
    rw [refused] at member
    rw [List.mem_singleton.mp member]
    trivial

variable (pack frame) in
theorem lineOperations_turn (issuer : PackSource) (sources : Sources packWords)
    (chain : Chain packWords) (flags : Flags) (topLevel : Bool) (m : Machine packWords) :
    (∀ operation ∈ m.operations (packRules pack) frame (.line issuer sources chain flags topLevel),
        operation.Steady) ∨
      ∃ target, chain.executable = .action (.debug target) ∧
        ∃ trace : DebugTrace, trace.frame = frame ∧
          pack.library.resolve target = .ok trace.functions ∧ trace.OpensIn pack m
            (m.operations (packRules pack) frame (.line issuer sources chain flags topLevel)) := by
  obtain ⟨opening, same, opens, arrives, _⟩ := lineOperations_reach frame
    (packRules pack).redirectsKeep_true issuer trivial sources chain flags topLevel m
    fun _ _ => trivial
  have quiet : ∀ operation ∈ opening, operation.Mundane ∧ operation.Steady := by
    intro operation member
    refine ⟨(opens operation member).mundane, ?_⟩
    obtain ⟨event, rfl⟩ | ⟨cell, _, rfl⟩ | ⟨_, _, _, _, rfl⟩ := opens operation member <;> trivial
  rw [same]
  have steady {later : List (Operation packWords)}
      (rest : ∀ operation ∈ later, operation.Steady) :
      ∀ operation ∈ opening ++ later, operation.Steady := by
    intro operation member
    cases List.mem_append.mp member with
    | inl member => exact (quiet operation member).2
    | inr member => exact rest operation member
  have nothing : ∀ operation ∈ ([] : List (Operation packWords)), operation.Steady :=
    fun _ member => absurd member List.not_mem_nil
  generalize m.reach (packRules pack) frame issuer sources chain flags topLevel = reached at *
  obtain ⟨arrival, later⟩ := reached
  cases arrival with
  | none => exact .inl (steady nothing)
  | some arrival =>
    obtain ⟨ahead, marked, present⟩ := arrival
    cases ahead with
    | cons modifier rest =>
      refine .inl (steady ?_)
      simp only [arrivalOperations]
      cases modifier.action with
      | gate condition => exact gateOperations_steady condition issuer chain modifier rest _ _ _
      | keep => exact nothing
      | redirect redirect => exact nothing
    | nil =>
      simp only [arrivalOperations]
      unfold finishOperations
      split
      · refine .inl (steady fun operation member => ?_)
        split at member
        · rw [List.mem_singleton.mp member]
          trivial
        · cases member
      · dsimp only
        cases chain.executable with
        | leaf leaf => exact .inl (steady (leavesOperations_steady _ _))
        | action action =>
          dsimp only
          by_cases debugs : ∃ target, action = .debug target
          · obtain ⟨target, rfl⟩ := debugs
            obtain mild | ⟨trace, own, resolves, attaches⟩ :=
              actAllOperations_debug pack frame target
                ⟨chain.input, [], .action (.debug target)⟩ marked present later
            · exact .inl (steady fun operation member => (mild operation member).steady)
            · refine .inr ⟨target, rfl, trace, own, resolves, .behind quiet ?_⟩
              exact arrives ▸ attaches
          · exact .inl (steady (actAllOperations_steady (fun target same => debugs ⟨target, same⟩)
              _ _ _ _))

theorem leafOperations_steady (line : LeafLine packWords) (source : PackSource)
    (m : Machine packWords) :
    ∀ operation ∈ leafOperations (packRules pack) frame line source m, operation.Steady := by
  obtain ⟨outcome, tracing, same, traces⟩ := leafOperations_eq (packRules pack) frame line source m
  rw [same]
  intro operation member
  simp only [List.mem_append, List.mem_cons, List.not_mem_nil, or_false] at member
  obtain (((rfl | rfl) | member) | rfl | rfl) | member := member
  · trivial
  · exact fun w => LeafAction.adds_perform source w line.leaf
  · obtain ⟨_, rfl⟩ | ⟨_, _, rfl⟩ := traces operation member <;> trivial
  · trivial
  · trivial
  · split at member
    · rw [List.mem_singleton.mp member]
      trivial
    · cases member

theorem PackTask.steady {task : Task packWords} (h : PackTask task) (steady : task.Steady)
    (other : ∀ issuer sources chain flags topLevel,
      task ≠ .line issuer sources chain flags topLevel) (m : Machine packWords) :
    ∀ operation ∈ m.operations (packRules pack) frame task, operation.Steady := by
  cases h with
  | line issuer sources chain flags topLevel => exact absurd rfl (other _ _ _ _ _)
  | execute line source => exact leafOperations_steady line source m
  | drip line sources =>
    cases sources with
    | nil => exact fun _ member => absurd member List.not_mem_nil
    | cons source rest =>
      intro operation member
      obtain rfl | rfl := mem_dripOperations member <;> trivial
  | call function callback returnCall source =>
    intro operation member
    simp only [operations, List.mem_append, List.mem_cons, List.mem_map, List.not_mem_nil,
      or_false] at member
    obtain ((rfl | rfl | rfl) | ⟨line, _, rfl⟩) | rfl := member
    · trivial
    · trivial
    · trivial
    · trivial
    · trivial
  | endFunction =>
    intro operation member
    simp only [operations] at member
    split at member
    · rw [List.mem_singleton.mp member]
      trivial
    · cases member
  | condition bound callee output =>
    intro operation member
    simp only [operations, List.mem_cons] at member
    rw [conditionProducer_operations] at member
    simp only [List.mem_append, List.mem_map, List.mem_singleton] at member
    obtain rfl | ⟨function, _, rfl⟩ | rfl := member
    · trivial
    · trivial
    · trivial
  | fallthrough =>
    intro operation member
    rw [List.mem_singleton.mp member]
    trivial
  | total tally sink =>
    intro operation member
    rw [List.mem_singleton.mp member]
    trivial
  | heading index item =>
    intro operation member
    rw [List.mem_singleton.mp member]
    exact steady
  | closing index source text => exact steady.elim

end PackEngine
