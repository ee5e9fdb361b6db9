import PackEngine.Proofs.Openings
import PackEngine.Proofs.Tracers

/-! Traces that lines open. From the line's turn on its tracer stays attached, above all that waited
below the line, until the calls of the line are over; then the end of the trace takes it off. -/
namespace PackEngine

open Machine

variable {pack : Pack} {m : Machine packWords} {top : Entry packWords}
  {lower : List (Entry packWords)} {trace : DebugTrace}

namespace Machine

def turnEffects (rules : Rules packWords) (m : Machine packWords) : List Effect :=
  (m.step rules).setting.effectsSince m.setting.journal.size

structure Untraced (m : Machine packWords) : Prop where
  free : m.tracer = none
  steady : ∀ entry ∈ m.stack.entries, entry.task.Steady

/-- The trace's tracer is attached. Above the end of the trace wait calls of its line, and above
these, inside, what the calls before them have led to. -/
structure Traces (trace : DebugTrace) (lower : List (Entry packWords)) (m : Machine packWords) :
    Prop where
  attached : m.tracer = some (.opened trace.index)
  waits : ∃ inner waiting, m.stack.entries = inner ++ waiting ++ trace.closing :: lower ∧
    waiting <:+ trace.calls ∧ ∀ entry ∈ inner, trace.frame.Inside entry.frame ∧ entry.task.Steady
  below : ∀ entry ∈ lower, entry.task.Steady

theorem step_scene (rules : Rules packWords) (entries : m.stack.entries = top :: lower) :
    (m.step rules).tracer =
        (Operation.applyAll rules (m.turnOperations rules) (m.taking top lower)).tracer ∧
      (m.step rules).setting =
        (Operation.applyAll rules (m.turnOperations rules) (m.taking top lower)).setting := by
  rw [step_eq_applyAll rules entries]
  exact ⟨rfl, rfl⟩

theorem steady_step (entries : m.stack.entries = top :: lower)
    (steady : ∀ operation ∈ m.turnOperations (packRules pack), operation.Steady) :
    (m.step (packRules pack)).tracer = m.tracer ∧
      m.setting.Adds ((m.turnOperations (packRules pack)).flatMap (Operation.records m.tracer))
        (m.step (packRules pack)).setting := by
  obtain ⟨tracer, setting⟩ := step_scene (packRules pack) entries
  rw [tracer, setting]
  exact Operation.steady_applyAll pack steady (m.taking top lower)

/-- A turn is steady if its task is, unless it opens a trace where no tracer is attached. -/
theorem Reached.steady_turn (h : m.Reached (packRules pack) PackTask)
    (entries : m.stack.entries = top :: lower) (steady : top.task.Steady) :
    (∀ operation ∈ m.turnOperations (packRules pack), operation.Steady) ∨
      ∃ issuer sources chain flags topLevel target,
        top.task = .line issuer sources chain flags topLevel ∧
        chain.executable = .action (.debug target) ∧
        ∃ trace : DebugTrace, trace.frame = top.frame ∧
          pack.library.resolve target = .ok trace.functions ∧
          trace.OpensIn pack (m.taking top lower) (m.turnOperations (packRules pack)) := by
  rw [turnOperations_of_entries _ entries]
  by_cases line : ∃ issuer sources chain flags topLevel,
      top.task = .line issuer sources chain flags topLevel
  · obtain ⟨issuer, sources, chain, flags, topLevel, same⟩ := line
    rw [same]
    obtain steady | ⟨target, debugs, opens⟩ := lineOperations_turn pack top.frame
      issuer sources chain flags topLevel (m.taking top lower)
    · exact .inl steady
    · exact .inr ⟨issuer, sources, chain, flags, topLevel, target, rfl, debugs, opens⟩
  · exact .inl ((h.packTasks top (entries ▸ List.mem_cons_self)).steady steady
      (fun issuer sources chain flags topLevel same =>
        line ⟨issuer, sources, chain, flags, topLevel, same⟩) _)

theorem steady_of_mem_step (idle : m.pending = Stack.empty)
    (entries : m.stack.entries = top :: lower)
    (steady : ∀ operation ∈ m.turnOperations (packRules pack), operation.Steady)
    {entry : Entry packWords} (member : entry ∈ (m.step (packRules pack)).stack.entries) :
    entry ∈ lower ∨ entry.task.Steady := by
  cases mem_step idle entries member with
  | inl kept => exact .inl kept
  | inr queued => exact .inr (steady _ queued)

end Machine

theorem Operation.records_reported {operation : Operation packWords} {tracer : Option TracerId}
    (quiet : tracer = none ∨ operation.Mild) {record : Effect}
    (member : record ∈ operation.records tracer) :
    (∃ sender message forked, record = .reported sender message forked) ∨
      ∃ id message, tracer = some id ∧ record = .traced id (.event (.error message)) := by
  cases operation with
  | trace event =>
    obtain rfl | mild := quiet
    · cases member
    · exact absurd rfl (mild.eventless event)
  | report source error forked =>
    cases List.mem_append.mp member with
    | inr member => exact .inl ⟨_, _, _, List.mem_singleton.mp member⟩
    | inl member =>
      obtain ⟨id, attached, rfl⟩ := List.mem_map.mp member
      exact .inr ⟨id, _, Option.mem_toList.mp attached, rfl⟩
  | _ => cases member

theorem tracer_of_recorded {tracer : Option TracerId} {event : TraceEvent} {id : TracerId}
    {item : PrintItem} (told : .traced id item ∈ recorded tracer event) :
    tracer = some id ∧ item = .event event := by
  obtain ⟨other, attached, same⟩ := List.mem_map.mp told
  cases same
  exact ⟨Option.mem_toList.mp attached, rfl⟩

theorem Operation.tracer_of_records {operation : Operation packWords} {tracer : Option TracerId}
    {id : TracerId} {item : PrintItem} (told : .traced id item ∈ operation.records tracer) :
    tracer = some id ∧ ∃ event, item = .event event := by
  cases operation with
  | trace event => exact (tracer_of_recorded told).imp_right fun same => ⟨event, same⟩
  | report source error forked =>
    cases List.mem_append.mp told with
    | inl member => exact (tracer_of_recorded member).imp_right fun same => ⟨_, same⟩
    | inr member => cases List.mem_singleton.mp member
  | _ => cases told

theorem DebugTrace.OpensIn.step (idle : m.pending = Stack.empty)
    (entries : m.stack.entries = top :: lower)
    (opens : trace.OpensIn pack (m.taking top lower) (m.turnOperations (packRules pack))) :
    (m.step (packRules pack)).tracer = some (.opened trace.index) ∧
      m.setting.traces ≤ trace.index ∧
      trace.index < (m.step (packRules pack)).setting.traces ∧
      (∃ records, m.setting.Adds records (m.step (packRules pack)).setting ∧
        ∀ record ∈ records, (∃ sender message forked, record = .reported sender message forked) ∨
          ∃ message, record = .traced (.opened trace.index) (.event (.error message))) ∧
      ((m.step (packRules pack)).overflowed = false →
        (m.step (packRules pack)).stack.entries = trace.calls ++ trace.closing :: lower) := by
  obtain ⟨before, after, split, early, late, index⟩ := opens.split
  obtain ⟨tracer, setting⟩ := step_scene (packRules pack) entries
  obtain ⟨kept, told⟩ := Operation.steady_applyAll pack
    (fun operation member => (early operation member).2) (m.taking top lower)
  have free := kept.trans opens.free
  obtain ⟨attached, silent, fresh⟩ := trace.applyAll_opening pack free
  obtain ⟨stays, further⟩ := Operation.steady_applyAll pack
    (fun operation member => (late operation member).steady)
    (Operation.applyAll (packRules pack) trace.opening
      (Operation.applyAll (packRules pack) before (m.taking top lower)))
  rw [split, Operation.applyAll_append, Operation.applyAll_append] at tracer setting
  rw [tracer, setting]
  refine ⟨stays.trans attached, index ▸ told.traces, ?_,
    ⟨_, told.trans (silent.trans further), fun record member => ?_⟩, fun fine => ?_⟩
  · exact Nat.lt_of_lt_of_le (index ▸ fresh) further.traces
  · rw [opens.free, attached] at member
    simp only [List.nil_append, List.mem_append, List.mem_flatMap] at member
    obtain ⟨operation, _, member⟩ | ⟨operation, among, member⟩ := member
    · exact (operation.records_reported (.inl rfl) member).imp_right
        fun ⟨_, _, same, _⟩ => by cases same
    · refine (operation.records_reported (.inr (late operation among)) member).imp_right ?_
      rintro ⟨id, message, same, rfl⟩
      cases same
      exact ⟨message, rfl⟩
  · have never : returnsIn (m.turnOperations (packRules pack)) = [] := by
      rw [split, returnsIn_append, returnsIn_append, trace.returnsIn_opening,
        returnsIn_eq_nil fun _ _ member => (early _ member).1,
        returnsIn_eq_nil fun _ _ member => (late _ member).mundane]
      rfl
    have queues : Operation.queuedIn (m.turnOperations (packRules pack)) =
        trace.calls ++ [trace.closing] := by
      rw [split, Operation.queuedIn_append, Operation.queuedIn_append, trace.queuedIn_opening,
        Operation.queuedIn_eq_nil fun entry member => (early _ member).1,
        Operation.queuedIn_eq_nil fun entry member => (late _ member).mundane]
      simp
    rw [step_queued idle entries never fine, queues, List.append_assoc]
    rfl

namespace Machine

theorem Untraced.step (free : m.Untraced) (h : m.Reached (packRules pack) PackTask)
    (entries : m.stack.entries = top :: lower) :
    ((∀ operation ∈ m.turnOperations (packRules pack), operation.Steady) ∧
        (m.step (packRules pack)).Untraced) ∨
      ∃ issuer sources chain flags topLevel target,
        top.task = .line issuer sources chain flags topLevel ∧
        chain.executable = .action (.debug target) ∧
        ∃ trace : DebugTrace, trace.frame = top.frame ∧
          pack.library.resolve target = .ok trace.functions ∧
          trace.OpensIn pack (m.taking top lower) (m.turnOperations (packRules pack)) ∧
          ((m.step (packRules pack)).overflowed = false →
            (m.step (packRules pack)).Traces trace lower) := by
  have below : ∀ entry ∈ lower, entry.task.Steady :=
    fun entry member => free.steady entry (entries ▸ List.mem_cons_of_mem top member)
  obtain steady | ⟨issuer, sources, chain, flags, topLevel, target, line, debugs, trace, same,
    resolves, opens⟩ := h.steady_turn entries (free.steady top (entries ▸ List.mem_cons_self))
  · refine .inl ⟨steady, (steady_step entries steady).1.trans free.free, fun entry member => ?_⟩
    exact (steady_of_mem_step h.pending entries steady member).elim (below entry) id
  · refine .inr ⟨issuer, sources, chain, flags, topLevel, target, line, debugs, trace, same,
      resolves, opens, fun fine => ?_⟩
    obtain ⟨attached, _, _, _, waits⟩ := opens.step h.pending entries
    refine ⟨attached, ⟨[], trace.calls, waits fine, List.suffix_refl _, ?_⟩, below⟩
    exact fun _ member => absurd member List.not_mem_nil

theorem Traces.of_inside (h : m.Reached (packRules pack) PackTask) (traces : m.Traces trace lower)
    {inner waiting : List (Entry packWords)}
    (entries : m.stack.entries = top :: (inner ++ (waiting ++ trace.closing :: lower)))
    (suffix : waiting <:+ trace.calls)
    (inside : ∀ entry ∈ inner, trace.frame.Inside entry.frame ∧ entry.task.Steady)
    (outer : ∀ entry ∈ waiting ++ trace.closing :: lower, trace.frame.Precedes entry.frame)
    (working : trace.frame.Inside (top.task.workplace top.frame m.heap.slots.size))
    (steady : ∀ operation ∈ m.turnOperations (packRules pack), operation.Steady) :
    (m.step (packRules pack)).Traces trace lower := by
  obtain ⟨left, above, _⟩ := Over.performed entries h.pending outer
    (fun entry member => (inside entry member).1) working (packRules pack)
  refine ⟨(steady_step entries steady).1.trans traces.attached,
    ⟨left, waiting, above.entries.trans (List.append_assoc ..).symm, suffix,
      fun entry member => ?_⟩,
    traces.below⟩
  have within := above.inside entry member
  refine ⟨within, ?_⟩
  have among : entry ∈ (m.step (packRules pack)).stack.entries :=
    above.entries ▸ List.mem_append_left _ member
  obtain kept | made := steady_of_mem_step h.pending entries steady among
  · simp only [List.mem_append, List.mem_cons] at kept
    obtain kept | kept | rfl | kept := kept
    · exact (inside entry kept).2
    · exact trace.steady_calls entry (suffix.mem kept)
    · exact absurd (Nat.lt_of_lt_of_le within.deeper within.valid) (Nat.lt_irrefl _)
    · exact traces.below entry kept
  · exact made

/-- What the traced functions do is steady, and stays above the end of the trace. -/
theorem Traces.step (h : m.Reached (packRules pack) PackTask) (traces : m.Traces trace lower)
    (busy : m.stack.entries ≠ trace.closing :: lower) :
    (∃ top rest, m.stack.entries = top :: rest ∧
        (trace.frame.Inside top.frame ∨ top ∈ trace.calls)) ∧
      (∀ operation ∈ m.turnOperations (packRules pack), operation.Steady) ∧
      (m.step (packRules pack)).Traces trace lower := by
  obtain ⟨inner, waiting, entries, suffix, inside⟩ := traces.waits
  have beyond : ∀ entry ∈ waiting ++ trace.closing :: lower,
      trace.frame.Precedes entry.frame := by
    have ordered := h.ordered
    unfold Ordered at ordered
    rw [entries, List.append_assoc] at ordered
    have below := (List.pairwise_append.mp (List.pairwise_append.mp ordered).2.1).2.1
    intro entry member
    simp only [List.mem_append, List.mem_cons] at member
    obtain member | rfl | member := member
    · rw [DebugTrace.frame_of_mem_calls (suffix.mem member)]
      exact trace.frame.precedes_refl
    · exact trace.frame.precedes_refl
    · exact (List.pairwise_cons.mp below).1 entry member
  -- A tracer is attached, so no trace is opened.
  have steady {top : Entry packWords} {rest : List (Entry packWords)}
      (entries : m.stack.entries = top :: rest) (steady : top.task.Steady) :
      ∀ operation ∈ m.turnOperations (packRules pack), operation.Steady := by
    obtain steady | ⟨_, _, _, _, _, _, _, _, _, _, _, opens⟩ := h.steady_turn entries steady
    · exact steady
    · cases traces.attached.symm.trans opens.free
  cases inner with
  | cons top inner =>
    have own := inside top List.mem_cons_self
    have entries : m.stack.entries = top :: (inner ++ (waiting ++ trace.closing :: lower)) := by
      rw [entries]
      simp
    have works := steady entries own.2
    exact ⟨⟨top, _, entries, .inl own.1⟩, works, traces.of_inside h entries suffix
      (fun entry member => inside entry (List.mem_cons_of_mem top member)) beyond
      (own.1.workplace _ _) works⟩
  | nil =>
    cases waiting with
    | nil => exact absurd entries busy
    | cons top waiting =>
      have called : top ∈ trace.calls := suffix.mem List.mem_cons_self
      have works := steady entries (trace.steady_calls top called)
      have fewer : waiting <:+ trace.calls := (List.suffix_cons top waiting).trans suffix
      have beyond : ∀ entry ∈ waiting ++ trace.closing :: lower,
          trace.frame.Precedes entry.frame :=
        fun entry member => beyond entry (List.mem_cons_of_mem top member)
      refine ⟨⟨top, _, entries, .inr called⟩, works, ?_⟩
      obtain ⟨text, same⟩ | ⟨function, same⟩ := DebugTrace.mem_calls called
      · -- A heading queues nothing.
        have left : (m.step (packRules pack)).stack.entries =
            waiting ++ trace.closing :: lower := by
          have operations : m.turnOperations (packRules pack) = [.update (World.add
              (.traced (.opened trace.index) (.heading text)))] := by
            rw [turnOperations_of_entries _ entries, same]
            rfl
          rw [step_eq_applyAll _ entries, operations]
          simp [Operation.apply, pushPending, taking, h.pending, Stack.empty, Stack.reverse]
        exact ⟨(steady_step entries works).1.trans traces.attached, ⟨[], waiting, left, fewer,
          fun _ member => absurd member List.not_mem_nil⟩, traces.below⟩
      · have entries : m.stack.entries = top :: ([] ++ (waiting ++ trace.closing :: lower)) :=
          entries
        have opens : top.task.OpensInside := by
          rw [same]
          rfl
        have working := opens.workplace top.frame m.heap.slots.size
        have own := DebugTrace.frame_of_mem_calls called
        refine traces.of_inside h entries fewer (fun _ member => absurd member List.not_mem_nil)
          beyond ?_ works
        rw [own] at working ⊢
        exact working

variable (pack) in
theorem closing_step (entries : m.stack.entries = trace.closing :: lower)
    (idle : m.pending = Stack.empty) :
    m.turnOperations (packRules pack) = [.detach,
        .update (World.add (.traced (.opened trace.index) .flush)),
        .update (trace.source.persona.sendSuccess trace.summary)] ∧
      (m.step (packRules pack)).tracer = none ∧ (m.step (packRules pack)).stack.entries = lower ∧
      m.setting.Adds [.traced (.opened trace.index) .flush] (m.step (packRules pack)).setting := by
  have operations : m.turnOperations (packRules pack) = [.detach,
      .update (World.add (.traced (.opened trace.index) .flush)),
      .update (trace.source.persona.sendSuccess trace.summary)] := by
    rw [turnOperations_of_entries _ entries]
    rfl
  obtain ⟨tracer, setting⟩ := step_scene (packRules pack) entries
  rw [operations] at tracer setting
  refine ⟨operations, tracer, ?_, ?_⟩
  · rw [step_eq_applyAll _ entries, operations]
    simp [Operation.apply, pushPending, taking, idle, Stack.empty, Stack.reverse]
  · rw [setting]
    exact (World.adds_record m.setting _ rfl).trans (trace.source.persona.adds_sendSuccess _ _)

end Machine

end PackEngine
