import PackEngine.Proofs.Operation

/-! What the operations of a task can be. A line reports the sources it loses and then ends in one
of three ways; whatever a task queues, it queues in the one frame it works in. -/
namespace PackEngine

variable {V : Vocabulary}

/-- How a line ends its turn: it stops, a gate takes it over, or it reaches its executable. All
sources it still has satisfy `S`. -/
inductive LineEnd (rules : Rules V) (frame : Frame V) (issuer : Source V) (chain : Chain V)
    (S : Source V → Prop) (m : Machine V) : List (Operation V) → Prop where
  | stopped : LineEnd rules frame issuer chain S m []
  | gated {passed rest : List (Modifier V)} {modifier : Modifier V} {gate : V.Gate}
      (flags : Flags) {sources : List (Source V)}
      (place : chain.modifiers = passed ++ modifier :: rest)
      (gates : modifier.action = .gate gate) (fit : ∀ source ∈ sources, S source) :
      LineEnd rules frame issuer chain S m
        (Machine.gateOperations rules frame gate issuer sources
          { chain with modifiers := modifier :: rest } flags m)
  | finished (flags : Flags) {sources : List (Source V)} (fit : ∀ source ∈ sources, S source) :
      LineEnd rules frame issuer chain S m
        (Machine.finishOperations rules frame { chain with modifiers := [] } flags sources m)

def Rules.RedirectsKeep (rules : Rules V) (S : Source V → Prop) : Prop :=
  ∀ redirect source setting produced, S source →
    rules.redirect redirect source setting = .ok produced → ∀ other ∈ produced, S other

theorem Rules.redirectsKeep_true (rules : Rules V) : rules.RedirectsKeep fun _ => True :=
  fun _ _ _ _ _ _ _ _ => trivial

namespace Operation

def Reports (S : Source V → Prop) (operation : Operation V) : Prop :=
  ∃ source error forked, S source ∧ operation = .report source error forked

def Within (frame : Frame V) : Operation V → Prop
  | .queue entry => entry.frame = frame
  | .returnFrom other _ => other = frame
  | .record other _ => other = frame
  | _ => True

/-- What procedures ask for, and lines on their way: queues, returns and records in the frame, and
neither charges, nor traces, nor opens a frame, nor takes sources out of a cell. -/
def Asked (frame : Frame V) : Operation V → Prop
  | .queue entry => entry.frame = frame
  | .returnFrom other _ => other = frame
  | .record other _ => other = frame
  | .charge => False
  | .trace _ => False
  | .newSlot => False
  | .emptyCell _ => False
  | _ => True

theorem Asked.within {frame : Frame V} {operation : Operation V} (h : operation.Asked frame) :
    operation.Within frame := by
  cases operation with
  | queue entry => exact h
  | returnFrom other outcome => exact h
  | record other outcome => exact h
  | _ => trivial

end Operation

namespace Machine

variable {rules : Rules V} {frame : Frame V} {issuer : Source V} {S : Source V → Prop}

theorem redirectOperations_reports (forked : Bool)
    {produce : Source V → V.Setting → Except CommandError (List (Source V))}
    (keep : ∀ source setting produced, S source → produce source setting = .ok produced →
      ∀ other ∈ produced, S other) (issued : S issuer) {sources : List (Source V)}
    (fit : ∀ source ∈ sources, S source) {done : Array (Source V)}
    (doneFit : ∀ source ∈ done.toList, S source) (m : Machine V) :
    (∀ operation ∈ redirectOperations rules issuer produce forked sources done m,
      operation.Reports S) ∧
    ∀ passed, (m.redirectAll rules issuer produce forked sources done).1 = some passed →
      ∀ source ∈ passed, S source := by
  induction sources generalizing done m with
  | nil =>
    refine ⟨by simp [redirectOperations], fun passed h => ?_⟩
    cases Option.some.inj h
    exact doneFit
  | cons source rest ih =>
    have first := fit source List.mem_cons_self
    have others := fun other member => fit other (List.mem_cons_of_mem source member)
    unfold redirectOperations redirectAll
    cases produced : produce source m.setting with
    | ok more =>
      dsimp only
      have moreFit : ∀ other ∈ (done ++ more).toList, S other := by
        intro other member
        rw [Array.toList_appendList, List.mem_append] at member
        cases member with
        | inl member => exact doneFit other member
        | inr member => exact keep source m.setting more first produced other member
      split
      · refine ⟨fun operation member => ?_, by simp⟩
        exact ⟨issuer, _, forked, issued, List.mem_singleton.mp member⟩
      · exact ih others moreFit m
    | error error =>
      dsimp only
      cases forked with
      | true =>
        obtain ⟨reports, passed⟩ := ih others doneFit (m.report rules source error true)
        refine ⟨fun operation member => ?_, passed⟩
        cases List.mem_cons.mp member with
        | inl same => exact ⟨source, error, true, first, same⟩
        | inr member => exact reports operation member
      | false =>
        refine ⟨fun operation member => ?_, by simp⟩
        exact ⟨source, error, false, first, List.mem_singleton.mp member⟩

theorem redirectOperations_shape (frame : Frame V) {issuer : Source V} (issued : S issuer)
    {chain : Chain V} {produce : Source V → V.Setting → Except CommandError (List (Source V))}
    (keep : ∀ source setting produced, S source → produce source setting = .ok produced →
      ∀ other ∈ produced, S other) (forked : Bool)
    {sources : List (Source V)} (fit : ∀ source ∈ sources, S source) (m : Machine V)
    {walk : List (Source V) → Machine V → List (Operation V)}
    (walks : ∀ passed, (∀ source ∈ passed, S source) → ∀ later, ∃ reports ending,
      walk passed later = reports ++ ending ∧ (∀ operation ∈ reports, operation.Reports S) ∧
      LineEnd rules frame issuer chain S (Operation.applyAll rules reports later) ending) :
    ∃ reports ending,
      (redirectOperations rules issuer produce forked sources #[] m ++
        match m.redirectAll rules issuer produce forked sources #[] with
        | (some sources, m) => walk sources m
        | (none, _) => []) = reports ++ ending ∧
      (∀ operation ∈ reports, operation.Reports S) ∧
      LineEnd rules frame issuer chain S (Operation.applyAll rules reports m) ending := by
  obtain ⟨reports, outputs⟩ : (∀ operation ∈ redirectOperations rules issuer produce forked
      sources #[] m, operation.Reports S) ∧ _ :=
    redirectOperations_reports forked keep issued fit (by simp) m
  have after := applyAll_redirectOperations rules issuer produce forked sources #[] m
  cases result : m.redirectAll rules issuer produce forked sources #[] with
  | mk passed later =>
    rw [result] at outputs after
    cases passed with
    | none => exact ⟨_, [], rfl, reports, .stopped⟩
    | some passed =>
      obtain ⟨more, ending, same, moreReports, ends⟩ := walks passed (outputs passed rfl) later
      refine ⟨redirectOperations rules issuer produce forked sources #[] m ++ more, ending,
        ?_, ?_, ?_⟩
      · rw [List.append_assoc, ← same]
      · intro operation member
        cases List.mem_append.mp member with
        | inl member => exact reports operation member
        | inr member => exact moreReports operation member
      · rw [Operation.applyAll_append, after]
        exact ends

theorem walkOperations_shape (frame : Frame V) (closed : rules.RedirectsKeep S)
    (issuer : Source V) (issued : S issuer) {chain : Chain V} {passed modifiers : List (Modifier V)}
    (place : chain.modifiers = passed ++ modifiers) (flags : Flags)
    (sources : List (Source V)) (fit : ∀ source ∈ sources, S source) (m : Machine V) :
    ∃ reports ending,
      walkOperations rules frame issuer chain modifiers flags sources m = reports ++ ending ∧
      (∀ operation ∈ reports, operation.Reports S) ∧
      LineEnd rules frame issuer chain S (Operation.applyAll rules reports m) ending := by
  induction modifiers generalizing passed flags sources m with
  | nil => exact ⟨[], _, rfl, by simp, .finished flags fit⟩
  | cons modifier rest ih =>
    have further : chain.modifiers = (passed ++ [modifier]) ++ rest := by simp [place]
    unfold walkOperations
    cases action : modifier.action with
    | keep =>
      refine redirectOperations_shape frame issued ?_ _ fit m fun sources fit later =>
        ih further _ sources fit later
      intro source setting produced sourceFit same other member
      cases Except.ok.inj same
      rwa [List.mem_singleton.mp member]
    | redirect redirect =>
      exact redirectOperations_shape frame issued (closed redirect) _ fit m
        fun sources fit later => ih further _ sources fit later
    | gate gate => exact ⟨[], _, rfl, by simp, .gated _ place action fit⟩

end Machine

theorem Procedure.operations_asked (rules : Rules V) (frame : Frame V)
    (procedure : Procedure V (Task V) α) (m : Machine V) :
    ∀ operation ∈ procedure.operations rules frame m, operation.Asked frame := by
  induction procedure generalizing m with
  | done value => simp [Procedure.operations]
  | fail error => simp [Procedure.operations]
  | look next ih => exact ih _ _
  | consult next ih => exact ih _ _
  | attach tracer next ih =>
    simpa [Procedure.operations, Operation.Asked] using ih _ _
  | detach next ih => simpa [Procedure.operations, Operation.Asked] using ih _ _
  | newTally next ih => simpa [Procedure.operations, Operation.Asked] using ih _ _
  | newCell next ih => simpa [Procedure.operations, Operation.Asked] using ih _ _
  | queue task next ih => simpa [Procedure.operations, Operation.Asked] using ih _
  | returnWith outcome next ih => simpa [Procedure.operations, Operation.Asked] using ih _
  | record outcome next ih => simpa [Procedure.operations, Operation.Asked] using ih _
  | deliver callback outcome next ih =>
    simpa [Procedure.operations, Operation.Asked] using ih _
  | deliverTally tally callback next ih =>
    simpa [Procedure.operations, Operation.Asked] using ih _
  | report source error forked next ih =>
    simpa [Procedure.operations, Operation.Asked] using ih _
  | collect cell source next ih => simpa [Procedure.operations, Operation.Asked] using ih _
  | update change next ih => simpa [Procedure.operations, Operation.Asked] using ih _

/-- The frame a task works in. Calls and isolated procedures open one, with the next slot. -/
def Task.workplace (frame : Frame V) (slot : SlotId) : Task V → Frame V
  | .call _ callback returnCall _ =>
      frame.child callback (if returnCall then some frame.boundary else none) slot
  | .isolated _ output => frame.child output none slot
  | _ => frame

namespace Machine

variable {rules : Rules V} {frame : Frame V}

theorem actAllOperations_asked (action : V.Action) (chain : Chain V) (flags : Flags)
    (sources : List (Source V)) (m : Machine V) :
    ∀ operation ∈ actAllOperations rules frame action chain flags sources m,
      operation.Asked frame :=
  forall_actAllOperations (fun _ _ _ => Procedure.operations_asked rules frame _ _)
    fun _ _ _ _ _ => by simp [Operation.Asked]

theorem finishOperations_asked (chain : Chain V) (flags : Flags) (sources : List (Source V))
    (m : Machine V) :
    ∀ operation ∈ finishOperations rules frame chain flags sources m,
      operation.Asked frame := by
  unfold finishOperations
  split
  · split <;> simp [Operation.Asked]
  · cases chain.executable with
    | leaf leaf =>
      exact forall_leavesOperations (fun _ _ => rfl) rfl
    | action action => exact actAllOperations_asked action chain flags sources m

theorem gateOperations_asked (gate : V.Gate) (issuer : Source V) (sources : List (Source V))
    (here : Chain V) (flags : Flags) (m : Machine V) :
    ∀ operation ∈ gateOperations rules frame gate issuer sources here flags m,
      operation.Asked frame := by
  intro operation member
  unfold gateOperations at member
  rw [List.mem_append] at member
  cases member with
  | inl member => exact Procedure.operations_asked rules frame _ m operation member
  | inr member =>
    split at member
    · simp at member
    · rw [List.mem_singleton.mp member]
      trivial

theorem walkOperations_asked (issuer : Source V) (chain : Chain V) (flags : Flags)
    (sources : List (Source V)) (m : Machine V) :
    ∀ operation ∈ walkOperations rules frame issuer chain chain.modifiers flags sources m,
      operation.Asked frame := by
  obtain ⟨reports, ending, same, only, ends⟩ :=
    walkOperations_shape frame rules.redirectsKeep_true issuer trivial
      (List.nil_append chain.modifiers).symm flags sources (fun _ _ => trivial) m
  intro operation member
  rw [same, List.mem_append] at member
  cases member with
  | inl member =>
    obtain ⟨source, error, forked, _, rfl⟩ := only operation member
    trivial
  | inr member =>
    cases ends with
    | stopped => simp at member
    | gated flags => exact gateOperations_asked _ _ _ _ _ _ operation member
    | finished flags => exact finishOperations_asked _ _ _ _ operation member

theorem operations_within (rules : Rules V) (frame : Frame V) (task : Task V) (m : Machine V) :
    ∀ operation ∈ m.operations rules frame task,
      operation.Within (task.workplace frame m.heap.slots.size) := by
  cases task with
  | line issuer sources chain flags topLevel =>
    intro operation member
    simp only [operations, List.mem_append] at member
    obtain (member | member) | member := member
    · cases topLevel
      · simp at member
      · rw [List.mem_singleton.mp member]
        trivial
    · cases sources
      · simp at member
      · rw [List.mem_singleton.mp member]
        trivial
    · exact (walkOperations_asked issuer chain flags _ _ operation member).within
  | execute line source =>
    simp only [operations, leafOperations]
    cases (rules.leaf line.leaf source m.setting).1 <;> cases line.flags.isReturn <;>
      simp [Operation.Within, Task.workplace]
  | drip line sources =>
    cases sources with
    | nil => simp [operations, dripOperations]
    | cons source rest =>
      cases rest <;> simp [operations, dripOperations, Operation.Within, Task.workplace]
  | call function callback returnCall source =>
    intro operation member
    simp only [operations, List.mem_append, List.mem_cons, List.mem_map, List.not_mem_nil,
      or_false] at member
    obtain ((rfl | rfl | rfl) | ⟨line, _, rfl⟩) | rfl := member <;> trivial
  | endFunction =>
    unfold operations
    cases m.heap.recorded frame.slot <;> simp [Operation.Within, Task.workplace]
  | isolated producer output =>
    intro operation member
    cases List.mem_cons.mp member with
    | inl same =>
      rw [same]
      trivial
    | inr member =>
      exact (Procedure.operations_asked rules _ producer _ operation member).within
  | fallthrough => simp [operations, Operation.Within, Task.workplace]
  | deferred procedure =>
    exact fun operation member =>
      (Procedure.operations_asked rules frame procedure m operation member).within

theorem leafOperations_eq (rules : Rules V) (frame : Frame V) (line : LeafLine V)
    (source : Source V) (m : Machine V) :
    ∃ outcome tracing, leafOperations rules frame line source m =
      [.charge, .update fun setting => (rules.leaf line.leaf source setting).2] ++ tracing ++
        [.deliver source.callback outcome, .record frame outcome] ++
        (if line.flags.isReturn then [.returnFrom frame outcome] else []) ∧
      ∀ operation ∈ tracing, (∃ event, operation = .trace event) ∨
        ∃ error forked, operation = .report source error forked := by
  unfold leafOperations
  cases (rules.leaf line.leaf source m.setting).1 with
  | ok value =>
    refine ⟨Outcome.ok value, [.trace (.returned frame.depth line.input value)], rfl, ?_⟩
    intro operation member
    exact .inl ⟨_, List.mem_singleton.mp member⟩
  | error error =>
    refine ⟨Outcome.failure, [.report source error line.flags.forked,
      .trace (.returned frame.depth line.input 0)], rfl, ?_⟩
    intro operation member
    cases List.mem_cons.mp member with
    | inl same => exact .inr ⟨_, _, same⟩
    | inr member => exact .inl ⟨_, List.mem_singleton.mp member⟩

end Machine

end PackEngine
