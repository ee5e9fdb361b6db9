import PackEngine.Proofs.Hearings
import PackEngine.Proofs.Trampoline

/-! Where lines get. In one turn a line carries its sources through its redirects up to a gate or to
its executable, unless it ends on the way; beyond a gate it goes on in its continuation's turn. -/
namespace PackEngine

variable {V : Vocabulary}

/-- What a stage makes of one source, unless the stage is a gate. -/
def Modifier.produce? (rules : Rules V) (modifier : Modifier V) :
    Option (Source V → V.Setting → Except CommandError (List (Source V))) :=
  match modifier.action with
  | .keep => some fun source _ => .ok [source]
  | .redirect redirect => some (rules.redirect redirect)
  | .gate _ => none

structure Arrival (V : Vocabulary) where
  ahead : List (Modifier V)
  flags : Flags
  sources : List (Source V)

namespace Machine

/-- Carries the sources to the next gate or to the end of the stages; no arrival where the line
stops before. -/
def carry (rules : Rules V) (issuer : Source V) : List (Modifier V) → Flags →
    List (Source V) → Machine V → Option (Arrival V) × Machine V
  | [], flags, sources, m => (some ⟨[], flags, sources⟩, m)
  | modifier :: rest, flags, sources, m =>
      match modifier.produce? rules with
      | none => (some ⟨modifier :: rest, flags, sources⟩, m)
      | some produce =>
          let flags := flags.union modifier.flags
          match m.redirectAll rules issuer produce flags.forked sources #[] with
          | (some sources, m) => carry rules issuer rest flags sources m
          | (none, m) => (none, m)

def arrivalOperations (rules : Rules V) (frame : Frame V) (issuer : Source V) (chain : Chain V) :
    Option (Arrival V) × Machine V → List (Operation V)
  | (none, _) => []
  | (some ⟨[], flags, sources⟩, m) =>
      finishOperations rules frame { chain with modifiers := [] } flags sources m
  | (some ⟨modifier :: rest, flags, sources⟩, m) =>
      match modifier.action with
      | .gate gate =>
          gateOperations rules frame gate issuer sources
            { chain with modifiers := modifier :: rest } (flags.union modifier.flags) m
      | _ => []

variable {S : Source V → Prop}

def GetsTo (rules : Rules V) (frame : Frame V) (S : Source V → Prop) (issuer : Source V)
    (chain : Chain V) (m : Machine V) (operations : List (Operation V))
    (carried : Option (Arrival V) × Machine V) : Prop :=
  ∃ reports, operations = reports ++ arrivalOperations rules frame issuer chain carried ∧
    (∀ operation ∈ reports, operation.Reports S) ∧
    Operation.applyAll rules reports m = carried.2 ∧
    ∀ arrival, carried.1 = some arrival → ∀ source ∈ arrival.sources, S source

theorem GetsTo.through {rules : Rules V} {frame : Frame V} {issuer : Source V} (issued : S issuer)
    {chain : Chain V} {produce : Source V → V.Setting → Except CommandError (List (Source V))}
    (keep : ∀ source setting produced, S source → produce source setting = .ok produced →
      ∀ other ∈ produced, S other) (forked : Bool)
    {sources : List (Source V)} (fit : ∀ source ∈ sources, S source) (m : Machine V)
    {walk : List (Source V) → Machine V → List (Operation V)}
    {further : List (Source V) → Machine V → Option (Arrival V) × Machine V}
    (gets : ∀ passed, (∀ source ∈ passed, S source) → ∀ later,
      GetsTo rules frame S issuer chain later (walk passed later) (further passed later)) :
    GetsTo rules frame S issuer chain m
      (redirectOperations rules issuer produce forked sources #[] m ++
        match m.redirectAll rules issuer produce forked sources #[] with
        | (some sources, m) => walk sources m
        | (none, _) => [])
      (match m.redirectAll rules issuer produce forked sources #[] with
        | (some sources, m) => further sources m
        | (none, m) => (none, m)) := by
  obtain ⟨reports, outputs⟩ : (∀ operation ∈ redirectOperations rules issuer produce forked
      sources #[] m, operation.Reports S) ∧ _ :=
    redirectOperations_reports forked keep issued fit (by simp) m
  have after := applyAll_redirectOperations rules issuer produce forked sources #[] m
  cases result : m.redirectAll rules issuer produce forked sources #[] with
  | mk passed later =>
    rw [result] at outputs after
    cases passed with
    | none => exact ⟨_, rfl, reports, after, fun _ same => by cases same⟩
    | some passed =>
      obtain ⟨more, same, moreReports, arrives, fits⟩ := gets passed (outputs passed rfl) later
      refine ⟨redirectOperations rules issuer produce forked sources #[] m ++ more, ?_,
        fun operation member => ?_, ?_, fits⟩
      · rw [List.append_assoc, ← same]
      · cases List.mem_append.mp member with
        | inl member => exact reports operation member
        | inr member => exact moreReports operation member
      · rw [Operation.applyAll_append, after, arrives]

theorem walkOperations_carry {rules : Rules V} (frame : Frame V) (closed : rules.RedirectsKeep S)
    (issuer : Source V) (issued : S issuer) (chain : Chain V) (modifiers : List (Modifier V))
    (flags : Flags) (sources : List (Source V)) (fit : ∀ source ∈ sources, S source)
    (m : Machine V) :
    GetsTo rules frame S issuer chain m
      (walkOperations rules frame issuer chain modifiers flags sources m)
      (m.carry rules issuer modifiers flags sources) := by
  induction modifiers generalizing flags sources m with
  | nil =>
    refine ⟨[], rfl, fun _ member => absurd member List.not_mem_nil, rfl, fun arrival same => ?_⟩
    cases Option.some.inj same
    exact fit
  | cons modifier rest ih =>
    unfold walkOperations carry Modifier.produce?
    cases action : modifier.action with
    | keep =>
      refine .through issued ?_ _ fit m fun passed fit later => ih _ passed fit later
      intro source setting produced sourceFit same other member
      cases Except.ok.inj same
      rwa [List.mem_singleton.mp member]
    | redirect redirect =>
      exact .through issued (closed redirect) _ fit m fun passed fit later => ih _ passed fit later
    | gate gate =>
      refine ⟨[], ?_, fun _ member => absurd member List.not_mem_nil, rfl, fun arrival same => ?_⟩
      · simp only [arrivalOperations, action, List.nil_append]
      · cases Option.some.inj same
        exact fit

def lineSources (rules : Rules V) (frame : Frame V) (sources : Sources V) (chain : Chain V)
    (topLevel : Bool) (m : Machine V) : List (Source V) × Machine V :=
  (if topLevel then m.trace rules (.command frame.depth chain.input) else m).takeSources sources

def reach (rules : Rules V) (frame : Frame V) (issuer : Source V) (sources : Sources V)
    (chain : Chain V) (flags : Flags) (topLevel : Bool) (m : Machine V) :
    Option (Arrival V) × Machine V :=
  let (present, m) := m.lineSources rules frame sources chain topLevel
  m.carry rules issuer chain.modifiers flags present

def openingOperations (frame : Frame V) (sources : Sources V) (chain : Chain V)
    (topLevel : Bool) : List (Operation V) :=
  (if topLevel then [.trace (.command frame.depth chain.input)] else []) ++
    match sources with
    | .ready _ => []
    | .collected cell => [.emptyCell cell]

def Opens (sources : Sources V) (S : Source V → Prop) (operation : Operation V) : Prop :=
  (∃ event, operation = .trace event) ∨
    (∃ cell, sources = .collected cell ∧ operation = .emptyCell cell) ∨ operation.Reports S

theorem lineOperations_reach {rules : Rules V} (frame : Frame V) (closed : rules.RedirectsKeep S)
    (issuer : Source V) (issued : S issuer) (sources : Sources V) (chain : Chain V) (flags : Flags)
    (topLevel : Bool) (m : Machine V)
    (fit : ∀ source ∈ (m.takeSources sources).1, S source) :
    ∃ opening, m.operations rules frame (.line issuer sources chain flags topLevel) =
        opening ++ arrivalOperations rules frame issuer chain
          (m.reach rules frame issuer sources chain flags topLevel) ∧
      (∀ operation ∈ opening, Opens sources S operation) ∧
      Operation.applyAll rules opening m =
        (m.reach rules frame issuer sources chain flags topLevel).2 ∧
      ∀ arrival, (m.reach rules frame issuer sources chain flags topLevel).1 = some arrival →
        ∀ source ∈ arrival.sources, S source := by
  have heap : (if topLevel then m.trace rules (.command frame.depth chain.input) else m).heap =
      m.heap := by
    cases topLevel
    · rfl
    · exact trace_heap rules _ m
  have present : ∀ source ∈ (m.lineSources rules frame sources chain topLevel).1, S source := by
    cases sources with
    | ready sources => exact fit
    | collected cell =>
      unfold lineSources takeSources
      rw [heap]
      exact fit
  let first := openingOperations frame sources chain topLevel
  have opened : Operation.applyAll rules first m =
      (m.lineSources rules frame sources chain topLevel).2 := by
    cases topLevel <;> cases sources <;> rfl
  have opens : m.operations rules frame (.line issuer sources chain flags topLevel) =
      first ++ walkOperations rules frame issuer chain chain.modifiers flags
        (m.lineSources rules frame sources chain topLevel).1
        (Operation.applyAll rules first m) := by
    cases topLevel <;> cases sources <;> rfl
  obtain ⟨reports, same, only, arrives, fits⟩ := walkOperations_carry frame closed issuer issued
    chain chain.modifiers flags _ present (Operation.applyAll rules first m)
  rw [opened] at same arrives fits
  refine ⟨first ++ reports, ?_, fun operation member => ?_, ?_, fits⟩
  · rw [opens, opened, same, ← List.append_assoc]
    rfl
  · cases List.mem_append.mp member with
    | inr member => exact .inr (.inr (only operation member))
    | inl member =>
      cases List.mem_append.mp member with
      | inl member =>
        cases topLevel with
        | false => cases member
        | true => exact .inl ⟨_, List.mem_singleton.mp member⟩
      | inr member =>
        cases sources with
        | ready sources => cases member
        | collected cell => exact .inr (.inl ⟨cell, rfl, List.mem_singleton.mp member⟩)
  · rw [Operation.applyAll_append, opened, arrives]
    rfl

theorem Opens.mundane {sources : Sources V} {operation : Operation V}
    (h : Opens sources S operation) : operation.Mundane := by
  obtain ⟨event, rfl⟩ | ⟨cell, _, rfl⟩ | ⟨_, _, _, _, rfl⟩ := h <;> trivial

theorem Opens.cells (rules : Rules V) {sources : Sources V} {operation : Operation V}
    (h : Opens sources S operation) (m : Machine V) :
    (operation.apply rules m).heap.cells.size = m.heap.cells.size := by
  obtain ⟨event, rfl⟩ | ⟨cell, _, rfl⟩ | ⟨source, error, forked, _, rfl⟩ := h
  · exact congrArg (·.cells.size) (trace_heap rules event m)
  · exact Array.size_setIfInBounds
  · exact congrArg (·.cells.size) (trace_heap rules (.error error.message) m)

def arrival (rules : Rules V) (m : Machine V) : Option (Arrival V) :=
  match m.stack.entries with
  | ⟨frame, .line issuer sources chain flags topLevel⟩ :: rest =>
      ((m.taking ⟨frame, .line issuer sources chain flags topLevel⟩ rest).reach rules frame issuer
        sources chain flags topLevel).1
  | _ => none

theorem turnOperations_of_line {rules : Rules V} (closed : rules.RedirectsKeep S) {m : Machine V}
    {frame : Frame V} {issuer : Source V} (issued : S issuer) {sources : Sources V}
    {chain : Chain V} {flags : Flags} {topLevel : Bool} {lower : List (Entry V)}
    (entries : m.stack.entries = ⟨frame, .line issuer sources chain flags topLevel⟩ :: lower)
    (fit : ∀ source ∈ (m.takeSources sources).1, S source) :
    ∃ opening, m.turnOperations rules = opening ++ arrivalOperations rules frame issuer chain
        (m.arrival rules, Operation.applyAll rules opening
          (m.taking ⟨frame, .line issuer sources chain flags topLevel⟩ lower)) ∧
      (∀ operation ∈ opening, Opens sources S operation) ∧
      (Operation.applyAll rules opening
        (m.taking ⟨frame, .line issuer sources chain flags topLevel⟩ lower)).heap.cells.size =
          m.heap.cells.size ∧
      ∀ arrival, m.arrival rules = some arrival → ∀ source ∈ arrival.sources, S source := by
  let here := m.taking ⟨frame, .line issuer sources chain flags topLevel⟩ lower
  have taken : (here.takeSources sources).1 = (m.takeSources sources).1 := by
    cases sources <;> rfl
  obtain ⟨opening, same, opens, arrives, fits⟩ := lineOperations_reach frame closed issuer issued
    sources chain flags topLevel here (taken ▸ fit)
  have there : m.arrival rules =
      (here.reach rules frame issuer sources chain flags topLevel).1 := by
    unfold arrival
    rw [entries]
  refine ⟨opening, ?_, opens, ?_, there ▸ fits⟩
  · rw [turnOperations_of_entries rules entries, same, arrives, there]
  · exact Operation.applyAll_induction
      (P := fun later : Machine V => later.heap.cells.size = m.heap.cells.size)
      (fun operation member later same => ((opens operation member).cells rules later).trans same)
      rfl

/-- In `n` turns from now it is the turn of the line in which it gets to its executable. The line
is on top of `lower`, and comes there again for its continuation, beyond each gate. -/
inductive Arrives (rules : Rules V) (frame : Frame V) (lower : List (Entry V)) (flags : Flags)
    (present : List (Source V)) : Chain V → Nat → Machine V → Prop where
  | ends {issuer : Source V} {sources : Sources V} {chain : Chain V} {before : Flags}
      {topLevel : Bool} {m : Machine V}
      (entries : m.stack.entries = ⟨frame, .line issuer sources chain before topLevel⟩ :: lower)
      (there : m.arrival rules = some ⟨[], flags, present⟩) :
      Arrives rules frame lower flags present chain 0 m
  | resumes {issuer : Source V} {sources : Sources V} {chain : Chain V} {before marked : Flags}
      {topLevel : Bool} {modifier : Modifier V} {rest : List (Modifier V)}
      {passed : List (Source V)} {n k : Nat} {m : Machine V}
      (entries : m.stack.entries = ⟨frame, .line issuer sources chain before topLevel⟩ :: lower)
      (there : m.arrival rules = some ⟨modifier :: rest, marked, passed⟩)
      (runs : m.Runs rules (k + 1))
      (waits : ∀ j < k, ∃ top upper, (m.after rules (j + 1)).stack.entries =
        top :: (upper ++ ⟨frame, .continuation issuer m.heap.cells.size
          { chain with modifiers := rest } (marked.union modifier.flags)⟩ :: lower))
      (top : (m.after rules (k + 1)).stack.entries =
        ⟨frame, .continuation issuer m.heap.cells.size { chain with modifiers := rest }
          (marked.union modifier.flags)⟩ :: lower)
      (later : Arrives rules frame lower flags present { chain with modifiers := rest } n
        (m.after rules (k + 1))) :
      Arrives rules frame lower flags present chain (k + 1 + n) m

end Machine

section

variable {pack : Pack} {frame : Frame packWords} {issuer : PackSource} {chain : Chain packWords}
  {condition : Condition} {modifier : Modifier packWords} {rest : List (Modifier packWords)}

def Condition.task (condition : Condition) (bound : List (BoundFunction packWords)) (cell : CellId)
    (source : PackSource) : Task packWords :=
  conditionTask (PackSource.mapPersona Persona.forFunction) condition.polarity bound cell source

/-- A gate whose functions are found and bound queues a condition for each source, and the
continuation after them. -/
theorem gateOperations_bound {functions : List (FunctionRef packWords)}
    {bound : List (BoundFunction packWords)}
    (resolves : pack.library.resolve condition.target = .ok functions)
    (binds : FunctionRef.instantiateAll none functions = .ok bound) (sources : List PackSource)
    (flags : Flags) (m : Machine packWords) :
    Machine.gateOperations (packRules pack) frame condition issuer sources
        { chain with modifiers := modifier :: rest } flags m =
      .newCell :: (sources.map fun source =>
          .queue ⟨frame, condition.task bound m.heap.cells.size source⟩) ++
        [.queue ⟨frame, .continuation issuer m.heap.cells.size { chain with modifiers := rest }
          flags⟩] := by
  have scheduled : (packRules pack).gate condition issuer sources
      { chain with modifiers := modifier :: rest } flags =
      scheduleConditions (PackSource.mapPersona Persona.forFunction) condition.polarity functions
        issuer sources { chain with modifiers := modifier :: rest } flags := by
    show Condition.schedule pack condition issuer sources _ flags = _
    unfold Condition.schedule
    rw [resolves]
    rfl
  unfold Machine.gateOperations
  dsimp only
  rw [scheduled, scheduleConditions_run, scheduleConditions_operations, binds]
  simp only [Except.map, List.append_nil]
  rfl

/-- Otherwise the gate reports an error, and the line ends there. -/
theorem gateOperations_refused (frame : Frame packWords) (issuer : PackSource)
    (chain : Chain packWords) (modifier : Modifier packWords) (rest : List (Modifier packWords))
    (refuses : ∀ functions bound, pack.library.resolve condition.target = .ok functions →
      FunctionRef.instantiateAll none functions ≠ .ok bound) (sources : List PackSource)
    (flags : Flags) (m : Machine packWords) :
    ∃ error, Machine.gateOperations (packRules pack) frame condition issuer sources
      { chain with modifiers := modifier :: rest } flags m =
        [.report issuer error flags.forked] := by
  have scheduled : (packRules pack).gate condition issuer sources
      { chain with modifiers := modifier :: rest } flags =
      (Control.ofExcept (pack.library.resolve condition.target)).bind fun functions =>
        scheduleConditions (PackSource.mapPersona Persona.forFunction) condition.polarity functions
          issuer sources { chain with modifiers := modifier :: rest } flags := rfl
  unfold Machine.gateOperations
  dsimp only
  rw [scheduled]
  cases resolved : pack.library.resolve condition.target with
  | error error => exact ⟨error, rfl⟩
  | ok functions =>
    simp only [Control.ofExcept, Procedure.bind]
    rw [scheduleConditions_run, scheduleConditions_operations]
    cases binds : FunctionRef.instantiateAll none functions with
    | error error => exact ⟨error, rfl⟩
    | ok bound => exact absurd binds (refuses functions bound resolved)

end

end PackEngine
