import PackEngine.Proofs.Conditions

/-! Lines that get to their executable. Until then a line queues no work but the conditions of its
gates, and what these lead to leaves all slots as they are that were opened before the line. -/
namespace PackEngine

open Machine

def returnMarked (flags : Flags) (modifiers : List (Modifier packWords)) : Bool :=
  flags.isReturn || modifiers.any (·.flags.isReturn)

/-- The stage is a gate whose functions are found and bound. -/
def Modifier.Binds (pack : Pack) (modifier : Modifier packWords) : Prop :=
  ∃ condition functions bound, modifier.action = .gate condition ∧
    pack.library.resolve condition.target = .ok functions ∧
    FunctionRef.instantiateAll none functions = .ok bound

namespace Machine

variable {pack : Pack} {m : Machine packWords} {lower : List (Entry packWords)}
  {S : PackSource → Prop} {mark : Heap packWords} {frame : Frame packWords}
  {chain : Chain packWords} {flags : Flags} {present : List PackSource} {n : Nat}

theorem returnMarked_carry {rules : Rules packWords} {issuer : PackSource}
    {modifiers : List (Modifier packWords)} {sources : List PackSource}
    {arrival : Arrival packWords}
    (there : (m.carry rules issuer modifiers flags sources).1 = some arrival) :
    returnMarked arrival.flags arrival.ahead = returnMarked flags modifiers := by
  induction modifiers generalizing flags sources m with
  | nil =>
    cases Option.some.inj there
    rfl
  | cons modifier rest ih =>
    unfold carry at there
    split at there
    · cases Option.some.inj there
      rfl
    · dsimp only at there
      split at there
      · rw [ih there]
        simp [returnMarked, Flags.union, Bool.or_assoc]
      · cases there

theorem returnMarked_arrival {rules : Rules packWords} {issuer : PackSource}
    {sources : Sources packWords} {before : Flags} {topLevel : Bool} {arrival : Arrival packWords}
    (entries : m.stack.entries = ⟨frame, .line issuer sources chain before topLevel⟩ :: lower)
    (there : m.arrival rules = some arrival) :
    returnMarked arrival.flags arrival.ahead = returnMarked before chain.modifiers := by
  unfold Machine.arrival reach at there
  rw [entries] at there
  exact returnMarked_carry there

theorem Arrives.isReturn_eq {rules : Rules packWords} {issuer : PackSource}
    {sources : Sources packWords} {before : Flags} {topLevel : Bool}
    (arrives : m.Arrives rules frame lower flags present chain n)
    (entries : m.stack.entries = ⟨frame, .line issuer sources chain before topLevel⟩ :: lower) :
    flags.isReturn = returnMarked before chain.modifiers := by
  induction arrives generalizing issuer sources before topLevel with
  | ends found there =>
    cases entries.symm.trans found
    have same := returnMarked_arrival entries there
    rw [← same]
    exact (Bool.or_false _).symm
  | resumes found there runs waits top later ih =>
    cases entries.symm.trans found
    have same := returnMarked_arrival entries there
    rw [ih top, ← same]
    simp [returnMarked, Flags.union, Bool.or_assoc]

structure Supplied (S : PackSource → Prop) (mark : Heap packWords) (issuer : PackSource)
    (sources : Sources packWords) (m : Machine packWords) : Prop where
  issued : S issuer
  taken : ∀ source ∈ (m.takeSources sources).1, S source
  young : ∀ cell, sources = .collected cell → mark.cells.size ≤ cell

theorem Supplied.command {source : PackSource} (fit : S source) (mark : Heap packWords)
    (m : Machine packWords) : m.Supplied S mark source (.ready [source]) := by
  refine ⟨fit, fun other member => ?_, fun _ same => by cases same⟩
  rw [List.mem_singleton.mp member]
  exact fit

structure Finishes (pack : Pack) (S : PackSource → Prop) (mark : Heap packWords)
    (frame : Frame packWords) (lower : List (Entry packWords)) (flags : Flags)
    (present : List PackSource) (chain : Chain packWords) (m : Machine packWords) : Prop where
  top : ∃ task, m.stack.entries = ⟨frame, task⟩ :: lower
  turn : ∃ opening there, m.turnOperations (packRules pack) = opening ++
      finishOperations (packRules pack) frame { chain with modifiers := [] } flags present there ∧
    Operation.queuedIn opening = [] ∧ ∀ operation ∈ opening, Tacit mark operation
  fit : ∀ source ∈ present, S source

theorem Finishes.queues (finishes : m.Finishes pack S mark frame lower flags present chain)
    (free : m.Free pack) {queued : List (Entry packWords)}
    (acts : ∀ there, Operation.queuedIn (finishOperations (packRules pack) frame
        { chain with modifiers := [] } flags present there) = queued ∧
      ∀ operation ∈ finishOperations (packRules pack) frame { chain with modifiers := [] } flags
        present there, Tacit mark operation) :
    (m.step (packRules pack)).stack.entries = queued ++ lower ∧
      m.turnHeard (packRules pack) = [] ∧
      ∀ operation ∈ m.turnOperations (packRules pack), operation.Spares mark := by
  obtain ⟨task, top⟩ := finishes.top
  obtain ⟨opening, there, turn, idle, tacit⟩ := finishes.turn
  obtain ⟨queues, quiet⟩ := acts there
  refine (free.above _).queues top (fun operation member => ?_) ?_
  · rw [turn] at member
    cases List.mem_append.mp member with
    | inl member => exact tacit operation member
    | inr member => exact quiet operation member
  · rw [turn, Operation.queuedIn_append, idle, queues]
    rfl

theorem slotAfter_conditionsHearing (condition : Condition) (cell : CellId)
    (sources : List PackSource) (results : List (List Outcome)) (id : SlotId)
    (held : Option Outcome) :
    Heap.slotAfter id (conditionsHearing condition cell sources results) held = held := by
  refine Heap.slotAfter_unheard (fun heard member same => ?_) held
  obtain ⟨_, _, member⟩ := List.mem_flatMap.mp member
  obtain ⟨_, _, member⟩ := List.mem_flatMap.mp member
  obtain ⟨receiver, among, rfl⟩ := List.mem_map.mp member
  rw [List.mem_singleton.mp among] at same
  cases same

theorem mem_of_mem_sifted {condition : Condition} {sources : List PackSource}
    {results : List (List Outcome)} {source : PackSource}
    (member : source ∈ sifted condition sources results) : source ∈ sources := by
  obtain ⟨⟨other, outcomes⟩, among, member⟩ := List.mem_flatMap.mp member
  obtain ⟨_, _, rfl⟩ := List.mem_map.mp member
  exact (List.of_mem_zip among).1

section

variable {issuer : PackSource} {sources : Sources packWords} {before marked : Flags}
  {topLevel : Bool} {modifier : Modifier packWords} {rest : List (Modifier packWords)}
  {passed : List PackSource}

theorem arrivalOperations_refused
    (refused : ¬modifier.Binds pack)
    (m : Machine packWords) :
    ∀ operation ∈ arrivalOperations (packRules pack) frame issuer chain
        (some ⟨modifier :: rest, marked, passed⟩, m),
      ∃ source error forked, operation = .report source error forked := by
  intro operation member
  simp only [arrivalOperations] at member
  cases action : modifier.action with
  | keep => simp [action] at member
  | redirect redirect => simp [action] at member
  | gate condition =>
    have refuses : ∀ functions bound, pack.library.resolve condition.target = .ok functions →
        FunctionRef.instantiateAll none functions ≠ .ok bound :=
      fun functions bound resolves binds =>
        refused ⟨condition, functions, bound, action, resolves, binds⟩
    obtain ⟨error, refuses⟩ := gateOperations_refused frame issuer chain modifier rest refuses
      passed (marked.union modifier.flags) m
    simp only [action] at member
    rw [refuses] at member
    exact ⟨_, _, _, List.mem_singleton.mp member⟩

theorem FreeAbove.line_queues (free : m.FreeAbove pack lower)
    (entries : m.stack.entries = ⟨frame, .line issuer sources chain before topLevel⟩ :: lower)
    {queued : List (Entry packWords)}
    (acts : ∀ there,
      let operations := arrivalOperations (packRules pack) frame issuer chain
        (m.arrival (packRules pack), there)
      Operation.queuedIn operations = queued ∧
        ∀ operation ∈ operations, Tacit ({} : Heap packWords) operation) :
    (m.step (packRules pack)).stack.entries = queued ++ lower := by
  obtain ⟨opening, same, opens, _, _⟩ := turnOperations_of_line
    (packRules pack).redirectsKeep_true trivial entries fun _ _ => trivial
  obtain ⟨queues, tacit⟩ := acts (Operation.applyAll (packRules pack) opening
    (m.taking ⟨frame, .line issuer sources chain before topLevel⟩ lower))
  have all : ∀ operation ∈ m.turnOperations (packRules pack),
      Tacit ({} : Heap packWords) operation := by
    intro operation member
    rw [same] at member
    cases List.mem_append.mp member with
    | inl member => exact (opens operation member).tacit fun cell _ => Nat.zero_le cell
    | inr member => exact tacit operation member
  refine (free.queues entries all ?_).1
  rw [same, Operation.queuedIn_append, queuedIn_opens opens, queues]
  rfl

theorem FreeAbove.line_refused (free : m.FreeAbove pack lower)
    (entries : m.stack.entries = ⟨frame, .line issuer sources chain before topLevel⟩ :: lower)
    (there : m.arrival (packRules pack) = some ⟨modifier :: rest, marked, passed⟩)
    (refused : ¬modifier.Binds pack) :
    (m.step (packRules pack)).stack.entries = lower := by
  suffices stack : (m.step (packRules pack)).stack.entries = [] ++ lower from stack
  refine free.line_queues entries fun gets => ?_
  rw [there]
  refine ⟨Operation.queuedIn_eq_nil fun entry member => ?_, fun operation member => ?_⟩
  · obtain ⟨_, _, _, same⟩ := arrivalOperations_refused refused gets _ member
    cases same
  · obtain ⟨source, error, forked, rfl⟩ := arrivalOperations_refused refused gets _ member
    exact .report _ source error forked

theorem FreeAbove.gate_bound (free : m.FreeAbove pack lower)
    (entries : m.stack.entries = ⟨frame, .line issuer sources chain before topLevel⟩ :: lower)
    (there : m.arrival (packRules pack) = some ⟨modifier :: rest, marked, passed⟩)
    (waits : (m.step (packRules pack)).stack.entries ≠ lower) :
    modifier.Binds pack :=
  Classical.byContradiction fun refused => waits (free.line_refused entries there refused)

end

theorem step_ne_of_waits {rules : Rules packWords} {waiting : Entry packWords} {k : Nat}
    (waits : ∀ j < k, ∃ first upper,
      (m.after rules (j + 1)).stack.entries = first :: (upper ++ waiting :: lower))
    (top : (m.after rules (k + 1)).stack.entries = waiting :: lower) :
    (m.step rules).stack.entries ≠ lower := by
  intro left
  cases k with
  | zero => exact List.cons_ne_self _ _ (top.symm.trans left)
  | succ k =>
    obtain ⟨first, upper, above⟩ := waits 0 (Nat.succ_pos k)
    have lengths := congrArg List.length (left.symm.trans above)
    simp only [List.length_cons, List.length_append] at lengths
    omega

theorem Stretch.length_eq {waiting : List (Entry packWords)} {log : List (Hearing packWords)}
    {k : Nat} (stretch : m.Stretch pack mark waiting n log)
    (waits : ∀ j < k, ∃ first upper,
      (m.after (packRules pack) j).stack.entries = first :: (upper ++ waiting))
    (left : (m.after (packRules pack) k).stack.entries = waiting) : n = k := by
  have longer {first : Entry packWords} {upper : List (Entry packWords)} :
      waiting ≠ first :: (upper ++ waiting) := by
    intro same
    have lengths := congrArg List.length same
    simp only [List.length_cons, List.length_append] at lengths
    omega
  obtain less | same | more := Nat.lt_trichotomy n k
  · obtain ⟨first, upper, entries⟩ := waits n less
    exact absurd (stretch.left.symm.trans entries) longer
  · exact same
  · obtain ⟨first, upper, entries⟩ := stretch.above k more
    exact absurd (left.symm.trans entries) longer

theorem Arrives.finishes (arrives : m.Arrives (packRules pack) frame lower flags present chain n)
    (free : m.Free pack) (closed : (packRules pack).RedirectsKeep S) (wide : mark.Expands m.heap)
    (supplied : ∀ issuer sources before topLevel,
      m.stack.entries = ⟨frame, .line issuer sources chain before topLevel⟩ :: lower →
      m.Supplied S mark issuer sources) :
    m.Runs (packRules pack) n ∧
      (m.after (packRules pack) n).Finishes pack S mark frame lower flags present chain ∧
      ∀ id < mark.slots.size,
        (m.after (packRules pack) n).heap.recorded id = m.heap.recorded id := by
  induction arrives with
  | ends entries there =>
    have supply := supplied _ _ _ _ entries
    obtain ⟨opening, same, opens, _, fits⟩ :=
      turnOperations_of_line closed supply.issued entries supply.taken
    rw [there] at same
    exact ⟨runs_zero _ _, ⟨⟨_, entries⟩, ⟨opening, _, same, queuedIn_opens opens,
      fun operation member => (opens operation member).tacit supply.young⟩, fits _ there⟩,
      fun _ _ => rfl⟩
  | @resumes issuer sources chain before marked topLevel modifier rest passed n k m entries there
      runs waits top later ih =>
    have supply := supplied _ _ _ _ entries
    obtain ⟨_, _, _, _, fits⟩ :=
      turnOperations_of_line closed supply.issued entries supply.taken
    obtain ⟨condition, functions, bound, gate, resolves, binds⟩ :=
      (free.above _).gate_bound entries there (step_ne_of_waits waits top)
    obtain ⟨⟨_, silent, spare⟩, _⟩ :=
      (free.above _).gates entries supply.young there gate resolves binds
    obtain ⟨last, results, _, _, _, stretch, found⟩ :=
      (free.above _).gate_settles entries there gate resolves binds
    have same := stretch.length_eq waits top
    subst same
    have expands := wide.trans (after_expands (packRules pack) (last + 1) m)
    have resumed : (m.after (packRules pack) (last + 1)).Supplied S mark issuer
        (.collected m.heap.cells.size) := by
      refine ⟨supply.issued, fun source member => ?_, fun cell same => ?_⟩
      · have among : source ∈ sifted condition passed results := by
          rw [← found]
          exact member
        exact fits _ there source (mem_of_mem_sifted among)
      · cases same
        exact wide.cells
    obtain ⟨further, finishes, kept⟩ := ih (free.after runs) expands
      fun _ _ _ _ entries => by
        cases top.symm.trans entries
        exact resumed
    rw [after_add]
    refine ⟨(runs_add_iff _ _ _ m).mpr ⟨runs, further⟩,
      ⟨finishes.top, finishes.turn, finishes.fit⟩, fun id known => ?_⟩
    rw [kept id known]
    have first := (step_follows (packRules pack) spare wide).slots id known
    have rest := (stretch.follows.older (wide.trans (step_expands (packRules pack) m))).slots id
      known
    rw [silent] at first
    rw [slotAfter_conditionsHearing] at rest
    exact rest.trans first

end Machine

section

variable {pack : Pack} {target : String} {arguments : Option Json}
  {functions : List (FunctionRef packWords)}

theorem act_function (chain : Chain packWords) (flags : Flags) (source : PackSource) :
    (packRules pack).act (.function target arguments) source chain flags =
      (Control.ofExcept (pack.library.resolve target)).bind fun functions =>
        Procedure.update (source.persona.sendSuccess (runningText functions))
          (queueFunctions isSilent functions arguments source
            (source.mapPersona Persona.forFunction) flags) := rfl

theorem actOperations_functions {bound : List (BoundFunction packWords)}
    (resolves : pack.library.resolve target = .ok functions)
    (binds : FunctionRef.instantiateAll arguments functions = .ok bound) (frame : Frame packWords)
    (chain : Chain packWords) (flags : Flags) (source : PackSource) (m : Machine packWords) :
    actOperations (packRules pack) frame (.function target arguments) chain flags source m =
      .update (source.persona.sendSuccess (runningText functions)) ::
        (queueFunctions isSilent functions arguments source
          (source.mapPersona Persona.forFunction) flags).operations (packRules pack) frame
          { m with setting := source.persona.sendSuccess (runningText functions) m.setting } := by
  unfold actOperations
  dsimp only
  rw [act_function, resolves]
  simp only [Control.ofExcept, Procedure.bind, Procedure.operations, Procedure.run]
  rw [queueFunctions_run, binds]
  exact List.append_nil _

theorem actOperations_refused (refuses : ∀ functions bound,
      pack.library.resolve target = .ok functions →
        FunctionRef.instantiateAll arguments functions ≠ .ok bound)
    (frame : Frame packWords) (chain : Chain packWords) (flags : Flags) (source : PackSource)
    (m : Machine packWords) :
    ∃ told error, actOperations (packRules pack) frame (.function target arguments) chain flags
        source m = told ++ [.report source error flags.forked,
          .deliver source.callback Outcome.failure, .record frame Outcome.failure] ∧
      ∀ operation ∈ told, ∃ change, operation = .update change := by
  unfold actOperations
  dsimp only
  rw [act_function]
  cases resolved : pack.library.resolve target with
  | error error => exact ⟨[], error, rfl, fun _ member => absurd member List.not_mem_nil⟩
  | ok functions =>
    simp only [Control.ofExcept, Procedure.bind, Procedure.operations, Procedure.run]
    rw [queueFunctions_run, queueFunctions_operations]
    cases binds : FunctionRef.instantiateAll arguments functions with
    | error error =>
      refine ⟨[.update (source.persona.sendSuccess (runningText functions))], error, rfl, ?_⟩
      exact fun operation member => ⟨_, List.mem_singleton.mp member⟩
    | ok bound => exact absurd binds (refuses functions bound resolved)

end

theorem Machine.Free.opens_body {pack : Pack} {m : Machine packWords}
    {lower : List (Entry packWords)} (free : m.Free pack) {outer callee : Frame packWords}
    {function : BoundFunction packWords} {base : Callback packWords} {returning : Bool}
    {source : PackSource}
    (entries : m.stack.entries = ⟨outer, .call function base returning source⟩ :: lower)
    (opens : callee = outer.child base (if returning then some outer.boundary else none)
      m.heap.slots.size) :
    (m.step (packRules pack)).stack.entries =
        function.lines.map (fun line => ⟨callee, Task.command line source⟩) ++
          ⟨callee, .endFunction⟩ :: lower ∧
      m.heap.slots.size < (m.step (packRules pack)).heap.slots.size ∧
      (m.step (packRules pack)).heap.recorded m.heap.slots.size = none ∧
      ∀ id < m.heap.slots.size,
        (m.step (packRules pack)).heap.recorded id = m.heap.recorded id := by
  let top : Entry packWords := ⟨outer, .call function base returning source⟩
  let first : List (Operation packWords) :=
    [.charge, .trace (.call outer.depth function.id function.lines.length), .newSlot]
  let body : List (Entry packWords) :=
    function.lines.map (fun line => ⟨callee, Task.command line source⟩) ++
      [⟨callee, .endFunction⟩]
  have turn : m.turnOperations (packRules pack) = first ++ body.map .queue := by
    rw [turnOperations_of_entries _ entries]
    simp only [operations, first, body, opens, taking, List.map_append, List.map_map]
    rfl
  have tacit : ∀ operation ∈ m.turnOperations (packRules pack), Tacit m.heap operation := by
    intro operation member
    rw [turn] at member
    simp only [first, List.mem_append, List.mem_cons, List.not_mem_nil, or_false,
      List.mem_map] at member
    obtain (rfl | rfl | rfl) | ⟨entry, _, rfl⟩ := member
    · exact ⟨by simp, trivial, fun _ => rfl⟩
    · exact ⟨by simp, trivial, fun _ => rfl⟩
    · exact .newSlot _
    · exact .queue _ entry
  have queues : Operation.queuedIn (m.turnOperations (packRules pack)) = body := by
    rw [turn, Operation.queuedIn_append]
    exact Operation.queuedIn_map_queue body
  obtain ⟨stack, silent, spare⟩ := (free.above _).queues entries tacit queues
  let opened := Operation.applyAll (packRules pack) first (m.taking top lower)
  have heap : opened.heap = m.heap.newSlot.2 := by
    show (Machine.trace _ _ _).heap.newSlot.2 = _
    rw [trace_heap]
    rfl
  have later : opened.heap.Follows [] opened.heap (m.step (packRules pack)).heap := by
    rw [step_eq_applyAll _ entries, turn, Operation.applyAll_append]
    have quiet : ∀ operation ∈ body.map Operation.queue, Tacit opened.heap operation := by
      intro operation member
      obtain ⟨entry, _, rfl⟩ := List.mem_map.mp member
      exact .queue _ entry
    have follows := Operation.follows_applyAll (packRules pack)
      (fun operation member => (quiet operation member).spares) (Heap.Expands.refl opened.heap)
    rwa [allHeard_tacit quiet] at follows
  have size : m.heap.slots.size < opened.heap.slots.size := by
    rw [heap]
    show _ < (Array.push _ _).size
    rw [Array.size_push]
    exact Nat.lt_succ_self _
  refine ⟨?_, Nat.lt_of_lt_of_le size later.expands.slots, ?_, fun id known => ?_⟩
  · rw [stack]
    simp [body]
  · rw [later.slots _ size, heap]
    exact m.heap.recorded_newSlot_self
  · have follows := (step_follows (packRules pack) spare (Heap.Expands.refl m.heap)).slots id known
    rw [silent] at follows
    exact follows

namespace Machine

variable {pack : Pack} {m : Machine packWords} {frame : Frame packWords}

/-- It is not the turn of a line in the frame. -/
def NoLine (frame : Frame packWords) (m : Machine packWords) : Prop :=
  ∀ issuer sources chain flags topLevel others,
    m.stack.entries ≠ ⟨frame, .line issuer sources chain flags topLevel⟩ :: others

theorem noLine_of_frame {top : Entry packWords} {others : List (Entry packWords)}
    (entries : m.stack.entries = top :: others) (other : top.frame ≠ frame) : m.NoLine frame := by
  intro issuer sources chain flags topLevel rest line
  cases entries.symm.trans line
  exact other rfl

theorem Free.noLine_of_absent (free : m.Free pack) (known : frame.slot < m.heap.slots.size)
    (absent : ∀ entry ∈ m.stack.entries, entry.frame ≠ frame) {n : Nat}
    (runs : m.Runs (packRules pack) n) : (m.after (packRules pack) n).NoLine frame := by
  intro issuer sources chain flags topLevel others line
  exact free.reached.absent known absent runs _ (line ▸ List.mem_cons_self) rfl

end Machine

end PackEngine
