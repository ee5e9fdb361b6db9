import PackEngine.Proofs.Passages

/-! Lines that are marked as returns. Such a line ends the frame it runs in once it gets to its
executable: with what the executable returns, or with a failure. The exception is an action that is
refused there. -/
namespace PackEngine

open Machine

variable {pack : Pack} {m : Machine packWords} {frame : Frame packWords}
  {lower upper : List (Entry packWords)}

/-- In `k` turns the frame has returned: its sink has heard the outcome last, what the return does
not cover is left, and no line has run in the frame after the first turn. -/
structure Machine.Returns (pack : Pack) (frame : Frame packWords) (lower : List (Entry packWords))
    (m : Machine packWords) (k : Nat) (outcome : Outcome) : Prop where
  runs : m.Runs (packRules pack) k
  heard : ∃ before, m.log (packRules pack) k = before ++ frame.sink.hearing outcome
  left : (m.after (packRules pack) k).stack.entries =
    lower.dropWhile fun entry => frame.boundary.covers entry.frame
  idle : ∀ j < k, 0 < j → (m.after (packRules pack) j).NoLine frame

namespace Machine

theorem Returns.after {n k : Nat} {outcome : Outcome} (runs : m.Runs (packRules pack) n)
    (lineless : ∀ j, 0 < j → j ≤ n → (m.after (packRules pack) j).NoLine frame)
    (later : (m.after (packRules pack) n).Returns pack frame lower k outcome) :
    m.Returns pack frame lower (n + k) outcome where
  runs := (runs_add_iff _ n k m).mpr ⟨runs, later.runs⟩
  heard := by
    obtain ⟨before, heard⟩ := later.heard
    exact ⟨m.log (packRules pack) n ++ before, by rw [log_add, heard, List.append_assoc]⟩
  left := by
    rw [after_add]
    exact later.left
  idle j less positive := by
    by_cases early : j ≤ n
    · exact lineless j positive early
    · obtain ⟨i, rfl⟩ := Nat.exists_eq_add_of_le (Nat.le_of_not_le early)
      rw [after_add]
      exact later.idle i (by omega) (by omega)

theorem Reached.absent_of_returned (reached : m.Reached (packRules pack) PackTask)
    {task : Task packWords} (entries : m.stack.entries = ⟨frame, task⟩ :: lower) :
    ∀ entry ∈ lower.dropWhile (fun entry => frame.boundary.covers entry.frame),
      entry.frame ≠ frame := by
  have ordered := reached.ordered
  unfold Ordered at ordered
  rw [entries] at ordered
  obtain ⟨ahead, pairs⟩ := List.pairwise_cons.mp ordered
  have filtered : lower.dropWhile (fun entry => frame.boundary.covers entry.frame) =
      lower.filter fun entry => !frame.boundary.covers entry.frame :=
    dropWhile_eq_filter (pairs.imp_of_mem fun member _ above =>
      Boundary.covers_of_precedes (ahead _ member) above)
  have valid := (reached.knows _ (entries ▸ List.mem_cons_self)).valid
  intro entry member same
  rw [filtered, List.mem_filter, same] at member
  simp [Boundary.covers, valid] at member

theorem Free.returns_last (free : m.Free pack) {task : Task packWords}
    (entries : m.stack.entries = ⟨frame, task⟩ :: (upper ++ lower))
    (own : ∀ entry ∈ upper, entry.frame = frame) {first : List (Operation packWords)}
    {outcome : Outcome}
    (turn : m.turnOperations (packRules pack) = first ++ [.returnFrom frame outcome])
    (idle : Operation.queuedIn first = [])
    (only : ∀ returned ∈ returnsIn first, returned.1 = frame) :
    m.Returns pack frame lower 1 outcome where
  runs := free.runs_one entries
  heard := by
    rw [log_one, turnHeard_of_entries _ entries, turn, Operation.allHeard_append]
    exact ⟨_, congrArg _ (List.append_nil _)⟩
  left := by
    have covers : frame.boundary.covers frame = true := by
      simp [Boundary.covers, (free.known entries).valid]
    have found : returnsIn (m.turnOperations (packRules pack)) ≠ [] := by
      rw [turn, returnsIn_append]
      exact List.append_ne_nil_of_right_ne_nil _ (List.cons_ne_nil _ _)
    have returned : ∀ returned ∈ returnsIn (m.turnOperations (packRules pack)),
        returned.1 = frame := by
      rw [turn, returnsIn_append]
      intro returned member
      cases List.mem_append.mp member with
      | inl member => exact only returned member
      | inr member => rw [List.mem_singleton.mp member]
    have queues : Operation.queuedIn (m.turnOperations (packRules pack)) = [] := by
      rw [turn, Operation.queuedIn_append, idle]
      rfl
    refine (free.reached.step_dropped entries found returned queues).trans ?_
    refine List.dropWhile_append_of_pos fun entry member => ?_
    rw [own entry member]
    exact covers
  idle j less positive := by omega

theorem Free.falls (free : m.Free pack)
    (entries : m.stack.entries = ⟨frame, .fallthrough⟩ :: (upper ++ lower))
    (own : ∀ entry ∈ upper, entry.frame = frame) :
    m.Returns pack frame lower 1 Outcome.failure := by
  have turn : m.turnOperations (packRules pack) = [] ++ [.returnFrom frame Outcome.failure] :=
    turnOperations_of_entries _ entries
  exact free.returns_last entries own turn rfl fun _ member => absurd member List.not_mem_nil

end Machine

/-- A task by which a frame pursues its return: it fails, or it is a call that returns for it. -/
def Pursues (frame : Frame packWords) (entry : Entry packWords) : Prop :=
  entry.frame = frame ∧ (entry.task = .fallthrough ∨
    ∃ function front, ∃ callee : PackSource,
      entry.task = .call function (front ++ frame.sink) true callee ∧ callee.callback.Hosted)

theorem Scope.Hears.answer {s : Scope} {outcomes : List Outcome} {log : List (Hearing packWords)}
    (h : s.Hears outcomes log) (answers : outcomes ≠ []) :
    ∃ before outcome, log = before ++ s.base.hearing outcome := by
  induction h with
  | nothing own => exact absurd rfl answers
  | last own outcome => exact ⟨_, outcome, rfl⟩
  | next own outcome nonempty rest ih =>
    obtain ⟨before, last, same⟩ := ih nonempty
    exact ⟨_, last, by rw [same]; exact (List.append_assoc _ _ _).symm⟩

theorem Machine.Free.pursues (free : m.Free pack) (entries : m.stack.entries = upper ++ lower)
    (each : ∀ entry ∈ upper, Pursues frame entry)
    (falls : ∃ entry ∈ upper, entry.task = .fallthrough) :
    ∃ k outcome, m.Returns pack frame lower k outcome ∧ m.NoLine frame := by
  induction upper generalizing m with
  | nil =>
    obtain ⟨entry, member, _⟩ := falls
    cases member
  | cons top rest ih =>
    obtain ⟨first, task⟩ := top
    obtain ⟨⟨same, form⟩, others⟩ := List.forall_mem_cons.mp each
    dsimp only at same
    subst same
    have own : ∀ entry ∈ rest, entry.frame = first := fun entry member => (others entry member).1
    have top : m.stack.entries = ⟨first, task⟩ :: (rest ++ lower) := entries
    obtain rfl | ⟨function, front, callee, rfl, hosted⟩ := form
    · refine ⟨1, _, free.falls top own, fun issuer sources chain flags topLevel tail line => ?_⟩
      cases top.symm.trans line
    · have lineless : m.NoLine first := fun issuer sources chain flags topLevel tail line => by
        cases top.symm.trans line
      obtain ⟨n, outcomes, positive, episode⟩ := free.call_episode top hosted
      have during (j : Nat) (start : 0 < j) (less : j < n) :
          (m.after (packRules pack) j).NoLine first := by
        obtain ⟨above, tail, found, opened⟩ := episode.above j less start
        refine noLine_of_frame found fun same => ?_
        have deeper := opened.deeper
        rw [same] at deeper
        exact absurd deeper (Nat.lt_irrefl _)
      cases outcomes with
      | nil =>
        obtain ⟨entry, member, fallthrough⟩ := falls
        have waits : entry ∈ rest := by
          cases List.mem_cons.mp member with
          | inl same =>
            rw [same] at fallthrough
            cases fallthrough
          | inr member => exact member
        obtain ⟨k, outcome, returns, next⟩ :=
          ih (free.after episode.runs) episode.left others ⟨entry, waits, fallthrough⟩
        refine ⟨n + k, outcome, .after episode.runs (fun j start le => ?_) returns, lineless⟩
        obtain rfl | less := Nat.eq_or_lt_of_le le
        · exact next
        · exact during j start less
      | cons outcome more =>
        obtain ⟨before, last, heard⟩ := episode.hears.answer (List.cons_ne_nil _ _)
        refine ⟨n, last, ⟨episode.runs, ⟨before ++ front.hearing last, ?_⟩, ?_,
          fun j less start => during j start less⟩, lineless⟩
        · rw [heard, Callback.hearing_append, List.append_assoc]
        · have covers : first.boundary.covers first = true := by
            simp [Boundary.covers, (free.known top).valid]
          refine episode.left.trans (List.dropWhile_append_of_pos fun entry member => ?_)
          rw [own entry member]
          exact covers

def LeafAction.outcome (leaf : LeafAction) (source : PackSource) (w : World) : Outcome :=
  match (leaf.perform source w).1 with
  | .ok result => .ok result
  | .error _ => .failure

/-- The action is not to be run by a line that is marked as a return, or its functions are not
found or not bound. -/
def LineAction.Refused (pack : Pack) : LineAction → Prop
  | .call (.function target arguments) => ∀ functions bound,
      pack.library.resolve target = .ok functions →
        FunctionRef.instantiateAll arguments functions ≠ .ok bound
  | .call (.debug _) => True
  | _ => False

def returnCalls (frame : Frame packWords) (bound : List (BoundFunction packWords))
    (source : PackSource) : List (Entry packWords) :=
  bound.map (fun function => ⟨frame, .call function
      (announced isSilent source function.id (source.callback.chain frame.sink)) true
      (source.mapPersona Persona.forFunction).clearCallbacks⟩) ++ [⟨frame, .fallthrough⟩]

section

variable {flags : Flags} {chain : Chain packWords}

theorem leafOperations_returns (pack : Pack) (frame : Frame packWords) {line : LeafLine packWords}
    (marked : line.flags.isReturn = true) (source : PackSource) (m : Machine packWords) :
    ∃ first, leafOperations (packRules pack) frame line source m =
        first ++ [.returnFrom frame (LeafAction.outcome line.leaf source m.setting)] ∧
      ∀ operation ∈ first, operation.Mundane := by
  have leaf : (packRules pack).leaf line.leaf source m.setting =
      LeafAction.perform source m.setting line.leaf := rfl
  unfold leafOperations LeafAction.outcome
  rw [leaf, marked]
  cases (LeafAction.perform source m.setting line.leaf).1 with
  | ok value =>
    refine ⟨[.charge, .update _, .trace _, .deliver _ _, .record _ _], rfl, ?_⟩
    simp [Operation.Mundane]
  | error error =>
    refine ⟨[.charge, .update _, .report _ _ _, .trace _, .deliver _ _, .record _ _], rfl, ?_⟩
    simp [Operation.Mundane]

theorem actAllOperations_returnCalls {target : String} {arguments : Option Json}
    {functions : List (FunctionRef packWords)} {bound : List (BoundFunction packWords)}
    (resolves : pack.library.resolve target = .ok functions)
    (binds : FunctionRef.instantiateAll arguments functions = .ok bound)
    (marked : flags.isReturn = true) (mark : Heap packWords) (sources : List PackSource)
    (m : Machine packWords) :
    Operation.queuedIn (actAllOperations (packRules pack) frame (.function target arguments) chain
        flags sources m) = sources.flatMap (returnCalls frame bound) ∧
      ∀ operation ∈ actAllOperations (packRules pack) frame (.function target arguments) chain flags
        sources m, Tacit mark operation := by
  have one (source : PackSource) (m : Machine packWords) :
      actOperations (packRules pack) frame (.function target arguments) chain flags source m =
        .update (source.persona.sendSuccess (runningText functions)) ::
          (returnCalls frame bound source).map .queue := by
    rw [actOperations_functions resolves binds, queueFunctions_operations, binds]
    dsimp only
    rw [if_pos marked]
    simp [returnCalls]
  induction sources generalizing m with
  | nil => exact ⟨rfl, fun _ member => absurd member List.not_mem_nil⟩
  | cons source rest ih =>
    unfold actAllOperations
    dsimp only
    obtain ⟨queues, tacit⟩ := ih (Operation.applyAll (packRules pack) (actOperations
      (packRules pack) frame (.function target arguments) chain flags source m) m)
    rw [one] at queues tacit ⊢
    refine ⟨?_, fun operation member => ?_⟩
    · rw [Operation.queuedIn_append, queues, List.flatMap_cons]
      exact congrArg (· ++ _) (Operation.queuedIn_map_queue (returnCalls frame bound source))
    · cases List.mem_append.mp member with
      | inr member => exact tacit operation member
      | inl member =>
        cases List.mem_cons.mp member with
        | inl same => exact same ▸ .update mark _
        | inr member =>
          obtain ⟨entry, _, rfl⟩ := List.mem_map.mp member
          exact .queue mark entry

theorem pursues_of_mem_returnCalls {bound : List (BoundFunction packWords)} {source : PackSource}
    {entry : Entry packWords} (member : entry ∈ returnCalls frame bound source) :
    Pursues frame entry := by
  unfold returnCalls at member
  simp only [List.mem_append, List.mem_map, List.mem_singleton] at member
  obtain ⟨function, _, rfl⟩ | rfl := member
  · refine ⟨rfl, .inr ⟨function, announced isSilent source function.id source.callback,
      (source.mapPersona Persona.forFunction).clearCallbacks, ?_, Callback.hosted_empty⟩⟩
    unfold Callback.chain announced
    split <;> rfl
  · exact ⟨rfl, .inl rfl⟩

theorem returnsOf_split (frame : Frame packWords) (outcome : Outcome) {sources : List PackSource}
    (nonempty : sources ≠ []) :
    ∃ first, returnsOf frame outcome sources = first ++ [.returnFrom frame outcome] ∧
      Operation.queuedIn first = [] ∧ ∀ returned ∈ returnsIn first, returned.1 = frame := by
  obtain rfl | ⟨front, last, rfl⟩ := List.eq_nil_or_concat sources
  · exact absurd rfl nonempty
  refine ⟨returnsOf frame outcome front ++ [.deliver last.callback outcome],
    by simp [returnsOf], Operation.queuedIn_eq_nil fun entry member => ?_,
    fun returned member => ?_⟩
  · simp [returnsOf] at member
  · rw [returnsIn_append, returnsIn_returnsOf] at member
    cases List.mem_append.mp member with
    | inl member => rw [(List.mem_replicate.mp member).2]
    | inr member => cases member

theorem actOperations_of_refused {action : CallAction}
    (refused : LineAction.Refused pack (.call action)) (marked : flags.isReturn = true)
    (frame : Frame packWords) (chain : Chain packWords) (source : PackSource)
    (m : Machine packWords) :
    ∃ told error, actOperations (packRules pack) frame action chain flags source m =
        told ++ [.report source error flags.forked, .deliver source.callback Outcome.failure,
          .record frame Outcome.failure] ∧
      ∀ operation ∈ told, ∃ change, operation = .update change := by
  cases action with
  | function target arguments => exact actOperations_refused refused frame chain flags source m
  | debug target =>
    have acts : (packRules pack).act (.debug target) source chain flags =
        debugTrace pack target source flags := rfl
    refine ⟨[], .usage .returnRunTrace, ?_, fun _ member => absurd member List.not_mem_nil⟩
    unfold actOperations
    dsimp only
    rw [acts]
    unfold debugTrace
    rw [if_pos marked]
    rfl
  | returnValue value => exact refused.elim
  | returnFail => exact refused.elim

theorem actAllOperations_of_refused {action : CallAction}
    (refused : LineAction.Refused pack (.call action)) (marked : flags.isReturn = true)
    (frame : Frame packWords) (chain : Chain packWords) (sources : List PackSource)
    (m : Machine packWords) :
    (∀ operation ∈ actAllOperations (packRules pack) frame action chain flags sources m,
        operation.Mundane) ∧
      (∀ here, Operation.allHeard (packRules pack)
          (actAllOperations (packRules pack) frame action chain flags sources m) here =
        sources.flatMap (fun source => source.callback.hearing Outcome.failure)) ∧
      (sources ≠ [] → ∃ first,
        actAllOperations (packRules pack) frame action chain flags sources m =
          first ++ [.record frame Outcome.failure]) := by
  induction sources generalizing m with
  | nil =>
    exact ⟨fun _ member => absurd member List.not_mem_nil, fun _ => rfl,
      fun nonempty => absurd rfl nonempty⟩
  | cons source rest ih =>
    obtain ⟨told, error, own, updates⟩ :=
      actOperations_of_refused refused marked frame chain source m
    obtain ⟨mundane, heard, records⟩ := ih (Operation.applyAll (packRules pack) (actOperations
      (packRules pack) frame action chain flags source m) m)
    unfold actAllOperations
    dsimp only
    rw [own] at mundane heard records ⊢
    have quiet : ∀ operation ∈ told, Tacit ({} : Heap packWords) operation := by
      intro operation member
      obtain ⟨change, rfl⟩ := updates operation member
      exact .update _ change
    refine ⟨fun operation member => ?_, fun here => ?_, fun _ => ?_⟩
    · simp only [List.mem_append, List.mem_cons, List.not_mem_nil, or_false] at member
      obtain (member | rfl | rfl | rfl) | member := member
      · obtain ⟨change, rfl⟩ := updates operation member
        trivial
      · trivial
      · trivial
      · trivial
      · exact mundane operation member
    · rw [Operation.allHeard_append, heard, Operation.allHeard_append, allHeard_tacit quiet,
        List.flatMap_cons]
      simp [Operation.allHeard, Operation.heard]
    · by_cases more : rest = []
      · subst more
        exact ⟨told ++ [.report source error flags.forked,
          .deliver source.callback Outcome.failure], by simp [actAllOperations]⟩
      · obtain ⟨first, same⟩ := records more
        exact ⟨_, by rw [same, ← List.append_assoc]⟩

end

/-- What a line marked as a return returns, as far as its action and its sources alone decide. -/
def LineAction.Decides (w : World) (outcome : Outcome) : LineAction → List PackSource → Prop
  | _, [] => outcome = Outcome.failure
  | .leaf l, source :: _ => outcome = l.outcome source w
  | .call c, _ :: _ => ∀ result, c.returned? = some result → outcome = result

namespace Machine

variable {flags : Flags} {chain : Chain packWords} {present : List PackSource}
  {S : PackSource → Prop} {mark : Heap packWords}

theorem Returns.of_turn (free : m.Free pack) {task : Task packWords}
    {others : List (Entry packWords)} (top : m.stack.entries = ⟨frame, task⟩ :: others)
    (lineless : (m.step (packRules pack)).NoLine frame) {k : Nat} {outcome : Outcome}
    (later : (m.step (packRules pack)).Returns pack frame lower k outcome) :
    m.Returns pack frame lower (1 + k) outcome := by
  refine .after (n := 1) (free.runs_one top) (fun j positive le => ?_) later
  obtain rfl : j = 1 := by omega
  exact lineless

theorem Finishes.hands_over (finishes : m.Finishes pack S mark frame lower flags present chain)
    (free : m.Free pack) {task : Task packWords}
    (other : ∀ issuer sources chain flags topLevel,
      task ≠ .line issuer sources chain flags topLevel)
    (acts : ∀ there, finishOperations (packRules pack) frame { chain with modifiers := [] } flags
      present there = [.queue ⟨frame, task⟩]) :
    (m.step (packRules pack)).stack.entries = ⟨frame, task⟩ :: ([] ++ lower) ∧
      ∀ {k : Nat} {outcome : Outcome},
        (m.step (packRules pack)).Returns pack frame lower k outcome →
          m.Returns pack frame lower (1 + k) outcome := by
  obtain ⟨first, top⟩ := finishes.top
  have stack : (m.step (packRules pack)).stack.entries = [⟨frame, task⟩] ++ lower := by
    refine (finishes.queues free fun there => ?_).1
    rw [acts]
    exact ⟨rfl, fun operation member => List.mem_singleton.mp member ▸ .queue mark _⟩
  refine ⟨stack, fun later => .of_turn free top ?_ later⟩
  intro issuer sources chain flags topLevel others line
  exact other _ _ _ _ _ (congrArg Entry.task (List.cons.inj (stack.symm.trans line)).1)

theorem Finishes.returns_failure (finishes : m.Finishes pack S mark frame lower flags [] chain)
    (free : m.Free pack) (marked : flags.isReturn = true) :
    ∃ k, m.Returns pack frame lower k Outcome.failure := by
  obtain ⟨task, top⟩ := finishes.top
  have acts (there : Machine packWords) : finishOperations (packRules pack) frame
      { chain with modifiers := [] } flags [] there = [.queue ⟨frame, .fallthrough⟩] :=
    if_pos marked
  obtain ⟨stack, hands⟩ := finishes.hands_over free (by simp) acts
  exact ⟨_, hands ((free.step top).falls stack fun _ member => absurd member List.not_mem_nil)⟩

theorem Finishes.returns_leaf {source : PackSource} {rest : List PackSource}
    (finishes : m.Finishes pack S mark frame lower flags (source :: rest) chain)
    (free : m.Free pack) (marked : flags.isReturn = true) {leaf : LeafAction}
    (ends : chain.executable = .leaf leaf) :
    ∃ k, m.Returns pack frame lower k (leaf.outcome source (m.step (packRules pack)).setting) := by
  obtain ⟨task, top⟩ := finishes.top
  let line : LeafLine packWords := ⟨leaf, chain.input, flags⟩
  have acts (there : Machine packWords) : finishOperations (packRules pack) frame
      { chain with modifiers := [] } flags (source :: rest) there =
      [.queue ⟨frame, .execute line source⟩] := by
    unfold finishOperations
    rw [if_neg (by simp)]
    simp only [ends, marked, if_true]
    rfl
  obtain ⟨stack, hands⟩ := finishes.hands_over free (by simp) acts
  have returning : line.flags.isReturn = true := marked
  obtain ⟨before, same, mundane⟩ := leafOperations_returns pack frame returning source
    ((m.step (packRules pack)).taking ⟨frame, .execute line source⟩ ([] ++ lower))
  have never : returnsIn before = [] :=
    returnsIn_eq_nil fun frame outcome member => mundane (.returnFrom frame outcome) member
  exact ⟨_, hands ((free.step top).returns_last stack
    (fun _ member => absurd member List.not_mem_nil)
    ((turnOperations_of_entries _ stack).trans same)
    (Operation.queuedIn_eq_nil fun entry member => mundane (.queue entry) member)
    (by simp [never]))⟩

theorem Finishes.returns_call {source : PackSource} {rest : List PackSource}
    (finishes : m.Finishes pack S mark frame lower flags (source :: rest) chain)
    (free : m.Free pack) (marked : flags.isReturn = true) {action : CallAction}
    (ends : chain.executable = .action action)
    (accepted : ¬LineAction.Refused pack (.call action)) :
    ∃ k outcome, m.Returns pack frame lower k outcome ∧
      ∀ result, action.returned? = some result → outcome = result := by
  obtain ⟨task, top⟩ := finishes.top
  have acts (there : Machine packWords) : finishOperations (packRules pack) frame
      { chain with modifiers := [] } flags (source :: rest) there =
      actAllOperations (packRules pack) frame action { chain with modifiers := [] } flags
        (source :: rest) there := by
    unfold finishOperations
    rw [if_neg (by simp)]
    simp only [ends]
  cases returned : action.returned? with
  | some outcome =>
    obtain ⟨opening, there, turn, idle, tacit⟩ := finishes.turn
    obtain ⟨before, split, lineless, only⟩ :=
      returnsOf_split frame outcome (List.cons_ne_nil source rest)
    rw [acts, actAllOperations_of_returned returned, split, ← List.append_assoc] at turn
    have never : returnsIn opening = [] :=
      returnsIn_eq_nil fun frame outcome member => (tacit _ member).works frame outcome rfl
    have entries : m.stack.entries = ⟨frame, task⟩ :: ([] ++ lower) := top
    have returns := free.returns_last entries (fun _ member => absurd member List.not_mem_nil)
      turn (by simp [idle, lineless]) (by simpa [never] using only)
    exact ⟨1, outcome, returns, fun result same => Option.some.inj same⟩
  | none =>
    cases action with
    | function target arguments =>
      simp only [LineAction.Refused, ne_eq, not_forall, not_not] at accepted
      obtain ⟨functions, bound, resolves, binds⟩ := accepted
      have stack := (finishes.queues free fun there => by
        rw [acts]
        exact actAllOperations_returnCalls resolves binds marked mark _ there).1
      have each : ∀ entry ∈ (source :: rest).flatMap (returnCalls frame bound),
          Pursues frame entry := by
        intro entry member
        obtain ⟨_, _, member⟩ := List.mem_flatMap.mp member
        exact pursues_of_mem_returnCalls member
      have falls : ⟨frame, .fallthrough⟩ ∈ (source :: rest).flatMap (returnCalls frame bound) :=
        List.mem_flatMap.mpr ⟨source, List.mem_cons_self,
          List.mem_append_right _ List.mem_cons_self⟩
      obtain ⟨k, outcome, returns, lineless⟩ := (free.step top).pursues stack each ⟨_, falls, rfl⟩
      exact ⟨1 + k, outcome, .of_turn free top lineless returns, fun _ same => by cases same⟩
    | debug target => exact absurd trivial accepted
    | returnValue value => cases returned
    | returnFail => cases returned

theorem Finishes.returns (finishes : m.Finishes pack S mark frame lower flags present chain)
    (free : m.Free pack) (marked : flags.isReturn = true) {action : LineAction}
    (ends : chain.executable = action.executable)
    (accepted : present = [] ∨ ¬action.Refused pack) :
    ∃ k outcome, m.Returns pack frame lower k outcome ∧
      action.Decides (m.step (packRules pack)).setting outcome present := by
  cases present with
  | nil =>
    obtain ⟨k, returns⟩ := finishes.returns_failure free marked
    exact ⟨k, _, returns, by cases action <;> rfl⟩
  | cons source rest =>
    have accepted := accepted.resolve_left (List.cons_ne_nil _ _)
    cases action with
    | leaf leaf =>
      obtain ⟨k, returns⟩ := finishes.returns_leaf free marked ends
      exact ⟨k, _, returns, rfl⟩
    | call call => exact finishes.returns_call free marked ends accepted

/-- A line whose action is refused leaves its frame as it is, with a failure recorded. -/
theorem Finishes.refuses (finishes : m.Finishes pack S mark frame lower flags present chain)
    (free : m.Free pack) (marked : flags.isReturn = true) {action : CallAction}
    (ends : chain.executable = .action action) (sources : present ≠ [])
    (refused : LineAction.Refused pack (.call action)) :
    (m.step (packRules pack)).stack.entries = lower ∧
      (m.step (packRules pack)).heap.recorded frame.slot = some Outcome.failure ∧
      m.turnHeard (packRules pack) =
        present.flatMap fun source => source.callback.hearing Outcome.failure := by
  obtain ⟨task, top⟩ := finishes.top
  obtain ⟨opening, there, turn, idle, tacit⟩ := finishes.turn
  have acts : finishOperations (packRules pack) frame { chain with modifiers := [] } flags present
      there = actAllOperations (packRules pack) frame action { chain with modifiers := [] } flags
        present there := by
    unfold finishOperations
    rw [if_neg (by simpa using sources)]
    simp only [ends]
  obtain ⟨mundane, heard, records⟩ := actAllOperations_of_refused refused marked frame
    { chain with modifiers := [] } present there
  rw [acts] at turn
  have never : returnsIn (m.turnOperations (packRules pack)) = [] := by
    refine returnsIn_eq_nil fun other outcome member => ?_
    rw [turn] at member
    cases List.mem_append.mp member with
    | inl member => exact (tacit _ member).works other outcome rfl
    | inr member => exact mundane (.returnFrom other outcome) member
  have queues : Operation.queuedIn (m.turnOperations (packRules pack)) = [] := by
    rw [turn, Operation.queuedIn_append, idle]
    exact Operation.queuedIn_eq_nil fun entry member => mundane (.queue entry) member
  refine ⟨?_, ?_, ?_⟩
  · rw [free.step_queued top never, queues]
    rfl
  · obtain ⟨first, last⟩ := records sources
    have known : frame.slot < (Operation.applyAll (packRules pack) (opening ++ first)
        (m.taking ⟨frame, task⟩ lower)).heap.slots.size :=
      Nat.lt_of_lt_of_le (free.known top).known
        (Operation.expands_applyAll (packRules pack) _ (m.taking ⟨frame, task⟩ lower)).slots
    rw [step_eq_applyAll _ top, turn, last, ← List.append_assoc, Operation.applyAll_append]
    exact (Heap.recorded_record _ known Outcome.failure).trans (if_pos rfl)
  · rw [turnHeard_of_entries _ top, turn, Operation.allHeard_append, allHeard_tacit tacit, heard]
    rfl

theorem Returns.noLine (free : m.Free pack) {task : Task packWords}
    (top : m.stack.entries = ⟨frame, task⟩ :: lower) {k j : Nat} {outcome : Outcome}
    (returns : m.Returns pack frame lower k outcome) (positive : 0 < j)
    (runs : m.Runs (packRules pack) j) : (m.after (packRules pack) j).NoLine frame := by
  by_cases early : j < k
  · exact returns.idle j early positive
  obtain ⟨i, rfl⟩ := Nat.exists_eq_add_of_le (Nat.le_of_not_lt early)
  rw [after_add]
  refine (free.after returns.runs).noLine_of_absent (Nat.lt_of_lt_of_le (free.known top).known
    (after_expands (packRules pack) k m).slots) ?_ ((runs_add_iff _ k i m).mp runs).2
  rw [returns.left]
  exact free.reached.absent_of_returned top

/-- A line marked as a return that gets to its executable ends its frame, unless its action is
refused there: the frame's sink hears what the line decides, or what the functions say that it
calls, and no later line of the body runs. A refused action is told to the line's sources and
recorded, but the frame goes on. -/
theorem Reached.return_line_returns (reached : m.Reached (packRules pack) PackTask)
    (unlimited : m.Unlimited (packRules pack)) {line : CommandLine} (marked : line.isReturn = true)
    {source : PackSource} {n : Nat}
    (entries : m.stack.entries = ⟨frame, Task.command line.compile source⟩ :: lower)
    (arrives : m.Arrives (packRules pack) frame lower flags present line.compile n) :
    m.Runs (packRules pack) n ∧
    (present = [] ∨ ¬line.action.Refused pack → ∃ k outcome,
      (m.after (packRules pack) n).Returns pack frame lower k outcome ∧
      line.action.Decides (m.after (packRules pack) (n + 1)).setting outcome present ∧
      ∀ j, 0 < j → (m.after (packRules pack) n).Runs (packRules pack) j →
        (m.after (packRules pack) (n + j)).NoLine frame) ∧
    (present ≠ [] → line.action.Refused pack →
      (m.after (packRules pack) (n + 1)).stack.entries = lower ∧
      (m.after (packRules pack) (n + 1)).heap.recorded frame.slot = some Outcome.failure ∧
      (m.after (packRules pack) n).turnHeard (packRules pack) =
        present.flatMap fun source => source.callback.hearing Outcome.failure) := by
  have free : m.Free pack := ⟨reached, unlimited⟩
  have bare : ({} : Heap packWords).Expands m.heap := ⟨⟨by simp, by simp⟩, by simp⟩
  obtain ⟨runs, finishes, _⟩ := arrives.finishes free (packRules pack).redirectsKeep_true bare
    fun issuer sources before topLevel _ =>
      ⟨trivial, fun _ _ => trivial, fun cell _ => Nat.zero_le cell⟩
  have returns : flags.isReturn = true := by
    rw [arrives.isReturn_eq entries]
    simp [returnMarked, CommandLine.compile, CommandLine.stages, marked, Modifier.returnRun]
  have here := free.after runs
  obtain ⟨task, top⟩ := finishes.top
  rw [after_succ]
  refine ⟨runs, fun accepted => ?_, fun bound refused => ?_⟩
  · obtain ⟨k, outcome, ended, decides⟩ := finishes.returns here returns rfl accepted
    refine ⟨k, outcome, ended, decides, fun j positive further => ?_⟩
    rw [after_add]
    exact ended.noLine here top positive further
  · cases action : line.action with
    | leaf l =>
      rw [action] at refused
      exact refused.elim
    | call call =>
      rw [action] at refused
      exact finishes.refuses here returns (congrArg LineAction.executable action) bound refused

/-- Two functions whose first line is marked as a return. One of them calls a function that there
is, the other one that there is not. -/
def returnPack : Pack where
  functions :=
    [(⟨"minecraft", "five", .refl true, .refl true⟩,
      { lines := [.obj [("run", .arr [.str "Return", .num (.int 5)])]] }),
     (⟨"minecraft", "found", .refl true, .refl true⟩, { lines := [
      .obj [("return", .bool true), ("run", .arr [.str "Function", .str "five"])],
      .obj [("run", .arr [.str "Say", .str "late"])]] }),
     (⟨"minecraft", "lost", .refl true, .refl true⟩, { lines := [
      .obj [("return", .bool true), ("run", .arr [.str "Function", .str "missing"])],
      .obj [("run", .arr [.str "Say", .str "late"])]] })]

def returnRun (target : String) : Machine packWords :=
  (({ target := target } : RunRequest).opening
    ((RunRequest.functions returnPack { target := target }).toOption.getD []) {}).after
    (packRules returnPack) 1

def callLine (target : String) : CommandLine := ⟨[], true, .call (.function target none)⟩

theorem returnRun_reached (target : String)
    (goes : (({ target := target } : RunRequest).opening
      ((RunRequest.functions returnPack { target := target }).toOption.getD []) {}).verdict? =
        none) : (returnRun target).Reached (packRules returnPack) PackTask :=
  (RunRequest.opening_reached { target := target }
    ((RunRequest.functions returnPack { target := target }).toOption.getD []) {} returnPack).after
    ((runs_succ_iff _ _ _).mpr ⟨goes, runs_zero _ _⟩)

theorem return_line_returns_five : ∃ frame lower,
    (returnRun "found").stack.entries =
        ⟨frame, Task.command (callLine "five").compile PackSource.server⟩ :: lower ∧
      (returnRun "found").Arrives (packRules returnPack) frame lower { isReturn := true }
        [PackSource.server] (callLine "five").compile 0 ∧
      ∃ k outcome, (returnRun "found").Returns returnPack frame lower k outcome := by
  have reached := returnRun_reached "found" rfl
  have unlimited : (returnRun "found").Unlimited (packRules returnPack) :=
    unlimited_of_turn (show turn (packRules returnPack) 20 _ = some (.ok (), _) from rfl)
  have arrives : (returnRun "found").Arrives (packRules returnPack) _ _ _ [PackSource.server]
      (callLine "five").compile 0 := .ends rfl rfl
  have accepted : ¬(callLine "five").action.Refused returnPack := fun refused => refused _ _ rfl rfl
  have marked : (callLine "five").isReturn = true := rfl
  obtain ⟨_, returns, _⟩ := reached.return_line_returns unlimited marked rfl arrives
  obtain ⟨k, outcome, returned, _⟩ := returns (.inr accepted)
  exact ⟨_, _, rfl, arrives, k, outcome, returned⟩

/-- A return line whose action is refused neither ends its frame nor keeps later lines from
running. -/
theorem return_line_goes_on :
    ¬∀ (pack : Pack) (m : Machine packWords) (frame : Frame packWords)
      (lower : List (Entry packWords)) (line : CommandLine) (source : PackSource) (flags : Flags)
      (present : List PackSource) (n : Nat), m.Reached (packRules pack) PackTask →
      m.Unlimited (packRules pack) → line.isReturn = true →
      m.stack.entries = ⟨frame, Task.command line.compile source⟩ :: lower →
      m.Arrives (packRules pack) frame lower flags present line.compile n →
      ∃ k outcome, (m.after (packRules pack) n).Returns pack frame lower k outcome ∧
        ∀ j, 0 < j → (m.after (packRules pack) n).Runs (packRules pack) j →
          (m.after (packRules pack) (n + j)).NoLine frame := by
  intro ends
  have unlimited : (returnRun "lost").Unlimited (packRules returnPack) :=
    unlimited_of_turn (show turn (packRules returnPack) 20 _ = some (.ok (), _) from rfl)
  obtain ⟨_, _, _, never⟩ := ends returnPack (returnRun "lost") _ _ (callLine "missing")
    PackSource.server _ [PackSource.server] 0 (returnRun_reached "lost" rfl) unlimited rfl rfl
    (.ends rfl rfl)
  exact never 1 Nat.one_pos ((runs_succ_iff _ _ _).mpr ⟨rfl, runs_zero _ _⟩) _ _ _ _ _ _ rfl

end Machine

end PackEngine
