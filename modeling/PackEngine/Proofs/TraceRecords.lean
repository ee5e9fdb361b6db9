import PackEngine.Proofs.Accounts
import PackEngine.Proofs.TraceRuns

/-! What a trace records. Each turn tells the tracer of its line, its command or its call, and of
the errors it reports; so the trace of a run can be read against its journal and its account. -/
namespace PackEngine

open Machine

namespace TraceEvent

def isCall : TraceEvent → Bool
  | .call .. => true
  | _ => false

def isReturned : TraceEvent → Bool
  | .returned .. => true
  | _ => false

def error? : TraceEvent → Option String
  | .error message => some message
  | _ => none

def OnlyErrors (told : List TraceEvent) : Prop := ∀ event ∈ told, ∃ message, event = .error message

theorem OnlyErrors.unpaid {told : List TraceEvent} (h : OnlyErrors told) :
    told.countP isCall = 0 ∧ told.countP isReturned = 0 := by
  constructor
  all_goals
    refine List.countP_eq_zero.mpr fun event member => ?_
    obtain ⟨_, rfl⟩ := h event member
    exact Bool.false_ne_true

end TraceEvent

def Task.Underway {V : Vocabulary} : Task V → Prop
  | .line _ _ _ _ topLevel => topLevel = false
  | _ => True

def Operation.events {V : Vocabulary} : Operation V → List TraceEvent
  | .trace event => [event]
  | .report _ error _ => [.error error.message]
  | _ => []

def Operation.messages {V : Vocabulary} : Operation V → List String
  | .report _ error _ => [error.message]
  | _ => []

def Operation.Untold {V : Vocabulary} : Operation V → Prop
  | .trace _ => False
  | _ => True

section

variable {V : Vocabulary} {rules : Rules V} {frame : Frame V}

theorem Operation.Asked.untold {operation : Operation V} (h : operation.Asked frame) :
    operation.Untold := by
  cases operation with
  | trace event => exact h
  | _ => trivial

namespace Machine

theorem untold_operations (rules : Rules V) (frame : Frame V) {task : Task V}
    (command : task.isCommand = false) (underway : task.Underway) (m : Machine V) :
    ∀ operation ∈ m.operations rules frame task, operation.Untold := by
  intro operation member
  cases task with
  | line issuer sources chain flags topLevel =>
    cases topLevel with
    | true => cases underway
    | false =>
      cases sources with
      | ready sources => exact (walkOperations_asked _ _ _ _ _ operation member).untold
      | collected cell =>
        obtain rfl | member := List.mem_cons.mp member
        · trivial
        · exact (walkOperations_asked _ _ _ _ _ operation member).untold
  | execute line source => cases command
  | call function callback returnCall source => cases command
  | drip line sources =>
    cases sources with
    | nil => cases member
    | cons source rest =>
      obtain rfl | rfl := mem_dripOperations member <;> trivial
  | endFunction =>
    simp only [operations] at member
    split at member
    · rw [List.mem_singleton.mp member]
      trivial
    · cases member
  | isolated producer output =>
    obtain rfl | member := List.mem_cons.mp member
    · trivial
    · exact (Procedure.operations_asked _ _ _ _ operation member).untold
  | fallthrough =>
    rw [List.mem_singleton.mp member]
    trivial
  | deferred procedure => exact (Procedure.operations_asked _ _ _ _ operation member).untold

end Machine

theorem Operation.Untold.events {operations : List (Operation V)}
    (untold : ∀ operation ∈ operations, operation.Untold) :
    TraceEvent.OnlyErrors (operations.flatMap Operation.events) := by
  intro event member
  obtain ⟨operation, among, member⟩ := List.mem_flatMap.mp member
  have silent := untold operation among
  cases operation with
  | trace event => exact silent.elim
  | report source error forked => exact ⟨_, List.mem_singleton.mp member⟩
  | _ => cases member

theorem Operation.Untold.messages {operations : List (Operation V)}
    (untold : ∀ operation ∈ operations, operation.Untold) :
    operations.flatMap Operation.messages =
      (operations.flatMap Operation.events).filterMap TraceEvent.error? := by
  rw [List.filterMap_flatMap]
  refine List.flatMap_congr fun operation member => ?_
  have silent := untold operation member
  cases operation with
  | trace event => exact silent.elim
  | _ => rfl

inductive Task.Tells (rules : Rules V) (frame : Frame V) (m : Machine V) :
    Task V → List TraceEvent → Prop where
  | line (issuer : Source V) (sources : Sources V) (chain : Chain V) (flags : Flags)
      {errors : List TraceEvent} (only : TraceEvent.OnlyErrors errors) :
      Tells rules frame m (.line issuer sources chain flags true)
        (.command frame.depth chain.input :: errors)
  | value {line : LeafLine V} {source : Source V} {value : Int32}
      (ran : (rules.leaf line.leaf source m.setting).1 = .ok value) :
      Tells rules frame m (.execute line source) [.returned frame.depth line.input value]
  | failure {line : LeafLine V} {source : Source V} {error : CommandError}
      (ran : (rules.leaf line.leaf source m.setting).1 = .error error) :
      Tells rules frame m (.execute line source)
        [.error error.message, .returned frame.depth line.input 0]
  | call (function : BoundFunction V) (callback : Callback V) (returnCall : Bool)
      (source : Source V) : Tells rules frame m (.call function callback returnCall source)
        [.call frame.depth function.id function.lines.length]
  | other {task : Task V} {errors : List TraceEvent} (command : task.isCommand = false)
      (underway : task.Underway) (only : TraceEvent.OnlyErrors errors) :
      Tells rules frame m task errors

theorem Task.tells (rules : Rules V) (frame : Frame V) (m : Machine V) (task : Task V) :
    task.Tells rules frame m ((m.operations rules frame task).flatMap Operation.events) ∧
      (m.operations rules frame task).flatMap Operation.messages =
        ((m.operations rules frame task).flatMap Operation.events).filterMap
          TraceEvent.error? := by
  have others (command : task.isCommand = false) (underway : task.Underway) :
      task.Tells rules frame m ((m.operations rules frame task).flatMap Operation.events) ∧ _ :=
    have untold := untold_operations rules frame command underway m
    ⟨.other command underway (Operation.Untold.events untold), Operation.Untold.messages untold⟩
  cases task with
  | line issuer sources chain flags topLevel =>
    cases topLevel with
    | false => exact others rfl rfl
    | true =>
      have untold (present : List (Source V)) (later : Machine V) (operation : Operation V)
          (member : operation ∈ walkOperations rules frame issuer chain chain.modifiers flags
            present later) : operation.Untold :=
        (walkOperations_asked issuer chain flags present later operation member).untold
      have only := fun present later => Operation.Untold.events (untold present later)
      have reported := fun present later => Operation.Untold.messages (untold present later)
      cases sources <;> exact ⟨.line issuer _ chain flags (only _ _), reported _ _⟩
  | execute line source =>
    simp only [operations, leafOperations]
    cases ran : (rules.leaf line.leaf source m.setting).1 with
    | ok value => cases line.flags.isReturn <;> exact ⟨.value ran, rfl⟩
    | error error => cases line.flags.isReturn <;> exact ⟨.failure ran, rfl⟩
  | call function callback returnCall source =>
    have silent (callee : Frame V) :
        (function.lines.map fun chain => Operation.queue
          ⟨callee, Task.command chain source⟩).flatMap Operation.events = [] ∧
        (function.lines.map fun chain => Operation.queue
          ⟨callee, Task.command chain source⟩).flatMap Operation.messages = [] := by
      simp [Operation.events, Operation.messages]
    simp only [operations, List.flatMap_append, silent]
    exact ⟨.call function callback returnCall source, rfl⟩
  | drip line sources => exact others rfl trivial
  | endFunction => exact others rfl trivial
  | isolated producer output => exact others rfl trivial
  | fallthrough => exact others rfl trivial
  | deferred procedure => exact others rfl trivial

theorem Task.Tells.paid {m : Machine V} {task : Task V} {told : List TraceEvent}
    (h : task.Tells rules frame m told) :
    told.countP TraceEvent.isCall + told.countP TraceEvent.isReturned =
      if task.isCommand then 1 else 0 := by
  cases h with
  | line issuer sources chain flags only =>
    rw [List.countP_cons_of_neg Bool.false_ne_true, List.countP_cons_of_neg Bool.false_ne_true,
      only.unpaid.1, only.unpaid.2]
    rfl
  | value ran => rfl
  | failure ran => rfl
  | call function callback returnCall source => rfl
  | other command underway only =>
    rw [only.unpaid.1, only.unpaid.2, command]
    rfl

end

def Effect.event? : Effect → Option TraceEvent
  | .traced .given (.event event) => some event
  | _ => none

def Effect.message? : Effect → Option String
  | .reported _ message _ => some message
  | _ => none

theorem Journal.traceEvents_eq (effects : List Effect) :
    Journal.traceEvents .given effects = effects.filterMap Effect.event? := by
  unfold traceEvents traceItems
  rw [List.filterMap_filterMap]
  refine List.filterMap_congr fun effect _ => ?_
  cases effect with
  | traced tracer item => cases tracer <;> cases item <;> rfl
  | _ => rfl

theorem Journal.messages_eq (effects : List Effect) :
    (Journal.errors effects).map (·.2.1) = effects.filterMap Effect.message? := by
  unfold errors
  rw [List.map_filterMap]
  refine List.filterMap_congr fun effect _ => ?_
  cases effect <;> rfl

theorem Effect.event?_eq_none {effect : Effect} (other : effect.isRecord = false) :
    effect.event? = none := by
  cases effect with
  | traced tracer item =>
    cases item with
    | event event => cases other
    | _ => cases tracer <;> rfl
  | _ => rfl

theorem Effect.message?_eq_none {effect : Effect} (other : effect.isRecord = false) :
    effect.message? = none := by
  cases effect with
  | reported sender message forked => cases other
  | _ => rfl

theorem filterMap_records {β : Type} {f : Effect → Option β}
    (other : ∀ effect, effect.isRecord = false → f effect = none) (effects : List Effect) :
    (effects.filter Effect.isRecord).filterMap f = effects.filterMap f := by
  rw [List.filterMap_filter]
  refine List.filterMap_congr fun effect _ => ?_
  split
  · rfl
  · next unrecorded => exact (other effect (Bool.eq_false_iff.mpr unrecorded)).symm

theorem Operation.events_records (operation : Operation packWords) :
    (operation.records (some .given)).filterMap Effect.event? = operation.events := by
  cases operation <;> rfl

theorem Operation.messages_records (operation : Operation packWords) :
    (operation.records (some .given)).filterMap Effect.message? = operation.messages := by
  cases operation <;> rfl

namespace Machine

variable {pack : Pack} {start : Machine packWords}

def events (start m : Machine packWords) : List TraceEvent :=
  Journal.traceEvents .given (m.setting.effectsSince start.setting.journal.size)

def messages (start m : Machine packWords) : List String :=
  (Journal.errors (m.setting.effectsSince start.setting.journal.size)).map (·.2.1)

structure Recorded (pack : Pack) (start : Machine packWords) : Prop where
  reached : start.Reached (packRules pack) PackTask
  attached : start.tracer = some .given
  steady : ∀ entry ∈ start.stack.entries, entry.task.Steady

theorem Recorded.step (h : start.Recorded pack) {n : Nat}
    (runs : start.Runs (packRules pack) (n + 1)) :
    (start.after (packRules pack) n).setting.Adds
      (((start.after (packRules pack) n).turnOperations (packRules pack)).flatMap
        (Operation.records (some .given)))
      (start.after (packRules pack) (n + 1)).setting := by
  obtain ⟨before, goes⟩ := (runs_succ_last_iff _ n start).mp runs
  obtain ⟨_, ⟨top, lower, entries⟩, _⟩ := (verdict?_eq_none_iff _).mp goes
  obtain ⟨attached, _, steady⟩ := attached_after h.reached h.attached h.steady before
  rw [after_succ, ← attached]
  exact (steady_step entries steady).2

theorem Recorded.adds (h : start.Recorded pack) {n : Nat}
    (runs : start.Runs (packRules pack) n) :
    ∃ records, start.setting.Adds records (start.after (packRules pack) n).setting := by
  induction n with
  | zero => exact ⟨[], .refl _⟩
  | succ n ih =>
    obtain ⟨_, early⟩ := ih (runs.mono (Nat.le_succ n))
    exact ⟨_, early.trans (h.step runs)⟩

theorem Recorded.filterMap_succ (h : start.Recorded pack) {n : Nat}
    (runs : start.Runs (packRules pack) (n + 1)) {β : Type} {f : Effect → Option β}
    (other : ∀ effect, effect.isRecord = false → f effect = none)
    {of : Operation packWords → List β}
    (reads : ∀ operation, (operation.records (some .given)).filterMap f = of operation) :
    ((start.after (packRules pack) (n + 1)).setting.effectsSince
        start.setting.journal.size).filterMap f =
      ((start.after (packRules pack) n).setting.effectsSince
        start.setting.journal.size).filterMap f ++
      ((start.after (packRules pack) n).turnOperations (packRules pack)).flatMap of := by
  obtain ⟨_, early⟩ := h.adds (runs.mono (Nat.le_succ n))
  have late := h.step runs
  rw [early.effectsSince_append late, List.filterMap_append]
  congr 1
  rw [← filterMap_records other, late.filter_effectsSince, List.filterMap_flatMap]
  congr 1
  exact funext reads

theorem Recorded.events_succ (h : start.Recorded pack) {n : Nat}
    (runs : start.Runs (packRules pack) (n + 1)) :
    start.events (start.after (packRules pack) (n + 1)) =
      start.events (start.after (packRules pack) n) ++
        ((start.after (packRules pack) n).turnOperations (packRules pack)).flatMap
          Operation.events := by
  unfold events
  rw [Journal.traceEvents_eq, Journal.traceEvents_eq]
  exact h.filterMap_succ runs (fun _ => Effect.event?_eq_none) Operation.events_records

theorem Recorded.messages_succ (h : start.Recorded pack) {n : Nat}
    (runs : start.Runs (packRules pack) (n + 1)) :
    start.messages (start.after (packRules pack) (n + 1)) =
      start.messages (start.after (packRules pack) n) ++
        ((start.after (packRules pack) n).turnOperations (packRules pack)).flatMap
          Operation.messages := by
  unfold messages
  rw [Journal.messages_eq, Journal.messages_eq]
  exact h.filterMap_succ runs (fun _ => Effect.message?_eq_none) Operation.messages_records

/-- What a turn of a recorded run adds to the trace, to the errors, and to the account. -/
theorem Recorded.turn (h : start.Recorded pack) {n : Nat}
    (runs : start.Runs (packRules pack) (n + 1)) {top : Entry packWords}
    {lower : List (Entry packWords)}
    (entries : (start.after (packRules pack) n).stack.entries = top :: lower) :
    ∃ told, top.task.Tells (packRules pack) top.frame
        ((start.after (packRules pack) n).taking top lower) told ∧
      start.events (start.after (packRules pack) (n + 1)) =
        start.events (start.after (packRules pack) n) ++ told ∧
      start.messages (start.after (packRules pack) (n + 1)) =
        start.messages (start.after (packRules pack) n) ++ told.filterMap TraceEvent.error? := by
  obtain ⟨tells, reported⟩ := Task.tells (packRules pack) top.frame
    ((start.after (packRules pack) n).taking top lower) top.task
  rw [← turnOperations_of_entries _ entries] at tells reported
  exact ⟨_, tells, h.events_succ runs, reported ▸ h.messages_succ runs⟩

theorem events_self (start : Machine packWords) : start.events start = [] := by
  unfold events
  rw [World.effectsSince_self]
  rfl

theorem messages_self (start : Machine packWords) : start.messages start = [] := by
  unfold messages
  rw [World.effectsSince_self]
  rfl

theorem Recorded.messages_eq (h : start.Recorded pack) {n : Nat}
    (runs : start.Runs (packRules pack) n) :
    (start.events (start.after (packRules pack) n)).filterMap TraceEvent.error? =
      start.messages (start.after (packRules pack) n) := by
  induction n with
  | zero => exact (congrArg _ start.events_self).trans start.messages_self.symm
  | succ n ih =>
    obtain ⟨before, goes⟩ := (runs_succ_last_iff _ n start).mp runs
    obtain ⟨_, ⟨top, lower, entries⟩, _⟩ := (verdict?_eq_none_iff _).mp goes
    obtain ⟨told, _, events, messages⟩ := h.turn runs entries
    rw [events, messages, List.filterMap_append, ih before]

theorem Recorded.quota (h : start.Recorded pack) {n : Nat}
    (runs : start.Runs (packRules pack) n) :
    (start.after (packRules pack) n).quota +
      ((start.events (start.after (packRules pack) n)).countP TraceEvent.isCall +
        (start.events (start.after (packRules pack) n)).countP TraceEvent.isReturned) =
      start.quota := by
  induction n with
  | zero =>
    show start.quota + ((start.events start).countP _ + (start.events start).countP _) = _
    rw [events_self]
    rfl
  | succ n ih =>
    obtain ⟨before, goes⟩ := (runs_succ_last_iff _ n start).mp runs
    obtain ⟨_, ⟨top, lower, entries⟩, left⟩ := (verdict?_eq_none_iff _).mp goes
    obtain ⟨told, tells, events, _⟩ := h.turn runs entries
    have spent : (start.after (packRules pack) (n + 1)).quota =
        (start.after (packRules pack) n).quota - if top.task.isCommand then 1 else 0 := by
      rw [after_succ, step_eq_applyAll _ entries, turnOperations_of_entries _ entries,
        ← charges_task (packRules pack) top.frame top.task _]
      exact Operation.quota_applyAll ..
    have one : (if top.task.isCommand then 1 else 0) ≤ 1 := by split <;> decide
    have account := ih before
    rw [events, List.countP_append, List.countP_append, spent]
    rw [← tells.paid] at one ⊢
    omega

theorem Recorded.events_prefix (h : start.Recorded pack) {n k : Nat}
    (runs : start.Runs (packRules pack) n) (le : k ≤ n) :
    start.events (start.after (packRules pack) k) <+:
      start.events (start.after (packRules pack) n) := by
  induction n, le using Nat.le_induction with
  | base => exact List.prefix_refl _
  | succ n le ih =>
    rw [h.events_succ runs]
    exact (ih (runs.mono (Nat.le_succ n))).trans (List.prefix_append _ _)

theorem Recorded.failure (h : start.Recorded pack) {n k : Nat}
    (runs : start.Runs (packRules pack) n) (less : k < n) {frame : Frame packWords}
    {line : LeafLine packWords} {source : PackSource} {lower : List (Entry packWords)}
    (entries : (start.after (packRules pack) k).stack.entries =
      ⟨frame, .execute line source⟩ :: lower) {error : CommandError}
    (fails : (line.leaf.perform source (start.after (packRules pack) k).setting).1 =
      .error error) :
    ∃ later, start.events (start.after (packRules pack) n) =
      start.events (start.after (packRules pack) k) ++
        .error error.message :: .returned frame.depth line.input 0 :: later := by
  obtain ⟨told, tells, events, _⟩ := h.turn (runs.mono less) entries
  obtain ⟨later, grown⟩ := h.events_prefix runs less
  cases tells with
  | value ran => cases fails.symm.trans ran
  | failure ran =>
    cases fails.symm.trans ran
    exact ⟨later, by rw [← grown, events, List.append_assoc]; rfl⟩
  | other command => cases command

end Machine

theorem RunRequest.opening_recorded {request : RunRequest} (traced : request.traced = true)
    (pack : Pack) (functions : List (BoundFunction packWords)) (w : World) :
    (request.opening functions w).Recorded pack :=
  ⟨request.opening_reached functions w pack, request.opening_attached functions w traced,
    request.opening_steady functions w⟩

end PackEngine
