import PackEngine.Proofs.Dockets
import PackEngine.Proofs.Halting

/-! Accounts of runs. At every instant of a machine's life its docket agrees with it, and what has
been charged for is what has been executed. So queue and quota add up, and the verdict of a run can
be read off the docket. -/
namespace PackEngine

open Machine

variable {V : Vocabulary}

def Operation.isCharge : Operation V → Bool
  | .charge => true
  | _ => false

def charges (operations : List (Operation V)) : Nat := operations.countP Operation.isCharge

inductive Activity (V : Vocabulary) where
  | seeding
  /-- The check before the next task. -/
  | checking
  /-- A task that has the operations still to do. -/
  | working (todo : List (Operation V))
  | ended (verdict : Except EngineError Unit)

/-- Commands whose turn has come and that are not charged for yet. -/
def Activity.due : Activity V → Nat
  | .working todo => charges todo
  | _ => 0

structure Instant (V : Vocabulary) where
  activity : Activity V
  machine : Machine V
  docket : Docket V

namespace Instant

def next (rules : Rules V) (x : Instant V) : Instant V :=
  match x.activity with
  | .seeding => ⟨.checking, x.machine.opened, x.docket.push⟩
  | .checking =>
      match x.machine.verdict?, x.machine.stack.entries with
      | some verdict, _ => ⟨.ended verdict, x.machine.close verdict, x.docket.close verdict⟩
      | none, [] => x
      | none, entry :: rest =>
          let m := x.machine.taking entry rest
          ⟨.working (m.operations rules entry.frame entry.task), m, x.docket.take⟩
  | .working [] => ⟨.checking, x.machine.pushPending, x.docket.push⟩
  | .working (operation :: todo) =>
      ⟨.working todo, operation.apply rules x.machine, x.docket.apply x.machine operation⟩
  | .ended _ => x

def after (rules : Rules V) (n : Nat) (x : Instant V) : Instant V := (next rules)^[n] x

end Instant

inductive Seeding : Machine V → Docket V → Prop where
  | start (limits : Limits) (scene : Scene V) : Seeding (.start limits scene) {}
  | seed {m : Machine V} {d : Docket V} (task : Task V) (sink : Callback V)
      (before : Seeding m d) :
      Seeding (m.seed task sink) (d.offer m ⟨Frame.root m.nextSeed sink m.newSlot.1, task⟩)
  | meanwhile {m : Machine V} {d : Docket V} (scene : Scene V) (tracer : Option V.Tracer)
      (before : Seeding m d) : Seeding { m with toScene := scene, tracer := tracer } d

structure Instant.Accounted (limits : Limits) (x : Instant V) : Prop
    extends x.docket.Agrees x.machine where
  unchanged : x.machine.limits = limits
  solvent : x.machine.executed + x.machine.quota = limits.commands
  executed : x.machine.executed + x.activity.due = x.docket.commands
  /-- What is due can be charged for. -/
  affordable : x.activity.due ≤ x.machine.quota
  /-- A command is charged for once, before it does anything else. -/
  prompt : x.activity.due = 0 ∨
    ∃ todo, x.activity = .working (.charge :: todo) ∧ charges todo = 0
  dropped : (∀ error, x.activity ≠ .ended (.error error)) → x.docket.dropped = []
  idle : x.activity = .checking → x.machine.pending = Stack.empty

/-! Charges. -/

@[simp] theorem charges_nil : charges ([] : List (Operation V)) = 0 := rfl

@[simp] theorem charges_cons (operation : Operation V) (rest : List (Operation V)) :
    charges (operation :: rest) = charges rest + if operation.isCharge then 1 else 0 :=
  List.countP_cons

@[simp] theorem charges_append (first second : List (Operation V)) :
    charges (first ++ second) = charges first + charges second := List.countP_append

theorem charges_eq_zero {operations : List (Operation V)}
    (free : ∀ operation ∈ operations, operation.isCharge = false) : charges operations = 0 := by
  refine List.countP_eq_zero.mpr fun operation member => ?_
  rw [free operation member]
  exact Bool.false_ne_true

theorem charges_of_asked {frame : Frame V} {operations : List (Operation V)}
    (asked : ∀ operation ∈ operations, operation.Asked frame) : charges operations = 0 := by
  refine charges_eq_zero fun operation member => ?_
  have free := asked operation member
  cases operation with
  | charge => exact free.elim
  | _ => rfl

namespace Machine

variable {rules : Rules V} {frame : Frame V}

theorem charges_leafOperations (line : LeafLine V) (source : Source V) (m : Machine V) :
    ∃ rest, leafOperations rules frame line source m = .charge :: rest ∧ charges rest = 0 := by
  obtain ⟨outcome, tracing, same, only⟩ := leafOperations_eq rules frame line source m
  refine ⟨_, same, ?_⟩
  have quiet : charges tracing = 0 := by
    refine charges_eq_zero fun operation member => ?_
    obtain ⟨_, rfl⟩ | ⟨_, _, rfl⟩ := only operation member <;> rfl
  simp only [List.append_eq, charges_append, quiet]
  cases line.flags.isReturn <;> rfl

theorem charges_operations (rules : Rules V) (frame : Frame V) (task : Task V) (m : Machine V) :
    if task.isCommand then
      ∃ rest, m.operations rules frame task = .charge :: rest ∧ charges rest = 0
    else charges (m.operations rules frame task) = 0 := by
  cases task with
  | line issuer sources chain flags topLevel =>
    simp only [operations, charges_append, charges_of_asked (walkOperations_asked _ _ _ _ _)]
    cases topLevel <;> cases sources <;> rfl
  | execute line source => exact charges_leafOperations line source m
  | drip line sources =>
    cases sources with
    | nil => rfl
    | cons source rest => cases rest <;> rfl
  | call function callback returnCall source =>
    refine ⟨_, rfl, ?_⟩
    refine charges_eq_zero fun operation member => ?_
    simp only [List.append_eq, List.mem_append, List.mem_cons, List.mem_map, List.not_mem_nil,
      or_false] at member
    obtain ((rfl | rfl) | ⟨_, _, rfl⟩) | rfl := member <;> rfl
  | endFunction =>
    unfold operations
    cases m.heap.recorded frame.slot <;> rfl
  | isolated producer output =>
    show charges (producer.operations rules _ m.newSlot.2) = 0
    exact charges_of_asked (Procedure.operations_asked rules _ producer m.newSlot.2)
  | fallthrough => rfl
  | deferred procedure =>
    exact charges_of_asked (Procedure.operations_asked rules frame procedure m)

theorem charges_task (rules : Rules V) (frame : Frame V) (task : Task V) (m : Machine V) :
    charges (m.operations rules frame task) = if task.isCommand then 1 else 0 := by
  have charged := charges_operations rules frame task m
  by_cases command : task.isCommand
  · rw [if_pos command] at charged ⊢
    obtain ⟨rest, same, free⟩ := charged
    rw [same, charges_cons, free]
    rfl
  · rw [if_neg command] at charged ⊢
    exact charged

end Machine

theorem Operation.quota_apply (rules : Rules V) (operation : Operation V) (m : Machine V) :
    (operation.apply rules m).quota = m.quota - if operation.isCharge then 1 else 0 := by
  cases operation with
  | queue entry => exact m.enqueue_quota entry
  | report source error forked => exact m.trace_quota rules (.error error.message)
  | trace event => exact m.trace_quota rules event
  | attach tracer =>
    simp only [apply]
    split <;> rfl
  | _ => rfl

theorem Operation.quota_applyAll (rules : Rules V) (operations : List (Operation V))
    (m : Machine V) : (applyAll rules operations m).quota = m.quota - charges operations := by
  induction operations generalizing m with
  | nil => rfl
  | cons operation rest ih =>
    rw [applyAll_cons, ih, quota_apply, charges_cons, Nat.sub_sub, Nat.add_comm]

namespace Instant

variable {rules : Rules V} {limits : Limits} {m : Machine V} {d : Docket V}

theorem Accounted.work {operation : Operation V} {todo : List (Operation V)}
    (h : Accounted limits ⟨.working (operation :: todo), m, d⟩) (rules : Rules V) :
    Accounted limits ⟨.working todo, operation.apply rules m, d.apply m operation⟩ := by
  have quota := operation.quota_apply rules m
  have kept := operation.limits_apply rules m
  obtain ⟨executed, dropped⟩ := d.apply_keeps m operation
  have due : (Activity.working (operation :: todo)).due =
      charges todo + if operation.isCharge then 1 else 0 := charges_cons operation todo
  have solvent : m.limits.commands - m.quota + m.quota = m.limits.commands :=
    h.solvent.trans (congrArg Limits.commands h.unchanged).symm
  have affordable := h.affordable
  have balance := h.executed
  have prompt : charges todo = 0 := by
    obtain drained | ⟨_, same, free⟩ := h.prompt
    · rw [due] at drained
      exact Nat.eq_zero_of_add_eq_zero_right drained
    · cases same
      exact free
  have after : (Activity.working todo).due = 0 := prompt
  rw [due, prompt] at affordable balance
  refine ⟨h.toAgrees.apply rules operation, kept.trans h.unchanged, ?_, ?_, ?_, .inl after,
    fun other => dropped.trans (h.dropped fun error same => by cases same),
    fun same => by cases same⟩
  · show (operation.apply rules m).limits.commands - (operation.apply rules m).quota +
      (operation.apply rules m).quota = limits.commands
    rw [quota, kept]
    change 0 + (if operation.isCharge then 1 else 0) ≤ m.quota at affordable
    have unchanged : m.limits.commands = limits.commands := congrArg Limits.commands h.unchanged
    omega
  · show (operation.apply rules m).limits.commands - (operation.apply rules m).quota +
      charges todo = (d.apply m operation).executed.countP _
    rw [quota, kept, prompt, executed]
    refine Eq.trans ?_ balance
    show _ = m.limits.commands - m.quota + _
    change 0 + (if operation.isCharge then 1 else 0) ≤ m.quota at affordable
    omega
  · rw [after]
    exact Nat.zero_le _

theorem Accounted.take (h : Accounted limits ⟨.checking, m, d⟩) (rules : Rules V) {entry : Entry V}
    {rest : List (Entry V)} (entries : m.stack.entries = entry :: rest) (left : m.quota ≠ 0) :
    Accounted limits ⟨.working ((m.taking entry rest).operations rules entry.frame entry.task),
      m.taking entry rest, d.take⟩ := by
  have charged := Machine.charges_operations rules entry.frame entry.task (m.taking entry rest)
  have commands := h.toAgrees.commands_take entries
  have balance : m.executed + 0 = d.commands := h.executed
  have agrees := h.toAgrees.take entries
  have due := Machine.charges_task rules entry.frame entry.task (m.taking entry rest)
  generalize (m.taking entry rest).operations rules entry.frame entry.task = todo at charged due
  have prompt : charges todo = 0 ∨
      ∃ others, Activity.working todo = .working (.charge :: others) ∧ charges others = 0 := by
    split at charged
    · obtain ⟨others, rfl, free⟩ := charged
      exact .inr ⟨others, rfl, free⟩
    · exact .inl charged
  refine ⟨agrees, h.unchanged, h.solvent, ?_, ?_, prompt,
    fun _ => h.dropped fun error same => (by cases same), fun same => (by cases same)⟩
  · show m.executed + charges todo = d.take.commands
    rw [commands, due, ← balance, Nat.add_zero]
  · show charges todo ≤ m.quota
    rw [due]
    split <;> omega

theorem next_of_verdict {verdict : Except EngineError Unit} (ends : m.verdict? = some verdict) :
    next rules ⟨.checking, m, d⟩ = ⟨.ended verdict, m.close verdict, d.close verdict⟩ := by
  unfold Instant.next
  rw [ends]

theorem next_of_entries (goes : m.verdict? = none) {entry : Entry V} {rest : List (Entry V)}
    (entries : m.stack.entries = entry :: rest) :
    next rules ⟨.checking, m, d⟩ =
      ⟨.working ((m.taking entry rest).operations rules entry.frame entry.task),
        m.taking entry rest, d.take⟩ := by
  unfold Instant.next
  rw [goes, entries]

theorem Accounted.next {x : Instant V} (h : x.Accounted limits) (rules : Rules V) :
    (x.next rules).Accounted limits := by
  obtain ⟨activity, m, d⟩ := x
  have pushed := h.toAgrees.push
  cases activity with
  | seeding =>
    have agrees : d.push.Agrees m.opened := ⟨pushed.stacked, pushed.staged, pushed.places,
      pushed.covered, pushed.queued_le, pushed.crowded⟩
    exact ⟨agrees, h.unchanged, h.solvent, h.executed, Nat.zero_le _, .inl rfl,
      fun _ => h.dropped fun error same => (by cases same), fun _ => rfl⟩
  | checking =>
    cases verdict : m.verdict? with
    | none =>
      obtain ⟨_, ⟨entry, rest, entries⟩, left⟩ := (Machine.verdict?_eq_none_iff m).mp verdict
      rw [next_of_entries verdict entries]
      exact h.take rules entries left
    | some result =>
      rw [next_of_verdict verdict]
      have agrees := h.toAgrees.close result
      cases result with
      | ok value =>
        exact ⟨agrees, h.unchanged, h.solvent, h.executed, Nat.zero_le _, .inl rfl,
          fun _ => h.dropped fun error same => (by cases same), fun same => (by cases same)⟩
      | error error =>
        exact ⟨agrees, h.unchanged, h.solvent, h.executed, Nat.zero_le _, .inl rfl,
          fun other => absurd rfl (other error), fun same => (by cases same)⟩
  | working todo =>
    cases todo with
    | nil =>
      exact ⟨pushed, h.unchanged, h.solvent, h.executed, Nat.zero_le _, .inl rfl,
        fun _ => h.dropped fun error same => (by cases same), fun _ => rfl⟩
    | cons operation todo => exact h.work rules
  | ended verdict => exact h

theorem Accounted.after {x : Instant V} (h : x.Accounted limits) (rules : Rules V) (n : Nat) :
    (x.after rules n).Accounted limits := by
  induction n with
  | zero => exact h
  | succ n ih =>
    unfold Instant.after at ih ⊢
    rw [Function.iterate_succ_apply']
    exact ih.next rules

end Instant

theorem Seeding.accounted {m : Machine V} {d : Docket V} (h : Seeding m d) :
    Instant.Accounted m.limits ⟨.seeding, m, d⟩ := by
  induction h with
  | start limits scene =>
    refine ⟨⟨rfl, rfl, .refl _, fun _ member => absurd member List.not_mem_nil, Nat.zero_le _, ?_⟩,
      rfl, ?_, ?_, Nat.zero_le _, .inl rfl, fun _ => rfl, fun same => by cases same⟩
    · exact ⟨fun same => Bool.noConfusion same, fun member => absurd member List.not_mem_nil⟩
    · exact Nat.sub_add_cancel (Nat.le_refl _)
    · exact Nat.sub_self _
  | @seed m d task sink before ih =>
    -- the root frame's slot and seed concern neither the queue nor the quota
    let rooted : Machine V := { m.newSlot.2 with nextSeed := m.nextSeed + 1 }
    let entry : Entry V := ⟨Frame.root m.nextSeed sink m.newSlot.1, task⟩
    have before := ih.toAgrees
    have agrees : d.Agrees rooted := ⟨before.stacked, before.staged, before.places,
      before.covered, before.queued_le, before.crowded⟩
    have docket := d.apply_keeps rooted (.queue entry)
    have balance : m.limits.commands - m.quota + 0 = d.executed.countP _ := ih.executed
    refine ⟨agrees.offer entry, rfl, ?_, ?_, Nat.zero_le _, .inl rfl, fun _ => ?_,
      fun same => by cases same⟩
    · show (rooted.enqueue entry).limits.commands - (rooted.enqueue entry).quota +
        (rooted.enqueue entry).quota = (rooted.enqueue entry).limits.commands
      rw [enqueue_quota, enqueue_limits]
      exact ih.solvent
    · show (rooted.enqueue entry).limits.commands - (rooted.enqueue entry).quota + 0 =
        (d.apply rooted (.queue entry)).executed.countP _
      rw [enqueue_quota, enqueue_limits, docket.1]
      exact balance
    · exact docket.2.trans (ih.dropped fun error same => by cases same)
  | meanwhile scene tracer before ih =>
    have agrees := ih.toAgrees
    exact ⟨⟨agrees.stacked, agrees.staged, agrees.places, agrees.covered, agrees.queued_le,
      agrees.crowded⟩, rfl, ih.solvent, ih.executed, ih.affordable, ih.prompt, ih.dropped, ih.idle⟩

theorem Seeding.phase {m : Machine V} {d : Docket V} (h : Seeding m d) : m.phase = .idle := by
  induction h with
  | start limits scene => rfl
  | seed task sink before ih => exact (enqueue_phase _ _).trans ih
  | meanwhile scene tracer before ih => exact ih

theorem Machine.Seeded.docket {fits : Task V → Prop} {m : Machine V} (h : m.Seeded fits) :
    ∃ d, Seeding m d := by
  induction h with
  | start limits scene => exact ⟨_, .start limits scene⟩
  | seed sink fit before ih => exact ih.imp' _ fun d seeding => seeding.seed _ sink
  | meanwhile scene tracer grown before ih =>
    exact ih.imp fun d seeding => seeding.meanwhile scene tracer

namespace Instant

variable {rules : Rules V} {m : Machine V} {d : Docket V}

theorem after_add (rules : Rules V) (n k : Nat) (x : Instant V) :
    x.after rules (n + k) = (x.after rules n).after rules k := by
  unfold Instant.after
  rw [Nat.add_comm, Function.iterate_add_apply]

theorem after_succ (rules : Rules V) (n : Nat) (x : Instant V) :
    x.after rules (n + 1) = (x.after rules n).next rules :=
  Function.iterate_succ_apply' (Instant.next rules) n x

theorem after_working (rules : Rules V) (todo : List (Operation V)) (m : Machine V) (d : Docket V) :
    ∃ n later, Instant.after rules n ⟨.working todo, m, d⟩ =
      ⟨.checking, (Operation.applyAll rules todo m).pushPending, later⟩ := by
  induction todo generalizing m d with
  | nil => exact ⟨1, _, rfl⟩
  | cons operation rest ih =>
    obtain ⟨n, later, leads⟩ := ih (operation.apply rules m) (d.apply m operation)
    exact ⟨n + 1, later, leads⟩

theorem after_of_turn {turns : Nat} {verdict : Except EngineError Unit} {final : Machine V}
    (ends : Machine.turn rules turns m = some (verdict, final)) (d : Docket V) :
    ∃ n last later, Instant.after rules n ⟨.checking, m, d⟩ = ⟨.checking, last, later⟩ ∧
      last.verdict? = some verdict ∧ final = last.close verdict := by
  induction turns generalizing m d with
  | zero => cases ends
  | succ turns ih =>
    unfold Machine.turn at ends
    cases present : m.verdict? with
    | some result =>
      rw [present] at ends
      cases ends
      exact ⟨0, m, d, rfl, present, rfl⟩
    | none =>
      rw [present] at ends
      obtain ⟨_, ⟨entry, rest, entries⟩, _⟩ := (Machine.verdict?_eq_none_iff m).mp present
      obtain ⟨k, checked, works⟩ := after_working rules
        ((m.taking entry rest).operations rules entry.frame entry.task) (m.taking entry rest) d.take
      rw [Machine.applyAll_operations] at works
      rw [Machine.step_of_entries rules entries] at ends
      obtain ⟨n, last, later, leads, verdict, final⟩ := ih ends checked
      refine ⟨1 + (k + n), last, later, ?_, verdict, final⟩
      rw [after_add, after_add]
      show Instant.after rules n (Instant.after rules k (Instant.next rules ⟨.checking, m, d⟩)) = _
      rw [next_of_entries present entries, works]
      exact leads

theorem after_ended (verdict : Except EngineError Unit) (m : Machine V) (d : Docket V) (n : Nat) :
    Instant.after rules n ⟨.ended verdict, m, d⟩ = ⟨.ended verdict, m, d⟩ :=
  Function.iterate_fixed rfl n

theorem last_check {x : Instant V} {k n : Nat} {last found : Machine V} {later seen : Docket V}
    {verdict other : Except EngineError Unit}
    (check : x.after rules k = ⟨.checking, last, later⟩) (ends : last.verdict? = some verdict)
    (again : x.after rules n = ⟨.checking, found, seen⟩) (stops : found.verdict? = some other) :
    k = n := by
  have stays {i j : Nat} {c e : Machine V} {s t : Docket V} {v : Except EngineError Unit}
      (at_i : x.after rules i = ⟨.checking, c, s⟩) (done : c.verdict? = some v)
      (at_j : x.after rules j = ⟨.checking, e, t⟩) : j ≤ i := by
    refine Nat.le_of_not_lt fun less => ?_
    have split : j = (i + 1) + (j - (i + 1)) := by omega
    rw [split, after_add, after_succ, at_i, next_of_verdict done, after_ended] at at_j
    cases at_j
  exact Nat.le_antisymm (stays again stops check) (stays check ends again)

/-- A check of the run finds work waiting and nothing left to spend on it. -/
def Exhausted (x : Instant V) : Prop :=
  x.activity = .checking ∧ x.machine.quota = 0 ∧ x.machine.queued ≠ 0

theorem Accounted.stack_of_checking {limits : Limits} {m : Machine V} {d : Docket V}
    (h : Accounted limits ⟨.checking, m, d⟩) : m.stack.entries = [] ↔ m.queued = 0 := by
  have idle : m.pending = Stack.empty := h.idle rfl
  unfold Machine.queued
  rw [idle, Stack.size_eq]
  exact List.length_eq_zero_iff.symm

theorem Accounted.verdict {limits : Limits} {m : Machine V} {d : Docket V}
    (h : Accounted limits ⟨.checking, m, d⟩) {verdict : Except EngineError Unit}
    (ends : m.verdict? = some verdict) :
    limits.queue ∈ d.attempts ∧ verdict = .error (.queueOverflow limits.queue) ∨
    limits.queue ∉ d.attempts ∧
      (m.queued = 0 ∧ verdict = .ok () ∨
        m.queued ≠ 0 ∧ m.quota = 0 ∧ verdict = .error (.commandLimitReached limits.commands)) := by
  have crowded : m.overflowed = true ↔ m.limits.queue ∈ d.attempts := h.crowded
  have unchanged : m.limits = limits := h.unchanged
  have waiting := h.stack_of_checking
  rw [← Stack.isEmpty_iff] at waiting
  rw [unchanged] at crowded
  unfold Machine.verdict? at ends
  rw [unchanged] at ends
  by_cases full : m.overflowed
  · rw [if_pos full] at ends
    cases ends
    exact .inl ⟨crowded.mp full, rfl⟩
  · rw [if_neg full] at ends
    refine .inr ⟨fun attempted => full (crowded.mpr attempted), ?_⟩
    by_cases empty : m.stack.isEmpty
    · rw [if_pos empty] at ends
      cases ends
      exact .inl ⟨waiting.mp empty, rfl⟩
    · rw [if_neg empty] at ends
      split at ends
      · next spent =>
        cases ends
        exact .inr ⟨fun nothing => empty (waiting.mpr nothing), spent, rfl⟩
      · cases ends

theorem Exhausted.stops (h : Exhausted ⟨.checking, m, d⟩) :
    ∃ verdict, m.verdict? = some verdict := by
  refine Option.ne_none_iff_exists'.mp fun goes => ?_
  obtain ⟨_, _, left⟩ := (Machine.verdict?_eq_none_iff m).mp goes
  exact left h.2.1

theorem Accounted.settled {limits : Limits} {result : Except EngineError Unit}
    (h : Accounted limits ⟨.ended result, m, d⟩) (done : m.queued = 0) :
    (d.executed ++ d.removed.map Prod.fst ++ d.dropped).Perm d.accepted.zipIdx := by
  obtain ⟨stacked, staged⟩ := Nat.add_eq_zero_iff.mp done
  have noneStacked : d.stacked = [] := List.map_eq_nil_iff.mp <|
    h.stacked.trans (List.length_eq_zero_iff.mp (m.stack.size_eq.symm.trans stacked))
  have noneStaged : d.staged = [] := List.map_eq_nil_iff.mp <|
    h.staged.trans (List.length_eq_zero_iff.mp (m.pending.size_eq.symm.trans staged))
  have places : d.places.Perm d.accepted.zipIdx := h.places
  unfold Docket.places at places
  rwa [noneStacked, noneStaged] at places

end Instant

structure Settlement (rules : Rules V) (m : Machine V) (d : Docket V)
    (verdict : Except EngineError Unit) (final : Machine V) : Prop where
  /-- The instants of the machine lead there, and of the entries accepted until then each has been
  executed, removed by a return, or dropped, and that once. -/
  leads : ∃ n docket, Instant.after rules n ⟨.seeding, m, d⟩ = ⟨.ended verdict, final, docket⟩ ∧
    (docket.executed ++ docket.removed.map Prod.fst ++ docket.dropped).Perm
      docket.accepted.zipIdx ∧
    (verdict = .error (.queueOverflow m.limits.queue) ↔ m.limits.queue ∈ docket.attempts) ∧
    (verdict = .error (.commandLimitReached m.limits.commands) ↔
      m.limits.queue ∉ docket.attempts ∧
        ∃ k, (Instant.after rules k ⟨.seeding, m, d⟩).Exhausted) ∧
    (verdict = .ok () ↔
      m.limits.queue ∉ docket.attempts ∧
        ¬∃ k, (Instant.after rules k ⟨.seeding, m, d⟩).Exhausted)
  done : final.queued = 0
  phase : final.phase = if verdict.isOk then .complete else .failed

theorem Seeding.settlement {rules : Rules V} {m final : Machine V} {d : Docket V}
    (seeding : Seeding m d) {turns : Nat} {verdict : Except EngineError Unit}
    (ends : m.run rules turns = some (verdict, final)) :
    Settlement rules m d verdict final := by
  unfold Machine.run at ends
  rw [if_pos seeding.phase] at ends
  obtain ⟨n, last, later, leads, stops, rfl⟩ := Instant.after_of_turn ends d.push
  have check : Instant.after rules (1 + n) ⟨.seeding, m, d⟩ = ⟨.checking, last, later⟩ := by
    rw [Instant.after_add]
    exact leads
  have accounted := seeding.accounted.after rules (1 + n)
  rw [check] at accounted
  have ended : Instant.after rules (1 + n + 1) ⟨.seeding, m, d⟩ =
      ⟨.ended verdict, last.close verdict, later.close verdict⟩ := by
    rw [Instant.after_succ, check, Instant.next_of_verdict stops]
  have told := accounted.verdict stops
  have attempts : (later.close verdict).attempts = later.attempts := by
    cases verdict <;> rfl
  -- only the last check can be one that stops the run
  have exhausted : (∃ k, (Instant.after rules k ⟨.seeding, m, d⟩).Exhausted) ↔
      last.quota = 0 ∧ last.queued ≠ 0 := by
    constructor
    · rintro ⟨k, spent⟩
      generalize reads : Instant.after rules k ⟨.seeding, m, d⟩ = x at spent
      obtain ⟨activity, found, seen⟩ := x
      obtain rfl : activity = .checking := spent.1
      obtain ⟨other, stopped⟩ := spent.stops
      cases Instant.last_check reads stopped check stops
      cases reads.symm.trans check
      exact spent.2
    · intro spent
      refine ⟨1 + n, ?_⟩
      rw [check]
      exact ⟨rfl, spent⟩
  have done : (last.close verdict).queued = 0 := by
    cases verdict with
    | error error => rfl
    | ok value =>
      obtain ⟨_, ⟨⟩⟩ | ⟨_, ⟨done, _⟩ | ⟨_, _, ⟨⟩⟩⟩ := told
      exact done
  have settled := seeding.accounted.after rules (1 + n + 1)
  rw [ended] at settled
  refine ⟨⟨1 + n + 1, _, ended, settled.settled done, ?_⟩, done, by cases verdict <;> rfl⟩
  rw [attempts, exhausted]
  obtain ⟨crowded, rfl⟩ | ⟨roomy, ⟨empty, rfl⟩ | ⟨waits, spent, rfl⟩⟩ := told
  · simp [crowded]
  · simp [roomy, empty]
  · simp [roomy, waits, spent]

/-- Accounts of all seeded machines and their runs. At every instant the docket agrees with the
machine, and what has been charged for is what has been executed. A run answers that the queue
overflowed if an attempt was made to queue when as many entries waited as may, else that the limit
of commands was reached if a check found work and no quota left, else that all is done. A machine
that is not idle does not run. -/
theorem runs_account :
    (∀ (V : Vocabulary) (m : Machine V), m.Seeded (fun _ => True) → ∃ d, Seeding m d) ∧
    (∀ (V : Vocabulary) (rules : Rules V) (m : Machine V) (d : Docket V), Seeding m d →
      (∀ n, (Instant.after rules n ⟨.seeding, m, d⟩).Accounted m.limits) ∧
      ∀ turns verdict final, m.run rules turns = some (verdict, final) →
        Settlement rules m d verdict final) ∧
    (∀ (pack : Pack) (m : Machine packWords), m.Seeded PackTask →
      ∃ turns answer, m.run (packRules pack) turns = some answer) ∧
    (∀ (V : Vocabulary) (rules : Rules V) (m : Machine V) (turns : Nat), m.phase ≠ .idle →
      m.run rules turns = some (.error (.notIdle m.phase), m)) := by
  refine ⟨fun V m seeded => seeded.docket, fun V rules m d seeding => ⟨?_, ?_⟩, ?_, ?_⟩
  · exact seeding.accounted.after rules
  · exact fun turns verdict final ends => seeding.settlement ends
  · intro pack m seeded
    obtain ⟨turns, answer, ends⟩ := seeded.run_ends pack
    exact ⟨turns, answer, ends turns (Nat.le_refl turns)⟩
  · intro V rules m turns busy
    exact if_neg busy

/-- A call of the function that returns early, under limits on commands and on the queue. -/
def charging (commands queue : Nat) : Machine packWords :=
  (start { commands, queue } ⟨{}, ({} : World)⟩).seedCall earlyReturn PackSource.server []

theorem charging_seeding (commands queue : Nat) : ∃ d, Seeding (charging commands queue) d :=
  ⟨_, .seed _ _ (.start _ _)⟩

theorem runs_account_charging :
    (∃ d final, Settlement (packRules {}) (charging 2 3) d (.ok ()) final ∧
      final.run (packRules {}) 0 = some (.error (.notIdle .complete), final)) ∧
    (∃ d final, Settlement (packRules {}) (charging 1 3) d (.error (.commandLimitReached 1))
      final) ∧
    (∃ d final, Settlement (packRules {}) (charging 2 2) d (.error (.queueOverflow 2)) final) := by
  obtain ⟨_, general, _, busy⟩ := runs_account
  refine ⟨?_, ?_, ?_⟩
  · obtain ⟨d, seeding⟩ := charging_seeding 2 3
    exact ⟨d, _, (general _ _ _ d seeding).2 9 (.ok ()) _ rfl, busy _ _ _ 0 (by decide)⟩
  · obtain ⟨d, seeding⟩ := charging_seeding 1 3
    exact ⟨d, _, (general _ _ _ d seeding).2 9 (.error (.commandLimitReached 1)) _ rfl⟩
  · obtain ⟨d, seeding⟩ := charging_seeding 2 2
    exact ⟨d, _, (general _ _ _ d seeding).2 9 (.error (.queueOverflow 2)) _ rfl⟩

end PackEngine
