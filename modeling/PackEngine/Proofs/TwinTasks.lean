import PackEngine.Proofs.Arrivals
import PackEngine.Proofs.Twins

/-! What twins do in a turn. Each kind of task reads of its machine only what twins have in common,
so the operations of corresponding tasks correspond. The one exception is a debug command, which
looks whether its run is traced. -/
namespace PackEngine

open Machine Operation

section

variable {V : Vocabulary} (rules : Rules V) (frame : Frame V) (issuer : Source V)

def Machine.following (walk : List (Source V) → Machine V → List (Operation V)) :
    Option (List (Source V)) × Machine V → List (Operation V)
  | (some sources, m) => walk sources m
  | (none, _) => []

theorem Machine.walkOperations_of_produce (chain : Chain V) {modifier : Modifier V}
    {produce : Source V → V.Setting → Except CommandError (List (Source V))}
    (stage : modifier.produce? rules = some produce) (rest : List (Modifier V)) (flags : Flags)
    (sources : List (Source V)) (m : Machine V) :
    walkOperations rules frame issuer chain (modifier :: rest) flags sources m =
      redirectOperations rules issuer produce (flags.union modifier.flags).forked sources #[] m ++
        following (walkOperations rules frame issuer chain rest (flags.union modifier.flags))
          (m.redirectAll rules issuer produce (flags.union modifier.flags).forked sources #[]) := by
  obtain ⟨action, own⟩ := modifier
  cases action with
  | keep =>
    cases stage
    rfl
  | redirect redirect =>
    cases stage
    rfl
  | gate gate => cases stage

theorem Machine.walkOperations_of_gate (chain : Chain V) {modifier : Modifier V} {gate : V.Gate}
    (stage : modifier.action = .gate gate) (rest : List (Modifier V)) (flags : Flags)
    (sources : List (Source V)) (m : Machine V) :
    walkOperations rules frame issuer chain (modifier :: rest) flags sources m =
      gateOperations rules frame gate issuer sources { chain with modifiers := modifier :: rest }
        (flags.union modifier.flags) m := by
  unfold walkOperations
  rw [stage]

end

variable {d : Difference} {pack : Pack} {α β γ δ : Type}

inductive Answered (R : α → β → Prop) : Except CommandError α → Except CommandError β → Prop where
  | ok {a : α} {b : β} (related : R a b) : Answered R (.ok a) (.ok b)
  | error (error : CommandError) : Answered R (.error error) (.error error)

namespace Procedure

def Twins (d : Difference) (pack : Pack) (frame : Frame packWords) (R : α → β → Prop)
    (p : Control packWords α) (q : Control packWords β) : Prop :=
  ∀ m n : Machine packWords, m.Twins d n →
    List.Forall₂ (Operation.Twins d) (p.operations (packRules pack) frame m)
      (q.operations (packRules pack) (frame.rename d.names) n) ∧
    Answered R (p.run (packRules pack) frame m).1
      (q.run (packRules pack) (frame.rename d.names) n).1

variable {frame : Frame packWords}

theorem Twins.bind {R : α → β → Prop} {S : γ → δ → Prop} {p : Control packWords α}
    {q : Control packWords β} {f : α → Control packWords γ} {g : β → Control packWords δ}
    (first : Twins d pack frame R p q)
    (later : ∀ a b, R a b → Twins d pack frame S (f a) (g b)) :
    Twins d pack frame S (p.bind f) (q.bind g) := by
  intro m n twins
  obtain ⟨operations, answers⟩ := first m n twins
  have after := Operation.Twins.applyAll pack operations twins
  rw [applyAll_operations, applyAll_operations] at after
  rw [operations_bind, operations_bind, run_bind, run_bind]
  revert answers after
  generalize p.run (packRules pack) frame m = ran
  generalize q.run (packRules pack) (frame.rename d.names) n = ranToo
  obtain ⟨result, m⟩ := ran
  obtain ⟨resultToo, n⟩ := ranToo
  rintro (⟨related⟩ | error) after
  · obtain ⟨more, answers⟩ := later _ _ related m n after
    exact ⟨List.rel_append operations more, answers⟩
  · exact ⟨List.rel_append operations .nil, .error error⟩

theorem Twins.done {R : α → β → Prop} {a : α} {b : β} (related : R a b) :
    Twins d pack frame R (.done a) (.done b) :=
  fun _ _ _ => ⟨.nil, .ok related⟩

theorem Twins.fail {R : α → β → Prop} (error : CommandError) :
    Twins d pack frame R (.fail error : Control packWords α) (.fail error) :=
  fun _ _ _ => ⟨.nil, .error error⟩

theorem Twins.ofExcept (result : Except CommandError α) :
    Twins d pack frame Eq (Control.ofExcept result) (Control.ofExcept result) := by
  cases result with
  | ok value => exact .done rfl
  | error error => exact .fail error

theorem Twins.tell {change : World → World} (telling : World.Telling change) :
    Twins d pack frame Eq (tell change) (PackEngine.tell change) :=
  fun _ _ _ => ⟨.cons (.update telling) .nil, .ok rfl⟩

def Queues (d : Difference) (task other : Task packWords) : Prop :=
  task.Twins d other ∧ task ≠ .endFunction

theorem Queues.entry {task other : Task packWords} (same : Queues d task other)
    (frame : Frame packWords) :
    Entry.Twins d ⟨frame, task⟩ ⟨frame.rename d.names, other⟩ :=
  ⟨rfl, same.1, fun ends => absurd ends same.2⟩

theorem Twins.queueAll {tasks others : List (Task packWords)}
    (same : List.Forall₂ (Queues d) tasks others) :
    Twins d pack frame Eq (Control.queueAll tasks) (Control.queueAll others) := by
  intro m n twins
  induction same generalizing m n with
  | nil => exact ⟨.nil, .ok rfl⟩
  | cons same others ih =>
    have entry := same.entry frame
    obtain ⟨operations, answers⟩ := ih _ _ (twins.enqueue entry)
    exact ⟨.cons (.queue entry) operations, answers⟩

theorem Twins.queue {task other : Task packWords} (same : Queues d task other) :
    Twins d pack frame Eq (Control.queue task) (Control.queue other) :=
  fun _ _ _ => ⟨.cons (.queue (same.entry frame)) .nil, .ok rfl⟩

structure Sees (d : Difference) (frame : Frame packWords) (v w : View packWords) : Prop where
  first : v.frame = frame
  second : w.frame = frame.rename d.names
  traced : d.observed = false → w.traced = v.traced

theorem Twins.look : Twins d pack frame (Sees d frame) Control.look Control.look := by
  intro m n twins
  refine ⟨.nil, .ok ⟨rfl, rfl, fun alone => ?_⟩⟩
  have tracers := twins.tracer
  rw [if_neg (Bool.eq_false_iff.mp alone)] at tracers
  exact congrArg Option.isSome tracers

theorem Twins.newTally :
    Twins d pack frame (fun a b => b = d.names.tally a) Control.newTally Control.newTally :=
  fun _ _ twins => ⟨.cons .newTally .nil, .ok (twins.heap.nextTallies 0).symm⟩

theorem Twins.newCell :
    Twins d pack frame (fun a b => b = d.names.cell a) Control.newCell Control.newCell :=
  fun _ _ twins => ⟨.cons .newCell .nil, .ok (twins.heap.nextCells 0).symm⟩

theorem Twins.consult : Twins d pack frame (World.Twins d) Control.consult Control.consult :=
  fun _ _ twins => ⟨.nil, .ok twins.setting⟩

theorem Twins.attach (alone : d.observed = false) (tracer : TracerId) :
    Twins d pack frame Eq (Control.attach tracer) (Control.attach tracer) := by
  intro m n twins
  have tracers := twins.tracer
  rw [if_neg (Bool.eq_false_iff.mp alone)] at tracers
  rw [attach_operations, attach_operations]
  refine ⟨.cons (.attach alone tracer) .nil, ?_⟩
  simp only [Control.attach, run, Machine.attach, tracers]
  cases m.tracer with
  | none => exact .ok rfl
  | some attached => exact .error _

theorem Twins.detach (alone : d.observed = false) :
    Twins d pack frame Eq Control.detach Control.detach := by
  intro m n twins
  have tracers := twins.tracer
  rw [if_neg (Bool.eq_false_iff.mp alone)] at tracers
  exact ⟨.cons (.detach alone) .nil, .ok tracers.symm⟩

end Procedure

section

variable {frame : Frame packWords}

open Procedure

theorem rename_announced (names : Renaming) (source : PackSource) (function : FunctionId)
    (callback : Callback packWords) :
    Callback.rename names (announced isSilent source function callback) =
      announced isSilent (source.rename names) function (Callback.rename names callback) := by
  unfold announced
  rw [Source.persona_rename]
  split
  · rfl
  · exact Callback.rename_chain names _ callback

theorem queueFunctions_twins (functions : List (FunctionRef packWords)) (arguments : Option Json)
    (issuer source : PackSource) (flags : Flags) :
    Procedure.Twins d pack frame Eq
      (queueFunctions isSilent functions arguments issuer source flags)
      (queueFunctions isSilent functions arguments (issuer.rename d.names)
        (source.rename d.names) flags) := by
  have calls (bound : List (BoundFunction packWords)) (callback : Callback packWords)
      (returnCall : Bool) :
      List.Forall₂ (Queues d)
        (bound.map fun function => .call function (announced isSilent issuer function.id callback)
          returnCall source.clearCallbacks)
        (bound.map fun function => .call function
          (announced isSilent (issuer.rename d.names) function.id
            (Callback.rename d.names callback)) returnCall source.clearCallbacks) := by
    induction bound with
    | nil => exact .nil
    | cons function rest ih =>
      refine .cons ⟨?_, fun same => by cases same⟩ ih
      dsimp only
      rw [← rename_announced]
      exact .call function _ returnCall source.clearCallbacks
  refine Twins.bind (Twins.ofExcept _) fun bound _ same => ?_
  subst same
  refine Twins.bind Twins.look fun v w sees => ?_
  rw [sees.first, sees.second]
  split
  · refine Twins.queueAll (List.rel_append ?_ (.cons ⟨.fallthrough, nofun⟩ .nil))
    have same := calls bound (issuer.callback.chain frame.sink) true
    rwa [Callback.rename_chain] at same
  · have hears : Callback.rename d.names (issuer.callback.chain frame.recorder) =
        (issuer.rename d.names).callback.chain (frame.rename d.names).recorder :=
      Callback.rename_chain d.names _ _
    have nobody : (issuer.rename d.names).callback.isEmpty = issuer.callback.isEmpty :=
      Callback.isEmpty_rename d.names issuer.callback
    dsimp only
    rw [nobody]
    split
    · have same := calls bound (issuer.callback.chain frame.recorder) false
      rw [hears] at same
      exact Twins.queueAll same
    · refine Twins.bind Twins.newTally fun tally _ same => ?_
      subst same
      have total : Queues d
          (.deferred (Control.deliverTally tally (issuer.callback.chain frame.recorder)))
          (.deferred (Control.deliverTally (d.names.tally tally)
            (Callback.rename d.names (issuer.callback.chain frame.recorder)))) :=
        ⟨.total tally _, fun same => by cases same⟩
      rw [hears] at total
      exact Twins.queueAll (List.rel_append (calls bound [.tally tally] false) (.cons total .nil))

theorem callFunctions_twins (target : String) (arguments : Option Json) (source : PackSource)
    (flags : Flags) :
    Procedure.Twins d pack frame Eq (callFunctions pack target arguments source flags)
      (callFunctions pack target arguments (source.rename d.names) flags) := by
  refine Twins.bind (Twins.ofExcept _) fun functions _ same => ?_
  subst same
  refine Twins.bind (Twins.tell (source.persona.telling_sendSuccess _)) fun _ _ _ => ?_
  exact queueFunctions_twins functions arguments source _ flags

theorem returnNow_twins (source : PackSource) (outcome : Outcome) :
    Procedure.Twins d pack frame Eq (returnNow source outcome)
      (returnNow (source.rename d.names) outcome) :=
  fun _ _ _ =>
    ⟨.cons (.deliver source.callback outcome) (.cons (.returnFrom frame outcome) .nil), .ok rfl⟩

theorem queueTraced_twins (index : Nat) (source traced : PackSource)
    (functions : List (FunctionRef packWords)) :
    Procedure.Twins d pack frame Eq (queueTraced index source traced functions)
      (queueTraced index (source.rename d.names) (traced.rename d.names) functions) := by
  induction functions with
  | nil => exact .done rfl
  | cons function rest ih =>
    unfold queueTraced
    cases function.bind none with
    | error error =>
      exact Twins.bind (Twins.tell (source.persona.telling_sendFailure _)) fun _ _ _ => ih
    | ok lines =>
      refine Twins.bind (Twins.queue ⟨.heading index _, fun same => by cases same⟩)
        fun _ _ _ => ?_
      refine Twins.bind (Twins.queue ⟨.call _ Callback.empty false traced,
        fun same => by cases same⟩) fun _ _ _ => ?_
      refine Twins.bind ih fun more _ same => ?_
      subst same
      exact .done rfl

theorem debugTrace_twins (alone : d.observed = false) (target : String) (source : PackSource)
    (flags : Flags) :
    Procedure.Twins d pack frame Eq (debugTrace pack target source flags)
      (debugTrace pack target (source.rename d.names) flags) := by
  unfold debugTrace
  cases flags.isReturn with
  | true => exact .fail _
  | false =>
    refine Twins.bind Twins.look fun v w sees => ?_
    rw [sees.traced alone]
    cases v.traced with
    | true => exact .fail _
    | false =>
      refine Twins.bind (Twins.ofExcept _) fun functions _ same => ?_
      subst same
      refine Twins.bind Twins.consult fun first second worlds => ?_
      have file : second.traceFile = first.traceFile := by
        unfold World.traceFile
        rw [worlds.stamp]
      dsimp only
      rw [worlds.tracesWritable, worlds.traces, file]
      split
      · refine Twins.bind (Twins.tell (.add (.traceOpened first.traces) rfl)) fun _ _ _ => ?_
        refine Twins.bind (Twins.attach alone _) fun _ _ _ => ?_
        refine Twins.bind (queueTraced_twins first.traces source (source.mapPersona _) functions)
          fun commands _ same => ?_
        subst same
        exact Twins.queue ⟨.closing alone first.traces source _, fun same => by cases same⟩
      · exact Twins.tell (source.persona.telling_sendFailure _)

theorem CallAction.perform_twins (action : CallAction)
    (unseen : d.observed = false ∨ ∀ target, action ≠ .debug target) (source : PackSource)
    (flags : Flags) :
    Procedure.Twins d pack frame Eq (action.perform pack source flags)
      (action.perform pack (source.rename d.names) flags) := by
  cases action with
  | function target arguments => exact callFunctions_twins target arguments source flags
  | returnValue value => exact returnNow_twins source (Outcome.ok value)
  | returnFail => exact returnNow_twins source Outcome.failure
  | debug target =>
    cases unseen with
    | inl alone => exact debugTrace_twins alone target source flags
    | inr other => exact absurd rfl (other target)

theorem conditionProducer_twins (bound : List (BoundFunction packWords)) (callee : PackSource) :
    Procedure.Twins d pack frame Eq (conditionProducer bound callee)
      (conditionProducer bound (callee.rename d.names)) := by
  refine Twins.bind Twins.look fun v w sees => ?_
  rw [sees.first, sees.second]
  refine Twins.queueAll (List.rel_append ?_ (.cons ⟨.fallthrough, nofun⟩ .nil))
  induction bound with
  | nil => exact .nil
  | cons function rest ih => exact .cons ⟨.call function frame.sink true callee, nofun⟩ ih

theorem schedule_twins (condition : Condition) (issuer : PackSource) (sources : List PackSource)
    (chain : Chain packWords) (flags : Flags) :
    Procedure.Twins d pack frame Eq (condition.schedule pack issuer sources chain flags)
      (condition.schedule pack (issuer.rename d.names) (sources.map (Source.rename d.names)) chain
        flags) := by
  refine Twins.bind (Twins.ofExcept _) fun functions _ same => ?_
  subst same
  refine Twins.bind (Twins.ofExcept _) fun bound _ same => ?_
  subst same
  refine Twins.bind Twins.newCell fun cell _ same => ?_
  subst same
  refine Twins.bind (Twins.queueAll ?_) fun _ _ _ => ?_
  · induction sources with
    | nil => exact .nil
    | cons source rest ih =>
      refine .cons ⟨.condition bound _ [.collect cell condition.polarity source.persona
        source.callback], fun same => by cases same⟩ ih
  · cases chain.next? with
    | none => exact .done rfl
    | some next => exact Twins.queue ⟨.line issuer (.collected cell) next flags false, nofun⟩

abbrev Alike (d : Difference) : List (Operation packWords) → List (Operation packWords) → Prop :=
  List.Forall₂ (Operation.Twins d)

variable {m n : Machine packWords}

theorem actOperations_twins (pack : Pack) (frame : Frame packWords) {action : CallAction}
    (unseen : d.observed = false ∨ ∀ target, action ≠ .debug target) (chain : Chain packWords)
    (flags : Flags) (source : PackSource) (twins : m.Twins d n) :
    Alike d (actOperations (packRules pack) frame action chain flags source m)
      (actOperations (packRules pack) (frame.rename d.names) action chain flags
        (source.rename d.names) n) := by
  obtain ⟨operations, answers⟩ := action.perform_twins unseen source flags m n twins
  refine List.rel_append operations ?_
  change Answered Eq (((packRules pack).act action source chain flags).run _ frame m).1
    (((packRules pack).act action (source.rename d.names) chain flags).run _ _ n).1 at answers
  revert answers
  generalize (((packRules pack).act action source chain flags).run _ frame m).1 = result
  generalize (((packRules pack).act action (source.rename d.names) chain flags).run _ _ n).1 = other
  rintro (_ | error)
  · exact .nil
  · exact .cons (.report source error flags.forked)
      (.cons (.deliver source.callback Outcome.failure)
        (.cons (.record frame Outcome.failure) .nil))

theorem actAllOperations_twins {action : CallAction}
    (unseen : d.observed = false ∨ ∀ target, action ≠ .debug target) (chain : Chain packWords)
    (flags : Flags) (sources : List PackSource) (twins : m.Twins d n) :
    Alike d (actAllOperations (packRules pack) frame action chain flags sources m)
      (actAllOperations (packRules pack) (frame.rename d.names) action chain flags
        (sources.map (Source.rename d.names)) n) := by
  induction sources generalizing m n with
  | nil => exact .nil
  | cons source rest ih =>
    have own := actOperations_twins pack frame unseen chain flags source twins
    exact List.rel_append own (ih (Operation.Twins.applyAll pack own twins))

theorem leavesOperations_twins (d : Difference) (frame : Frame packWords)
    (line : LeafLine packWords) (sources : List PackSource) :
    Alike d (leavesOperations frame line sources)
      (leavesOperations (frame.rename d.names) line (sources.map (Source.rename d.names))) := by
  have queued {task other : Task packWords} (same : Queues d task other) :
      Operation.Twins d (.queue ⟨frame, task⟩) (.queue ⟨frame.rename d.names, other⟩) :=
    .queue (same.entry frame)
  match sources with
  | [] => exact .nil
  | [a] => exact .cons (queued ⟨.execute line a, nofun⟩) .nil
  | [a, b] =>
    exact .cons (queued ⟨.execute line a, nofun⟩) (.cons (queued ⟨.execute line b, nofun⟩) .nil)
  | a :: b :: c :: rest => exact .cons (queued ⟨.drip line (a :: b :: c :: rest), nofun⟩) .nil

def Arrival.Debugs (arrival : Arrival packWords) (executable : Executable packWords) : Prop :=
  arrival.ahead = [] ∧ arrival.sources ≠ [] ∧ ∃ target, executable = .action (.debug target)

theorem finishOperations_twins (chain : Chain packWords) (flags : Flags)
    (sources : List PackSource)
    (unseen : d.observed = false ∨ ¬(Arrival.mk [] flags sources).Debugs chain.executable)
    (twins : m.Twins d n) :
    Alike d (finishOperations (packRules pack) frame chain flags sources m)
      (finishOperations (packRules pack) (frame.rename d.names) chain flags
        (sources.map (Source.rename d.names)) n) := by
  unfold finishOperations
  rw [List.isEmpty_map]
  split
  · split
    · exact .cons (.queue (Queues.entry ⟨.fallthrough, nofun⟩ frame)) .nil
    · exact .nil
  · next present =>
    cases ends : chain.executable with
    | leaf leaf =>
      have leaves := leavesOperations_twins d frame ⟨leaf, chain.input, flags⟩
        (if flags.isReturn then sources.take 1 else sources)
      dsimp only
      rwa [apply_ite (List.map _), List.map_take] at leaves
    | action action =>
      refine actAllOperations_twins (unseen.imp_right fun never target same => ?_) chain flags
        sources twins
      refine never ⟨rfl, fun nothing => present (List.isEmpty_iff.mpr nothing), target, ?_⟩
      rw [ends, same]

theorem gateOperations_twins (condition : Condition) (issuer : PackSource)
    (sources : List PackSource) (here : Chain packWords) (flags : Flags) (twins : m.Twins d n) :
    Alike d (gateOperations (packRules pack) frame condition issuer sources here flags m)
      (gateOperations (packRules pack) (frame.rename d.names) condition (issuer.rename d.names)
        (sources.map (Source.rename d.names)) here flags n) := by
  obtain ⟨operations, answers⟩ := schedule_twins condition issuer sources here flags m n twins
  refine List.rel_append operations ?_
  change Answered Eq (((packRules pack).gate condition issuer sources here flags).run _ frame m).1
    (((packRules pack).gate condition (issuer.rename d.names)
      (sources.map (Source.rename d.names)) here flags).run _ _ n).1 at answers
  revert answers
  generalize (((packRules pack).gate condition issuer sources here flags).run _ frame m).1 = result
  generalize (((packRules pack).gate condition (issuer.rename d.names)
    (sources.map (Source.rename d.names)) here flags).run _ _ n).1 = other
  rintro (_ | error)
  · exact .nil
  · exact .cons (.report issuer error flags.forked) .nil

theorem produce_twins {modifier : Modifier packWords}
    {produce : PackSource → World → Except CommandError (List PackSource)}
    (stage : modifier.produce? (packRules pack) = some produce) {w v : World}
    (worlds : w.Twins d v) (source : PackSource) :
    ∃ produced, produce source w = .ok produced ∧
      produce (source.rename d.names) v = .ok (produced.map (Source.rename d.names)) := by
  unfold Modifier.produce? at stage
  split at stage
  · cases stage
    exact ⟨_, rfl, rfl⟩
  · next redirect _ =>
    cases stage
    refine ⟨_, rfl, congrArg Except.ok ?_⟩
    cases redirect with
    | entities targets =>
      show targets.map _ = (targets.map _).map _
      rw [List.map_map]
      rfl
    | position position => rfl
    | dimension dimension => rfl
    | scoreWithin holder objective low high =>
      simp only [Redirect.produce, worlds.score, Source.persona_rename]
      split
      · split <;> rfl
      · rfl
    | store stored holder objective =>
      exact congrArg (fun callback => [Source.mk source.persona callback])
        (Callback.rename_chain d.names source.callback [.host _]).symm
  · cases stage

structure Passed (d : Difference) (passed other : Option (List PackSource) × Machine packWords) :
    Prop where
  sources : other.1 = passed.1.map fun sources => sources.map (Source.rename d.names)
  machines : passed.2.Twins d other.2

theorem redirect_twins {modifier : Modifier packWords}
    {produce : PackSource → World → Except CommandError (List PackSource)}
    (stage : modifier.produce? (packRules pack) = some produce) (issuer : PackSource)
    (forked : Bool) (sources : List PackSource) (done others : Array PackSource)
    (same : others.toList = done.toList.map (Source.rename d.names)) (twins : m.Twins d n) :
    Alike d (redirectOperations (packRules pack) issuer produce forked sources done m)
        (redirectOperations (packRules pack) (issuer.rename d.names) produce forked
          (sources.map (Source.rename d.names)) others n) ∧
      Passed d (m.redirectAll (packRules pack) issuer produce forked sources done)
        (n.redirectAll (packRules pack) (issuer.rename d.names) produce forked
          (sources.map (Source.rename d.names)) others) := by
  induction sources generalizing done others with
  | nil => exact ⟨.nil, congrArg some same, twins⟩
  | cons source rest ih =>
    obtain ⟨produced, first, second⟩ := produce_twins stage twins.setting source
    have more : (others ++ produced.map (Source.rename d.names)).toList =
        (done ++ produced).toList.map (Source.rename d.names) := by
      simp only [Array.toList_appendList, same, List.map_append]
    have sizes :
        (others ++ produced.map (Source.rename d.names)).size = (done ++ produced).size := by
      rw [← Array.length_toList, more, List.length_map, Array.length_toList]
    unfold redirectOperations redirectAll
    simp only [List.map_cons, first, second, sizes, twins.forks]
    split
    · exact ⟨.cons (.report issuer _ forked) .nil, rfl, twins.report issuer _ forked⟩
    · exact ih _ _ more

structure Arrived (d : Difference)
    (carried other : Option (Arrival packWords) × Machine packWords) : Prop where
  arrival : other.1 = carried.1.map fun arrival =>
    { arrival with sources := arrival.sources.map (Source.rename d.names) }
  machines : carried.2.Twins d other.2

theorem carry_twins (issuer : PackSource) (modifiers : List (Modifier packWords)) (flags : Flags)
    (sources : List PackSource) (twins : m.Twins d n) :
    Arrived d (m.carry (packRules pack) issuer modifiers flags sources)
      (n.carry (packRules pack) (issuer.rename d.names) modifiers flags
        (sources.map (Source.rename d.names))) := by
  induction modifiers generalizing flags sources m n with
  | nil => exact ⟨rfl, twins⟩
  | cons modifier rest ih =>
    unfold carry
    cases stage : modifier.produce? (packRules pack) with
    | none => exact ⟨rfl, twins⟩
    | some produce =>
      have passed := (redirect_twins stage issuer (flags.union modifier.flags).forked sources
        #[] #[] rfl twins).2
      dsimp only
      revert passed
      generalize m.redirectAll _ issuer produce _ sources #[] = first
      generalize n.redirectAll _ _ produce _ _ #[] = second
      obtain ⟨sources, m⟩ := first
      obtain ⟨others, n⟩ := second
      rintro ⟨same, twins⟩
      cases same
      cases sources with
      | none => exact ⟨rfl, twins⟩
      | some sources => exact ih _ sources twins

theorem walk_twins (issuer : PackSource) (chain : Chain packWords)
    (modifiers : List (Modifier packWords)) (flags : Flags) (sources : List PackSource)
    (unseen : d.observed = false ∨
      ∀ arrival, (m.carry (packRules pack) issuer modifiers flags sources).1 = some arrival →
        ¬arrival.Debugs chain.executable)
    (twins : m.Twins d n) :
    Alike d (walkOperations (packRules pack) frame issuer chain modifiers flags sources m)
      (walkOperations (packRules pack) (frame.rename d.names) (issuer.rename d.names) chain
        modifiers flags (sources.map (Source.rename d.names)) n) := by
  induction modifiers generalizing flags sources m n with
  | nil =>
    exact finishOperations_twins { chain with modifiers := [] } flags sources
      (unseen.imp_right fun never => never _ rfl) twins
  | cons modifier rest ih =>
    cases stage : modifier.produce? (packRules pack) with
    | none =>
      obtain ⟨condition, gates⟩ : ∃ condition, modifier.action = .gate condition := by
        unfold Modifier.produce? at stage
        split at stage
        · cases stage
        · cases stage
        · exact ⟨_, ‹_›⟩
      rw [walkOperations_of_gate _ _ _ chain gates, walkOperations_of_gate _ _ _ chain gates]
      exact gateOperations_twins condition issuer sources _ _ twins
    | some produce =>
      rw [walkOperations_of_produce _ _ _ chain stage, walkOperations_of_produce _ _ _ chain stage]
      obtain ⟨operations, passed⟩ := redirect_twins stage issuer
        (flags.union modifier.flags).forked sources #[] #[] rfl twins
      refine List.rel_append operations ?_
      unfold carry at unseen
      simp only [stage] at unseen
      revert passed unseen
      generalize m.redirectAll _ issuer produce _ sources #[] = first
      generalize n.redirectAll _ _ produce _ _ #[] = second
      obtain ⟨sources, m⟩ := first
      obtain ⟨others, n⟩ := second
      rintro ⟨same, twins⟩ unseen
      cases same
      cases sources with
      | none => exact .nil
      | some sources => exact ih _ sources unseen twins

theorem leafOperations_twins (line : LeafLine packWords) (source : PackSource)
    (twins : m.Twins d n) :
    Alike d (leafOperations (packRules pack) frame line source m)
      (leafOperations (packRules pack) (frame.rename d.names) line (source.rename d.names) n) := by
  have result : (line.leaf.perform (source.rename d.names) n.setting).1 =
      (line.leaf.perform source m.setting).1 := by
    rw [line.leaf.perform_rename]
    exact line.leaf.perform_twins source twins.setting
  have change : (fun w => (line.leaf.perform (source.rename d.names) w).2) =
      fun w => (line.leaf.perform source w).2 := by
    funext w
    rw [line.leaf.perform_rename]
  have finish (outcome : Outcome) : Alike d
      ([.deliver source.callback outcome, .record frame outcome] ++
        if line.flags.isReturn then [.returnFrom frame outcome] else [])
      ([.deliver (source.rename d.names).callback outcome,
          .record (frame.rename d.names) outcome] ++
        if line.flags.isReturn then [.returnFrom (frame.rename d.names) outcome] else []) := by
    refine .cons (.deliver source.callback outcome) (.cons (.record frame outcome) ?_)
    split
    · exact .cons (.returnFrom frame outcome) .nil
    · exact .nil
  unfold leafOperations
  refine List.rel_append (.cons .charge (.cons ?_ .nil)) ?_
  · show Operation.Twins d _ (.update fun w => (line.leaf.perform (source.rename d.names) w).2)
    rw [change]
    exact .update (line.leaf.telling_perform source)
  · have told : ((packRules pack).leaf line.leaf (source.rename d.names) n.setting).1 =
        ((packRules pack).leaf line.leaf source m.setting).1 := result
    rw [told]
    cases ((packRules pack).leaf line.leaf source m.setting).1 with
    | ok value => exact .cons (.trace _) (finish _)
    | error error => exact .cons (.report source error _) (.cons (.trace _) (finish _))

theorem dripOperations_twins (line : LeafLine packWords) (sources : List PackSource) :
    Alike d (dripOperations frame line sources)
      (dripOperations (frame.rename d.names) line (sources.map (Source.rename d.names))) := by
  cases sources with
  | nil => exact .nil
  | cons source rest =>
    refine .cons (.queue (Queues.entry ⟨.execute line source, nofun⟩ frame)) ?_
    rw [List.isEmpty_map]
    split
    · exact .nil
    · exact .cons (.queue (Queues.entry ⟨.drip line rest, nofun⟩ frame)) .nil

theorem callOperations_twins (function : BoundFunction packWords) (callback : Callback packWords)
    (returnCall : Bool) (source : PackSource) (twins : m.Twins d n) :
    Alike d
      (m.operations (packRules pack) frame (.call function callback returnCall source))
      (n.operations (packRules pack) (frame.rename d.names)
        (.call function (Callback.rename d.names callback) returnCall
          (source.rename d.names))) := by
  let callee := frame.child callback (if returnCall then some frame.boundary else none)
    m.heap.slots.size
  have opened : (frame.rename d.names).child (Callback.rename d.names callback)
      (if returnCall then some (frame.rename d.names).boundary else none) n.heap.slots.size =
      callee.rename d.names := by
    have next : d.names.slot m.heap.slots.size = n.heap.slots.size := twins.heap.nextSlots 0
    rw [Frame.rename_child, next]
    cases returnCall <;> rfl
  simp only [Machine.operations, opened]
  refine List.rel_append (List.rel_append ?_ ?_) (.cons (.queue ⟨rfl, .endFunction, ?_⟩) .nil)
  · exact .cons .charge (.cons (.trace _) (.cons .newSlot .nil))
  · induction function.lines with
    | nil => exact .nil
    | cons line rest ih =>
      exact .cons (.queue (Queues.entry ⟨.line source (.ready [source]) line _ true,
        fun same => by cases same⟩ callee)) ih
  · exact fun _ => twins.heap.begun

theorem lineSources_twins (pack : Pack) (frame : Frame packWords) (sources : Sources packWords)
    (chain : Chain packWords) (topLevel : Bool) (twins : m.Twins d n) :
    (n.lineSources (packRules pack) (frame.rename d.names) (sources.rename d.names) chain
        topLevel).1 =
      (m.lineSources (packRules pack) frame sources chain topLevel).1.map
        (Source.rename d.names) ∧
    Machine.Twins d (m.lineSources (packRules pack) frame sources chain topLevel).2
      (n.lineSources (packRules pack) (frame.rename d.names) (sources.rename d.names) chain
        topLevel).2 := by
  have traced : Machine.Twins d
      (if topLevel then m.trace (packRules pack) (.command frame.depth chain.input) else m)
      (if topLevel then n.trace (packRules pack) (.command frame.depth chain.input) else n) := by
    cases topLevel with
    | true => exact twins.trace _
    | false => exact twins
  cases sources with
  | ready sources => exact ⟨rfl, traced⟩
  | collected cell =>
    exact ⟨traced.heap.collected cell, traced.onHeap (traced.heap.emptyCell cell)⟩

theorem reach_twins (issuer : PackSource) (sources : Sources packWords) (chain : Chain packWords)
    (flags : Flags) (topLevel : Bool) (twins : m.Twins d n) :
    Arrived d (m.reach (packRules pack) frame issuer sources chain flags topLevel)
      (n.reach (packRules pack) (frame.rename d.names) (issuer.rename d.names)
        (sources.rename d.names) chain flags topLevel) := by
  obtain ⟨present, same⟩ := lineSources_twins pack frame sources chain topLevel twins
  unfold reach
  dsimp only
  rw [present]
  exact carry_twins issuer chain.modifiers flags _ same

theorem lineOperations_twins (issuer : PackSource) (sources : Sources packWords)
    (chain : Chain packWords) (flags : Flags) (topLevel : Bool)
    (unseen : d.observed = false ∨ ∀ arrival,
      (m.reach (packRules pack) frame issuer sources chain flags topLevel).1 = some arrival →
        ¬arrival.Debugs chain.executable)
    (twins : m.Twins d n) :
    Alike d
      (m.operations (packRules pack) frame (.line issuer sources chain flags topLevel))
      (n.operations (packRules pack) (frame.rename d.names)
        (.line (issuer.rename d.names) (sources.rename d.names) chain flags topLevel)) := by
  have opens (k : Machine packWords) (frame : Frame packWords) (issuer : PackSource)
      (sources : Sources packWords) :
      k.operations (packRules pack) frame (.line issuer sources chain flags topLevel) =
        openingOperations frame sources chain topLevel ++
          walkOperations (packRules pack) frame issuer chain chain.modifiers flags
            (k.lineSources (packRules pack) frame sources chain topLevel).1
            (k.lineSources (packRules pack) frame sources chain topLevel).2 := by
    cases topLevel <;> cases sources <;> rfl
  have opening : Alike d (openingOperations frame sources chain topLevel)
      (openingOperations (frame.rename d.names) (sources.rename d.names) chain topLevel) := by
    refine List.rel_append ?_ ?_
    · split
      · exact .cons (.trace _) .nil
      · exact .nil
    · cases sources with
      | ready sources => exact .nil
      | collected cell => exact .cons (.emptyCell cell) .nil
  obtain ⟨present, same⟩ := lineSources_twins pack frame sources chain topLevel twins
  rw [opens, opens, present]
  exact List.rel_append opening (walk_twins issuer chain chain.modifiers flags _ unseen same)

def Machine.Debugs (pack : Pack) (frame : Frame packWords) (task : Task packWords)
    (m : Machine packWords) : Prop :=
  ∃ issuer sources chain flags topLevel arrival,
    task = .line issuer sources chain flags topLevel ∧
    (m.reach (packRules pack) frame issuer sources chain flags topLevel).1 = some arrival ∧
    arrival.Debugs chain.executable

theorem operations_twins (pack : Pack) {task other : Task packWords} (same : task.Twins d other)
    (known : task = .endFunction → d.first ≤ frame.slot)
    (unseen : d.observed = false ∨ ¬m.Debugs pack frame task) (twins : m.Twins d n) :
    Alike d (m.operations (packRules pack) frame task)
      (n.operations (packRules pack) (frame.rename d.names) other) := by
  cases same with
  | line issuer sources chain flags topLevel =>
    refine lineOperations_twins issuer sources chain flags topLevel
      (unseen.imp_right fun never arrival arrives debugs => never ?_) twins
    exact ⟨issuer, sources, chain, flags, topLevel, arrival, rfl, arrives, debugs⟩
  | execute line source => exact leafOperations_twins line source twins
  | drip line sources => exact dripOperations_twins line sources
  | call function callback returnCall source =>
    exact callOperations_twins function callback returnCall source twins
  | endFunction =>
    unfold Machine.operations
    rw [show (frame.rename d.names).slot = d.names.slot frame.slot from rfl,
      twins.heap.recorded (known rfl)]
    cases m.heap.recorded frame.slot with
    | none => exact .nil
    | some outcome => exact .cons (.returnFrom frame outcome) .nil
  | condition bound callee output =>
    have next : d.names.slot m.heap.slots.size = n.heap.slots.size := twins.heap.nextSlots 0
    have opened : (frame.rename d.names).child (Callback.rename d.names output) none
        n.heap.slots.size = (frame.child output none m.heap.slots.size).rename d.names := by
      rw [Frame.rename_child, next]
      rfl
    simp only [Machine.operations, opened]
    refine .cons .newSlot ?_
    exact (conditionProducer_twins bound callee _ _ (twins.onHeap twins.heap.newSlot)).1
  | fallthrough => exact .cons (.returnFrom frame Outcome.failure) .nil
  | total tally sink => exact .cons (.deliverTally tally sink) .nil
  | heading index item => exact .cons (.update (.add _ rfl)) .nil
  | closing alone index source text =>
    refine .cons (.detach alone) (.cons (.update (.add _ rfl)) (.cons (.update ?_) .nil))
    exact source.persona.telling_sendSuccess text

end

end PackEngine
