import PackEngine.Proofs.Carried

/-! What the tasks of a pack carry, calls of functions excepted: leaves, ends and returns, and the
stages of lines. -/
namespace PackEngine

open Direct Operation Machine

variable {setup : Setup} {fuel : Nat} {frame : Frame packWords}

theorem carries_fallthrough : Carries setup fuel [⟨frame, .fallthrough⟩] frame.boundary
    (evalReturn setup frame.activation Outcome.failure) :=
  carries_of_leads fun _ _ _ => ⟨Nat.zero_le 1, .of_return rfl rfl⟩

theorem carries_endFunction : Carries setup fuel [⟨frame, .endFunction⟩] frame.boundary
    (evalEnd setup frame.activation) := by
  refine carries_of_leads fun m _ _ => ?_
  simp only [Machine.operations]
  have recorded : m.play.scene.heap.recorded frame.activation.slot =
      m.heap.recorded frame.slot := rfl
  unfold evalEnd
  rw [recorded]
  cases m.heap.recorded frame.slot with
  | none => exact ⟨Nat.zero_le 1, .of_idle rfl rfl⟩
  | some outcome => exact ⟨Nat.zero_le 1, .of_return rfl rfl⟩

theorem carries_effect {task : Task packWords} {change : Play → Play}
    (turn : ∀ m : Machine packWords,
      returnsIn (m.operations (packRules setup.pack) frame task) = [] ∧
      queuedIn (m.operations (packRules setup.pack) frame task) = [] ∧
      costs (m.operations (packRules setup.pack) frame task) = 0 ∧
      effects setup.pack (m.operations (packRules setup.pack) frame task) m.play =
        change m.play) :
    Carries setup fuel [⟨frame, task⟩] frame.boundary (.effect change) := by
  refine carries_of_leads fun m _ _ => ?_
  obtain ⟨never, idle, free, done⟩ := turn m
  refine ⟨free ▸ Nat.zero_le 1, ?_⟩
  refine (Leads.of_idle never idle).of_eq ?_
  rw [done]
  rfl

theorem carries_leaf (line : LeafLine packWords) (source : PackSource) :
    Carries setup fuel [⟨frame, .execute line source⟩] frame.boundary
      (evalLeaf setup frame.activation line source) := by
  refine carries_of_leads fun m _ _ => ?_
  simp only [Machine.operations]
  unfold leafOperations evalLeaf
  have setting : m.play.scene.setting = m.setting := rfl
  have acts : (packRules setup.pack).leaf line.leaf source m.setting =
      line.leaf.perform source m.setting := rfl
  rw [setting, acts]
  cases (line.leaf.perform source m.setting).1 with
  | ok value =>
    cases line.flags.isReturn with
    | false => exact ⟨Nat.le_refl 1, .of_idle rfl rfl⟩
    | true => exact ⟨Nat.le_refl 1, .of_return rfl rfl⟩
  | error error =>
    cases line.flags.isReturn with
    | false => exact ⟨Nat.le_refl 1, .of_idle rfl rfl⟩
    | true => exact ⟨Nat.le_refl 1, .of_return rfl rfl⟩

theorem carries_drip (line : LeafLine packWords) (sources : List PackSource) :
    Carries setup fuel [⟨frame, .drip line sources⟩] frame.boundary
      (.each (sources.map (evalLeaf setup frame.activation line))) := by
  induction sources with
  | nil => exact carries_of_leads fun m _ _ => ⟨Nat.zero_le 1, .of_idle rfl rfl⟩
  | cons source rest ih =>
    refine carries_of_leads fun m own _ => ?_
    cases rest with
    | nil => exact ⟨Nat.zero_le 1, .works rfl (carries_leaf line source).single⟩
    | cons other rest =>
      have both := (carries_leaf line source).andThen ih (covers_singleton own)
      exact ⟨Nat.zero_le 1, .works rfl both⟩

structure Prepares (setup : Setup) (fuel : Nat) (frame : Frame packWords)
    (operations : List (Operation packWords)) (p : Play) (result : Play × Eval) : Prop where
  never : returnsIn operations = []
  free : costs operations = 0
  play : effects setup.pack operations p = result.1
  carries : Carries setup fuel (queuedIn operations) frame.boundary result.2
  own : ∀ entry ∈ queuedIn operations, entry.frame = frame

theorem Operation.costs_append (first second : List (Operation packWords)) :
    costs (first ++ second) = costs first + costs second := by
  simp [costs]

namespace Prepares

variable {operations : List (Operation packWords)} {p : Play}

theorem of_queue {entries : List (Entry packWords)} {e : Eval}
    (carries : Carries setup fuel entries frame.boundary e)
    (own : ∀ entry ∈ entries, entry.frame = frame) :
    Prepares setup fuel frame (entries.map .queue) p (p, e) := by
  have same : queuedIn (entries.map Operation.queue) = entries :=
    (queuedIn_queue id entries).trans (List.map_id entries)
  refine ⟨?_, ?_, effects_queue setup.pack id entries p, ?_, ?_⟩
  · simp [returnsIn, returned?]
  · simp [costs, cost, Function.comp_def]
  · rw [same]
    exact carries
  · rw [same]
    exact own

theorem append {first : List (Operation packWords)} {middle : Play} {evals others : List Eval}
    {result : Play} (own : frame.boundary.covers frame = true)
    (before : Prepares setup fuel frame first p (middle, .each evals))
    (later : Prepares setup fuel frame operations middle (result, .each others)) :
    Prepares setup fuel frame (first ++ operations) p (result, .each (evals ++ others)) := by
  refine ⟨?_, ?_, ?_, ?_, ?_⟩
  · rw [returnsIn_append, before.never, later.never]
    rfl
  · rw [costs_append, before.free, later.free]
  · rw [effects_append, before.play, later.play]
  · rw [queuedIn_append]
    exact before.carries.append later.carries fun entry member => later.own entry member ▸ own
  · rw [queuedIn_append]
    intro entry member
    cases List.mem_append.mp member with
    | inl member => exact before.own entry member
    | inr member => exact later.own entry member

theorem idle (never : returnsIn operations = []) (free : costs operations = 0)
    (idle : queuedIn operations = []) :
    Prepares setup fuel frame operations p (effects setup.pack operations p, .done) := by
  refine ⟨never, free, rfl, ?_, ?_⟩
  · rw [idle]
    exact carries_nil
  · rw [idle]
    exact fun _ member => absurd member List.not_mem_nil

theorem after (first : List (Operation packWords)) {result : Play × Eval}
    (never : returnsIn first = []) (free : costs first = 0) (idle : queuedIn first = [])
    (h : Prepares setup fuel frame operations (effects setup.pack first p) result) :
    Prepares setup fuel frame (first ++ operations) p result := by
  refine ⟨?_, ?_, ?_, ?_, ?_⟩
  · rw [returnsIn_append, never, h.never]
    rfl
  · rw [costs_append, free, h.free]
  · rw [effects_append, h.play]
  · rw [queuedIn_append, idle]
    exact h.carries
  · rw [queuedIn_append, idle]
    exact h.own

end Prepares

theorem prepares_leaves (own : frame.boundary.covers frame = true) (line : LeafLine packWords)
    (sources : List PackSource) (p : Play) :
    Prepares setup fuel frame (leavesOperations frame line sources) p
      (p, .each (sources.map (evalLeaf setup frame.activation line))) := by
  match sources with
  | [] => exact .idle rfl rfl rfl
  | [a] => exact .of_queue (carries_leaf line a).single (by simp)
  | [a, b] =>
    have both : Carries setup fuel [⟨frame, .execute line a⟩, ⟨frame, .execute line b⟩]
        frame.boundary (.each [_, _]) :=
      (carries_leaf line a).cons (carries_leaf line b).single (covers_singleton own)
    exact .of_queue both (by simp)
  | a :: b :: c :: rest => exact .of_queue (carries_drip line (a :: b :: c :: rest)) (by simp)

theorem Procedure.run_queueAll (rules : Rules packWords) (frame : Frame packWords)
    (tasks : List (Task packWords)) (m : Machine packWords) :
    (Control.queueAll tasks).run rules frame m =
      (.ok (), tasks.foldl (fun m task => m.queueIn frame task) m) := by
  induction tasks generalizing m with
  | nil => rfl
  | cons task rest ih => exact ih _

theorem queueFunctions_run (rules : Rules packWords) (frame : Frame packWords)
    (functions : List (FunctionRef packWords)) (arguments : Option Json)
    (issuer source : PackSource) (flags : Flags) (m : Machine packWords) :
    ((queueFunctions isSilent functions arguments issuer source flags).run rules frame m).1 =
      (FunctionRef.instantiateAll arguments functions).map fun _ => () := by
  unfold queueFunctions
  cases FunctionRef.instantiateAll arguments functions with
  | error error => rfl
  | ok bound =>
    simp only [bind, Procedure.bind, Control.ofExcept, Control.look, Procedure.run]
    split
    · rw [Procedure.run_queueAll]
      rfl
    · split
      · rw [Procedure.run_queueAll]
        rfl
      · simp only [Procedure.bind, Control.newTally, Procedure.run]
        rw [Procedure.run_queueAll]
        rfl

def CallsCarry (setup : Setup) (fuel : Nat) (call : Caller) : Prop :=
  ∀ (frame : Frame packWords) (function : BoundFunction packWords)
    (callback : Callback packWords) (returnCall : Bool) (source : PackSource),
    Carries setup fuel [⟨frame, .call function callback returnCall source⟩] frame.boundary
      (call frame.activation function callback returnCall source)

variable {call : Caller}

theorem CallsCarry.calls (carry : CallsCarry setup fuel call)
    (own : frame.boundary.covers frame = true) (bound : List (BoundFunction packWords))
    (callback : BoundFunction packWords → Callback packWords) (returnCall : Bool)
    (source : PackSource) :
    Carries setup fuel
      (bound.map fun function => ⟨frame, .call function (callback function) returnCall source⟩)
      frame.boundary (.each (bound.map fun function =>
        call frame.activation function (callback function) returnCall source)) :=
  Carries.map (fun function _ => carry frame function (callback function) returnCall source)
    fun _ _ => own

theorem frame_eq_of_mem {α : Type} {task : α → Task packWords} (l : List α)
    {last : List (Entry packWords)} (ends : ∀ entry ∈ last, entry.frame = frame) :
    ∀ entry ∈ (l.map fun a => (⟨frame, task a⟩ : Entry packWords)) ++ last,
      entry.frame = frame := by
  intro entry member
  cases List.mem_append.mp member with
  | inr member => exact ends entry member
  | inl member =>
    obtain ⟨a, _, rfl⟩ := List.mem_map.mp member
    rfl

theorem prepares_bound (carry : CallsCarry setup fuel call)
    (own : frame.boundary.covers frame = true) {functions : List (FunctionRef packWords)}
    {arguments : Option Json} {bound : List (BoundFunction packWords)}
    (binds : FunctionRef.instantiateAll arguments functions = .ok bound) (flags : Flags)
    (source : PackSource) (m : Machine packWords) :
    Prepares setup fuel frame
      ((queueFunctions isSilent functions arguments source (source.mapPersona Persona.forFunction)
        flags).operations (packRules setup.pack) frame m)
      m.play (prepareBound setup call frame.activation bound source flags m.play) := by
  have calls (callback : Callback packWords) (returnCall : Bool) :=
    carry.calls own bound (fun function => announced isSilent source function.id callback)
      returnCall (source.mapPersona Persona.forFunction).clearCallbacks
  rw [queueFunctions_operations, binds]
  unfold prepareBound
  dsimp only
  cases flags.isReturn with
  | true =>
    have prepares := Prepares.of_queue (p := m.play)
      ((calls (source.callback.chain frame.sink) true).append carries_fallthrough.single
        (covers_singleton own))
      (frame_eq_of_mem bound (by simp))
    rw [List.map_append, List.map_map] at prepares
    exact prepares
  | false =>
    simp only [Bool.false_eq_true, if_false]
    cases bound.length == 1 || source.callback.isEmpty with
    | true =>
      have prepares := Prepares.of_queue (p := m.play)
        (calls (source.callback.chain frame.recorder) false)
        (List.append_nil (List.map _ bound) ▸ frame_eq_of_mem bound (by simp))
      rw [List.map_map] at prepares
      exact prepares
    | false =>
      refine Prepares.after [.newTally] rfl rfl rfl ?_
      have total : Carries setup fuel [⟨frame, .deferred (Control.deliverTally
          m.heap.newTally.1 (source.callback.chain frame.recorder))⟩] frame.boundary
          (.effect (·.deliverTally setup.pack m.heap.newTally.1
            (source.callback.chain frame.recorder))) :=
        carries_effect fun _ => ⟨rfl, rfl, rfl, rfl⟩
      have prepares := Prepares.of_queue (p := effects setup.pack [.newTally] m.play)
        ((calls [.tally m.heap.newTally.1] false).append total.single (covers_singleton own))
        (frame_eq_of_mem bound (by simp))
      rw [List.map_append, List.map_map] at prepares
      exact prepares

theorem prepares_calls (carry : CallsCarry setup fuel call)
    (own : frame.boundary.covers frame = true) (target : String) (arguments : Option Json)
    (chain : Chain packWords) (flags : Flags) (source : PackSource) (m : Machine packWords) :
    Prepares setup fuel frame
      (actOperations (packRules setup.pack) frame (.function target arguments) chain flags source m)
      m.play (prepareCalls setup call frame.activation target arguments source flags m.play) := by
  unfold actOperations prepareCalls
  have acts : (packRules setup.pack).act (.function target arguments) source chain flags =
      callFunctions setup.pack target arguments source flags := rfl
  rw [acts]
  unfold callFunctions
  cases setup.pack.library.resolve target with
  | error error => exact .idle rfl rfl rfl
  | ok functions =>
    have announces : (do
        let functions ← Control.ofExcept (.ok functions)
        tell (source.persona.sendSuccess (runningText functions))
        queueFunctions isSilent functions arguments source
          (source.mapPersona Persona.forFunction) flags : Control packWords Unit) =
        Procedure.update (source.persona.sendSuccess (runningText functions))
          (queueFunctions isSilent functions arguments source
            (source.mapPersona Persona.forFunction) flags) := rfl
    rw [announces]
    simp only [Procedure.operations, Procedure.run]
    rw [queueFunctions_run]
    cases binds : FunctionRef.instantiateAll arguments functions with
    | error error =>
      rw [queueFunctions_operations, binds]
      exact .idle rfl rfl rfl
    | ok bound =>
      have bound := prepares_bound carry own binds flags source
        { m with setting := source.persona.sendSuccess (runningText functions) m.setting }
      dsimp only [Except.map]
      rw [List.append_nil]
      exact Prepares.after [.update _] rfl rfl rfl bound

theorem prepares_traced (carry : CallsCarry setup fuel call)
    (own : frame.boundary.covers frame = true) (index : Nat) (source traced : PackSource)
    (functions : List (FunctionRef packWords)) (p : Play) (m : Machine packWords) :
    ((queueTraced index source traced functions).run (packRules setup.pack) frame m).1 =
        .ok (prepareTraced call frame.activation index source traced functions p).1 ∧
      Prepares setup fuel frame
        ((queueTraced index source traced functions).operations (packRules setup.pack) frame m) p
        ((prepareTraced call frame.activation index source traced functions p).2.1,
          .each (prepareTraced call frame.activation index source traced functions p).2.2) := by
  induction functions generalizing p m with
  | nil => exact ⟨rfl, .idle rfl rfl rfl⟩
  | cons function rest ih =>
    unfold queueTraced prepareTraced
    cases function.bind none with
    | error error =>
      obtain ⟨counts, prepares⟩ := ih (p.tell (source.persona.sendFailure error.message))
        { m with setting := source.persona.sendFailure error.message m.setting }
      exact ⟨counts, Prepares.after [.update _] rfl rfl rfl prepares⟩
    | ok lines =>
      let heading : Task packWords := .deferred (tell (World.add (.traced (.opened index)
        (PrintItem.heading function.id.render))))
      let traces : Task packWords := .call ⟨function.id, lines⟩ Callback.empty false traced
      obtain ⟨counts, prepares⟩ := ih p ((m.enqueue ⟨frame, heading⟩).enqueue ⟨frame, traces⟩)
      refine ⟨(Procedure.run_map (packRules setup.pack) frame _ (lines.length + ·) _).trans
        (congrArg (Except.map _) counts), ?_⟩
      have told : Carries setup fuel [⟨frame, heading⟩] frame.boundary
          (.effect (·.tell (World.add (.traced (.opened index)
            (PrintItem.heading function.id.render))))) :=
        carries_effect fun _ => ⟨rfl, rfl, rfl, rfl⟩
      have both : Carries setup fuel [⟨frame, heading⟩, ⟨frame, traces⟩] frame.boundary
          (.each [_, _]) :=
        told.cons (carry frame ⟨function.id, lines⟩ Callback.empty false traced).single
          (covers_singleton own)
      have queues := Prepares.of_queue (p := p) both (by simp)
      have all := queues.append own prepares
      rw [← Procedure.operations_map] at all
      exact all

theorem prepares_trace (carry : CallsCarry setup fuel call)
    (own : frame.boundary.covers frame = true) (index : Nat) (source traced : PackSource)
    (functions : List (FunctionRef packWords)) (text : Nat → String) (p : Play)
    (m : Machine packWords) :
    let procedure := (queueTraced index source traced functions).bind fun commands =>
      Control.queue (.deferred (traceClosing index source (text commands)))
    let prepared := prepareTraced call frame.activation index source traced functions p
    (procedure.run (packRules setup.pack) frame m).1 = .ok () ∧
      Prepares setup fuel frame (procedure.operations (packRules setup.pack) frame m) p
        (prepared.2.1, .each (prepared.2.2 ++ [.effect fun p =>
          ({ p with tracer := none }.tell (World.add (.traced (.opened index) .flush))).tell
            (source.persona.sendSuccess (text prepared.1))])) := by
  intro procedure prepared
  obtain ⟨counts, prepares⟩ :=
    prepares_traced carry own index source traced functions p m
  have ran := Procedure.run_bind (packRules setup.pack) frame
    (queueTraced index source traced functions)
    (fun commands => Control.queue (.deferred (traceClosing index source (text commands)))) m
  have operations := Procedure.operations_bind (packRules setup.pack) frame
    (queueTraced index source traced functions)
    (fun commands => Control.queue (.deferred (traceClosing index source (text commands)))) m
  cases result : (queueTraced index source traced functions).run (packRules setup.pack) frame m with
  | mk count after =>
    rw [result] at counts ran operations
    cases counts
    refine ⟨congrArg Prod.fst ran, ?_⟩
    have closing : Carries setup fuel
        [⟨frame, .deferred (traceClosing index source (text prepared.1))⟩] frame.boundary
        (.effect fun p =>
          ({ p with tracer := none }.tell (World.add (.traced (.opened index) .flush))).tell
            (source.persona.sendSuccess (text prepared.1))) :=
      carries_effect fun _ => ⟨rfl, rfl, rfl, rfl⟩
    have all := prepares.append own (.of_queue closing.single fun entry member => by
      rw [List.mem_singleton.mp member])
    rw [operations]
    exact all

theorem prepares_debug (carry : CallsCarry setup fuel call)
    (own : frame.boundary.covers frame = true) (target : String) (chain : Chain packWords)
    (flags : Flags) (source : PackSource) (m : Machine packWords) :
    Prepares setup fuel frame
      (actOperations (packRules setup.pack) frame (.debug target) chain flags source m)
      m.play (prepareDebug setup call frame.activation target source flags m.play) := by
  unfold actOperations prepareDebug
  have acts : (packRules setup.pack).act (.debug target) source chain flags =
      debugTrace setup.pack target source flags := rfl
  have tracer : m.play.tracer = m.tracer := rfl
  have setting : m.play.scene.setting = m.setting := rfl
  rw [acts, tracer, setting]
  unfold debugTrace
  cases flags.isReturn with
  | true => exact .idle rfl rfl rfl
  | false =>
    simp only [bind, Procedure.bind, Control.look, Procedure.operations, Procedure.run,
      Bool.false_eq_true, if_false]
    cases free : m.tracer with
    | some attached => exact .idle rfl rfl rfl
    | none =>
      cases setup.pack.library.resolve target with
      | error error => exact .idle rfl rfl rfl
      | ok functions =>
        simp only [Option.isSome_none, Bool.false_eq_true, if_false, Procedure.bind,
          Control.ofExcept, Control.consult, Procedure.operations, Procedure.run]
        cases m.setting.tracesWritable with
        | false => exact .idle rfl rfl rfl
        | true =>
          let index := m.setting.traces
          let change : World → World := World.add (.traceOpened index)
          let traced := source.mapPersona fun p =>
            (p.withOutput (.trace index)).withMaximumPermission Persona.functionPermission
          let text (commands : Nat) := tracedText functions commands m.setting.traceFile
          let next (_ : Unit) : Control packWords Unit :=
            (queueTraced index source traced functions).bind fun commands =>
              Control.queue (.deferred (traceClosing index source (text commands)))
          have attaches := Procedure.attach_bind (packRules setup.pack) frame (.opened index) next
            (m := { m with setting := change m.setting }) free
          obtain ⟨ran, prepares⟩ := prepares_trace carry own index source traced functions text
            { m.play.tell change with tracer := some (.opened index) }
            { m with setting := change m.setting, tracer := some (.opened index) }
          have opened : effects setup.pack [.update change, .attach (.opened index)] m.play =
              { m.play.tell change with tracer := some (.opened index) } := by
            simp [effect, Play.tell, Machine.play, free]
          have accepted := (congrArg Prod.fst attaches.2).trans ran
          simp only [if_true]
          split
          next =>
            rw [List.append_nil]
            change Prepares setup fuel frame (Operation.update change ::
              ((Control.attach (V := packWords) (.opened index)).bind next).operations _ _ _) _ _
            rw [attaches.1]
            refine Prepares.after [.update change, .attach (.opened index)] rfl rfl rfl ?_
            rw [opened]
            exact prepares
          next error refused => cases accepted.symm.trans refused

end PackEngine
