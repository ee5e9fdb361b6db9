import PackEngine.Proofs.Passages
import PackEngine.Proofs.Tracers
import PackEngine.Proofs.TwinTargets

/-! Commands that are refused. All functions of a command are found and bound before anything is
scheduled, so a command that fails has done nothing but tell its source that it would run. -/
namespace PackEngine

open Machine

theorem Persona.scores_sendSuccess (persona : Persona) (text : String) (w : World) :
    (persona.sendSuccess text w).scores = w.scores := by
  unfold Persona.sendSuccess Persona.emit
  split
  · rfl
  · split <;> rfl

theorem FunctionRef.instantiateAll_refused {V : Vocabulary} {arguments : Option Json}
    {functions : List (FunctionRef V)} {function : FunctionRef V} {reason : CommandError}
    (member : function ∈ functions) (refuses : function.instantiate arguments = .error reason) :
    ∃ error, instantiateAll arguments functions = .error error := by
  induction functions with
  | nil => cases member
  | cons first rest ih =>
    unfold instantiateAll
    cases own : first.instantiate arguments with
    | error error => exact ⟨error, rfl⟩
    | ok one =>
      rcases List.mem_cons.mp member with rfl | later
      · cases refuses.symm.trans own
      · obtain ⟨error, binds⟩ := ih later
        exact ⟨error, by rw [binds]⟩

section

variable {pack : Pack} {frame : Frame packWords} {m after : Machine packWords}
  {error : CommandError}

theorem queueFunctions_unbound {functions : List (FunctionRef packWords)}
    {arguments : Option Json}
    (refuses : FunctionRef.instantiateAll arguments functions = .error error)
    (issuer source : PackSource) (flags : Flags) :
    (queueFunctions isSilent functions arguments issuer source flags).run (packRules pack) frame
      m = (.error error, m) := by
  unfold queueFunctions
  rw [refuses]
  rfl

theorem scheduleConditions_unbound {functions : List (FunctionRef packWords)}
    (refuses : FunctionRef.instantiateAll none functions = .error error)
    (adapt : PackSource → PackSource) (polarity : Polarity) (issuer : PackSource)
    (sources : List PackSource) (chain : Chain packWords) (flags : Flags) :
    (scheduleConditions adapt polarity functions issuer sources chain flags).run (packRules pack)
      frame m = (.error error, m) := by
  unfold scheduleConditions
  rw [refuses]
  rfl

theorem queueFunctions_refused {functions : List (FunctionRef packWords)}
    {arguments : Option Json} {issuer source : PackSource} {flags : Flags}
    (refused : (queueFunctions isSilent functions arguments issuer source flags).run
      (packRules pack) frame m = (.error error, after)) :
    FunctionRef.instantiateAll arguments functions = .error error ∧ after = m := by
  have result := queueFunctions_run (packRules pack) frame functions arguments issuer source flags m
  rw [refused] at result
  cases binds : FunctionRef.instantiateAll arguments functions with
  | ok bound =>
    rw [binds] at result
    cases result
  | error other =>
    cases (queueFunctions_unbound binds issuer source flags).symm.trans refused
    exact ⟨rfl, rfl⟩

theorem scheduleConditions_refused {adapt : PackSource → PackSource} {polarity : Polarity}
    {functions : List (FunctionRef packWords)} {issuer : PackSource} {sources : List PackSource}
    {chain : Chain packWords} {flags : Flags}
    (refused : (scheduleConditions adapt polarity functions issuer sources chain flags).run
      (packRules pack) frame m = (.error error, after)) :
    FunctionRef.instantiateAll none functions = .error error ∧ after = m := by
  have result := scheduleConditions_run (packRules pack) frame adapt polarity functions issuer
    sources chain flags m
  rw [refused] at result
  cases binds : FunctionRef.instantiateAll none functions with
  | ok bound =>
    rw [binds] at result
    cases result
  | error other =>
    cases (scheduleConditions_unbound binds adapt polarity issuer sources chain flags).symm.trans
      refused
    exact ⟨rfl, rfl⟩

theorem callFunctions_refused {target : String} {arguments : Option Json} {source : PackSource}
    {flags : Flags}
    (refused : (callFunctions pack target arguments source flags).run (packRules pack) frame m =
      (.error error, after)) :
    pack.library.resolve target = .error error ∧ after = m ∨
      ∃ functions, pack.library.resolve target = .ok functions ∧
        FunctionRef.instantiateAll arguments functions = .error error ∧
        after = { m with
          setting := source.persona.sendSuccess (runningText functions) m.setting } := by
  unfold callFunctions at refused
  cases found : pack.library.resolve target with
  | error other =>
    rw [found] at refused
    cases refused
    exact .inl ⟨rfl, rfl⟩
  | ok functions =>
    rw [found] at refused
    obtain ⟨binds, same⟩ := queueFunctions_refused refused
    exact .inr ⟨functions, rfl, binds, same⟩

theorem debugTrace_refused {target : String} {source : PackSource} {flags : Flags}
    (refused : (debugTrace pack target source flags).run (packRules pack) frame m =
      (.error error, after)) : after = m := by
  have performed := Procedure.applyAll_operations (packRules pack) frame
    (debugTrace pack target source flags) m
  obtain ⟨_, nothing⟩ | ⟨_, accepted, _⟩ :=
    debugTrace_operations pack frame target source flags m
  · rw [nothing error (congrArg Prod.fst refused), refused] at performed
    exact performed.symm
  · cases accepted.symm.trans (congrArg Prod.fst refused)

end

structure Machine.Refused (source : PackSource) (before after : Machine packWords) : Prop where
  machine : after = { before with setting := after.setting }
  scores : after.setting.scores = before.setting.scores
  notice : after.setting = before.setting ∨ ∃ functions,
    after.setting = source.persona.sendSuccess (runningText functions) before.setting

section

variable {pack : Pack} {frame : Frame packWords} {m after : Machine packWords}
  {error : CommandError}

theorem act_refused {action : CallAction} {source : PackSource} {chain : Chain packWords}
    {flags : Flags}
    (refused : ((packRules pack).act action source chain flags).run (packRules pack) frame m =
      (.error error, after)) : m.Refused source after := by
  cases action with
  | function target arguments =>
    rcases callFunctions_refused refused with ⟨_, rfl⟩ | ⟨functions, _, _, rfl⟩
    · exact ⟨rfl, rfl, .inl rfl⟩
    · exact ⟨rfl, source.persona.scores_sendSuccess _ _, .inr ⟨functions, rfl⟩⟩
  | debug target =>
    obtain rfl := debugTrace_refused refused
    exact ⟨rfl, rfl, .inl rfl⟩
  | returnValue value => cases refused
  | returnFail => cases refused

theorem gate_refused {condition : Condition} {issuer : PackSource} {sources : List PackSource}
    {chain : Chain packWords} {flags : Flags}
    (refused : ((packRules pack).gate condition issuer sources chain flags).run (packRules pack)
      frame m = (.error error, after)) : after = m := by
  change (condition.schedule pack issuer sources chain flags).run _ _ _ = _ at refused
  unfold Condition.schedule at refused
  cases found : pack.library.resolve condition.target with
  | error other =>
    rw [found] at refused
    cases refused
    rfl
  | ok functions =>
    rw [found] at refused
    exact (scheduleConditions_refused refused).2

end

/-! The run of a target as a whole, with every error that it declares. -/

inductive RunFailure where
  | command (error : CommandError)
  | engine (error : EngineError)
  | usage (error : UsageError)

def RunFailure.ofError : RunError → RunFailure
  | .command error => .command error
  | .engine error => .engine error

namespace RunRequest

def prepared (request : RunRequest) (w : World) : Except UsageError (Machine packWords) :=
  let m : Machine packWords := Machine.start request.limits ⟨{}, w⟩
  if request.traced then m.attach .given else .ok m

/-- Runs a target, and attaches the tracer as commands do. -/
def attempt (pack : Pack) (turns : Nat) (request : RunRequest) (w : World) :
    Option (Except RunFailure RunReport × World) :=
  match request.functions pack with
  | .error error => some (.error (.command error), w)
  | .ok functions =>
      match request.prepared w with
      | .error error => some (.error (.usage error), w)
      | .ok m =>
          ((seedAll request.source functions m).run (packRules pack) turns).map
            fun (verdict, m) =>
              match verdict with
              | .ok () => (.ok ⟨Journal.results (m.setting.effectsSince w.journal.size),
                  m.executed⟩, m.setting)
              | .error error => (.error (.engine error), m.setting)

variable (pack : Pack) (turns : Nat) (request : RunRequest) (w : World)

theorem attempt_eq : request.attempt pack turns w =
    (runTarget pack turns request w).map fun (answer, w) =>
      (answer.mapError RunFailure.ofError, w) := by
  have attaches : request.prepared w =
      .ok (let m : Machine packWords := Machine.start request.limits ⟨{}, w⟩
        if request.traced then { m with tracer := some .given } else m) := by
    unfold prepared
    cases request.traced <;> rfl
  unfold attempt runTarget
  rw [attaches]
  change _ = (match request.functions pack with
    | .error error => _
    | .ok functions => _ : Option (Except RunError RunReport × World)).map _
  cases request.functions pack with
  | error error => rfl
  | ok functions =>
    dsimp only
    rw [Option.map_map]
    refine congrArg (Option.map · _) (funext fun ended => ?_)
    obtain ⟨verdict, m⟩ := ended
    cases verdict <;> rfl

theorem runTarget_refused {error : CommandError} {after : World}
    (refused : runTarget pack turns request w = some (.error (.command error), after)) :
    after = w := by
  rw [runTarget_eq] at refused
  cases found : request.functions pack with
  | error other =>
    rw [found] at refused
    cases refused
    rfl
  | ok functions =>
    rw [found, Option.map_eq_some_iff] at refused
    obtain ⟨⟨verdict, m⟩, _, same⟩ := refused
    cases verdict <;> cases same

theorem runTarget_ne_notIdle (phase : Phase) (after : World) :
    runTarget pack turns request w ≠ some (.error (.engine (.notIdle phase)), after) := by
  intro refused
  rw [runTarget_eq] at refused
  cases found : request.functions pack with
  | error other =>
    rw [found] at refused
    cases refused
  | ok functions =>
    rw [found, Option.map_eq_some_iff] at refused
    obtain ⟨⟨verdict, m⟩, turned, same⟩ := refused
    obtain ⟨last, _, _, ends, _⟩ := (turn_eq_some_iff _ _ _ _ _).mp turned
    cases verdict with
    | ok value => cases same
    | error error =>
      cases same
      unfold verdict? at ends
      split at ends
      · cases ends
      · split at ends
        · cases ends
        · split at ends <;> cases ends

end RunRequest

def Pack.Unbound (pack : Pack) (target : String) (arguments : Option Json) : Prop :=
  ∃ functions function reason, pack.library.resolve target = .ok functions ∧
    function ∈ functions ∧ function.instantiate arguments = .error reason

namespace Pack.Unbound

variable {pack : Pack} {target : String} {arguments : Option Json}

theorem instantiateAll (unbound : pack.Unbound target arguments) : ∃ functions error,
    pack.library.resolve target = .ok functions ∧
      FunctionRef.instantiateAll arguments functions = .error error := by
  obtain ⟨functions, function, reason, found, member, refuses⟩ := unbound
  obtain ⟨error, binds⟩ := FunctionRef.instantiateAll_refused member refuses
  exact ⟨functions, error, found, binds⟩

theorem act (unbound : pack.Unbound target arguments) (source : PackSource)
    (chain : Chain packWords) (flags : Flags) (frame : Frame packWords) (m : Machine packWords) :
    ∃ error after, ((packRules pack).act (.function target arguments) source chain flags).run
      (packRules pack) frame m = (.error error, after) := by
  obtain ⟨functions, error, found, binds⟩ := unbound.instantiateAll
  refine ⟨error, { m with
    setting := source.persona.sendSuccess (runningText functions) m.setting }, ?_⟩
  rw [act_function, found]
  exact queueFunctions_unbound binds source (source.mapPersona Persona.forFunction) flags

theorem gate {condition : Condition} (unbound : pack.Unbound condition.target none)
    (issuer : PackSource) (sources : List PackSource) (chain : Chain packWords) (flags : Flags)
    (frame : Frame packWords) (m : Machine packWords) :
    ∃ error, ((packRules pack).gate condition issuer sources chain flags).run (packRules pack)
      frame m = (.error error, m) := by
  obtain ⟨functions, error, found, binds⟩ := unbound.instantiateAll
  refine ⟨error, ?_⟩
  change (condition.schedule pack issuer sources chain flags).run _ _ _ = _
  unfold Condition.schedule
  rw [found]
  exact scheduleConditions_unbound binds _ condition.polarity issuer sources chain flags

theorem runTarget {request : RunRequest} (unbound : pack.Unbound request.target request.arguments)
    (turns : Nat) (w : World) :
    ∃ error, PackEngine.runTarget pack turns request w = some (.error (.command error), w) := by
  obtain ⟨functions, error, found, binds⟩ := unbound.instantiateAll
  refine ⟨error, RunRequest.runTarget_of_refused ?_ turns⟩
  unfold RunRequest.functions
  rw [found]
  exact binds

end Pack.Unbound

/-- A command that is refused has scheduled nothing, wherever in it the failure lies, and neither
has a run of a target. -/
theorem refusals_schedule_nothing (pack : Pack) :
    (∀ action source chain flags frame m error after,
      ((packRules pack).act action source chain flags).run (packRules pack) frame m =
        (.error error, after) → m.Refused source after) ∧
    (∀ condition issuer sources chain flags frame m error after,
      ((packRules pack).gate condition issuer sources chain flags).run (packRules pack) frame m =
        (.error error, after) → after = m) ∧
    (∀ turns request w error after,
      runTarget pack turns request w = some (.error (.command error), after) → after = w) ∧
    (∀ target arguments, pack.Unbound target arguments →
      (∀ source chain flags frame m, ∃ error after,
        ((packRules pack).act (.function target arguments) source chain flags).run
          (packRules pack) frame m = (.error error, after)) ∧
      (∀ condition issuer sources chain flags frame m,
        condition.target = target → arguments = none → ∃ error,
          ((packRules pack).gate condition issuer sources chain flags).run (packRules pack)
            frame m = (.error error, m)) ∧
      ∀ turns request w, request.target = target → request.arguments = arguments →
        ∃ error, runTarget pack turns request w = some (.error (.command error), w)) ∧
    (∀ turns request w phase after,
      runTarget pack turns request w ≠ some (.error (.engine (.notIdle phase)), after)) ∧
    ∀ turns request w, request.attempt pack turns w =
        (runTarget pack turns request w).map (fun (answer, w) =>
          (answer.mapError RunFailure.ofError, w)) ∧
      ∀ misuse after, request.attempt pack turns w ≠ some (.error (.usage misuse), after) := by
  refine ⟨fun _ _ _ _ _ _ _ _ => act_refused, fun _ _ _ _ _ _ _ _ _ => gate_refused,
    fun turns request w _ _ => request.runTarget_refused pack turns w,
    fun target arguments unbound => ⟨unbound.act, ?_, ?_⟩,
    fun turns request w => request.runTarget_ne_notIdle pack turns w,
    fun turns request w => ⟨request.attempt_eq pack turns w, fun misuse after misused => ?_⟩⟩
  · rintro condition issuer sources chain flags frame m rfl rfl
    exact unbound.gate issuer sources chain flags frame m
  · rintro turns request w rfl rfl
    exact unbound.runTarget turns w
  · rw [request.attempt_eq, Option.map_eq_some_iff] at misused
    obtain ⟨⟨answer, _⟩, _, same⟩ := misused
    cases answer with
    | ok report => cases same
    | error error => cases error <;> cases same

/-- A tag whose second function needs an argument. -/
def needyPack : Pack where
  functions :=
    [(⟨"minecraft", "f", .refl true, .refl true⟩, { lines := [
        .obj [("run", .arr [.str "Value", .num (.int 1)])]] }),
     (⟨"minecraft", "g", .refl true, .refl true⟩, { params := ["n"] })]
  tags := [(⟨"minecraft", "both", .refl true, .refl true⟩,
    [⟨"minecraft", "f", .refl true, .refl true⟩, ⟨"minecraft", "g", .refl true, .refl true⟩])]

/-- A call of the tag, a condition on it and a run of it are all refused, with the first function
already bound. -/
theorem refusals_schedule_nothing_second :
    needyPack.Unbound "#both" none ∧
    (∃ error after, ((packRules needyPack).act (.function "#both" none) PackSource.server
        ⟨"function #both", [], .action (.function "#both" none)⟩ Flags.none).run
        (packRules needyPack) (Frame.root 0 Callback.empty 0) (Machine.start {} ⟨{}, {}⟩) =
          (.error error, after) ∧
      (Machine.start (V := packWords) {} ⟨{}, {}⟩).Refused PackSource.server after) ∧
    (∃ error, ((packRules needyPack).gate ⟨.holds, "#both"⟩ PackSource.server
        [PackSource.server] ⟨"value 1", [], .leaf (.value 1)⟩ Flags.none).run
        (packRules needyPack) (Frame.root 0 Callback.empty 0) (Machine.start {} ⟨{}, {}⟩) =
          (.error error, Machine.start (V := packWords) {} ⟨{}, {}⟩)) ∧
    ∃ error, runTarget needyPack 9 { target := "#both" } {} =
      some (.error (.command error), {}) := by
  have unbound : needyPack.Unbound "#both" none :=
    ⟨_, _, _, rfl, List.mem_cons_of_mem _ List.mem_cons_self, rfl⟩
  obtain ⟨acts, _, _, refuses, _⟩ := refusals_schedule_nothing needyPack
  obtain ⟨calls, asks, runs⟩ := refuses "#both" none unbound
  obtain ⟨error, after, refused⟩ := calls PackSource.server
    ⟨"function #both", [], .action (.function "#both" none)⟩ Flags.none
    (Frame.root 0 Callback.empty 0) (Machine.start {} ⟨{}, {}⟩)
  exact ⟨unbound, ⟨error, after, refused, acts _ _ _ _ _ _ _ _ refused⟩,
    asks ⟨.holds, "#both"⟩ _ _ _ _ _ _ rfl rfl, runs 9 { target := "#both" } {} rfl rfl⟩

end PackEngine
