import PackEngine.Proofs.DirectRuns

/-! Tracers are given back. A debug command attaches a tracer only where there is none, and takes it
off after its calls, which come back to it however their bodies end. So an evaluation leaves the
tracer attached that it has found, or none if it has found none. -/
namespace PackEngine.Direct

namespace Play

variable (p : Play)

@[simp] theorem tracer_charge : p.charge.tracer = p.tracer := rfl

@[simp] theorem tracer_tell (change : World → World) : (p.tell change).tracer = p.tracer := rfl

@[simp] theorem tracer_deliver (pack : Pack) (callback : Callback packWords) (outcome : Outcome) :
    (p.deliver pack callback outcome).tracer = p.tracer := rfl

@[simp] theorem tracer_record (slot : SlotId) (outcome : Outcome) :
    (p.record slot outcome).tracer = p.tracer := rfl

@[simp] theorem tracer_trace (event : TraceEvent) : (p.trace event).tracer = p.tracer := by
  unfold trace
  split <;> rfl

@[simp] theorem tracer_report (source : PackSource) (error : CommandError) (forked : Bool) :
    (p.report source error forked).tracer = p.tracer := by
  simp [report]

end Play

def Eval.Restores (e : Eval) : Prop :=
  ∀ p exit after, e p = some (exit, after) → after.tracer = p.tracer

def Eval.Detaches (e : Eval) : Prop :=
  ∀ p exit after, e p = some (exit, after) → exit = .onward ∧ after.tracer = none

namespace Eval

variable {e f : Eval}

theorem restores_done : Restores done := by
  intro p exit after same
  cases same
  rfl

theorem restores_leave : Restores leave := by
  intro p exit after same
  cases same
  rfl

theorem restores_effect {change : Play → Play} (keeps : ∀ p, (change p).tracer = p.tracer) :
    Restores (effect change) := by
  intro p exit after same
  cases same
  exact keeps p

theorem Restores.behind (h : e.Restores) {change : Play → Play}
    (keeps : ∀ p, (change p).tracer = p.tracer) : Restores fun p => e (change p) :=
  fun p exit after same => (h _ exit after same).trans (keeps p)

theorem Restores.andThen (first : e.Restores) (later : f.Restores) : (e.andThen f).Restores := by
  intro p exit after same
  unfold Eval.andThen at same
  cases result : e p with
  | none =>
    rw [result] at same
    cases same
  | some done =>
    obtain ⟨ends, middle⟩ := done
    have kept := first p ends middle result
    rw [result] at same
    cases ends with
    | onward => exact (later middle exit after same).trans kept
    | left =>
      cases same
      exact kept

theorem restores_each {evals : List Eval} (all : ∀ e ∈ evals, e.Restores) :
    (each evals).Restores := by
  induction evals with
  | nil => exact restores_done
  | cons e rest ih =>
    exact (all e List.mem_cons_self).andThen
      (ih fun other member => all other (List.mem_cons_of_mem e member))

theorem Restores.confine (h : e.Restores) : e.confine.Restores := by
  intro p exit after same
  obtain ⟨⟨ends, middle⟩, inside, last⟩ := Option.map_eq_some_iff.mp same
  cases last
  exact h p ends after inside

end Eval

open Eval

section

variable {setup : Setup} {call : Caller} {act : Activation}

/-- Calls give the tracer back, and all but return calls come back to their callers. -/
structure Caller.Restores (call : Caller) : Prop where
  tracer (act : Activation) (function : BoundFunction packWords) (callback : Callback packWords)
    (returnCall : Bool) (source : PackSource) :
    (call act function callback returnCall source).Restores
  onward {act : Activation} {function : BoundFunction packWords} {callback : Callback packWords}
    {source : PackSource} {p after : Play} {exit : Exit}
    (ends : call act function callback false source p = some (exit, after)) : exit = .onward

theorem restores_return (outcome : Outcome) : (evalReturn setup act outcome).Restores := by
  intro p exit after same
  cases same
  rfl

theorem restores_end : (evalEnd setup act).Restores := by
  intro p exit after same
  unfold evalEnd at same
  split at same
  · cases same
    rfl
  · cases same
    rfl

theorem restores_leaf (line : LeafLine packWords) (source : PackSource) :
    (evalLeaf setup act line source).Restores := by
  intro p exit after same
  unfold evalLeaf at same
  cases result : (line.leaf.perform source p.scene.setting).1 with
  | ok value =>
    simp only [result] at same
    split at same <;> cases same <;> simp
  | error error =>
    simp only [result] at same
    split at same <;> cases same <;> simp

theorem tracer_refuse (source : PackSource) (error : CommandError) (forked : Bool) (p : Play) :
    (refuse setup act source error forked p).tracer = p.tracer := by
  simp [refuse]

def Kept (p : Play) (prepared : Play × Eval) : Prop :=
  prepared.1.tracer = p.tracer ∧ prepared.2.Restores

theorem kept_bound (calls : call.Restores) (bound : List (BoundFunction packWords))
    (source : PackSource) (flags : Flags) (p : Play) :
    Kept p (prepareBound setup call act bound source flags p) := by
  have each (callback : Callback packWords) (returnCall : Bool) :
      ∀ e ∈ bound.map (fun function =>
        call act function (announced isSilent source function.id callback) returnCall
          (source.mapPersona Persona.forFunction).clearCallbacks), e.Restores := by
    intro e member
    obtain ⟨function, _, rfl⟩ := List.mem_map.mp member
    exact calls.tracer act function _ returnCall _
  unfold prepareBound
  dsimp only
  split
  · refine ⟨rfl, restores_each fun e member => ?_⟩
    cases List.mem_append.mp member with
    | inl member => exact each _ _ e member
    | inr member =>
      cases List.mem_singleton.mp member
      exact restores_return _
  · split
    · exact ⟨rfl, restores_each (each _ _)⟩
    · refine ⟨rfl, restores_each fun e member => ?_⟩
      cases List.mem_append.mp member with
      | inl member => exact each _ _ e member
      | inr member =>
        cases List.mem_singleton.mp member
        exact restores_effect fun p => rfl

theorem kept_calls (calls : call.Restores) (target : String) (arguments : Option Json)
    (source : PackSource) (flags : Flags) (p : Play) :
    Kept p (prepareCalls setup call act target arguments source flags p) := by
  unfold prepareCalls
  split
  · exact ⟨tracer_refuse source _ _ p, restores_done⟩
  · dsimp only
    split
    · exact ⟨tracer_refuse source _ _ _, restores_done⟩
    · exact kept_bound calls _ source flags _

theorem tracer_prepareTraced (index : Nat) (source traced : PackSource)
    (functions : List (FunctionRef packWords)) (p : Play) :
    (prepareTraced call act index source traced functions p).2.1.tracer = p.tracer := by
  induction functions generalizing p with
  | nil => rfl
  | cons function rest ih =>
    unfold prepareTraced
    split
    · exact ih _
    · exact ih p

theorem detaches_traced (calls : call.Restores) {closing : Eval} (ends : closing.Detaches)
    (index : Nat) (source traced : PackSource) (functions : List (FunctionRef packWords))
    (p : Play) :
    Detaches (each ((prepareTraced call act index source traced functions p).2.2 ++ [closing])) := by
  induction functions generalizing p with
  | nil =>
    show (each [closing]).Detaches
    rw [each_singleton]
    exact ends
  | cons function rest ih =>
    unfold prepareTraced
    split
    · exact ih _
    · next lines _ =>
      intro before exit after same
      simp only [List.cons_append, each, Eval.andThen, effect] at same
      cases called : call act ⟨function.id, lines⟩ Callback.empty false traced
          (before.tell (World.add (.traced (.opened index) (.heading function.id.render)))) with
      | none =>
        rw [called] at same
        cases same
      | some done =>
        obtain ⟨leaves, middle⟩ := done
        -- a return inside the body stops there, so the closing comes
        cases calls.onward called
        rw [called] at same
        exact ih p middle exit after same

/-- Sources of a debug line have been prepared: nothing is left to do for them, or a trace has
begun, and ends once what is left is done. -/
inductive Traces (p q : Play) (e : Eval) : Prop where
  | refused (kept : q.tracer = p.tracer) (idle : e = done)
  | begun (free : p.tracer = none) (attached : q.tracer ≠ none) (ends : e.Detaches)

theorem traces_debug (calls : call.Restores) (target : String) (source : PackSource)
    (flags : Flags) (p : Play) :
    Traces p (prepareDebug setup call act target source flags p).1
      (prepareDebug setup call act target source flags p).2 := by
  unfold prepareDebug
  split
  · exact .refused (tracer_refuse source _ _ p) rfl
  · split
    · exact .refused (tracer_refuse source _ _ p) rfl
    · next free =>
      split
      · exact .refused (tracer_refuse source _ _ p) rfl
      · split
        · refine .begun (Option.not_isSome_iff_eq_none.mp free) ?_
            (detaches_traced calls ?_ _ _ _ _ _)
          · rw [tracer_prepareTraced]
            exact Option.some_ne_none _
          · intro before exit after same
            cases same
            exact ⟨rfl, rfl⟩
        · exact .refused rfl rfl

theorem Traces.andThen {p q r : Play} {e f : Eval} (first : Traces p q e) (later : Traces q r f) :
    Traces p r (e.andThen f) := by
  cases first with
  | refused kept idle =>
    subst idle
    cases later with
    | refused keeps idle =>
      subst idle
      exact .refused (keeps.trans kept) rfl
    | begun free attached ends => exact .begun (kept.symm.trans free) attached ends
  | begun free attached ends =>
    cases later with
    | refused keeps idle =>
      subst idle
      refine .begun free (fun free => attached (keeps.symm.trans free)) ?_
      intro before exit after same
      unfold Eval.andThen at same
      cases result : e before with
      | none =>
        rw [result] at same
        cases same
      | some ended =>
        obtain ⟨leaves, middle⟩ := ended
        obtain ⟨rfl, detached⟩ := ends before leaves middle result
        rw [result] at same
        cases same
        exact ⟨rfl, detached⟩
    | begun unattached _ _ => exact absurd unattached attached

theorem traces_all (calls : call.Restores) (target : String) (flags : Flags)
    (sources : List PackSource) (p : Play) :
    Traces p (prepareAll setup call act (.debug target) flags sources p).1
      (each (prepareAll setup call act (.debug target) flags sources p).2) := by
  induction sources generalizing p with
  | nil => exact .refused rfl rfl
  | cons source rest ih => exact (traces_debug calls target source flags p).andThen (ih _)

theorem kept_all (calls : call.Restores) {action : CallAction}
    (other : ∀ target, action ≠ .debug target) (flags : Flags) (sources : List PackSource)
    (p : Play) :
    Kept p ((prepareAll setup call act action flags sources p).1,
      each (prepareAll setup call act action flags sources p).2) := by
  have one (source : PackSource) (p : Play) :
      Kept p (prepare setup call act action source flags p) := by
    cases action with
    | function target arguments => exact kept_calls calls target arguments source flags p
    | returnValue value => exact ⟨rfl, restores_leave⟩
    | returnFail => exact ⟨rfl, restores_leave⟩
    | debug target => exact absurd rfl (other target)
  induction sources generalizing p with
  | nil => exact ⟨rfl, restores_done⟩
  | cons source rest ih =>
    have first := one source p
    have later := ih (prepare setup call act action source flags p).1
    exact ⟨later.1.trans first.1, first.2.andThen later.2⟩

theorem restores_together (calls : call.Restores) (action : CallAction) (flags : Flags)
    (sources : List PackSource) : (evalTogether setup call act action flags sources).Restores := by
  intro p exit after same
  unfold evalTogether at same
  dsimp only at same
  by_cases debugs : ∃ target, action = .debug target
  · -- all sources are prepared before any call is done, so at most one of them gets to trace
    obtain ⟨target, rfl⟩ := debugs
    have traces : Traces p (prepareAll setup call act (.debug target) flags sources p).1 _ :=
      traces_all calls target flags sources p
    cases traces with
    | refused kept idle =>
      rw [idle] at same
      cases same
      exact kept
    | begun free attached ends => exact (ends _ exit after same).2.trans free.symm
  · have kept : Kept p ((prepareAll setup call act action flags sources p).1, _) :=
      kept_all calls (fun target is => debugs ⟨target, is⟩) flags sources p
    exact (kept.2 _ exit after same).trans kept.1

theorem restores_finish (calls : call.Restores) (input : String)
    (executable : Executable packWords) (flags : Flags) (sources : List PackSource) :
    (evalFinish setup call act input executable flags sources).Restores := by
  unfold evalFinish
  split
  · split
    · exact restores_return _
    · exact restores_done
  · cases executable with
    | leaf leaf =>
      refine restores_each fun e member => ?_
      obtain ⟨source, _, rfl⟩ := List.mem_map.mp member
      exact restores_leaf _ source
    | action action =>
      dsimp only
      unfold evalAction
      split
      · refine restores_each fun e member => ?_
        obtain ⟨source, _, rfl⟩ := List.mem_map.mp member
        exact restores_together calls _ flags [source]
      · exact restores_together calls _ flags sources

theorem restores_condition (calls : call.Restores) (polarity : Polarity)
    (bound : List (BoundFunction packWords)) (cell : CellId) (source : PackSource) :
    (evalCondition setup call act polarity bound cell source).Restores := by
  intro p exit after same
  unfold evalCondition at same
  dsimp only at same
  refine (Restores.confine (restores_each fun e member => ?_) _ exit after same).trans rfl
  cases List.mem_append.mp member with
  | inl member =>
    obtain ⟨function, _, rfl⟩ := List.mem_map.mp member
    exact calls.tracer _ function _ true _
  | inr member =>
    cases List.mem_singleton.mp member
    exact restores_return _

theorem restores_stages (calls : call.Restores) (issuer : PackSource) (input : String)
    (executable : Executable packWords) (modifiers : List (Modifier packWords)) (flags : Flags)
    (sources : List PackSource) :
    (evalStages setup call act issuer input executable modifiers flags sources).Restores := by
  induction modifiers generalizing flags sources with
  | nil => exact restores_finish calls input executable flags sources
  | cons modifier rest ih =>
    intro p exit after same
    unfold evalStages at same
    dsimp only at same
    have through {produced : List PackSource}
        (same : (if setup.forks < produced.length then
            some (.onward, p.report issuer (.forkLimitReached setup.forks)
              (flags.union modifier.flags).forked)
          else evalStages setup call act issuer input executable rest
            (flags.union modifier.flags) produced p) = some (exit, after)) :
        after.tracer = p.tracer := by
      split at same
      · cases same
        exact p.tracer_report _ _ _
      · exact ih _ produced p exit after same
    split at same
    · exact through same
    · exact through same
    · split at same
      · cases same
        exact p.tracer_report _ _ _
      · refine (Restores.andThen (restores_each fun e member => ?_) ?_ _ exit after same).trans rfl
        · obtain ⟨source, _, rfl⟩ := List.mem_map.mp member
          exact restores_condition calls _ _ _ source
        · intro q exit after same
          exact (ih _ _ _ exit after same).trans rfl

theorem restores_body (calls : call.Restores) (function : BoundFunction packWords)
    (callback : Callback packWords) (returnCall : Bool) (source : PackSource) :
    (evalBody setup call act function callback returnCall source).Restores := by
  have line (callee : Activation) (chain : Chain packWords) :
      (evalLine setup call callee source chain).Restores :=
    (restores_stages calls source _ _ _ _ _).behind fun p => p.tracer_trace _
  have body (callee : Activation) : (Eval.andThen
      (each (function.lines.map (evalLine setup call callee source)))
      (evalEnd setup callee)).Restores := by
    refine (restores_each fun e member => ?_).andThen restores_end
    obtain ⟨chain, _, rfl⟩ := List.mem_map.mp member
    exact line callee chain
  intro p exit after same
  have begun : (p.charge.trace (.call act.depth function.id function.lines.length)).tracer =
      p.tracer := Play.tracer_trace _ _
  unfold evalBody at same
  dsimp only at same
  split at same
  · exact (body _ _ exit after same).trans begun
  · exact ((body _).confine _ exit after same).trans begun

theorem restores_call (setup : Setup) (fuel : Nat) : (evalCall setup fuel).Restores where
  tracer act function callback returnCall source := by
  -- by induction on the nesting of calls
    induction fuel generalizing act function callback returnCall source with
    | zero =>
      intro p exit after same
      cases same
    | succ fuel ih =>
      exact restores_body ⟨ih, evalCall_onward⟩ function callback returnCall source
  onward := evalCall_onward

end

end PackEngine.Direct
