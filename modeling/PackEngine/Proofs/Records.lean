import PackEngine.Proofs.Endings
import PackEngine.Proofs.Ledger

/-! Records of runs. In the journal stand, among all else that happens, the events that tracers are
told, the flushes of traces, and the reported errors. Each operation adds records that follow from
the operation and from the tracer attached. -/
namespace PackEngine

/-- A tracer is told an event or to flush, or an error is reported. -/
def Effect.isRecord : Effect → Bool
  | .traced _ (.event _) => true
  | .traced _ .flush => true
  | .reported .. => true
  | _ => false

structure World.Adds (records : List Effect) (before after : World) : Prop where
  journal : ∃ effects, after.journal.toList = before.journal.toList ++ effects ∧
    effects.filter Effect.isRecord = records
  traces : before.traces ≤ after.traces

namespace World.Adds

theorem refl (w : World) : w.Adds [] w := ⟨⟨[], (List.append_nil _).symm, rfl⟩, Nat.le_refl _⟩

theorem trans {records others : List Effect} {first second third : World}
    (before : first.Adds records second) (after : second.Adds others third) :
    first.Adds (records ++ others) third := by
  obtain ⟨early, grown, rfl⟩ := before.journal
  obtain ⟨late, further, rfl⟩ := after.journal
  refine ⟨⟨early ++ late, ?_, List.filter_append ..⟩, Nat.le_trans before.traces after.traces⟩
  rw [further, grown, List.append_assoc]

theorem filter_effectsSince {records : List Effect} {before after : World}
    (h : before.Adds records after) :
    (after.effectsSince before.journal.size).filter Effect.isRecord = records := by
  obtain ⟨effects, grown, rfl⟩ := h.journal
  unfold World.effectsSince
  rw [grown]
  congr 1
  exact List.drop_left

theorem effectsSince_append {records others : List Effect} {first second third : World}
    (before : first.Adds records second) (after : second.Adds others third) :
    third.effectsSince first.journal.size =
      second.effectsSince first.journal.size ++ third.effectsSince second.journal.size := by
  obtain ⟨early, grown, _⟩ := before.journal
  obtain ⟨late, further, _⟩ := after.journal
  exact World.effectsSince_append ⟨early, grown.symm⟩ ⟨late, further.symm⟩

end World.Adds

theorem World.adds_one (w : World) (effect : Effect) :
    w.Adds ([effect].filter Effect.isRecord) (w.add effect) := by
  refine ⟨⟨[effect], ?_, rfl⟩, ?_⟩
  · rw [World.journal_add]
    exact Array.toList_push
  · cases effect with
    | traceOpened index => exact Nat.le_succ _
    | _ => exact Nat.le_refl _

theorem World.adds_nothing (w : World) (effect : Effect) (other : effect.isRecord = false) :
    w.Adds [] (w.add effect) := by
  have added := w.adds_one effect
  rwa [List.filter_cons_of_neg (by simp [other])] at added

theorem World.adds_record (w : World) (effect : Effect) (record : effect.isRecord = true) :
    w.Adds [effect] (w.add effect) := by
  have added := w.adds_one effect
  rwa [List.filter_cons_of_pos record] at added

namespace Persona

theorem adds_emit (p : Persona) (text : String) (w : World) : w.Adds [] (p.emit text w) := by
  unfold emit
  split <;> exact w.adds_nothing _ rfl

theorem adds_sendSuccess (p : Persona) (text : String) (w : World) :
    w.Adds [] (p.sendSuccess text w) := by
  unfold sendSuccess
  split
  · exact .refl w
  · exact p.adds_emit text w

theorem adds_sendFailure (p : Persona) (text : String) (w : World) :
    w.Adds [] (p.sendFailure text w) := by
  unfold sendFailure
  split
  · exact .refl w
  · exact p.adds_emit _ w

theorem adds_handleError (p : Persona) (error : CommandError) (forked : Bool) (w : World) :
    w.Adds [.reported p.displayName error.message forked] (p.handleError error forked w) := by
  have told : w.Adds [] (if forked then w else p.sendFailure error.message w) := by
    split
    · exact .refl w
    · exact p.adds_sendFailure _ w
  exact told.trans (World.adds_record _ _ rfl)

theorem adds_announceResult (p : Persona) (function : String) (outcome : Outcome) (w : World) :
    w.Adds [] (p.announceResult function outcome w) := by
  unfold announceResult
  split
  · exact p.adds_sendSuccess _ w
  · exact .refl w

end Persona

theorem Feedback.adds {change : World → World} (h : Feedback change) (w : World) :
    w.Adds [] (change w) := by
  cases h with
  | success persona text => exact persona.adds_sendSuccess text w
  | failure persona text => exact persona.adds_sendFailure text w
  | opened index => exact w.adds_nothing _ rfl

theorem LeafAction.adds_perform (source : PackSource) (w : World) (leaf : LeafAction) :
    w.Adds [] (leaf.perform source w).2 := by
  cases leaf with
  | say message => exact w.adds_nothing (.printed _ message) rfl
  | value n => exact .refl w
  | fail message => exact .refl w
  | add holder objective amount =>
    have scored : w.Adds [] (w.addScore (source.persona.holder holder) objective amount).2 :=
      w.adds_nothing (.scored _ objective _) rfl
    exact scored.trans (Persona.adds_sendSuccess _ _ _)
  | get holder objective =>
    simp only [perform]
    split
    · exact Persona.adds_sendSuccess _ _ _
    · exact .refl w

theorem Listener.adds_hear (listener : Listener) (outcome : Outcome) (w : World) :
    w.Adds [] (listener.hear outcome w) := by
  cases listener with
  | named name => exact w.adds_nothing (.heard name outcome) rfl
  | score stored holder objective =>
    cases stored <;> exact w.adds_nothing (.scored holder objective _) rfl
  | finished function => exact w.adds_nothing (.finished function outcome) rfl

section

variable {pack : Pack}

theorem Receiver.adds_hear (outcome : Outcome) (scene : Scene packWords)
    (receiver : Receiver packWords) :
    scene.setting.Adds [] (receiver.hear (packRules pack) outcome scene).setting := by
  cases receiver with
  | announce persona function => exact persona.adds_announceResult _ outcome _
  | host listener => exact Listener.adds_hear listener outcome _
  | collect cell polarity persona callback =>
    simp only [hear]
    split <;> exact .refl _
  | slot id => exact .refl _
  | tally id => exact .refl _

theorem Callback.adds_deliver (callback : Callback packWords) (outcome : Outcome)
    (scene : Scene packWords) :
    scene.setting.Adds [] (callback.deliver (packRules pack) outcome scene).setting := by
  induction callback generalizing scene with
  | nil => exact .refl _
  | cons receiver rest ih => exact (receiver.adds_hear outcome scene).trans (ih _)

theorem Callback.adds_deliverTally (tally : TallyId) (callback : Callback packWords)
    (scene : Scene packWords) :
    scene.setting.Adds [] (callback.deliverTally (packRules pack) tally scene).setting := by
  unfold deliverTally
  split
  · exact callback.adds_deliver _ scene
  · exact .refl _

end

def recorded (tracer : Option TracerId) (event : TraceEvent) : List Effect :=
  tracer.toList.map fun id => .traced id (.event event)

def Operation.records (tracer : Option TracerId) : Operation packWords → List Effect
  | .trace event => recorded tracer event
  | .report source error forked =>
      recorded tracer (.error error.message) ++
        [.reported source.persona.displayName error.message forked]
  | _ => []

def Task.Steady : Task packWords → Prop
  | .deferred (.detach _) => False
  | .deferred (.update change _) => ∀ w : World, w.Adds [] (change w)
  | _ => True

/-- The operation leaves the tracer attached that it finds, and queues steady tasks only. What it
tells the world of its own accord is no record. -/
def Operation.Steady : Operation packWords → Prop
  | .attach _ => False
  | .detach => False
  | .queue entry => entry.task.Steady
  | .update change => ∀ w : World, w.Adds [] (change w)
  | _ => True

theorem Operation.Steady.keeps {operation : Operation packWords} (h : operation.Steady) :
    operation ≠ .detach ∧ ∀ tracer, operation ≠ .attach tracer := by
  constructor
  · rintro rfl
    exact h
  · rintro tracer rfl
    exact h

theorem Machine.adds_trace (pack : Pack) (event : TraceEvent) (m : Machine packWords) :
    (m.trace (packRules pack) event).tracer = m.tracer ∧
      m.setting.Adds (recorded m.tracer event) (m.trace (packRules pack) event).setting := by
  unfold trace
  split
  · next free =>
    rw [free]
    exact ⟨rfl, .refl _⟩
  · next tracer traced =>
    rw [traced]
    exact ⟨rfl, World.adds_record _ _ rfl⟩

namespace Operation

theorem Steady.apply {operation : Operation packWords} (h : operation.Steady) (pack : Pack)
    (m : Machine packWords) :
    (operation.apply (packRules pack) m).tracer = m.tracer ∧
      m.setting.Adds (operation.records m.tracer)
        (operation.apply (packRules pack) m).setting := by
  cases operation with
  | attach tracer => exact h.elim
  | detach => exact h.elim
  | queue entry =>
    refine ⟨m.enqueue_tracer entry, ?_⟩
    show m.setting.Adds [] (m.enqueue entry).toScene.setting
    rw [m.enqueue_toScene entry]
    exact .refl _
  | update change => exact ⟨rfl, h m.setting⟩
  | trace event => exact m.adds_trace pack event
  | report source error forked =>
    obtain ⟨same, told⟩ := m.adds_trace pack (.error error.message)
    exact ⟨same, told.trans (Persona.adds_handleError _ error forked _)⟩
  | returnFrom frame outcome => exact ⟨rfl, frame.sink.adds_deliver outcome m.toScene⟩
  | deliver callback outcome => exact ⟨rfl, callback.adds_deliver outcome m.toScene⟩
  | deliverTally tally callback => exact ⟨rfl, callback.adds_deliverTally tally m.toScene⟩
  | _ => exact ⟨rfl, .refl _⟩

theorem steady_applyAll (pack : Pack) {operations : List (Operation packWords)}
    (steady : ∀ operation ∈ operations, operation.Steady) (m : Machine packWords) :
    (applyAll (packRules pack) operations m).tracer = m.tracer ∧
      m.setting.Adds (operations.flatMap (records m.tracer))
        (applyAll (packRules pack) operations m).setting := by
  induction operations generalizing m with
  | nil => exact ⟨rfl, .refl _⟩
  | cons operation rest ih =>
    obtain ⟨same, told⟩ := (steady operation List.mem_cons_self).apply pack m
    obtain ⟨kept, further⟩ :=
      ih (fun other member => steady other (List.mem_cons_of_mem _ member))
        (operation.apply (packRules pack) m)
    rw [same] at kept further
    exact ⟨kept, told.trans further⟩

end Operation

end PackEngine
