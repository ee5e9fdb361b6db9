import Mathlib.Data.List.Forall2
import PackEngine.Proofs.Episodes
import PackEngine.Proofs.TwinWorlds

/-! Twin machines: two machines that do the same work. The second may use other names, have less
room, have further work below, or be observed. Corresponding operations keep them twins, also after
the second has run out of room, when only what they have told the world still agrees. -/
namespace PackEngine

open Machine

variable {d : Difference} {pack : Pack}

structure Scene.Twins (d : Difference) (s t : Scene packWords) : Prop where
  heap : s.heap.Matches d.names d.first t.heap
  setting : s.setting.Twins d t.setting

theorem Receiver.hear_tells (receiver : Receiver packWords) (outcome : Outcome)
    (s : Scene packWords) :
    s.setting.journal.toList <+:
      (receiver.hear (packRules pack) outcome s).setting.journal.toList := by
  cases receiver with
  | collect cell polarity persona callback =>
    simp only [hear]
    split <;> exact List.prefix_refl _
  | announce persona function => exact (persona.telling_announceResult _ outcome).grows _
  | host listener => exact (listener.telling_hear outcome).grows _
  | _ => exact List.prefix_refl _

theorem Callback.deliver_tells (callback : Callback packWords) (outcome : Outcome)
    (s : Scene packWords) :
    s.setting.journal.toList <+:
      (callback.deliver (packRules pack) outcome s).setting.journal.toList := by
  induction callback generalizing s with
  | nil => exact List.prefix_refl _
  | cons receiver rest ih => exact (receiver.hear_tells outcome s).trans (ih _)

theorem Scene.Twins.tell {s t : Scene packWords} (h : s.Twins d t) {change : World → World}
    (telling : World.Telling change) :
    Scene.Twins d { s with setting := change s.setting }
      { t with setting := change t.setting } :=
  ⟨h.heap, telling.twins h.setting⟩

theorem Receiver.hear_twins (receiver : Receiver packWords) (outcome : Outcome)
    {s t : Scene packWords} (h : s.Twins d t) :
    (receiver.hear (packRules pack) outcome s).Twins d
      ((receiver.rename d.names).hear (packRules pack) outcome t) := by
  cases receiver with
  | slot id => exact ⟨h.heap.record id outcome, h.setting⟩
  | tally id => exact ⟨h.heap.addToTally id outcome, h.setting⟩
  | collect cell polarity persona callback =>
    simp only [hear, rename]
    split
    · exact ⟨h.heap.collect cell ⟨persona, callback⟩, h.setting⟩
    · exact h
  | announce persona function => exact h.tell (persona.telling_announceResult _ outcome)
  | host listener => exact h.tell (listener.telling_hear outcome)

namespace Callback

theorem deliver_twins (callback : Callback packWords) (outcome : Outcome)
    {s t : Scene packWords} (h : s.Twins d t) :
    (callback.deliver (packRules pack) outcome s).Twins d
      ((rename d.names callback).deliver (packRules pack) outcome t) := by
  induction callback generalizing s t with
  | nil => exact h
  | cons receiver rest ih => exact ih (receiver.hear_twins outcome h)

theorem deliverTally_twins (callback : Callback packWords) (tally : TallyId)
    {s t : Scene packWords} (h : s.Twins d t) :
    (callback.deliverTally (packRules pack) tally s).Twins d
      ((rename d.names callback).deliverTally (packRules pack) (d.names.tally tally) t) := by
  unfold deliverTally
  rw [h.heap.total?]
  cases s.heap.total? tally with
  | none => exact h
  | some outcome => exact callback.deliver_twins outcome h

end Callback

inductive Task.Twins (d : Difference) : Task packWords → Task packWords → Prop where
  | line (issuer : PackSource) (sources : Sources packWords) (chain : Chain packWords)
      (flags : Flags) (topLevel : Bool) :
      Twins d (.line issuer sources chain flags topLevel)
        (.line (issuer.rename d.names) (sources.rename d.names) chain flags topLevel)
  | execute (line : LeafLine packWords) (source : PackSource) :
      Twins d (.execute line source) (.execute line (source.rename d.names))
  | drip (line : LeafLine packWords) (sources : List PackSource) :
      Twins d (.drip line sources) (.drip line (sources.map (Source.rename d.names)))
  | call (function : BoundFunction packWords) (callback : Callback packWords) (returnCall : Bool)
      (source : PackSource) :
      Twins d (.call function callback returnCall source)
        (.call function (Callback.rename d.names callback) returnCall (source.rename d.names))
  | endFunction : Twins d .endFunction .endFunction
  | condition (bound : List (BoundFunction packWords)) (callee : PackSource)
      (output : Callback packWords) :
      Twins d (.isolated (conditionProducer bound callee) output)
        (.isolated (conditionProducer bound (callee.rename d.names))
          (Callback.rename d.names output))
  | fallthrough : Twins d .fallthrough .fallthrough
  | total (tally : TallyId) (sink : Callback packWords) :
      Twins d (.deferred (Control.deliverTally tally sink))
        (.deferred (Control.deliverTally (d.names.tally tally) (Callback.rename d.names sink)))
  | heading (index : Nat) (item : PrintItem) :
      Twins d (.deferred (tell (World.add (.traced (.opened index) item))))
        (.deferred (tell (World.add (.traced (.opened index) item))))
  | closing (alone : d.observed = false) (index : Nat) (source : PackSource) (text : String) :
      Twins d (.deferred (traceClosing index source text))
        (.deferred (traceClosing index (source.rename d.names) text))

/-- The end of a body reads its frame's slot, so that slot has to hold the same. -/
structure Entry.Twins (d : Difference) (first second : Entry packWords) : Prop where
  frame : second.frame = first.frame.rename d.names
  task : first.task.Twins d second.task
  known : first.task = .endFunction → d.first ≤ first.frame.slot

namespace Machine

structure Waits (d : Difference) (m n : Machine packWords) : Prop where
  fine : m.overflowed = false
  stack : ∃ upper, n.stack.entries = upper ++ d.lower ∧
    List.Forall₂ (Entry.Twins d) m.stack.entries upper
  pending : List.Forall₂ (Entry.Twins d) m.pending.entries n.pending.entries

structure Twins (d : Difference) (m n : Machine packWords) : Prop
    extends m.toScene.Twins d n.toScene where
  forks : n.limits.forks = m.limits.forks
  room : n.limits.queue ≤ m.limits.queue
  tracer : if d.observed then m.tracer = none ∧ n.tracer = some .given else n.tracer = m.tracer
  waits : n.overflowed = false → m.Waits d n
  /-- With the same room and the same work, both run out of room together. -/
  full : d.lower = [] → n.limits.queue = m.limits.queue → n.overflowed = true →
    m.overflowed = true

variable {m n : Machine packWords}

theorem Waits.queued (h : m.Waits d n) : n.queued = m.queued + d.lower.length := by
  obtain ⟨upper, stack, same⟩ := h.stack
  have above : n.stack.size = m.stack.size + d.lower.length := by
    rw [n.stack.size_eq, m.stack.size_eq, stack, List.length_append, same.length_eq]
  have staged : n.pending.size = m.pending.size := by
    rw [n.pending.size_eq, m.pending.size_eq, h.pending.length_eq]
  unfold Machine.queued
  omega

theorem Twins.onScene (h : m.Twins d n) {s t : Scene packWords} (same : s.Twins d t) :
    Machine.Twins d { m with toScene := s } { n with toScene := t } where
  toTwins := same
  forks := h.forks
  room := h.room
  tracer := h.tracer
  waits fine := ⟨(h.waits fine).fine, (h.waits fine).stack, (h.waits fine).pending⟩
  full := h.full

theorem Twins.onHeap (h : m.Twins d n) {first second : Heap packWords}
    (same : first.Matches d.names d.first second) :
    Machine.Twins d { m with heap := first } { n with heap := second } :=
  h.onScene (s := ⟨first, m.setting⟩) ⟨same, h.setting⟩

theorem Twins.tell (h : m.Twins d n) {change : World → World} (telling : World.Telling change) :
    Machine.Twins d { m with setting := change m.setting }
      { n with setting := change n.setting } :=
  h.onScene (h.toTwins.tell telling)

theorem trace_of_none (unseen : m.tracer = none) (event : TraceEvent) :
    m.trace (packRules pack) event = m := by
  unfold Machine.trace
  rw [unseen]

theorem trace_of_some {tracer : TracerId} (seen : m.tracer = some tracer) (event : TraceEvent) :
    m.trace (packRules pack) event =
      { m with setting := m.setting.add (.traced tracer (.event event)) } := by
  unfold Machine.trace
  rw [seen]
  rfl

theorem Twins.trace (h : m.Twins d n) (event : TraceEvent) :
    (m.trace (packRules pack) event).Twins d (n.trace (packRules pack) event) := by
  have tracers := h.tracer
  split at tracers
  · next observed =>
    rw [trace_of_none tracers.1, trace_of_some tracers.2]
    exact h.onScene (s := m.toScene) ⟨h.heap, h.setting.addGiven observed _⟩
  · next alone =>
    cases tracer : m.tracer with
    | none =>
      rw [trace_of_none tracer, trace_of_none (tracers.trans tracer)]
      exact h
    | some id =>
      rw [trace_of_some tracer, trace_of_some (tracers.trans tracer)]
      have shown := World.shows_of_alone (Bool.eq_false_iff.mpr alone) (.traced id (.event event))
      exact h.onScene ⟨h.heap, h.setting.add shown⟩

theorem Twins.report (h : m.Twins d n) (source : PackSource) (error : CommandError)
    (forked : Bool) :
    (m.report (packRules pack) source error forked).Twins d
      (n.report (packRules pack) (source.rename d.names) error forked) :=
  (h.trace (.error error.message)).tell (source.persona.telling_handleError error forked)

theorem Twins.deliver (h : m.Twins d n) (callback : Callback packWords) (outcome : Outcome) :
    (m.deliver (packRules pack) callback outcome).Twins d
      (n.deliver (packRules pack) (Callback.rename d.names callback) outcome) :=
  h.onScene (callback.deliver_twins outcome h.toTwins)

theorem Twins.enqueue (h : m.Twins d n) {first second : Entry packWords}
    (same : first.Twins d second) : (m.enqueue first).Twins d (n.enqueue second) := by
  have waiting : ((n.enqueue second).overflowed = false →
        (m.enqueue first).Waits d (n.enqueue second)) ∧
      (d.lower = [] → n.limits.queue = m.limits.queue → (n.enqueue second).overflowed = true →
        (m.enqueue first).overflowed = true) := by
    cases overflowed : n.overflowed with
    | true =>
      -- from here on only what the second has told the world matters
      have kept : n.enqueue second = n := if_pos overflowed
      rw [kept]
      refine ⟨fun fine => Bool.noConfusion (fine.symm.trans overflowed),
        fun drained equal _ => ?_⟩
      have full := h.full drained equal overflowed
      unfold Machine.enqueue
      rw [if_pos full]
      exact full
    | false =>
      have waits := h.waits overflowed
      have queued := waits.queued
      have room := h.room
      have fine : ¬m.overflowed = true := Bool.eq_false_iff.mp waits.fine
      unfold Machine.enqueue
      rw [if_neg fine, if_neg (Bool.eq_false_iff.mp overflowed)]
      by_cases crowded : n.limits.queue ≤ n.queued
      · rw [if_pos crowded]
        refine ⟨fun fine => Bool.noConfusion fine, fun drained equal _ => ?_⟩
        rw [drained, List.length_nil] at queued
        rw [if_pos (by omega)]
      · rw [if_neg crowded, if_neg (by omega)]
        refine ⟨fun _ => ⟨waits.fine, waits.stack, .cons same waits.pending⟩, fun _ _ full => ?_⟩
        exact Bool.noConfusion (overflowed.symm.trans full)
  refine ⟨?_, ?_, ?_, ?_, waiting.1, ?_⟩
  · rw [enqueue_toScene, enqueue_toScene]
    exact h.toTwins
  · rw [enqueue_limits, enqueue_limits]
    exact h.forks
  · rw [enqueue_limits, enqueue_limits]
    exact h.room
  · rw [enqueue_tracer, enqueue_tracer]
    exact h.tracer
  · rw [enqueue_limits, enqueue_limits]
    exact waiting.2

theorem forall₂_dropWhile {α β : Type} {R : α → β → Prop} {p : α → Bool} {q : β → Bool}
    (agree : ∀ a b, R a b → q b = p a) {xs : List α} {ys : List β}
    (related : List.Forall₂ R xs ys) : List.Forall₂ R (xs.dropWhile p) (ys.dropWhile q) := by
  induction related with
  | nil => exact .nil
  | @cons a b rest others same related ih =>
    rw [List.dropWhile_cons, List.dropWhile_cons, agree a b same]
    split
    · exact ih
    · exact .cons same related

theorem Twins.discard (h : m.Twins d n) (boundary : Boundary) :
    (m.discard boundary).Twins d (n.discard (boundary.rename d.names)) := by
  -- the further work belongs to other seeds, which no boundary of the run covers
  have covers (first second : Entry packWords) (same : first.Twins d second) :
      (boundary.rename d.names).covers second.frame = boundary.covers first.frame := by
    rw [same.frame, Frame.covers_rename]
  have uncovered : ∀ entry ∈ d.lower, (boundary.rename d.names).covers entry.frame = false := by
    intro entry member
    exact Bool.and_eq_false_imp.mpr fun same =>
      absurd (beq_iff_eq.mp same) (d.apart entry member boundary.seed)
  refine ⟨h.toTwins, h.forks, h.room, h.tracer, fun fine => ?_, h.full⟩
  have waits := h.waits fine
  obtain ⟨upper, stack, same⟩ := waits.stack
  refine ⟨waits.fine, ⟨_, ?_, forall₂_dropWhile covers same⟩, ?_⟩
  · show n.stack.entries.dropWhile _ = _
    rw [stack, List.dropWhile_append]
    split
    · next gone => rw [dropWhile_uncovered uncovered, List.isEmpty_iff.mp gone, List.nil_append]
    · rfl
  · refine List.rel_filter (fun first second same => ?_) waits.pending
    show _ ↔ (!(boundary.rename d.names).covers second.frame) = true
    rw [covers first second same]

theorem Twins.returnFrom (h : m.Twins d n) (frame : Frame packWords) (outcome : Outcome) :
    (m.returnFrom (packRules pack) frame outcome).Twins d
      (n.returnFrom (packRules pack) (frame.rename d.names) outcome) :=
  (h.deliver frame.sink outcome).discard frame.boundary

end Machine

inductive Operation.Twins (d : Difference) : Operation packWords → Operation packWords → Prop where
  | queue {first second : Entry packWords} (same : first.Twins d second) :
      Twins d (.queue first) (.queue second)
  | returnFrom (frame : Frame packWords) (outcome : Outcome) :
      Twins d (.returnFrom frame outcome) (.returnFrom (frame.rename d.names) outcome)
  | record (frame : Frame packWords) (outcome : Outcome) :
      Twins d (.record frame outcome) (.record (frame.rename d.names) outcome)
  | deliver (callback : Callback packWords) (outcome : Outcome) :
      Twins d (.deliver callback outcome) (.deliver (Callback.rename d.names callback) outcome)
  | deliverTally (tally : TallyId) (callback : Callback packWords) :
      Twins d (.deliverTally tally callback)
        (.deliverTally (d.names.tally tally) (Callback.rename d.names callback))
  | report (source : PackSource) (error : CommandError) (forked : Bool) :
      Twins d (.report source error forked) (.report (source.rename d.names) error forked)
  | attach (alone : d.observed = false) (tracer : TracerId) :
      Twins d (.attach tracer) (.attach tracer)
  | detach (alone : d.observed = false) : Twins d .detach .detach
  | newSlot : Twins d .newSlot .newSlot
  | newTally : Twins d .newTally .newTally
  | newCell : Twins d .newCell .newCell
  | emptyCell (cell : CellId) : Twins d (.emptyCell cell) (.emptyCell (d.names.cell cell))
  | charge : Twins d .charge .charge
  | trace (event : TraceEvent) : Twins d (.trace event) (.trace event)
  | update {change : World → World} (telling : World.Telling change) :
      Twins d (.update change) (.update change)

namespace Operation

variable {m n : Machine packWords}

theorem Twins.apply {first second : Operation packWords} (same : first.Twins d second)
    (h : m.Twins d n) :
    (first.apply (packRules pack) m).Twins d (second.apply (packRules pack) n) := by
  cases same with
  | queue same => exact h.enqueue same
  | returnFrom frame outcome => exact h.returnFrom frame outcome
  | record frame outcome => exact h.onHeap (h.heap.record frame.slot outcome)
  | deliver callback outcome => exact h.deliver callback outcome
  | deliverTally tally callback => exact h.onScene (callback.deliverTally_twins tally h.toTwins)
  | report source error forked => exact h.report source error forked
  | attach alone tracer =>
    have tracers := h.tracer
    rw [if_neg (Bool.eq_false_iff.mp alone)] at tracers
    simp only [Operation.apply, tracers]
    split
    · exact h
    · refine { h with tracer := ?_, waits := fun fine => ?_ }
      · exact if_neg (Bool.eq_false_iff.mp alone) ▸ rfl
      · exact ⟨(h.waits fine).fine, (h.waits fine).stack, (h.waits fine).pending⟩
  | detach alone =>
    refine { h with tracer := ?_, waits := fun fine => ?_ }
    · exact if_neg (Bool.eq_false_iff.mp alone) ▸ rfl
    · exact ⟨(h.waits fine).fine, (h.waits fine).stack, (h.waits fine).pending⟩
  | newSlot => exact h.onHeap h.heap.newSlot
  | newTally => exact h.onHeap h.heap.newTally
  | newCell => exact h.onHeap h.heap.newCell
  | emptyCell cell => exact h.onHeap (h.heap.emptyCell cell)
  | charge =>
    refine { h with waits := fun fine => ?_ }
    exact ⟨(h.waits fine).fine, (h.waits fine).stack, (h.waits fine).pending⟩
  | trace event => exact h.trace event
  | update telling => exact h.tell telling

theorem Twins.applyAll (pack : Pack) {first second : List (Operation packWords)}
    (same : List.Forall₂ (Operation.Twins d) first second) (h : m.Twins d n) :
    (Operation.applyAll (packRules pack) first m).Twins d
      (Operation.applyAll (packRules pack) second n) := by
  induction same generalizing m n with
  | nil => exact h
  | cons same others ih => exact ih (same.apply h)

theorem Twins.grows {first second : Operation packWords} (same : first.Twins d second)
    (m : Machine packWords) :
    m.setting.journal.toList <+: (first.apply (packRules pack) m).setting.journal.toList := by
  have traces (event : TraceEvent) (m : Machine packWords) :
      m.setting.journal.toList <+: (m.trace (packRules pack) event).setting.journal.toList := by
    unfold Machine.trace
    split
    · exact List.prefix_refl _
    · show _ <+: (World.add _ m.setting).journal.toList
      rw [World.journal_add, Array.toList_push]
      exact List.prefix_append _ _
  cases same with
  | queue same =>
    simp only [Operation.apply, enqueue_toScene]
    exact List.prefix_refl _
  | returnFrom frame outcome => exact frame.sink.deliver_tells outcome m.toScene
  | deliver callback outcome => exact callback.deliver_tells outcome m.toScene
  | deliverTally tally callback =>
    simp only [Operation.apply, Callback.deliverTally]
    split
    · exact callback.deliver_tells _ m.toScene
    · exact List.prefix_refl _
  | report source error forked =>
    exact (traces _ m).trans ((source.persona.telling_handleError error forked).grows _)
  | attach alone tracer =>
    simp only [Operation.apply]
    split <;> exact List.prefix_refl _
  | trace event => exact traces event m
  | update telling => exact telling.grows _
  | _ => exact List.prefix_refl _

theorem Twins.applyAll_grows {first second : List (Operation packWords)}
    (same : List.Forall₂ (Operation.Twins d) first second) (m : Machine packWords) :
    m.setting.journal.toList <+:
      (Operation.applyAll (packRules pack) first m).setting.journal.toList := by
  induction same generalizing m with
  | nil => exact List.prefix_refl _
  | cons same others ih => exact (same.grows m).trans (ih _)

end Operation

end PackEngine
