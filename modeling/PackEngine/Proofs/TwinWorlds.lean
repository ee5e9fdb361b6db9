import PackEngine.Proofs.Renamings
import PackEngine.Proofs.PackTasks

/-! Worlds of two runs of the same work. They differ at most in what the tracer that a run was
started with has been told. Whatever a pack tells the world keeps that so: it reads the world's
scores and settings and adds to the journal, but never reads the journal. -/
namespace PackEngine

/-- What two runs of the same work may differ in. The second may use other names, may have further
work below, and may have a tracer where the first has none. -/
structure Difference where
  names : Renaming := .same
  /-- From this slot on, slots hold the same. -/
  first : SlotId := 0
  lower : List (Entry packWords) := []
  /-- The second run was started with a tracer, and the first has none. -/
  observed : Bool := false
  /-- The journal that both runs found. -/
  before : List Effect := []
  /-- The further work belongs to other seeds. -/
  apart : ∀ entry ∈ lower, ∀ seed, entry.frame.boundary.seed ≠ names.seed seed := by
    exact fun _ member => absurd member List.not_mem_nil

/-- The tracer that a run was started with has been told something. -/
def Effect.isGiven : Effect → Bool
  | .traced .given _ => true
  | _ => false

def Difference.shows (d : Difference) (effect : Effect) : Bool := !(d.observed && effect.isGiven)

namespace World

structure Twins (d : Difference) (w v : World) : Prop where
  scores : v.scores = w.scores
  traces : v.traces = w.traces
  tracesWritable : v.tracesWritable = w.tracesWritable
  stamp : v.stamp = w.stamp
  journal : ∃ since, v.journal.toList = d.before ++ since ∧
    w.journal.toList = d.before ++ since.filter d.shows

variable {d : Difference} {w v : World}

theorem shows_of_alone (alone : d.observed = false) (effect : Effect) : d.shows effect = true := by
  simp [Difference.shows, alone]

theorem shows_of_other (d : Difference) {effect : Effect} (other : effect.isGiven = false) :
    d.shows effect = true := by
  simp [Difference.shows, other]

theorem Twins.refl (found : d.before = w.journal.toList) : w.Twins d w := by
  refine ⟨rfl, rfl, rfl, rfl, [], ?_, ?_⟩
  · rw [found, List.append_nil]
  · rw [found, List.filter_nil, List.append_nil]

theorem Twins.eq (h : w.Twins d v) (alone : d.observed = false) : v = w := by
  obtain ⟨scores, traces, writable, stamp, since, second, first⟩ := h
  have all : since.filter d.shows = since :=
    List.filter_eq_self.mpr fun effect _ => shows_of_alone alone effect
  have journal : v.journal = w.journal := by
    apply Array.ext'
    rw [second, first, all]
  cases w
  cases v
  cases scores
  cases traces
  cases writable
  cases stamp
  cases journal
  rfl

theorem Twins.add (h : w.Twins d v) {effect : Effect} (shown : d.shows effect = true) :
    (w.add effect).Twins d (v.add effect) := by
  obtain ⟨scores, traces, writable, stamp, since, second, first⟩ := h
  have journal : ∃ since, (v.add effect).journal.toList = d.before ++ since ∧
      (w.add effect).journal.toList = d.before ++ since.filter d.shows := by
    refine ⟨since ++ [effect], ?_, ?_⟩
    · rw [journal_add, Array.toList_push, second, List.append_assoc]
    · rw [journal_add, Array.toList_push, first, List.filter_append, List.append_assoc,
        List.filter_cons_of_pos shown]
      rfl
  cases effect with
  | scored holder objective value =>
    exact ⟨congrArg (·.set holder objective value) scores, traces, writable, stamp, journal⟩
  | traceOpened index => exact ⟨scores, congrArg (· + 1) traces, writable, stamp, journal⟩
  | _ => exact ⟨scores, traces, writable, stamp, journal⟩

theorem Twins.addGiven (h : w.Twins d v) (observed : d.observed = true) (item : PrintItem) :
    w.Twins d (v.add (.traced .given item)) := by
  obtain ⟨scores, traces, writable, stamp, since, second, first⟩ := h
  have hidden : ¬d.shows (.traced .given item) = true := by
    simp [Difference.shows, observed, Effect.isGiven]
  refine ⟨scores, traces, writable, stamp, since ++ [.traced .given item], ?_, ?_⟩
  · rw [journal_add, Array.toList_push, second, List.append_assoc]
  · rw [first, List.filter_append, List.filter_cons_of_neg hidden, List.filter_nil,
      List.append_nil]

theorem Twins.score (h : w.Twins d v) (holder objective : String) :
    v.score holder objective = w.score holder objective := by
  unfold World.score
  rw [h.scores]

structure Telling (change : World → World) : Prop where
  twins {d : Difference} {w v : World} : w.Twins d v → (change w).Twins d (change v)
  grows (w : World) : w.journal.toList <+: (change w).journal.toList

theorem Telling.silent : Telling fun w => w := ⟨fun h => h, fun _ => List.prefix_refl _⟩

theorem Telling.add (effect : Effect) (other : effect.isGiven = false) :
    Telling (World.add effect) where
  twins {d _ _} h := h.add (shows_of_other d other)
  grows w := by
    rw [journal_add, Array.toList_push]
    exact List.prefix_append _ _

theorem Telling.then {first second : World → World} (before : Telling first)
    (later : Telling second) : Telling fun w => second (first w) where
  twins h := later.twins (before.twins h)
  grows w := (before.grows w).trans (later.grows _)

end World

open World

namespace Persona

variable (p : Persona)

theorem telling_emit (text : String) : Telling (p.emit text) := by
  obtain ⟨name, entity, position, dimension, permission, silent, output⟩ := p
  cases output with
  | console => exact .add (.printed _ text) rfl
  | sink name => exact .add (.sent name text) rfl
  | trace index => exact .add (.traced (.opened index) (.message text)) rfl

theorem telling_sendSuccess (text : String) : Telling (p.sendSuccess text) := by
  unfold sendSuccess
  split
  · exact .silent
  · exact p.telling_emit text

theorem telling_sendFailure (text : String) : Telling (p.sendFailure text) := by
  unfold sendFailure
  split
  · exact .silent
  · exact p.telling_emit _

theorem telling_handleError (error : CommandError) (forked : Bool) :
    Telling (p.handleError error forked) := by
  have reported : Telling (World.add (.reported p.displayName error.message forked)) :=
    .add _ rfl
  cases forked with
  | true => exact reported
  | false => exact (p.telling_sendFailure error.message).then reported

theorem telling_announceResult (function : String) (outcome : Outcome) :
    Telling (p.announceResult function outcome) := by
  unfold announceResult
  split
  · exact p.telling_sendSuccess _
  · exact .silent

end Persona

theorem Feedback.telling {change : World → World} (h : Feedback change) : Telling change := by
  cases h with
  | success persona text => exact persona.telling_sendSuccess text
  | failure persona text => exact persona.telling_sendFailure text
  | opened index => exact .add _ rfl

theorem Listener.telling_hear (listener : Listener) (outcome : Outcome) :
    Telling fun w => listener.hear outcome w := by
  cases listener with
  | named name => exact .add (.heard name outcome) rfl
  | score stored holder objective =>
    cases stored with
    | result => exact .add (.scored holder objective outcome.value) rfl
    | success => exact .add (.scored holder objective (if outcome.success then 1 else 0)) rfl
  | finished function => exact .add (.finished function outcome) rfl

namespace LeafAction

variable (source : PackSource) (leaf : LeafAction)

theorem perform_twins {d : Difference} {w v : World} (h : w.Twins d v) :
    (leaf.perform source v).1 = (leaf.perform source w).1 := by
  cases leaf with
  | say message => rfl
  | value n => rfl
  | fail message => rfl
  | add holder objective amount =>
    simp only [perform, World.addScore]
    rw [h.score]
  | get holder objective =>
    simp only [perform]
    rw [h.score]
    split <;> rfl

theorem telling_perform : Telling fun w => (leaf.perform source w).2 := by
  cases leaf with
  | say message => exact .add (.printed source.persona.displayName message) rfl
  | value n => exact .silent
  | fail message => exact .silent
  | add holder objective amount =>
    constructor
    · intro d w v h
      simp only [perform, World.addScore]
      rw [h.score]
      exact (source.persona.telling_sendSuccess _).twins (h.add (World.shows_of_other d rfl))
    · intro w
      exact ((Telling.add (.scored _ _ _) rfl).grows w).trans
        ((source.persona.telling_sendSuccess _).grows _)
  | get holder objective =>
    constructor
    · intro d w v h
      simp only [perform]
      rw [h.score]
      split
      · exact (source.persona.telling_sendSuccess _).twins h
      · exact h
    · intro w
      simp only [perform]
      split
      · exact (source.persona.telling_sendSuccess _).grows w
      · exact List.prefix_refl _

theorem perform_rename (names : Renaming) (w : World) :
    leaf.perform (source.rename names) w = leaf.perform source w := by
  cases leaf <;> rfl

end LeafAction

end PackEngine
