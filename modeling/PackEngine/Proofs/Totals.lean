import Mathlib.Algebra.BigOperators.Group.List.Basic
import Mathlib.Algebra.Ring.Int.Defs
import PackEngine.Proofs.Composites

/-! Totals of tallies. Whatever is reported to a tally, and in whatever order, its total is a
success if any report is one, and the sum of all values, which wraps around at 32 bits. -/
namespace PackEngine

variable {V : Vocabulary}

structure Combines (reports : List Outcome) (total : Option Outcome) : Prop where
  nothing : total = none ↔ reports = []
  success : ∀ outcome, total = some outcome →
    (outcome.success = true ↔ ∃ report ∈ reports, report.success = true)
  sum : ∀ outcome, total = some outcome →
    outcome.value.toInt =
      (reports.map fun (report : Outcome) => report.value.toInt).sum.bmod (2 ^ 32)

namespace Combines

variable {reports others : List Outcome} {total other : Option Outcome}

theorem perm (h : Combines reports total) (same : reports.Perm others) :
    Combines others total where
  nothing := by
    rw [h.nothing, ← List.length_eq_zero_iff, same.length_eq, List.length_eq_zero_iff]
  success outcome some := by
    rw [h.success outcome some]
    exact ⟨fun ⟨report, member, fine⟩ => ⟨report, same.mem_iff.mp member, fine⟩,
      fun ⟨report, member, fine⟩ => ⟨report, same.mem_iff.mpr member, fine⟩⟩
  sum outcome some := by rw [h.sum outcome some, (same.map _).sum_eq]

theorem unique (h : Combines reports total) (g : Combines reports other) : total = other := by
  cases first : total with
  | none => exact (g.nothing.mpr (h.nothing.mp first)).symm
  | some outcome =>
    cases second : other with
    | none =>
      have silent := h.nothing.mpr (g.nothing.mp second)
      rw [first] at silent
      cases silent
    | some outcome' =>
      have success : outcome.success = outcome'.success := by
        rw [Bool.eq_iff_iff, h.success outcome first, g.success outcome' second]
      have value : outcome.value = outcome'.value := by
        rw [← Int32.toInt_inj, h.sum outcome first, g.sum outcome' second]
      cases outcome
      cases outcome'
      cases success
      cases value
      rfl

end Combines

/-- It comes to the same whether a sum wraps around at each step or at the end. -/
theorem toInt_foldl_add (outcomes : List Outcome) (start : Int32) :
    (outcomes.foldl (fun sum outcome => sum + outcome.value) start).toInt =
      (start.toInt + (outcomes.map fun outcome => outcome.value.toInt).sum).bmod (2 ^ 32) := by
  induction outcomes generalizing start with
  | nil => simp
  | cons outcome rest ih =>
    rw [List.foldl_cons, ih, Int32.toInt_add, Int.bmod_add_bmod, List.map_cons, List.sum_cons,
      Int.add_assoc]

theorem combines_totalOf (reports : List Outcome) : Combines reports (totalOf reports) := by
  unfold totalOf
  split
  · next silent => exact ⟨by simpa using silent, by simp, by simp⟩
  · next reported =>
    refine ⟨by simpa using reported, fun outcome same => ?_, fun outcome same => ?_⟩
    · cases same
      exact List.any_eq_true
    · cases same
      rw [toInt_foldl_add]
      simp

theorem tallied_deliveries (rules : Rules V) (id : TallyId) (told : List (Callback V × Outcome))
    (m : Machine V) :
    Heap.tallied id (Operation.allHeard rules
        (told.map fun (callback, outcome) => .deliver callback outcome) m) =
      told.flatMap fun (callback, outcome) =>
        List.replicate (callback.countP (Receiver.feeds id)) outcome := by
  induction told generalizing m with
  | nil => rfl
  | cons first rest ih =>
    obtain ⟨callback, outcome⟩ := first
    have own : Heap.tallied id ((Operation.deliver callback outcome).heard m) =
        List.replicate (callback.countP (Receiver.feeds id)) outcome :=
      tallied_hearing_eq id callback outcome
    rw [List.map_cons, Operation.allHeard, Heap.tallied_append, own, ih, List.flatMap_cons]

theorem Callback.deliverTally_of_none (rules : Rules V) {id : TallyId} (target : Callback V)
    {scene : Scene V} (silent : scene.heap.total? id = none) :
    target.deliverTally rules id scene = scene := by
  unfold deliverTally
  rw [silent]

theorem Callback.deliverTally_of_some (rules : Rules V) {id : TallyId} (target : Callback V)
    {scene : Scene V} {total : Outcome} (reported : scene.heap.total? id = some total) :
    target.deliverTally rules id scene = target.deliver rules total scene := by
  unfold deliverTally
  rw [reported]

/-- A tally is opened, and then things happen to the machine. All copies of the tally's name stand
for the one tally. -/
structure TallyRun (V : Vocabulary) where
  rules : Rules V
  before : Machine V
  operations : List (Operation V)

namespace TallyRun

variable (run : TallyRun V)

def tally : TallyId := run.before.heap.newTally.1

def opened : Machine V := Operation.newTally.apply run.rules run.before

def after : Machine V := Operation.applyAll run.rules run.operations run.opened

def reports : List Outcome :=
  Heap.tallied run.tally (Operation.allHeard run.rules run.operations run.opened)

def total? : Option Outcome := run.after.heap.total? run.tally

theorem tallies_after :
    run.after.heap.tallies[run.tally]? = some (run.reports.foldl Tally.add {}) := by
  have fresh : run.opened.heap.tallies[run.tally]? = some {} := Array.getElem?_push_size
  exact Operation.tally_applyAll run.rules run.operations fresh

theorem combines : Combines run.reports run.total? := by
  have total : run.total? = totalOf run.reports := by
    rw [total?, Heap.total?, run.tallies_after, Option.bind_some, total?_foldl_add]
  rw [total]
  exact combines_totalOf _

/-- What a tally hands over, its target hears once; the tally is told of it once more for each place
that it has in the target itself. -/
theorem deliverTally_after (target : Callback V) :
    let delivered := (Operation.deliverTally run.tally target).apply run.rules run.after
    (run.total? = none → delivered = run.after) ∧
    ∀ total, run.total? = some total →
      delivered = (Operation.deliver target total).apply run.rules run.after ∧
      delivered.heap.tallies[run.tally]? = some
        ((List.replicate (target.countP (Receiver.feeds run.tally)) total).foldl Tally.add
          (run.reports.foldl Tally.add {})) := by
  refine ⟨fun silent => ?_, fun total reported => ?_⟩
  · simp only [Operation.apply, target.deliverTally_of_none run.rules silent]
  · have same : (Operation.deliverTally run.tally target).apply run.rules run.after =
        (Operation.deliver target total).apply run.rules run.after := by
      simp only [Operation.apply, target.deliverTally_of_some run.rules reported]
      rfl
    refine ⟨same, ?_⟩
    rw [same]
    refine (target.tallies_deliver run.rules total run.after.toScene run.tally).trans ?_
    rw [run.tallies_after, Option.map_some]

end TallyRun

/-- A tally that anything may happen to comes to what its reports come to, in any order of them: to
nothing, or to any success and the wrapped sum. Handing that over tells its target once, and changes
the tally only where the target reports to it. -/
theorem tallies_combine_reports (run : TallyRun V) :
    Combines run.reports run.total? ∧
    (∀ other : TallyRun V, other.reports.Perm run.reports → other.total? = run.total?) ∧
    (∀ told : List (Callback V × Outcome),
      run.operations = (told.map fun (callback, outcome) => .deliver callback outcome) →
      run.reports = told.flatMap fun (callback, outcome) =>
        List.replicate (callback.countP (Receiver.feeds run.tally)) outcome) ∧
    ∀ target : Callback V,
      let delivered := (Operation.deliverTally run.tally target).apply run.rules run.after
      (run.total? = none → delivered = run.after) ∧
      ∀ total, run.total? = some total →
        delivered = (Operation.deliver target total).apply run.rules run.after ∧
        delivered.heap.tallies[run.tally]? = some
          ((List.replicate (target.countP (Receiver.feeds run.tally)) total).foldl Tally.add
            (run.reports.foldl Tally.add {})) := by
  refine ⟨run.combines, fun other same => ?_, fun told only => ?_, run.deliverTally_after⟩
  · exact (other.combines.perm same).unique run.combines
  · rw [TallyRun.reports, only, tallied_deliveries]

def wrappingReports : List (Callback packWords × Outcome) :=
  [([.tally 0], ⟨true, 2147483647⟩), ([.tally 0, .host (Listener.named "a"), .tally 0], ⟨false, 1⟩)]

def reportingRun (told : List (Callback packWords × Outcome)) : TallyRun packWords where
  rules := packRules {}
  before := Machine.start {} ⟨{}, {}⟩
  operations := told.map fun (callback, outcome) => .deliver callback outcome

/-- The sum wraps around, and is added once more when it is handed over to the tally itself. -/
theorem tallies_combine_reports_wrapping :
    (reportingRun wrappingReports).reports =
      [⟨true, 2147483647⟩, ⟨false, 1⟩, ⟨false, 1⟩] ∧
    (reportingRun wrappingReports).total? = some ⟨true, -2147483647⟩ ∧
    (reportingRun wrappingReports.reverse).total? = some ⟨true, -2147483647⟩ ∧
    (reportingRun []).total? = none ∧
    (Operation.deliverTally 0 [.host (Listener.named "b")]).apply (packRules {})
      (reportingRun []).after = (reportingRun []).after ∧
    ((Operation.deliverTally 0 [.host (Listener.named "b"), .tally 0]).apply (packRules {})
      (reportingRun wrappingReports).after).heap.tallies[0]? = some ⟨true, true, 2⟩ := by
  obtain ⟨_, orders, reported, hands⟩ :=
    tallies_combine_reports (reportingRun wrappingReports)
  have total : (reportingRun wrappingReports).total? = some ⟨true, -2147483647⟩ := by decide
  have reports := reported wrappingReports rfl
  have swapped : (reportingRun wrappingReports.reverse).reports.Perm
      (reportingRun wrappingReports).reports := by decide
  have handed := ((hands [.host (Listener.named "b"), .tally 0]).2 _ total).2
  rw [reports] at handed
  have silent : (reportingRun []).total? = none := rfl
  have nothing := ((tallies_combine_reports (reportingRun [])).2.2.2
    [.host (Listener.named "b")]).1 silent
  exact ⟨reports, total, (orders _ swapped).trans total, silent, nothing, handed⟩

end PackEngine
