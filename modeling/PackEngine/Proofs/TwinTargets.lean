import PackEngine.Proofs.Halting
import PackEngine.Proofs.TwinRuns

/-! Twin runs of a target. Requests for the same functions and the same source open twin machines,
and what a run answers is read off the machine at its end. -/
namespace PackEngine

open Machine

variable {d : Difference} {pack : Pack} {request : RunRequest} {w : World}
  {functions : List (BoundFunction packWords)} {m n : Machine packWords}

def Machine.answer (found : World) (m : Machine packWords) :
    Except EngineError Unit → Except RunError RunReport
  | .ok () => .ok ⟨Journal.results (m.setting.effectsSince found.journal.size), m.executed⟩
  | .error error => .error (.engine error)

theorem Machine.setting_close (verdict : Except EngineError Unit) (m : Machine packWords) :
    (m.close verdict).setting = m.setting := by
  cases verdict <;> rfl

theorem Machine.answer_close (found : World) (verdict : Except EngineError Unit)
    (m : Machine packWords) : (m.close verdict).answer found verdict = m.answer found verdict := by
  cases verdict <;> rfl

namespace RunRequest

theorem runTarget_of_refused {error : CommandError}
    (refused : request.functions pack = .error error) (turns : Nat) :
    runTarget pack turns request w = some (.error (.command error), w) := by
  rw [runTarget_eq, refused]

theorem runTarget_of_turn (found : request.functions pack = .ok functions) (turns : Nat) :
    runTarget pack turns request w =
      (turn (packRules pack) turns (request.opening functions w)).map
        fun (verdict, m) => (m.answer w verdict, m.setting) := by
  rw [runTarget_eq, found]
  dsimp only
  congr 1
  funext (verdict, m)
  cases verdict <;> rfl

theorem runTarget_of_ends (found : request.functions pack = .ok functions) {last turns : Nat}
    {verdict : Except EngineError Unit}
    (runs : (request.opening functions w).Runs (packRules pack) last)
    (ends : ((request.opening functions w).after (packRules pack) last).verdict? = some verdict)
    (enough : last < turns) :
    runTarget pack turns request w =
      some (((request.opening functions w).after (packRules pack) last).answer w verdict,
        ((request.opening functions w).after (packRules pack) last).setting) := by
  have turned := (turn_eq_some_iff _ turns _ _ verdict).mpr ⟨last, enough, runs, ends, rfl⟩
  rw [runTarget_of_turn found, turned, Option.map_some]
  dsimp only
  rw [answer_close, setting_close]

theorem runTarget_ends {turns : Nat} {final : World} {report : RunReport}
    (ends : runTarget pack turns request w = some (.ok report, final)) :
    ∃ bound last, request.functions pack = .ok bound ∧
      (request.opening bound w).Unlimited (packRules pack) ∧ last < turns ∧
      (request.opening bound w).Runs (packRules pack) last ∧
      ((request.opening bound w).after (packRules pack) last).verdict? = some (.ok ()) ∧
      report.results = Journal.results (final.effectsSince w.journal.size) ∧
      report.executed = ((request.opening bound w).after (packRules pack) last).executed ∧
      final = ((request.opening bound w).after (packRules pack) last).setting := by
  cases found : request.functions pack with
  | error error =>
    rw [request.runTarget_of_refused found] at ends
    cases ends
  | ok bound =>
    rw [request.runTarget_of_turn found] at ends
    obtain ⟨⟨verdict, m⟩, turned, same⟩ := Option.map_eq_some_iff.mp ends
    cases verdict with
    | error error => cases same
    | ok value =>
      obtain ⟨last, enough, runs, done, rfl⟩ := (turn_eq_some_iff _ _ _ _ _).mp turned
      cases same
      exact ⟨bound, last, rfl, unlimited_of_turn turned, enough, runs, done, rfl, rfl, rfl⟩

theorem runTarget_of_runs (found : request.functions pack = .ok functions) {last turns : Nat}
    (runs : (request.opening functions w).Runs (packRules pack) last) (few : turns ≤ last) :
    runTarget pack turns request w = none := by
  rw [runTarget_of_turn found, Option.map_eq_none_iff, Option.eq_none_iff_forall_ne_some]
  rintro ⟨verdict, final⟩ turned
  obtain ⟨earlier, before, _, ends, _⟩ := (turn_eq_some_iff _ turns _ final verdict).mp turned
  cases ends.symm.trans (runs earlier (by omega))

end RunRequest

namespace Machine

theorem Twins.seedCall (h : m.Twins d n) (names : d.names = .same)
    (seeds : n.nextSeed = m.nextSeed) (function : BoundFunction packWords) (source : PackSource)
    (callback : Callback packWords) :
    (m.seedCall function source callback).Twins d (n.seedCall function source callback) := by
  have slots : n.heap.slots.size = m.heap.slots.size := by
    have next := h.heap.nextSlots 0
    rw [names] at next
    exact next.symm
  have entry : Entry.Twins d
      ⟨Frame.root m.nextSeed Callback.empty m.heap.slots.size,
        .call function callback false source⟩
      ⟨Frame.root n.nextSeed Callback.empty n.heap.slots.size,
        .call function callback false source⟩ := by
    have task := Task.Twins.call (d := d) function callback false source
    rw [names, Source.rename_same, Callback.rename_same] at task
    refine ⟨?_, task, fun ends => by cases ends⟩
    rw [names, Frame.rename_same, seeds, slots]
  have opened := h.onHeap h.heap.newSlot
  have seeded : Machine.Twins d
      { m with heap := m.heap.newSlot.2, nextSeed := m.nextSeed + 1 }
      { n with heap := n.heap.newSlot.2, nextSeed := n.nextSeed + 1 } :=
    ⟨opened.toTwins, opened.forks, opened.room, opened.tracer, fun fine =>
      ⟨(opened.waits fine).fine, (opened.waits fine).stack, (opened.waits fine).pending⟩,
      opened.full⟩
  exact seeded.enqueue entry

theorem nextSeed_seedCall (function : BoundFunction packWords) (source : PackSource)
    (callback : Callback packWords) (m : Machine packWords) :
    (m.seedCall function source callback).nextSeed = m.nextSeed + 1 :=
  enqueue_nextSeed _ _

theorem Twins.seedAll (h : m.Twins d n) (names : d.names = .same)
    (seeds : n.nextSeed = m.nextSeed) (source : PackSource)
    (functions : List (BoundFunction packWords)) :
    (seedAll source functions m).Twins d (PackEngine.seedAll source functions n) := by
  induction functions generalizing m n with
  | nil => exact h
  | cons function rest ih =>
    refine ih (h.seedCall names seeds function source _) ?_
    rw [nextSeed_seedCall, nextSeed_seedCall, seeds]

end Machine

namespace RunRequest

/-- Requests for the same work: the second allows no more entries to wait, and it is traced from
the start where that is observed. -/
structure Compares (observed : Bool) (large small : RunRequest) : Prop where
  source : small.source = large.source
  forks : small.limits.forks = large.limits.forks
  room : small.limits.queue ≤ large.limits.queue
  tracer : if observed then large.traced = false ∧ small.traced = true
    else small.traced = large.traced

variable {observed : Bool} {large small : RunRequest}

theorem Compares.start (h : large.Compares observed small) (w : World) :
    Machine.Twins (.start observed w)
      { Machine.start large.limits ⟨{}, w⟩ with
        tracer := if large.traced then some TracerId.given else none }
      { Machine.start small.limits ⟨{}, w⟩ with
        tracer := if small.traced then some TracerId.given else none } where
  heap := .refl {}
  setting := .refl rfl
  forks := h.forks
  room := h.room
  tracer := by
    have tracer := h.tracer
    cases observed with
    | true =>
      dsimp only
      rw [tracer.1, tracer.2]
      exact ⟨rfl, rfl⟩
    | false =>
      have same : small.traced = large.traced := tracer
      dsimp only
      rw [same]
      rfl
  waits _ := ⟨rfl, ⟨[], rfl, .nil⟩, .nil⟩
  full _ _ full := full

theorem Compares.opening (h : large.Compares observed small)
    (functions : List (BoundFunction packWords)) (w : World) :
    (large.opening functions w).Twins (.start observed w) (small.opening functions w) := by
  have seeds (request : RunRequest) : request.seeds functions w = seedAll request.source functions
      { Machine.start request.limits ⟨{}, w⟩ with
        tracer := if request.traced then some TracerId.given else none } := by
    unfold RunRequest.seeds
    cases request.traced <;> rfl
  have twins := (h.start w).seedAll rfl rfl large.source functions
  rw [← seeds large, ← h.source, ← seeds small] at twins
  unfold RunRequest.opening
  exact Twins.pushPending
    ⟨twins.toTwins, twins.forks, twins.room, twins.tracer, fun fine =>
      ⟨(twins.waits fine).fine, (twins.waits fine).stack, (twins.waits fine).pending⟩, twins.full⟩

theorem Compares.abreast (h : large.Compares observed small) {extra : Nat}
    (commands : large.limits.commands = small.limits.commands + extra)
    (functions : List (BoundFunction packWords)) (w : World) :
    (large.opening functions w).Abreast (.start observed w) extra
      (small.opening functions w) := by
  refine ⟨h.opening functions w, ?_⟩
  rw [(large.opening_start functions w).2.2.1, (small.opening_start functions w).2.2.1, commands]

end RunRequest

end PackEngine
