import Mathlib.Data.List.Infix
import PackEngine.Proofs.DirectRuns
import PackEngine.Proofs.TwinTargets

/-! Runs with more headroom. They do all that a run within smaller limits does, in the same order,
and go on from where a limit stopped it. -/
namespace PackEngine

open Machine

variable {d : Difference} {pack : Pack} {m n : Machine packWords} {extra : Nat}

namespace Machine

theorem Abreast.executed (h : m.Abreast d extra n)
    (commands : m.limits.commands = n.limits.commands + extra) : m.executed = n.executed := by
  unfold Machine.executed
  rw [commands, h.quota, Nat.add_sub_add_right]

theorem Reached.goes_on (h : m.Reached (packRules pack) PackTask) {last : Nat}
    (runs : m.Runs (packRules pack) last) :
    ∃ later verdict, last ≤ later ∧ m.Runs (packRules pack) later ∧
      (m.after (packRules pack) later).verdict? = some verdict ∧
      (m.after (packRules pack) last).setting.journal.toList <+:
        (m.after (packRules pack) later).setting.journal.toList := by
  have reached := h.after runs
  obtain ⟨further, verdict, goes, ends⟩ := reached.last_verdict
  have told := reached.tells goes
  rw [← after_add] at ends told
  exact ⟨last + further, verdict, Nat.le_add_right _ _, (runs_add_iff _ _ _ m).mpr ⟨runs, goes⟩,
    ends, told⟩

end Machine

theorem World.effectsSince_mono {w v : World} (told : w.journal.toList <+: v.journal.toList)
    (count : Nat) : w.effectsSince count <+: v.effectsSince count := told.drop count

/-- What a run has done within smaller limits, it does first within larger ones; and a run that
ends well within the smaller ones is the same within the larger ones, with the same report. -/
theorem larger_limits (pack : Pack) (request : RunRequest) (w : World) {commands queue : Nat}
    (more : request.limits.commands ≤ commands) (longer : request.limits.queue ≤ queue) :
    ∃ enough, ∀ turns, enough ≤ turns → ∃ first small second large,
      runTarget pack turns request w = some (first, small) ∧
      runTarget pack turns { request with limits := ⟨commands, request.limits.forks, queue⟩ } w =
        some (second, large) ∧
      small.effectsSince w.journal.size <+: large.effectsSince w.journal.size ∧
      ∀ report, first = .ok report → second = .ok report ∧ large = small := by
  let roomy : RunRequest := { request with limits := ⟨commands, request.limits.forks, queue⟩ }
  cases found : request.functions pack with
  | error error =>
    refine ⟨0, fun turns _ => ⟨_, w, _, w, request.runTarget_of_refused found turns,
      roomy.runTarget_of_refused found turns, List.prefix_refl _, fun report ok => by cases ok⟩⟩
  | ok functions =>
    obtain ⟨extra, rfl⟩ := Nat.exists_eq_add_of_le more
    have compares : roomy.Compares false request := ⟨rfl, rfl, longer, rfl⟩
    have commands : roomy.limits.commands = request.limits.commands + extra := rfl
    have abreast := compares.abreast commands functions w
    obtain ⟨last, verdict, runs, ends⟩ := (request.opening_reached functions w pack).last_verdict
    obtain ⟨further, later⟩ := abreast.after runs (runs.busy rfl) (.inl rfl)
    have world := later.setting.eq rfl
    obtain ⟨final, verdict', after, goes, ends', told⟩ :=
      (roomy.opening_reached functions w pack).goes_on further
    refine ⟨final + 1, fun turns enough => ?_⟩
    refine ⟨_, _, _, _, request.runTarget_of_ends found runs ends (by omega),
      roomy.runTarget_of_ends found goes ends' enough, ?_, fun report ok => ?_⟩
    · rw [world]
      exact World.effectsSince_mono told _
    · cases verdict with
      | error error => cases ok
      | ok done =>
        obtain ⟨fine, empty⟩ := (verdict?_eq_ok_iff _).mp ends
        have both := later.twins.done fine empty
        cases further.unique (by simp [both]) goes (by simp [ends'])
        cases both.symm.trans ends'
        have executed := later.executed (by
          rw [after_limits, after_limits, (RunRequest.opening_start _ _ _).2.2.2,
            (RunRequest.opening_start _ _ _).2.2.2])
        cases ok
        refine ⟨?_, world.symm⟩
        unfold Machine.answer
        rw [world, executed]

/-- The crowd with too few commands for two greetings. -/
def tightRequest : RunRequest := { RunRequest.crowdRequest with limits := { commands := 3 } }

theorem larger_limits_crowd :
    tightRequest.limits.commands ≤ 8 ∧ tightRequest.limits.queue ≤ 10000000 ∧
    ∃ enough, ∀ turns, enough ≤ turns → ∃ first small second large,
      runTarget RunRequest.crowdPack turns tightRequest {} = some (first, small) ∧
      runTarget RunRequest.crowdPack turns
        { tightRequest with limits := ⟨8, tightRequest.limits.forks, 10000000⟩ } {} =
        some (second, large) ∧
      small.effectsSince 0 <+: large.effectsSince 0 ∧
      ∀ report, first = .ok report → second = .ok report ∧ large = small :=
  ⟨by decide, by decide, larger_limits RunRequest.crowdPack tightRequest {} (by decide) (by decide)⟩

/-- Within three commands the run stops after its first greeting. -/
example :
    (runTarget RunRequest.crowdPack 20 tightRequest {}).map
        (fun (answer, w) => (answer.toOption.isSome, w.journal.size)) = some (false, 3) ∧
      (runTarget RunRequest.crowdPack 20 RunRequest.crowdRequest {}).map
        (fun (answer, w) => (answer.toOption.isSome, w.journal.size)) = some (true, 7) :=
  ⟨rfl, rfl⟩

end PackEngine
