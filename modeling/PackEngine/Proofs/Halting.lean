import PackEngine.Proofs.Openings

/-! Runs of packs end. However large the limits are and whatever the functions call, some number of
turns is enough, and with more of them a run answers the same. -/
namespace PackEngine

open Machine

variable {pack : Pack} {m : Machine packWords}

theorem Machine.Reached.turn_ends (h : m.Reached (packRules pack) PackTask) :
    ∃ turns answer, ∀ more, turns ≤ more → m.turn (packRules pack) more = some answer := by
  obtain ⟨last, verdict, runs, ends⟩ := h.last_verdict
  refine ⟨last + 1, (verdict, (m.after (packRules pack) last).close verdict), fun more enough => ?_⟩
  exact (turn_eq_some_iff _ more m _ verdict).mpr ⟨last, enough, runs, ends, rfl⟩

theorem Machine.Seeded.run_ends (h : m.Seeded PackTask) (pack : Pack) :
    ∃ turns answer, ∀ more, turns ≤ more → m.run (packRules pack) more = some answer := by
  have reached : m.opened.Reached (packRules pack) PackTask := .opened h
  obtain ⟨turns, answer, ends⟩ := reached.turn_ends
  refine ⟨turns, answer, fun more enough => ?_⟩
  unfold Machine.run
  rw [if_pos h.phase]
  exact ends more enough

theorem RunRequest.run_ends (pack : Pack) (request : RunRequest) (w : World) :
    ∃ turns answer, ∀ more, turns ≤ more → runTarget pack more request w = some answer := by
  cases found : request.functions pack with
  | error error =>
    refine ⟨0, (.error (.command error), w), fun more _ => ?_⟩
    rw [runTarget_eq, found]
  | ok functions =>
    obtain ⟨turns, _, ends⟩ := (request.opening_reached functions w pack).turn_ends
    have settled (more : Nat) (enough : turns ≤ more) :
        runTarget pack more request w = runTarget pack turns request w := by
      simp only [runTarget_eq, found, ends more enough, ends turns (Nat.le_refl turns)]
    obtain ⟨answer, answers⟩ : ∃ answer, runTarget pack turns request w = some answer := by
      simp only [runTarget_eq, found, ends turns (Nat.le_refl turns)]
      exact ⟨_, rfl⟩
    exact ⟨turns, answer, fun more enough => (settled more enough).trans answers⟩

/-- Every run ends: those of any tasks that a host seeds, and those of any target, for every pack,
source, world and limits. -/
theorem runs_end :
    (∀ (pack : Pack) (m : Machine packWords), m.Seeded PackTask →
      ∃ turns answer, ∀ more, turns ≤ more → m.run (packRules pack) more = some answer) ∧
    (∀ (pack : Pack) (request : RunRequest) (w : World),
      ∃ turns answer, ∀ more, turns ≤ more → runTarget pack more request w = some answer) :=
  ⟨fun pack _ seeded => seeded.run_ends pack, RunRequest.run_ends⟩

def endlessPack : Pack where
  functions := [(⟨"minecraft", "again", .refl true, .refl true⟩,
    { lines := [.obj [("run", .arr [.str "Function", .str "again"])]] })]

def endlessRequest : RunRequest where
  target := "again"
  limits := ⟨UInt64.size - 1, UInt64.size - 1, UInt64.size - 1⟩

def endlessFunction : BoundFunction packWords :=
  ⟨⟨"minecraft", "again", .refl true, .refl true⟩,
    [CommandLine.compile ⟨[], false, .call (.function "again" none)⟩]⟩

theorem runs_end_endless :
    (∃ turns answer, ((start endlessRequest.limits ⟨{}, ({} : World)⟩).seedCall endlessFunction
      PackSource.server Callback.empty).run (packRules endlessPack) turns = some answer) ∧
    ∃ turns answer, runTarget endlessPack turns endlessRequest {} = some answer := by
  obtain ⟨seeded, targets⟩ := runs_end
  constructor
  · obtain ⟨turns, answer, ends⟩ := seeded endlessPack _
      (.seed Callback.empty (PackTask.call _ _ false _) (.start _ _))
    exact ⟨turns, answer, ends turns (Nat.le_refl turns)⟩
  · obtain ⟨turns, answer, ends⟩ := targets endlessPack endlessRequest {}
    exact ⟨turns, answer, ends turns (Nat.le_refl turns)⟩

end PackEngine
