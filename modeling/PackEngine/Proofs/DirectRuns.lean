import PackEngine.Proofs.Trampoline

/-! Runs of targets agree with direct style. A run that ends well leaves the report that evaluation
gives, and has told the world the same things in the same order. -/
namespace PackEngine

open Direct Operation Machine

variable {setup : Setup} {fuel : Nat}

theorem Direct.evalCall_onward {act : Activation} {function : BoundFunction packWords}
    {callback : Callback packWords} {source : PackSource} {p after : Play} {exit : Exit}
    (h : evalCall setup fuel act function callback false source p = some (exit, after)) :
    exit = .onward := by
  cases fuel with
  | zero => cases h
  | succ fuel =>
    unfold evalCall evalBody Eval.confine at h
    simp only [Bool.false_eq_true, if_false] at h
    obtain ⟨inner, _, same⟩ := Option.map_eq_some_iff.mp h
    cases same
    rfl

theorem carries_seeds (together : setup.inTurn = false) (source : PackSource)
    (functions : List (BoundFunction packWords)) {seed : Nat} {slot : SlotId}
    {m : Machine packWords} (live : Live setup m) (quota : m.quota ≤ fuel)
    (entries : m.stack.entries = seedEntries source seed slot functions) :
    ∃ n, m.Runs (packRules setup.pack) n ∧
      evalSeeds setup fuel source slot functions m.play =
        some (.onward, (m.after (packRules setup.pack) n).play) ∧
      (m.after (packRules setup.pack) n).stack.entries = [] := by
  induction functions generalizing seed slot m with
  | nil => exact ⟨0, runs_zero _ m, rfl, entries⟩
  | cons function rest ih =>
    obtain ⟨n, exit, runs, same, stack⟩ := carries_call together fuel
      (Frame.root seed Callback.empty slot) function [.host (.finished function.id)] false source
      m _ live quota entries
    cases evalCall_onward same
    obtain ⟨k, further, others, done⟩ := ih (live.after runs)
      (Nat.le_trans (after_quota_le _ n m) quota) stack
    rw [← after_add] at others done
    refine ⟨n + k, (runs_add_iff _ n k m).mpr ⟨runs, further⟩, ?_, done⟩
    have root : (Frame.root seed Callback.empty slot : Frame packWords).activation =
        ⟨0, Callback.empty, slot⟩ := rfl
    unfold evalSeeds Eval.andThen
    rw [← root, same]
    exact others

namespace RunRequest

theorem opening_play (request : RunRequest) (functions : List (BoundFunction packWords))
    (w : World) : (request.opening functions w).play =
      ⟨⟨{ slots := Array.replicate functions.length none }, w⟩,
        if request.traced then some .given else none, 0⟩ := by
  obtain ⟨scene, tracer, quota, limits⟩ := request.opening_start functions w
  unfold play executed
  rw [scene, tracer, quota, limits, Nat.sub_self]

theorem opening_live {pack : Pack} {request : RunRequest}
    {functions : List (BoundFunction packWords)} {w : World}
    (unlimited : (request.opening functions w).Unlimited (packRules pack)) (inTurn : Bool) :
    Live ⟨pack, request.limits.forks, inTurn⟩ (request.opening functions w) := by
  obtain ⟨_, _, quota, limits⟩ := request.opening_start functions w
  refine ⟨⟨?_, ?_⟩, request.opening_reached functions w pack, unlimited⟩
  · rw [quota, limits]
  · rw [limits]

/-- A run that ends well is an evaluation in direct style. It reports the same, and tells the world
the same in the same order. -/
theorem runTarget_direct {pack : Pack} {turns : Nat} {request : RunRequest} {w final : World}
    {report : RunReport} (ends : runTarget pack turns request w = some (.ok report, final))
    {fuel : Nat} (deep : request.limits.commands ≤ fuel) :
    Direct.runTarget pack false fuel request w = some (.ok report, final) := by
  obtain ⟨functions, found, unlimited, reports⟩ := runTarget_ok ends
  have quota : (request.opening functions w).quota ≤ fuel := by
    rw [(request.opening_start functions w).2.2.1]
    exact deep
  obtain ⟨n, runs, evaluates, done⟩ := carries_seeds rfl request.source functions
    (opening_live unlimited false) quota (request.opening_entries functions w unlimited.fine)
  obtain ⟨same, rfl⟩ := reports n _ runs rfl done
  unfold Direct.runTarget
  rw [found]
  dsimp only
  rw [← opening_play, evaluates, same]
  rfl

/-- A function, and one that calls it under two sources. -/
def crowdPack : Pack where
  functions :=
    [(⟨"minecraft", "crowd", .refl true, .refl true⟩, { lines := [.obj [
        ("modifiers", .arr [.arr [.str "As", .arr [.str "a", .str "b"]]]),
        ("run", .arr [.str "Function", .str "greet"])]] }),
     (⟨"minecraft", "greet", .refl true, .refl true⟩,
      { lines := [.obj [("run", .arr [.str "Say", .str "hi"])]] })]

def crowdRequest : RunRequest := { target := "crowd", limits := { commands := 8 } }

theorem runTarget_direct_crowd : ∃ report final,
    runTarget crowdPack 20 crowdRequest {} = some (.ok report, final) ∧
      crowdRequest.limits.commands ≤ 8 ∧
      Direct.runTarget crowdPack false 8 crowdRequest {} = some (.ok report, final) := by
  refine ⟨_, _, rfl, Nat.le_refl 8, ?_⟩
  have ends : runTarget crowdPack 20 crowdRequest {} = some (.ok _, _) := rfl
  exact runTarget_direct ends (Nat.le_refl 8)

/-- The sources of a line do not make their calls in turn. -/
theorem runTarget_not_inTurn : ∃ report final inTurn,
    runTarget crowdPack 20 crowdRequest {} = some (.ok report, final) ∧
      Direct.runTarget crowdPack true 8 crowdRequest {} = some inTurn ∧
      inTurn.2.journal.toList ≠ final.journal.toList :=
  ⟨_, _, _, rfl, rfl, by decide⟩

end RunRequest

end PackEngine
