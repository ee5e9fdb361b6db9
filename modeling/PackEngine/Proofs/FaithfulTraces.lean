import PackEngine.Proofs.TraceDepths
import PackEngine.Proofs.TwinTargets

/-! Traces as records of runs. Of a run that is traced from the start, the trace tells how many
commands it executed, which errors it reported, which leaves failed, and in whose body each line
stands. -/
namespace PackEngine

open Machine

variable {pack : Pack} {start : Machine packWords} {n : Nat}

/-- The line is told of in turn `k`, behind what has been told before. It stands in the body of the
function that was called last at a lesser depth, and that call was made one level above. -/
structure BodyCall.Begins (call : BodyCall) (pack : Pack) (start : Machine packWords) (k : Nat)
    (before : List TraceEvent) (depth : Nat) (text : String) : Prop where
  earlier : call.turn < k
  made : call.MadeIn pack start
  line : ∃ chain lower, chain ∈ call.function.lines ∧ chain.input = text ∧
    (start.after (packRules pack) k).stack.entries =
      ⟨call.callee pack start, Task.command chain call.source⟩ :: lower
  told : start.events (start.after (packRules pack) k) = before
  level : call.caller.depth + 1 = depth
  latest : call.Latest pack start before

structure Machine.FaithfulTrace (pack : Pack) (start : Machine packWords) (n : Nat) : Prop where
  executed : (start.after (packRules pack) n).executed =
    (start.events (start.after (packRules pack) n)).countP TraceEvent.isCall +
      (start.events (start.after (packRules pack) n)).countP TraceEvent.isReturned
  errors : (start.events (start.after (packRules pack) n)).filterMap TraceEvent.error? =
    start.messages (start.after (packRules pack) n)
  failures : ∀ k < n, ∀ frame (line : LeafLine packWords) source lower error,
    (start.after (packRules pack) k).stack.entries = ⟨frame, .execute line source⟩ :: lower →
    (line.leaf.perform source (start.after (packRules pack) k).setting).1 = .error error →
    ∃ later, start.events (start.after (packRules pack) n) =
      start.events (start.after (packRules pack) k) ++
        .error error.message :: .returned frame.depth line.input 0 :: later
  lines : ∀ before depth text later,
    start.events (start.after (packRules pack) n) = before ++ .command depth text :: later →
    ∃ (call : BodyCall) (k : Nat), k < n ∧ call.Begins pack start k before depth text

namespace Machine

theorem Recorded.executed_eq (h : start.Recorded pack) (full : start.quota = start.limits.commands)
    (runs : start.Runs (packRules pack) n) :
    (start.after (packRules pack) n).executed =
      (start.events (start.after (packRules pack) n)).countP TraceEvent.isCall +
        (start.events (start.after (packRules pack) n)).countP TraceEvent.isReturned := by
  have account := h.quota runs
  rw [full, ← after_limits (packRules pack) n start] at account
  unfold Machine.executed
  omega

theorem Recorded.lines (h : start.Recorded pack)
    (fresh : ∀ entry ∈ start.stack.entries, entry.task.Underway)
    (runs : start.Runs (packRules pack) n) {before later : List TraceEvent} {depth : Nat}
    {text : String} (split : start.events (start.after (packRules pack) n) =
      before ++ .command depth text :: later) :
    ∃ (call : BodyCall) (k : Nat), k < n ∧ call.Begins pack start k before depth text := by
  obtain ⟨k, less, told, frame, issuer, sources, chain, flags, lower, entries, level, input⟩ :=
    h.begins runs split
  obtain ⟨call, holds⟩ := h.held fresh (runs.mono (Nat.le_of_lt less))
    (entries ▸ List.mem_cons_self)
  obtain ⟨_, member, same⟩ := holds.queues
  cases same
  exact ⟨call, k, less, holds.earlier, holds.made, ⟨chain, lower, member, input, entries⟩, told,
    level, told ▸ holds.latest⟩

theorem Recorded.faithful (h : start.Recorded pack)
    (fresh : ∀ entry ∈ start.stack.entries, entry.task.Underway)
    (full : start.quota = start.limits.commands) (runs : start.Runs (packRules pack) n) :
    start.FaithfulTrace pack n where
  executed := h.executed_eq full runs
  errors := h.messages_eq runs
  failures _ less _ _ _ _ _ entries fails := h.failure runs less entries fails
  lines _ _ _ _ split := h.lines fresh runs split

end Machine

/-- A run that is traced from the start ends, well or at a limit, and at each of its turns its trace
is a faithful record. Every line is told of at the depth right below the last call of a lesser
depth, and stands in the body of the function called there. -/
theorem traces_record_runs (pack : Pack) (request : RunRequest) (w : World)
    {functions : List (BoundFunction packWords)}
    (found : request.functions pack = .ok functions) (traced : request.traced = true) :
    ∃ (start : Machine packWords) (last : Nat) (verdict : Except EngineError Unit),
      start = request.opening functions w ∧ start.setting = w ∧
      start.Runs (packRules pack) last ∧
      (start.after (packRules pack) last).verdict? = some verdict ∧
      (∀ turns, last < turns → runTarget pack turns request w =
        some ((start.after (packRules pack) last).answer w verdict,
          (start.after (packRules pack) last).setting)) ∧
      ∀ n ≤ last, start.FaithfulTrace pack n := by
  have recorded := request.opening_recorded traced pack functions w
  obtain ⟨scene, _, quota, limits⟩ := request.opening_start functions w
  have fresh : ∀ entry ∈ (request.opening functions w).stack.entries, entry.task.Underway := by
    intro entry member
    obtain ⟨_, _, _, _, rfl⟩ := request.opening_calls functions w member
    trivial
  have full := quota.trans (congrArg Limits.commands limits).symm
  obtain ⟨last, verdict, runs, ends⟩ := recorded.reached.last_verdict
  exact ⟨_, last, verdict, rfl, congrArg Scene.setting scene, runs, ends,
    fun turns enough => request.runTarget_of_ends found runs ends enough,
    fun n le => recorded.faithful fresh full (runs.mono le)⟩

/-- A function that calls one whose first line fails. -/
def failingPack : Pack where
  functions :=
    [(⟨"minecraft", "f", .refl true, .refl true⟩, { lines := [
        .obj [("run", .arr [.str "Function", .str "g"])],
        .obj [("run", .arr [.str "Value", .num (.int 1)])]] }),
     (⟨"minecraft", "g", .refl true, .refl true⟩, { lines := [
        .obj [("run", .arr [.str "Fail", .str "no"])],
        .obj [("run", .arr [.str "Value", .num (.int 2)])]] })]

def failingRequest : RunRequest where
  target := "f"
  limits := { commands := 3 }
  traced := true

/-- Two calls and the failing leaf use the limit up. The other line of the second body waits for its
turn in vain, and is not told of. -/
theorem traces_record_runs_failing :
    ∃ (functions : List (BoundFunction packWords)) (start : Machine packWords) (last : Nat),
      failingRequest.functions failingPack = .ok functions ∧ failingRequest.traced = true ∧
      start = failingRequest.opening functions {} ∧
      (start.after (packRules failingPack) last).verdict? =
        some (.error (.commandLimitReached 3)) ∧
      start.FaithfulTrace failingPack last ∧
      start.events (start.after (packRules failingPack) last) =
        [.call 0 ⟨"minecraft", "f", .refl true, .refl true⟩ 2, .command 1 "function g",
          .call 1 ⟨"minecraft", "g", .refl true, .refl true⟩ 2, .command 2 "fail no",
          .error "no", .returned 2 "fail no" 0] := by
  have found : failingRequest.functions failingPack =
      .ok ((failingRequest.functions failingPack).toOption.getD []) := rfl
  obtain ⟨start, last, verdict, begins, _, runs, ends, _, faithful⟩ :=
    traces_record_runs failingPack failingRequest {} found rfl
  have further : start.Runs (packRules failingPack) 5 := by
    subst begins
    simp only [runs_succ_iff]
    exact ⟨rfl, rfl, rfl, rfl, rfl, runs_zero _ _⟩
  have stops : (start.after (packRules failingPack) 5).verdict? =
      some (.error (.commandLimitReached 3)) := by
    subst begins
    rfl
  cases runs.unique (by simp [ends]) further (by simp [stops])
  refine ⟨_, start, 5, found, rfl, begins, stops, faithful 5 (Nat.le_refl 5), ?_⟩
  subst begins
  rfl

end PackEngine
