import PackEngine.Proofs.Headroom

/-! Runs that are observed. A tracer is told what a run does, and nothing that it makes of it comes
back: unless a debug command looks whether its run is traced, the run is the same without. -/
namespace PackEngine

open Machine

structure Observer where
  State : Type
  start : State
  note : State → TraceEvent → State

namespace Observer

def printing (sink : Sink) : Observer := ⟨Printer, { sink := sink }, Printer.event⟩

def recording : Observer := ⟨Array TraceEvent, #[], Array.push⟩

end Observer

/-- The world without what has been told, after its first `count` effects, to the tracer that a run
was started with. -/
def World.unobserved (count : Nat) (w : World) : World := { w with
  journal := (w.journal.toList.take count ++
    (w.effectsSince count).filter fun effect => !effect.isGiven).toArray }

def runObserved (observer : Observer) (pack : Pack) (turns : Nat) (request : RunRequest)
    (w : World) : Option (Except RunError RunReport × World × observer.State) :=
  (runTarget pack turns { request with traced := true } w).map fun (answer, final) =>
    (answer, final.unobserved w.journal.size,
      (Journal.traceEvents .given (final.effectsSince w.journal.size)).foldl observer.note
        observer.start)

variable {d : Difference} {pack : Pack} {m n : Machine packWords} {w v : World}

theorem World.Twins.unobserved (h : w.Twins d v) (observed : d.observed = true) :
    v.unobserved d.before.length = w := by
  obtain ⟨scores, traces, writable, stamp, since, second, first⟩ := h
  have shown : d.shows = fun effect => !effect.isGiven := by
    funext effect
    unfold Difference.shows
    rw [observed, Bool.true_and]
  have journal : (v.unobserved d.before.length).journal = w.journal := by
    apply Array.ext'
    unfold World.unobserved World.effectsSince
    rw [first, second, List.take_left, List.drop_left, ← shown, List.toList_toArray]
  cases w
  cases scores
  cases traces
  cases writable
  cases stamp
  cases journal
  rfl

theorem World.Twins.results (h : w.Twins d v) :
    Journal.results (v.effectsSince d.before.length) =
      Journal.results (w.effectsSince d.before.length) := by
  obtain ⟨_, _, _, _, since, second, first⟩ := h
  unfold World.effectsSince
  rw [first, second, List.drop_left, List.drop_left]
  unfold Journal.results
  rw [List.filterMap_filter]
  refine List.filterMap_congr fun effect _ => ?_
  cases shown : d.shows effect with
  | true => rfl
  | false =>
    cases effect with
    | traced => rfl
    | _ => cases (World.shows_of_other d rfl).symm.trans shown

def Task.endsInDebug : Task packWords → Bool
  | .line _ _ chain _ _ =>
      match chain.executable with
      | .action (.debug _) => true
      | _ => false
  | _ => false

namespace Machine

/-- No turn of the run comes to a debug command. -/
def Undebugged (pack : Pack) (m : Machine packWords) : Prop :=
  ∀ k, m.Runs (packRules pack) (k + 1) → ¬(m.after (packRules pack) k).DebugsNext pack

theorem DebugsNext.endsInDebug (debugs : m.DebugsNext pack) :
    m.stack.entries.head?.any (fun top => top.task.endsInDebug) = true := by
  obtain ⟨top, rest, entries, issuer, sources, chain, flags, topLevel, _, task, _, _, _, _, ends⟩ :=
    debugs
  simp only [entries, List.head?_cons, Option.any_some, task, Task.endsInDebug, ends]

theorem Twins.debugsNext (h : m.Twins d n) (goes : n.verdict? = none)
    (busy : n.stack.entries ≠ d.lower) (debugs : m.DebugsNext pack) : n.DebugsNext pack := by
  obtain ⟨_, top, rest, other, others, first, second, twin, twins⟩ := h.tops goes busy
  obtain ⟨_, _, stack, issuer, sources, chain, flags, topLevel, arrival, task, arrives, ends⟩ :=
    debugs
  cases first.symm.trans stack
  have same := twin.task
  rw [task] at same
  generalize following : other.task = line at same
  cases same
  have arrived : Arrived d ((m.taking top rest).reach (packRules pack) top.frame issuer sources
      chain flags topLevel) _ := reach_twins issuer sources chain flags topLevel twins
  have reached := arrived.arrival
  rw [arrives, ← twin.frame] at reached
  refine ⟨other, others, second, _, _, chain, flags, topLevel, _, following, reached, ?_⟩
  obtain ⟨whole, present, debug⟩ := ends
  exact ⟨whole, fun nothing => present (List.map_eq_nil_iff.mp nothing), debug⟩

/-- Twins in the same circumstances keep abreast, if one of the runs comes to no debug command. -/
theorem Abreast.undebugged (h : m.Abreast d 0 n) (bottom : d.lower = [])
    (limits : n.limits = m.limits) (quiet : m.Undebugged pack ∨ n.Undebugged pack) {last : Nat}
    (runs : n.Runs (packRules pack) last) :
    ∀ k < last, ¬(m.after (packRules pack) k).DebugsNext pack := by
  -- before the first debug command the twins are abreast, so both of them would come to it
  intro k less debugs
  induction k using Nat.strongRecOn with
  | ind k ih =>
    have busy := runs.busy bottom
    obtain ⟨further, abreast⟩ := h.after (runs.mono (Nat.le_of_lt less))
      (fun i before => busy i (by omega))
      (.inr fun i before debugs => ih i before (by omega) debugs)
    cases quiet with
    | inl quiet =>
      refine quiet k ((runs_succ_last_iff _ k m).mpr ⟨further, ?_⟩) debugs
      rw [← abreast.verdict bottom (by rw [after_limits, after_limits, limits])]
      exact runs k less
    | inr quiet =>
      exact quiet k (runs.mono less) (abreast.twins.debugsNext (runs k less) (busy k less) debugs)

theorem Abreast.ends_alike (h : m.Abreast d 0 n) (bottom : d.lower = [])
    (limits : n.limits = m.limits) (quiet : m.Undebugged pack ∨ n.Undebugged pack)
    (reached : n.Reached (packRules pack) PackTask) :
    ∃ last verdict, m.Runs (packRules pack) last ∧ n.Runs (packRules pack) last ∧
      (m.after (packRules pack) last).verdict? = some verdict ∧
      (n.after (packRules pack) last).verdict? = some verdict ∧
      (m.after (packRules pack) last).Abreast d 0 (n.after (packRules pack) last) := by
  obtain ⟨last, verdict, runs, ends⟩ := reached.last_verdict
  obtain ⟨further, abreast⟩ :=
    h.after runs (runs.busy bottom) (.inr (h.undebugged bottom limits quiet runs))
  refine ⟨last, verdict, further, runs, ?_, ends, abreast⟩
  rw [← abreast.verdict bottom (by rw [after_limits, after_limits, limits]), ends]

theorem Abreast.answer (h : m.Abreast d 0 n) (limits : n.limits = m.limits)
    (found : d.before = w.journal.toList) (verdict : Except EngineError Unit) :
    n.answer w verdict = m.answer w verdict := by
  have results : Journal.results (n.setting.effectsSince w.journal.size) =
      Journal.results (m.setting.effectsSince w.journal.size) := by
    have same := h.setting.results
    rwa [found] at same
  have executed : m.executed = n.executed := h.executed (congrArg Limits.commands limits).symm
  cases verdict with
  | error error => rfl
  | ok value => simp only [Machine.answer, results, executed]

end Machine

def RunRequest.Undebugged (pack : Pack) (request : RunRequest) (w : World) : Prop :=
  ∀ functions, request.functions pack = .ok functions →
    (request.opening functions w).Undebugged pack

theorem RunRequest.runTarget_traced {request : RunRequest} (quiet : request.Undebugged pack w)
    (turns : Nat) :
    (runTarget pack turns { request with traced := true } w).map
        (fun (answer, final) => (answer, final.unobserved w.journal.size)) =
      runTarget pack turns { request with traced := false } w := by
  let plain : RunRequest := { request with traced := false }
  let traced : RunRequest := { request with traced := true }
  show (runTarget pack turns traced w).map _ = runTarget pack turns plain w
  cases found : request.functions pack with
  | error error =>
    have same : w.unobserved w.journal.size = w :=
      (World.Twins.refl (d := .start true w) rfl).unobserved rfl
    rw [traced.runTarget_of_refused found, plain.runTarget_of_refused found, Option.map_some]
    dsimp only
    rw [same]
  | ok functions =>
    have compares : plain.Compares true traced := ⟨rfl, rfl, Nat.le_refl _, rfl, rfl⟩
    have limits : (traced.opening functions w).limits = (plain.opening functions w).limits := by
      rw [(traced.opening_start functions w).2.2.2, (plain.opening_start functions w).2.2.2]
    have unseen : (plain.opening functions w).Undebugged pack ∨
        (traced.opening functions w).Undebugged pack := by
      have own := quiet functions found
      obtain ⟨target, source, arguments, limits, attached⟩ := request
      cases attached with
      | false => exact .inl own
      | true => exact .inr own
    have commands : plain.limits.commands = traced.limits.commands + 0 := rfl
    obtain ⟨last, verdict, runs, others, ends, ends', abreast⟩ :=
      (compares.abreast commands functions w).ends_alike rfl limits unseen
        (traced.opening_reached functions w pack)
    cases Nat.lt_or_ge last turns with
    | inl enough =>
      have later : ((traced.opening functions w).after (packRules pack) last).limits =
          ((plain.opening functions w).after (packRules pack) last).limits := by
        rw [after_limits, after_limits, limits]
      have worlds :
          ((traced.opening functions w).after (packRules pack) last).setting.unobserved
              w.journal.size =
            ((plain.opening functions w).after (packRules pack) last).setting :=
        abreast.setting.unobserved rfl
      rw [traced.runTarget_of_ends found others ends' enough,
        plain.runTarget_of_ends found runs ends enough, Option.map_some]
      dsimp only
      rw [abreast.answer later rfl verdict, worlds]
    | inr few =>
      rw [traced.runTarget_of_runs found others few, plain.runTarget_of_runs found runs few]
      rfl

/-- A run that comes to no debug command is the same whether a tracer is attached or not: it gives
the same answer and leaves the same world, whatever the tracer makes of the events. -/
theorem tracing_changes_nothing (pack : Pack) (request : RunRequest) (w : World)
    (quiet : request.Undebugged pack w) (observer : Observer) (turns : Nat) :
    (runObserved observer pack turns request w).map (fun (answer, final, _) => (answer, final)) =
      runTarget pack turns { request with traced := false } w := by
  rw [← RunRequest.runTarget_traced quiet turns]
  unfold runObserved
  rw [Option.map_map]
  rfl

def crowdFunctions : List (BoundFunction packWords) :=
  (RunRequest.crowdRequest.functions RunRequest.crowdPack).toOption.getD []

theorem crowd_undebugged : RunRequest.crowdRequest.Undebugged RunRequest.crowdPack {} := by
  intro functions found k runs debugs
  have resolved : RunRequest.crowdRequest.functions RunRequest.crowdPack = .ok crowdFunctions := rfl
  cases resolved.symm.trans found
  by_cases less : k < 11
  · have tops : (List.range 11).all (fun k =>
        !((RunRequest.crowdRequest.opening crowdFunctions {}).after
          (packRules RunRequest.crowdPack) k).stack.entries.head?.any
            fun top => top.task.endsInDebug) = true := rfl
    have top := List.all_eq_true.mp tops k (List.mem_range.mpr less)
    rw [debugs.endsInDebug] at top
    cases top
  · cases (runs 11 (by omega)).symm.trans rfl

theorem tracing_changes_nothing_crowd :
    RunRequest.crowdRequest.Undebugged RunRequest.crowdPack {} ∧
      (runObserved (.printing { room := some 3 }) RunRequest.crowdPack 12 RunRequest.crowdRequest
          {}).map (fun (answer, final, _) => (answer, final)) =
        runTarget RunRequest.crowdPack 12 { RunRequest.crowdRequest with traced := false } {} ∧
      (runObserved .recording RunRequest.crowdPack 12 RunRequest.crowdRequest {}).map
          (fun (answer, final, _) => (answer, final)) =
        runTarget RunRequest.crowdPack 12 { RunRequest.crowdRequest with traced := false } {} :=
  ⟨crowd_undebugged,
    tracing_changes_nothing RunRequest.crowdPack RunRequest.crowdRequest {} crowd_undebugged
      (.printing { room := some 3 }) 12,
    tracing_changes_nothing RunRequest.crowdPack RunRequest.crowdRequest {} crowd_undebugged
      .recording 12⟩

/-- The recorder keeps the whole run, and the printer gets no further than its sink. -/
example :
    ((runObserved .recording RunRequest.crowdPack 12 RunRequest.crowdRequest {}).map
        fun (_, _, events) => events.size) = some 8 ∧
      ((runObserved (.printing { room := some 3 }) RunRequest.crowdPack 12
        RunRequest.crowdRequest {}).map fun (_, _, printer) => printer.failed) = some true :=
  ⟨rfl, rfl⟩

end PackEngine
