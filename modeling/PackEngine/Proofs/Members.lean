import PackEngine.Proofs.Names
import PackEngine.Proofs.Seams

/-! Members of a tag. A run of a tag that ends well is a run of each of its functions, one after
the other on the same world: nothing that one of them does reaches into the next. -/
namespace PackEngine

open Direct Machine

/-- Runs functions one after the other, each by its name and with the request's source, arguments
and limits; `none` unless all of the runs end well. -/
def runMembers (pack : Pack) (turns : Nat) (request : RunRequest) :
    List FunctionId → World → Option (List RunReport × World)
  | [], w => some ([], w)
  | id :: rest, w =>
      match runTarget pack turns { request with target := id.render } w with
      | some (.ok report, w) =>
          (runMembers pack turns request rest w).map fun (reports, w) => (report :: reports, w)
      | _ => none

variable {pack : Pack} {setup : Setup} {request : RunRequest} {w : World}
  {seed slot : Nat} {n : Machine packWords}

theorem RunRequest.functions_member {function : FunctionRef packWords}
    {bound : BoundFunction packWords}
    (present : pack.library.function? function.id = some function)
    (binds : function.instantiate request.arguments = .ok bound) :
    RunRequest.functions pack { request with target := function.id.render } = .ok [bound] := by
  unfold RunRequest.functions
  simp only [pack.library.resolve_render function.id present, bind, Except.bind,
    FunctionRef.instantiateAll, binds]

theorem Machine.Alone.report {function : BoundFunction packWords} {next turns : Nat}
    (alone : Alone pack n (request.opening [function] n.setting) next)
    (found : request.functions pack = .ok [function]) (enough : next < turns) :
    ∃ report,
      runTarget pack turns request n.setting =
        some (.ok report, (n.after (packRules pack) next).setting) ∧
      report.results = Journal.results
        ((n.after (packRules pack) next).setting.effectsSince n.setting.journal.size) ∧
      report.executed = n.quota - (n.after (packRules pack) next).quota := by
  have ran := request.runTarget_of_ends found alone.alone alone.done enough
  rw [alone.worlds] at ran
  refine ⟨_, ran, ?_, alone.executed⟩
  rw [← alone.worlds]

/-- A run of functions that ends well, from a seam on: each of them runs well by itself, and the
reports of their runs add up. -/
theorem Machine.Live.members (live : Live setup n) (together : setup.inTurn = false)
    {functions : List (FunctionRef packWords)} {bound : List (BoundFunction packWords)}
    (binds : List.Forall₂ (fun function one => function.instantiate request.arguments = .ok one)
      functions bound)
    (present : ∀ function ∈ functions,
      setup.pack.library.function? function.id = some function)
    (entries : n.stack.entries = seedEntries request.source seed slot bound)
    (free : n.tracer = none) (hosted : request.source.callback.Hosted)
    (untraced : request.traced = false) (limits : n.limits = request.limits)
    (room : bound ≠ [] → 0 < request.limits.queue) {last turns : Nat}
    (runs : n.Runs (packRules setup.pack) last)
    (ends : (n.after (packRules setup.pack) last).verdict? = some (.ok ()))
    (enough : last < turns) :
    ∃ reports,
      runMembers setup.pack turns request (functions.map (·.id)) n.setting =
        some (reports, (n.after (packRules setup.pack) last).setting) ∧
      Journal.results ((n.after (packRules setup.pack) last).setting.effectsSince
        n.setting.journal.size) = reports.flatMap (·.results) ∧
      n.quota - (n.after (packRules setup.pack) last).quota = (reports.map (·.executed)).sum := by
  -- from seam to seam, where the world and what is left of the run are known
  induction binds generalizing n seed slot last with
  | nil =>
    cases (runs_zero (packRules setup.pack) n).unique (verdict?_ne_none entries) runs
      (by simp [ends])
    exact ⟨[], rfl, congrArg Journal.results (World.effectsSince_self _), Nat.sub_self _⟩
  | @cons function one others rest first binds ih =>
    let single : RunRequest := { request with target := function.id.render }
    obtain ⟨next, alone, stack⟩ := live.to_next single together entries free hosted
      untraced limits (room (List.cons_ne_nil _ _))
    have reached : next ≤ last := by
      refine Nat.le_of_not_lt fun less => ?_
      cases ends.symm.trans (alone.runs last less)
    obtain ⟨further, rfl⟩ := Nat.exists_eq_add_of_le reached
    obtain ⟨_, later⟩ := (runs_add_iff _ next further n).mp runs
    have told := live.reached.tells alone.runs
    have telling := (live.after alone.runs).reached.tells later
    have spent := after_quota_le (packRules setup.pack) next n
    have spending := after_quota_le (packRules setup.pack) further
      (n.after (packRules setup.pack) next)
    rw [after_add] at ends ⊢
    obtain ⟨reports, runs, results, executed⟩ := ih (live.after alone.runs)
      (fun other member => present other (List.mem_cons_of_mem _ member)) stack alone.free
      (by rw [after_limits, limits]) (fun _ => room (List.cons_ne_nil _ _)) later ends (by omega)
    have found : single.functions setup.pack = .ok [one] :=
      RunRequest.functions_member (present function List.mem_cons_self) first
    have soon : next < turns := by omega
    obtain ⟨report, ran, own, charged⟩ := alone.report found soon
    refine ⟨report :: reports, ?_, ?_, ?_⟩
    · rw [List.map_cons, runMembers, ran]
      dsimp only
      rw [runs]
      rfl
    · rw [World.effectsSince_append told telling, Journal.results_append, results,
        List.flatMap_cons, own]
    · rw [List.map_cons, List.sum_cons, ← executed, charged]
      omega

theorem RunRequest.functions_ok {bound : List (BoundFunction packWords)}
    (found : request.functions pack = .ok bound) :
    ∃ functions, pack.library.resolve request.target = .ok functions ∧
      FunctionRef.instantiateAll request.arguments functions = .ok bound := by
  unfold RunRequest.functions at found
  cases resolved : pack.library.resolve request.target with
  | error error =>
    rw [resolved] at found
    cases found
  | ok functions =>
    rw [resolved] at found
    exact ⟨functions, rfl, found⟩

/-- A run of a tag that ends well is a run of its members, one after the other on the same world:
each of them ends well, together they have the same effects in the same order, and what the run of
the tag reports are their results in order and the sum of what they executed. -/
theorem tag_runs_members {turns : Nat} {final : World} {report : RunReport} {text : String}
    {tag : FunctionId} {functions : List (FunctionRef packWords)}
    (target : request.target = "#" ++ text) (parsed : FunctionId.parse text = .ok tag)
    (members : pack.library.tag? tag = some functions)
    (hosted : request.source.callback.Hosted) (untraced : request.traced = false)
    (ends : runTarget pack turns request w = some (.ok report, final)) :
    ∃ reports,
      runMembers pack turns request (functions.map (·.id)) w = some (reports, final) ∧
      report.results = reports.flatMap (·.results) ∧
      report.executed = (reports.map (·.executed)).sum := by
  obtain ⟨bound, last, found, unlimited, enough, runs, done, results, executed, rfl⟩ :=
    request.runTarget_ends ends
  obtain ⟨resolved, resolves, binds⟩ := RunRequest.functions_ok found
  rw [target] at resolves
  cases pack.library.resolve_tag parsed members resolves
  obtain ⟨scene, tracer, quota, limits⟩ := request.opening_start bound w
  have start : (request.opening bound w).setting = w := congrArg Scene.setting scene
  have free : (request.opening bound w).tracer = none := by
    rw [tracer, untraced]
    rfl
  obtain ⟨reports, ran, all, charged⟩ :=
    (RunRequest.opening_live unlimited false).members rfl
      (FunctionRef.forall₂_instantiateAll binds) (fun function => Pack.function?_of_tag members)
      (request.opening_entries bound w unlimited.fine) free hosted untraced limits
      (request.opening_room unlimited.fine) runs done enough
  rw [start] at ran all
  refine ⟨reports, ran, results.trans all, ?_⟩
  rw [executed, ← charged, quota]
  unfold Machine.executed
  rw [after_limits, limits]

def choirPack : Pack := { RunRequest.crowdPack with
  tags := [(⟨"minecraft", "choir", .refl true, .refl true⟩,
    [⟨"minecraft", "crowd", .refl true, .refl true⟩,
      ⟨"minecraft", "greet", .refl true, .refl true⟩])] }

def choirRequest : RunRequest := { target := "#choir", limits := { commands := 12 } }

theorem tag_runs_members_choir : ∃ tag functions report final reports,
    choirRequest.target = "#" ++ "choir" ∧ FunctionId.parse "choir" = .ok tag ∧
      choirPack.library.tag? tag = some functions ∧ functions.length = 2 ∧
      choirRequest.source.callback.Hosted ∧ choirRequest.traced = false ∧
      runTarget choirPack 30 choirRequest {} = some (.ok report, final) ∧
      runMembers choirPack 30 choirRequest (functions.map (·.id)) {} = some (reports, final) ∧
      report.results = reports.flatMap (·.results) ∧
      report.executed = (reports.map (·.executed)).sum := by
  have target : choirRequest.target = "#" ++ "choir" := rfl
  have parsed : FunctionId.parse "choir" =
      .ok ⟨"minecraft", "choir", .refl true, .refl true⟩ := rfl
  have members : choirPack.library.tag? ⟨"minecraft", "choir", .refl true, .refl true⟩ =
      some _ := rfl
  have ends : runTarget choirPack 30 choirRequest {} = some (.ok _, _) := rfl
  obtain ⟨reports, ran, results, executed⟩ :=
    tag_runs_members target parsed members Callback.hosted_empty rfl ends
  exact ⟨_, _, _, _, reports, target, parsed, members, rfl, Callback.hosted_empty, rfl, ends, ran,
    results, executed⟩

end PackEngine
