import PackEngine.Proofs.TraceRuns

/-! Traces are closed. A trace that a line opens stands until its end comes to the top; it is told
of nothing but what its calls lead to, and flushed once. -/
namespace PackEngine

open Machine

variable {pack : Pack} {m : Machine packWords}

structure DebugTrace.Stands (trace : DebugTrace) (pack : Pack) (start : Machine packWords)
    (lower : List (Entry packWords)) (first last : Nat) : Prop where
  later : first < last
  runs : start.Runs (packRules pack) last
  /-- It is the turn of a line that ends in a debug command. -/
  line : ∃ issuer sources chain flags topLevel target,
    (start.after (packRules pack) first).stack.entries =
      ⟨trace.frame, .line issuer sources chain flags topLevel⟩ :: lower ∧
    chain.executable = .action (.debug target) ∧
    pack.library.resolve target = .ok trace.functions
  free : (start.after (packRules pack) first).tracer = none
  fresh : (start.after (packRules pack) first).setting.traces ≤ trace.index ∧
    trace.index < (start.after (packRules pack) (first + 1)).setting.traces
  /-- The line attaches this tracer only. -/
  attaches : ∃ before after, (start.after (packRules pack) first).turnOperations (packRules pack) =
      before ++ .attach (.opened trace.index) :: after ∧
    ∀ operation ∈ before ++ after, operation ≠ .detach ∧ ∀ tracer, operation ≠ .attach tracer
  attached : ∀ k, first < k → k ≤ last →
    (start.after (packRules pack) k).tracer = some (.opened trace.index)
  /-- In between it is the turn of a call of the line, or of what such a call has led to. -/
  inside : ∀ k, first < k → k < last → ∃ top rest,
    (start.after (packRules pack) k).stack.entries = top :: rest ∧
      (trace.frame.Inside top.frame ∨ top ∈ trace.calls)
  kept : ∀ k, first < k → k < last →
    ∀ operation ∈ (start.after (packRules pack) k).turnOperations (packRules pack),
      operation ≠ .detach ∧ ∀ tracer, operation ≠ .attach tracer

def DebugTrace.Ends (trace : DebugTrace) (pack : Pack) (start : Machine packWords)
    (lower : List (Entry packWords)) (last : Nat) : Prop :=
  start.Runs (packRules pack) (last + 1) ∧
      (start.after (packRules pack) last).stack.entries = trace.closing :: lower ∨
    ∃ error, (start.after (packRules pack) last).verdict? = some (.error error)

namespace Machine

variable {top : Entry packWords} {lower : List (Entry packWords)} {trace : DebugTrace}

theorem stands_of_opens (h : m.Reached (packRules pack) PackTask) (goes : m.verdict? = none)
    (entries : m.stack.entries = top :: lower)
    (opens : trace.OpensIn pack (m.taking top lower) (m.turnOperations (packRules pack)))
    (later : (m.step (packRules pack)).overflowed = false →
      (m.step (packRules pack)).Traces trace lower) :
    ∃ n, m.Runs (packRules pack) (n + 1) ∧
      (∀ k ≤ n, (m.after (packRules pack) (k + 1)).tracer = some (.opened trace.index)) ∧
      (∀ k < n, (∃ top rest, (m.after (packRules pack) (k + 1)).stack.entries = top :: rest ∧
          (trace.frame.Inside top.frame ∨ top ∈ trace.calls)) ∧
        ∀ operation ∈ (m.after (packRules pack) (k + 1)).turnOperations (packRules pack),
          operation.Steady) ∧
      trace.Ends pack m lower (n + 1) := by
  obtain ⟨attached, _⟩ := opens.step h.pending entries
  have runs {n : Nat} (further : (m.step (packRules pack)).Runs (packRules pack) n) :
      m.Runs (packRules pack) (n + 1) := (runs_succ_iff _ n m).mpr ⟨goes, further⟩
  cases room : (m.step (packRules pack)).overflowed with
  | true =>
    refine ⟨0, runs (runs_zero _ _), fun k le => ?_, fun _ less => absurd less (Nat.not_lt_zero _),
      .inr ?_⟩
    · rw [Nat.le_zero.mp le]
      exact attached
    · show ∃ error, (m.step (packRules pack)).verdict? = some (.error error)
      unfold verdict?
      simp [room]
  | false =>
    have reached := h.turn goes
    obtain ⟨n, before, stands, busy, last⟩ := (later room).stands reached
    refine ⟨n, runs before, fun k le => (stands k le).attached, fun k less => ?_,
      last.imp_left fun ⟨closes, further⟩ => ⟨runs further, closes⟩⟩
    obtain ⟨inside, steady, _⟩ := (stands k (Nat.le_of_lt less)).step
      (reached.after (before.mono (Nat.le_of_lt less))) (busy k less)
    exact ⟨inside, steady⟩

theorem Tracked.stands {since first : Nat} {start : Machine packWords}
    (tracked : start.Tracked since) (reached : start.Reached (packRules pack) PackTask)
    (runs : start.Runs (packRules pack) (first + 1)) {tracer : TracerId}
    (attaches : .attach tracer ∈
      (start.after (packRules pack) first).turnOperations (packRules pack)) :
    ∃ (trace : DebugTrace) (lower : List (Entry packWords)) (last : Nat),
      tracer = .opened trace.index ∧ trace.Stands pack start lower first last ∧
      trace.Ends pack start lower last := by
  obtain ⟨before, goes⟩ := (runs_succ_last_iff _ first start).mp runs
  have here := reached.after before
  obtain ⟨trace, same, issuer, sources, chain, flags, topLevel, target, lower, entries, debugs,
    resolves, opens, later⟩ := (tracked.after reached before).attaches here goes attaches
  obtain ⟨n, further, attached, between, ending⟩ := stands_of_opens here goes entries opens later
  obtain ⟨_, old, known, _⟩ := opens.step here.pending entries
  have shift (k : Nat) : start.after (packRules pack) (first + k) =
    (start.after (packRules pack) first).after (packRules pack) k := after_add _ first k start
  have continues {k : Nat}
      (runs : (start.after (packRules pack) first).Runs (packRules pack) k) :
      start.Runs (packRules pack) (first + k) := (runs_add_iff _ first k start).mpr ⟨before, runs⟩
  have middle {k : Nat} (late : first < k) (early : k < first + (n + 1)) :
      ∃ i < n, k = first + (i + 1) := ⟨k - (first + 1), by omega, by omega⟩
  refine ⟨trace, lower, first + (n + 1), same, ?_, ?_⟩
  · refine {
      later := by omega
      runs := continues further
      line := ⟨issuer, sources, chain, flags, topLevel, target, entries, debugs, resolves⟩
      free := opens.free
      fresh := ⟨old, after_succ (packRules pack) first start ▸ known⟩
      attaches := ?_
      attached := fun k late early => ?_
      inside := fun k late early => ?_
      kept := fun k late early => ?_ }
    · obtain ⟨earlier, after, split, quiet, mild, _⟩ := opens.split
      refine ⟨earlier ++ [.update (World.add (.traceOpened trace.index))],
        trace.functions.flatMap trace.tracing ++ [.queue trace.closing] ++ after, ?_, ?_⟩
      · rw [split]
        simp [DebugTrace.opening]
      · intro operation member
        simp only [List.mem_append, List.mem_singleton] at member
        obtain (member | rfl) | (member | rfl) | member := member
        · exact (quiet operation member).2.keeps
        · exact ⟨(fun same => by cases same), fun _ same => by cases same⟩
        · exact (trace.steady_tracing operation member).1.keeps
        · exact ⟨(fun same => by cases same), fun _ same => by cases same⟩
        · exact (mild operation member).steady.keeps
    · obtain ⟨i, rfl⟩ := Nat.exists_eq_add_of_lt late
      rw [Nat.add_assoc, shift]
      exact attached i (by omega)
    · obtain ⟨i, less, rfl⟩ := middle late early
      rw [shift]
      exact (between i less).1
    · obtain ⟨i, less, rfl⟩ := middle late early
      rw [shift]
      exact fun operation member => ((between i less).2 operation member).keeps
  · unfold DebugTrace.Ends
    rw [Nat.add_assoc, shift]
    exact ending.imp_left fun ends => ⟨continues ends.1, ends.2⟩

theorem Tracked.items {since first last : Nat} {start : Machine packWords}
    (tracked : start.Tracked since) (reached : start.Reached (packRules pack) PackTask)
    (stands : trace.Stands pack start lower first last) (ends : trace.Ends pack start lower last)
    {k : Nat} (runs : start.Runs (packRules pack) (k + 1)) {item : PrintItem}
    (told : .traced (.opened trace.index) item ∈
      (start.after (packRules pack) k).turnRecords (packRules pack)) :
    (k = first ∧ ∃ message, item = .event (.error message)) ∨
      (first < k ∧ k < last ∧ ∃ event, item = .event event) ∨ (k = last ∧ item = .flush) := by
  obtain ⟨before, goes⟩ := (runs_succ_last_iff _ k start).mp runs
  have here := reached.after before
  have turn := ((tracked.after reached before).turn here goes).1
  obtain early | rfl | late := Nat.lt_trichotomy k first
  · have known := ((tracked.after reached before).told here goes told).2
    rw [← after_succ] at known
    have more := tracked.traces_le reached early (stands.runs.mono (Nat.le_of_lt stands.later))
    exact absurd (Nat.le_trans more stands.fresh.1) (Nat.not_le_of_lt known)
  · obtain attached | ⟨_, message, _, _, _, same⟩ := turn.about here goes told
    · cases attached.symm.trans stands.free
    · exact .inl ⟨rfl, message, same⟩
  have ended : start.Runs (packRules pack) (last + 1) →
      (start.after (packRules pack) last).stack.entries = trace.closing :: lower := by
    intro runs
    obtain ⟨_, entries⟩ | ⟨error, stopped⟩ := ends
    · exact entries
    · cases stopped.symm.trans (runs last (Nat.lt_succ_self last))
  obtain less | rfl | more := Nat.lt_trichotomy k last
  · refine .inr (.inl ⟨late, less, ?_⟩)
    obtain event | ⟨_, other, rest, closing⟩ := turn.items here goes told
    · exact event
    · have detaches := (closing_step pack closing here.pending).1
      refine absurd rfl (stands.kept k late less .detach ?_).1
      rw [detaches]
      exact List.mem_cons_self
  · obtain ⟨_, _, _, adds⟩ := closing_step pack (ended runs) here.pending
    rw [turnRecords_eq adds, List.mem_singleton] at told
    cases told
    exact .inr (.inr ⟨rfl, rfl⟩)
  · -- Once the tracer is off, traces that are opened have larger numbers.
    have past : start.Runs (packRules pack) (last + 1) := runs.mono (by omega)
    have before : start.Runs (packRules pack) last := stands.runs
    have detached := (closing_step pack (ended past) (reached.after before).pending).2.1
    rw [← after_succ] at detached
    have anew := Tracked.free ((tracked.after reached past).untraced detached) (Nat.le_refl _)
    obtain ⟨i, rfl⟩ : ∃ i, k = last + 1 + i := Nat.exists_eq_add_of_le more
    have onward := ((runs_add_iff _ (last + 1) (i + 1) start).mp runs).2
    have afresh := anew.after (reached.after past) (onward.mono (Nat.le_succ i))
    rw [← after_add] at afresh
    have larger := (afresh.told here goes told).1
    have known := tracked.traces_le reached (Nat.succ_le_succ (Nat.le_of_lt stands.later)) past
    exact absurd (Nat.le_trans known larger) (Nat.not_le_of_lt stands.fresh.2)

end Machine

/-- In all the run nothing is traced but turns in between, and errors of the line itself. -/
def DebugTrace.Hears (trace : DebugTrace) (pack : Pack) (start : Machine packWords)
    (first last : Nat) : Prop :=
  ∀ k event, start.Runs (packRules pack) (k + 1) →
    .traced (.opened trace.index) (.event event) ∈
      (start.after (packRules pack) k).turnEffects (packRules pack) →
    first < k ∧ k < last ∨ k = first ∧ ∃ message, event = .error message

def DebugTrace.flushes (trace : DebugTrace) (start m : Machine packWords) : Nat :=
  (m.setting.effectsSince start.setting.journal.size).countP
    (· = .traced (.opened trace.index) .flush)

/-- In turn `last` the trace's tracer is taken off. It is told to flush then, and at no other
time; and what waited below the line comes to the top. -/
structure DebugTrace.Closes (trace : DebugTrace) (pack : Pack) (start : Machine packWords)
    (lower : List (Entry packWords)) (last : Nat) : Prop where
  runs : start.Runs (packRules pack) (last + 1)
  detaches : (start.after (packRules pack) last).turnOperations (packRules pack) = [.detach,
    .update (World.add (.traced (.opened trace.index) .flush)),
    .update (trace.source.persona.sendSuccess trace.summary)]
  free : (start.after (packRules pack) (last + 1)).tracer = none
  entries : (start.after (packRules pack) (last + 1)).stack.entries = lower
  flushes : ∀ k, start.Runs (packRules pack) k →
    trace.flushes start (start.after (packRules pack) k) = if last < k then 1 else 0

structure DebugTrace.Stops (trace : DebugTrace) (pack : Pack) (start : Machine packWords)
    (last : Nat) : Prop where
  limit : ∃ error, (start.after (packRules pack) last).verdict? = some (.error error)
  flushes : ∀ k, start.Runs (packRules pack) k →
    trace.flushes start (start.after (packRules pack) k) = 0

namespace Machine

variable {top : Entry packWords} {lower : List (Entry packWords)} {trace : DebugTrace}
  {since first last : Nat} {start : Machine packWords}

theorem Tracked.hears (tracked : start.Tracked since)
    (reached : start.Reached (packRules pack) PackTask)
    (stands : trace.Stands pack start lower first last) (ends : trace.Ends pack start lower last) :
    trace.Hears pack start first last := by
  intro k event runs told
  obtain ⟨same, _, error⟩ | ⟨late, early, _⟩ | ⟨_, flush⟩ := tracked.items reached stands ends runs
    (List.mem_filter.mpr ⟨told, rfl⟩)
  · cases error
    exact .inr ⟨same, _, rfl⟩
  · exact .inl ⟨late, early⟩
  · cases flush

theorem Tracked.flushes_succ (tracked : start.Tracked since)
    (reached : start.Reached (packRules pack) PackTask) {k : Nat}
    (runs : start.Runs (packRules pack) (k + 1)) :
    trace.flushes start (start.after (packRules pack) (k + 1)) =
      trace.flushes start (start.after (packRules pack) k) +
        ((start.after (packRules pack) k).turnRecords (packRules pack)).countP
          (· = .traced (.opened trace.index) .flush) := by
  obtain ⟨before, goes⟩ := (runs_succ_last_iff _ k start).mp runs
  obtain ⟨_, early⟩ := tracked.adds reached before
  obtain ⟨_, late⟩ := ((tracked.after reached before).turn (reached.after before) goes).1.adds
    (reached.after before) goes
  unfold DebugTrace.flushes turnRecords turnEffects
  rw [after_succ, early.effectsSince_append late, List.countP_append, List.countP_filter]
  congr 1
  refine List.countP_congr fun effect _ => ?_
  simp only [decide_eq_true_eq, Bool.and_eq_true]
  constructor
  · rintro rfl
    exact ⟨rfl, rfl⟩
  · exact And.left

theorem Tracked.flushes_early (tracked : start.Tracked since)
    (reached : start.Reached (packRules pack) PackTask)
    (stands : trace.Stands pack start lower first last) (ends : trace.Ends pack start lower last)
    {k : Nat} (runs : start.Runs (packRules pack) (k + 1)) (other : k ≠ last) :
    trace.flushes start (start.after (packRules pack) (k + 1)) =
      trace.flushes start (start.after (packRules pack) k) := by
  rw [tracked.flushes_succ reached runs, Nat.add_eq_left, List.countP_eq_zero]
  intro effect told same
  obtain rfl := of_decide_eq_true same
  obtain ⟨_, _, event⟩ | ⟨_, _, _, event⟩ | ⟨same, _⟩ :=
    tracked.items reached stands ends runs told
  · cases event
  · cases event
  · exact other same

theorem flushes_zero (trace : DebugTrace) (start : Machine packWords) :
    trace.flushes start start = 0 := by
  unfold DebugTrace.flushes
  rw [World.effectsSince_self]
  rfl

/-- A trace that stands closes, or a limit stops the run before. -/
theorem Tracked.closes_or_stops (tracked : start.Tracked since)
    (reached : start.Reached (packRules pack) PackTask)
    (stands : trace.Stands pack start lower first last) (ends : trace.Ends pack start lower last) :
    (start.after (packRules pack) last).stack.entries = trace.closing :: lower ∧
        trace.Closes pack start lower last ∨
      trace.Stops pack start last := by
  have other {k : Nat} := tracked.flushes_early (k := k) reached stands ends
  obtain ⟨runs, entries⟩ | ⟨error, stopped⟩ := id ends
  · obtain ⟨operations, detached, left, adds⟩ :=
      closing_step pack entries (reached.after stands.runs).pending
    refine .inl ⟨entries, ⟨runs, operations, ?_, ?_, fun k further => ?_⟩⟩
    · rwa [after_succ]
    · rwa [after_succ]
    · induction k with
      | zero => exact flushes_zero trace start
      | succ k ih =>
        have before := ih (further.mono (Nat.le_succ k))
        by_cases same : k = last
        · subst same
          rw [tracked.flushes_succ reached further, before, turnRecords_eq adds]
          simp
        · rw [other further same, before]
          have : last < k + 1 ↔ last < k := by omega
          simp only [this]
  · refine .inr ⟨⟨error, stopped⟩, fun k runs => ?_⟩
    induction k with
    | zero => exact flushes_zero trace start
    | succ k ih =>
      rw [other runs ?_, ih (runs.mono (Nat.le_succ k))]
      rintro rfl
      cases stopped.symm.trans (runs k (Nat.lt_succ_self k))

theorem Tracked.free_of_done {m : Machine packWords} (h : m.Tracked since)
    (done : m.verdict? = some (.ok ())) : m.tracer = none := by
  obtain ⟨room, empty⟩ := (verdict?_eq_ok_iff m).mp done
  cases h with
  | free free => exact free.free
  | traced traces =>
    obtain ⟨inner, waiting, entries, _⟩ := traces.waits
    have waits := entries.symm.trans empty
    simp at waits
  | full _ _ _ overflowed => cases room.symm.trans overflowed

end Machine

/-- In a run that begins without a tracer, whenever one is attached a debug command has opened a
trace. Until its end comes to the top nothing else attaches a tracer or takes one off, and only what
the traced calls lead to has its turn. The end takes this tracer off; it is told to flush then, and
only then. If a limit stops the run before, it never is. So when the work is done no tracer is
attached. A tracer that is attached when the run begins stays. -/
theorem debug_traces_close (pack : Pack) (request : RunRequest)
    (functions : List (BoundFunction packWords)) (w : World) (start : Machine packWords)
    (begins : start = request.opening functions w) :
    (request.traced = false →
      (∀ n, start.Runs (packRules pack) n →
        (start.after (packRules pack) n).verdict? = some (.ok ()) →
        (start.after (packRules pack) n).tracer = none) ∧
      ∀ first tracer, start.Runs (packRules pack) (first + 1) →
        .attach tracer ∈ (start.after (packRules pack) first).turnOperations (packRules pack) →
        ∃ (trace : DebugTrace) (lower : List (Entry packWords)) (last : Nat),
          tracer = .opened trace.index ∧ trace.Stands pack start lower first last ∧
          trace.Hears pack start first last ∧
          ((start.after (packRules pack) last).stack.entries = trace.closing :: lower ∧
              trace.Closes pack start lower last ∨
            trace.Stops pack start last)) ∧
    (request.traced = true → ∀ n, start.Runs (packRules pack) n →
      (start.after (packRules pack) n).tracer = some .given ∧
      ∀ operation ∈ (start.after (packRules pack) n).turnOperations (packRules pack),
        operation ≠ .detach ∧ ∀ tracer, operation ≠ .attach tracer) := by
  subst begins
  have reached := request.opening_reached functions w pack
  refine ⟨fun untraced => ?_, fun traced n runs => ?_⟩
  · have tracked := request.opening_tracked functions w untraced
    refine ⟨fun n runs done => (tracked.after reached runs).free_of_done done,
      fun first tracer runs attaches => ?_⟩
    obtain ⟨trace, lower, last, same, stands, ends⟩ := tracked.stands reached runs attaches
    exact ⟨trace, lower, last, same, stands, tracked.hears reached stands ends,
      tracked.closes_or_stops reached stands ends⟩
  · obtain ⟨attached, _, quiet⟩ := attached_after reached
      (request.opening_attached functions w traced) (request.opening_steady functions w) runs
    exact ⟨attached, fun operation member => (quiet operation member).keeps⟩

def tracingPack : Pack where
  functions :=
    [(⟨"minecraft", "f", .refl true, .refl true⟩, { lines := [
        .obj [("run", .arr [.str "Debug", .str "g"])],
        .obj [("run", .arr [.str "Value", .num (.int 1)])]] }),
     (⟨"minecraft", "g", .refl true, .refl true⟩, { lines := [
        .obj [("run", .arr [.str "Return", .num (.int 7)])],
        .obj [("run", .arr [.str "Value", .num (.int 2)])]] })]

def tracingRun (traced : Bool) : Machine packWords :=
  let request : RunRequest := { target := "f", traced := traced }
  request.opening ((request.functions tracingPack).toOption.getD []) {}

theorem tracingRun_runs : (tracingRun false).Runs (packRules tracingPack) 7 := by
  simp only [runs_succ_iff]
  exact ⟨rfl, rfl, rfl, rfl, rfl, rfl, rfl, runs_zero _ _⟩

/-- The early return does not keep the trace from being closed. -/
theorem debug_traces_close_early :
    (∃ (trace : DebugTrace) (lower : List (Entry packWords)) (last : Nat), trace.index = 0 ∧
      trace.Stands tracingPack (tracingRun false) lower 1 last ∧
      trace.Closes tracingPack (tracingRun false) lower last) ∧
    ((tracingRun true).after (packRules tracingPack) 2).tracer = some .given := by
  obtain ⟨closes, _⟩ := debug_traces_close tracingPack { target := "f", traced := false } _ {}
    (tracingRun false) rfl
  obtain ⟨_, stays⟩ := debug_traces_close tracingPack { target := "f", traced := true } _ {}
    (tracingRun true) rfl
  have traced : (tracingRun true).Runs (packRules tracingPack) 2 := by
    simp only [runs_succ_iff]
    exact ⟨rfl, rfl, runs_zero _ _⟩
  refine ⟨?_, (stays rfl 2 traced).1⟩
  have attaches : Operation.attach (V := packWords) (.opened 0) ∈
      ((tracingRun false).after (packRules tracingPack) 1).turnOperations
        (packRules tracingPack) := .tail _ (.tail _ (.head _))
  obtain ⟨trace, lower, last, same, stands, _, ⟨_, ends⟩ | stops⟩ :=
    (closes rfl).2 1 _ (tracingRun_runs.mono (by decide)) attaches
  · exact ⟨trace, lower, last, by cases trace; cases same; rfl, stands, ends⟩
  · have never := stops.flushes 7 tracingRun_runs
    cases trace
    cases same
    cases never

end PackEngine
