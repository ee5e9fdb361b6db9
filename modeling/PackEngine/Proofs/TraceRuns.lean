import PackEngine.Proofs.TraceEpisodes

/-! Runs with traces. -/
namespace PackEngine

open Machine

variable {pack : Pack} {m : Machine packWords}

namespace Machine

/-- A run that begins without a tracer: none is attached, or that of a trace which was opened since
`first` traces had been. -/
inductive Tracked (first : Nat) (m : Machine packWords) : Prop where
  | free (free : m.Untraced) (since : first ≤ m.setting.traces)
  | traced {trace : DebugTrace} {lower : List (Entry packWords)} (traces : m.Traces trace lower)
      (since : first ≤ trace.index) (known : trace.index < m.setting.traces)
  | full {index : Nat} (attached : m.tracer = some (.opened index)) (since : first ≤ index)
      (known : index < m.setting.traces) (overflowed : m.overflowed = true)

variable {first : Nat}

theorem Tracked.index (h : m.Tracked first) {tracer : TracerId}
    (attached : m.tracer = some tracer) :
    ∃ index, tracer = .opened index ∧ first ≤ index ∧ index < m.setting.traces := by
  cases h with
  | free free => cases free.free.symm.trans attached
  | traced traces since known =>
    cases traces.attached.symm.trans attached
    exact ⟨_, rfl, since, known⟩
  | full found since known =>
    cases found.symm.trans attached
    exact ⟨_, rfl, since, known⟩

theorem Tracked.since (h : m.Tracked first) : first ≤ m.setting.traces := by
  cases h with
  | free _ since => exact since
  | traced _ since known => exact Nat.le_trans since (Nat.le_of_lt known)
  | full _ since known => exact Nat.le_trans since (Nat.le_of_lt known)

theorem Tracked.untraced (h : m.Tracked first) (free : m.tracer = none) : m.Untraced := by
  cases h with
  | free untraced => exact untraced
  | traced traces => cases traces.attached.symm.trans free
  | full attached => cases attached.symm.trans free

inductive TraceTurn (pack : Pack) (m : Machine packWords) : Prop where
  | steady (steady : ∀ operation ∈ m.turnOperations (packRules pack), operation.Steady)
  | opens {top : Entry packWords} {lower : List (Entry packWords)} {trace : DebugTrace}
      (entries : m.stack.entries = top :: lower)
      (opens : trace.OpensIn pack (m.taking top lower) (m.turnOperations (packRules pack)))
  | closes {trace : DebugTrace} {lower : List (Entry packWords)} (traces : m.Traces trace lower)
      (entries : m.stack.entries = trace.closing :: lower)

theorem Tracked.turn (h : m.Tracked first) (reached : m.Reached (packRules pack) PackTask)
    (goes : m.verdict? = none) :
    m.TraceTurn pack ∧ (m.step (packRules pack)).Tracked first := by
  obtain ⟨fine, ⟨top, lower, entries⟩, _⟩ := (verdict?_eq_none_iff m).mp goes
  cases h with
  | free free since =>
    obtain ⟨steady, later⟩ | ⟨_, _, _, _, _, _, _, _, trace, _, _, opens, later⟩ :=
      free.step reached entries
    · exact ⟨.steady steady,
        .free later (Nat.le_trans since (steady_step entries steady).2.traces)⟩
    · obtain ⟨attached, old, known, _⟩ := opens.step reached.pending entries
      refine ⟨.opens entries opens, ?_⟩
      cases room : (m.step (packRules pack)).overflowed with
      | true => exact .full attached (Nat.le_trans since old) known room
      | false => exact .traced (later room) (Nat.le_trans since old) known
  | @traced trace below traces since known =>
    by_cases ends : m.stack.entries = trace.closing :: below
    · obtain ⟨_, detached, left, told⟩ := closing_step pack ends reached.pending
      exact ⟨.closes traces ends,
        .free ⟨detached, fun entry member => traces.below entry (left ▸ member)⟩
          (Nat.le_trans since (Nat.le_trans (Nat.le_of_lt known) told.traces))⟩
    · obtain ⟨_, steady, later⟩ := traces.step reached ends
      exact ⟨.steady steady, .traced later since
        (Nat.lt_of_lt_of_le known (steady_step entries steady).2.traces)⟩
  | full attached since known overflowed => cases fine.symm.trans overflowed

theorem Tracked.after (h : m.Tracked first) (reached : m.Reached (packRules pack) PackTask)
    {n : Nat} (runs : m.Runs (packRules pack) n) : (m.after (packRules pack) n).Tracked first := by
  induction n with
  | zero => exact h
  | succ n ih =>
    obtain ⟨before, goes⟩ := (runs_succ_last_iff _ n m).mp runs
    rw [after_succ]
    exact ((ih before).turn (reached.after before) goes).2

def turnRecords (rules : Rules packWords) (m : Machine packWords) : List Effect :=
  (m.turnEffects rules).filter Effect.isRecord

theorem turnRecords_eq {records : List Effect}
    (adds : m.setting.Adds records (m.step (packRules pack)).setting) :
    m.turnRecords (packRules pack) = records := adds.filter_effectsSince

theorem TraceTurn.about (h : m.TraceTurn pack) (reached : m.Reached (packRules pack) PackTask)
    (goes : m.verdict? = none) {tracer : TracerId} {item : PrintItem}
    (told : .traced tracer item ∈ m.turnRecords (packRules pack)) :
    m.tracer = some tracer ∨
      ∃ index message, tracer = .opened index ∧ m.setting.traces ≤ index ∧
        index < (m.step (packRules pack)).setting.traces ∧ item = .event (.error message) := by
  obtain ⟨_, ⟨top, lower, entries⟩, _⟩ := (verdict?_eq_none_iff m).mp goes
  cases h with
  | steady steady =>
    rw [turnRecords_eq (steady_step entries steady).2] at told
    obtain ⟨operation, _, told⟩ := List.mem_flatMap.mp told
    exact .inl (operation.tracer_of_records told).1
  | opens found opens =>
    obtain ⟨_, old, known, ⟨records, adds, errors⟩, _⟩ := opens.step reached.pending found
    rw [turnRecords_eq adds] at told
    obtain ⟨_, _, _, same⟩ | ⟨message, same⟩ := errors _ told
    · cases same
    · cases same
      exact .inr ⟨_, message, rfl, old, known, rfl⟩
  | closes traces found =>
    obtain ⟨_, _, _, adds⟩ := closing_step pack found reached.pending
    rw [turnRecords_eq adds, List.mem_singleton] at told
    cases told
    exact .inl traces.attached

theorem TraceTurn.items (h : m.TraceTurn pack) (reached : m.Reached (packRules pack) PackTask)
    (goes : m.verdict? = none) {tracer : TracerId} {item : PrintItem}
    (told : .traced tracer item ∈ m.turnRecords (packRules pack)) :
    (∃ event, item = .event event) ∨ item = .flush ∧
      ∃ (trace : DebugTrace) (lower : List (Entry packWords)),
        m.stack.entries = trace.closing :: lower := by
  obtain ⟨_, ⟨top, lower, entries⟩, _⟩ := (verdict?_eq_none_iff m).mp goes
  cases h with
  | steady steady =>
    rw [turnRecords_eq (steady_step entries steady).2] at told
    obtain ⟨operation, _, told⟩ := List.mem_flatMap.mp told
    exact .inl (operation.tracer_of_records told).2
  | opens found opens =>
    obtain ⟨_, _, _, ⟨records, adds, errors⟩, _⟩ := opens.step reached.pending found
    rw [turnRecords_eq adds] at told
    obtain ⟨_, _, _, same⟩ | ⟨_, same⟩ := errors _ told
    · cases same
    · cases same
      exact .inl ⟨_, rfl⟩
  | @closes trace below traces found =>
    obtain ⟨_, _, _, adds⟩ := closing_step pack found reached.pending
    rw [turnRecords_eq adds, List.mem_singleton] at told
    cases told
    exact .inr ⟨rfl, trace, below, found⟩

theorem Traces.stands {trace : DebugTrace} {lower : List (Entry packWords)}
    (h : m.Reached (packRules pack) PackTask) (traces : m.Traces trace lower) :
    ∃ n, m.Runs (packRules pack) n ∧
      (∀ k ≤ n, (m.after (packRules pack) k).Traces trace lower) ∧
      (∀ k < n, (m.after (packRules pack) k).stack.entries ≠ trace.closing :: lower) ∧
      ((m.after (packRules pack) n).stack.entries = trace.closing :: lower ∧
          m.Runs (packRules pack) (n + 1) ∨
        ∃ error, (m.after (packRules pack) n).verdict? = some (.error error)) := by
  obtain ⟨turns, verdict, runs, ends⟩ := h.last_verdict
  induction turns generalizing m with
  | zero =>
    refine ⟨0, runs, fun k le => ?_, fun _ less => absurd less (Nat.not_lt_zero _), .inr ?_⟩
    · rw [Nat.le_zero.mp le]
      exact traces
    · cases verdict with
      | error error => exact ⟨error, ends⟩
      | ok done =>
        obtain ⟨inner, waiting, entries, _⟩ := traces.waits
        have empty := entries.symm.trans ((verdict?_eq_ok_iff m).mp ends).2
        simp at empty
  | succ turns ih =>
    obtain ⟨goes, further⟩ := (runs_succ_iff _ turns m).mp runs
    by_cases closes : m.stack.entries = trace.closing :: lower
    · refine ⟨0, runs_zero _ m, fun k le => ?_, fun _ less => absurd less (Nat.not_lt_zero _),
        .inl ⟨closes, (runs_succ_iff _ 0 m).mpr ⟨goes, runs_zero _ _⟩⟩⟩
      rw [Nat.le_zero.mp le]
      exact traces
    · obtain ⟨n, before, stands, busy, last⟩ :=
        ih (.turn h goes) (traces.step h closes).2.2 further ends
      refine ⟨n + 1, (runs_succ_iff _ n m).mpr ⟨goes, before⟩, fun k le => ?_, fun k less => ?_,
        last.imp_left fun ⟨closes, later⟩ =>
          ⟨closes, (runs_succ_iff _ (n + 1) m).mpr ⟨goes, later⟩⟩⟩
      · cases k with
        | zero => exact traces
        | succ k => exact stands k (Nat.le_of_succ_le_succ le)
      · cases k with
        | zero => exact closes
        | succ k => exact busy k (Nat.lt_of_succ_lt_succ less)

theorem attached_after {tracer : TracerId} (h : m.Reached (packRules pack) PackTask)
    (attached : m.tracer = some tracer) (steady : ∀ entry ∈ m.stack.entries, entry.task.Steady)
    {n : Nat} (runs : m.Runs (packRules pack) n) :
    (m.after (packRules pack) n).tracer = some tracer ∧
      (∀ entry ∈ (m.after (packRules pack) n).stack.entries, entry.task.Steady) ∧
      ∀ operation ∈ (m.after (packRules pack) n).turnOperations (packRules pack),
        operation.Steady := by
  have turn {m : Machine packWords} (h : m.Reached (packRules pack) PackTask)
      (attached : m.tracer = some tracer)
      (steady : ∀ entry ∈ m.stack.entries, entry.task.Steady) :
      ∀ operation ∈ m.turnOperations (packRules pack), operation.Steady := by
    cases entries : m.stack.entries with
    | nil =>
      intro operation member
      unfold turnOperations at member
      rw [entries] at member
      cases member
    | cons top rest =>
      obtain steady | ⟨_, _, _, _, _, _, _, _, _, _, _, opens⟩ :=
        h.steady_turn entries (steady top (entries ▸ List.mem_cons_self))
      · exact steady
      · cases attached.symm.trans opens.free
  induction n generalizing m with
  | zero => exact ⟨attached, steady, turn h attached steady⟩
  | succ n ih =>
    obtain ⟨goes, further⟩ := (runs_succ_iff _ n m).mp runs
    obtain ⟨_, ⟨top, rest, entries⟩, _⟩ := (verdict?_eq_none_iff m).mp goes
    have works := turn h attached steady
    refine ih (.turn h goes) ((steady_step entries works).1.trans attached)
      (fun entry member => ?_) further
    exact (steady_of_mem_step h.pending entries works member).elim
      (fun kept => steady entry (entries ▸ List.mem_cons_of_mem top kept)) id

theorem TraceTurn.adds (h : m.TraceTurn pack) (reached : m.Reached (packRules pack) PackTask)
    (goes : m.verdict? = none) :
    ∃ records, m.setting.Adds records (m.step (packRules pack)).setting := by
  obtain ⟨_, ⟨top, lower, entries⟩, _⟩ := (verdict?_eq_none_iff m).mp goes
  cases h with
  | steady steady => exact ⟨_, (steady_step entries steady).2⟩
  | opens found opens =>
    obtain ⟨_, _, _, ⟨records, adds, _⟩, _⟩ := opens.step reached.pending found
    exact ⟨records, adds⟩
  | closes traces found =>
    obtain ⟨_, _, _, adds⟩ := closing_step pack found reached.pending
    exact ⟨_, adds⟩

theorem Tracked.adds (h : m.Tracked first) (reached : m.Reached (packRules pack) PackTask) {n : Nat}
    (runs : m.Runs (packRules pack) n) :
    ∃ records, m.setting.Adds records (m.after (packRules pack) n).setting := by
  induction n with
  | zero => exact ⟨[], .refl _⟩
  | succ n ih =>
    obtain ⟨before, goes⟩ := (runs_succ_last_iff _ n m).mp runs
    obtain ⟨records, early⟩ := ih before
    obtain ⟨others, late⟩ :=
      ((h.after reached before).turn (reached.after before) goes).1.adds (reached.after before) goes
    rw [after_succ]
    exact ⟨_, early.trans late⟩

theorem Tracked.traces_le (h : m.Tracked first) (reached : m.Reached (packRules pack) PackTask)
    {i j : Nat} (le : i ≤ j) (runs : m.Runs (packRules pack) j) :
    (m.after (packRules pack) i).setting.traces ≤ (m.after (packRules pack) j).setting.traces := by
  obtain ⟨more, rfl⟩ := Nat.exists_eq_add_of_le le
  obtain ⟨before, later⟩ := (runs_add_iff _ i more m).mp runs
  obtain ⟨records, adds⟩ := (h.after reached before).adds (reached.after before) later
  rw [after_add]
  exact adds.traces

theorem Tracked.told (h : m.Tracked first) (reached : m.Reached (packRules pack) PackTask)
    (goes : m.verdict? = none) {index : Nat} {item : PrintItem}
    (told : .traced (.opened index) item ∈ m.turnRecords (packRules pack)) :
    first ≤ index ∧ index < (m.step (packRules pack)).setting.traces := by
  have turn := (h.turn reached goes).1
  obtain attached | ⟨_, _, same, old, known, _⟩ := turn.about reached goes told
  · obtain ⟨_, same, since, known⟩ := h.index attached
    obtain ⟨records, adds⟩ := turn.adds reached goes
    cases same
    exact ⟨since, Nat.lt_of_lt_of_le known adds.traces⟩
  · cases same
    exact ⟨Nat.le_trans h.since old, known⟩

/-- Where a tracer is attached, there was none; and a debug command has opened its trace. -/
theorem Tracked.attaches (h : m.Tracked first) (reached : m.Reached (packRules pack) PackTask)
    (goes : m.verdict? = none) {tracer : TracerId}
    (attaches : .attach tracer ∈ m.turnOperations (packRules pack)) :
    ∃ trace : DebugTrace, tracer = .opened trace.index ∧
      ∃ issuer sources chain flags topLevel target lower,
        m.stack.entries = ⟨trace.frame, .line issuer sources chain flags topLevel⟩ :: lower ∧
        chain.executable = .action (.debug target) ∧
        pack.library.resolve target = .ok trace.functions ∧
        trace.OpensIn pack
          (m.taking ⟨trace.frame, .line issuer sources chain flags topLevel⟩ lower)
          (m.turnOperations (packRules pack)) ∧
        ((m.step (packRules pack)).overflowed = false →
          (m.step (packRules pack)).Traces trace lower) := by
  have free : m.tracer = none := by
    cases (h.turn reached goes).1 with
    | steady steady => exact (steady _ attaches).elim
    | opens entries opens => exact opens.free
    | closes traces entries =>
      rw [(closing_step pack entries reached.pending).1] at attaches
      simp at attaches
  obtain ⟨_, ⟨top, lower, entries⟩, _⟩ := (verdict?_eq_none_iff m).mp goes
  obtain ⟨steady, _⟩ | ⟨issuer, sources, chain, flags, topLevel, target, line, debugs, trace, same,
    resolves, opens, later⟩ := (h.untraced free).step reached entries
  · exact (steady _ attaches).elim
  · obtain ⟨frame, task⟩ := top
    cases line
    cases same
    refine ⟨trace, ?_, issuer, sources, chain, flags, topLevel, target, lower, entries, debugs,
      resolves, opens, later⟩
    obtain ⟨before, after, split, early, late, _⟩ := opens.split
    rw [split] at attaches
    simp only [List.mem_append] at attaches
    obtain (attaches | attaches) | attaches := attaches
    · exact (early _ attaches).2.elim
    · obtain same | same | traced | same := trace.mem_opening attaches
      · cases same
      · cases same
        rfl
      · exact (trace.steady_tracing _ traced).1.elim
      · cases same
    · exact (late _ attaches).steady.elim

end Machine

namespace RunRequest

variable {pack : Pack} (request : RunRequest) (functions : List (BoundFunction packWords))
  (w : World)

theorem opening_steady :
    ∀ entry ∈ (request.opening functions w).stack.entries, entry.task.Steady := by
  intro entry member
  obtain ⟨_, _, _, _, rfl⟩ := request.opening_calls functions w member
  trivial

theorem opening_attached (traced : request.traced = true) :
    (request.opening functions w).tracer = some .given := by
  rw [(request.opening_start functions w).2.1, traced]
  rfl

theorem opening_tracked (untraced : request.traced = false) :
    (request.opening functions w).Tracked (request.opening functions w).setting.traces := by
  refine .free ⟨?_, request.opening_steady functions w⟩ (Nat.le_refl _)
  rw [(request.opening_start functions w).2.1, untraced]
  rfl

theorem opening_traceTurn {n : Nat}
    (runs : (request.opening functions w).Runs (packRules pack) (n + 1)) :
    ((request.opening functions w).after (packRules pack) n).TraceTurn pack := by
  have reached := request.opening_reached functions w pack
  obtain ⟨before, goes⟩ := (runs_succ_last_iff _ n _).mp runs
  cases traced : request.traced with
  | true =>
    exact .steady (attached_after reached (request.opening_attached functions w traced)
      (request.opening_steady functions w) before).2.2
  | false =>
    exact (((request.opening_tracked functions w traced).after reached before).turn
      (reached.after before) goes).1

end RunRequest

end PackEngine
