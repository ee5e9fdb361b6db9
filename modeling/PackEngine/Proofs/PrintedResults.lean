import PackEngine.Proofs.Completions
import PackEngine.Proofs.TraceRuns
import PackEngine.Proofs.TwinTargets

/-! Printed results. -/
namespace PackEngine

open Machine

variable {pack : Pack} {start m : Machine packWords} {tracer : TracerId}

theorem Operation.told_of_mem_events {operation : Operation packWords} {event : TraceEvent}
    (member : event ∈ operation.events) :
    .traced tracer (.event event) ∈ operation.records (some tracer) := by
  cases operation with
  | trace other =>
    cases List.mem_singleton.mp member
    exact List.mem_singleton.mpr rfl
  | report source error forked =>
    cases List.mem_singleton.mp member
    exact List.mem_append_left _ (List.mem_singleton.mpr rfl)
  | _ => cases member

theorem Operation.mem_events_of_told {operation : Operation packWords} {event : TraceEvent}
    {attached : Option TracerId}
    (told : .traced tracer (.event event) ∈ operation.records attached) :
    event ∈ operation.events := by
  cases operation with
  | trace other =>
    cases (tracer_of_recorded told).2
    exact List.mem_singleton.mpr rfl
  | report source error forked =>
    cases List.mem_append.mp told with
    | inl told =>
      cases (tracer_of_recorded told).2
      exact List.mem_singleton.mpr rfl
    | inr told => cases List.mem_singleton.mp told
  | _ => cases told

theorem Journal.mem_traceItems {item : PrintItem} {effects : List Effect} :
    item ∈ traceItems tracer effects ↔ .traced tracer item ∈ effects := by
  unfold traceItems
  rw [List.mem_filterMap]
  constructor
  · rintro ⟨effect, member, same⟩
    cases effect with
    | traced id other =>
      dsimp only at same
      split at same
      · next own =>
        cases own
        cases same
        exact member
      · cases same
    | _ => cases same
  · exact fun member => ⟨_, member, if_pos rfl⟩

namespace Machine

def items (tracer : TracerId) (start m : Machine packWords) : List PrintItem :=
  Journal.traceItems tracer (m.setting.effectsSince start.setting.journal.size)

def turnItems (tracer : TracerId) (rules : Rules packWords) (m : Machine packWords) :
    List PrintItem := Journal.traceItems tracer (m.turnEffects rules)

theorem TraceTurn.told (h : m.TraceTurn pack) (reached : m.Reached (packRules pack) PackTask)
    {top : Entry packWords} {lower : List (Entry packWords)}
    (entries : m.stack.entries = top :: lower) {event : TraceEvent}
    (told : .event event ∈ m.turnItems tracer (packRules pack)) :
    (m.tracer = some tracer ∧ (m.step (packRules pack)).tracer = some tracer ∧
        event ∈ (m.turnOperations (packRules pack)).flatMap Operation.events) ∨
      ∃ message, event = .error message := by
  have record : .traced tracer (.event event) ∈ m.turnRecords (packRules pack) :=
    List.mem_filter.mpr ⟨Journal.mem_traceItems.mp told, rfl⟩
  cases h with
  | steady steady =>
    obtain ⟨kept, adds⟩ := steady_step entries steady
    rw [turnRecords_eq adds] at record
    obtain ⟨operation, among, record⟩ := List.mem_flatMap.mp record
    have attached := (operation.tracer_of_records record).1
    exact .inl ⟨attached, kept.trans attached,
      List.mem_flatMap.mpr ⟨operation, among, Operation.mem_events_of_told record⟩⟩
  | opens found opens =>
    obtain ⟨_, _, _, ⟨records, adds, errors⟩, _⟩ := opens.step reached.pending found
    rw [turnRecords_eq adds] at record
    obtain ⟨_, _, _, same⟩ | ⟨message, same⟩ := errors _ record
    · cases same
    · cases same
      exact .inr ⟨message, rfl⟩
  | closes traces found =>
    obtain ⟨_, _, _, adds⟩ := closing_step pack found reached.pending
    rw [turnRecords_eq adds, List.mem_singleton] at record
    cases record

theorem TraceTurn.untold (h : m.TraceTurn pack) (reached : m.Reached (packRules pack) PackTask)
    {top : Entry packWords} {lower : List (Entry packWords)}
    (entries : m.stack.entries = top :: lower) (attached : m.tracer = some tracer)
    (untold : m.turnItems tracer (packRules pack) = []) :
    top.task.isCommand = false ∧ top.task.Underway ∧
      (m.step (packRules pack)).tracer = some tracer := by
  have nothing (item : PrintItem) :
      .traced tracer item ∉ m.turnRecords (packRules pack) := by
    intro record
    have told := Journal.mem_traceItems.mpr (List.mem_filter.mp record).1
    change item ∈ m.turnItems tracer (packRules pack) at told
    rw [untold] at told
    cases told
  cases h with
  | steady steady =>
    obtain ⟨kept, adds⟩ := steady_step entries steady
    have silent : (m.turnOperations (packRules pack)).flatMap Operation.events = [] := by
      refine List.eq_nil_iff_forall_not_mem.mpr fun event member => ?_
      obtain ⟨operation, among, member⟩ := List.mem_flatMap.mp member
      refine nothing (.event event) ?_
      rw [turnRecords_eq adds, attached]
      exact List.mem_flatMap.mpr ⟨operation, among, Operation.told_of_mem_events member⟩
    have tells := (Task.tells (packRules pack) top.frame (m.taking top lower) top.task).1
    rw [← turnOperations_of_entries _ entries, silent] at tells
    generalize top.task = task at tells
    cases tells with
    | other command underway only => exact ⟨command, underway, kept.trans attached⟩
  | opens found opens => cases attached.symm.trans opens.free
  | closes traces found =>
    obtain ⟨_, _, _, adds⟩ := closing_step pack found reached.pending
    cases attached.symm.trans traces.attached
    refine (nothing .flush ?_).elim
    rw [turnRecords_eq adds]
    exact List.mem_singleton.mpr rfl

/-- A run that begins in order, and whose turns do with traces what turns of targets do. -/
structure Narrated (pack : Pack) (start : Machine packWords) : Prop where
  reached : start.Reached (packRules pack) PackTask
  tidy : start.Tidy
  turns : ∀ n, start.Runs (packRules pack) (n + 1) →
    (start.after (packRules pack) n).TraceTurn pack

variable {n k : Nat}

theorem items_self (tracer : TracerId) (start : Machine packWords) :
    start.items tracer start = [] := by
  unfold items
  rw [World.effectsSince_self]
  rfl

theorem Narrated.adds (h : start.Narrated pack) (runs : start.Runs (packRules pack) n) :
    ∃ records, start.setting.Adds records (start.after (packRules pack) n).setting := by
  induction n with
  | zero => exact ⟨[], .refl _⟩
  | succ n ih =>
    obtain ⟨before, goes⟩ := (runs_succ_last_iff _ n start).mp runs
    obtain ⟨_, early⟩ := ih before
    obtain ⟨_, late⟩ := (h.turns n runs).adds (h.reached.after before) goes
    rw [after_succ]
    exact ⟨_, early.trans late⟩

theorem Narrated.items_succ (h : start.Narrated pack) (tracer : TracerId)
    (runs : start.Runs (packRules pack) (n + 1)) :
    start.items tracer (start.after (packRules pack) (n + 1)) =
      start.items tracer (start.after (packRules pack) n) ++
        (start.after (packRules pack) n).turnItems tracer (packRules pack) := by
  obtain ⟨before, goes⟩ := (runs_succ_last_iff _ n start).mp runs
  obtain ⟨_, early⟩ := h.adds before
  obtain ⟨_, late⟩ := (h.turns n runs).adds (h.reached.after before) goes
  unfold items turnItems turnEffects Journal.traceItems
  rw [after_succ, early.effectsSince_append late, List.filterMap_append]

theorem Narrated.last_told (h : start.Narrated pack) (runs : start.Runs (packRules pack) n)
    {earlier : List PrintItem} {last : PrintItem}
    (split : start.items tracer (start.after (packRules pack) n) = earlier ++ [last]) :
    ∃ k < n, start.items tracer (start.after (packRules pack) (k + 1)) = earlier ++ [last] ∧
      last ∈ (start.after (packRules pack) k).turnItems tracer (packRules pack) ∧
      ∀ i, k < i → i < n →
        (start.after (packRules pack) i).turnItems tracer (packRules pack) = [] := by
  induction n with
  | zero =>
    have nothing := (start.items_self tracer).symm.trans split
    simp at nothing
  | succ n ih =>
    have before := runs.mono (Nat.le_succ n)
    have grown := h.items_succ tracer runs
    obtain untold | ⟨others, final, told⟩ := List.eq_nil_or_concat
      ((start.after (packRules pack) n).turnItems tracer (packRules pack))
    · rw [untold, List.append_nil] at grown
      obtain ⟨k, less, same, among, silent⟩ := ih before (grown.symm.trans split)
      refine ⟨k, Nat.lt_succ_of_lt less, same, among, fun i late early => ?_⟩
      obtain less | rfl := Nat.lt_succ_iff_lt_or_eq.mp early
      · exact silent i late less
      · exact untold
    · rw [told, List.concat_eq_append, ← List.append_assoc] at grown
      have same := (List.append_inj' (grown.symm.trans split) rfl).2
      cases same
      refine ⟨n, Nat.lt_succ_self n, split, ?_, fun i late early => absurd early (by omega)⟩
      rw [told, List.concat_eq_append]
      exact List.mem_append_right _ List.mem_cons_self

/-- The line that the tracer was told of last is still open: it begins in turn `k`, and nothing else
has been told since. -/
structure LineOpen (pack : Pack) (start : Machine packWords) (tracer : TracerId)
    (told : List PrintItem) (k depth : Nat) (text : String) : Prop where
  last : ∃ earlier, told = earlier ++ [.event (.command depth text)]
  since : start.items tracer (start.after (packRules pack) (k + 1)) = told
  begins : ∃ frame issuer sources chain flags lower,
    (start.after (packRules pack) k).stack.entries =
      ⟨frame, .line issuer sources chain flags true⟩ :: lower ∧
    frame.depth = depth ∧ chain.input = text

theorem Narrated.open_line (h : start.Narrated pack) (runs : start.Runs (packRules pack) (n + 1))
    {earlier : List PrintItem} {depth : Nat} {text : String}
    (split : start.items tracer (start.after (packRules pack) n) =
      earlier ++ [.event (.command depth text)]) :
    ∃ k < n, start.LineOpen pack tracer (earlier ++ [.event (.command depth text)]) k depth text ∧
      ∃ top lower, (start.after (packRules pack) k).stack.entries = top :: lower ∧
        (∀ entry ∈ lower, ¬entry.task.IsLeaf) ∧ start.Between pack k lower n := by
  obtain ⟨k, less, since, told, silent⟩ := h.last_told (runs.mono (Nat.le_succ n)) split
  have upTo {i : Nat} (le : i ≤ n) : start.Runs (packRules pack) (i + 1) :=
    runs.mono (Nat.succ_le_succ le)
  have reached {i : Nat} (le : i ≤ n) := h.reached.after ((upTo le).mono (Nat.le_succ i))
  have goes {i : Nat} (le : i ≤ n) := (verdict?_eq_none_iff _).mp (runs i (Nat.lt_succ_of_le le))
  have tidy {i : Nat} (le : i ≤ n) := h.tidy.after h.reached (upTo le)
  have early := Nat.le_of_lt less
  obtain ⟨_, ⟨⟨frame, task⟩, lower, entries⟩, _⟩ := goes early
  obtain ⟨_, attached, traced⟩ | ⟨_, same⟩ :=
    (h.turns k (upTo early)).told (reached early) entries told
  swap
  · cases same
  have tells := (Task.tells (packRules pack) frame
    ((start.after (packRules pack) k).taking ⟨frame, task⟩ lower) task).1
  rw [turnOperations_of_entries _ entries] at traced
  obtain ⟨first, others, events⟩ := List.append_of_mem traced
  obtain ⟨_, level, issuer, sources, chain, flags, rfl, input⟩ := tells.first_of_command events
  have leafless : ∀ entry ∈ lower, ¬entry.task.IsLeaf := by
    have leaves := (tidy early).leaves
    rw [entries] at leaves
    exact fun entry member leaf => (List.pairwise_cons.mp leaves).1 entry member leaf
  refine ⟨k, less, ⟨⟨earlier, rfl⟩, since, frame, issuer, sources, chain, flags, lower, entries,
    level, input⟩, _, lower, entries, leafless, ?_⟩
  -- from turn to turn, the tracer stays attached, and only that work goes on
  suffices all : ∀ i, k < i → i ≤ n → (start.after (packRules pack) i).tracer = some tracer ∧
      start.Between pack k lower i from (all n less (Nat.le_refl n)).2
  intro i late
  induction i, late using Nat.le_induction with
  | base =>
    intro le
    refine ⟨after_succ (packRules pack) k start ▸ attached, ?_⟩
    exact TakesUp.step (.begins rfl entries) (reached early) (goes le).1
  | succ i late ih =>
    intro le
    have before := Nat.le_of_succ_le le
    obtain ⟨traced, between⟩ := ih before
    obtain ⟨_, ⟨top, rest, waiting⟩, _⟩ := goes before
    obtain ⟨command, underway, kept⟩ := (h.turns i (upTo before)).untold (reached before) waiting
      traced (silent i late le)
    exact ⟨after_succ (packRules pack) i start ▸ kept, between.step late (reached before)
      (tidy before) leafless waiting command underway (goes le).1⟩

end Machine

theorem Task.Tells.leaf_of_returned {V : Vocabulary} {rules : Rules V} {frame : Frame V}
    {m : Machine V} {task : Task V} {told : List TraceEvent} (h : task.Tells rules frame m told)
    {depth : Nat} {text : String} {value : Int32} (member : .returned depth text value ∈ told) :
    ∃ leaf source, task = .execute leaf source ∧ frame.depth = depth ∧ leaf.input = text := by
  cases h with
  | line issuer sources chain flags only =>
    obtain same | member := List.mem_cons.mp member
    · cases same
    · obtain ⟨_, same⟩ := only _ member
      cases same
  | value ran =>
    cases List.mem_singleton.mp member
    exact ⟨_, _, rfl, rfl, rfl⟩
  | failure ran =>
    simp only [List.mem_cons, List.not_mem_nil, or_false, reduceCtorEq, false_or] at member
    cases member
    exact ⟨_, _, rfl, rfl, rfl⟩
  | call function callback returnCall source => cases List.mem_singleton.mp member
  | other command underway only =>
    obtain ⟨_, same⟩ := only _ member
    cases same

namespace Machine

def TellsReturn (tracer : TracerId) (m : Machine packWords) (depth : Nat) (text : String) : Prop :=
  m.tracer = some tracer ∧ ∃ frame leaf source lower,
    m.stack.entries = ⟨frame, .execute leaf source⟩ :: lower ∧
    frame.depth = depth ∧ leaf.input = text

inductive PrintsReturn (pack : Pack) (start : Machine packWords) (tracer : TracerId)
    (told : List PrintItem) (n depth : Nat) (text : String) (value : Int32) : Prop where
  /-- No line is open, and the result gets a line of its own. -/
  | separate (closed : (Printer.printed told).waiting = false)
      (line : (Printer.printed told).Appends
        (Printer.printed (told ++ [.event (.returned depth text value)]))
        (Printer.margin depth ++ ("[R = " ++ toString value.toInt ++ "] " ++ text ++ "\n")))
  /-- The leaf is one of the line that is open. -/
  | own {k : Nat} (opened : start.LineOpen pack tracer told k depth text) (earlier : k < n)
      (leaf : start.LeafOf pack k n) (completes : (Printer.printed told).Appends
        (Printer.printed (told ++ [.event (.returned depth text value)]))
        (" -> " ++ toString value.toInt ++ "\n"))
  /-- The line that is open has ended without a result, and one that has waited below it has gone on
  since. The leaf is one of that line. -/
  | resumed {k j level : Nat} {other : String}
      (opened : start.LineOpen pack tracer told k level other) (later : k < j) (earlier : j < n)
      (resumes : start.Resumes pack k j) (leaf : start.LeafOf pack j n)
      (completes : (Printer.printed told).Appends
        (Printer.printed (told ++ [.event (.returned depth text value)]))
        (" -> " ++ toString value.toInt ++ "\n"))

variable {n k depth level : Nat} {text other : String} {value : Int32}

theorem TraceTurn.tellsReturn (h : m.TraceTurn pack) (reached : m.Reached (packRules pack) PackTask)
    (goes : m.verdict? = none)
    (told : .event (.returned depth text value) ∈ m.turnItems tracer (packRules pack)) :
    m.TellsReturn tracer depth text ∧
      ∀ level other, .event (.command level other) ∉ m.turnItems tracer (packRules pack) := by
  obtain ⟨_, ⟨⟨frame, task⟩, lower, entries⟩, _⟩ := (verdict?_eq_none_iff m).mp goes
  have tells := (Task.tells (packRules pack) frame (m.taking ⟨frame, task⟩ lower) task).1
  rw [← turnOperations_of_entries _ entries] at tells
  have traced {event : TraceEvent} (told : .event event ∈ m.turnItems tracer (packRules pack))
      (other : ∀ message, event ≠ .error message) :=
    (h.told reached entries told).resolve_right fun ⟨message, same⟩ => other message same
  obtain ⟨attached, _, event⟩ := traced told fun _ same => by cases same
  obtain ⟨leaf, source, rfl, level, input⟩ := tells.leaf_of_returned event
  refine ⟨⟨attached, frame, leaf, source, lower, entries, level, input⟩, ?_⟩
  intro level other begun
  obtain ⟨_, _, event⟩ := traced begun fun _ same => by cases same
  obtain ⟨first, others, events⟩ := List.append_of_mem event
  obtain ⟨_, _, _, _, _, _, line, _⟩ := tells.first_of_command events
  cases line

theorem LineOpen.eq_of_leafOf {told : List PrintItem}
    (opened : start.LineOpen pack tracer told k level other) (leafOf : start.LeafOf pack k n)
    (tells : (start.after (packRules pack) n).TellsReturn tracer depth text) :
    level = depth ∧ other = text := by
  obtain ⟨_, _, _, _, _, _, begun, rfl, rfl⟩ := opened.begins
  obtain ⟨_, _, _, _, _, _, _, _, _, _, line, turn, works⟩ := leafOf
  obtain ⟨_, _, _, _, _, entries, rfl, rfl⟩ := tells
  cases begun.symm.trans line
  cases entries.symm.trans turn
  exact ⟨rfl, works.1.symm⟩

theorem Narrated.prints_turn (h : start.Narrated pack)
    (runs : start.Runs (packRules pack) (n + 1)) {before later : List PrintItem}
    (told : (start.after (packRules pack) n).turnItems tracer (packRules pack) =
      before ++ .event (.returned depth text value) :: later) :
    (start.after (packRules pack) n).TellsReturn tracer depth text ∧
      start.PrintsReturn pack tracer
        (start.items tracer (start.after (packRules pack) n) ++ before) n depth text value := by
  obtain ⟨earlier, goes⟩ := (runs_succ_last_iff _ n start).mp runs
  obtain ⟨tells, beginless⟩ := (h.turns n runs).tellsReturn (h.reached.after earlier) goes
    (told ▸ List.mem_append_right _ List.mem_cons_self)
  refine ⟨tells, ?_⟩
  generalize all : start.items tracer (start.after (packRules pack) n) ++ before = items
  have unbounded := Printer.Unbounded.printed items
  have printed : Printer.printed (items ++ [.event (.returned depth text value)]) =
      (Printer.printed items).item (.event (.returned depth text value)) :=
    Printer.printed_append items _
  cases waits : (Printer.printed items).waiting with
  | false => exact .separate waits (printed ▸ unbounded.separate waits depth text value)
  | true =>
    have completes := printed ▸ unbounded.completes waits depth text value
    obtain ⟨first, level, other, ends⟩ := (Printer.waiting_printed items).mp waits
    -- the leaf's own turn begins no line, so the open one has begun before
    have nothing : before = [] := by
      obtain nothing | ⟨others, last, split⟩ := before.eq_nil_or_concat
      · exact nothing
      · rw [List.concat_eq_append] at split
        rw [split, ← List.append_assoc] at all
        cases (List.append_inj' (all.trans ends) rfl).2
        refine absurd ?_ (beginless level other)
        rw [told, split]
        exact List.mem_append_left _ (List.mem_append_right _ List.mem_cons_self)
    rw [nothing, List.append_nil] at all
    obtain ⟨k, less, opened, top, lower, begun, leafless, between⟩ :=
      h.open_line runs (all.trans ends)
    rw [← ends] at opened
    obtain ⟨_, frame, leaf, source, rest, entries, _⟩ := id tells
    obtain own | ⟨j, late, early, resumes, leafOf⟩ := between.leafOf leafless entries begun
    · obtain ⟨rfl, rfl⟩ := opened.eq_of_leafOf own tells
      exact .own opened less own completes
    · exact .resumed opened late early resumes leafOf completes

theorem Narrated.prints (h : start.Narrated pack) (runs : start.Runs (packRules pack) n)
    {before later : List PrintItem}
    (split : start.items tracer (start.after (packRules pack) n) =
      before ++ .event (.returned depth text value) :: later) :
    ∃ k < n, (start.after (packRules pack) k).TellsReturn tracer depth text ∧
      start.PrintsReturn pack tracer before k depth text value := by
  induction n generalizing later with
  | zero =>
    have nothing := (start.items_self tracer).symm.trans split
    simp at nothing
  | succ n ih =>
    rw [h.items_succ tracer runs] at split
    obtain ⟨rest, past⟩ | ⟨rest, rfl, told⟩ := append_eq_append_cons split
    · obtain ⟨k, less, tells, prints⟩ := ih (runs.mono (Nat.le_succ n)) past
      exact ⟨k, Nat.lt_succ_of_lt less, tells, prints⟩
    · exact ⟨n, Nat.lt_succ_self n, h.prints_turn runs told⟩

end Machine

theorem RunRequest.opening_narrated (pack : Pack) (request : RunRequest)
    (functions : List (BoundFunction packWords)) (w : World) :
    (request.opening functions w).Narrated pack where
  reached := request.opening_reached functions w pack
  tidy := request.opening_tidy functions w
  turns _ runs := request.opening_traceTurn functions w runs

/-- Whatever is printed on the line of a command, the command's own leaf has returned, unless the
command has ended without a result, and a line that waited for its conditions has gone on. All other
results get lines of their own. -/
theorem results_stand_on_lines (pack : Pack) (request : RunRequest) (w : World)
    {functions : List (BoundFunction packWords)}
    (found : request.functions pack = .ok functions) :
    ∃ (start : Machine packWords) (last : Nat) (verdict : Except EngineError Unit),
      start = request.opening functions w ∧ start.setting = w ∧
      start.Runs (packRules pack) last ∧
      (start.after (packRules pack) last).verdict? = some verdict ∧
      (∀ turns, last < turns → runTarget pack turns request w =
        some ((start.after (packRules pack) last).answer w verdict,
          (start.after (packRules pack) last).setting)) ∧
      ∀ n ≤ last, ∀ tracer before depth text value later,
        start.items tracer (start.after (packRules pack) n) =
          before ++ .event (.returned depth text value) :: later →
        ∃ k < n, (start.after (packRules pack) k).TellsReturn tracer depth text ∧
          start.PrintsReturn pack tracer before k depth text value := by
  have narrated := request.opening_narrated pack functions w
  obtain ⟨last, verdict, runs, ends⟩ := narrated.reached.last_verdict
  exact ⟨_, last, verdict, rfl, congrArg Scene.setting (request.opening_start functions w).1, runs,
    ends, fun turns enough => request.runTarget_of_ends found runs ends enough,
    fun n le _ _ _ _ _ _ split => narrated.prints (runs.mono le) split⟩

/-- A line that traces a function, whose line has a result. -/
def debuggingPack : Pack where
  functions :=
    [(⟨"minecraft", "f", .refl true, .refl true⟩, { lines := [
        .obj [("run", .arr [.str "Debug", .str "g"])]] }),
     (⟨"minecraft", "g", .refl true, .refl true⟩, { lines := [
        .obj [("run", .arr [.str "Value", .num (.int 7)])]] })]

def debuggingItems : List PrintItem :=
  [.heading "minecraft:g", .event (.call 1 ⟨"minecraft", "g", .refl true, .refl true⟩ 1),
    .event (.command 2 "value 7")]

theorem results_stand_on_lines_debugging :
    ∃ (functions : List (BoundFunction packWords)) (start : Machine packWords) (last : Nat),
      RunRequest.functions debuggingPack { target := "f" } = .ok functions ∧
      start = RunRequest.opening { target := "f" } functions {} ∧
      start.items (.opened 0) (start.after (packRules debuggingPack) last) =
        debuggingItems ++ .event (.returned 2 "value 7" 7) :: [.flush] ∧
      ∃ k < last, (start.after (packRules debuggingPack) k).TellsReturn (.opened 0) 2 "value 7" ∧
        (Printer.printed debuggingItems).Appends
          (Printer.printed (debuggingItems ++ [.event (.returned 2 "value 7" 7)])) " -> 7\n" := by
  have found : RunRequest.functions debuggingPack { target := "f" } =
      .ok ((RunRequest.functions debuggingPack { target := "f" }).toOption.getD []) := rfl
  obtain ⟨start, last, verdict, begins, _, runs, ends, _, prints⟩ :=
    results_stand_on_lines debuggingPack { target := "f" } {} found
  have further : start.Runs (packRules debuggingPack) 9 := by
    subst begins
    simp only [runs_succ_iff]
    exact ⟨rfl, rfl, rfl, rfl, rfl, rfl, rfl, rfl, rfl, runs_zero _ _⟩
  have stops : (start.after (packRules debuggingPack) 9).verdict? = some (.ok ()) := by
    subst begins
    rfl
  cases runs.unique (by simp [ends]) further (by simp [stops])
  have told : start.items (.opened 0) (start.after (packRules debuggingPack) 9) =
      debuggingItems ++ .event (.returned 2 "value 7" 7) :: [.flush] := by
    subst begins
    rfl
  obtain ⟨k, less, tells, returns⟩ := prints 9 (Nat.le_refl 9) _ _ _ _ _ _ told
  refine ⟨_, start, 9, found, begins, told, k, less, tells, ?_⟩
  cases returns with
  | separate closed => cases closed
  | own opened earlier leaf completes => exact completes
  | resumed opened later earlier resumes leaf completes => exact completes

/-- A line that asks a function, whose line returns without a result of its own. -/
def decidingPack : Pack where
  functions :=
    [(⟨"minecraft", "f", .refl true, .refl true⟩, { lines := [.obj [
        ("modifiers", .arr [.arr [.str "IfFunction", .str "g"]]),
        ("run", .arr [.str "Value", .num (.int 5)])]] }),
     (⟨"minecraft", "g", .refl true, .refl true⟩, { lines := [
        .obj [("run", .arr [.str "Return", .num (.int 1)])]] })]

def decidingRun : Machine packWords :=
  let request : RunRequest := { target := "f", traced := true }
  request.opening ((request.functions decidingPack).toOption.getD []) {}

def decidingItems : List PrintItem :=
  [.event (.call 0 ⟨"minecraft", "f", .refl true, .refl true⟩ 1),
    .event (.command 1 "execute if function g run value 5"),
    .event (.call 2 ⟨"minecraft", "g", .refl true, .refl true⟩ 1), .event (.command 3 "return 1")]

/-- Not all results that are printed on the line of a command are that command's own. -/
theorem results_stand_on_other_lines :
    ¬∀ (pack : Pack) (request : RunRequest) (functions : List (BoundFunction packWords)) (w : World)
      (start : Machine packWords) (n : Nat) (tracer : TracerId) (before later : List PrintItem)
      (depth : Nat) (text : String) (value : Int32),
      request.functions pack = .ok functions → start = request.opening functions w →
      start.Runs (packRules pack) n →
      start.items tracer (start.after (packRules pack) n) =
        before ++ .event (.returned depth text value) :: later →
      (Printer.printed before).Appends
        (Printer.printed (before ++ [.event (.returned depth text value)]))
        (" -> " ++ toString value.toInt ++ "\n") →
      ∃ k m, start.LineOpen pack tracer before k depth text ∧ start.LeafOf pack k m := by
  intro own
  have runs : decidingRun.Runs (packRules decidingPack) 8 := by
    simp only [runs_succ_iff]
    exact ⟨rfl, rfl, rfl, rfl, rfl, rfl, rfl, rfl, runs_zero _ _⟩
  have completes := (Printer.Unbounded.printed decidingItems).completes rfl 1
    "execute if function g run value 5" 5
  obtain ⟨k, _, opened, _⟩ := own decidingPack { target := "f", traced := true } _ {} decidingRun 8
    .given decidingItems [] _ _ _ rfl rfl runs rfl completes
  obtain ⟨earlier, ends⟩ := opened.last
  have last := congrArg List.getLast? ends
  rw [List.getLast?_append] at last
  cases last

end PackEngine
