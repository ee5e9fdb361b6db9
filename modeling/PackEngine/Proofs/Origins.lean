import PackEngine.Proofs.Callers
import PackEngine.Proofs.Openings
import PackEngine.Proofs.Stores

/-! Where callbacks come from. A line of a body runs with the callback that its function was called
under, and with its own stores behind it. -/
namespace PackEngine

open Machine

def Machine.Called (pack : Pack) (start : Machine packWords) (n : Nat) (frame : Frame packWords)
    (function : BoundFunction packWords) (source : PackSource) : Prop :=
  ∃ j < n, ∃ caller sink returnCall lower,
    (start.after (packRules pack) j).stack.entries =
      ⟨caller, .call function sink returnCall source⟩ :: lower ∧
    frame = caller.child sink (if returnCall then some caller.boundary else none)
      (start.after (packRules pack) j).heap.slots.size

/-- The line is one of a body that runs in the frame; its function has been called under the
callback `base`. -/
def Machine.Body (pack : Pack) (start : Machine packWords) (n : Nat) (frame : Frame packWords)
    (line : Chain packWords) (base : Callback packWords) : Prop :=
  ∃ function source, start.Called pack n frame function source ∧ line ∈ function.lines ∧
    source.callback = base

/-- The task works on the line, or on what is left of it. -/
def Task.WorksOn (line : Chain packWords) : Task packWords → Prop
  | .line _ _ chain _ _ => chain.input = line.input ∧ chain.executable = line.executable ∧
      chain.modifiers <:+ line.modifiers
  | .execute leaf _ => leaf.input = line.input ∧ line.executable = .leaf leaf.leaf
  | .drip leaf _ => leaf.input = line.input ∧ line.executable = .leaf leaf.leaf
  | _ => False

/-- Sources that the callback puts aside in cells are in custody there. -/
def Callback.Kept (custody : CellId → Callback packWords → Prop) (callback : Callback packWords) :
    Prop :=
  ∀ cell polarity persona aside, .collect cell polarity persona aside ∈ callback →
    custody cell aside

/-- A task in the run from `start` that waits before turn `n`. Callbacks of sources in cells are
those in `custody`; `cells` cells have been opened. -/
inductive Origin (pack : Pack) (start : Machine packWords) (n : Nat)
    (custody : CellId → Callback packWords → Prop) (cells : Nat) (frame : Frame packWords) :
    Task packWords → Prop where
  | line (issuer : PackSource) {sources : Sources packWords} {line : Chain packWords}
      {base : Callback packWords} {passed rest : List (Modifier packWords)} (flags : Flags)
      (topLevel : Bool) (body : start.Body pack n frame line base) (hosted : base.Hosted)
      (split : line.modifiers = passed ++ rest)
      (ready : ∀ present, sources = .ready present →
        ∀ source ∈ present, Callback.Along base passed source.callback)
      (collected : ∀ cell, sources = .collected cell → cell < cells ∧
        ∀ callback, custody cell callback → Callback.Along base passed callback) :
      Origin pack start n custody cells frame
        (.line issuer sources { line with modifiers := rest } flags topLevel)
  | execute {leaf : LeafLine packWords} {source : PackSource} {line : Chain packWords}
      {base : Callback packWords} (body : start.Body pack n frame line base) (hosted : base.Hosted)
      (works : Task.WorksOn line (.execute leaf source))
      (heard : Callback.Along base line.modifiers source.callback) :
      Origin pack start n custody cells frame (.execute leaf source)
  | drip {leaf : LeafLine packWords} {sources : List PackSource} {line : Chain packWords}
      {base : Callback packWords} (body : start.Body pack n frame line base) (hosted : base.Hosted)
      (works : Task.WorksOn line (.drip leaf sources))
      (heard : ∀ source ∈ sources, Callback.Along base line.modifiers source.callback) :
      Origin pack start n custody cells frame (.drip leaf sources)
  | seeded {function : BoundFunction packWords} {callback : Callback packWords}
      {source : PackSource}
      (first : ⟨frame, .call function callback false source⟩ ∈ start.stack.entries)
      (kept : callback.Kept custody) (hosted : source.callback.Hosted) :
      Origin pack start n custody cells frame (.call function callback false source)
  | called {function : BoundFunction packWords} {callback : Callback packWords} {returnCall : Bool}
      {source : PackSource} {line : Chain packWords} {base : Callback packWords}
      (body : start.Body pack n frame line base)
      (calls : CallFrom frame line.executable (Callback.Along base line.modifiers)
        (.call function callback returnCall source))
      (kept : callback.Kept custody) (hosted : source.callback.Hosted) :
      Origin pack start n custody cells frame (.call function callback returnCall source)
  | decides {function : BoundFunction packWords} {source : PackSource} {cell : CellId}
      {polarity : Polarity} {persona : Persona} {aside : Callback packWords}
      (sink : frame.sink = [.collect cell polarity persona aside]) (kept : custody cell aside)
      (cleared : source.callback = Callback.empty) :
      Origin pack start n custody cells frame (.call function frame.sink true source)
  | endFunction : Origin pack start n custody cells frame .endFunction
  | condition (bound : List (BoundFunction packWords)) {callee : PackSource} {cell : CellId}
      (polarity : Polarity) (persona : Persona) {aside : Callback packWords}
      (cleared : callee.callback = Callback.empty) (kept : custody cell aside) :
      Origin pack start n custody cells frame
        (.isolated (conditionProducer bound callee) [.collect cell polarity persona aside])
  | fallthrough : Origin pack start n custody cells frame .fallthrough
  | total (tally : TallyId) {caller : Callback packWords} {line : Chain packWords}
      {base : Callback packWords} (body : start.Body pack n frame line base) (hosted : base.Hosted)
      (heard : Callback.Along base line.modifiers caller) :
      Origin pack start n custody cells frame
        (.deferred (Control.deliverTally tally (caller.chain frame.recorder)))
  | heading (index : Nat) (item : PrintItem) : Origin pack start n custody cells frame
      (.deferred (tell (World.add (.traced (.opened index) item))))
  | closing (index : Nat) (source : PackSource) (text : String) :
      Origin pack start n custody cells frame (.deferred (traceClosing index source text))

def Operation.Proper (pack : Pack) (start : Machine packWords) (n : Nat)
    (custody : CellId → Callback packWords → Prop) (cells : Nat) (frame : Frame packWords)
    (task : Task packWords) : Operation packWords → Prop
  | .deliver callback outcome => ∃ line base, start.Body pack n frame line base ∧ base.Hosted ∧
      task.WorksOn line ∧ Callback.Along base line.modifiers callback ∧
      Results line.executable outcome
  | .deliverTally _ callback => ∃ line base caller, start.Body pack n frame line base ∧
      base.Hosted ∧ Callback.Along base line.modifiers caller ∧
      callback = caller.chain frame.recorder
  | .returnFrom other _ => other = frame
  | .collect _ _ => False
  | .queue entry => entry.frame.sink.Kept custody ∧
      Origin pack start (n + 1) custody cells entry.frame entry.task
  | _ => True

section

variable {pack : Pack} {start : Machine packWords} {n : Nat}
  {custody : CellId → Callback packWords → Prop} {cells : Nat} {frame : Frame packWords}
  {task : Task packWords} {line : Chain packWords} {base : Callback packWords}

theorem Machine.Body.mono (body : start.Body pack n frame line base) {k : Nat} (le : n ≤ k) :
    start.Body pack k frame line base := by
  obtain ⟨function, source, ⟨j, less, called⟩, among, same⟩ := body
  exact ⟨function, source, ⟨j, Nat.lt_of_lt_of_le less le, called⟩, among, same⟩

namespace Callback

theorem Hosted.kept {callback : Callback packWords} (hosted : callback.Hosted) :
    callback.Kept custody := by
  intro cell polarity persona aside member
  obtain ⟨_, same⟩ := hosted _ member
  cases same

theorem kept_recorder (frame : Frame packWords) : frame.recorder.Kept custody := by
  intro cell polarity persona aside member
  cases List.mem_singleton.mp member

theorem Kept.chain {first second : Callback packWords} (before : first.Kept custody)
    (after : second.Kept custody) : (first.chain second).Kept custody :=
  fun cell polarity persona aside member =>
    (List.mem_append.mp member).elim (before cell polarity persona aside)
      (after cell polarity persona aside)

theorem Kept.announced {callback : Callback packWords} (kept : callback.Kept custody)
    (source : PackSource) (function : FunctionId) :
    (announced isSilent source function callback).Kept custody := by
  unfold PackEngine.announced
  split
  · exact kept
  · refine .chain (fun cell polarity persona aside member => ?_) kept
    cases List.mem_singleton.mp member

end Callback

theorem CallFrom.kept {executable : Executable packWords} {C : Callback packWords → Prop}
    (hosted : ∀ callback, C callback → callback.Hosted) (sink : frame.sink.Kept custody)
    {task : Task packWords} (h : CallFrom frame executable C task) :
    ∃ function callback returnCall source, task = .call function callback returnCall source ∧
      callback.Kept custody ∧ source.callback.Hosted := by
  cases h with
  | @returning function caller callee heard =>
    exact ⟨_, _, _, _, rfl, ((hosted _ heard).kept.chain sink).announced caller function.id,
      Callback.hosted_empty⟩
  | @calling function caller callee heard =>
    exact ⟨_, _, _, _, rfl,
      ((hosted _ heard).kept.chain (Callback.kept_recorder frame)).announced caller function.id,
      Callback.hosted_empty⟩
  | tallying function caller callee tally =>
    have counted : Callback.Kept custody [.tally tally] :=
      fun _ _ _ _ member => by cases List.mem_singleton.mp member
    exact ⟨_, _, _, _, rfl, counted.announced caller function.id, Callback.hosted_empty⟩
  | tracing function debugs heard =>
    exact ⟨_, _, _, _, rfl, Callback.hosted_empty.kept, hosted _ heard⟩

theorem Acts.proper {action : CallAction} {operation : Operation packWords}
    (h : Acts frame action (Callback.Along base line.modifiers) operation)
    (body : start.Body pack n frame line base) (hosted : base.Hosted)
    (works : task.WorksOn line) (ends : line.executable = .action action)
    (sink : frame.sink.Kept custody) :
    operation.Proper pack start n custody cells frame task := by
  have later := body.mono (Nat.le_succ n)
  cases h with
  | idle idle => cases operation <;> trivial
  | results heard results => exact ⟨line, base, body, hosted, works, heard, ends ▸ results⟩
  | returns outcome => rfl
  | calls calls =>
    obtain ⟨_, _, _, _, rfl, kept, own⟩ := calls.kept (fun _ along => along.hosted hosted) sink
    exact ⟨sink, .called later (ends ▸ calls) kept own⟩
  | fallthrough => exact ⟨sink, .fallthrough⟩
  | total tally heard => exact ⟨sink, .total tally later hosted heard⟩
  | heading index item => exact ⟨sink, .heading index item⟩
  | closing index source text => exact ⟨sink, .closing index source text⟩

theorem proper_finish (body : start.Body pack n frame line base) (hosted : base.Hosted)
    (works : task.WorksOn line) (sink : frame.sink.Kept custody) (flags : Flags)
    {present : List PackSource}
    (heard : ∀ source ∈ present, Callback.Along base line.modifiers source.callback)
    (m : Machine packWords) :
    ∀ operation ∈ finishOperations (packRules pack) frame { line with modifiers := [] } flags
      present m, operation.Proper pack start n custody cells frame task := by
  have later := body.mono (Nat.le_succ n)
  intro operation member
  unfold finishOperations at member
  split at member
  · split at member
    · rw [List.mem_singleton.mp member]
      exact ⟨sink, .fallthrough⟩
    · cases member
  · cases ends : line.executable with
    | action action =>
      simp only [ends] at member
      exact (actAllOperations_acts action _ flags heard m operation member).proper body hosted
        works ends sink
    | leaf leaf =>
      simp only [ends] at member
      have fewer : ∀ source ∈ (if flags.isReturn then present.take 1 else present),
          Callback.Along base line.modifiers source.callback := by
        intro source among
        split at among
        · exact heard source (List.mem_of_mem_take among)
        · exact heard source among
      refine forall_leavesOperations (fun source among => ?_) ?_ operation member
      · exact ⟨sink, .execute later hosted ⟨rfl, ends⟩ (fewer source among)⟩
      · exact ⟨sink, .drip later hosted ⟨rfl, ends⟩ fewer⟩

/-- A line that has come to a gate. The sources that the gate lets through are put aside in a new
cell. -/
theorem proper_gate (body : start.Body pack n frame line base) (hosted : base.Hosted)
    (sink : frame.sink.Kept custody) {condition : Condition}
    {functions : List (FunctionRef packWords)} {bound : List (BoundFunction packWords)}
    (resolves : pack.library.resolve condition.target = .ok functions)
    (binds : FunctionRef.instantiateAll none functions = .ok bound)
    {passed rest : List (Modifier packWords)} {modifier : Modifier packWords}
    (gates : modifier.action = .gate condition)
    (split : line.modifiers = passed ++ modifier :: rest) (issuer : PackSource) (flags : Flags)
    {present : List PackSource} {m : Machine packWords}
    (known : m.heap.cells.size < cells)
    (aside : ∀ source ∈ present, custody m.heap.cells.size source.callback)
    (along : ∀ callback, custody m.heap.cells.size callback →
      Callback.Along base passed callback) :
    ∀ operation ∈ gateOperations (packRules pack) frame condition issuer present
      { line with modifiers := modifier :: rest } flags m,
      operation.Proper pack start n custody cells frame task := by
  intro operation member
  rw [gateOperations_bound resolves binds] at member
  simp only [List.cons_append, List.mem_cons, List.mem_append, List.mem_map,
    List.not_mem_nil, or_false] at member
  obtain rfl | ⟨source, among, rfl⟩ | rfl := member
  · trivial
  · exact ⟨sink, .condition bound condition.polarity source.persona rfl (aside source among)⟩
  · refine ⟨sink, .line issuer flags false (body.mono (Nat.le_succ n)) hosted
      (split.trans (List.append_cons ..)) (fun _ same => nomatch same) fun cell same => ?_⟩
    cases same
    exact ⟨known, fun callback kept =>
      (along callback kept).pass_nil (by simp [Modifier.Adds, gates])⟩

structure Custody (pack : Pack) (start : Machine packWords) (n : Nat)
    (custody : CellId → Callback packWords → Prop) : Prop where
  entries : ∀ entry ∈ (start.after (packRules pack) n).stack.entries,
    entry.frame.sink.Kept custody ∧ Origin pack start n custody
      (start.after (packRules pack) n).heap.cells.size entry.frame entry.task
  collected : ∀ cell, ∀ source ∈ (start.after (packRules pack) n).heap.collected cell,
    custody cell source.callback
  opened : ∀ cell callback, custody cell callback →
    cell < (start.after (packRules pack) n).heap.cells.size

structure Widens (cells : Nat) (before after : CellId → Callback packWords → Prop) : Prop where
  wider : ∀ cell callback, before cell callback → after cell callback
  same : ∀ cell callback, cell < cells → after cell callback → before cell callback

variable {other : CellId → Callback packWords → Prop}

theorem Widens.refl (cells : Nat) (custody : CellId → Callback packWords → Prop) :
    Widens cells custody custody := ⟨fun _ _ kept => kept, fun _ _ _ kept => kept⟩

theorem Callback.Kept.mono {callback : Callback packWords} (kept : callback.Kept custody)
    (widens : Widens cells custody other) : callback.Kept other :=
  fun cell polarity persona aside member =>
    widens.wider _ _ (kept cell polarity persona aside member)

theorem Origin.mono {task : Task packWords} (h : Origin pack start n custody cells frame task)
    (widens : Widens cells custody other) {k more : Nat} (later : n ≤ k) (le : cells ≤ more) :
    Origin pack start k other more frame task := by
  cases h with
  | line issuer flags topLevel body hosted split ready collected =>
    refine .line issuer flags topLevel (body.mono later) hosted split ready fun cell same => ?_
    obtain ⟨known, along⟩ := collected cell same
    exact ⟨Nat.lt_of_lt_of_le known le,
      fun callback kept => along callback (widens.same cell callback known kept)⟩
  | execute body hosted works heard => exact .execute (body.mono later) hosted works heard
  | drip body hosted works heard => exact .drip (body.mono later) hosted works heard
  | seeded first kept hosted => exact .seeded first (kept.mono widens) hosted
  | called body calls kept hosted => exact .called (body.mono later) calls (kept.mono widens) hosted
  | decides sink kept cleared => exact .decides sink (widens.wider _ _ kept) cleared
  | endFunction => exact .endFunction
  | condition bound polarity persona cleared kept =>
    exact .condition bound polarity persona cleared (widens.wider _ _ kept)
  | fallthrough => exact .fallthrough
  | total tally body hosted heard => exact .total tally (body.mono later) hosted heard
  | heading index item => exact .heading index item
  | closing index source text => exact .closing index source text

def Machine.ProperTurn (pack : Pack) (start : Machine packWords) (n : Nat)
    (custody : CellId → Callback packWords → Prop) (frame : Frame packWords)
    (task : Task packWords) : Prop :=
  ∃ other, Widens (start.after (packRules pack) n).heap.cells.size custody other ∧
    (∀ cell callback, other cell callback →
      cell < (start.after (packRules pack) (n + 1)).heap.cells.size) ∧
    ∀ operation ∈ (start.after (packRules pack) n).turnOperations (packRules pack),
      operation.Proper pack start n other (start.after (packRules pack) (n + 1)).heap.cells.size
        frame task

theorem Custody.cells_le (pack : Pack) (start : Machine packWords) (n : Nat) :
    (start.after (packRules pack) n).heap.cells.size ≤
      (start.after (packRules pack) (n + 1)).heap.cells.size := by
  rw [after_succ]
  exact (step_expands _ _).cells

theorem Custody.properTurn (h : Custody pack start n custody)
    (proper : ∀ operation ∈ (start.after (packRules pack) n).turnOperations (packRules pack),
      operation.Proper pack start n custody
        (start.after (packRules pack) (n + 1)).heap.cells.size frame task) :
    start.ProperTurn pack n custody frame task :=
  ⟨custody, .refl _ _, fun cell callback kept =>
    Nat.lt_of_lt_of_le (h.opened cell callback kept) (cells_le pack start n), proper⟩

theorem Custody.line_turn (h : Custody pack start n custody) {issuer : PackSource}
    {sources : Sources packWords} {passed rest : List (Modifier packWords)} {flags : Flags}
    {topLevel : Bool} {lower : List (Entry packWords)}
    (entries : (start.after (packRules pack) n).stack.entries =
      ⟨frame, .line issuer sources { line with modifiers := rest } flags topLevel⟩ :: lower)
    (sink : frame.sink.Kept custody) (body : start.Body pack n frame line base)
    (hosted : base.Hosted) (split : line.modifiers = passed ++ rest)
    (heard : ∀ source ∈ ((start.after (packRules pack) n).takeSources sources).1,
      Callback.Along base passed source.callback) :
    start.ProperTurn pack n custody frame
      (.line issuer sources { line with modifiers := rest } flags topLevel) := by
  have works : Task.WorksOn line (.line issuer sources { line with modifiers := rest } flags
      topLevel) := ⟨rfl, rfl, passed, split.symm⟩
  obtain ⟨opening, turn, opens, size, _⟩ := turnOperations_of_line
    (packRules pack).redirectsKeep_true trivial entries fun _ _ => trivial
  have quiet {custody : CellId → Callback packWords → Prop} {cells : Nat}
      {task : Task packWords} :
      ∀ operation ∈ opening, operation.Proper pack start n custody cells frame task := by
    intro operation member
    obtain ⟨_, rfl⟩ | ⟨_, _, rfl⟩ | ⟨_, _, _, _, rfl⟩ := opens operation member <;> trivial
  have proper {custody : CellId → Callback packWords → Prop} {cells : Nat}
      {task : Task packWords} {others : List (Operation packWords)}
      (same : (start.after (packRules pack) n).turnOperations (packRules pack) = opening ++ others)
      (rest : ∀ operation ∈ others, operation.Proper pack start n custody cells frame task) :
      ∀ operation ∈ (start.after (packRules pack) n).turnOperations (packRules pack),
        operation.Proper pack start n custody cells frame task := by
    intro operation member
    rw [same] at member
    exact (List.mem_append.mp member).elim (quiet operation) (rest operation)
  have nothing {custody : CellId → Callback packWords → Prop} {cells : Nat}
      {task : Task packWords} :
      ∀ operation ∈ ([] : List (Operation packWords)),
        operation.Proper pack start n custody cells frame task :=
    fun _ member => absurd member List.not_mem_nil
  cases there : (start.after (packRules pack) n).arrival (packRules pack) with
  | none =>
    rw [there] at turn
    exact h.properTurn (proper turn nothing)
  | some arrival =>
    obtain ⟨between, reached, behind⟩ := along_arrival entries heard there
    obtain ⟨ahead, marked, present⟩ := arrival
    rw [there] at turn
    have place : line.modifiers = (passed ++ between) ++ ahead := by
      rw [split, List.append_assoc]
      exact congrArg (passed ++ ·) reached
    cases ahead with
    | nil =>
      rw [List.append_nil] at place
      exact h.properTurn (proper turn (proper_finish body hosted works sink marked
        (fun source among => place ▸ behind source among) _))
    | cons modifier ahead =>
      simp only [arrivalOperations] at turn
      cases gates : modifier.action with
      | keep =>
        simp only [gates] at turn
        exact h.properTurn (proper turn nothing)
      | redirect redirect =>
        simp only [gates] at turn
        exact h.properTurn (proper turn nothing)
      | gate condition =>
        simp only [gates] at turn
        by_cases bounds : ∃ functions bound,
            pack.library.resolve condition.target = .ok functions ∧
            FunctionRef.instantiateAll none functions = .ok bound
        · obtain ⟨functions, bound, resolves, binds⟩ := bounds
          have opened : (start.after (packRules pack) n).heap.cells.size <
              (start.after (packRules pack) (n + 1)).heap.cells.size := by
            rw [after_succ, step_eq_applyAll _ entries, turn, Operation.applyAll_append,
              gateOperations_bound resolves binds, List.cons_append, Operation.applyAll_cons]
            refine Nat.lt_of_lt_of_le ?_ (Operation.expands_applyAll _ _ _).cells
            show _ < (Array.push _ _).size
            rw [Array.size_push, size]
            exact Nat.lt_succ_self _
          let other (cell : CellId) (callback : Callback packWords) : Prop :=
            custody cell callback ∨ cell = (start.after (packRules pack) n).heap.cells.size ∧
              Callback.Along base (passed ++ between) callback
          have widens : Widens (start.after (packRules pack) n).heap.cells.size custody other :=
            ⟨fun _ _ => .inl, fun _ _ known kept =>
              kept.elim id fun new => absurd new.1 (Nat.ne_of_lt known)⟩
          refine ⟨other, widens, fun cell callback kept => ?_, ?_⟩
          · obtain old | ⟨rfl, _⟩ := kept
            · exact Nat.lt_trans (h.opened cell callback old) opened
            · exact opened
          · refine proper turn (proper_gate body hosted (sink.mono widens) resolves binds gates
              place issuer _ ?_ ?_ ?_)
            · rw [size]
              exact opened
            · rw [size]
              exact fun source among => .inr ⟨rfl, behind source among⟩
            · rw [size]
              rintro callback (old | ⟨_, along⟩)
              · exact absurd (h.opened _ callback old) (Nat.lt_irrefl _)
              · exact along
        · obtain ⟨error, refused⟩ := gateOperations_refused frame issuer
            { line with modifiers := rest } modifier ahead
            (fun functions bound resolves binds => bounds ⟨functions, bound, resolves, binds⟩)
            present (marked.union modifier.flags) (Operation.applyAll (packRules pack) opening
              ((start.after (packRules pack) n).taking _ lower))
          refine h.properTurn (proper turn fun operation member => ?_)
          rw [refused] at member
          rw [List.mem_singleton.mp member]
          trivial

theorem Custody.call_turn (h : Custody pack start n custody) {function : BoundFunction packWords}
    {callback : Callback packWords} {returnCall : Bool} {source : PackSource}
    {lower : List (Entry packWords)}
    (entries : (start.after (packRules pack) n).stack.entries =
      ⟨frame, .call function callback returnCall source⟩ :: lower)
    (kept : callback.Kept custody) (hosted : source.callback.Hosted) :
    start.ProperTurn pack n custody frame (.call function callback returnCall source) := by
  refine h.properTurn fun operation member => ?_
  rw [turnOperations_of_entries _ entries] at member
  simp only [operations, List.mem_append, List.mem_cons, List.mem_map, List.not_mem_nil,
    or_false] at member
  obtain ((rfl | rfl | rfl) | ⟨line, among, rfl⟩) | rfl := member
  · trivial
  · trivial
  · trivial
  · have body : start.Body pack (n + 1) _ line source.callback :=
      ⟨function, source, ⟨n, Nat.lt_succ_self n, frame, callback, returnCall, lower, entries, rfl⟩,
        among, rfl⟩
    have split : line.modifiers = [] ++ line.modifiers := rfl
    refine ⟨kept, .line source Flags.none true body hosted split ?_
      fun _ same => by cases same⟩
    rintro present ⟨⟩ origin member
    rw [List.mem_singleton.mp member]
    exact .start
  · exact ⟨kept, .endFunction⟩

theorem Custody.leaf_turn (h : Custody pack start n custody) {leaf : LeafLine packWords}
    {source : PackSource} {lower : List (Entry packWords)}
    (entries : (start.after (packRules pack) n).stack.entries =
      ⟨frame, .execute leaf source⟩ :: lower)
    (body : start.Body pack n frame line base) (hosted : base.Hosted)
    (works : Task.WorksOn line (.execute leaf source))
    (heard : Callback.Along base line.modifiers source.callback) :
    start.ProperTurn pack n custody frame (.execute leaf source) := by
  refine h.properTurn fun operation member => ?_
  rw [turnOperations_of_entries _ entries] at member
  change operation ∈ leafOperations _ _ _ _ _ at member
  unfold leafOperations at member
  have finish {outcome : Outcome} (results : Results line.executable outcome)
      (member : operation ∈ [.deliver source.callback outcome, .record frame outcome] ++
        if leaf.flags.isReturn then [.returnFrom frame outcome] else []) :
      operation.Proper pack start n custody
        (start.after (packRules pack) (n + 1)).heap.cells.size frame (.execute leaf source) := by
    simp only [List.mem_append, List.mem_cons, List.not_mem_nil, or_false] at member
    obtain (rfl | rfl) | member := member
    · exact ⟨line, base, body, hosted, works, heard, results⟩
    · trivial
    · split at member
      · rw [List.mem_singleton.mp member]
        rfl
      · cases member
  cases List.mem_append.mp member with
  | inl first =>
    simp only [List.mem_cons, List.not_mem_nil, or_false] at first
    obtain rfl | rfl := first <;> trivial
  | inr rest =>
    split at rest
    · next value ran =>
      obtain rfl | rest := List.mem_cons.mp rest
      · trivial
      · exact finish (works.2 ▸ .value source _ ran) rest
    · next error ran =>
      obtain rfl | rest := List.mem_cons.mp rest
      · trivial
      · obtain rfl | rest := List.mem_cons.mp rest
        · trivial
        · exact finish (works.2 ▸ .failure source _ ran) rest

theorem Custody.turn (h : Custody pack start n custody) {task : Task packWords}
    {lower : List (Entry packWords)}
    (entries : (start.after (packRules pack) n).stack.entries = ⟨frame, task⟩ :: lower) :
    start.ProperTurn pack n custody frame task := by
  have top := h.entries ⟨frame, task⟩ (entries ▸ List.mem_cons_self)
  have sink : frame.sink.Kept custody := top.1
  have origin : Origin pack start n custody _ frame task := top.2
  have proper (does : ∀ operation ∈ ((start.after (packRules pack) n).taking ⟨frame, task⟩
      lower).operations (packRules pack) frame task, operation.Proper pack start n custody
        (start.after (packRules pack) (n + 1)).heap.cells.size frame task) :
      start.ProperTurn pack n custody frame task := by
    refine h.properTurn ?_
    rw [turnOperations_of_entries _ entries]
    exact does
  cases origin with
  | @line issuer sources line base passed rest flags topLevel body hosted split ready collected =>
    refine h.line_turn entries sink body hosted split fun source member => ?_
    cases sources with
    | ready present => exact ready present rfl source member
    | collected cell => exact (collected cell rfl).2 _ (h.collected cell source member)
  | execute body hosted works heard => exact h.leaf_turn entries body hosted works heard
  | @drip leaf sources line base body hosted works heard =>
    have later := body.mono (Nat.le_succ n)
    refine proper fun operation member => ?_
    cases sources with
    | nil => cases member
    | cons source rest =>
      obtain rfl | rfl := mem_dripOperations member
      · exact ⟨sink, .execute later hosted works (heard source List.mem_cons_self)⟩
      · exact ⟨sink, .drip later hosted works fun other among =>
          heard other (List.mem_cons_of_mem source among)⟩
  | seeded first kept hosted => exact h.call_turn entries kept hosted
  | called body calls kept hosted => exact h.call_turn entries kept hosted
  | @decides function source cell polarity persona aside same kept cleared =>
    have hosted : source.callback.Hosted := cleared ▸ Callback.hosted_empty
    exact h.call_turn entries sink hosted
  | endFunction =>
    refine proper fun operation member => ?_
    simp only [operations] at member
    split at member
    · rw [List.mem_singleton.mp member]
      rfl
    · cases member
  | @condition bound callee cell polarity persona aside cleared kept =>
    have own : Callback.Kept custody [.collect cell polarity persona aside] := by
      intro _ _ _ _ member
      cases List.mem_singleton.mp member
      exact kept
    refine proper fun operation member => ?_
    simp only [operations, List.mem_cons] at member
    rw [conditionProducer_operations] at member
    simp only [List.mem_append, List.mem_map, List.mem_singleton] at member
    obtain rfl | ⟨function, _, rfl⟩ | rfl := member
    · trivial
    · exact ⟨own, .decides rfl kept cleared⟩
    · exact ⟨own, .fallthrough⟩
  | fallthrough =>
    refine proper fun operation member => ?_
    rw [List.mem_singleton.mp member]
    rfl
  | @total tally caller line base body hosted heard =>
    refine proper fun operation member => ?_
    rw [List.mem_singleton.mp member]
    exact ⟨line, base, caller, body, hosted, heard, rfl⟩
  | heading index item =>
    refine proper fun operation member => ?_
    rw [List.mem_singleton.mp member]
    trivial
  | closing index source text =>
    refine proper fun operation member => ?_
    change operation ∈ [.detach, .update (World.add (.traced (.opened index) .flush)),
      .update (source.persona.sendSuccess text)] at member
    simp only [List.mem_cons, List.not_mem_nil, or_false] at member
    obtain rfl | rfl | rfl := member <;> trivial

theorem Operation.mem_allHeard {rules : Rules packWords} {operations : List (Operation packWords)}
    {m : Machine packWords} {heard : Hearing packWords}
    (member : heard ∈ Operation.allHeard rules operations m) :
    ∃ operation ∈ operations, ∃ there, heard ∈ operation.heard there := by
  induction operations generalizing m with
  | nil => cases member
  | cons operation rest ih =>
    cases List.mem_append.mp member with
    | inl member => exact ⟨operation, List.mem_cons_self, m, member⟩
    | inr member =>
      obtain ⟨other, among, found⟩ := ih member
      exact ⟨other, List.mem_cons_of_mem operation among, found⟩

theorem Operation.Proper.heard {operation : Operation packWords}
    (h : operation.Proper pack start n custody cells frame task) (sink : frame.sink.Kept custody)
    {m : Machine packWords} {heard : Hearing packWords} (member : heard ∈ operation.heard m) :
    Callback.Kept custody [heard.1] := by
  have told {callback : Callback packWords} {outcome : Outcome} (kept : callback.Kept custody)
      (member : heard ∈ callback.hearing outcome) : Callback.Kept custody [heard.1] := by
    obtain ⟨receiver, among, rfl⟩ := List.mem_map.mp member
    intro cell polarity persona aside same
    exact kept cell polarity persona aside (List.mem_singleton.mp same ▸ among)
  cases operation with
  | deliver callback outcome =>
    obtain ⟨_, _, _, hosted, _, along, _⟩ := h
    exact told (along.hosted hosted).kept member
  | deliverTally tally callback =>
    obtain ⟨_, _, caller, _, hosted, along, rfl⟩ := h
    simp only [Operation.heard] at member
    split at member
    · exact told ((along.hosted hosted).kept.chain (Callback.kept_recorder frame)) member
    · cases member
  | returnFrom other outcome =>
    obtain rfl : other = frame := h
    exact told sink member
  | _ => cases member

theorem Custody.step (h : Custody pack start n custody)
    (idle : (start.after (packRules pack) n).pending = Stack.empty)
    (goes : (start.after (packRules pack) n).verdict? = none) :
    ∃ other, Custody pack start (n + 1) other := by
  obtain ⟨_, ⟨⟨frame, task⟩, lower, entries⟩, _⟩ := (verdict?_eq_none_iff _).mp goes
  obtain ⟨other, widens, opened, proper⟩ := h.turn entries
  have sink : frame.sink.Kept other :=
    (h.entries ⟨frame, task⟩ (entries ▸ List.mem_cons_self)).1.mono widens
  refine ⟨other, fun entry member => ?_, fun cell source member => ?_, opened⟩
  · obtain kept | queued := mem_step idle entries (after_succ (packRules pack) n start ▸ member)
    · obtain ⟨told, origin⟩ := h.entries entry (entries ▸ List.mem_cons_of_mem _ kept)
      exact ⟨told.mono widens, origin.mono widens (Nat.le_succ n) (cells_le pack start n)⟩
    · exact proper _ queued
  · have direct : ∀ operation ∈ (start.after (packRules pack) n).turnOperations (packRules pack),
        ∀ cell source, operation ≠ .collect cell source := by
      rintro operation member cell source rfl
      exact proper _ member
    rw [after_succ] at member
    obtain before | ⟨polarity, outcome, heard⟩ := mem_collected_step direct member
    · exact widens.wider _ _ (h.collected cell source before)
    · rw [turnHeard_of_entries _ entries] at heard
      obtain ⟨operation, among, there, heard⟩ := Operation.mem_allHeard heard
      exact (proper operation among).heard sink heard _ _ _ _ List.mem_cons_self

theorem RunRequest.opening_custody (pack : Pack) (request : RunRequest)
    (functions : List (BoundFunction packWords)) (w : World)
    (hosted : request.source.callback.Hosted) :
    Custody pack (request.opening functions w) 0 fun _ _ => False := by
  have heap : (request.opening functions w).heap =
      { slots := Array.replicate functions.length none } :=
    congrArg Scene.heap (request.opening_start functions w).1
  refine ⟨fun entry member => ?_, fun cell source member => ?_, fun _ _ kept => kept.elim⟩
  · obtain ⟨function, _, seed, slot, rfl⟩ := request.opening_calls functions w member
    refine ⟨Callback.hosted_empty.kept, .seeded member ?_ hosted⟩
    exact fun _ _ _ _ found => by cases List.mem_singleton.mp found
  · change source ∈ (request.opening functions w).heap.collected cell at member
    rw [heap] at member
    cases member

theorem Custody.after {start : Machine packWords} {custody : CellId → Callback packWords → Prop}
    (h : Custody pack start 0 custody) (reached : start.Reached (packRules pack) PackTask) {n : Nat}
    (runs : start.Runs (packRules pack) n) : ∃ other, Custody pack start n other := by
  induction n with
  | zero => exact ⟨custody, h⟩
  | succ n ih =>
    obtain ⟨before, goes⟩ := (runs_succ_last_iff _ n start).mp runs
    obtain ⟨other, held⟩ := ih before
    exact held.step (reached.after before).pending goes

end

/-- Whose callbacks hear what in a run. A result is told only in the turn of a line of a body that
has come to it, and to no one but the callback that the function was called under and the line's own
stores. Totals of calls go to callbacks of the line that calls, and to its frame. A function runs
under the callback of the host if the run was started with it. It runs under none if a line calls it
or a condition asks it. But if a debug command calls it, it runs under the callback of the command's
own line, although nobody hears its result. -/
theorem bodies_tell_callers (pack : Pack) (request : RunRequest)
    (functions : List (BoundFunction packWords)) (w : World) (start : Machine packWords) (n : Nat)
    (begins : start = request.opening functions w) (hosted : request.source.callback.Hosted)
    (runs : start.Runs (packRules pack) (n + 1)) :
    ∃ frame task lower, (start.after (packRules pack) n).stack.entries = ⟨frame, task⟩ :: lower ∧
      (∀ callback outcome, .deliver callback outcome ∈
          (start.after (packRules pack) n).turnOperations (packRules pack) →
        ∃ line base, start.Body pack n frame line base ∧ task.WorksOn line ∧
          Callback.Along base line.modifiers callback ∧ Results line.executable outcome) ∧
      (∀ tally callback, .deliverTally tally callback ∈
          (start.after (packRules pack) n).turnOperations (packRules pack) →
        ∃ line base caller, start.Body pack n frame line base ∧
          Callback.Along base line.modifiers caller ∧ callback = caller.chain frame.recorder) ∧
      (∀ other outcome, .returnFrom other outcome ∈
          (start.after (packRules pack) n).turnOperations (packRules pack) → other = frame) ∧
      (∀ function callback returnCall source, task = .call function callback returnCall source →
        (⟨frame, task⟩ ∈ start.stack.entries ∧ source = request.source) ∨
        (∃ line base, start.Body pack n frame line base ∧
          CallFrom frame line.executable (Callback.Along base line.modifiers) task) ∨
        (source.callback = Callback.empty ∧ returnCall = true ∧ callback = frame.sink ∧
          ∃ cell polarity persona aside,
            frame.sink = [.collect cell polarity persona aside])) := by
  subst begins
  have reached := request.opening_reached functions w pack
  obtain ⟨before, goes⟩ := (runs_succ_last_iff _ n _).mp runs
  obtain ⟨custody, held⟩ := (request.opening_custody pack functions w hosted).after reached before
  obtain ⟨_, ⟨⟨frame, task⟩, lower, entries⟩, _⟩ := (verdict?_eq_none_iff _).mp goes
  obtain ⟨other, _, _, proper⟩ := held.turn entries
  refine ⟨frame, task, lower, entries, fun callback outcome member => ?_,
    fun tally callback member => ?_, fun _ _ member => proper _ member, ?_⟩
  · obtain ⟨line, base, body, _, told⟩ := proper _ member
    exact ⟨line, base, body, told⟩
  · obtain ⟨line, base, caller, body, _, told⟩ := proper _ member
    exact ⟨line, base, caller, body, told⟩
  · rintro function callback returnCall source rfl
    have origin := (held.entries _ (entries ▸ List.mem_cons_self)).2
    change Origin _ _ _ _ _ frame (.call function callback returnCall source) at origin
    cases origin with
    | seeded first kept own =>
      obtain ⟨_, _, _, _, same⟩ := request.opening_calls functions w first
      cases same
      exact .inl ⟨first, rfl⟩
    | called body calls kept own => exact .inr (.inl ⟨_, _, body, calls⟩)
    | decides sink kept cleared => exact .inr (.inr ⟨cleared, rfl, rfl, _, _, _, _, sink⟩)

/-- A line that stores its result and traces a function, whose line has a result of its own. -/
def storingPack : Pack where
  functions :=
    [(⟨"minecraft", "f", .refl true, .refl true⟩, { lines := [.obj [
        ("modifiers", .arr [.arr [.str "StoreResult", .str "x", .str "y"]]),
        ("run", .arr [.str "Debug", .str "g"])]] }),
     (⟨"minecraft", "g", .refl true, .refl true⟩, { lines := [
        .obj [("run", .arr [.str "Value", .num (.int 7)])]] })]

def storingRun : Machine packWords :=
  let request : RunRequest := { target := "f" }
  request.opening ((request.functions storingPack).toOption.getD []) {}

theorem storingRun_runs : storingRun.Runs (packRules storingPack) 6 := by
  simp only [runs_succ_iff]
  exact ⟨rfl, rfl, rfl, rfl, rfl, rfl, runs_zero _ _⟩

theorem storingRun_tells : .deliver [.host (.score .result "x" "y")] (Outcome.ok 7) ∈
    (storingRun.after (packRules storingPack) 5).turnOperations (packRules storingPack) :=
  .tail _ (.tail _ (.tail _ (.head _)))

/-- The line that is traced tells the store of the line that traces it. -/
theorem bodies_tell_callers_storing : ∃ frame line base,
    storingRun.Body storingPack 5 frame line base ∧
      Callback.Along base line.modifiers [.host (.score .result "x" "y")] ∧
      Results line.executable (Outcome.ok 7) := by
  have hosted : PackSource.server.callback.Hosted := Callback.hosted_empty
  obtain ⟨frame, task, lower, _, tells, _⟩ := bodies_tell_callers storingPack { target := "f" } _ {}
    storingRun 5 rfl hosted storingRun_runs
  obtain ⟨line, base, body, _, along, results⟩ := tells _ _ storingRun_tells
  exact ⟨frame, line, base, body, along, results⟩

/-- Not all lines of functions that lines call tell their own stores only. -/
theorem bodies_tell_tracing_lines :
    ¬∀ (pack : Pack) (request : RunRequest) (functions : List (BoundFunction packWords)) (w : World)
      (start : Machine packWords) (j n : Nat) (caller : Frame packWords)
      (function : BoundFunction packWords) (sink : Callback packWords) (returnCall : Bool)
      (source : PackSource) (task : Task packWords) (lower rest : List (Entry packWords))
      (callback : Callback packWords) (outcome : Outcome),
      request.functions pack = .ok functions → start = request.opening functions w →
      request.source.callback = Callback.empty → start.Runs (packRules pack) (n + 1) → j < n →
      (start.after (packRules pack) j).stack.entries =
        ⟨caller, .call function sink returnCall source⟩ :: lower →
      (start.after (packRules pack) n).stack.entries =
        ⟨caller.child sink (if returnCall then some caller.boundary else none)
          (start.after (packRules pack) j).heap.slots.size, task⟩ :: rest →
      .deliver callback outcome ∈
        (start.after (packRules pack) n).turnOperations (packRules pack) →
      ∃ line ∈ function.lines, Callback.Along Callback.empty line.modifiers callback := by
  intro isolated
  obtain ⟨line, among, along⟩ := isolated storingPack { target := "f" } _ {} storingRun 3 5 _ _ _ _
    _ _ _ _ _ _ rfl rfl rfl storingRun_runs (by decide) rfl rfl storingRun_tells
  have bare : line.modifiers = [] := by
    cases among with
    | head => rfl
    | tail _ among => cases among
  rw [bare] at along
  cases along.eq_base

end PackEngine
