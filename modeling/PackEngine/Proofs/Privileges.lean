import PackEngine.Proofs.Origins
import PackEngine.Proofs.Standing

/-! Privileges of lines. No line runs above the source that the run was started with, and none in a
function above what the way into it leaves. So lines in functions that are called or asked give no
feedback. -/
namespace PackEngine

open Machine

structure Machine.Takes (pack : Pack) (start : Machine packWords) (n : Nat)
    (entry : Entry packWords) : Prop where
  runs : start.Runs (packRules pack) (n + 1)
  top : ∃ lower, (start.after (packRules pack) n).stack.entries = entry :: lower

/-- The entry is queued before turn `n`. The ways have led to it, from the start of the run into one
function after the other. -/
inductive Machine.Comes (pack : Pack) (start : Machine packWords) :
    Nat → Entry packWords → List Way → Prop where
  | seeded {n : Nat} {entry : Entry packWords} (first : entry ∈ start.stack.entries) :
      Comes pack start n entry []
  | queued {i n : Nat} {top entry : Entry packWords} {ways : List Way} (earlier : i < n)
      (takes : start.Takes pack i top) (comes : Comes pack start i top ways)
      (queues : .queue entry ∈
        (start.after (packRules pack) i).turnOperations (packRules pack)) :
      Comes pack start n entry (ways ++ top.task.ways entry.task)

/-- A line gets to a gate under the source, and opens the cell there. -/
def Machine.Aside (pack : Pack) (start : Machine packWords) (cell : CellId) (source : PackSource) :
    Prop :=
  ∃ i, (start.after (packRules pack) i).heap.cells.size = cell ∧
    .newCell ∈ (start.after (packRules pack) i).turnOperations (packRules pack) ∧
    (start.after (packRules pack) i).ArrivesUnder pack source

structure Machine.CallsAloud (pack : Pack) (start : Machine packWords) (i : Nat)
    (caller : Entry packWords) (source : PackSource) (function : BoundFunction packWords) :
    Prop where
  takes : start.Takes pack i caller
  under : (start.after (packRules pack) i).RunsUnder caller.task source
  loud : source.persona.silent = false
  calls : ∃ callback returnCall callee,
    .queue ⟨caller.frame, .call function callback returnCall callee⟩ ∈
      (start.after (packRules pack) i).turnOperations (packRules pack)

/-- What the receiver puts aside comes from a line of the run, and so does what it announces, from
one before turn `n`. -/
def Receiver.Known (pack : Pack) (start : Machine packWords) (n : Nat) :
    Receiver packWords → Prop
  | .collect cell _ persona callback => start.Aside pack cell ⟨persona, callback⟩
  | .announce persona function => ∃ i < n, ∃ caller source bound,
      start.CallsAloud pack i caller source bound ∧ persona = source.persona ∧ function = bound.id
  | _ => True

def Callback.Known (pack : Pack) (start : Machine packWords) (n : Nat)
    (callback : Callback packWords) : Prop :=
  ∀ receiver ∈ callback, receiver.Known pack start n

structure PackSource.Fits (q : Persona) (source : PackSource) : Prop where
  under : source.persona.Under q
  hosted : source.callback.Hosted

/-- The task waits before turn `n`. The lines that it runs, or leads to before it gets into a
function, run under `q`. -/
inductive Task.Within (pack : Pack) (start : Machine packWords) (n : Nat) (q : Persona) :
    Task packWords → Prop where
  | line {issuer : PackSource} {sources : Sources packWords} (chain : Chain packWords)
      (flags : Flags) (topLevel : Bool) (issued : PackSource.Fits q issuer)
      (ready : ∀ present, sources = .ready present → ∀ source ∈ present, PackSource.Fits q source)
      (collected : ∀ cell, sources = .collected cell → ∀ source, start.Aside pack cell source →
        PackSource.Fits q source) :
      Within pack start n q (.line issuer sources chain flags topLevel)
  | execute (line : LeafLine packWords) {source : PackSource} (fits : PackSource.Fits q source) :
      Within pack start n q (.execute line source)
  | drip (line : LeafLine packWords) {sources : List PackSource}
      (fit : ∀ source ∈ sources, PackSource.Fits q source) :
      Within pack start n q (.drip line sources)
  | call (function : BoundFunction packWords) {callback : Callback packWords} (returnCall : Bool)
      {source : PackSource} (known : callback.Known pack start n)
      (fits : PackSource.Fits q source) :
      Within pack start n q (.call function callback returnCall source)
  | endFunction : Within pack start n q .endFunction
  | condition (bound : List (BoundFunction packWords)) {callee : PackSource}
      {output : Callback packWords} (known : output.Known pack start n)
      (fits : PackSource.Fits (Way.asked.restrict q) callee) :
      Within pack start n q (.isolated (conditionProducer bound callee) output)
  | fallthrough : Within pack start n q .fallthrough
  | total (tally : TallyId) {sink : Callback packWords} (known : sink.Known pack start n) :
      Within pack start n q (.deferred (Control.deliverTally tally sink))
  | heading (index : Nat) (text : String) :
      Within pack start n q (.deferred (tell (World.add (.traced (.opened index) (.heading text)))))
  | closing (index : Nat) {source : PackSource} (text : String)
      (fits : PackSource.Fits q source) :
      Within pack start n q (.deferred (traceClosing index source text))

def Task.Says (task : Task packWords) (effect : Effect) : Prop :=
  ∃ line source message, task = .execute line source ∧ line.leaf = .say message ∧
    effect = .printed source.persona.displayName message

/-- The effect tells a source that is not silent the result of a function. A line has called the
function under the source before turn `n`. -/
def Machine.Announces (pack : Pack) (start : Machine packWords) (n : Nat) (effect : Effect) :
    Prop :=
  ∃ i < n, ∃ caller source function value, start.CallsAloud pack i caller source function ∧
    effect = source.persona.notedResult function.id value

def Operation.Permitted (pack : Pack) (start : Machine packWords) (n : Nat) (q : Persona)
    (task : Task packWords) : Operation packWords → Prop
  | .queue entry => entry.frame.sink.Known pack start (n + 1) ∧
      entry.task.Within pack start (n + 1) (q.ceiling (task.ways entry.task))
  | .returnFrom frame _ => frame.sink.Known pack start n
  | .deliver callback _ => callback.Known pack start n
  | .deliverTally _ callback => callback.Known pack start n
  | .report source _ _ => source.persona.Under q
  | .collect _ _ => False
  | .update change => q.silent = true → ∀ w, World.Notes task.Says w (change w)
  | _ => True

section

variable {pack : Pack} {start : Machine packWords} {n : Nat} {q : Persona}

theorem Machine.Comes.mono {entry : Entry packWords} {ways : List Way}
    (comes : start.Comes pack n entry ways) {k : Nat} (le : n ≤ k) :
    start.Comes pack k entry ways := by
  cases comes with
  | seeded first => exact .seeded first
  | queued earlier takes comes queues =>
    exact .queued (Nat.lt_of_lt_of_le earlier le) takes comes queues

/-! Cells are opened one after the other. -/

theorem Operation.cells_lt_applyAll {rules : Rules packWords}
    {operations : List (Operation packWords)} (opens : .newCell ∈ operations)
    (m : Machine packWords) :
    m.heap.cells.size < (applyAll rules operations m).heap.cells.size := by
  obtain ⟨before, after, rfl⟩ := List.append_of_mem opens
  rw [applyAll_append, applyAll_cons]
  have first := (expands_applyAll rules before m).cells
  let opened := newCell.apply rules (applyAll rules before m)
  have one : opened.heap.cells.size = (applyAll rules before m).heap.cells.size + 1 :=
    Array.size_push _
  have last : opened.heap.cells.size ≤ (applyAll rules after opened).heap.cells.size :=
    (expands_applyAll rules after opened).cells
  show m.heap.cells.size < (applyAll rules after opened).heap.cells.size
  omega

namespace Machine

theorem cells_lt_step {rules : Rules packWords} {m : Machine packWords}
    (opens : .newCell ∈ m.turnOperations rules) :
    m.heap.cells.size < (m.step rules).heap.cells.size := by
  cases entries : m.stack.entries with
  | nil =>
    unfold turnOperations at opens
    rw [entries] at opens
    cases opens
  | cons entry rest =>
    rw [step_eq_applyAll rules entries]
    exact Operation.cells_lt_applyAll opens (m.taking entry rest)

theorem cells_le_after (rules : Rules packWords) {i k : Nat} (le : i ≤ k) (m : Machine packWords) :
    (m.after rules i).heap.cells.size ≤ (m.after rules k).heap.cells.size := by
  obtain ⟨more, rfl⟩ := Nat.exists_eq_add_of_le le
  rw [after_add]
  exact (after_expands rules more _).cells

theorem opens_once {rules : Rules packWords} {m : Machine packWords} {i k : Nat}
    (first : .newCell ∈ (m.after rules i).turnOperations rules)
    (second : .newCell ∈ (m.after rules k).turnOperations rules)
    (same : (m.after rules i).heap.cells.size = (m.after rules k).heap.cells.size) : i = k := by
  have apart {a b : Nat} (opens : .newCell ∈ (m.after rules a).turnOperations rules)
      (less : a < b) : (m.after rules a).heap.cells.size < (m.after rules b).heap.cells.size := by
    have opened := cells_lt_step opens
    rw [← after_succ] at opened
    exact Nat.lt_of_lt_of_le opened (cells_le_after rules less m)
  obtain less | equal | more := Nat.lt_trichotomy i k
  · exact absurd same (Nat.ne_of_lt (apart first less))
  · exact equal
  · exact absurd same (Nat.ne_of_gt (apart second more))

end Machine

/-! Callbacks and sources. -/

namespace Callback

theorem Hosted.known {callback : Callback packWords} (hosted : callback.Hosted) :
    callback.Known pack start n := by
  intro receiver member
  obtain ⟨listener, rfl⟩ := hosted receiver member
  trivial

theorem known_recorder (frame : Frame packWords) : frame.recorder.Known pack start n := by
  intro receiver member
  rw [List.mem_singleton.mp member]
  trivial

theorem Known.chain {first second : Callback packWords} (before : first.Known pack start n)
    (after : second.Known pack start n) : (first.chain second).Known pack start n :=
  fun receiver member => (List.mem_append.mp member).elim (before receiver) (after receiver)

theorem Known.mono {callback : Callback packWords} (known : callback.Known pack start n) {k : Nat}
    (le : n ≤ k) : callback.Known pack start k := by
  intro receiver member
  have told := known receiver member
  cases receiver with
  | announce persona function =>
    obtain ⟨i, less, calls⟩ := told
    exact ⟨i, Nat.lt_of_lt_of_le less le, calls⟩
  | _ => exact told

end Callback

theorem Task.Within.mono {task : Task packWords} (within : task.Within pack start n q) {k : Nat}
    (le : n ≤ k) : task.Within pack start k q := by
  cases within with
  | line chain flags topLevel issued ready collected =>
    exact .line chain flags topLevel issued ready collected
  | execute line fits => exact .execute line fits
  | drip line fit => exact .drip line fit
  | call function returnCall known fits => exact .call function returnCall (known.mono le) fits
  | endFunction => exact .endFunction
  | condition bound known fits => exact .condition bound (known.mono le) fits
  | fallthrough => exact .fallthrough
  | total tally known => exact .total tally (known.mono le)
  | heading index text => exact .heading index text
  | closing index text fits => exact .closing index text fits

theorem PackSource.fits_redirectsKeep (pack : Pack) (q : Persona) :
    (packRules pack).RedirectsKeep (PackSource.Fits q) := by
  intro redirect source w produced fits made other member
  have stores : KeepsStores Callback.Hosted := by
    intro callback stored holder objective hosted receiver member
    cases List.mem_append.mp member with
    | inl member => exact hosted receiver member
    | inr member => exact ⟨_, List.mem_singleton.mp member⟩
  have hosted : (packRules pack).RedirectsKeep fun source => source.callback.Hosted :=
    stores.redirectsKeep
  exact ⟨Persona.under_redirectsKeep pack q redirect source w produced fits.under made other member,
    hosted redirect source w produced fits.hosted made other member⟩

theorem PackSource.Fits.becomes {source other : PackSource} (fits : source.Fits q)
    (becomes : PackSource.Becomes source other) : PackSource.Fits q other := by
  induction becomes with
  | refl => exact fits
  | tail before step ih =>
    obtain ⟨redirect, w, member⟩ := step
    exact PackSource.fits_redirectsKeep {} q redirect _ w _ ih rfl _ member

def Machine.Holds (pack : Pack) (start : Machine packWords) (n : Nat) : Prop :=
  ∀ cell, ∀ source ∈ (start.after (packRules pack) n).heap.collected cell,
    start.Aside pack cell source

theorem Task.Within.fits {task : Task packWords} (within : task.Within pack start n q)
    (holds : start.Holds pack n) {source : PackSource}
    (under : (start.after (packRules pack) n).RunsUnder task source) :
    PackSource.Fits q source := by
  cases within with
  | @line issuer sources chain flags topLevel issued ready collected =>
    obtain becomes | ⟨own, among, becomes⟩ := under
    · exact issued.becomes becomes
    · refine PackSource.Fits.becomes ?_ becomes
      cases sources with
      | ready present => exact ready present rfl own among
      | collected cell => exact collected cell rfl own (holds cell own among)
  | execute line fits =>
    obtain rfl : source = _ := under
    exact fits
  | drip line fit => exact fit source under
  | _ => exact under.elim

/-! Turns. -/

/-- Results of a call go where the caller may send them, and to the caller if it is not silent. -/
theorem Errand.known_called {frame : Frame packWords} {task : Task packWords} {caller : PackSource}
    {function : BoundFunction packWords} {callback : Callback packWords} {returnCall : Bool}
    {callee : PackSource} (takes : start.Takes pack n ⟨frame, task⟩)
    (under : (start.after (packRules pack) n).RunsUnder task caller)
    (hosted : caller.callback.Hosted) (sink : frame.sink.Known pack start n)
    (heard : ∀ receiver ∈ callback, receiver ∈ caller.callback ∨ receiver ∈ frame.sink ∨
      receiver = .slot frame.slot ∨ ∃ tally, receiver = .tally tally)
    (queues : .queue ⟨frame, .call function (announced isSilent caller function.id callback)
      returnCall callee⟩ ∈ (start.after (packRules pack) n).turnOperations (packRules pack)) :
    (announced isSilent caller function.id callback).Known pack start (n + 1) := by
  have known : callback.Known pack start (n + 1) := by
    intro receiver member
    obtain own | outer | rfl | ⟨tally, rfl⟩ := heard receiver member
    · exact hosted.known receiver own
    · exact sink.mono (Nat.le_succ n) receiver outer
    · trivial
    · trivial
  cases silent : caller.persona.silent with
  | true =>
    have quiet : announced isSilent caller function.id callback = callback := if_pos silent
    rw [quiet]
    exact known
  | false =>
    have aloud : announced isSilent caller function.id callback =
        Callback.chain [.announce caller.persona function.id] callback :=
      if_neg (Bool.eq_false_iff.mp silent)
    rw [aloud]
    refine Callback.Known.chain (fun receiver member => ?_) known
    rw [List.mem_singleton.mp member]
    exact ⟨n, Nat.lt_succ_self n, _, caller, function, ⟨takes, under, silent, _, _, _, queues⟩, rfl,
      rfl⟩

theorem Errand.permitted {frame : Frame packWords} {task : Task packWords}
    {operation : Operation packWords}
    (errand : Errand pack (start.after (packRules pack) n) frame task operation)
    (member : operation ∈ (start.after (packRules pack) n).turnOperations (packRules pack))
    (takes : start.Takes pack n ⟨frame, task⟩) (sink : frame.sink.Known pack start n)
    (fit : ∀ source, (start.after (packRules pack) n).RunsUnder task source →
      PackSource.Fits q source)
    (arrive : ∀ source, (start.after (packRules pack) n).ArrivesUnder pack source →
      PackSource.Fits q source) :
    operation.Permitted pack start n q task := by
  have later := sink.mono (Nat.le_succ n)
  cases errand with
  | plain plain => cases operation <;> trivial
  | report under error forked => exact (fit _ under).under
  | success under text =>
    intro silent w
    rw [Persona.sendSuccess_silent ((fit _ under).under.silent silent)]
    exact .refl w
  | failure under text =>
    intro silent w
    rw [Persona.sendFailure_silent ((fit _ under).under.silent silent)]
    exact .refl w
  | opened index => exact fun _ w => World.notes_add False.elim w
  | deliver under outcome => exact (fit _ under).hosted.known
  | returnFrom outcome => exact sink
  | execute under line => exact ⟨later, .execute line (fit _ under)⟩
  | drip under line => exact ⟨later, .drip line fun source among => fit source (under source among)⟩
  | fallthrough => exact ⟨later, .fallthrough⟩
  | @condition opens source arrives condition bound =>
    refine ⟨later, .condition bound (fun receiver among => ?_)
      ⟨Way.asked.restrict_mono (arrive source arrives).under, Callback.hosted_empty⟩⟩
    rw [List.mem_singleton.mp among]
    exact ⟨n, rfl, opens, arrives⟩
  | continuation opens under rest flags =>
    refine ⟨later, .line rest flags false (fit _ under) (fun _ same => by cases same) ?_⟩
    -- No other turn has opened the cell, so what is put aside for it has arrived in this one.
    rintro _ ⟨⟩ source ⟨i, same, opened, arrives⟩
    obtain rfl := opens_once opened opens same
    exact arrive source arrives
  | @called way caller under function callback heard returnCall =>
    have fits := fit caller under
    refine ⟨later, .call function returnCall
      (known_called takes under fits.hosted sink heard member) ?_⟩
    rw [Task.ways, way]
    exact ⟨Way.called.restrict_mono fits.under, Callback.hosted_empty⟩
  | traced way trace under function =>
    have fits := fit _ under
    refine ⟨later, .call function false Callback.hosted_empty.known ?_⟩
    rw [Task.ways, way]
    have redirected : (trace.source.persona.withOutput (.trace trace.index)).Under q :=
      ⟨fits.under.permission, fits.under.silent⟩
    exact ⟨Way.traced.restrict_mono redirected, fits.hosted⟩
  | total under tally =>
    exact ⟨later, .total tally ((fit _ under).hosted.known.chain (Callback.known_recorder frame))⟩
  | heading index text => exact ⟨later, .heading index text⟩
  | closing under index text => exact ⟨later, .closing index text (fit _ under)⟩

theorem PackSource.Fits.leaf_permitted {source : PackSource} (fits : source.Fits q)
    {frame : Frame packWords} (sink : frame.sink.Known pack start n) (line : LeafLine packWords)
    (m : Machine packWords) :
    ∀ operation ∈ leafOperations (packRules pack) frame line source m,
      operation.Permitted pack start n q (.execute line source) := by
  have acts : Operation.Permitted pack start n q (.execute line source)
      (.update fun setting => ((packRules pack).leaf line.leaf source setting).2) := by
    intro silent w
    refine (line.leaf.notes_perform (fits.under.silent silent) w).mono fun effect said => ?_
    obtain ⟨message, leaf, same⟩ := said
    exact ⟨line, source, message, rfl, leaf, same⟩
  have finish {outcome : Outcome} : ∀ operation ∈
      [Operation.deliver source.callback outcome, .record frame outcome] ++
        (if line.flags.isReturn then [.returnFrom frame outcome] else []),
      operation.Permitted pack start n q (.execute line source) := by
    intro operation member
    simp only [List.mem_append, List.mem_cons, List.not_mem_nil, or_false] at member
    obtain (rfl | rfl) | member := member
    · exact fits.hosted.known
    · trivial
    · split at member
      · rw [List.mem_singleton.mp member]
        exact sink
      · cases member
  intro operation member
  unfold leafOperations at member
  simp only [List.mem_append, List.mem_cons, List.not_mem_nil, or_false] at member
  obtain (rfl | rfl) | member := member
  · trivial
  · exact acts
  · split at member
    · obtain rfl | member := List.mem_cons.mp member
      · trivial
      · exact finish operation member
    · obtain rfl | member := List.mem_cons.mp member
      · exact fits.under
      · obtain rfl | member := List.mem_cons.mp member
        · trivial
        · exact finish operation member

theorem Machine.Takes.permitted {top : Entry packWords} (takes : start.Takes pack n top)
    (holds : start.Holds pack n) (sink : top.frame.sink.Known pack start n)
    (within : top.task.Within pack start n q) :
    ∀ operation ∈ (start.after (packRules pack) n).turnOperations (packRules pack),
      operation.Permitted pack start n q top.task := by
  obtain ⟨frame, task⟩ := top
  obtain ⟨lower, entries⟩ := takes.top
  have fit : ∀ source, (start.after (packRules pack) n).RunsUnder task source →
      PackSource.Fits q source := fun source under => within.fits holds under
  have turn := turnOperations_of_entries (packRules pack) entries
  have later := sink.mono (Nat.le_succ n)
  intro operation member
  have own := member
  rw [turn] at own
  change Task.Within pack start n q task at within
  cases within with
  | line chain flags topLevel issued ready collected =>
    obtain ⟨errands, arrive⟩ := line_errands pack entries
    exact (errands operation member).permitted member takes sink fit
      fun source arrives => fit source (arrive source arrives)
  | execute line fits => exact fits.leaf_permitted sink line _ operation own
  | @drip line sources fit =>
    cases sources with
    | nil => cases own
    | cons source rest =>
      obtain rfl | rfl := mem_dripOperations own
      · exact ⟨later, .execute line (fit source List.mem_cons_self)⟩
      · exact ⟨later, .drip line fun other among => fit other (List.mem_cons_of_mem source among)⟩
  | call function returnCall known fits =>
    simp only [operations, List.mem_append, List.mem_cons, List.mem_map, List.not_mem_nil,
      or_false] at own
    have told := known.mono (Nat.le_succ n)
    obtain ((rfl | rfl | rfl) | ⟨line, among, rfl⟩) | rfl := own
    · trivial
    · trivial
    · trivial
    · refine ⟨told, .line line Flags.none true fits ?_ fun _ same => by cases same⟩
      rintro _ ⟨⟩ other among
      rw [List.mem_singleton.mp among]
      exact fits
    · exact ⟨told, .endFunction⟩
  | endFunction =>
    simp only [operations] at own
    split at own
    · rw [List.mem_singleton.mp own]
      exact sink
    · cases own
  | condition bound known fits =>
    simp only [operations, List.mem_cons] at own
    rw [conditionProducer_operations] at own
    simp only [List.mem_append, List.mem_map, List.mem_singleton] at own
    have told := known.mono (Nat.le_succ n)
    obtain rfl | ⟨function, _, rfl⟩ | rfl := own
    · trivial
    · exact ⟨told, .call function true told fits⟩
    · exact ⟨told, .fallthrough⟩
  | fallthrough =>
    rw [List.mem_singleton.mp own]
    exact sink
  | total tally known =>
    rw [List.mem_singleton.mp own]
    exact known
  | heading index text =>
    rw [List.mem_singleton.mp own]
    exact fun _ w => World.notes_add False.elim w
  | closing index text fits =>
    change operation ∈ [.detach, .update (World.add (.traced (.opened index) .flush)),
      .update (Persona.sendSuccess _ text)] at own
    simp only [List.mem_cons, List.not_mem_nil, or_false] at own
    obtain rfl | rfl | rfl := own
    · trivial
    · exact fun _ w => World.notes_add False.elim w
    · intro silent w
      rw [Persona.sendSuccess_silent (fits.under.silent silent)]
      exact .refl w

/-! What is shown in a turn of a task within a silent persona. -/

theorem Receiver.Known.notes {receiver : Receiver packWords} (known : receiver.Known pack start n)
    (outcome : Outcome) (scene : Scene packWords) :
    World.Notes (start.Announces pack n) scene.setting
      (receiver.hear (packRules pack) outcome scene).setting := by
  cases receiver with
  | slot id => exact .refl _
  | tally id => exact .refl _
  | collect cell polarity persona callback =>
    simp only [Receiver.hear]
    split <;> exact .refl _
  | announce persona function =>
    obtain ⟨i, less, caller, source, bound, calls, rfl, rfl⟩ := known
    exact Persona.notes_announceResult bound.id outcome scene.setting
      ⟨i, less, caller, source, bound, outcome.value, calls, rfl⟩
  | host listener =>
    cases listener with
    | named name => exact World.notes_add False.elim _
    | score stored holder objective => cases stored <;> exact World.notes_setScore _ _ _ _
    | finished function => exact World.notes_add False.elim _

theorem Callback.Known.notes {callback : Callback packWords} (known : callback.Known pack start n)
    (outcome : Outcome) (scene : Scene packWords) :
    World.Notes (start.Announces pack n) scene.setting
      (callback.deliver (packRules pack) outcome scene).setting := by
  induction callback generalizing scene with
  | nil => exact .refl _
  | cons receiver rest ih =>
    have first := (known receiver List.mem_cons_self).notes outcome scene
    exact first.trans (ih (fun other member => known other (List.mem_cons_of_mem _ member)) _)

theorem Machine.notes_trace {P : Effect → Prop} (pack : Pack) (event : TraceEvent)
    (m : Machine packWords) :
    World.Notes P m.setting (m.trace (packRules pack) event).setting := by
  unfold trace
  split
  · exact .refl _
  · exact World.notes_add False.elim _

theorem Operation.Permitted.notes {task : Task packWords} {operation : Operation packWords}
    (permitted : operation.Permitted pack start n q task) (silent : q.silent = true)
    (m : Machine packWords) :
    World.Notes (fun effect => task.Says effect ∨ start.Announces pack n effect) m.setting
      (operation.apply (packRules pack) m).setting := by
  have told {callback : Callback packWords} (known : callback.Known pack start n)
      (outcome : Outcome) :
      World.Notes (fun effect => task.Says effect ∨ start.Announces pack n effect) m.setting
        (callback.deliver (packRules pack) outcome m.toScene).setting :=
    (known.notes outcome m.toScene).mono fun _ => .inr
  cases operation with
  | queue entry =>
    simp only [apply, enqueue_toScene]
    exact .refl _
  | returnFrom frame outcome => exact told permitted outcome
  | deliver callback outcome => exact told permitted outcome
  | deliverTally tally callback =>
    simp only [apply, Callback.deliverTally]
    split
    · exact told permitted _
    · exact .refl _
  | report source error forked =>
    have under : source.persona.Under q := permitted
    refine (notes_trace pack (.error error.message) m).trans ?_
    show World.Notes _ _ (source.persona.handleError error forked _)
    rw [Persona.handleError_silent (under.silent silent)]
    exact World.notes_add False.elim _
  | collect cell source => exact permitted.elim
  | update change => exact (permitted silent m.setting).mono fun _ => .inl
  | trace event => exact notes_trace pack event m
  | attach tracer =>
    simp only [apply]
    split <;> exact .refl _
  | _ => exact .refl _

/-- In a turn of a task within a silent persona nothing is shown but what is said, and results to
those who have called aloud. -/
theorem Machine.Takes.notes {top : Entry packWords} (takes : start.Takes pack n top)
    (permitted : ∀ operation ∈ (start.after (packRules pack) n).turnOperations (packRules pack),
      operation.Permitted pack start n q top.task) (silent : q.silent = true) :
    World.Notes (fun effect => top.task.Says effect ∨ start.Announces pack n effect)
      (start.after (packRules pack) n).setting (start.after (packRules pack) (n + 1)).setting := by
  obtain ⟨lower, entries⟩ := takes.top
  rw [after_succ, step_eq_applyAll _ entries]
  exact Operation.applyAll_induction (P := fun there : Machine packWords =>
      World.Notes _ (start.after (packRules pack) n).setting there.setting)
    (fun operation member there before =>
      before.trans ((permitted operation member).notes silent there)) (.refl _)

/-! Runs. -/

def Machine.BeginsWithin (pack : Pack) (start : Machine packWords) (p : Persona) : Prop :=
  ∀ entry ∈ start.stack.entries, entry.frame.sink.Known pack start 0 ∧
    entry.task.Within pack start 0 p

theorem Machine.Comes.within {p : Persona} (begins : start.BeginsWithin pack p)
    {entry : Entry packWords} {ways : List Way} (comes : start.Comes pack n entry ways)
    (holds : ∀ i < n, start.Holds pack i) :
    entry.frame.sink.Known pack start n ∧ entry.task.Within pack start n (p.ceiling ways) := by
  induction comes with
  | seeded first =>
    obtain ⟨sink, within⟩ := begins _ first
    exact ⟨sink.mono (Nat.zero_le _), within.mono (Nat.zero_le _)⟩
  | @queued i n top entry ways earlier takes comes queues ih =>
    obtain ⟨sink, within⟩ := ih fun k less => holds k (Nat.lt_trans less earlier)
    obtain ⟨known, permitted⟩ := takes.permitted (holds i earlier) sink within _ queues
    rw [Persona.ceiling_append]
    exact ⟨known.mono earlier, permitted.mono earlier⟩

theorem Operation.Permitted.collects {task : Task packWords} {operation : Operation packWords}
    (permitted : operation.Permitted pack start n q task) {m : Machine packWords} {cell : CellId}
    {polarity : Polarity} {source : PackSource} {outcome : Outcome}
    (heard : (.collect cell polarity source.persona source.callback, outcome) ∈
      operation.heard m) : start.Aside pack cell source := by
  have told {callback : Callback packWords} {result : Outcome} (known : callback.Known pack start n)
      (heard : (.collect cell polarity source.persona source.callback, outcome) ∈
        callback.hearing result) : start.Aside pack cell source := by
    obtain ⟨receiver, among, same⟩ := List.mem_map.mp heard
    cases same
    exact known _ among
  cases operation with
  | returnFrom frame result => exact told permitted heard
  | deliver callback result => exact told permitted heard
  | deliverTally tally callback =>
    simp only [Operation.heard] at heard
    split at heard
    · exact told permitted heard
    · cases heard
  | _ => cases heard

/-- Before each turn all work has come into the run somehow, and cells hold what has been put aside
for them. By induction on the turns: what a turn may do depends on how its task has come, and that
on the cells of earlier turns only. -/
theorem Machine.BeginsWithin.after {p : Persona} (begins : start.BeginsWithin pack p)
    (reached : start.Reached (packRules pack) PackTask) (cellless : start.heap.cells = #[])
    (runs : start.Runs (packRules pack) n) :
    (∀ i ≤ n, start.Holds pack i) ∧
      ∀ entry ∈ (start.after (packRules pack) n).stack.entries,
        ∃ ways, start.Comes pack n entry ways := by
  induction n with
  | zero =>
    refine ⟨fun i least cell source member => ?_, fun entry first => ⟨[], .seeded first⟩⟩
    obtain rfl := Nat.le_zero.mp least
    change source ∈ start.heap.collected cell at member
    simp [Heap.collected, cellless] at member
  | succ n ih =>
    obtain ⟨before, goes⟩ := (runs_succ_last_iff _ n start).mp runs
    obtain ⟨holds, comes⟩ := ih before
    obtain ⟨_, ⟨top, lower, entries⟩, _⟩ := (verdict?_eq_none_iff _).mp goes
    have takes : start.Takes pack n top := ⟨runs, lower, entries⟩
    obtain ⟨ways, came⟩ := comes top (entries ▸ List.mem_cons_self)
    obtain ⟨sink, within⟩ := came.within begins fun i less => holds i (Nat.le_of_lt less)
    have permitted := takes.permitted (holds n (Nat.le_refl n)) sink within
    refine ⟨fun i le cell source member => ?_, fun entry member => ?_⟩
    · obtain less | rfl := Nat.lt_or_eq_of_le le
      · exact holds i (Nat.le_of_lt_succ less) cell source member
      · have direct : ∀ operation ∈ (start.after (packRules pack) n).turnOperations
            (packRules pack), ∀ cell source, operation ≠ .collect cell source := by
          rintro _ member cell source rfl
          exact permitted _ member
        rw [after_succ] at member
        obtain held | ⟨polarity, outcome, heard⟩ := mem_collected_step direct member
        · exact holds n (Nat.le_refl n) cell source held
        · rw [turnHeard_of_entries _ entries] at heard
          obtain ⟨operation, among, there, heard⟩ := Operation.mem_allHeard heard
          exact (permitted operation among).collects heard
    · obtain kept | queued := mem_step (reached.after before).pending entries
        (after_succ (packRules pack) n start ▸ member)
      · obtain ⟨others, came⟩ := comes entry (entries ▸ List.mem_cons_of_mem _ kept)
        exact ⟨others, came.mono (Nat.le_succ n)⟩
      · exact ⟨_, .queued (Nat.lt_succ_self n) takes came queued⟩

theorem RunRequest.opening_beginsWithin (pack : Pack) (request : RunRequest)
    (functions : List (BoundFunction packWords)) (w : World)
    (hosted : request.source.callback.Hosted) :
    (request.opening functions w).BeginsWithin pack request.source.persona := by
  intro entry member
  obtain ⟨function, _, seed, slot, rfl⟩ := request.opening_calls functions w member
  refine ⟨Callback.hosted_empty.known, .call function false (fun receiver among => ?_)
    ⟨.refl _, hosted⟩⟩
  rw [List.mem_singleton.mp among]
  trivial

end

/-- Lines gain neither permission nor voice through calls. Whatever way work comes into a run, its
lines run under sources that have at most the permission of the first source, and are silent if that
is. In functions, however deep, they have at most function permission, and are silent if one of the
functions on the way was called by a line or asked by a condition. Such work shows nobody anything
but what its `say` lines say, and results that earlier lines in no such function wait for. -/
theorem no_line_gains_standing (pack : Pack) (request : RunRequest)
    (functions : List (BoundFunction packWords)) (w : World) (start : Machine packWords) (n : Nat)
    (begins : start = request.opening functions w) (hosted : request.source.callback.Hosted)
    (runs : start.Runs (packRules pack) (n + 1)) :
    ∃ top, start.Takes pack n top ∧ (∃ ways, start.Comes pack n top ways) ∧
      ∀ ways, start.Comes pack n top ways →
        (∀ source, (start.after (packRules pack) n).RunsUnder top.task source →
          source.persona.permission ≤ request.source.persona.permission ∧
          (request.source.persona.silent = true → source.persona.silent = true) ∧
          (ways ≠ [] → source.persona.permission ≤
            min Persona.functionPermission request.source.persona.permission) ∧
          (Silencing ways → source.persona.silent = true)) ∧
        (Silencing ways → World.Notes
          (fun effect => top.task.Says effect ∨ ∃ i < n, ∃ caller source function value,
            start.CallsAloud pack i caller source function ∧
            (∀ others, start.Comes pack i caller others → ¬Silencing others) ∧
            effect = source.persona.notedResult function.id value)
          (start.after (packRules pack) n).setting
          (start.after (packRules pack) (n + 1)).setting) := by
  subst begins
  have within := request.opening_beginsWithin pack functions w hosted
  have cellless : (request.opening functions w).heap.cells = #[] :=
    congrArg (fun scene : Scene packWords => scene.heap.cells)
      (request.opening_start functions w).1
  obtain ⟨before, goes⟩ := (runs_succ_last_iff _ n _).mp runs
  obtain ⟨holds, comes⟩ := within.after (request.opening_reached functions w pack) cellless before
  obtain ⟨_, ⟨top, lower, entries⟩, _⟩ := (verdict?_eq_none_iff _).mp goes
  have takes : (request.opening functions w).Takes pack n top := ⟨runs, lower, entries⟩
  have fits {i : Nat} (le : i ≤ n) {caller : Entry packWords} {others : List Way}
      (came : (request.opening functions w).Comes pack i caller others) {source : PackSource}
      (under : ((request.opening functions w).after (packRules pack) i).RunsUnder caller.task
        source) : source.persona.Under (request.source.persona.ceiling others) :=
    ((came.within within fun k less =>
      holds k (Nat.le_trans (Nat.le_of_lt less) le)).2.fits (holds i le) under).under
  refine ⟨top, takes, comes top (entries ▸ List.mem_cons_self), fun ways came =>
    ⟨fun source under => ?_, fun silencing => ?_⟩⟩
  · have own := fits (Nat.le_refl n) came under
    have first := own.trans (request.source.persona.ceiling_under ways)
    exact ⟨first.permission, first.silent,
      fun entered => Nat.le_trans own.permission (Persona.ceiling_permission _ entered),
      fun silencing => own.silent (Persona.ceiling_silent _ silencing)⟩
  · obtain ⟨sink, task⟩ := came.within within fun k less => holds k (Nat.le_of_lt less)
    have permitted := takes.permitted (holds n (Nat.le_refl n)) sink task
    refine (takes.notes permitted (Persona.ceiling_silent _ silencing)).mono fun effect shown => ?_
    refine shown.imp_right fun announces => ?_
    obtain ⟨i, less, caller, source, function, value, calls, same⟩ := announces
    refine ⟨i, less, caller, source, function, value, calls, fun others other silenced => ?_, same⟩
    have silent := (fits (Nat.le_of_lt less) other calls.under).silent
      (Persona.ceiling_silent _ silenced)
    exact absurd (calls.loud.symm.trans silent) Bool.false_ne_true

def hushedPack : Pack where
  functions :=
    [(⟨"minecraft", "f", .refl true, .refl true⟩, { lines := [
        .obj [("run", .arr [.str "Function", .str "g"])]] }),
     (⟨"minecraft", "g", .refl true, .refl true⟩, { lines := [
        .obj [("run", .arr [.str "Say", .str "hush"])]] })]

def hushedRun : Machine packWords :=
  let request : RunRequest := { target := "f" }
  request.opening ((request.functions hushedPack).toOption.getD []) {}

theorem hushedRun_runs : hushedRun.Runs (packRules hushedPack) 5 := by
  simp only [runs_succ_iff]
  exact ⟨rfl, rfl, rfl, rfl, rfl, runs_zero _ _⟩

theorem hushedRun_comes : ∃ top ways source, hushedRun.Takes hushedPack 4 top ∧
    hushedRun.Comes hushedPack 4 top ways ∧ Silencing ways ∧
    (hushedRun.after (packRules hushedPack) 4).RunsUnder top.task source := by
  have takes {n : Nat} (less : n < 5) {top : Entry packWords} {lower : List (Entry packWords)}
      (entries : (hushedRun.after (packRules hushedPack) n).stack.entries = top :: lower) :
      hushedRun.Takes hushedPack n top := ⟨hushedRun_runs.mono less, lower, entries⟩
  have first : hushedRun.Comes hushedPack 0 _ [] := .seeded (.head _)
  have second : hushedRun.Comes hushedPack 1 _ _ :=
    .queued Nat.zero_lt_one (takes (by decide) rfl) first (.tail _ (.tail _ (.tail _ (.head _))))
  have third : hushedRun.Comes hushedPack 2 _ _ :=
    .queued (Nat.lt_succ_self 1) (takes (by decide) rfl) second (.tail _ (.tail _ (.head _)))
  have fourth : hushedRun.Comes hushedPack 3 _ _ :=
    .queued (Nat.lt_succ_self 2) (takes (by decide) rfl) third
      (.tail _ (.tail _ (.tail _ (.head _))))
  have fifth : hushedRun.Comes hushedPack 4 _ _ :=
    .queued (Nat.lt_succ_self 3) (takes (by decide) rfl) fourth (.tail _ (.head _))
  exact ⟨_, _, _, takes (by decide) rfl, fifth, .inl (by decide), rfl⟩

theorem no_line_gains_standing_hushed : ∃ top ways source, hushedRun.Takes hushedPack 4 top ∧
    hushedRun.Comes hushedPack 4 top ways ∧ Silencing ways ∧
    (hushedRun.after (packRules hushedPack) 4).RunsUnder top.task source ∧
    source.persona.permission ≤ 2 ∧ source.persona.silent = true := by
  have hosted : PackSource.server.callback.Hosted := Callback.hosted_empty
  obtain ⟨top, takes, _, all⟩ := no_line_gains_standing hushedPack { target := "f" } _ {}
    hushedRun 4 rfl hosted hushedRun_runs
  obtain ⟨other, ways, source, again, comes, silencing, under⟩ := hushedRun_comes
  obtain ⟨_, entries⟩ := takes.top
  obtain ⟨_, same⟩ := again.top
  cases entries.symm.trans same
  obtain ⟨_, _, bounded, silent⟩ := (all ways comes).1 source under
  have entered : ways ≠ [] := by
    rintro rfl
    obtain among | among := silencing <;> cases among
  exact ⟨top, ways, source, takes, comes, silencing, under, bounded entered, silent silencing⟩

end PackEngine
