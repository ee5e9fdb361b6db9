import PackEngine.Proofs.StackOrder

/-! Activations. A frame is known by its slot, which no frame before it had. Once a frame has
returned, nothing of the frames known by then that the return covers can wait again. -/
namespace PackEngine

variable {V : Vocabulary}

structure Heap.Grows (before after : Heap V) : Prop where
  slots : before.slots.size ≤ after.slots.size
  tallies : before.tallies.size ≤ after.tallies.size

theorem Heap.Grows.refl (h : Heap V) : h.Grows h := ⟨Nat.le_refl _, Nat.le_refl _⟩

theorem Heap.Grows.trans {first second third : Heap V} (before : first.Grows second)
    (after : second.Grows third) : first.Grows third :=
  ⟨Nat.le_trans before.slots after.slots, Nat.le_trans before.tallies after.tallies⟩

theorem Receiver.hear_grows (rules : Rules V) (outcome : Outcome) (scene : Scene V)
    (receiver : Receiver V) : scene.heap.Grows (receiver.hear rules outcome scene).heap := by
  cases receiver with
  | slot id => exact ⟨Nat.le_of_eq Array.size_setIfInBounds.symm, Nat.le_refl _⟩
  | tally id => exact ⟨Nat.le_refl _, Nat.le_of_eq Array.size_modify.symm⟩
  | collect cell polarity persona callback =>
    simp only [hear]
    split <;> exact ⟨Nat.le_refl _, Nat.le_refl _⟩
  | announce persona function => exact .refl _
  | host listener => exact .refl _

theorem Callback.deliver_grows (rules : Rules V) (callback : Callback V) (outcome : Outcome)
    (scene : Scene V) : scene.heap.Grows (callback.deliver rules outcome scene).heap := by
  unfold deliver
  induction callback generalizing scene with
  | nil => exact .refl _
  | cons receiver rest ih =>
    rw [List.foldl_cons]
    exact (receiver.hear_grows rules outcome scene).trans (ih _)

namespace Operation

variable {rules : Rules V}

theorem grows (rules : Rules V) (operation : Operation V) (m : Machine V) :
    m.heap.Grows (operation.apply rules m).heap := by
  have trace (event : TraceEvent) : m.heap.Grows (m.trace rules event).heap := by
    rw [Machine.trace_heap]
    exact .refl _
  cases operation with
  | queue entry =>
    simp only [apply, Machine.enqueue_toScene]
    exact .refl _
  | returnFrom frame outcome => exact frame.sink.deliver_grows rules outcome m.toScene
  | record frame outcome => exact ⟨Nat.le_of_eq Array.size_setIfInBounds.symm, Nat.le_refl _⟩
  | deliver callback outcome => exact callback.deliver_grows rules outcome m.toScene
  | deliverTally tally callback =>
    simp only [apply, Callback.deliverTally]
    split
    · exact callback.deliver_grows rules _ m.toScene
    · exact .refl _
  | report source error forked => exact trace (.error error.message)
  | trace event => exact trace event
  | attach tracer =>
    simp only [apply]
    split <;> exact .refl _
  | newSlot =>
    refine ⟨?_, Nat.le_refl _⟩
    simp only [apply, Machine.newSlot, Heap.newSlot, Array.size_push]
    exact Nat.le_succ _
  | newTally =>
    refine ⟨Nat.le_refl _, ?_⟩
    simp only [apply, Heap.newTally, Array.size_push]
    exact Nat.le_succ _
  | _ => exact ⟨Nat.le_refl _, Nat.le_refl _⟩

theorem grows_applyAll (rules : Rules V) (operations : List (Operation V)) (m : Machine V) :
    m.heap.Grows (applyAll rules operations m).heap := by
  induction operations generalizing m with
  | nil => exact .refl _
  | cons operation rest ih => exact (operation.grows rules m).trans (ih _)

theorem slots_lt_applyAll {operations : List (Operation V)} (taken : .newSlot ∈ operations)
    (m : Machine V) : m.heap.slots.size < (applyAll rules operations m).heap.slots.size := by
  obtain ⟨before, after, rfl⟩ := List.append_of_mem taken
  rw [applyAll_append, applyAll_cons]
  have first := (grows_applyAll rules before m).slots
  have last := (grows_applyAll rules after ((applyAll rules before m).newSlot.2)).slots
  have taken : ((applyAll rules before m).newSlot.2).heap.slots.size =
      (applyAll rules before m).heap.slots.size + 1 := Array.size_push _
  show m.heap.slots.size <
    (applyAll rules after (applyAll rules before m).newSlot.2).heap.slots.size
  omega

theorem stack_suffix (rules : Rules V) (operation : Operation V) (m : Machine V) :
    (operation.apply rules m).stack.entries <:+ m.stack.entries := by
  have mundane (quiet : operation.Mundane) :
      (operation.apply rules m).stack.entries <:+ m.stack.entries := by
    have same := (quiet.keeps_waiting rules m).1
    exact same ▸ List.suffix_refl _
  cases operation with
  | queue entry =>
    simp only [apply, Machine.enqueue]
    split
    · exact List.suffix_refl _
    · split <;> exact List.suffix_refl _
  | returnFrom frame outcome => exact List.dropWhile_suffix _
  | _ => exact mundane trivial

theorem stack_suffix_applyAll (rules : Rules V) (operations : List (Operation V))
    (m : Machine V) : (applyAll rules operations m).stack.entries <:+ m.stack.entries :=
  applyAll_induction (fun operation _ m h => (operation.stack_suffix rules m).trans h)
    (List.suffix_refl _)

theorem mem_pending {operation : Operation V} {m : Machine V} {entry : Entry V}
    (member : entry ∈ (operation.apply rules m).pending.entries) :
    entry ∈ m.pending.entries ∨ operation = .queue entry := by
  have mundane (quiet : operation.Mundane) : entry ∈ m.pending.entries := by
    rw [(quiet.keeps_waiting rules m).2.1] at member
    exact member
  cases operation with
  | queue queued =>
    simp only [apply, Machine.enqueue] at member
    split at member
    · exact .inl member
    · split at member
      · exact .inl member
      · cases List.mem_cons.mp member with
        | inl same => exact .inr (same ▸ rfl)
        | inr member => exact .inl member
  | returnFrom frame outcome => exact .inl (List.mem_filter.mp member).1
  | _ => exact .inl (mundane trivial)

theorem mem_pending_applyAll {operations : List (Operation V)} {m : Machine V} {entry : Entry V}
    (member : entry ∈ (applyAll rules operations m).pending.entries) :
    entry ∈ m.pending.entries ∨ .queue entry ∈ operations := by
  induction operations generalizing m with
  | nil => exact .inl member
  | cons operation rest ih =>
    cases ih member with
    | inr later => exact .inr (List.mem_cons_of_mem _ later)
    | inl staged =>
      cases mem_pending staged with
      | inl staged => exact .inl staged
      | inr same => exact .inr (same ▸ List.mem_cons_self)

end Operation

namespace Machine

variable {rules : Rules V}

def turnOperations (rules : Rules V) (m : Machine V) : List (Operation V) :=
  match m.stack.entries with
  | [] => []
  | entry :: rest => (m.taking entry rest).operations rules entry.frame entry.task

theorem turnOperations_of_entries (rules : Rules V) {m : Machine V} {entry : Entry V}
    {rest : List (Entry V)} (entries : m.stack.entries = entry :: rest) :
    m.turnOperations rules = (m.taking entry rest).operations rules entry.frame entry.task := by
  unfold turnOperations
  rw [entries]

theorem step_eq_applyAll (rules : Rules V) {m : Machine V} {entry : Entry V}
    {rest : List (Entry V)} (entries : m.stack.entries = entry :: rest) :
    m.step rules =
      (Operation.applyAll rules (m.turnOperations rules) (m.taking entry rest)).pushPending := by
  rw [step_of_entries rules entries, turnOperations_of_entries rules entries, applyAll_operations]
  rfl

theorem step_of_nil (rules : Rules V) {m : Machine V} (entries : m.stack.entries = []) :
    m.step rules = m := by
  unfold step
  rw [(m.stack.pop?_eq_none_iff).mpr entries]

theorem mem_step {m : Machine V} (idle : m.pending = Stack.empty) {top : Entry V}
    {rest : List (Entry V)} (entries : m.stack.entries = top :: rest) {entry : Entry V}
    (member : entry ∈ (m.step rules).stack.entries) :
    entry ∈ rest ∨ .queue entry ∈ m.turnOperations rules := by
  rw [step_eq_applyAll rules entries] at member
  cases List.mem_append.mp member with
  | inl staged =>
    cases Operation.mem_pending_applyAll (List.mem_reverse.mp staged) with
    | inl before =>
      simp only [taking, idle] at before
      cases before
    | inr queued => exact .inr queued
  | inr kept =>
    exact .inl ((Operation.stack_suffix_applyAll rules _ (m.taking top rest)).mem kept)

theorem step_grows (rules : Rules V) (m : Machine V) : m.heap.Grows (m.step rules).heap := by
  cases entries : m.stack.entries with
  | nil =>
    rw [step_of_nil rules entries]
    exact .refl _
  | cons entry rest =>
    rw [step_eq_applyAll rules entries]
    exact Operation.grows_applyAll rules (m.turnOperations rules) (m.taking entry rest)

theorem after_grows (rules : Rules V) {n k : Nat} (le : n ≤ k) (m : Machine V) :
    (m.after rules n).heap.Grows (m.after rules k).heap := by
  induction le with
  | refl => exact .refl _
  | step _ ih =>
    rw [after_succ]
    exact ih.trans (step_grows rules _)

/-- A frame of a run: it returns no deeper than it is, and its slot has been given out. -/
structure Knows (m : Machine V) (frame : Frame V) : Prop where
  valid : frame.boundary.depth ≤ frame.depth
  known : frame.slot < m.heap.slots.size

theorem Knows.workplace (rules : Rules V) {m : Machine V} {entry : Entry V} {rest : List (Entry V)}
    (entries : m.stack.entries = entry :: rest) (h : m.Knows entry.frame) :
    (m.step rules).Knows (entry.task.workplace entry.frame m.heap.slots.size) := by
  have grown := (step_grows rules m).slots
  have child (opens : .newSlot ∈ m.turnOperations rules) :
      m.heap.slots.size < (m.step rules).heap.slots.size := by
    rw [step_eq_applyAll rules entries]
    exact Operation.slots_lt_applyAll opens (m.taking entry rest)
  have same : (m.step rules).Knows entry.frame :=
    ⟨h.valid, Nat.lt_of_lt_of_le h.known grown⟩
  rw [turnOperations_of_entries rules entries] at child
  cases task : entry.task with
  | call function callback returnCall source =>
    refine ⟨?_, child (by simp [task, operations])⟩
    cases returnCall with
    | true => exact Nat.le_succ_of_le h.valid
    | false => exact Nat.le_refl _
  | isolated producer output =>
    exact ⟨Nat.le_refl _, child (by simp [task, operations])⟩
  | _ => exact same

theorem Reached.knows {fits : Task V → Prop} {m : Machine V} (h : Reached rules fits m) :
    ∀ entry ∈ m.stack.entries, m.Knows entry.frame := by
  induction h with
  | @opened m seeded =>
    intro entry member
    have seeds := seeded.seeds
    have staged : entry ∈ m.pending.entries := by
      simpa [Machine.opened, Machine.pushPending, seeds.stack, Stack.empty] using member
    obtain ⟨seed, sink, slot, same, _, known⟩ := seeds.root entry staged
    rw [same]
    exact ⟨Nat.le_refl _, known⟩
  | @turn m before goes ih =>
    intro entry member
    obtain ⟨_, ⟨top, rest, entries⟩, _⟩ := (verdict?_eq_none_iff m).mp goes
    cases mem_step before.pending entries member with
    | inl kept =>
      obtain ⟨valid, known⟩ := ih entry (entries ▸ List.mem_cons_of_mem top kept)
      exact ⟨valid, Nat.lt_of_lt_of_le known (step_grows rules m).slots⟩
    | inr queued =>
      rw [turnOperations_of_entries rules entries] at queued
      have within : entry.frame = _ :=
      operations_within rules top.frame top.task (m.taking top rest) _ queued
      rw [within]
      exact (ih top (entries ▸ List.mem_cons_self)).workplace rules entries

/-- No frame below the given slot that the boundary covers has anything waiting. -/
def Sealed (boundary : Boundary) (slots : Nat) (m : Machine V) : Prop :=
  ∀ entry ∈ m.stack.entries, boundary.covers entry.frame = true → slots ≤ entry.frame.slot

theorem Sealed.step {boundary : Boundary} {slots : Nat} {m : Machine V}
    (h : m.Sealed boundary slots) (le : slots ≤ m.heap.slots.size)
    (idle : m.pending = Stack.empty) (goes : m.verdict? = none) :
    (m.step rules).Sealed boundary slots := by
  intro entry member covered
  obtain ⟨_, ⟨top, rest, entries⟩, _⟩ := (verdict?_eq_none_iff m).mp goes
  cases mem_step idle entries member with
  | inl kept => exact h entry (entries ▸ List.mem_cons_of_mem top kept) covered
  | inr queued =>
    rw [turnOperations_of_entries rules entries] at queued
    have within : entry.frame = _ :=
      operations_within rules top.frame top.task (m.taking top rest) _ queued
    have own := h top (entries ▸ List.mem_cons_self)
    rw [within] at covered ⊢
    cases task : top.task with
    | call function callback returnCall source => exact le
    | isolated producer output => exact le
    | _ => exact own (by simpa [task, Task.workplace] using covered)

theorem Reached.sealed_after {fits : Task V → Prop} {boundary : Boundary} {slots : Nat}
    {m : Machine V} (h : Reached rules fits m) (closed : m.Sealed boundary slots)
    (le : slots ≤ m.heap.slots.size) {n : Nat} (runs : m.Runs rules n) :
    (m.after rules n).Sealed boundary slots := by
  induction n with
  | zero => exact closed
  | succ n ih =>
    have earlier := runs.mono (Nat.le_succ n)
    rw [after_succ]
    exact (ih earlier).step (Nat.le_trans le (after_grows rules (Nat.zero_le n) m).slots)
      (h.after earlier).pending (runs n (Nat.lt_succ_self n))

theorem Reached.uncovered_of_returns {fits : Task V → Prop} {m : Machine V}
    (h : Reached rules fits m) {frame : Frame V} {outcome : Outcome}
    (returns : .returnFrom frame outcome ∈ m.turnOperations rules)
    (idle : ∀ entry, .queue entry ∉ m.turnOperations rules) :
    ∀ entry ∈ (m.step rules).stack.entries, frame.boundary.covers entry.frame = false := by
  intro entry member
  cases entries : m.stack.entries with
  | nil =>
    unfold turnOperations at returns
    rw [entries] at returns
    cases returns
  | cons top rest =>
    have within := operations_within rules top.frame top.task
      (m.taking top rest)
    rw [← turnOperations_of_entries rules entries] at within
    rw [step_eq_applyAll rules entries] at member
    obtain ⟨before, after, split⟩ := List.append_of_mem returns
    have found := (h.ordered.taking h.pending entries).applyAll rules
      fun operation member => within operation (split ▸ List.mem_append_left _ member)
    have own : frame = top.task.workplace top.frame m.heap.slots.size := within _ returns
    rw [← own] at found
    cases List.mem_append.mp member with
    | inl staged =>
      cases Operation.mem_pending_applyAll (List.mem_reverse.mp staged) with
      | inl before =>
        simp only [taking, h.pending] at before
        cases before
      | inr queued => exact absurd queued (idle entry)
    | inr kept =>
      rw [split, Operation.applyAll_append, Operation.applyAll_cons] at kept
      have left := (Operation.stack_suffix_applyAll rules after _).mem kept
      have filtered : (Operation.apply rules (Operation.applyAll rules before (m.taking top rest))
          (.returnFrom frame outcome)).stack.entries = _ := found.discard_eq_filter
      rw [filtered] at left
      simpa using (List.mem_filter.mp left).2

/-- The frame was reached from `start` by return calls in the first `n` turns. -/
inductive Behind (rules : Rules V) (m : Machine V) (n : Nat) (frame : Frame V) :
    Frame V → Prop where
  | itself : Behind rules m n frame frame
  | caller {k : Nat} {start : Frame V} {function : BoundFunction V} {callback : Callback V}
      {source : Source V} {rest : List (Entry V)} (early : k < n)
      (entries : (m.after rules k).stack.entries =
        ⟨start, .call function callback true source⟩ :: rest)
      (behind : Behind rules m n frame
        (start.child callback (some start.boundary) (m.after rules k).heap.slots.size)) :
      Behind rules m n frame start

theorem Behind.knows {fits : Task V → Prop} {m : Machine V} (h : Reached rules fits m) {n k : Nat}
    (runs : m.Runs rules n) (le : n ≤ k) {frame start : Frame V}
    (known : (m.after rules k).Knows frame) (behind : Behind rules m n frame start) :
    start.boundary = frame.boundary ∧ (m.after rules k).Knows start := by
  induction behind with
  | itself => exact ⟨rfl, known⟩
  | caller early entries behind ih =>
    obtain ⟨valid, young⟩ := (h.after (runs.mono (Nat.le_of_lt early))).knows _
      (entries ▸ List.mem_cons_self)
    have grown := (after_grows rules (Nat.le_trans (Nat.le_of_lt early) le) m).slots
    exact ⟨ih.1, valid, Nat.lt_of_lt_of_le young grown⟩

theorem Knows.mono {m : Machine V} {n k : Nat} (le : n ≤ k) {frame : Frame V}
    (h : (m.after rules n).Knows frame) : (m.after rules k).Knows frame :=
  ⟨h.valid, Nat.lt_of_lt_of_le h.known (after_grows rules le m).slots⟩

/-- After a turn that returns from a frame and queues nothing, no frame that was known by then and
returns as far as it does has anything waiting again. -/
theorem Reached.gone_of_covered {fits : Task V → Prop} {m : Machine V} (h : Reached rules fits m)
    {n : Nat} (runs : m.Runs rules (n + 1)) {frame : Frame V} {outcome : Outcome}
    (returns : .returnFrom frame outcome ∈ (m.after rules n).turnOperations rules)
    (idle : ∀ entry, .queue entry ∉ (m.after rules n).turnOperations rules) {start : Frame V}
    (boundary : start.boundary = frame.boundary) (known : (m.after rules (n + 1)).Knows start)
    {k : Nat} (later : n < k) (further : m.Runs rules k) :
    ∀ entry ∈ (m.after rules k).stack.entries, entry.frame ≠ start := by
  have now := h.after (runs.mono (Nat.le_succ n))
  have closed : (m.after rules (n + 1)).Sealed frame.boundary
      (m.after rules (n + 1)).heap.slots.size := by
    intro entry member covered
    have uncovered := now.uncovered_of_returns returns idle entry (after_succ rules n m ▸ member)
    cases covered.symm.trans uncovered
  intro entry member same
  have split : k = n + 1 + (k - (n + 1)) := by omega
  rw [split] at member further
  rw [after_add] at member
  have stays := (h.after runs).sealed_after closed (Nat.le_refl _)
    ((runs_add_iff rules (n + 1) (k - (n + 1)) m).mp further).2 entry member
  rw [same] at stays
  have old := stays (by
    rw [← boundary]
    simp [Boundary.covers, known.valid])
  exact absurd known.known (Nat.not_lt_of_le old)

theorem Reached.knows_of_returns {fits : Task V → Prop} {m : Machine V} (h : Reached rules fits m)
    {n : Nat} (runs : m.Runs rules n) {frame : Frame V} {outcome : Outcome}
    (returns : .returnFrom frame outcome ∈ (m.after rules n).turnOperations rules) :
    (m.after rules (n + 1)).Knows frame := by
  rw [after_succ]
  cases entries : (m.after rules n).stack.entries with
  | nil =>
    unfold turnOperations at returns
    rw [entries] at returns
    cases returns
  | cons top rest =>
    rw [turnOperations_of_entries rules entries] at returns
    have own : frame = _ := operations_within rules top.frame top.task _ _ returns
    rw [own]
    exact ((h.after runs).knows top (entries ▸ List.mem_cons_self)).workplace rules entries

/-- After a turn that returns from a frame and queues nothing, neither the frame nor any frame
that it was reached from by return calls has anything waiting again. -/
theorem Reached.gone_of_returns {fits : Task V → Prop} {m : Machine V} (h : Reached rules fits m)
    {n : Nat} (runs : m.Runs rules (n + 1)) {frame : Frame V} {outcome : Outcome}
    (returns : .returnFrom frame outcome ∈ (m.after rules n).turnOperations rules)
    (idle : ∀ entry, .queue entry ∉ (m.after rules n).turnOperations rules) {start : Frame V}
    (behind : Behind rules m n frame start) {k : Nat} (later : n < k) (further : m.Runs rules k) :
    ∀ entry ∈ (m.after rules k).stack.entries, entry.frame ≠ start := by
  have before := runs.mono (Nat.le_succ n)
  obtain ⟨boundary, known⟩ :=
    behind.knows h before (Nat.le_succ n) (h.knows_of_returns before returns)
  exact h.gone_of_covered runs returns idle boundary known later further

end Machine

end PackEngine
