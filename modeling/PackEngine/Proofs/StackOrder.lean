import PackEngine.Proofs.Shape
import PackEngine.Proofs.Turns
import PackEngine.Pack.Run

/-! The order of waiting work. Read from the top, seeds do not fall, depths do not rise within a
seed, and a depth of a seed has one frame. Returns drop entries from the top only; in this order
they drop all that they cover. -/
namespace PackEngine

variable {V : Vocabulary}

/-- `upper` may wait above `lower`. -/
def Frame.Precedes (upper lower : Frame V) : Prop :=
  upper.boundary.seed ≤ lower.boundary.seed ∧
    (upper.boundary.seed = lower.boundary.seed →
      lower.depth ≤ upper.depth ∧ (lower.depth = upper.depth → lower = upper))

theorem Frame.precedes_refl (frame : Frame V) : frame.Precedes frame :=
  ⟨Nat.le_refl _, fun _ => ⟨Nat.le_refl _, fun _ => rfl⟩⟩

theorem Frame.Precedes.child {frame lower : Frame V} (h : frame.Precedes lower)
    {child : Frame V} (seed : child.boundary.seed = frame.boundary.seed)
    (deeper : child.depth = frame.depth + 1) : child.Precedes lower := by
  refine ⟨seed ▸ h.1, fun same => ?_⟩
  have le := (h.2 (seed ▸ same)).1
  refine ⟨by omega, fun equal => ?_⟩
  omega

theorem Boundary.covers_of_precedes {frame upper lower : Frame V} (first : frame.Precedes upper)
    (h : upper.Precedes lower) (covered : frame.boundary.covers lower = true) :
    frame.boundary.covers upper = true := by
  simp only [Boundary.covers, Bool.and_eq_true, beq_iff_eq, decide_eq_true_eq] at covered ⊢
  have low := h.1
  have high := first.1
  have same : upper.boundary.seed = lower.boundary.seed := by omega
  have depth := (h.2 same).1
  exact ⟨by omega, by omega⟩

/-- Where nothing covered stands below something uncovered, dropping from the top is filtering. -/
theorem dropWhile_eq_filter {α : Type} {p : α → Bool} {l : List α}
    (h : l.Pairwise fun upper lower => p lower = true → p upper = true) :
    l.dropWhile p = l.filter fun a => !p a := by
  induction l with
  | nil => rfl
  | cons a l ih =>
    obtain ⟨above, rest⟩ := List.pairwise_cons.mp h
    cases first : p a with
    | true =>
      rw [List.dropWhile_cons_of_pos first, List.filter_cons_of_neg (by simp [first])]
      exact ih rest
    | false =>
      rw [List.dropWhile_cons_of_neg (by simp [first]), List.filter_cons_of_pos (by simp [first])]
      congr 1
      symm
      apply List.filter_eq_self.mpr
      intro b hb
      have uncovered := above b hb
      cases covered : p b with
      | false => rfl
      | true => cases first.symm.trans (uncovered covered)

namespace Machine

def Ordered (m : Machine V) : Prop :=
  m.stack.entries.Pairwise fun upper lower => upper.frame.Precedes lower.frame

/-- A task works in the frame: it is ahead of the stack, and everything staged is its own. -/
structure WorksIn (frame : Frame V) (m : Machine V) : Prop where
  ordered : m.Ordered
  ahead : ∀ entry ∈ m.stack.entries, frame.Precedes entry.frame
  staged : ∀ entry ∈ m.pending.entries, entry.frame = frame

/-- A return drops from the top all that it covers. -/
theorem WorksIn.discard_eq_filter {frame : Frame V} {m : Machine V} (h : m.WorksIn frame) :
    (m.stack.discard fun entry => frame.boundary.covers entry.frame).entries =
      m.stack.entries.filter fun entry => !frame.boundary.covers entry.frame := by
  rw [Stack.entries_discard]
  apply dropWhile_eq_filter
  apply h.ordered.imp_of_mem
  intro upper lower hu _ above
  exact Boundary.covers_of_precedes (h.ahead upper hu) above

end Machine

namespace Operation

def Mundane : Operation V → Prop
  | .queue _ => False
  | .returnFrom _ _ => False
  | _ => True

theorem Mundane.keeps_waiting {operation : Operation V} (h : operation.Mundane) (rules : Rules V)
    (m : Machine V) :
    (operation.apply rules m).stack = m.stack ∧ (operation.apply rules m).pending = m.pending ∧
      (operation.apply rules m).overflowed = m.overflowed := by
  have trace (event : TraceEvent) (m : Machine V) : (m.trace rules event).stack = m.stack ∧
      (m.trace rules event).pending = m.pending ∧
      (m.trace rules event).overflowed = m.overflowed := by
    unfold Machine.trace
    cases m.tracer <;> exact ⟨rfl, rfl, rfl⟩
  cases operation with
  | queue entry => exact h.elim
  | returnFrom frame outcome => exact h.elim
  | attach tracer =>
    simp only [apply]
    split <;> exact ⟨rfl, rfl, rfl⟩
  | report source error forked => exact trace _ m
  | trace event => exact trace event m
  | _ => exact ⟨rfl, rfl, rfl⟩

end Operation

namespace Machine

theorem WorksIn.enqueue {frame : Frame V} {m : Machine V} (h : m.WorksIn frame)
    (task : Task V) : (m.enqueue ⟨frame, task⟩).WorksIn frame := by
  unfold Machine.enqueue
  split
  · exact h
  · split
    · exact ⟨h.ordered, h.ahead, h.staged⟩
    · refine ⟨h.ordered, h.ahead, fun entry member => ?_⟩
      cases List.mem_cons.mp member with
      | inl same => rw [same]
      | inr member => exact h.staged entry member

theorem WorksIn.returnFrom {frame : Frame V} {m : Machine V} (h : m.WorksIn frame)
    (rules : Rules V) (outcome : Outcome) : (m.returnFrom rules frame outcome).WorksIn frame where
  ordered := h.ordered.sublist (List.dropWhile_sublist _)
  ahead entry member := h.ahead entry ((List.dropWhile_sublist _).mem member)
  staged entry member := h.staged entry (List.mem_filter.mp member).1

theorem WorksIn.apply {frame : Frame V} {m : Machine V} (h : m.WorksIn frame) (rules : Rules V)
    {operation : Operation V} (within : operation.Within frame) :
    (operation.apply rules m).WorksIn frame := by
  have mundane (quiet : operation.Mundane) : (operation.apply rules m).WorksIn frame := by
    obtain ⟨stack, pending, _⟩ := quiet.keeps_waiting rules m
    refine ⟨?_, fun entry => ?_, fun entry => ?_⟩
    · unfold Ordered
      rw [stack]
      exact h.ordered
    · rw [stack]
      exact h.ahead entry
    · rw [pending]
      exact h.staged entry
  cases operation with
  | queue entry =>
    cases within
    exact h.enqueue entry.task
  | returnFrom other outcome =>
    cases within
    exact h.returnFrom rules outcome
  | _ => exact mundane trivial

theorem WorksIn.applyAll {frame : Frame V} {m : Machine V} (h : m.WorksIn frame) (rules : Rules V)
    {operations : List (Operation V)} (within : ∀ operation ∈ operations, operation.Within frame) :
    (Operation.applyAll rules operations m).WorksIn frame :=
  Operation.applyAll_induction (fun operation member _ h => h.apply rules (within operation member))
    h

theorem WorksIn.pushPending {frame : Frame V} {m : Machine V} (h : m.WorksIn frame) :
    m.pushPending.Ordered := by
  have staged (entry : Entry V) (member : entry ∈ m.pending.entries.reverse) :
      entry.frame = frame := h.staged entry (List.mem_reverse.mp member)
  refine List.pairwise_append.mpr ⟨?_, h.ordered, ?_⟩
  · apply List.pairwise_of_forall_mem_list
    intro upper hu lower hl
    rw [staged upper hu, staged lower hl]
    exact frame.precedes_refl
  · intro upper hu lower hl
    rw [staged upper hu]
    exact h.ahead lower hl

theorem Ordered.taking {m : Machine V} (h : m.Ordered) (idle : m.pending = Stack.empty)
    {entry : Entry V} {rest : List (Entry V)} (entries : m.stack.entries = entry :: rest) :
    (m.taking entry rest).WorksIn (entry.task.workplace entry.frame m.heap.slots.size) := by
  unfold Ordered at h
  rw [entries] at h
  obtain ⟨above, below⟩ := List.pairwise_cons.mp h
  refine ⟨below, fun lower member => ?_, fun staged member => ?_⟩
  · have own := above lower member
    cases entry.task with
    | call function callback returnCall source =>
      exact own.child (by cases returnCall <;> rfl) rfl
    | isolated producer output => exact own.child rfl rfl
    | _ => exact own
  · simp only [Machine.taking, idle] at member
    cases member

theorem Ordered.step {m : Machine V} (h : m.Ordered) (rules : Rules V)
    (idle : m.pending = Stack.empty) (goes : m.verdict? = none) : (m.step rules).Ordered := by
  obtain ⟨_, ⟨entry, rest, entries⟩, _⟩ := (verdict?_eq_none_iff m).mp goes
  rw [step_of_entries rules entries]
  unfold performed
  rw [← applyAll_operations]
  have within := operations_within rules entry.frame entry.task (m.taking entry rest)
  exact ((h.taking idle entries).applyAll rules within).pushPending

structure Seeds (fits : Task V → Prop) (m : Machine V) : Prop where
  stack : m.stack = Stack.empty
  root : ∀ entry ∈ m.pending.entries, ∃ seed sink slot,
    entry.frame = Frame.root seed sink slot ∧ seed < m.nextSeed ∧ slot < m.heap.slots.size
  fit : ∀ entry ∈ m.pending.entries, fits entry.task
  rising : m.pending.entries.Pairwise fun newer older =>
    older.frame.boundary.seed < newer.frame.boundary.seed ∧ older.frame.slot < newer.frame.slot

theorem Seeded.seeds {fits : Task V → Prop} {m : Machine V} (h : Seeded fits m) :
    m.Seeds fits := by
  induction h with
  | start limits scene =>
    exact ⟨rfl, by simp [Machine.start, Stack.empty], by simp [Machine.start, Stack.empty],
      List.Pairwise.nil⟩
  | meanwhile scene tracer grown before ih =>
    refine ⟨ih.stack, fun entry member => ?_, ih.fit, ih.rising⟩
    obtain ⟨seed, sink, slot, same, young, known⟩ := ih.root entry member
    exact ⟨seed, sink, slot, same, young, Nat.lt_of_lt_of_le known grown⟩
  | @seed m task sink fit before ih =>
    -- All that an earlier seeding left stays below the next seed and the next slot.
    have older (entry : Entry V) (member : entry ∈ m.pending.entries) : ∃ seed sink slot,
        entry.frame = Frame.root seed sink slot ∧ seed < m.nextSeed + 1 ∧
          slot < (m.heap.slots.push none).size := by
      obtain ⟨seed, sink, slot, same, young, known⟩ := ih.root entry member
      refine ⟨seed, sink, slot, same, Nat.lt_succ_of_lt young, ?_⟩
      rw [Array.size_push]
      exact Nat.lt_succ_of_lt known
    unfold Machine.seed Machine.enqueue
    dsimp only
    split
    · exact ⟨ih.stack, older, ih.fit, ih.rising⟩
    · split
      · exact ⟨ih.stack, older, ih.fit, ih.rising⟩
      · refine ⟨ih.stack, fun entry member => ?_, fun entry member => ?_, ?_⟩
        · cases List.mem_cons.mp member with
          | inr member => exact older entry member
          | inl same =>
            rw [same]
            refine ⟨m.nextSeed, sink, _, rfl, Nat.lt_succ_self _, ?_⟩
            simp [newSlot, Heap.newSlot]
        · cases List.mem_cons.mp member with
          | inr member => exact ih.fit entry member
          | inl same =>
            rw [same]
            exact fit
        · refine List.pairwise_cons.mpr ⟨fun entry member => ?_, ih.rising⟩
          obtain ⟨seed, sink, slot, same, young, known⟩ := ih.root entry member
          rw [same]
          exact ⟨young, known⟩

theorem Seeds.opened {fits : Task V → Prop} {m : Machine V} (h : m.Seeds fits) :
    m.opened.Ordered := by
  have stack : m.opened.stack.entries = m.pending.entries.reverse := by
    simp [Machine.opened, Machine.pushPending, h.stack, Stack.empty]
  unfold Ordered
  rw [stack, List.pairwise_reverse]
  refine h.rising.imp fun rising => ?_
  exact ⟨Nat.le_of_lt rising.1, fun same => absurd same (Nat.ne_of_lt rising.1)⟩

theorem Reached.ordered {rules : Rules V} {fits : Task V → Prop} {m : Machine V}
    (h : Reached rules fits m) : m.Ordered := by
  induction h with
  | opened seeded => exact seeded.seeds.opened
  | turn before goes ih => exact ih.step rules before.pending goes

/-- Between two tasks the stack is in order, and every return in the next turn leaves of the
waiting work, staged or on the stack, all that it does not cover and nothing else. -/
theorem Reached.returns_filter {rules : Rules V} {m : Machine V}
    (h : Reached rules (fun _ => True) m) :
    (m.stack.entries.Pairwise fun upper lower => upper.frame.Precedes lower.frame) ∧
    ∀ entry rest, m.verdict? = none → m.stack.entries = entry :: rest →
      ∀ earlier frame outcome later,
        (m.taking entry rest).operations rules entry.frame entry.task =
          earlier ++ .returnFrom frame outcome :: later →
        let found := Operation.applyAll rules earlier (m.taking entry rest)
        let left := found.returnFrom rules frame outcome
        left.stack.entries = found.stack.entries.filter
            (fun waiting => !frame.boundary.covers waiting.frame) ∧
          left.pending.entries = found.pending.entries.filter
            (fun waiting => !frame.boundary.covers waiting.frame) := by
  refine ⟨h.ordered, fun entry rest _ entries earlier frame outcome later split => ?_⟩
  have within := operations_within rules entry.frame entry.task
    (m.taking entry rest)
  rw [split] at within
  have works := (h.ordered.taking h.pending entries).applyAll rules
    fun operation member => within operation (List.mem_append_left _ member)
  have own := within (.returnFrom frame outcome) (by simp)
  cases own
  exact ⟨works.discard_eq_filter, rfl⟩

def earlyReturn : BoundFunction packWords where
  id := ⟨"minecraft", "early", by decide, by decide⟩
  lines := [(CommandLine.mk [] false (.call (.returnValue 5))).compile,
    (CommandLine.mk [] false (.leaf (.say "late"))).compile]

def returning : Machine packWords :=
  ((start {} ⟨{}, ({} : World)⟩).seedCall earlyReturn PackSource.server []).opened.step
    (packRules {})

theorem returning_reached : Reached (packRules {}) (fun _ => True) returning :=
  (Reached.opened (.seed _ trivial (.start _ _))).turn rfl

theorem returns_filter_returning : ∃ entry rest, returning.stack.entries = entry :: rest ∧
    rest.length = 2 ∧
    let earlier : List (Operation packWords) :=
      [.trace (.command 1 (CommandLine.mk [] false (.call (.returnValue 5))).compile.input),
        .deliver [] (Outcome.ok 5)]
    let found := Operation.applyAll (packRules {}) earlier (returning.taking entry rest)
    let left := found.returnFrom (packRules {}) ⟨1, [], ⟨0, 1⟩, 1⟩ (Outcome.ok 5)
    left.stack.entries =
        found.stack.entries.filter (fun waiting => !(Boundary.mk 0 1).covers waiting.frame) ∧
      left.stack.entries = [] := by
  refine ⟨_, _, rfl, rfl, ?_, rfl⟩
  exact ((Reached.returns_filter returning_reached).2 _ _ rfl rfl [_, _] _ _ [] rfl).1

end Machine

end PackEngine
