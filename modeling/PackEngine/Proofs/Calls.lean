import PackEngine.Proofs.StackOrder

/-! Work below a call. Frames that a call leads to lie inside the caller's: their returns stop
below its depth, so what waited below the call is there, unchanged, when the call has settled. -/
namespace PackEngine

variable {V : Vocabulary}

/-- The frame was opened below `outer`, and its return stops below `outer` too. -/
structure Frame.Inside (outer frame : Frame V) : Prop where
  seed : frame.boundary.seed = outer.boundary.seed
  deeper : outer.depth < frame.boundary.depth
  valid : frame.boundary.depth ≤ frame.depth

theorem Frame.inside_child (frame : Frame V) (sink : Callback V) (slot : SlotId) :
    frame.Inside (frame.child sink none slot) :=
  ⟨rfl, Nat.lt_succ_self _, Nat.le_refl _⟩

theorem Frame.Inside.workplace {outer frame : Frame V} (h : outer.Inside frame) (task : Task V)
    (slot : SlotId) : outer.Inside (task.workplace frame slot) := by
  obtain ⟨seed, deeper, valid⟩ := h
  cases task with
  | call function callback returnCall source =>
    cases returnCall with
    | true => exact ⟨seed, deeper, Nat.le_succ_of_le valid⟩
    | false =>
      refine ⟨seed, ?_, Nat.le_refl _⟩
      show outer.depth < frame.depth + 1
      omega
  | isolated producer output =>
    refine ⟨seed, ?_, Nat.le_refl _⟩
    show outer.depth < frame.depth + 1
    omega
  | _ => exact ⟨seed, deeper, valid⟩

theorem Frame.Inside.uncovered {outer frame lower : Frame V} (h : outer.Inside frame)
    (below : outer.Precedes lower) : frame.boundary.covers lower = false := by
  rw [← Bool.not_eq_true]
  intro covered
  simp only [Boundary.covers, Bool.and_eq_true, beq_iff_eq, decide_eq_true_eq] at covered
  have depth := (below.2 (h.seed ▸ covered.1.symm)).1
  have deeper := h.deeper
  omega

theorem Frame.Inside.not_precedes {outer frame : Frame V} (h : outer.Inside frame) :
    ¬outer.Precedes frame := by
  intro precedes
  have depth := (precedes.2 h.seed.symm).1
  have deeper := h.deeper
  have valid := h.valid
  omega

def Task.OpensInside : Task V → Prop
  | .call _ _ returnCall _ => returnCall = false
  | .isolated _ _ => True
  | _ => False

theorem Task.OpensInside.workplace {task : Task V} (h : task.OpensInside) (frame : Frame V)
    (slot : SlotId) : frame.Inside (task.workplace frame slot) := by
  cases task with
  | call function callback returnCall source =>
    cases h
    exact frame.inside_child callback slot
  | isolated producer output => exact frame.inside_child output slot
  | _ => exact h.elim

namespace Machine

structure Over (outer : Frame V) (lower upper : List (Entry V)) (m : Machine V) : Prop where
  entries : m.stack.entries = upper ++ lower
  inside : ∀ entry ∈ upper, outer.Inside entry.frame
  staged : ∀ entry ∈ m.pending.entries, outer.Inside entry.frame

variable {outer : Frame V} {lower upper : List (Entry V)}

theorem Over.apply {m : Machine V} (h : m.Over outer lower upper)
    (below : ∀ entry ∈ lower, outer.Precedes entry.frame) (rules : Rules V) {frame : Frame V}
    (inside : outer.Inside frame) {operation : Operation V} (within : operation.Within frame) :
    ∃ left, left <:+ upper ∧ (operation.apply rules m).Over outer lower left := by
  have mundane (quiet : operation.Mundane) :
      ∃ left, left <:+ upper ∧ (operation.apply rules m).Over outer lower left := by
    obtain ⟨stack, pending, _⟩ := quiet.keeps_waiting rules m
    refine ⟨upper, List.suffix_refl upper, ?_, h.inside, fun entry => ?_⟩
    · rw [stack]
      exact h.entries
    · rw [pending]
      exact h.staged entry
  cases operation with
  | queue entry =>
    cases within
    refine ⟨upper, List.suffix_refl upper, ?_⟩
    simp only [Operation.apply, Machine.enqueue]
    split
    · exact h
    · split
      · exact ⟨h.entries, h.inside, h.staged⟩
      · refine ⟨h.entries, h.inside, fun staged member => ?_⟩
        cases List.mem_cons.mp member with
        | inl same =>
          rw [same]
          exact inside
        | inr member => exact h.staged staged member
  | returnFrom other outcome =>
    cases within
    let covered := fun entry : Entry V => frame.boundary.covers entry.frame
    refine ⟨upper.dropWhile covered, List.dropWhile_suffix covered, ?_, ?_, ?_⟩
    · show m.stack.entries.dropWhile covered = _
      rw [h.entries, List.dropWhile_append]
      split
      · next gone =>
        rw [List.isEmpty_iff.mp gone]
        -- The first entry of the lower work stops the return.
        cases lower with
        | nil => rfl
        | cons entry rest =>
          have kept := inside.uncovered (below entry List.mem_cons_self)
          exact List.dropWhile_cons_of_neg (by simp [covered, kept])
      · rfl
    · intro entry member
      exact h.inside entry ((List.dropWhile_sublist covered).mem member)
    · intro entry member
      exact h.staged entry (List.mem_filter.mp member).1
  | _ => exact mundane trivial

theorem Over.applyAll {m : Machine V} (h : m.Over outer lower upper)
    (below : ∀ entry ∈ lower, outer.Precedes entry.frame) (rules : Rules V) {frame : Frame V}
    (inside : outer.Inside frame) {operations : List (Operation V)}
    (within : ∀ operation ∈ operations, operation.Within frame) :
    ∃ left, left <:+ upper ∧ (Operation.applyAll rules operations m).Over outer lower left := by
  induction operations generalizing m upper with
  | nil => exact ⟨upper, List.suffix_refl upper, h⟩
  | cons operation rest ih =>
    obtain ⟨first, firstLeft, stands⟩ :=
      h.apply below rules inside (within operation List.mem_cons_self)
    obtain ⟨last, lastLeft, stands⟩ :=
      ih stands fun other member => within other (List.mem_cons_of_mem _ member)
    exact ⟨last, lastLeft.trans firstLeft, stands⟩

/-- The marks of the waiting entries one turn later, top first. What the top task queues takes
over its mark, and the entries that survive keep theirs. -/
def inherit (rules : Rules V) (m : Machine V) (marks : List Bool) : List Bool :=
  match m.stack.entries, marks with
  | entry :: rest, own :: others =>
      let left := m.performed rules entry rest
      List.replicate left.pending.size own ++ others.drop (rest.length - left.stack.size)
  | _, _ => marks

def inheritAfter (rules : Rules V) : Nat → Machine V → List Bool → List Bool
  | 0, _, marks => marks
  | n + 1, m, marks => inheritAfter rules n (m.step rules) (m.inherit rules marks)

/-- Whether the waiting entries, some turns later, are the present top entry or descend from
it. -/
def lineage (rules : Rules V) (n : Nat) (m : Machine V) : List Bool :=
  m.inheritAfter rules n (true :: List.replicate (m.stack.size - 1) false)

structure SettlesAt (rules : Rules V) (n : Nat) (m : Machine V) : Prop where
  runs : m.Runs rules n
  before : ∀ k < n, true ∈ m.lineage rules k
  settled : true ∉ m.lineage rules n

def Unlimited (rules : Rules V) (m : Machine V) : Prop :=
  ∀ n error, m.Runs rules n → (m.after rules n).verdict? ≠ some (.error error)

def marks (lower upper : List (Entry V)) : List Bool :=
  List.replicate upper.length true ++ List.replicate lower.length false

theorem true_mem_marks_iff (lower upper : List (Entry V)) :
    true ∈ marks lower upper ↔ upper ≠ [] := by
  cases upper <;> simp [marks]

theorem Over.performed {m : Machine V} {entry : Entry V} {rest : List (Entry V)}
    (entries : m.stack.entries = entry :: (rest ++ lower)) (idle : m.pending = Stack.empty)
    (below : ∀ other ∈ lower, outer.Precedes other.frame)
    (inside : ∀ other ∈ rest, outer.Inside other.frame)
    (working : outer.Inside (entry.task.workplace entry.frame m.heap.slots.size))
    (rules : Rules V) :
    ∃ left, (m.step rules).Over outer lower left ∧
      m.inherit rules (true :: marks lower rest) = marks lower left := by
  have start : (m.taking entry (rest ++ lower)).Over outer lower rest := by
    refine ⟨rfl, inside, fun staged member => ?_⟩
    simp only [Machine.taking, idle] at member
    cases member
  obtain ⟨kept, suffix, stands⟩ := start.applyAll below rules working
    (operations_within rules entry.frame entry.task (m.taking entry (rest ++ lower)))
  rw [applyAll_operations] at stands
  refine ⟨(m.performed rules entry (rest ++ lower)).pending.entries.reverse ++ kept,
    ⟨?_, ?_, ?_⟩, ?_⟩
  · rw [step_of_entries rules entries, List.append_assoc, ← stands.entries]
    rfl
  · intro other member
    cases List.mem_append.mp member with
    | inl member => exact stands.staged other (List.mem_reverse.mp member)
    | inr member => exact stands.inside other member
  · rw [step_of_entries rules entries]
    intro other member
    cases member
  · obtain ⟨gone, rfl⟩ := suffix
    have size : (m.performed rules entry ((gone ++ kept) ++ lower)).stack.size =
        kept.length + lower.length := by
      rw [Stack.size_eq]
      exact (congrArg List.length stands.entries).trans List.length_append
    have pendingSize := (m.performed rules entry ((gone ++ kept) ++ lower)).pending.size_eq
    unfold inherit
    rw [entries]
    dsimp only
    have count : ((gone ++ kept) ++ lower).length - (kept.length + lower.length) =
        (List.replicate gone.length true).length := by
      simp only [List.length_append, List.length_replicate]
      omega
    have split : marks lower (gone ++ kept) =
        List.replicate gone.length true ++ marks lower kept := by
      simp [marks, ← List.append_assoc, List.replicate_append_replicate]
    rw [size, count, split, List.drop_left, pendingSize]
    simp [marks, ← List.append_assoc, List.replicate_append_replicate]

theorem Over.after {m : Machine V} (h : m.Over outer lower upper)
    (idle : m.pending = Stack.empty) (below : ∀ entry ∈ lower, outer.Precedes entry.frame)
    {rules : Rules V} {n : Nat} (runs : m.Runs rules n)
    (before : ∀ k < n, true ∈ m.inheritAfter rules k (marks lower upper)) :
    ∃ left, (m.after rules n).Over outer lower left ∧
      m.inheritAfter rules n (marks lower upper) = marks lower left := by
  induction n generalizing m upper with
  | zero => exact ⟨upper, h, rfl⟩
  | succ n ih =>
    obtain ⟨goes, later⟩ := (runs_succ_iff rules n m).mp runs
    have first := (true_mem_marks_iff lower upper).mp (before 0 (by omega))
    cases upper with
    | nil => exact absurd rfl first
    | cons entry rest =>
      have inside := h.inside entry List.mem_cons_self
      obtain ⟨left, stands, inherited⟩ := Over.performed h.entries idle below
        (fun other member => h.inside other (List.mem_cons_of_mem _ member))
        (inside.workplace entry.task m.heap.slots.size) rules
      have empty : (m.step rules).pending = Stack.empty := by
        rw [step_of_entries rules h.entries]
        rfl
      have marked : m.inherit rules (marks lower (entry :: rest)) = marks lower left := inherited
      obtain ⟨last, stands, marks⟩ := ih stands empty later fun k hk => by
        rw [← marked]
        exact before (k + 1) (by omega)
      refine ⟨last, stands, ?_⟩
      unfold inheritAfter
      rw [marked]
      exact marks

/-- As long as a call or an isolated procedure has not settled, what it led to waits above what
waited below it. -/
theorem Reached.stands {rules : Rules V} {fits : Task V → Prop} {m : Machine V}
    (h : Reached rules fits m) {entry : Entry V} {lower : List (Entry V)}
    (entries : m.stack.entries = entry :: lower) (opens : entry.task.OpensInside) {n : Nat}
    (runs : m.Runs rules (n + 1)) (before : ∀ k < n + 1, true ∈ m.lineage rules k) :
    ∃ left, (m.after rules (n + 1)).Over entry.frame lower left ∧
      m.lineage rules (n + 1) = marks lower left := by
  have ordered := h.ordered
  unfold Ordered at ordered
  rw [entries] at ordered
  have below := (List.pairwise_cons.mp ordered).1
  have top : m.stack.entries = entry :: ([] ++ lower) := entries
  obtain ⟨left, stands, inherited⟩ := Over.performed top h.pending below
    (fun other member => nomatch member) (opens.workplace entry.frame m.heap.slots.size) rules
  have size : m.stack.size - 1 = lower.length := by
    rw [m.stack.size_eq, entries]
    rfl
  have start : m.inherit rules (true :: List.replicate (m.stack.size - 1) false) =
      marks lower left := by
    rw [size]
    exact inherited
  have empty : (m.step rules).pending = Stack.empty := by
    rw [step_of_entries rules entries]
    rfl
  obtain ⟨goes, later⟩ := (runs_succ_iff rules n m).mp runs
  obtain ⟨last, stands, marked⟩ := stands.after empty below later fun k hk => by
    rw [← start]
    exact before (k + 1) (by omega)
  refine ⟨last, stands, ?_⟩
  unfold lineage inheritAfter
  rw [start]
  exact marked

/-- When a call or an isolated procedure has settled, the stack is what waited below it. -/
theorem Reached.entries_of_settlesAt {rules : Rules V} {fits : Task V → Prop} {m : Machine V}
    (h : Reached rules fits m) {entry : Entry V} {lower : List (Entry V)}
    (entries : m.stack.entries = entry :: lower) (opens : entry.task.OpensInside) {n : Nat}
    (settles : m.SettlesAt rules n) : (m.after rules n).stack.entries = lower := by
  cases n with
  | zero => exact absurd List.mem_cons_self settles.settled
  | succ n =>
    obtain ⟨left, stands, marked⟩ := h.stands entries opens settles.runs settles.before
    have settled := settles.settled
    rw [marked, true_mem_marks_iff, Classical.not_not] at settled
    rw [stands.entries, settled]
    rfl

theorem Reached.settles_or_waits {rules : Rules V} {fits : Task V → Prop} {m : Machine V}
    (h : Reached rules fits m) {entry : Entry V} {lower : List (Entry V)}
    (entries : m.stack.entries = entry :: lower) (opens : entry.task.OpensInside) {n : Nat}
    (runs : m.Runs rules n) :
    (∃ k, k ≤ n ∧ m.SettlesAt rules k) ∨
      (∀ k ≤ n, true ∈ m.lineage rules k) ∧ (m.after rules n).verdict? ≠ some (.ok ()) := by
  rw [Classical.or_iff_not_imp_left]
  intro never
  have marked : ∀ k ≤ n, true ∈ m.lineage rules k := by
    intro k
    induction k using Nat.strongRecOn with
    | ind k ih =>
      intro le
      refine Classical.byContradiction fun settled => never ⟨k, le, runs.mono le, ?_, settled⟩
      exact fun i less => ih i less (Nat.le_of_lt (Nat.lt_of_lt_of_le less le))
  refine ⟨marked, fun ends => ?_⟩
  have done := ((verdict?_eq_ok_iff _).mp ends).2
  cases n with
  | zero => cases entries.symm.trans done
  | succ n =>
    obtain ⟨left, stands, same⟩ := h.stands entries opens runs fun k less =>
      marked k (Nat.le_of_lt less)
    have now := marked (n + 1) (Nat.le_refl _)
    rw [same, true_mem_marks_iff] at now
    rw [stands.entries] at done
    exact now (List.append_eq_nil_iff.mp done).1

theorem Reached.settles_or_runs {rules : Rules V} {fits : Task V → Prop} {m : Machine V}
    (h : Reached rules fits m) {entry : Entry V} {lower : List (Entry V)}
    (entries : m.stack.entries = entry :: lower)
    (opens : entry.task.OpensInside) (unlimited : m.Unlimited rules) :
    (∃ n, m.SettlesAt rules n) ∨ ∀ n, m.Runs rules n := by
  rw [Classical.or_iff_not_imp_left]
  intro never n
  induction n with
  | zero => exact runs_zero rules m
  | succ n runs =>
    have waits := (h.settles_or_waits entries opens runs).resolve_left
      fun ⟨k, _, settles⟩ => never ⟨k, settles⟩
    have ongoing : (m.after rules n).verdict? = none := by
      cases verdict : (m.after rules n).verdict? with
      | none => rfl
      | some result =>
        cases result with
        | error error => exact absurd verdict (unlimited n error runs)
        | ok value => exact absurd verdict waits.2
    exact (runs_succ_last_iff rules n m).mpr ⟨runs, ongoing⟩

end Machine

end PackEngine
