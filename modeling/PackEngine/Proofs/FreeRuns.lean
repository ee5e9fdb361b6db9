import PackEngine.Proofs.Plays

/-! Runs of packs that no limit stops. A turn of such a run puts what it queues on top of the work
below it, or drops from that work what its returns cover. -/
namespace PackEngine

open Operation

theorem Operation.queuedIn_eq_nil {operations : List (Operation packWords)}
    (idle : ∀ entry, .queue entry ∉ operations) : queuedIn operations = [] := by
  apply List.filterMap_eq_nil_iff.mpr
  intro operation member
  cases operation with
  | queue entry => exact absurd member (idle entry)
  | _ => rfl

theorem Operation.queuedIn_map_queue (entries : List (Entry packWords)) :
    queuedIn (entries.map .queue) = entries := by
  have same := queuedIn_queue id entries
  rwa [List.map_id] at same

namespace Machine

theorem Unlimited.after {V : Vocabulary} {rules : Rules V} {m : Machine V}
    (h : m.Unlimited rules) {n : Nat} (runs : m.Runs rules n) :
    (m.after rules n).Unlimited rules := by
  intro k error further
  rw [← after_add]
  exact h (n + k) error ((runs_add_iff rules n k m).mpr ⟨runs, further⟩)

structure Free (pack : Pack) (m : Machine packWords) : Prop where
  reached : m.Reached (packRules pack) PackTask
  unlimited : m.Unlimited (packRules pack)

variable {pack : Pack} {m : Machine packWords} {top : Entry packWords}
  {lower : List (Entry packWords)}

theorem Free.after (free : m.Free pack) {n : Nat} (runs : m.Runs (packRules pack) n) :
    (m.after (packRules pack) n).Free pack :=
  ⟨free.reached.after runs, free.unlimited.after runs⟩

theorem Free.goes (free : m.Free pack) (entries : m.stack.entries = top :: lower) :
    m.verdict? = none := by
  cases verdict : m.verdict? with
  | none => rfl
  | some result =>
    cases result with
    | error error => exact absurd verdict (free.unlimited 0 error (runs_zero _ m))
    | ok value => cases entries.symm.trans ((verdict?_eq_ok_iff m).mp verdict).2

theorem Free.runs_one (free : m.Free pack) (entries : m.stack.entries = top :: lower) :
    m.Runs (packRules pack) 1 :=
  (runs_succ_iff _ 0 m).mpr ⟨free.goes entries, runs_zero _ _⟩

theorem Free.step (free : m.Free pack) (entries : m.stack.entries = top :: lower) :
    (m.step (packRules pack)).Free pack :=
  free.after (n := 1) (free.runs_one entries)

theorem Reached.top_precedes (reached : m.Reached (packRules pack) PackTask)
    (entries : m.stack.entries = top :: lower) :
    ∀ entry ∈ lower, top.frame.Precedes entry.frame := by
  have ordered := reached.ordered
  unfold Ordered at ordered
  rw [entries] at ordered
  exact (List.pairwise_cons.mp ordered).1

theorem Free.known (free : m.Free pack) (entries : m.stack.entries = top :: lower) :
    m.Knows top.frame :=
  free.reached.knows top (entries ▸ List.mem_cons_self)

theorem step_queued (idle : m.pending = Stack.empty) (entries : m.stack.entries = top :: lower)
    (never : returnsIn (m.turnOperations (packRules pack)) = [])
    (fine : (m.step (packRules pack)).overflowed = false) :
    (m.step (packRules pack)).stack.entries =
      queuedIn (m.turnOperations (packRules pack)) ++ lower := by
  rw [step_eq_applyAll _ entries] at fine ⊢
  obtain ⟨_, stands, staged⟩ := staged_applyAll never fine
  show (applyAll _ _ (m.taking top lower)).pending.entries.reverse ++
    (applyAll _ _ (m.taking top lower)).stack.entries = _
  rw [staged, stands]
  simp [taking, idle, Stack.empty]

theorem Free.step_queued (free : m.Free pack) (entries : m.stack.entries = top :: lower)
    (never : returnsIn (m.turnOperations (packRules pack)) = []) :
    (m.step (packRules pack)).stack.entries =
      queuedIn (m.turnOperations (packRules pack)) ++ lower :=
  Machine.step_queued free.reached.pending entries never (free.step entries).unlimited.fine

theorem Reached.step_dropped (reached : m.Reached (packRules pack) PackTask)
    (entries : m.stack.entries = top :: lower) {frame : Frame packWords}
    (found : returnsIn (m.turnOperations (packRules pack)) ≠ [])
    (own : ∀ returned ∈ returnsIn (m.turnOperations (packRules pack)), returned.1 = frame)
    (idle : queuedIn (m.turnOperations (packRules pack)) = []) :
    (m.step (packRules pack)).stack.entries =
      lower.dropWhile fun entry => frame.boundary.covers entry.frame := by
  obtain ⟨empty, stands⟩ := dropped_applyAll idle own (m := m.taking top lower) reached.pending
  rw [step_eq_applyAll _ entries]
  show (applyAll _ _ (m.taking top lower)).pending.entries.reverse ++
    (applyAll _ _ (m.taking top lower)).stack.entries = _
  rw [empty, stands, if_neg found]
  rfl

/-- Once nothing of a frame waits, nothing of it ever waits again. -/
theorem Reached.absent (reached : m.Reached (packRules pack) PackTask) {frame : Frame packWords}
    (known : frame.slot < m.heap.slots.size)
    (absent : ∀ entry ∈ m.stack.entries, entry.frame ≠ frame) {n : Nat}
    (runs : m.Runs (packRules pack) n) :
    ∀ entry ∈ (m.after (packRules pack) n).stack.entries, entry.frame ≠ frame := by
  induction n with
  | zero => exact absent
  | succ n ih =>
    obtain ⟨before, goes⟩ := (runs_succ_last_iff _ n m).mp runs
    obtain ⟨_, ⟨top, rest, entries⟩, _⟩ := (verdict?_eq_none_iff _).mp goes
    have others := ih before
    intro entry member
    rw [after_succ] at member
    cases mem_step (reached.after before).pending entries member with
    | inl kept => exact others entry (entries ▸ List.mem_cons_of_mem top kept)
    | inr queued =>
      rw [turnOperations_of_entries _ entries] at queued
      have within : entry.frame = _ := operations_within _ top.frame top.task _ _ queued
      have own := others top (entries ▸ List.mem_cons_self)
      -- A new frame has a slot that the frame in question cannot have.
      have younger : m.heap.slots.size ≤ (m.after (packRules pack) n).heap.slots.size :=
        (after_grows _ (Nat.zero_le n) m).slots
      rw [within]
      cases task : top.task with
      | call function callback returnCall source =>
        intro same
        rw [← same] at known
        exact absurd known (Nat.not_lt_of_le younger)
      | isolated producer output =>
        intro same
        rw [← same] at known
        exact absurd known (Nat.not_lt_of_le younger)
      | _ => exact own

/-! Runs that no limit stops as long as something waits above some lower work. -/

section

variable {V : Vocabulary} {rules : Rules V}

def Above (lower : List (Entry V)) (m : Machine V) : Prop :=
  ∃ top upper, m.stack.entries = top :: (upper ++ lower)

theorem Above.mono {m : Machine V} {others lower : List (Entry V)}
    (h : m.Above (others ++ lower)) : m.Above lower := by
  obtain ⟨top, upper, entries⟩ := h
  exact ⟨top, upper ++ others, entries.trans (by rw [List.append_assoc])⟩

/-- No limit stops the run before it has got back to the lower work. -/
def UnlimitedAbove (rules : Rules V) (lower : List (Entry V)) (m : Machine V) : Prop :=
  ∀ n, m.Runs rules n → (∀ k < n, (m.after rules k).Above lower) →
    (m.after rules n).overflowed = false ∧ ((m.after rules n).Above lower →
      ∀ error, (m.after rules n).verdict? ≠ some (.error error))

theorem Unlimited.above {m : Machine V} (h : m.Unlimited rules) (lower : List (Entry V)) :
    m.UnlimitedAbove rules lower :=
  fun n runs _ => ⟨(h.after runs).fine, fun _ error => h n error runs⟩

end

structure FreeAbove (pack : Pack) (lower : List (Entry packWords)) (m : Machine packWords) :
    Prop where
  reached : m.Reached (packRules pack) PackTask
  unlimited : m.UnlimitedAbove (packRules pack) lower

theorem Free.above (free : m.Free pack) (lower : List (Entry packWords)) :
    m.FreeAbove pack lower :=
  ⟨free.reached, free.unlimited.above lower⟩

structure Spends (pack : Pack) (lower left : List (Entry packWords)) (n : Nat)
    (m : Machine packWords) : Prop where
  runs : m.Runs (packRules pack) n
  above : ∀ k < n, (m.after (packRules pack) k).Above lower
  left : (m.after (packRules pack) n).stack.entries = left

section

variable {others upper left passed : List (Entry packWords)} {n k : Nat}

theorem Spends.nothing (entries : m.stack.entries = left) : m.Spends pack lower left 0 :=
  ⟨runs_zero _ m, fun _ less => absurd less (Nat.not_lt_zero _), entries⟩

theorem Spends.mono (first : m.Spends pack (others ++ lower) left n) :
    m.Spends pack lower left n :=
  ⟨first.runs, fun k less => (first.above k less).mono, first.left⟩

theorem Spends.trans (first : m.Spends pack lower passed n)
    (second : (m.after (packRules pack) n).Spends pack lower left k) :
    m.Spends pack lower left (n + k) where
  runs := (runs_add_iff _ n k m).mpr ⟨first.runs, second.runs⟩
  above := forall_after_add (P := Above lower) first.above second.above
  left := by
    rw [after_add]
    exact second.left

theorem FreeAbove.mono (free : m.FreeAbove pack lower) : m.FreeAbove pack (others ++ lower) :=
  ⟨free.reached, fun n runs above =>
    (free.unlimited n runs fun k less => (above k less).mono).imp_right
      fun goes here => goes here.mono⟩

theorem FreeAbove.fine (free : m.FreeAbove pack lower) : m.overflowed = false :=
  (free.unlimited 0 (runs_zero _ m) fun _ less => absurd less (Nat.not_lt_zero _)).1

theorem FreeAbove.goes (free : m.FreeAbove pack lower)
    (entries : m.stack.entries = top :: (upper ++ lower)) : m.verdict? = none := by
  have start := free.unlimited 0 (runs_zero _ m) fun _ less => absurd less (Nat.not_lt_zero _)
  cases verdict : m.verdict? with
  | none => rfl
  | some result =>
    cases result with
    | error error => exact absurd verdict (start.2 ⟨top, upper, entries⟩ error)
    | ok value => cases entries.symm.trans ((verdict?_eq_ok_iff m).mp verdict).2

theorem FreeAbove.spends_turn (free : m.FreeAbove pack lower)
    (entries : m.stack.entries = top :: (upper ++ lower))
    (stack : (m.step (packRules pack)).stack.entries = left) : m.Spends pack lower left 1 := by
  refine ⟨(runs_succ_iff _ 0 m).mpr ⟨free.goes entries, runs_zero _ _⟩, fun k less => ?_, stack⟩
  rw [Nat.lt_one_iff.mp less]
  exact ⟨top, upper, entries⟩

theorem FreeAbove.spent (free : m.FreeAbove pack lower) (spends : m.Spends pack lower left n) :
    (m.after (packRules pack) n).FreeAbove pack lower := by
  refine ⟨free.reached.after spends.runs, fun k further stands => ?_⟩
  rw [← after_add]
  exact free.unlimited (n + k) ((runs_add_iff _ n k m).mpr ⟨spends.runs, further⟩)
    (forall_after_add (P := Above lower) spends.above stands)

theorem FreeAbove.step (free : m.FreeAbove pack lower)
    (entries : m.stack.entries = top :: (upper ++ lower)) :
    (m.step (packRules pack)).FreeAbove pack lower :=
  free.spent (free.spends_turn entries rfl)

theorem FreeAbove.step_queued (free : m.FreeAbove pack lower)
    (entries : m.stack.entries = top :: (upper ++ lower))
    (never : returnsIn (m.turnOperations (packRules pack)) = []) :
    (m.step (packRules pack)).stack.entries =
      queuedIn (m.turnOperations (packRules pack)) ++ (upper ++ lower) :=
  Machine.step_queued free.reached.pending entries never (free.step entries).fine

end

end Machine

end PackEngine
