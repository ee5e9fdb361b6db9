import PackEngine.Pack.Run
import PackEngine.Proofs.Turns

/-! Leaves of lines. A drip holds the leaves of a line back and puts them on the stack one at a time.
They run under the same sources in the same order as if all of them waited at once, and what is
left is the same machine. -/
namespace PackEngine

variable {V : Vocabulary}

def Task.OfLeaf (line : LeafLine V) : Task V → Prop
  | .execute other _ => other = line
  | .drip other _ => other = line
  | _ => False

def executions (frame : Frame V) (line : LeafLine V) (sources : List (Source V)) :
    List (Entry V) :=
  sources.map fun source => ⟨frame, .execute line source⟩

def heldBack (frame : Frame V) (line : LeafLine V) (sources : List (Source V)) : List (Entry V) :=
  if sources.isEmpty then [] else [⟨frame, .drip line sources⟩]

def Entry.isExecution (entry : Entry V) : Bool :=
  match entry.task with
  | .execute _ _ => true
  | _ => false

def Stack.ofEntries {α : Type} (entries : List α) : Stack α := ⟨entries, entries.length, rfl⟩

theorem Stack.entries_foldl_push {α : Type} (pushed : List α) (s : Stack α) :
    (pushed.foldl Stack.push s).entries = pushed.reverse ++ s.entries := by
  induction pushed generalizing s with
  | nil => rfl
  | cons first rest ih => simp [ih]

namespace Machine

variable {rules : Rules V} {frame : Frame V} {line : LeafLine V} {source : Source V}
  {sources : List (Source V)} {lower own : List (Entry V)} {m : Machine V}

def enqueueAll (entries : List (Entry V)) (m : Machine V) : Machine V :=
  entries.foldl (fun m entry => m.enqueue entry) m

def ran (rules : Rules V) : Nat → Machine V → List (Entry V)
  | 0, _ => []
  | n + 1, m => m.stack.top?.toList ++ ran rules n (m.step rules)

def withWaiting (entries : List (Entry V)) (m : Machine V) : Machine V :=
  { m with stack := .ofEntries entries }

def leafed (rules : Rules V) (frame : Frame V) (line : LeafLine V) (m : Machine V)
    (source : Source V) : Machine V :=
  { m with depth := frame.depth }.runLeaf rules frame line source

def leafedAll (rules : Rules V) (frame : Frame V) (line : LeafLine V)
    (sources : List (Source V)) (m : Machine V) : Machine V :=
  sources.foldl (leafed rules frame line) m

def UnlimitedFor (rules : Rules V) (n : Nat) (m : Machine V) : Prop :=
  ∀ k < n, ∀ error, m.Runs rules k → (m.after rules k).verdict? ≠ some (.error error)

theorem UnlimitedFor.goes {n : Nat} {entry : Entry V} (h : m.UnlimitedFor rules (n + 1))
    (entries : m.stack.entries = entry :: lower) :
    m.verdict? = none ∧ (m.step rules).UnlimitedFor rules n := by
  have goes : m.verdict? = none := by
    cases verdict : m.verdict? with
    | none => rfl
    | some result =>
      cases result with
      | error error => exact absurd verdict (h 0 (Nat.succ_pos n) error (runs_zero rules m))
      | ok value => cases entries.symm.trans ((verdict?_eq_ok_iff m).mp verdict).2
  refine ⟨goes, fun k less error runs => ?_⟩
  exact h (k + 1) (Nat.succ_lt_succ less) error ((runs_succ_iff rules k m).mpr ⟨goes, runs⟩)

theorem UnlimitedFor.of_step {n : Nat} (goes : m.verdict? = none)
    (later : (m.step rules).UnlimitedFor rules n) : m.UnlimitedFor rules (n + 1) := by
  intro k less error runs stops
  cases k with
  | zero => cases goes.symm.trans stops
  | succ k =>
    exact later k (Nat.lt_of_succ_lt_succ less) error ((runs_succ_iff rules k m).mp runs).2 stops

theorem UnlimitedFor.fine {n : Nat} (h : m.UnlimitedFor rules (n + 1)) : m.overflowed = false := by
  cases full : m.overflowed with
  | false => rfl
  | true =>
    refine absurd ?_ (h 0 (Nat.succ_pos n) (.queueOverflow m.limits.queue) (runs_zero rules m))
    show m.verdict? = _
    unfold verdict?
    rw [full, if_pos rfl]

theorem Runs.unlimitedFor {n : Nat} (h : m.Runs rules n) : m.UnlimitedFor rules n :=
  fun k less _ _ stops => by cases (h k less).symm.trans stops

@[simp] theorem withWaiting_withWaiting (first second : List (Entry V)) (m : Machine V) :
    (m.withWaiting first).withWaiting second = m.withWaiting second := rfl

theorem withWaiting_of_entries (entries : m.stack.entries = lower) : m.withWaiting lower = m := by
  have same : m.stack = .ofEntries lower := Stack.ext entries
  unfold withWaiting
  rw [← same]

theorem runLeaf_withWaiting (unmarked : line.flags.isReturn = false) (entries : List (Entry V))
    (m : Machine V) :
    (m.withWaiting entries).runLeaf rules frame line source =
      (m.runLeaf rules frame line source).withWaiting entries := by
  unfold runLeaf
  rw [unmarked]
  simp only [charge, withWaiting, report, trace, deliver, record]
  cases (rules.leaf line.leaf source m.setting).1 <;> cases m.tracer <;> rfl

theorem runLeaf_keeps (rules : Rules V) (frame : Frame V) (source : Source V)
    (unmarked : line.flags.isReturn = false) (m : Machine V) :
    (m.runLeaf rules frame line source).stack = m.stack ∧
      (m.runLeaf rules frame line source).pending = m.pending ∧
      (m.runLeaf rules frame line source).overflowed = m.overflowed ∧
      (m.runLeaf rules frame line source).limits = m.limits ∧
      (m.runLeaf rules frame line source).quota = m.quota - 1 := by
  unfold runLeaf
  rw [unmarked]
  simp only [charge, report, trace, deliver, record]
  cases (rules.leaf line.leaf source m.setting).1 <;> cases m.tracer <;>
    exact ⟨rfl, rfl, rfl, rfl, rfl⟩

theorem leafed_withWaiting (unmarked : line.flags.isReturn = false) (entries : List (Entry V))
    (m : Machine V) :
    (m.withWaiting entries).leafed rules frame line source =
      (m.leafed rules frame line source).withWaiting entries :=
  runLeaf_withWaiting unmarked entries { m with depth := frame.depth }

theorem leafedAll_withWaiting (unmarked : line.flags.isReturn = false) (entries : List (Entry V))
    (m : Machine V) :
    (m.withWaiting entries).leafedAll rules frame line sources =
      (m.leafedAll rules frame line sources).withWaiting entries := by
  induction sources generalizing m with
  | nil => rfl
  | cons source rest ih =>
    unfold leafedAll at ih ⊢
    rw [List.foldl_cons, leafed_withWaiting unmarked]
    exact ih _

theorem pushPending_of_idle (idle : m.pending = Stack.empty) : m.pushPending = m := by
  have same : m.pending.reverse.above m.stack = m.stack := by
    ext
    simp [idle, Stack.empty]
  unfold pushPending
  rw [same, ← idle]

theorem step_execution (unmarked : line.flags.isReturn = false) (idle : m.pending = Stack.empty)
    (entries : m.stack.entries = ⟨frame, .execute line source⟩ :: lower) :
    m.step rules = (m.leafed rules frame line source).withWaiting lower := by
  have turn : m.performed rules ⟨frame, .execute line source⟩ lower =
      (m.leafed rules frame line source).withWaiting lower :=
    leafed_withWaiting unmarked lower m
  have staged : (m.leafed rules frame line source).pending = Stack.empty :=
    (runLeaf_keeps _ _ _ unmarked { m with depth := frame.depth }).2.1.trans idle
  rw [step_of_entries rules entries, turn]
  exact pushPending_of_idle staged

theorem enqueue_of_fine {entry : Entry V} (fine : (m.enqueue entry).overflowed = false) :
    m.overflowed = false ∧ m.queued < m.limits.queue ∧
      m.enqueue entry = { m with pending := m.pending.push entry } := by
  revert fine
  unfold enqueue
  split
  · next full => exact fun fine => by cases full.symm.trans fine
  · next fine =>
    split
    · exact fun full => by cases full
    · next room => exact fun _ => ⟨Bool.eq_false_iff.mpr fine, Nat.lt_of_not_le room, rfl⟩

theorem enqueue_of_room (entry : Entry V) (fine : m.overflowed = false)
    (room : m.queued < m.limits.queue) :
    m.enqueue entry = { m with pending := m.pending.push entry } := by
  unfold enqueue
  rw [fine, if_neg Bool.false_ne_true, if_neg (Nat.not_le.mpr room)]

theorem queued_push (entry : Entry V) (m : Machine V) :
    ({ m with pending := m.pending.push entry } : Machine V).queued = m.queued + 1 := rfl

theorem enqueueAll_of_fine {entries : List (Entry V)}
    (fine : (m.enqueueAll entries).overflowed = false) :
    m.overflowed = false ∧ (entries = [] ∨ m.queued + entries.length ≤ m.limits.queue) ∧
      m.enqueueAll entries = { m with pending := entries.foldl Stack.push m.pending } := by
  induction entries generalizing m with
  | nil => exact ⟨fine, .inl rfl, rfl⟩
  | cons entry rest ih =>
    obtain ⟨still, more, same⟩ := ih (m := m.enqueue entry) fine
    obtain ⟨fine, room, pushed⟩ := enqueue_of_fine still
    rw [pushed] at more same
    refine ⟨fine, .inr ?_, ?_⟩
    · rw [List.length_cons]
      exact more.elim (fun nothing => by rw [nothing]; exact room) fun more => by
        rw [queued_push] at more
        exact Nat.le_trans (by omega) more
    · show (m.enqueue entry).enqueueAll rest = _
      rw [pushed]
      exact same

theorem enqueueAll_of_room {entries : List (Entry V)} (fine : m.overflowed = false)
    (room : m.queued + entries.length ≤ m.limits.queue) :
    (m.enqueueAll entries).overflowed = false := by
  induction entries generalizing m with
  | nil => exact fine
  | cons entry rest ih =>
    rw [List.length_cons] at room
    refine ih (m := m.enqueue entry) ?_ ?_
    · rw [enqueue_of_room entry fine (by omega)]
      exact fine
    · rw [enqueue_of_room entry fine (by omega), queued_push]
      exact Nat.le_trans (by omega) room

theorem queued_of_idle (idle : m.pending = Stack.empty) : m.queued = m.stack.size := by
  unfold queued
  rw [idle]
  rfl

theorem pushPending_enqueueAll {entries : List (Entry V)} (idle : m.pending = Stack.empty)
    (fine : (m.enqueueAll entries).overflowed = false) :
    (m.enqueueAll entries).pushPending =
      m.withWaiting (entries ++ m.stack.entries) := by
  have same : (entries.foldl Stack.push m.pending).reverse.above m.stack =
      .ofEntries (entries ++ m.stack.entries) := by
    ext
    simp [Stack.entries_foldl_push, idle, Stack.empty, Stack.ofEntries]
  rw [(enqueueAll_of_fine fine).2.2]
  unfold pushPending withWaiting
  rw [same, ← idle]

theorem length_heldBack (frame : Frame V) (line : LeafLine V) (rest : List (Source V)) :
    (heldBack frame line rest).length + 1 = min 2 (rest.length + 1) := by
  cases rest with
  | nil => rfl
  | cons next rest =>
    show 2 = min 2 (rest.length + 1 + 1)
    omega

/-- The turn of a drip: the execution under its first source goes on top, above what is left of
the drip. The queue has room for them exactly if it does not overflow. -/
theorem step_drip (rules : Rules V) {rest : List (Source V)} (idle : m.pending = Stack.empty)
    (fine : m.overflowed = false)
    (entries : m.stack.entries = ⟨frame, .drip line (source :: rest)⟩ :: lower) :
    ((m.step rules).overflowed = false ↔
      lower.length + min 2 (rest.length + 1) ≤ m.limits.queue) ∧
    ((m.step rules).overflowed = false →
      m.step rules = { m with depth := frame.depth }.withWaiting
        (⟨frame, .execute line source⟩ :: (heldBack frame line rest ++ lower))) := by
  let here : Machine V := m.taking ⟨frame, .drip line (source :: rest)⟩ lower
  let queued := ⟨frame, .execute line source⟩ :: heldBack frame line rest
  have turn : m.step rules = (here.enqueueAll queued).pushPending := by
    rw [step_of_entries rules entries]
    cases rest <;> rfl
  have size : here.queued + queued.length = lower.length + min 2 (rest.length + 1) := by
    rw [← length_heldBack frame line rest, queued_of_idle (m := here) idle]
    rfl
  rw [turn]
  refine ⟨⟨fun fine => ?_, fun room => ?_⟩, fun fine => ?_⟩
  · rw [← size]
    exact (enqueueAll_of_fine fine).2.1.resolve_left (List.cons_ne_nil _ _)
  · exact enqueueAll_of_room (m := here) fine (size ▸ room)
  · exact pushPending_enqueueAll (m := here) idle fine

/-- For `n` turns the machine works on the leaf alone. It runs under each of the sources, in their
order, above the lower work, and of its own work at most so many entries wait at a time. In the
end the leaf has been executed, and the lower work is what waits. -/
structure Executes (rules : Rules V) (frame : Frame V) (line : LeafLine V)
    (lower : List (Entry V)) (width : Nat) (sources : List (Source V)) (m : Machine V)
    (n : Nat) : Prop where
  runs : m.Runs rules n
  each : (m.ran rules n).filter Entry.isExecution = executions frame line sources
  above : ∀ k ≤ n, ∃ own, (m.after rules k).stack.entries = own ++ lower ∧ own.length ≤ width ∧
    (∀ entry ∈ own, entry.frame = frame ∧ entry.task.OfLeaf line) ∧ (k < n → own ≠ [])
  left : m.after rules n = (m.leafedAll rules frame line sources).withWaiting lower

theorem Executes.nothing (width : Nat) (entries : m.stack.entries = lower) :
    m.Executes rules frame line lower width [] 0 where
  runs := runs_zero rules m
  each := rfl
  above k le := by
    obtain rfl := Nat.le_zero.mp le
    exact ⟨[], entries, by simp, by simp, by simp⟩
  left := (withWaiting_of_entries entries).symm

theorem Executes.wider {width more n : Nat}
    (h : m.Executes rules frame line lower width sources n) (le : width ≤ more) :
    m.Executes rules frame line lower more sources n :=
  { h with
    above := fun k before =>
      let ⟨own, found, few, ours, going⟩ := h.above k before
      ⟨own, found, Nat.le_trans few le, ours, going⟩ }

theorem Executes.of_step {entry : Entry V} {width n : Nat} {rest : List (Source V)}
    (goes : m.verdict? = none)
    (entries : m.stack.entries = entry :: (own ++ lower)) (few : own.length < width)
    (ours : ∀ other ∈ entry :: own, other.frame = frame ∧ other.task.OfLeaf line)
    (each : [entry].filter Entry.isExecution ++ executions frame line rest =
      executions frame line sources)
    (left : ((m.step rules).leafedAll rules frame line rest).withWaiting lower =
      (m.leafedAll rules frame line sources).withWaiting lower)
    (later : (m.step rules).Executes rules frame line lower width rest n) :
    m.Executes rules frame line lower width sources (n + 1) where
  runs := (runs_succ_iff rules n m).mpr ⟨goes, later.runs⟩
  each := by
    have top : m.stack.top? = some entry := by
      unfold Stack.top?
      rw [entries]
      rfl
    unfold ran
    rw [top, List.filter_append, later.each]
    exact each
  above k le := by
    cases k with
    | zero => exact ⟨entry :: own, entries, few, ours, fun _ => by simp⟩
    | succ k =>
      obtain ⟨still, found, most, all, going⟩ := later.above k (Nat.le_of_succ_le_succ le)
      exact ⟨still, found, most, all, fun less => going (Nat.lt_of_succ_lt_succ less)⟩
  left := later.left.trans left

theorem Executes.of_execution (unmarked : line.flags.isReturn = false)
    (idle : m.pending = Stack.empty) (goes : m.verdict? = none)
    (entries : m.stack.entries = ⟨frame, .execute line source⟩ :: (own ++ lower))
    {width : Nat} (few : own.length < width)
    (ours : ∀ entry ∈ own, entry.frame = frame ∧ entry.task.OfLeaf line) {n : Nat}
    (later : (m.step rules).Executes rules frame line lower width sources n) :
    m.Executes rules frame line lower width (source :: sources) (n + 1) := by
  refine .of_step goes entries few (List.forall_mem_cons.mpr ⟨⟨rfl, rfl⟩, ours⟩) rfl ?_ later
  rw [step_execution unmarked idle entries, leafedAll_withWaiting unmarked]
  rfl

theorem step_execution_keeps (rules : Rules V) (unmarked : line.flags.isReturn = false)
    (idle : m.pending = Stack.empty)
    (entries : m.stack.entries = ⟨frame, .execute line source⟩ :: lower) :
    (m.step rules).stack.entries = lower ∧ (m.step rules).pending = Stack.empty ∧
      (m.step rules).overflowed = m.overflowed ∧ (m.step rules).limits = m.limits ∧
      (m.step rules).quota = m.quota - 1 := by
  obtain ⟨_, pending, overflowed, limits, quota⟩ := runLeaf_keeps rules frame source unmarked
    { m with depth := frame.depth }
  rw [step_execution unmarked idle entries]
  exact ⟨rfl, pending.trans idle, overflowed, limits, quota⟩

theorem executes_executions (unmarked : line.flags.isReturn = false)
    (idle : m.pending = Stack.empty)
    (entries : m.stack.entries = executions frame line sources ++ lower)
    (free : m.UnlimitedFor rules sources.length) :
    m.Executes rules frame line lower sources.length sources sources.length := by
  induction sources generalizing m with
  | nil => exact .nothing 0 entries
  | cons source rest ih =>
    obtain ⟨goes, free⟩ := free.goes entries
    obtain ⟨left, staged, _⟩ := step_execution_keeps rules unmarked idle entries
    refine .of_execution unmarked idle goes entries (by simp) ?_
      ((ih staged left free).wider (Nat.le_succ _))
    intro entry member
    obtain ⟨other, _, rfl⟩ := List.mem_map.mp member
    exact ⟨rfl, rfl⟩

theorem quota_of_executions (unmarked : line.flags.isReturn = false)
    (idle : m.pending = Stack.empty)
    (entries : m.stack.entries = executions frame line sources ++ lower)
    (free : m.UnlimitedFor rules sources.length) : sources.length ≤ m.quota := by
  induction sources generalizing m with
  | nil => exact Nat.zero_le _
  | cons source rest ih =>
    obtain ⟨goes, free⟩ := free.goes entries
    obtain ⟨left, staged, _, _, spent⟩ :=
      step_execution_keeps rules unmarked idle entries
    have paid := ih staged left free
    have quota := ((verdict?_eq_none_iff m).mp goes).2.2
    rw [List.length_cons]
    omega

theorem drip_turns (rules : Rules V) (unmarked : line.flags.isReturn = false)
    {rest : List (Source V)} (idle : m.pending = Stack.empty) (fine : m.overflowed = false)
    (entries : m.stack.entries = heldBack frame line (source :: rest) ++ lower)
    (still : (m.step rules).overflowed = false) :
    (m.step rules).stack.entries =
      ⟨frame, .execute line source⟩ :: (heldBack frame line rest ++ lower) ∧
    (m.step rules).pending = Stack.empty ∧ (m.step rules).limits = m.limits ∧
    (m.step rules).quota = m.quota ∧
    ((m.step rules).leafedAll rules frame line (source :: rest)).withWaiting lower =
      (m.leafedAll rules frame line (source :: rest)).withWaiting lower := by
  rw [(step_drip rules idle fine entries).2 still]
  refine ⟨rfl, idle, rfl, rfl, ?_⟩
  rw [leafedAll_withWaiting unmarked]
  rfl

/-- A drip runs its leaf under one source after the other, with two entries at a time. -/
theorem executes_heldBack (unmarked : line.flags.isReturn = false)
    (idle : m.pending = Stack.empty)
    (entries : m.stack.entries = heldBack frame line sources ++ lower)
    (free : m.UnlimitedFor rules (2 * sources.length)) :
    m.Executes rules frame line lower 2 sources (2 * sources.length) := by
  induction sources generalizing m with
  | nil => exact .nothing 2 entries
  | cons source rest ih =>
    have top : m.stack.entries = ⟨frame, .drip line (source :: rest)⟩ :: ([] ++ lower) := entries
    have few : (heldBack frame line rest).length < 2 := by
      have two := length_heldBack frame line rest
      omega
    have ours : ∀ entry ∈ heldBack frame line rest,
        entry.frame = frame ∧ entry.task.OfLeaf line := by
      cases rest with
      | nil => simp [heldBack]
      | cons next rest => exact List.forall_mem_singleton.mpr ⟨rfl, rfl⟩
    obtain ⟨goes, free⟩ := UnlimitedFor.goes (n := 2 * rest.length + 1) free entries
    have fine := ((verdict?_eq_none_iff m).mp goes).1
    have still := free.fine
    obtain ⟨next, staged, _, _, same⟩ := drip_turns rules unmarked idle fine entries still
    obtain ⟨goesOn, free⟩ := UnlimitedFor.goes (n := 2 * rest.length) free next
    obtain ⟨left, bare, _⟩ := step_execution_keeps rules unmarked staged next
    have later := Executes.of_execution unmarked staged goesOn next few ours (ih bare left free)
    exact .of_step goes top Nat.zero_lt_two
      (List.forall_mem_singleton.mpr ⟨rfl, rfl⟩) rfl same later

/-- Room for two entries and a command for each source are all that a drip needs. -/
theorem unlimitedFor_heldBack (unmarked : line.flags.isReturn = false)
    (idle : m.pending = Stack.empty) (fine : m.overflowed = false)
    (entries : m.stack.entries = heldBack frame line sources ++ lower)
    (room : lower.length + min 2 sources.length ≤ m.limits.queue)
    (quota : sources.length ≤ m.quota) : m.UnlimitedFor rules (2 * sources.length) := by
  induction sources generalizing m with
  | nil => exact fun k less => absurd less (Nat.not_lt_zero k)
  | cons source rest ih =>
    rw [List.length_cons] at room quota
    have still := (step_drip rules idle fine entries).1.mpr room
    obtain ⟨next, staged, limits, same, _⟩ :=
      drip_turns rules unmarked idle fine entries still
    obtain ⟨left, bare, clean, bounds, spent⟩ :=
      step_execution_keeps rules unmarked staged next
    have goes : m.verdict? = none :=
      (verdict?_eq_none_iff m).mpr ⟨fine, ⟨_, _, entries⟩, by omega⟩
    have goesOn : (m.step rules).verdict? = none :=
      (verdict?_eq_none_iff _).mpr ⟨still, ⟨_, _, next⟩, by omega⟩
    refine UnlimitedFor.of_step (n := 2 * rest.length + 1) goes (.of_step goesOn ?_)
    refine ih bare (clean.trans still) left ?_ ?_
    · rw [bounds, limits]
      omega
    · omega

def leafEntries (frame : Frame V) (line : LeafLine V) (sources : List (Source V)) :
    List (Entry V) :=
  if sources.length ≤ 2 then executions frame line sources else heldBack frame line sources

def leafTurns (n : Nat) : Nat := if n ≤ 2 then n else 2 * n

theorem queueLeaves_eq (frame : Frame V) (line : LeafLine V) (sources : List (Source V))
    (m : Machine V) :
    m.queueLeaves frame line sources = m.enqueueAll (leafEntries frame line sources) := by
  unfold leafEntries
  match sources with
  | [] => rfl
  | [_] => rfl
  | [_, _] => rfl
  | _ :: _ :: _ :: rest => rw [if_neg (by simp)]; rfl

theorem pushPending_of_unlimitedFor {entries : List (Entry V)} {n : Nat}
    (idle : m.pending = Stack.empty) (turns : n = 0 → entries = [])
    (free : (m.enqueueAll entries).pushPending.UnlimitedFor rules n) :
    (m.enqueueAll entries).pushPending = m.withWaiting (entries ++ m.stack.entries) := by
  cases n with
  | zero =>
    rw [turns rfl]
    exact (pushPending_of_idle idle).trans (withWaiting_of_entries rfl).symm
  | succ n => exact pushPending_enqueueAll idle free.fine

theorem executions_eq_nil (h : sources.length = 0) : executions frame line sources = [] := by
  rw [List.length_eq_zero_iff.mp h]
  rfl

theorem leafEntries_eq_nil (h : leafTurns sources.length = 0) :
    leafEntries frame line sources = [] := by
  unfold leafTurns at h
  have nothing : sources.length = 0 := by split at h <;> omega
  unfold leafEntries
  rw [if_pos (by omega)]
  exact executions_eq_nil nothing

theorem executes_leafEntries (unmarked : line.flags.isReturn = false)
    (idle : m.pending = Stack.empty)
    (entries : m.stack.entries = leafEntries frame line sources ++ lower)
    (free : m.UnlimitedFor rules (leafTurns sources.length)) :
    m.Executes rules frame line lower 2 sources (leafTurns sources.length) := by
  revert entries free
  unfold leafTurns leafEntries
  split
  · next few =>
    intro entries free
    exact (executes_executions unmarked idle entries free).wider few
  · exact executes_heldBack unmarked idle

theorem queueLeaves_pushed (idle : m.pending = Stack.empty)
    (free : (m.queueLeaves frame line sources).pushPending.UnlimitedFor rules
      (leafTurns sources.length)) :
    (m.queueLeaves frame line sources).pushPending =
      m.withWaiting (leafEntries frame line sources ++ m.stack.entries) := by
  rw [queueLeaves_eq] at free ⊢
  exact pushPending_of_unlimitedFor idle leafEntries_eq_nil free

theorem executes_queueLeaves (unmarked : line.flags.isReturn = false)
    (idle : m.pending = Stack.empty)
    (free : (m.queueLeaves frame line sources).pushPending.UnlimitedFor rules
      (leafTurns sources.length)) :
    (m.queueLeaves frame line sources).pushPending.Executes rules frame line m.stack.entries 2
      sources (leafTurns sources.length) := by
  have pushed := queueLeaves_pushed idle free
  rw [pushed] at free ⊢
  exact executes_leafEntries (m := m.withWaiting _) unmarked idle rfl free

theorem unlimitedFor_queueLeaves (unmarked : line.flags.isReturn = false)
    (idle : m.pending = Stack.empty)
    (free : (m.enqueueAll (executions frame line sources)).pushPending.UnlimitedFor rules
      sources.length) :
    (m.queueLeaves frame line sources).pushPending.UnlimitedFor rules
      (leafTurns sources.length) := by
  rw [queueLeaves_eq]
  unfold leafTurns leafEntries
  split
  · exact free
  · next many =>
    have fine : (m.enqueueAll (executions frame line sources)).overflowed = false := by
      obtain ⟨n, size⟩ := Nat.exists_eq_succ_of_ne_zero (n := sources.length) (by omega)
      rw [size] at free
      exact free.fine
    obtain ⟨clean, room, _⟩ := enqueueAll_of_fine fine
    have width : (executions frame line sources).length = sources.length := List.length_map _
    have room : m.stack.entries.length + sources.length ≤ m.limits.queue := by
      rw [← width, ← m.stack.size_eq, ← queued_of_idle idle]
      refine room.resolve_left fun nothing => many ?_
      rw [← width, nothing]
      exact Nat.zero_le 2
    rw [pushPending_enqueueAll idle fine] at free
    have quota : sources.length ≤ m.quota :=
      quota_of_executions (m := m.withWaiting _) unmarked idle rfl free
    have one : (heldBack frame line sources).length ≤ 1 := by
      cases sources with
      | nil => exact Nat.zero_le 1
      | cons => exact Nat.le_refl 1
    have drip : (m.enqueueAll (heldBack frame line sources)).overflowed = false := by
      refine enqueueAll_of_room clean ?_
      rw [queued_of_idle idle, m.stack.size_eq]
      omega
    rw [pushPending_enqueueAll idle drip]
    refine unlimitedFor_heldBack (m := m.withWaiting _) unmarked idle clean rfl ?_ quota
    exact Nat.le_trans (by omega) room

/-- Leaves of a line run under all of its sources in their order, before anything that waited
earlier, with at most two entries of their own at a time. Where queueing all executions at once
does not overflow the queue and meets no limit, it ends in the same machine. -/
theorem leaves_run_alike (rules : Rules V) (frame : Frame V) (line : LeafLine V)
    (unmarked : line.flags.isReturn = false) (sources : List (Source V)) (m : Machine V)
    (idle : m.pending = Stack.empty) :
    let dripped := (m.queueLeaves frame line sources).pushPending
    let direct := (m.enqueueAll (executions frame line sources)).pushPending
    let turns := leafTurns sources.length
    (dripped.UnlimitedFor rules turns →
      dripped.Executes rules frame line m.stack.entries 2 sources turns) ∧
    (direct.UnlimitedFor rules sources.length →
      dripped.Executes rules frame line m.stack.entries 2 sources turns ∧
      direct.Executes rules frame line m.stack.entries sources.length sources sources.length ∧
      dripped.after rules turns = direct.after rules sources.length) := by
  intro dripped direct turns
  refine ⟨executes_queueLeaves unmarked idle, fun free => ?_⟩
  have calm : dripped.UnlimitedFor rules turns := unlimitedFor_queueLeaves unmarked idle free
  have slow := executes_queueLeaves unmarked idle calm
  have pushed : direct = m.withWaiting (executions frame line sources ++ m.stack.entries) :=
    pushPending_of_unlimitedFor idle executions_eq_nil free
  have fast : direct.Executes rules frame line m.stack.entries sources.length sources
      sources.length := by
    rw [pushed] at free ⊢
    exact executes_executions (m := m.withWaiting _) unmarked idle rfl free
  refine ⟨slow, fast, ?_⟩
  rw [slow.left, fast.left, queueLeaves_pushed idle calm, pushed, leafedAll_withWaiting unmarked,
    leafedAll_withWaiting unmarked]
  rfl

def waiting : Machine packWords :=
  ((start {} ⟨{}, ({} : World)⟩).seedTask .fallthrough).pushPending

theorem leaves_run_alike_three :
    let sources := ["a", "b", "c"].map fun name =>
      PackSource.server.mapPersona (·.withEntity name)
    let line : LeafLine packWords := ⟨.say "hi", "say hi", Flags.none⟩
    let frame := Frame.root 1 [] 1
    let dripped := (waiting.queueLeaves frame line sources).pushPending
    let direct := (waiting.enqueueAll (executions frame line sources)).pushPending
    direct.stack.entries.length = 4 ∧
      dripped.Executes (packRules {}) frame line waiting.stack.entries 2 sources 6 ∧
      dripped.after (packRules {}) 6 = direct.after (packRules {}) 3 := by
  intro sources line frame dripped direct
  have runs : direct.Runs (packRules {}) 3 := by
    refine (runs_succ_iff _ _ _).mpr ⟨rfl, (runs_succ_iff _ _ _).mpr ⟨rfl, ?_⟩⟩
    exact (runs_succ_iff _ _ _).mpr ⟨rfl, runs_zero _ _⟩
  obtain ⟨drips, _, same⟩ :=
    (leaves_run_alike (packRules {}) frame line rfl sources waiting rfl).2 runs.unlimitedFor
  exact ⟨rfl, drips, same⟩

end Machine

end PackEngine
