import PackEngine.Proofs.Accounts
import PackEngine.Proofs.TwinTasks

/-! Runs of twins. They go on side by side, turn for turn, as long as the second has not stopped and
has not come down to its further work. -/
namespace PackEngine

open Machine Operation

variable {d : Difference} {pack : Pack} {m n : Machine packWords} {extra : Nat}

theorem charges_alike {first second : List (Operation packWords)} (same : Alike d first second) :
    charges second = charges first := by
  induction same with
  | nil => rfl
  | cons one _ ih =>
    rw [charges_cons, charges_cons, ih]
    cases one <;> rfl

namespace Machine

/-- The line on top of the stack gets to a debug command in the next turn, with sources left. -/
def DebugsNext (pack : Pack) (m : Machine packWords) : Prop :=
  ∃ top rest, m.stack.entries = top :: rest ∧ (m.taking top rest).Debugs pack top.frame top.task

structure Abreast (d : Difference) (extra : Nat) (m n : Machine packWords) : Prop
    extends twins : m.Twins d n where
  quota : m.quota = n.quota + extra

theorem Twins.pushPending (h : m.Twins d n) : m.pushPending.Twins d n.pushPending := by
  refine ⟨h.toTwins, h.forks, h.room, h.tracer, fun fine => ?_, h.full⟩
  have waits := h.waits fine
  obtain ⟨upper, stack, same⟩ := waits.stack
  refine ⟨waits.fine, ⟨n.pending.entries.reverse ++ upper, ?_, ?_⟩, .nil⟩
  · show n.pending.entries.reverse ++ n.stack.entries = _
    rw [stack, List.append_assoc]
  · exact List.rel_append (List.rel_reverse waits.pending) same

theorem Twins.tops (h : m.Twins d n) (goes : n.verdict? = none)
    (busy : n.stack.entries ≠ d.lower) :
    m.overflowed = false ∧ ∃ top rest other others,
      m.stack.entries = top :: rest ∧ n.stack.entries = other :: others ∧
      top.Twins d other ∧ (m.taking top rest).Twins d (n.taking other others) := by
  have fine := ((verdict?_eq_none_iff n).mp goes).1
  have waits := h.waits fine
  obtain ⟨upper, stack, same⟩ := waits.stack
  cases entries : m.stack.entries with
  | nil =>
    rw [entries] at same
    cases same
    exact absurd stack busy
  | cons top rest =>
    rw [entries] at same
    obtain ⟨other, others, twin, below, rfl⟩ := List.forall₂_cons_left_iff.mp same
    refine ⟨waits.fine, top, rest, other, others ++ d.lower, rfl, stack, twin, ?_⟩
    refine ⟨h.toTwins, h.forks, h.room, h.tracer, fun _ => ?_, h.full⟩
    exact ⟨waits.fine, ⟨others, rfl, below⟩, waits.pending⟩

theorem Twins.done (h : m.Twins d n) (fine : n.overflowed = false)
    (rest : n.stack.entries = d.lower) : m.verdict? = some (.ok ()) := by
  have waits := h.waits fine
  obtain ⟨upper, stack, same⟩ := waits.stack
  have nothing : upper = [] := List.self_eq_append_left.mp (rest.symm.trans stack)
  rw [nothing] at same
  exact (verdict?_eq_ok_iff m).mpr ⟨waits.fine, List.forall₂_nil_right_iff.mp same⟩

theorem Abreast.step (h : m.Abreast d extra n) (goes : n.verdict? = none)
    (busy : n.stack.entries ≠ d.lower) (unseen : d.observed = false ∨ ¬m.DebugsNext pack) :
    m.verdict? = none ∧
      (m.step (packRules pack)).Abreast d extra (n.step (packRules pack)) := by
  obtain ⟨fine, top, rest, other, others, first, second, twin, twins⟩ := h.twins.tops goes busy
  have left := ((verdict?_eq_none_iff n).mp goes).2.2
  have quota := h.quota
  have alike : Alike d
      ((m.taking top rest).operations (packRules pack) top.frame top.task)
      ((n.taking other others).operations (packRules pack) other.frame other.task) := by
    rw [twin.frame]
    refine operations_twins pack twin.task twin.known ?_ twins
    exact unseen.imp_right fun never debugs => never ⟨top, rest, first, debugs⟩
  have charged := charges_alike alike
  -- no more is charged than what is left, so the difference in quota stays
  have cheap :
      charges ((m.taking top rest).operations (packRules pack) top.frame top.task) ≤ 1 := by
    have once := charges_operations (packRules pack) top.frame top.task (m.taking top rest)
    split at once
    · obtain ⟨more, same, free⟩ := once
      rw [same, charges_cons, free]
      exact Nat.le_refl 1
    · rw [once]
      exact Nat.zero_le 1
  refine ⟨?_, ?_, ?_⟩
  · exact (verdict?_eq_none_iff m).mpr ⟨fine, ⟨top, rest, first⟩, by omega⟩
  · rw [step_eq_applyAll _ first, step_eq_applyAll _ second, turnOperations_of_entries _ first,
      turnOperations_of_entries _ second]
    exact (Operation.Twins.applyAll pack alike twins).pushPending
  · rw [step_eq_applyAll _ first, step_eq_applyAll _ second, turnOperations_of_entries _ first,
      turnOperations_of_entries _ second]
    show (applyAll _ _ _).quota = (applyAll _ _ _).quota + extra
    rw [quota_applyAll, quota_applyAll, charged]
    show m.quota - _ = n.quota - _ + extra
    omega

theorem Abreast.after (h : m.Abreast d extra n) {k : Nat} (runs : n.Runs (packRules pack) k)
    (busy : ∀ i < k, (n.after (packRules pack) i).stack.entries ≠ d.lower)
    (unseen : d.observed = false ∨ ∀ i < k, ¬(m.after (packRules pack) i).DebugsNext pack) :
    m.Runs (packRules pack) k ∧
      (m.after (packRules pack) k).Abreast d extra (n.after (packRules pack) k) := by
  induction k with
  | zero => exact ⟨runs_zero _ m, h⟩
  | succ k ih =>
    obtain ⟨before, goes⟩ := (runs_succ_last_iff _ k n).mp runs
    obtain ⟨further, abreast⟩ := ih before (fun i less => busy i (by omega))
      (unseen.imp_right fun never i less => never i (by omega))
    obtain ⟨going, next⟩ := abreast.step goes (busy k (by omega))
      (unseen.imp_right fun never => never k (by omega))
    rw [after_succ, after_succ]
    exact ⟨(runs_succ_last_iff _ k m).mpr ⟨further, going⟩, next⟩

theorem Runs.busy {last : Nat} (runs : n.Runs (packRules pack) last) (bottom : d.lower = []) :
    ∀ i < last, (n.after (packRules pack) i).stack.entries ≠ d.lower := by
  intro i before
  rw [bottom]
  exact fun done => verdict?_ne_none done (runs i before)

theorem Abreast.verdict (h : m.Abreast d 0 n) (alone : d.lower = [])
    (limits : n.limits = m.limits) : n.verdict? = m.verdict? := by
  have full : n.overflowed = m.overflowed := by
    cases overflowed : n.overflowed with
    | false => exact (h.waits overflowed).fine.symm
    | true => exact (h.full alone (congrArg Limits.queue limits) overflowed).symm
  have quota : n.quota = m.quota := h.quota.symm
  unfold verdict?
  rw [full, limits, quota]
  cases overflowed : m.overflowed with
  | true => rfl
  | false =>
    obtain ⟨upper, stack, same⟩ := (h.waits (full.trans overflowed)).stack
    have size : n.stack.isEmpty = m.stack.isEmpty := by
      unfold Stack.isEmpty
      rw [n.stack.size_eq, m.stack.size_eq, stack, alone, List.append_nil, same.length_eq]
    rw [size]

end Machine

/-! Every machine is its own twin. -/

theorem PackTask.twin (names : d.names = .same) (alone : d.observed = false)
    {task : Task packWords} (h : PackTask task) : task.Twins d task := by
  have source (source : PackSource) : source.rename d.names = source := by
    rw [names, Source.rename_same]
  have callback (callback : Callback packWords) : Callback.rename d.names callback = callback := by
    rw [names, Callback.rename_same]
  cases h with
  | line issuer sources chain flags topLevel =>
    have twin := Task.Twins.line (d := d) issuer sources chain flags topLevel
    rwa [source, names, Sources.rename_same] at twin
  | execute line one =>
    have twin := Task.Twins.execute (d := d) line one
    rwa [source] at twin
  | drip line sources =>
    have twin := Task.Twins.drip (d := d) line sources
    rwa [names, Source.map_rename_same] at twin
  | call function sink returnCall one =>
    have twin := Task.Twins.call (d := d) function sink returnCall one
    rwa [source, callback] at twin
  | endFunction => exact .endFunction
  | condition bound callee output =>
    have twin := Task.Twins.condition (d := d) bound callee output
    rwa [source, callback] at twin
  | fallthrough => exact .fallthrough
  | total tally sink =>
    have twin := Task.Twins.total (d := d) tally sink
    rwa [callback, names] at twin
  | heading index item => exact .heading index item
  | closing index one text =>
    have twin := Task.Twins.closing (d := d) alone index one text
    rwa [source] at twin

def Difference.start (observed : Bool) (w : World) : Difference where
  observed := observed
  before := w.journal.toList

theorem Entry.twin {entry : Entry packWords} (h : PackTask entry.task) (w : World) :
    entry.Twins (.start false w) entry :=
  ⟨(Frame.rename_same entry.frame).symm, h.twin rfl rfl, fun _ => Nat.zero_le _⟩

namespace Machine

theorem Reached.twin (h : m.Reached (packRules pack) PackTask) :
    m.Twins (.start false m.setting) m where
  heap := .refl m.heap
  setting := .refl rfl
  forks := rfl
  room := Nat.le_refl _
  tracer := rfl
  waits fine := by
    refine ⟨fine, ⟨m.stack.entries, (List.append_nil _).symm, ?_⟩, ?_⟩
    · exact List.forall₂_same.mpr fun entry member => Entry.twin (h.packTasks entry member) _
    · rw [h.pending]
      exact .nil
  full _ _ full := full

theorem Reached.tells (h : m.Reached (packRules pack) PackTask) {k : Nat}
    (runs : m.Runs (packRules pack) k) :
    m.setting.journal.toList <+: (m.after (packRules pack) k).setting.journal.toList := by
  induction k with
  | zero => exact List.prefix_refl _
  | succ k ih =>
    obtain ⟨before, goes⟩ := (runs_succ_last_iff _ k m).mp runs
    refine (ih before).trans ?_
    rw [after_succ]
    have twins := (h.after before).twin
    generalize m.after (packRules pack) k = m at twins goes
    obtain ⟨_, top, rest, other, others, first, second, twin, taking⟩ :=
      twins.tops goes fun ended => verdict?_ne_none ended goes
    have alike := operations_twins pack twin.task twin.known (.inl rfl) taking
    rw [step_eq_applyAll _ first, turnOperations_of_entries _ first]
    exact Operation.Twins.applyAll_grows alike (m.taking top rest)

end Machine

end PackEngine
