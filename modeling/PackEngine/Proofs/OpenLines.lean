import PackEngine.Proofs.FreeRuns
import PackEngine.Proofs.Origins
import PackEngine.Proofs.TraceDepths

/-! Lines between their beginning and their leaves. While a run tells nothing, what waits above the
work below a line works on that line alone; and once nothing of it is left, a line that has waited
below goes on. -/
namespace PackEngine

open Machine

def Task.Unlined (task : Task packWords) : Prop := ∀ line, ¬task.WorksOn line

def Task.IsLeaf : Task packWords → Prop
  | .execute _ _ => True
  | .drip _ _ => True
  | _ => False

/-- A line that has begun waits for what its conditions decide. -/
def Task.Resumable : Task packWords → Prop
  | .line _ (.ready _) _ _ topLevel => topLevel = true
  | _ => True

def Entry.On (frame : Frame packWords) (line : Chain packWords) (entry : Entry packWords) : Prop :=
  entry.frame = frame ∧ entry.task.WorksOn line

section

variable {pack : Pack} {frame : Frame packWords} {task : Task packWords} {entry : Entry packWords}
  {issuer : PackSource} {chain : Chain packWords}

theorem Task.worksOn_self (issuer : PackSource) (sources : Sources packWords)
    (chain : Chain packWords) (flags : Flags) (topLevel : Bool) :
    (Task.line issuer sources chain flags topLevel).WorksOn chain :=
  ⟨rfl, rfl, List.suffix_refl _⟩

theorem Task.Unlined.not_isLeaf (h : task.Unlined) : ¬task.IsLeaf := by
  intro leaf
  cases task with
  | execute line source => exact h ⟨line.input, [], .leaf line.leaf⟩ ⟨rfl, rfl⟩
  | drip line sources => exact h ⟨line.input, [], .leaf line.leaf⟩ ⟨rfl, rfl⟩
  | _ => exact leaf

theorem Task.WorksOn.trans {line : Chain packWords} (h : task.WorksOn chain)
    {issuer : PackSource} {sources : Sources packWords} {flags : Flags} {topLevel : Bool}
    (rest : (Task.line issuer sources chain flags topLevel).WorksOn line) : task.WorksOn line := by
  obtain ⟨input, executable, modifiers⟩ := rest
  cases task with
  | line issuer sources chain flags topLevel =>
    exact ⟨h.1.trans input, h.2.1.trans executable, h.2.2.trans modifiers⟩
  | execute leaf source => exact ⟨h.1.trans input, executable.symm.trans h.2⟩
  | drip leaf sources => exact ⟨h.1.trans input, executable.symm.trans h.2⟩
  | _ => exact h

theorem Acts.unlined {action : CallAction} {C : Callback packWords → Prop}
    (h : Acts frame action C (.queue entry)) : entry.task.Unlined := by
  cases h with
  | idle idle => exact idle.elim
  | calls calls => cases calls <;> exact fun _ works => works
  | _ => exact fun _ works => works

theorem finish_queues (pack : Pack) (frame : Frame packWords) (chain : Chain packWords)
    (flags : Flags) (sources : List PackSource) (m : Machine packWords) :
    (∀ entry, .queue entry ∈ finishOperations (packRules pack) frame { chain with modifiers := [] }
        flags sources m → entry.task.IsLeaf ∧ entry.On frame chain) ∨
      ∀ entry, .queue entry ∈ finishOperations (packRules pack) frame
        { chain with modifiers := [] } flags sources m → entry.task.Unlined := by
  unfold finishOperations
  split
  · refine .inr fun entry queued => ?_
    split at queued
    · cases List.mem_singleton.mp queued
      exact fun _ works => works
    · cases queued
  · cases ends : chain.executable with
    | action action =>
      refine .inr fun entry queued => ?_
      exact (actAllOperations_acts (C := fun _ => True) action _ flags (fun _ _ => trivial) m _
        queued).unlined
    | leaf leaf =>
      refine .inl fun entry queued => ?_
      refine forall_leavesOperations (P := fun operation => ∀ entry, operation = .queue entry →
        entry.task.IsLeaf ∧ entry.On frame chain) ?_ ?_ _ queued entry rfl
      · rintro source _ _ ⟨⟩
        exact ⟨trivial, rfl, rfl, ends⟩
      · rintro _ ⟨⟩
        exact ⟨trivial, rfl, rfl, ends⟩

theorem gate_queues (pack : Pack) (frame : Frame packWords) (condition : Condition)
    (issuer : PackSource) (sources : List PackSource) {passed rest : List (Modifier packWords)}
    {modifier : Modifier packWords} (place : chain.modifiers = passed ++ modifier :: rest)
    (flags : Flags) (m : Machine packWords)
    (queued : .queue entry ∈ gateOperations (packRules pack) frame condition issuer sources
      { chain with modifiers := modifier :: rest } flags m) :
    entry.task.Unlined ∨ ∃ cell rest marked,
      entry = ⟨frame, .continuation issuer cell rest marked⟩ ∧
      (Task.continuation issuer cell rest marked).WorksOn chain := by
  by_cases bounds : ∃ functions bound, pack.library.resolve condition.target = .ok functions ∧
      FunctionRef.instantiateAll none functions = .ok bound
  · obtain ⟨functions, bound, resolves, binds⟩ := bounds
    rw [gateOperations_bound resolves binds] at queued
    simp only [List.cons_append, List.mem_cons, List.mem_append, List.mem_map,
      List.not_mem_nil, or_false] at queued
    obtain same | ⟨source, _, same⟩ | same := queued
    · cases same
    · cases same
      exact .inl fun _ works => works
    · cases same
      refine .inr ⟨_, _, _, rfl, rfl, rfl, ?_⟩
      show rest <:+ chain.modifiers
      rw [place]
      exact (List.suffix_cons _ _).trans (List.suffix_append _ _)
  · obtain ⟨error, refused⟩ := gateOperations_refused frame issuer chain modifier rest
      (fun functions bound resolves binds => bounds ⟨functions, bound, resolves, binds⟩) sources
      flags m
    rw [refused] at queued
    cases List.mem_singleton.mp queued

/-- A line queues its leaves only; or work on no line, and its own rest behind that. -/
theorem line_queues (pack : Pack) (frame : Frame packWords) (issuer : PackSource)
    (sources : Sources packWords) (chain : Chain packWords) (flags : Flags) (topLevel : Bool)
    (m : Machine packWords) :
    (∀ entry, .queue entry ∈ m.operations (packRules pack) frame
        (.line issuer sources chain flags topLevel) → entry.task.IsLeaf ∧ entry.On frame chain) ∨
      ∀ entry, .queue entry ∈ m.operations (packRules pack) frame
        (.line issuer sources chain flags topLevel) → entry.task.Unlined ∨
          ∃ cell rest marked, entry = ⟨frame, .continuation issuer cell rest marked⟩ ∧
            (Task.continuation issuer cell rest marked).WorksOn chain := by
  obtain ⟨reports, ending, same, only, ends⟩ := walkOperations_shape frame
    (packRules pack).redirectsKeep_true issuer trivial (List.nil_append chain.modifiers).symm flags
    (m.lineSources (packRules pack) frame sources chain topLevel).1 (fun _ _ => trivial)
    (Operation.applyAll (packRules pack) (openingOperations frame sources chain topLevel) m)
  have whole : m.operations (packRules pack) frame (.line issuer sources chain flags topLevel) =
      openingOperations frame sources chain topLevel ++ (reports ++ ending) := by
    rw [← same]
    cases topLevel <;> cases sources <;> rfl
  rw [whole]
  -- before its end a line only tells, reports and takes its sources
  have late {entry : Entry packWords}
      (queued : .queue entry ∈ openingOperations frame sources chain topLevel ++
        (reports ++ ending)) : .queue entry ∈ ending := by
    simp only [openingOperations, List.mem_append] at queued
    obtain (opening | opening) | reported | queued := queued
    · cases topLevel <;> simp at opening
    · cases sources <;> simp at opening
    · obtain ⟨_, _, _, _, same⟩ := only _ reported
      cases same
    · exact queued
  cases ends with
  | stopped => exact .inl fun entry queued => absurd (late queued) List.not_mem_nil
  | gated flags place gates fit =>
    exact .inr fun entry queued => gate_queues pack frame _ issuer _ place flags _ (late queued)
  | finished flags fit =>
    obtain leaves | unlined := finish_queues pack frame chain flags _ _
    · exact .inl fun entry queued => leaves entry (late queued)
    · exact .inr fun entry queued => .inl (unlined entry (late queued))

theorem PackTask.hands_on (h : PackTask task) (command : task.isCommand = false)
    (m : Machine packWords) (queued : .queue entry ∈ m.operations (packRules pack) frame task) :
    entry.task.Unlined ∨ ¬task.Unlined ∧ entry.frame = frame ∧
      ∀ line, task.WorksOn line → entry.task.WorksOn line := by
  cases h with
  | line issuer sources chain flags topLevel =>
    have lined : ¬(Task.line issuer sources chain flags topLevel).Unlined :=
      fun unlined => unlined chain (Task.worksOn_self _ _ _ _ _)
    obtain leaves | works := line_queues pack frame issuer sources chain flags topLevel m
    · obtain ⟨_, own, works⟩ := leaves entry queued
      exact .inr ⟨lined, own, fun line rest => works.trans rest⟩
    · refine (works entry queued).imp_right ?_
      rintro ⟨cell, rest, marked, rfl, works⟩
      exact ⟨lined, rfl, fun line rest => works.trans rest⟩
  | execute line source => cases command
  | drip line sources =>
    have lined : ¬(Task.drip line sources).Unlined :=
      fun unlined => Task.Unlined.not_isLeaf unlined trivial
    cases sources with
    | nil => cases queued
    | cons source rest =>
      obtain same | same := mem_dripOperations queued
      · cases same
        exact .inr ⟨lined, rfl, fun _ works => works⟩
      · cases same
        exact .inr ⟨lined, rfl, fun _ works => works⟩
  | call function callback returnCall source => cases command
  | endFunction =>
    simp only [operations] at queued
    split at queued
    · cases List.mem_singleton.mp queued
    · cases queued
  | condition bound callee output =>
    simp only [operations, conditionProducer_operations, List.mem_cons, List.mem_append,
      List.mem_map, List.not_mem_nil, or_false] at queued
    obtain same | ⟨function, _, same⟩ | same := queued
    · cases same
    · cases same
      exact .inl fun _ works => works
    · cases same
      exact .inl fun _ works => works
  | fallthrough => cases List.mem_singleton.mp queued
  | total tally sink => cases List.mem_singleton.mp queued
  | heading index item => cases List.mem_singleton.mp queued
  | closing index source text =>
    change Operation.queue entry ∈ [Operation.detach, Operation.update _, Operation.update _]
      at queued
    simp at queued

theorem PackTask.queues_leaves (h : PackTask task) (pack : Pack) (frame : Frame packWords)
    (m : Machine packWords) :
    (∀ entry, .queue entry ∈ m.operations (packRules pack) frame task → entry.task.IsLeaf) ∨
      ¬task.IsLeaf ∧
        ∀ entry, .queue entry ∈ m.operations (packRules pack) frame task → ¬entry.task.IsLeaf := by
  have others (command : task.isCommand = false) (unlined : task.Unlined) :
      ¬task.IsLeaf ∧ ∀ entry, .queue entry ∈ m.operations (packRules pack) frame task →
        ¬entry.task.IsLeaf :=
    ⟨unlined.not_isLeaf, fun entry queued =>
      ((h.hands_on command m queued).resolve_right fun lined => lined.1 unlined).not_isLeaf⟩
  cases h with
  | line issuer sources chain flags topLevel =>
    obtain leaves | works := line_queues pack frame issuer sources chain flags topLevel m
    · exact .inl fun entry queued => (leaves entry queued).1
    · refine .inr ⟨id, fun entry queued => ?_⟩
      obtain unlined | ⟨_, _, _, rfl, _⟩ := works entry queued
      · exact unlined.not_isLeaf
      · exact id
  | execute line source =>
    exact .inl fun entry queued => absurd queued (leafOperations_idle _ line source m entry)
  | drip line sources =>
    refine .inl fun entry queued => ?_
    cases sources with
    | nil => cases queued
    | cons source rest => obtain same | same := mem_dripOperations queued <;> cases same <;> trivial
  | call function callback returnCall source =>
    refine .inr ⟨id, fun entry queued => ?_⟩
    simp only [operations, List.mem_append, List.mem_cons, List.mem_map, List.not_mem_nil,
      or_false] at queued
    obtain ((same | same | same) | ⟨line, _, same⟩) | same := queued <;> cases same <;> exact id
  | _ => exact .inr (others rfl fun _ works => works)

theorem PackTask.queues_resumable (h : PackTask task) (m : Machine packWords)
    (queued : .queue entry ∈ m.operations (packRules pack) frame task) :
    entry.task.Resumable := by
  have unlined (quiet : entry.task.Unlined) : entry.task.Resumable := by
    obtain ⟨_, task⟩ := entry
    cases task with
    | line issuer sources chain flags topLevel => exact (quiet chain (Task.worksOn_self ..)).elim
    | _ => trivial
  have leaf (one : entry.task.IsLeaf) : entry.task.Resumable := by
    obtain ⟨_, task⟩ := entry
    cases task with
    | line issuer sources chain flags topLevel => exact one.elim
    | _ => trivial
  have others (command : task.isCommand = false) (quiet : task.Unlined) : entry.task.Resumable :=
    unlined ((h.hands_on command m queued).resolve_right fun lined => lined.1 quiet)
  cases h with
  | line issuer sources chain flags topLevel =>
    obtain leaves | works := line_queues pack frame issuer sources chain flags topLevel m
    · exact leaf (leaves entry queued).1
    · obtain quiet | ⟨_, _, _, rfl, _⟩ := works entry queued
      · exact unlined quiet
      · trivial
  | call function callback returnCall source =>
    simp only [operations, List.mem_append, List.mem_cons, List.mem_map, List.not_mem_nil,
      or_false] at queued
    obtain ((same | same | same) | ⟨line, _, same⟩) | same := queued <;> cases same <;> trivial
  | execute line source => exact absurd queued (leafOperations_idle _ line source m entry)
  | drip line sources =>
    cases sources with
    | nil => cases queued
    | cons source rest => obtain same | same := mem_dripOperations queued <;> cases same <;> trivial
  | _ => exact others rfl fun _ works => works

theorem Task.isLeaf_or_unlined_or_line (task : Task packWords) : task.IsLeaf ∨ task.Unlined ∨
    ∃ issuer sources chain flags topLevel, task = .line issuer sources chain flags topLevel := by
  cases task with
  | line issuer sources chain flags topLevel => exact .inr (.inr ⟨_, _, _, _, _, rfl⟩)
  | execute line source => exact .inl trivial
  | drip line sources => exact .inl trivial
  | _ => exact .inr (.inl fun _ works => works)

end

namespace Machine

variable {pack : Pack} {m : Machine packWords} {top : Entry packWords}
  {upper lower below : List (Entry packWords)}

/-- A turn puts what it queues on top of the work below, or takes from that work only. -/
theorem Reached.step_entries (h : m.Reached (packRules pack) PackTask)
    (entries : m.stack.entries = top :: lower)
    (fine : (m.step (packRules pack)).overflowed = false) :
    (∃ queued, (m.step (packRules pack)).stack.entries = queued ++ lower ∧
        ∀ entry ∈ queued, .queue entry ∈ m.turnOperations (packRules pack)) ∨
      (m.step (packRules pack)).stack.entries <:+ lower := by
  by_cases never : returnsIn (m.turnOperations (packRules pack)) = []
  · refine .inl ⟨_, step_queued h.pending entries never fine, fun entry member => ?_⟩
    obtain ⟨operation, among, same⟩ := List.mem_filterMap.mp member
    cases operation with
    | queue queued =>
      cases same
      exact among
    | _ => cases same
  · obtain ⟨⟨frame, outcome⟩, returned⟩ := List.exists_mem_of_ne_nil _ never
    have queues := h.idle_of_returns (mem_returnsIn.mp returned)
    refine .inr ?_
    rw [step_eq_applyAll _ entries]
    have closed : (Operation.applyAll (packRules pack) (m.turnOperations (packRules pack))
        (m.taking top lower)).pending.entries = [] := by
      refine List.eq_nil_iff_forall_not_mem.mpr fun entry member => ?_
      obtain staged | queued := Operation.mem_pending_applyAll member
      · simp [taking, h.pending, Stack.empty] at staged
      · exact queues entry queued
    show (Operation.applyAll _ _ (m.taking top lower)).pending.entries.reverse ++
      (Operation.applyAll _ _ (m.taking top lower)).stack.entries <:+ lower
    rw [closed]
    exact Operation.stack_suffix_applyAll _ _ (m.taking top lower)

/-- Leaves wait on top of all other work, and lines that have begun are resumable. -/
structure Tidy (m : Machine packWords) : Prop where
  leaves : m.stack.entries.Pairwise fun upper lower => lower.task.IsLeaf → upper.task.IsLeaf
  lines : ∀ entry ∈ m.stack.entries, entry.task.Resumable

theorem Tidy.step (tidy : m.Tidy) (h : m.Reached (packRules pack) PackTask)
    (entries : m.stack.entries = top :: lower)
    (fine : (m.step (packRules pack)).overflowed = false) : (m.step (packRules pack)).Tidy := by
  have task := h.packTasks top (entries ▸ List.mem_cons_self)
  have own := turnOperations_of_entries (packRules pack) entries
  obtain ⟨leaves, lines⟩ := tidy
  rw [entries] at leaves lines
  obtain ⟨above, below⟩ := List.pairwise_cons.mp leaves
  constructor
  · obtain ⟨queued, grown, among⟩ | suffix := h.step_entries entries fine
    · rw [grown]
      rw [own] at among
      refine List.pairwise_append.mpr ⟨?_, below, fun upper member other waits leaf => ?_⟩
      · obtain all | ⟨_, leafless⟩ := task.queues_leaves pack top.frame (m.taking top lower)
        · exact List.pairwise_of_forall_mem_list fun upper member _ _ _ =>
            all upper (among upper member)
        · exact List.pairwise_of_forall_mem_list fun _ _ other member leaf =>
            absurd leaf (leafless other (among other member))
      · obtain all | ⟨other, _⟩ := task.queues_leaves pack top.frame (m.taking top lower)
        · exact all upper (among upper member)
        · exact absurd (above _ waits leaf) other
    · exact below.sublist suffix.sublist
  · intro entry member
    obtain kept | queued := mem_step h.pending entries member
    · exact lines entry (List.mem_cons_of_mem _ kept)
    · exact task.queues_resumable _ (own ▸ queued)

theorem Tidy.after (tidy : m.Tidy) (h : m.Reached (packRules pack) PackTask) {n : Nat}
    (runs : m.Runs (packRules pack) (n + 1)) : (m.after (packRules pack) n).Tidy := by
  induction n with
  | zero => exact tidy
  | succ n ih =>
    obtain ⟨before, goes⟩ := (runs_succ_last_iff _ (n + 1) m).mp runs
    obtain ⟨earlier, went⟩ := (runs_succ_last_iff _ n m).mp before
    obtain ⟨_, ⟨top, lower, entries⟩, _⟩ := (verdict?_eq_none_iff _).mp went
    rw [after_succ] at goes ⊢
    exact (ih before).step (h.after earlier) entries ((verdict?_eq_none_iff _).mp goes).1

end Machine

theorem RunRequest.opening_tidy (request : RunRequest) (functions : List (BoundFunction packWords))
    (w : World) : (request.opening functions w).Tidy := by
  constructor
  · refine List.pairwise_of_forall_mem_list fun _ _ entry member leaf => ?_
    obtain ⟨_, _, _, _, rfl⟩ := request.opening_calls functions w member
    exact leaf.elim
  · intro entry member
    obtain ⟨_, _, _, _, rfl⟩ := request.opening_calls functions w member
    trivial

namespace Machine

variable {pack : Pack} {m : Machine packWords} {top : Entry packWords}
  {upper below : List (Entry packWords)}

/-- What holds of the work above and of what is queued holds of the work above after the turn, or
all that is gone, and maybe some of the work below. -/
theorem Reached.step_above (h : m.Reached (packRules pack) PackTask) {P : Entry packWords → Prop}
    (entries : m.stack.entries = top :: (upper ++ below)) (above : ∀ entry ∈ upper, P entry)
    (queued : ∀ entry, .queue entry ∈ m.turnOperations (packRules pack) → P entry)
    (fine : (m.step (packRules pack)).overflowed = false) :
    (∃ others, (m.step (packRules pack)).stack.entries = others ++ below ∧
        ∀ entry ∈ others, P entry) ∨
      (m.step (packRules pack)).stack.entries <:+ below := by
  obtain ⟨fresh, grown, among⟩ | suffix := h.step_entries entries fine
  · refine .inl ⟨fresh ++ upper, by rw [grown, List.append_assoc], fun entry member => ?_⟩
    cases List.mem_append.mp member with
    | inl member => exact queued entry (among entry member)
    | inr member => exact above entry member
  · obtain less | more := List.suffix_or_suffix_of_suffix suffix (List.suffix_append upper below)
    · exact .inr less
    · obtain ⟨others, split⟩ := more
      refine .inl ⟨others, split.symm, fun entry member => above entry ?_⟩
      rw [← split] at suffix
      exact ((List.suffix_append_inj_of_length_eq rfl).mp suffix).1.mem member

end Machine

end PackEngine
