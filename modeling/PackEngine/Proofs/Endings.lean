import PackEngine.Proofs.Activations
import PackEngine.Proofs.Calls
import PackEngine.Proofs.PackTasks

/-! Runs of packs end. A task that is not charged for leads to lower tasks only, so between two
charged commands the waiting work runs dry. -/
namespace PackEngine

/-- What a task may lead to, without a command being charged, ranks lower. -/
def Task.rank {V : Vocabulary} : Task V → Nat × Nat
  | .line _ _ chain _ _ => (chain.modifiers.length + 2, 0)
  | .drip _ sources => (1, sources.length)
  | .isolated _ _ => (1, 0)
  | _ => (0, 0)

def Rank.Below : Nat × Nat → Nat × Nat → Prop := Prod.Lex (· < ·) (· < ·)

theorem Rank.below_wf : WellFounded Rank.Below := (Prod.lex Nat.lt_wfRel Nat.lt_wfRel).wf

section

variable {pack : Pack} {frame : Frame packWords} {issuer : PackSource} {chain : Chain packWords}
  {tallies : Nat} {C : Callback packWords → Prop}

theorem LineWork.queued {entry : Entry packWords}
    (h : LineWork frame issuer chain tallies C (.queue entry)) :
    PackTask entry.task ∧ Rank.Below entry.task.rank (chain.modifiers.length + 2, 0) := by
  have lower {rank : Nat × Nat} (le : rank.1 ≤ 1) :
      Rank.Below rank (chain.modifiers.length + 2, 0) := by
    obtain ⟨first, second⟩ := rank
    exact Prod.Lex.left _ _ (by omega)
  cases h with
  | execute line heard => exact ⟨.execute _ _, lower (Nat.zero_le 1)⟩
  | drip line heard => exact ⟨.drip _ _, lower (Nat.le_refl 1)⟩
  | fallthrough => exact ⟨.fallthrough, lower (Nat.zero_le 1)⟩
  | condition polarity bound cell heard => exact ⟨.condition _ _ _, lower (Nat.le_refl 1)⟩
  | continuation cell flags shorter =>
    exact ⟨.line _ _ _ _ _, Prod.Lex.left _ _ (by omega)⟩
  | returnCall function callee heard => exact ⟨.call _ _ _ _, lower (Nat.zero_le 1)⟩
  | call function callee heard => exact ⟨.call _ _ _ _, lower (Nat.zero_le 1)⟩
  | talliedCall function source callee fresh => exact ⟨.call _ _ _ _, lower (Nat.zero_le 1)⟩
  | total fresh heard => exact ⟨.total _ _, lower (Nat.zero_le 1)⟩
  | heading index item => exact ⟨.heading _ _, lower (Nat.zero_le 1)⟩
  | tracedCall function heard => exact ⟨.call _ _ _ _, lower (Nat.zero_le 1)⟩
  | closing index source text => exact ⟨.closing _ _ _, lower (Nat.zero_le 1)⟩

theorem mem_returnsOf {outcome : Outcome} {sources : List PackSource}
    {operation : Operation packWords} (member : operation ∈ returnsOf frame outcome sources) :
    (∃ source ∈ sources, operation = .deliver source.callback outcome) ∨
      operation = .returnFrom frame outcome := by
  obtain ⟨source, present, member⟩ := List.mem_flatMap.mp member
  cases List.mem_cons.mp member with
  | inl same => exact .inl ⟨source, present, same⟩
  | inr member => exact .inr (List.mem_singleton.mp member)

structure PackTurn (rank : Nat × Nat) (operations : List (Operation packWords)) : Prop where
  either : (∀ entry, .queue entry ∉ operations) ∨
    ∀ frame outcome, .returnFrom frame outcome ∉ operations
  tasks : ∀ entry, .queue entry ∈ operations → PackTask entry.task
  lower : ∀ entry, .queue entry ∈ operations →
    Rank.Below entry.task.rank rank ∨ .charge ∈ operations

theorem PackTurn.of_idle {rank : Nat × Nat} {operations : List (Operation packWords)}
    (idle : ∀ entry, .queue entry ∉ operations) : PackTurn rank operations :=
  ⟨.inl idle, fun entry member => absurd member (idle entry),
    fun entry member => absurd member (idle entry)⟩

theorem PackTurn.of_working {rank : Nat × Nat} {operations : List (Operation packWords)}
    (work : ∀ operation ∈ operations, (∀ frame outcome, operation ≠ .returnFrom frame outcome) ∧
      ∀ entry, operation = .queue entry →
        PackTask entry.task ∧ (Rank.Below entry.task.rank rank ∨ .charge ∈ operations)) :
    PackTurn rank operations := by
  refine ⟨.inr fun frame outcome member => ?_, fun entry member => ?_, fun entry member => ?_⟩
  · exact (work _ member).1 frame outcome rfl
  · exact ((work _ member).2 entry rfl).1
  · exact ((work _ member).2 entry rfl).2

theorem PackLine.turn {operations : List (Operation packWords)}
    (h : PackLine frame issuer chain tallies C operations) :
    PackTurn (chain.modifiers.length + 2, 0) operations := by
  cases h with
  | works work =>
    refine ⟨.inr fun other outcome member => ?_, fun entry member => ?_, fun entry member => ?_⟩
    · cases work _ member
    · exact (work _ member).queued.1
    · exact .inl (work _ member).queued.2
  | returns quiet ends returned present heard =>
    refine .of_idle fun entry member => ?_
    cases List.mem_append.mp member with
    | inl member => exact (quiet _ member).1
    | inr member =>
      cases mem_returnsOf member with
      | inl delivers =>
        obtain ⟨_, _, same⟩ := delivers
        cases same
      | inr same => cases same

theorem mem_dripOperations {V : Vocabulary} {frame : Frame V} {line : LeafLine V}
    {source : Source V} {rest : List (Source V)} {operation : Operation V}
    (member : operation ∈ Machine.dripOperations frame line (source :: rest)) :
    operation = .queue ⟨frame, .execute line source⟩ ∨
      operation = .queue ⟨frame, .drip line rest⟩ := by
  cases List.mem_cons.mp member with
  | inl same => exact .inl same
  | inr member =>
    split at member
    · cases member
    · exact .inr (List.mem_singleton.mp member)

theorem keepsStores_true : KeepsStores fun _ => True := fun _ _ _ _ _ => trivial

theorem leafOperations_idle (rules : Rules packWords) (line : LeafLine packWords)
    (source : PackSource) (m : Machine packWords) :
    ∀ entry, .queue entry ∉ Machine.leafOperations rules frame line source m := by
  intro entry member
  obtain ⟨outcome, tracing, same, traces⟩ := Machine.leafOperations_eq rules frame line source m
  rw [same] at member
  simp only [List.mem_append, List.mem_cons, List.not_mem_nil, or_false] at member
  obtain (((member | member) | member) | (member | member)) | member := member
  · cases member
  · cases member
  · obtain ⟨_, form⟩ | ⟨_, _, form⟩ := traces _ member <;> cases form
  · cases member
  · cases member
  · split at member
    · cases List.mem_singleton.mp member
    · cases member

theorem PackTask.turn {task : Task packWords} (h : PackTask task) (pack : Pack)
    (frame : Frame packWords) (m : Machine packWords) :
    PackTurn task.rank (m.operations (packRules pack) frame task) := by
  cases h with
  | line issuer sources chain flags topLevel =>
    exact (line_operations keepsStores_true trivial sources flags topLevel m
      fun _ _ => trivial).turn
  | execute line source => exact .of_idle (leafOperations_idle _ line source m)
  | drip line sources =>
    cases sources with
    | nil => exact .of_idle fun entry member => absurd member List.not_mem_nil
    | cons source rest =>
      refine .of_working fun operation member => ?_
      obtain rfl | rfl := mem_dripOperations member
      · refine ⟨by simp, fun entry same => ?_⟩
        cases same
        exact ⟨.execute _ _, .inl (.left _ _ Nat.zero_lt_one)⟩
      · refine ⟨by simp, fun entry same => ?_⟩
        cases same
        exact ⟨.drip _ _, .inl (.right _ (Nat.lt_succ_self _))⟩
  | call function callback returnCall source =>
    have charged : .charge ∈ m.operations (packRules pack) frame
        (.call function callback returnCall source) := .head _
    refine .of_working fun operation member => ?_
    simp only [Machine.operations, List.mem_append, List.mem_cons, List.mem_map,
      List.not_mem_nil, or_false] at member
    obtain ((rfl | rfl | rfl) | ⟨line, _, rfl⟩) | rfl := member
    · exact ⟨by simp, by simp⟩
    · exact ⟨by simp, by simp⟩
    · exact ⟨by simp, by simp⟩
    · refine ⟨by simp, fun entry same => ?_⟩
      cases same
      exact ⟨.line _ _ _ _ _, .inr charged⟩
    · refine ⟨by simp, fun entry same => ?_⟩
      cases same
      exact ⟨.endFunction, .inr charged⟩
  | endFunction =>
    refine .of_idle fun entry member => ?_
    simp only [Machine.operations] at member
    split at member
    · cases List.mem_singleton.mp member
    · cases member
  | condition bound callee output =>
    refine .of_working fun operation member => ?_
    simp only [Machine.operations, conditionProducer_operations, List.mem_append,
      List.mem_cons, List.mem_map, List.not_mem_nil, or_false] at member
    obtain rfl | ⟨function, _, rfl⟩ | rfl := member
    · exact ⟨by simp, by simp⟩
    · refine ⟨by simp, fun entry same => ?_⟩
      cases same
      exact ⟨.call _ _ _ _, .inl (.left _ _ Nat.zero_lt_one)⟩
    · refine ⟨by simp, fun entry same => ?_⟩
      cases same
      exact ⟨.fallthrough, .inl (.left _ _ Nat.zero_lt_one)⟩
  | fallthrough => exact .of_idle fun entry member => by cases List.mem_singleton.mp member
  | total tally sink => exact .of_idle fun entry member => by cases List.mem_singleton.mp member
  | heading index item => exact .of_idle fun entry member => by cases List.mem_singleton.mp member
  | closing index source text =>
    refine .of_idle fun entry member => ?_
    have form : m.operations (packRules pack) frame (.deferred (traceClosing index source text)) =
        [.detach, .update (World.add (.traced (.opened index) .flush)),
          .update (source.persona.sendSuccess text)] := rfl
    rw [form] at member
    simp at member

end

namespace Operation

variable {V : Vocabulary} {rules : Rules V}

theorem quota_le (rules : Rules V) (operation : Operation V) (m : Machine V) :
    (operation.apply rules m).quota ≤ m.quota := by
  cases operation with
  | queue entry => exact Nat.le_of_eq (m.enqueue_quota entry)
  | report source error forked => exact Nat.le_of_eq (m.trace_quota rules (.error error.message))
  | trace event => exact Nat.le_of_eq (m.trace_quota rules event)
  | attach tracer =>
    simp only [apply]
    split <;> exact Nat.le_refl _
  | charge => exact Nat.sub_le _ _
  | _ => exact Nat.le_refl _

theorem quota_le_applyAll (rules : Rules V) (operations : List (Operation V)) (m : Machine V) :
    (applyAll rules operations m).quota ≤ m.quota := by
  induction operations generalizing m with
  | nil => exact Nat.le_refl _
  | cons operation rest ih => exact Nat.le_trans (ih _) (operation.quota_le rules m)

theorem quota_lt_applyAll {operations : List (Operation V)} (charged : .charge ∈ operations)
    {m : Machine V} (left : m.quota ≠ 0) : (applyAll rules operations m).quota < m.quota := by
  obtain ⟨before, after, rfl⟩ := List.append_of_mem charged
  rw [applyAll_append, applyAll_cons]
  have first := quota_le_applyAll rules before m
  have last := quota_le_applyAll rules after ((applyAll rules before m).charge)
  have spent : ((applyAll rules before m).charge).quota = (applyAll rules before m).quota - 1 := rfl
  show (applyAll rules after (applyAll rules before m).charge).quota < m.quota
  omega

end Operation

namespace Machine

variable {pack : Pack}

theorem Reached.packTasks {m : Machine packWords} (h : Reached (packRules pack) PackTask m) :
    ∀ entry ∈ m.stack.entries, PackTask entry.task := by
  induction h with
  | @opened m seeded =>
    intro entry member
    have seeds := seeded.seeds
    have staged : entry ∈ m.pending.entries := by
      simpa [Machine.opened, Machine.pushPending, seeds.stack, Stack.empty] using member
    exact seeds.fit entry staged
  | @turn m before goes ih =>
    intro entry member
    obtain ⟨_, ⟨top, rest, entries⟩, _⟩ := (verdict?_eq_none_iff m).mp goes
    cases mem_step before.pending entries member with
    | inl kept => exact ih entry (entries ▸ List.mem_cons_of_mem top kept)
    | inr queued =>
      rw [turnOperations_of_entries _ entries] at queued
      exact ((ih top (entries ▸ List.mem_cons_self)).turn pack top.frame _).tasks entry queued

/-- Each turn of a pack's run returns or queues. -/
theorem Reached.idle_of_returns {m : Machine packWords} (h : Reached (packRules pack) PackTask m)
    {frame : Frame packWords} {outcome : Outcome}
    (returns : .returnFrom frame outcome ∈ m.turnOperations (packRules pack)) :
    ∀ entry, .queue entry ∉ m.turnOperations (packRules pack) := by
  cases entries : m.stack.entries with
  | nil =>
    unfold turnOperations at returns
    rw [entries] at returns
    cases returns
  | cons top rest =>
    rw [turnOperations_of_entries _ entries] at returns ⊢
    have turn := (h.packTasks top (entries ▸ List.mem_cons_self)).turn pack top.frame
      (m.taking top rest)
    cases turn.either with
    | inl idle => exact idle
    | inr never => exact absurd returns (never frame outcome)

/-- Some turns later only what waited below is left, if that, or a command has been charged. -/
def Drains (rules : Rules packWords) (lower : List (Entry packWords)) (m : Machine packWords) :
    Prop :=
  ∃ n, (m.after rules n).stack.entries <:+ lower ∨ (m.after rules n).quota < m.quota

/-- Every machine that runs without end drains when the entry comes to its top. -/
def DrainsFrom (pack : Pack) (entry : Entry packWords) : Prop :=
  ∀ m lower, Reached (packRules pack) PackTask m → (∀ n, m.Runs (packRules pack) n) →
    m.stack.entries = entry :: lower → m.Drains (packRules pack) lower

theorem after_quota_le (rules : Rules packWords) (n : Nat) (m : Machine packWords) :
    (m.after rules n).quota ≤ m.quota := by
  induction n with
  | zero => exact Nat.le_refl _
  | succ n ih =>
    rw [after_succ]
    cases entries : (m.after rules n).stack.entries with
    | nil =>
      rw [step_of_nil rules entries]
      exact ih
    | cons entry rest =>
      rw [step_eq_applyAll rules entries]
      exact Nat.le_trans (Operation.quota_le_applyAll rules _ ((m.after rules n).taking entry rest))
        ih

theorem drains_of_forall {upper : List (Entry packWords)}
    (each : ∀ entry ∈ upper, DrainsFrom pack entry) {lower : List (Entry packWords)}
    {m : Machine packWords} (h : Reached (packRules pack) PackTask m)
    (endless : ∀ n, m.Runs (packRules pack) n) (entries : m.stack.entries = upper ++ lower) :
    m.Drains (packRules pack) lower := by
  induction count : upper.length using Nat.strongRecOn generalizing upper m with
  | ind size ih =>
    cases upper with
    | nil => exact ⟨0, .inl (entries ▸ List.suffix_refl lower)⟩
    | cons entry rest =>
      obtain ⟨n, left⟩ := each entry List.mem_cons_self m (rest ++ lower) h endless entries
      obtain suffix | spent := left
      · obtain ⟨gone, split⟩ := suffix
        obtain ⟨kept, others, same⟩ | ⟨_, _, below⟩ := List.append_eq_append_iff.mp split
        · -- A part of the upper entries is left, and drains for the same reason.
          have further : ∀ k, (m.after (packRules pack) n).Runs (packRules pack) k := fun k =>
            ((runs_add_iff _ n k m).mp (endless (n + k))).2
          have fewer : kept.length < size := by
            rw [← count, others, List.length_cons, List.length_append]
            omega
          obtain ⟨k, left⟩ := ih kept.length fewer
            (fun other member => each other (List.mem_cons_of_mem _ (others ▸ List.mem_append_right
              _ member))) (h.after (endless n)) further same rfl
          refine ⟨n + k, ?_⟩
          rw [after_add]
          cases left with
          | inl suffix => exact .inl suffix
          | inr spent => exact .inr (Nat.lt_of_lt_of_le spent (after_quota_le _ n m))
        · exact ⟨n, .inl ⟨_, below.symm⟩⟩
      · exact ⟨n, .inr spent⟩

theorem drainsFrom (pack : Pack) (entry : Entry packWords) : DrainsFrom pack entry := by
  -- by induction on the rank: without a charge, a turn leads to lower tasks only
  induction same : entry.task.rank using Rank.below_wf.induction generalizing entry with
  | h rank ih =>
    subst same
    intro m lower h endless entries
    have goes := endless 1 0 Nat.zero_lt_one
    have turn := (h.packTasks entry (entries ▸ List.mem_cons_self)).turn pack entry.frame
      (m.taking entry lower)
    have step := step_eq_applyAll (packRules pack) entries
    rw [turnOperations_of_entries _ entries] at step
    generalize ops : (m.taking entry lower).operations (packRules pack) entry.frame entry.task =
      operations at turn step
    by_cases charged : .charge ∈ operations
    · refine ⟨1, .inr ?_⟩
      have left := ((verdict?_eq_none_iff m).mp goes).2.2
      rw [after_succ]
      show (m.step (packRules pack)).quota < m.quota
      rw [step]
      exact Operation.quota_lt_applyAll (m := m.taking entry lower) charged left
    · generalize result : Operation.applyAll (packRules pack) operations (m.taking entry lower) =
        done at step
      have queued : ∀ other ∈ done.pending.entries.reverse, DrainsFrom pack other := by
        intro other member
        rw [← result] at member
        cases Operation.mem_pending_applyAll (List.mem_reverse.mp member) with
        | inl before =>
          simp only [taking, h.pending] at before
          cases before
        | inr queued => exact ih _ ((turn.lower other queued).resolve_right charged) other rfl
      have further : ∀ n, (m.step (packRules pack)).Runs (packRules pack) n := fun n =>
        ((runs_succ_iff _ n m).mp (endless (n + 1))).2
      obtain ⟨n, left⟩ := drains_of_forall queued (h.turn goes) further
        (congrArg (fun m : Machine packWords => m.stack.entries) step)
      have suffix := Operation.stack_suffix_applyAll (packRules pack) operations
        (m.taking entry lower)
      rw [result] at suffix
      refine ⟨n + 1, ?_⟩
      cases left with
      | inl kept => exact .inl (kept.trans suffix)
      | inr spent =>
        refine .inr (Nat.lt_of_lt_of_le spent ?_)
        exact after_quota_le (packRules pack) 1 m

theorem Reached.ends {m : Machine packWords} (h : Reached (packRules pack) PackTask m) :
    ¬∀ n, m.Runs (packRules pack) n := by
  intro endless
  induction spent : m.quota using Nat.strongRecOn generalizing m with
  | ind quota ih =>
    have drains : m.Drains (packRules pack) [] :=
      drains_of_forall (fun entry _ => drainsFrom pack entry) h endless (List.append_nil _).symm
    obtain ⟨n, left⟩ := drains
    cases left with
    | inl drained =>
      have goes := endless (n + 1) n (Nat.lt_succ_self n)
      obtain ⟨_, ⟨entry, rest, entries⟩, _⟩ := (verdict?_eq_none_iff _).mp goes
      rw [List.suffix_nil.mp drained] at entries
      cases entries
    | inr less =>
      refine ih _ (spent ▸ less) (h.after (endless n)) (fun k => ?_) rfl
      exact ((runs_add_iff _ n k m).mp (endless (n + k))).2

theorem Reached.last_turn {m : Machine packWords} (h : Reached (packRules pack) PackTask m) :
    ∃ n, m.Runs (packRules pack) n ∧ (m.after (packRules pack) n).verdict? ≠ none := by
  refine Classical.byContradiction fun never => h.ends fun n => ?_
  induction n with
  | zero => exact runs_zero _ m
  | succ n runs =>
    refine (runs_succ_last_iff _ n m).mpr ⟨runs, ?_⟩
    exact Classical.byContradiction fun stops => never ⟨n, runs, stops⟩

theorem Reached.last_verdict {m : Machine packWords} (h : Reached (packRules pack) PackTask m) :
    ∃ n verdict, m.Runs (packRules pack) n ∧
      (m.after (packRules pack) n).verdict? = some verdict := by
  obtain ⟨last, runs, stops⟩ := h.last_turn
  obtain ⟨verdict, ends⟩ := Option.ne_none_iff_exists'.mp stops
  exact ⟨last, verdict, runs, ends⟩

/-- Calls and their callers. While a call or an isolated procedure runs, under any rules, the work
below it stays as it is, and it is all that waits once nothing is left of the call; unless a limit
stops the run, that moment comes, or the run has no end. Runs of packs have an end. And once one of
their frames has returned, neither that frame nor any frame that return calls led from to it has
anything waiting again. -/
theorem calls_keep_callers_work :
    (∀ (V : Vocabulary) (rules : Rules V) (m : Machine V), Reached rules (fun _ => True) m →
      ∀ entry lower, m.verdict? = none → m.stack.entries = entry :: lower →
        entry.task.OpensInside →
        (∀ n, m.SettlesAt rules n → (m.after rules n).stack.entries = lower) ∧
        (m.Unlimited rules → (∃ n, m.SettlesAt rules n) ∨ ∀ n, m.Runs rules n)) ∧
    (∀ (pack : Pack) (m : Machine packWords), Reached (packRules pack) PackTask m →
      ∀ entry lower, m.verdict? = none → m.stack.entries = entry :: lower →
        entry.task.OpensInside → m.Unlimited (packRules pack) →
        ∃ n, m.SettlesAt (packRules pack) n ∧
          (m.after (packRules pack) n).stack.entries = lower) ∧
    (∀ (pack : Pack) (m : Machine packWords), Reached (packRules pack) PackTask m →
      ∀ n, m.Runs (packRules pack) (n + 1) → ∀ frame outcome,
        .returnFrom frame outcome ∈ (m.after (packRules pack) n).turnOperations (packRules pack) →
        ∀ start, Behind (packRules pack) m n frame start →
        ∀ k, n < k → m.Runs (packRules pack) k →
        ∀ entry ∈ (m.after (packRules pack) k).stack.entries, entry.frame ≠ start) := by
  refine ⟨?_, ?_, ?_⟩
  · intro V rules m h entry lower goes entries opens
    exact ⟨fun n settles => h.entries_of_settlesAt entries opens settles,
      fun unlimited => h.settles_or_runs entries opens unlimited⟩
  · intro pack m h entry lower goes entries opens unlimited
    cases h.settles_or_runs entries opens unlimited with
    | inl settles =>
      obtain ⟨n, settles⟩ := settles
      exact ⟨n, settles, h.entries_of_settlesAt entries opens settles⟩
    | inr endless => exact absurd endless h.ends
  · intro pack m h n runs frame outcome returns start behind k later further
    have now := h.after (runs.mono (Nat.le_succ n))
    exact h.gone_of_returns runs returns (now.idle_of_returns returns) behind later further

theorem unlimited_of_turn {V : Vocabulary} {rules : Rules V} {turns : Nat} {m final : Machine V}
    (h : turn rules turns m = some (.ok (), final)) : m.Unlimited rules := by
  obtain ⟨n, _, runs, ends, _⟩ := (turn_eq_some_iff rules turns m final (.ok ())).mp h
  intro k error further stops
  have same := runs.unique (by simp [ends]) further (by simp [stops])
  rw [← same, ends] at stops
  cases stops

theorem Unlimited.fine {V : Vocabulary} {rules : Rules V} {m : Machine V}
    (h : m.Unlimited rules) : m.overflowed = false := by
  cases full : m.overflowed with
  | false => rfl
  | true =>
    refine absurd ?_ (h 0 (.queueOverflow m.limits.queue) (runs_zero rules m))
    show m.verdict? = _
    unfold verdict?
    rw [if_pos full]

def calling : Machine packWords :=
  (((start {} ⟨{}, ({} : World)⟩).seedCall earlyReturn PackSource.server []).seedCall earlyReturn
    PackSource.server []).opened

theorem calling_reached {fits : Task packWords → Prop} (fit : ∀ function callback source,
    fits (.call function callback false source)) : Reached (packRules {}) fits calling :=
  .opened (.seed _ (fit _ _ _) (.seed _ (fit _ _ _) (.start _ _)))

theorem calls_keep_callers_work_calling :
    ∃ entry lower, calling.stack.entries = entry :: lower ∧ lower.length = 1 ∧
      ((∃ n, calling.SettlesAt (packRules {}) n) ∨ ∀ n, calling.Runs (packRules {}) n) ∧
      (∃ n, calling.SettlesAt (packRules {}) n ∧
        (calling.after (packRules {}) n).stack.entries = lower) ∧
      ∀ entry ∈ (calling.after (packRules {}) 3).stack.entries,
        entry.frame ≠ ⟨1, [], ⟨0, 1⟩, 2⟩ := by
  obtain ⟨general, settle, gone⟩ := calls_keep_callers_work
  have unlimited : calling.Unlimited (packRules {}) :=
    unlimited_of_turn (show turn (packRules {}) 9 calling = some (.ok (), _) from rfl)
  have runs : calling.Runs (packRules {}) 3 := by
    refine (runs_succ_iff _ _ _).mpr ⟨rfl, (runs_succ_iff _ _ _).mpr ⟨rfl, ?_⟩⟩
    exact (runs_succ_iff _ _ _).mpr ⟨rfl, runs_zero _ _⟩
  have reached := calling_reached fun function callback source =>
    PackTask.call function callback false source
  refine ⟨_, _, rfl, rfl, ?_, ?_, ?_⟩
  · exact (general _ _ _ (calling_reached fun _ _ _ => trivial) _ _ rfl rfl rfl).2 unlimited
  · exact settle {} _ reached _ _ rfl rfl rfl unlimited
  · have returns : Operation.returnFrom ⟨1, [], ⟨0, 1⟩, 2⟩ (Outcome.ok 5) ∈
        (calling.after (packRules {}) 1).turnOperations (packRules {}) :=
      .tail _ (.tail _ (.head _))
    exact gone {} calling reached 1 (runs.mono (by decide)) _ _ returns _ .itself 3 (by decide)
      runs

end Machine

end PackEngine
