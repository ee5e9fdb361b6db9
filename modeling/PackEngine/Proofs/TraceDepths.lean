import PackEngine.Proofs.TraceRecords

/-! Depths in traces. The lines of a body begin one level below the call that queued them. Until
they have begun, nothing is called at the level of that call or above it: work of lesser depth waits
below them, and so does work of other seeds. -/
namespace PackEngine

open Machine

variable {pack : Pack} {start : Machine packWords}

structure BodyCall where
  turn : Nat
  caller : Frame packWords
  function : BoundFunction packWords
  callback : Callback packWords
  returnCall : Bool
  source : PackSource

namespace BodyCall

def task (call : BodyCall) : Task packWords :=
  .call call.function call.callback call.returnCall call.source

def event (call : BodyCall) : TraceEvent :=
  .call call.caller.depth call.function.id call.function.lines.length

def callee (call : BodyCall) (pack : Pack) (start : Machine packWords) : Frame packWords :=
  call.task.workplace call.caller (start.after (packRules pack) call.turn).heap.slots.size

def MadeIn (call : BodyCall) (pack : Pack) (start : Machine packWords) : Prop :=
  ∃ lower, (start.after (packRules pack) call.turn).stack.entries =
    ⟨call.caller, call.task⟩ :: lower

def Queues (call : BodyCall) (pack : Pack) (start : Machine packWords)
    (entry : Entry packWords) : Prop :=
  ∃ chain ∈ call.function.lines,
    entry = ⟨call.callee pack start, Task.command chain call.source⟩

/-- Of what has been told, the call's own event is the last that tells of a call at its depth or
above it. -/
def Latest (call : BodyCall) (pack : Pack) (start : Machine packWords)
    (told : List TraceEvent) : Prop :=
  ∃ between,
    told = start.events (start.after (packRules pack) call.turn) ++ call.event :: between ∧
    ∀ depth function lines, .call depth function lines ∈ between → call.caller.depth < depth

end BodyCall

theorem PackLine.begins_nothing {frame place : Frame packWords} {issuer other : PackSource}
    {chain rest : Chain packWords} {tallies : Nat} {C : Callback packWords → Prop}
    {operations : List (Operation packWords)} {sources : Sources packWords} {flags : Flags}
    (h : PackLine frame issuer chain tallies C operations) :
    .queue ⟨place, .line other sources rest flags true⟩ ∉ operations := by
  intro queued
  cases h with
  | works work => cases work _ queued
  | returns quiet ends returned present heard =>
    cases List.mem_append.mp queued with
    | inl member => exact (quiet _ member).1.elim
    | inr member => obtain ⟨_, _, same⟩ | same := mem_returnsOf member <;> cases same

theorem PackTask.queues_line {task : Task packWords} (h : PackTask task)
    {frame place : Frame packWords} {m : Machine packWords} {issuer : PackSource}
    {sources : Sources packWords} {chain : Chain packWords} {flags : Flags}
    (queued : .queue ⟨place, .line issuer sources chain flags true⟩ ∈
      m.operations (packRules pack) frame task) :
    ∃ function callback returnCall source, task = .call function callback returnCall source ∧
      chain ∈ function.lines ∧
      Task.line issuer sources chain flags true = Task.command chain source := by
  -- A line ranks above all tasks that are neither lines nor commands.
  have high (free : task.isCommand = false) (low : task.rank.1 ≤ 1) : False := by
    cases (h.turn pack frame m).lower _ queued with
    | inl below =>
      have least := (Prod.lex_iff.mp below).imp id And.left
      change chain.modifiers.length + 2 < _ ∨ chain.modifiers.length + 2 = _ at least
      omega
    | inr charged =>
      have uncharged := charges_task (packRules pack) frame task m
      rw [free] at uncharged
      exact List.countP_eq_zero.mp uncharged _ charged rfl
  cases h with
  | line issuer sources chain flags topLevel =>
    exact absurd queued (line_operations keepsStores_true trivial sources flags topLevel m
      fun _ _ => trivial).begins_nothing
  | execute line source => exact absurd queued (leafOperations_idle _ line source m _)
  | call function callback returnCall source =>
    refine ⟨function, callback, returnCall, source, rfl, ?_⟩
    simp only [operations, List.mem_append, List.mem_cons, List.mem_map, List.not_mem_nil,
      or_false] at queued
    obtain ((same | same | same) | ⟨line, member, same⟩) | same := queued
    · cases same
    · cases same
    · cases same
    · cases same
      exact ⟨member, rfl⟩
    · cases same
  | drip line sources => exact (high rfl (Nat.le_refl 1)).elim
  | condition bound callee output => exact (high rfl (Nat.le_refl 1)).elim
  | endFunction => exact (high rfl (Nat.zero_le 1)).elim
  | fallthrough => exact (high rfl (Nat.zero_le 1)).elim
  | total tally sink => exact (high rfl (Nat.zero_le 1)).elim
  | heading index item => exact (high rfl (Nat.zero_le 1)).elim
  | closing index source text => exact (high rfl (Nat.zero_le 1)).elim

theorem Task.seed_workplace {V : Vocabulary} (task : Task V) (frame : Frame V) (slot : SlotId) :
    (task.workplace frame slot).boundary.seed = frame.boundary.seed := by
  cases task with
  | call function callback returnCall source => cases returnCall <;> rfl
  | _ => rfl

section

variable {V : Vocabulary} {rules : Rules V} {frame : Frame V} {m : Machine V} {task : Task V}
  {told : List TraceEvent}

theorem Task.Tells.depth_of_call (h : task.Tells rules frame m told) {depth lines : Nat}
    {function : FunctionId} (member : .call depth function lines ∈ told) :
    depth = frame.depth := by
  cases h with
  | line issuer sources chain flags only =>
    obtain same | member := List.mem_cons.mp member
    · cases same
    · obtain ⟨_, same⟩ := only _ member
      cases same
  | value ran => cases List.mem_singleton.mp member
  | failure ran => simp at member
  | call function callback returnCall source =>
    cases List.mem_singleton.mp member
    rfl
  | other command underway only =>
    obtain ⟨_, same⟩ := only _ member
    cases same

theorem Task.Tells.first_of_command (h : task.Tells rules frame m told)
    {before later : List TraceEvent} {depth : Nat} {text : String}
    (split : told = before ++ .command depth text :: later) :
    before = [] ∧ frame.depth = depth ∧ ∃ issuer sources chain flags,
      task = .line issuer sources chain flags true ∧ chain.input = text := by
  have member : .command depth text ∈ told := split ▸ List.mem_append_right _ List.mem_cons_self
  cases h with
  | line issuer sources chain flags only =>
    cases before with
    | nil =>
      cases split
      exact ⟨rfl, rfl, issuer, sources, chain, flags, rfl, rfl⟩
    | cons event before =>
      obtain ⟨_, rfl⟩ := List.cons.inj split
      obtain ⟨_, same⟩ := only _ (List.mem_append_right _ List.mem_cons_self)
      cases same
  | value ran => cases List.mem_singleton.mp member
  | failure ran => simp at member
  | call function callback returnCall source => cases List.mem_singleton.mp member
  | other command underway only =>
    obtain ⟨_, same⟩ := only _ member
    cases same

end

/-- A waiting line of the call's body. No work of an earlier seed waits with it, and nothing has
been called at the caller's depth or above since. -/
structure BodyCall.Holds (call : BodyCall) (pack : Pack) (start : Machine packWords) (n : Nat)
    (entry : Entry packWords) : Prop where
  earlier : call.turn < n
  made : call.MadeIn pack start
  queues : call.Queues pack start entry
  first : ∀ other ∈ (start.after (packRules pack) n).stack.entries,
    entry.frame.boundary.seed ≤ other.frame.boundary.seed
  latest : call.Latest pack start (start.events (start.after (packRules pack) n))

namespace BodyCall

variable {call : BodyCall} {entry top : Entry packWords} {lower : List (Entry packWords)} {n : Nat}

theorem Queues.depth (h : call.Queues pack start entry) :
    entry.frame.depth = call.caller.depth + 1 := by
  obtain ⟨_, _, rfl⟩ := h
  rfl

theorem Queues.seed (h : call.Queues pack start entry) :
    entry.frame.boundary.seed = call.caller.boundary.seed := by
  obtain ⟨_, _, rfl⟩ := h
  exact Task.seed_workplace _ _ _

theorem seed_of_mem_step (h : start.Recorded pack) (runs : start.Runs (packRules pack) n)
    (entries : (start.after (packRules pack) n).stack.entries = top :: lower)
    (member : entry ∈ (start.after (packRules pack) (n + 1)).stack.entries) :
    entry ∈ lower ∨ entry.frame.boundary.seed = top.frame.boundary.seed := by
  rw [after_succ] at member
  refine (mem_step (h.reached.after runs).pending entries member).imp_right fun queued => ?_
  rw [turnOperations_of_entries _ entries] at queued
  have within : entry.frame = _ := operations_within _ _ _ _ _ queued
  rw [within, Task.seed_workplace]

theorem Holds.succ (holds : call.Holds pack start n entry) (h : start.Recorded pack)
    (runs : start.Runs (packRules pack) (n + 1))
    (entries : (start.after (packRules pack) n).stack.entries = top :: lower)
    (stays : entry ∈ lower) : call.Holds pack start (n + 1) entry := by
  have before := runs.mono (Nat.le_succ n)
  have least := holds.first top (entries ▸ List.mem_cons_self)
  refine ⟨Nat.lt_succ_of_lt holds.earlier, holds.made, holds.queues, fun other member => ?_, ?_⟩
  · cases seed_of_mem_step h before entries member with
    | inl kept => exact holds.first other (entries ▸ List.mem_cons_of_mem _ kept)
    | inr same => exact same ▸ least
  · obtain ⟨between, grown, deeper⟩ := holds.latest
    obtain ⟨told, tells, events, _⟩ := h.turn runs entries
    refine ⟨between ++ told, ?_, fun depth function lines member => ?_⟩
    · rw [events, grown, List.append_assoc]
      rfl
    · cases List.mem_append.mp member with
      | inl member => exact deeper _ _ _ member
      | inr member =>
        have ordered := (h.reached.after before).ordered
        unfold Ordered at ordered
        rw [entries] at ordered
        have above := (List.pairwise_cons.mp ordered).1 entry stays
        have level := (above.2 (Nat.le_antisymm above.1 least)).1
        rw [tells.depth_of_call member]
        rw [holds.queues.depth] at level
        exact level

theorem Queues.holds (queues : call.Queues pack start entry) (h : start.Recorded pack)
    (runs : start.Runs (packRules pack) (call.turn + 1))
    (made : (start.after (packRules pack) call.turn).stack.entries =
      ⟨call.caller, call.task⟩ :: lower) :
    call.Holds pack start (call.turn + 1) entry := by
  have before := runs.mono (Nat.le_succ call.turn)
  refine ⟨Nat.lt_succ_self _, ⟨lower, made⟩, queues, fun other member => ?_, [], ?_,
    fun _ _ _ member => absurd member List.not_mem_nil⟩
  · rw [queues.seed]
    cases seed_of_mem_step h before made member with
    | inl kept =>
      have ordered := (h.reached.after before).ordered
      unfold Ordered at ordered
      rw [made] at ordered
      exact ((List.pairwise_cons.mp ordered).1 other kept).1
    | inr same => exact Nat.le_of_eq same.symm
  · obtain ⟨told, tells, events, _⟩ := h.turn runs made
    rw [events]
    cases tells with
    | call function callback returnCall source => rfl
    | other command => cases command

end BodyCall

theorem append_eq_append_cons {α : Type} {first second before later : List α} {a : α}
    (h : first ++ second = before ++ a :: later) :
    (∃ rest, first = before ++ a :: rest) ∨
      ∃ rest, before = first ++ rest ∧ second = rest ++ a :: later := by
  obtain ⟨rest, same, split⟩ | ⟨rest, same, split⟩ := List.append_eq_append_iff.mp h
  · exact .inr ⟨rest, same, split⟩
  · cases rest with
    | nil => exact .inr ⟨[], by rw [same, List.append_nil, List.append_nil], split.symm⟩
    | cons other rest =>
      cases (List.cons.inj split).1
      exact .inl ⟨rest, same⟩

namespace Machine

theorem Recorded.held (h : start.Recorded pack)
    (fresh : ∀ entry ∈ start.stack.entries, entry.task.Underway) {n : Nat}
    (runs : start.Runs (packRules pack) n) {frame : Frame packWords} {issuer : PackSource}
    {sources : Sources packWords} {chain : Chain packWords} {flags : Flags}
    (member : ⟨frame, .line issuer sources chain flags true⟩ ∈
      (start.after (packRules pack) n).stack.entries) :
    ∃ call : BodyCall, call.Holds pack start n ⟨frame, .line issuer sources chain flags true⟩ := by
  induction n with
  | zero => cases fresh _ member
  | succ n ih =>
    obtain ⟨before, goes⟩ := (runs_succ_last_iff _ n start).mp runs
    obtain ⟨_, ⟨top, lower, entries⟩, _⟩ := (verdict?_eq_none_iff _).mp goes
    have reached := h.reached.after before
    rw [after_succ] at member
    cases mem_step reached.pending entries member with
    | inl stays =>
      obtain ⟨call, holds⟩ := ih before (entries ▸ List.mem_cons_of_mem _ stays)
      exact ⟨call, holds.succ h runs entries stays⟩
    | inr queued =>
      rw [turnOperations_of_entries _ entries] at queued
      have within : frame = _ := operations_within _ _ _ _ _ queued
      obtain ⟨function, callback, returnCall, source, task, line, same⟩ :=
        (reached.packTasks top (entries ▸ List.mem_cons_self)).queues_line queued
      obtain ⟨caller, _⟩ := top
      subst task
      let call : BodyCall := ⟨n, caller, function, callback, returnCall, source⟩
      have queues : call.Queues pack start ⟨frame, .line issuer sources chain flags true⟩ :=
        ⟨chain, line, by rw [within, same]; rfl⟩
      exact ⟨call, queues.holds h runs entries⟩

theorem Recorded.begins (h : start.Recorded pack) {n : Nat}
    (runs : start.Runs (packRules pack) n) {before later : List TraceEvent} {depth : Nat}
    {text : String} (split : start.events (start.after (packRules pack) n) =
      before ++ .command depth text :: later) :
    ∃ k < n, start.events (start.after (packRules pack) k) = before ∧
      ∃ frame issuer sources chain flags lower,
        (start.after (packRules pack) k).stack.entries =
          ⟨frame, .line issuer sources chain flags true⟩ :: lower ∧
        frame.depth = depth ∧ chain.input = text := by
  induction n generalizing later with
  | zero =>
    have empty := start.events_self.symm.trans split
    simp at empty
  | succ n ih =>
    obtain ⟨earlier, goes⟩ := (runs_succ_last_iff _ n start).mp runs
    obtain ⟨_, ⟨⟨frame, task⟩, lower, entries⟩, _⟩ := (verdict?_eq_none_iff _).mp goes
    obtain ⟨told, tells, events, _⟩ := h.turn runs entries
    rw [events] at split
    obtain ⟨rest, past⟩ | ⟨rest, same, present⟩ := append_eq_append_cons split
    · obtain ⟨k, less, begun⟩ := ih earlier past
      exact ⟨k, Nat.lt_succ_of_lt less, begun⟩
    · obtain ⟨rfl, level, issuer, sources, chain, flags, rfl, input⟩ :=
        tells.first_of_command present
      exact ⟨n, Nat.lt_succ_self n, by rw [same, List.append_nil], frame, issuer, sources, chain,
        flags, lower, entries, level, input⟩

end Machine

end PackEngine
