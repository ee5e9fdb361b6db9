import PackEngine.Proofs.Endings

/-! Returns. A turn of a pack's run returns once, or, for an explicit return, once for each source
of its line; and of all frames that return calls lead to from one frame, only one turn returns. -/
namespace PackEngine

variable {V : Vocabulary}

def Operation.returned? : Operation V → Option (Frame V × Outcome)
  | .returnFrom frame outcome => some (frame, outcome)
  | _ => none

def returnsIn (operations : List (Operation V)) : List (Frame V × Outcome) :=
  operations.filterMap Operation.returned?

@[simp] theorem returnsIn_append (first second : List (Operation V)) :
    returnsIn (first ++ second) = returnsIn first ++ returnsIn second :=
  List.filterMap_append

theorem returnsIn_eq_nil {operations : List (Operation V)}
    (never : ∀ frame outcome, .returnFrom frame outcome ∉ operations) :
    returnsIn operations = [] := by
  apply List.filterMap_eq_nil_iff.mpr
  intro operation member
  cases operation with
  | returnFrom frame outcome => exact absurd member (never frame outcome)
  | _ => rfl

theorem mem_returnsIn {operations : List (Operation V)} {frame : Frame V} {outcome : Outcome} :
    (frame, outcome) ∈ returnsIn operations ↔ .returnFrom frame outcome ∈ operations := by
  unfold returnsIn
  rw [List.mem_filterMap]
  constructor
  · rintro ⟨operation, member, same⟩
    cases operation with
    | returnFrom other result =>
      cases same
      exact member
    | _ => cases same
  · exact fun member => ⟨_, member, rfl⟩

theorem returnsIn_returnsOf (frame : Frame packWords) (outcome : Outcome)
    (sources : List PackSource) :
    returnsIn (returnsOf frame outcome sources) =
      List.replicate sources.length (frame, outcome) := by
  induction sources with
  | nil => rfl
  | cons source rest ih => exact congrArg (List.cons _) ih

def Task.ReturnsExplicitly (outcome : Outcome) : Task packWords → Prop
  | .line _ _ chain _ _ =>
      ∃ action, chain.executable = .action action ∧ action.returned? = some outcome
  | _ => False

inductive ReturnsFor (frame : Frame packWords) (task : Task packWords)
    (operations : List (Operation packWords)) : List (Frame packWords × Outcome) → Prop where
  | never : ReturnsFor frame task operations []
  | once (outcome : Outcome) : ReturnsFor frame task operations [(frame, outcome)]
  | explicit {outcome : Outcome} {sources : List PackSource}
      (returns : task.ReturnsExplicitly outcome)
      (ends : returnsOf frame outcome sources <:+ operations) :
      ReturnsFor frame task operations (List.replicate sources.length (frame, outcome))

theorem PackTask.returns {task : Task packWords} (h : PackTask task) (pack : Pack)
    (frame : Frame packWords) (m : Machine packWords) :
    ReturnsFor frame task (m.operations (packRules pack) frame task)
      (returnsIn (m.operations (packRules pack) frame task)) := by
  have turn := h.turn pack frame m
  have working (entry : Entry packWords)
      (queued : .queue entry ∈ m.operations (packRules pack) frame task) :
      ReturnsFor frame task (m.operations (packRules pack) frame task)
        (returnsIn (m.operations (packRules pack) frame task)) := by
    have never := turn.either.resolve_left fun idle => idle entry queued
    rw [returnsIn_eq_nil never]
    exact .never
  cases h with
  | line issuer sources chain flags topLevel =>
    have line : PackLine frame issuer chain _ (fun _ => True) (m.operations (packRules pack) frame
        (.line issuer sources chain flags topLevel)) :=
      line_operations keepsStores_true trivial sources flags topLevel m fun _ _ => trivial
    generalize m.operations (packRules pack) frame (.line issuer sources chain flags topLevel) =
      operations at line
    cases line with
    | works work =>
      have never (other : Frame packWords) (outcome : Outcome) :
          .returnFrom other outcome ∉ operations := fun member => nomatch work _ member
      rw [returnsIn_eq_nil never]
      exact .never
    | @returns first action outcome present quiet ends returned nonempty heard =>
      have never (other : Frame packWords) (result : Outcome) :
          .returnFrom other result ∉ first := fun member => (quiet _ member).1
      rw [returnsIn_append, returnsIn_eq_nil never, returnsIn_returnsOf]
      exact .explicit ⟨action, ends, returned⟩ (List.suffix_append _ _)
  | execute line source =>
    obtain ⟨outcome, tracing, same, traces⟩ :=
      Machine.leafOperations_eq (packRules pack) frame line source m
    have silent : returnsIn tracing = [] := by
      refine returnsIn_eq_nil fun other result member => ?_
      obtain ⟨_, form⟩ | ⟨_, _, form⟩ := traces _ member <;> cases form
    have ops : m.operations (packRules pack) frame (.execute line source) = _ := same
    rw [ops]
    simp only [returnsIn_append, silent, List.append_nil]
    cases line.flags.isReturn with
    | true => exact .once outcome
    | false => exact .never
  | drip line sources =>
    cases sources with
    | nil => exact .never
    | cons source rest => exact working _ List.mem_cons_self
  | call function callback returnCall source =>
    exact working _ (List.mem_append_right _ List.mem_cons_self)
  | endFunction =>
    simp only [Machine.operations]
    cases m.heap.recorded frame.slot with
    | none => exact .never
    | some outcome => exact .once outcome
  | condition bound callee output =>
    refine working ⟨frame.child output none m.heap.slots.size, .fallthrough⟩
      (List.mem_cons_of_mem _ ?_)
    rw [conditionProducer_operations]
    exact List.mem_append_right _ List.mem_cons_self
  | fallthrough => exact .once Outcome.failure
  | total tally sink => exact .never
  | heading index item => exact .never
  | closing index source text => exact .never

namespace Machine

variable {pack : Pack}

theorem Reached.returns {m : Machine packWords} (h : Reached (packRules pack) PackTask m)
    {entry : Entry packWords} {rest : List (Entry packWords)}
    (entries : m.stack.entries = entry :: rest) :
    ReturnsFor entry.frame entry.task (m.turnOperations (packRules pack))
      (returnsIn (m.turnOperations (packRules pack))) := by
  rw [turnOperations_of_entries _ entries]
  exact (h.packTasks entry (entries ▸ List.mem_cons_self)).returns pack entry.frame _

end Machine

end PackEngine
