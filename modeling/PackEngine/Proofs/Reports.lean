import PackEngine.Proofs.Sinks

/-! Reports of runs. While a call runs, its last receiver hears what the call answers and nothing
else enters the ledger, so the calls of a run answer one after the other. -/
namespace PackEngine

variable {pack : Pack} {start : Nat} {watched : Option TallyId} {last : Receiver packWords}

namespace Machine

def ReturnsExplicitly (pack : Pack) (count : Nat) (outcome : Outcome)
    (m : Machine packWords) : Prop :=
  ∃ entry rest sources, m.stack.entries = entry :: rest ∧
    entry.task.ReturnsExplicitly outcome ∧ sources.length = count ∧
    returnsOf entry.frame outcome sources <:+ m.turnOperations (packRules pack)

/-- The answers of one call in the next `n` turns: none, one, or those of an explicit return, one
for each source of its line. -/
inductive Answers (pack : Pack) (m : Machine packWords) (n : Nat) : List Outcome → Prop where
  | none : Answers pack m n []
  | one (outcome : Outcome) : Answers pack m n [outcome]
  | explicit {k count : Nat} {outcome : Outcome} (early : k < n)
      (explicit : (m.after (packRules pack) k).ReturnsExplicitly pack count outcome) :
      Answers pack m n (List.replicate count outcome)

theorem Answers.later {m : Machine packWords} {n k : Nat} {outcomes : List Outcome}
    (h : Answers pack (m.after (packRules pack) n) k outcomes) :
    Answers pack m (n + k) outcomes := by
  cases h with
  | none => exact .none
  | one outcome => exact .one outcome
  | explicit early explicit =>
    rw [← after_add] at explicit
    exact .explicit (Nat.add_lt_add_left early n) explicit

theorem Answers.mono {m : Machine packWords} {n k : Nat} (le : n ≤ k) {outcomes : List Outcome}
    (h : Answers pack m n outcomes) : Answers pack m k outcomes := by
  cases h with
  | none => exact .none
  | one outcome => exact .one outcome
  | explicit early explicit => exact .explicit (Nat.lt_of_lt_of_le early le) explicit

end Machine

def Receiver.enterAll (watched : Option TallyId) (receiver : Receiver packWords)
    (outcomes : List Outcome) (l : Ledger) : Ledger :=
  outcomes.foldl (fun l outcome => receiver.enter watched outcome l) l

/-- Callbacks in a call below the given frame: where the boundary is the callee's they end in the
watched receiver, and elsewhere they enter nothing. -/
structure EndsIn (watched : Option TallyId) (last : Receiver packWords) (callee : Boundary)
    (boundary : Boundary) (callback : Callback packWords) : Prop where
  ends : boundary = callee → ∃ front : Callback packWords,
    (∀ receiver ∈ front, receiver.Quiet watched) ∧ callback = front ++ [last]
  quiet : boundary ≠ callee → ∀ receiver ∈ callback, receiver.Quiet watched

theorem announced_split (watched : Option TallyId) (source : PackSource) (function : FunctionId)
    (callback : Callback packWords) : ∃ front : Callback packWords,
      (∀ receiver ∈ front, receiver.Quiet watched) ∧
        announced isSilent source function callback = front ++ callback := by
  unfold announced
  split
  · exact ⟨[], fun _ member => absurd member List.not_mem_nil, rfl⟩
  · refine ⟨[.announce source.persona function], fun receiver member => ?_, rfl⟩
    rw [List.mem_singleton.mp member]
    trivial

theorem quiet_append {first second : Callback packWords}
    (before : ∀ receiver ∈ first, receiver.Quiet watched)
    (after : ∀ receiver ∈ second, receiver.Quiet watched) :
    ∀ receiver ∈ first ++ second, receiver.Quiet watched := by
  intro receiver member
  cases List.mem_append.mp member with
  | inl member => exact before receiver member
  | inr member => exact after receiver member

theorem sinkLaw_endsIn (sane : last.Sane) (outer : Frame packWords) :
    SinkLaw watched outer.Inside (EndsIn watched last outer.below) := by
  have below {frame : Frame packWords} (inside : outer.Inside frame) :
      frame.below ≠ outer.below := by
    intro same
    have depth : frame.depth + 1 = outer.depth + 1 := congrArg Boundary.depth same
    have deeper := inside.deeper
    have valid := inside.valid
    omega
  have silent {frame : Frame packWords} (inside : outer.Inside frame)
      {callback : Callback packWords} (quiet : ∀ receiver ∈ callback, receiver.Quiet watched) :
      EndsIn watched last outer.below frame.below callback :=
    ⟨fun same => absurd same (below inside), fun _ => quiet⟩
  refine
    { sane := fun {boundary callback} told receiver member => ?_
      inner := fun inside task slot => inside.workplace task slot
      returnCall := fun {frame source} function inside told heard => ?_
      call := fun {frame source} function inside heard => ?_
      talliedCall := fun {frame tally} source function inside other => ?_
      tracedCall := fun inside => silent inside fun _ member => absurd member List.not_mem_nil
      condition := fun {frame callback} cell polarity persona inside ordinary => ?_ }
  · by_cases same : boundary = outer.below
    · obtain ⟨front, quiet, rfl⟩ := told.ends same
      cases List.mem_append.mp member with
      | inl member => exact (quiet receiver member).sane
      | inr member =>
        rw [List.mem_singleton.mp member]
        exact sane
    · exact (told.quiet same receiver member).sane
  · obtain ⟨announcing, quiet, split⟩ := announced_split watched source function
      (source.callback.chain frame.sink)
    have front := quiet_append quiet (heard.quiet watched)
    refine ⟨fun same => ?_, fun other => ?_⟩
    · obtain ⟨inner, quietInner, sink⟩ := told.ends same
      refine ⟨announcing ++ source.callback ++ inner, quiet_append front quietInner, ?_⟩
      rw [split, Callback.chain, sink]
      simp only [List.append_assoc]
    · rw [split, Callback.chain, ← List.append_assoc]
      exact quiet_append front (told.quiet other)
  · obtain ⟨announcing, quiet, split⟩ := announced_split watched source function
      (source.callback.chain frame.recorder)
    rw [split]
    exact silent inside (quiet_append quiet (quiet_recorder heard frame))
  · obtain ⟨announcing, quiet, split⟩ := announced_split watched source function [.tally tally]
    rw [split]
    refine silent inside (quiet_append quiet fun receiver member => ?_)
    rw [List.mem_singleton.mp member]
    exact other
  · refine silent inside fun receiver member => ?_
    rw [List.mem_singleton.mp member]
    exact ordinary

namespace Machine

variable {F : Frame packWords → Prop} {Q : Boundary → Callback packWords → Prop}

theorem step_of_lawful {m : Machine packWords} (idle : m.pending = Stack.empty)
    {top : Entry packWords} {rest : List (Entry packWords)}
    (entries : m.stack.entries = top :: rest)
    (lawful : Lawful pack start watched F Q (m.turnOperations (packRules pack)))
    (calm : Calm start watched m.toScene) :
    Calm start watched (m.step (packRules pack)).toScene ∧
      ledger start watched (m.step (packRules pack)).toScene =
        entered watched (returnsIn (m.turnOperations (packRules pack)))
          (ledger start watched m.toScene) ∧
      ∀ entry ∈ (m.step (packRules pack)).stack.entries,
        entry ∈ rest ∨ Addressed watched F Q entry := by
  have applied := ledger_applyAll lawful.accounted (m := m.taking top rest) calm
  rw [step_eq_applyAll _ entries]
  refine ⟨applied.1, applied.2, fun entry member => ?_⟩
  rw [← step_eq_applyAll _ entries] at member
  cases mem_step idle entries member with
  | inl kept => exact .inl kept
  | inr queued => exact .inr (lawful.addressed entry queued)

theorem Reached.outcomes {m : Machine packWords} (h : Reached (packRules pack) PackTask m)
    {top : Entry packWords} {rest : List (Entry packWords)}
    (entries : m.stack.entries = top :: rest) :
    ∃ outcomes, Answers pack m 1 outcomes ∧
      returnsIn (m.turnOperations (packRules pack)) = outcomes.map fun o => (top.frame, o) := by
  have returns := h.returns entries
  generalize same : returnsIn (m.turnOperations (packRules pack)) = found at returns
  cases returns with
  | never => exact ⟨[], .none, rfl⟩
  | once outcome => exact ⟨[outcome], .one outcome, rfl⟩
  | @explicit outcome sources returns ends =>
    refine ⟨List.replicate sources.length outcome, .explicit Nat.zero_lt_one ?_, ?_⟩
    · exact ⟨top, rest, sources, entries, returns, rfl, ends⟩
    · rw [List.map_replicate]

theorem entered_map {frame : Frame packWords} {callee : Boundary}
    (ends : EndsIn watched last callee frame.boundary frame.sink) (outcomes : List Outcome)
    (l : Ledger) :
    entered watched (outcomes.map fun o => (frame, o)) l =
      if frame.boundary = callee then last.enterAll watched outcomes l else l := by
  unfold entered Receiver.enterAll
  rw [List.foldl_map]
  split
  · next same =>
    obtain ⟨front, quiet, sink⟩ := ends.ends same
    dsimp only
    rw [sink]
    simp only [List.foldl_append, List.foldl_cons, List.foldl_nil]
    congr 1
    funext l outcome
    rw [Callback.foldl_enter_quiet quiet]
  · next other =>
    induction outcomes generalizing l with
    | nil => rfl
    | cons outcome rest ih =>
      rw [List.foldl_cons, Callback.foldl_enter_quiet (ends.quiet other)]
      exact ih l

/-- Where a frame with the callee's boundary returns, nothing is left of the call. -/
theorem Over.left_eq_nil {m : Machine packWords} (h : Reached (packRules pack) PackTask m)
    {outer : Frame packWords} {lower left : List (Entry packWords)} {frame : Frame packWords}
    {outcome : Outcome} (same : frame.boundary = outer.below)
    (returns : .returnFrom frame outcome ∈ m.turnOperations (packRules pack))
    (above : (m.step (packRules pack)).Over outer lower left) : left = [] := by
  apply List.eq_nil_iff_forall_not_mem.mpr
  intro entry member
  have uncovered := h.uncovered_of_returns returns (h.idle_of_returns returns) entry
    (above.entries ▸ List.mem_append_left lower member)
  have inside := above.inside entry member
  have seed : frame.boundary.seed = outer.boundary.seed := by
    rw [same]
    rfl
  have depth : frame.boundary.depth = outer.depth + 1 := by
    rw [same]
    rfl
  have deep : outer.depth + 1 ≤ entry.frame.depth := Nat.le_trans inside.deeper inside.valid
  simp [Boundary.covers, inside.seed, seed, depth, deep] at uncovered

theorem Over.answers {m : Machine packWords} (h : Reached (packRules pack) PackTask m)
    {outer : Frame packWords} {lower upper : List (Entry packWords)}
    (above : m.Over outer lower upper) (below : ∀ entry ∈ lower, outer.Precedes entry.frame)
    (sane : last.Sane)
    (addressed : ∀ entry ∈ upper,
      Addressed watched outer.Inside (EndsIn watched last outer.below) entry)
    (calm : Calm start watched m.toScene) {n : Nat} (runs : m.Runs (packRules pack) n)
    (before : ∀ k < n, true ∈ m.inheritAfter (packRules pack) k (marks lower upper)) :
    ∃ outcomes, Answers pack m n outcomes ∧
      Calm start watched (m.after (packRules pack) n).toScene ∧
      ledger start watched (m.after (packRules pack) n).toScene =
        last.enterAll watched outcomes (ledger start watched m.toScene) := by
  induction n generalizing m upper with
  | zero => exact ⟨[], .none, calm, rfl⟩
  | succ n ih =>
    obtain ⟨goes, later⟩ := (runs_succ_iff _ n m).mp runs
    cases upper with
    | nil => exact absurd rfl ((true_mem_marks_iff lower []).mp (before 0 (Nat.succ_pos n)))
    | cons top rest =>
      have entries : m.stack.entries = top :: (rest ++ lower) := above.entries
      have own := addressed top List.mem_cons_self
      have inside := above.inside top List.mem_cons_self
      obtain ⟨left, next, inherited⟩ := Over.performed entries h.pending below
        (fun other member => above.inside other (List.mem_cons_of_mem _ member))
        (inside.workplace top.task m.heap.slots.size) (packRules pack)
      have lawful := own.lawful (sinkLaw_endsIn sane outer) pack
        (m := m.taking top (rest ++ lower)) calm
      rw [← turnOperations_of_entries _ entries] at lawful
      obtain ⟨calmNext, ledgerNext, addressedNext⟩ :=
        step_of_lawful h.pending entries lawful calm
      obtain ⟨outcomes, answers, returns⟩ := h.outcomes entries
      rw [returns, entered_map own.sink] at ledgerNext
      have beforeNext : ∀ k < n, true ∈
          (m.step (packRules pack)).inheritAfter (packRules pack) k (marks lower left) := by
        intro k less
        have marked := before (k + 1) (Nat.succ_lt_succ less)
        unfold inheritAfter at marked
        rw [← inherited]
        exact marked
      have addressedLeft : ∀ entry ∈ left,
          Addressed watched outer.Inside (EndsIn watched last outer.below) entry := by
        intro entry member
        have kept := addressedNext entry (next.entries ▸ List.mem_append_left lower member)
        obtain (before | under) | addressed := kept.imp_left List.mem_append.mp
        · exact addressed entry (List.mem_cons_of_mem top before)
        · exact absurd (below entry under) (next.inside entry member).not_precedes
        · exact addressed
      have further {l : Ledger}
          (same : ledger start watched (m.step (packRules pack)).toScene = l) :
          ∃ outcomes, Answers pack m (n + 1) outcomes ∧
            Calm start watched (m.after (packRules pack) (n + 1)).toScene ∧
            ledger start watched (m.after (packRules pack) (n + 1)).toScene =
              last.enterAll watched outcomes l := by
        obtain ⟨outcomes, answers, calmLast, ledgerLast⟩ :=
          ih (h.turn goes) next addressedLeft calmNext later beforeNext
        rw [same] at ledgerLast
        have shifted : Answers pack m (1 + n) outcomes := answers.later
        exact ⟨outcomes, Nat.add_comm 1 n ▸ shifted, calmLast, ledgerLast⟩
      by_cases answering : top.frame.boundary = outer.below
      · rw [if_pos answering] at ledgerNext
        cases outcomes with
        | nil => exact further ledgerNext
        | cons outcome others =>
          -- The call has answered, and nothing is left of it.
          have member : .returnFrom top.frame outcome ∈ m.turnOperations (packRules pack) :=
            mem_returnsIn.mp (returns ▸ List.mem_cons_self)
          have ended := Over.left_eq_nil h answering member next
          cases n with
          | zero => exact ⟨outcome :: others, answers, calmNext, ledgerNext⟩
          | succ n =>
            have marked := beforeNext 0 (Nat.succ_pos n)
            exact absurd ended ((true_mem_marks_iff lower left).mp marked)
      · rw [if_neg answering] at ledgerNext
        exact further ledgerNext

structure AnsweringCall (watched : Option TallyId) where
  frame : Frame packWords
  function : BoundFunction packWords
  front : Callback packWords
  last : Receiver packWords
  source : PackSource
  quiet : ∀ receiver ∈ front, receiver.Quiet watched
  sane : last.Sane
  ordinary : Callback.Ordinary source.callback

def AnsweringCall.entry (call : AnsweringCall watched) : Entry packWords :=
  ⟨call.frame, .call call.function (call.front ++ [call.last]) false call.source⟩

end Machine

end PackEngine
