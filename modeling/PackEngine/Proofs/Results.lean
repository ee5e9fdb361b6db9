import PackEngine.Proofs.Openings

/-! How often calls answer. A frame's sink hears one result at most, unless an explicit return
runs under several sources, which repeats one outcome in one turn. The report of a run and the
sums of several calls follow from it. -/
namespace PackEngine

open Machine

variable {pack : Pack} {start : Nat}

def SaneSink (_ : Boundary) (callback : Callback packWords) : Prop :=
  ∀ receiver ∈ callback, receiver.Sane

theorem saneSink_append {boundary : Boundary} {front back : Callback packWords}
    (quiet : ∀ receiver ∈ front, receiver.Quiet none) (sane : SaneSink boundary back) :
    SaneSink boundary (front ++ back) := by
  intro receiver member
  cases List.mem_append.mp member with
  | inl member => exact (quiet receiver member).sane
  | inr member => exact sane receiver member

theorem saneSink_announced {boundary : Boundary} (source : PackSource) (function : FunctionId)
    {callback : Callback packWords} (sane : SaneSink boundary callback) :
    SaneSink boundary (announced isSilent source function callback) := by
  obtain ⟨front, quiet, split⟩ := announced_split none source function callback
  rw [split]
  exact saneSink_append quiet sane

theorem saneSink_singleton {boundary : Boundary} {receiver : Receiver packWords}
    (sane : receiver.Sane) : SaneSink boundary [receiver] := by
  intro other member
  rw [List.mem_singleton.mp member]
  exact sane

theorem sinkLaw_sane : SinkLaw none (fun _ => True) SaneSink where
  sane told := told
  inner _ _ _ := trivial
  returnCall function _ told heard :=
    saneSink_announced _ function (saneSink_append (heard.quiet none) told)
  call function _ heard :=
    saneSink_announced _ function
      (saneSink_append (heard.quiet none) (saneSink_singleton trivial))
  talliedCall source function _ _ :=
    saneSink_announced source function (saneSink_singleton trivial)
  tracedCall _ := fun _ member => absurd member List.not_mem_nil
  condition _ _ _ _ ordinary := saneSink_singleton ordinary

namespace Machine

structure Orderly (start : Nat) (m : Machine packWords) : Prop where
  calm : Calm start none m.toScene
  addressed : ∀ entry ∈ m.stack.entries, Addressed none (fun _ => True) SaneSink entry

theorem Orderly.step {m : Machine packWords} (h : m.Orderly start)
    (idle : m.pending = Stack.empty) (goes : m.verdict? = none) :
    (m.step (packRules pack)).Orderly start := by
  obtain ⟨_, ⟨top, rest, entries⟩, _⟩ := (verdict?_eq_none_iff m).mp goes
  have lawful := (h.addressed top (entries ▸ List.mem_cons_self)).lawful sinkLaw_sane pack
    (m := m.taking top rest) h.calm
  rw [← turnOperations_of_entries _ entries] at lawful
  obtain ⟨calm, _, addressed⟩ := step_of_lawful idle entries lawful h.calm
  refine ⟨calm, fun entry member => ?_⟩
  cases addressed entry member with
  | inl kept => exact h.addressed entry (entries ▸ List.mem_cons_of_mem top kept)
  | inr queued => exact queued

theorem Orderly.after {m : Machine packWords} (h : m.Orderly start)
    (reached : Reached (packRules pack) PackTask m) {n : Nat} (runs : m.Runs (packRules pack) n) :
    (m.after (packRules pack) n).Orderly start := by
  induction n with
  | zero => exact h
  | succ n ih =>
    obtain ⟨before, goes⟩ := (runs_succ_last_iff _ n m).mp runs
    rw [after_succ]
    exact (ih before).step (reached.after before).pending goes

end Machine

def reported (functions : List (BoundFunction packWords)) (answers : List (List Outcome)) :
    List (FunctionId × Outcome) :=
  (functions.zip answers).flatMap fun answered => answered.2.map fun o => (answered.1.id, o)

def summedCalls (frame : Frame packWords) (issuer source : PackSource) (tally : TallyId)
    (sink : Callback packWords) (bound : List (BoundFunction packWords)) :
    List (Entry packWords) :=
  bound.map (fun function =>
      ⟨frame, .call function (announced isSilent issuer function.id [.tally tally]) false
        source.clearCallbacks⟩) ++
    [⟨frame, .deferred (Control.deliverTally tally sink)⟩]

theorem queueFunctions_summed (rules : Rules packWords) (frame : Frame packWords)
    {functions : List (FunctionRef packWords)} {arguments : Option Json}
    (issuer source : PackSource) {flags : Flags} (m : Machine packWords)
    {bound : List (BoundFunction packWords)}
    (binds : FunctionRef.instantiateAll arguments functions = .ok bound)
    (several : bound.length ≠ 1) (consumer : issuer.callback ≠ [])
    (calls : flags.isReturn = false) :
    (queueFunctions isSilent functions arguments issuer source flags).operations rules frame m =
      .newTally :: (summedCalls frame issuer source m.heap.newTally.1
        (issuer.callback.chain frame.recorder) bound).map .queue := by
  rw [queueFunctions_operations, binds]
  simp [calls, several, consumer, summedCalls, Function.comp_def]

def talliedCall (frame : Frame packWords) (issuer source : PackSource) (tally : TallyId)
    (function : BoundFunction packWords) : AnsweringCall (some tally) where
  frame := frame
  function := function
  front := announced isSilent issuer function.id []
  last := .tally tally
  source := source.clearCallbacks
  quiet := by
    obtain ⟨front, quiet, split⟩ :=
      announced_split (some tally) issuer function.id Callback.empty
    exact split ▸ quiet_append quiet fun _ member => absurd member List.not_mem_nil
  sane := trivial
  ordinary := Callback.ordinary_empty

theorem addressed_seedEntries {source : PackSource} (heard : Callback.Ordinary source.callback)
    (functions : List (BoundFunction packWords)) (seed slot : Nat) :
    ∀ entry ∈ seedEntries source seed slot functions,
      Addressed none (fun _ => True) SaneSink entry := by
  induction functions generalizing seed slot with
  | nil => exact fun _ member => absurd member List.not_mem_nil
  | cons function rest ih =>
    intro entry member
    cases List.mem_cons.mp member with
    | inl same =>
      rw [same]
      exact ⟨trivial, fun _ member => absurd member List.not_mem_nil,
        .call function (saneSink_singleton trivial) heard⟩
    | inr member => exact ih (seed + 1) (slot + 1) entry member

namespace RunRequest

variable {request : RunRequest} {functions : List (BoundFunction packWords)} {w : World}

theorem opening_calm (request : RunRequest) (functions : List (BoundFunction packWords))
    (w : World) : Calm w.journal.size none (request.opening functions w).toScene := by
  obtain ⟨same, _⟩ := request.opening_start functions w
  rw [same]
  refine ⟨Nat.le_refl _, (fun _ watched => nomatch watched), fun cell source member => ?_⟩
  simp [Heap.collected] at member

theorem opening_orderly (heard : Callback.Ordinary request.source.callback)
    (fine : (request.opening functions w).overflowed = false) :
    (request.opening functions w).Orderly w.journal.size := by
  refine ⟨request.opening_calm functions w, ?_⟩
  rw [request.opening_entries functions w fine]
  exact addressed_seedEntries heard functions 0 0

end RunRequest

/-- A function that returns twice in one turn, one that returns once, and one that sums both. -/
def pairPack : Pack where
  functions :=
    [(⟨"minecraft", "both", .refl true, .refl true⟩, { lines := [.obj [
        ("modifiers", .arr [.arr [.str "StoreResult", .str "x", .str "y"]]),
        ("run", .arr [.str "Function", .str "#pair"])]] }),
     (⟨"minecraft", "once", .refl true, .refl true⟩,
      { lines := [.obj [("run", .arr [.str "Return", .num (.int 5)])]] }),
     (⟨"minecraft", "twice", .refl true, .refl true⟩, { lines := [.obj [
        ("modifiers", .arr [.arr [.str "As", .arr [.str "a", .str "b"]]]),
        ("run", .arr [.str "Return", .num (.int 7)])]] })]
  tags := [(⟨"minecraft", "pair", .refl true, .refl true⟩,
    [⟨"minecraft", "once", .refl true, .refl true⟩,
      ⟨"minecraft", "twice", .refl true, .refl true⟩])]

def pairFunctions (target : String) : List (BoundFunction packWords) :=
  (RunRequest.functions pairPack { target := target }).toOption.getD []

def pairRun (target : String) : Machine packWords :=
  ({ target := target } : RunRequest).opening (pairFunctions target) {}

end PackEngine
