import PackEngine.Proofs.Conditions

/-! What tallies hear. A tally changes by what it hears, and by nothing else; so once the calls that
it was opened for have run, it holds the total of what they answered. -/
namespace PackEngine

variable {V : Vocabulary}

namespace Heap

def tallyHears (id : TallyId) : Hearing V → Option Outcome
  | (.tally other, outcome) => if other = id then some outcome else none
  | _ => none

def tallied (id : TallyId) (log : List (Hearing V)) : List Outcome := log.filterMap (tallyHears id)

theorem tallied_append (id : TallyId) (first second : List (Hearing V)) :
    tallied id (first ++ second) = tallied id first ++ tallied id second := List.filterMap_append

theorem tallied_unheard {id : TallyId} {log : List (Hearing V)}
    (unheard : ∀ heard ∈ log, heard.1 ≠ .tally id) : tallied id log = [] := by
  refine List.filterMap_eq_nil_iff.mpr fun heard member => ?_
  obtain ⟨receiver, outcome⟩ := heard
  cases receiver with
  | tally other => exact if_neg fun same => unheard _ member (congrArg _ same)
  | _ => rfl

theorem tallied_hearing {id : TallyId} {callback : Callback V} (other : .tally id ∉ callback)
    (outcome : Outcome) : tallied id (callback.hearing outcome) = [] := by
  refine tallied_unheard fun heard member same => ?_
  obtain ⟨receiver, among, rfl⟩ := List.mem_map.mp member
  exact other (same ▸ among)

theorem tallied_hearing_tally (id : TallyId) (outcome : Outcome) :
    tallied id (Callback.hearing [(.tally id : Receiver V)] outcome) = [outcome] := by
  simp [Callback.hearing, tallied, tallyHears]

end Heap

def totalOf (outcomes : List Outcome) : Option Outcome :=
  if outcomes.isEmpty then none
  else some ⟨outcomes.any (·.success), outcomes.foldl (fun sum outcome => sum + outcome.value) 0⟩

theorem total?_foldl_add (outcomes : List Outcome) :
    (outcomes.foldl Tally.add {}).total? = totalOf outcomes := by
  have adds (tally : Tally) : outcomes.foldl Tally.add tally =
      ⟨tally.reported || !outcomes.isEmpty, tally.success || outcomes.any (·.success),
        outcomes.foldl (fun sum outcome => sum + outcome.value) tally.sum⟩ := by
    induction outcomes generalizing tally with
    | nil => simp
    | cons outcome rest ih =>
      rw [List.foldl_cons, ih]
      simp [Tally.add, Bool.or_assoc]
  rw [adds]
  unfold totalOf Tally.total?
  cases outcomes <;> simp

/-- The sum wraps around. -/
example : totalOf [⟨true, 2147483647⟩, ⟨false, 1⟩] = some ⟨true, -2147483648⟩ := by decide

section

variable {rules : Rules V} {id : TallyId} {tally : Tally}

theorem Receiver.hear_tally (rules : Rules V) (outcome : Outcome) {scene : Scene V}
    (receiver : Receiver V) (held : scene.heap.tallies[id]? = some tally) :
    (receiver.hear rules outcome scene).heap.tallies[id]? =
      some ((Heap.tallied id [(receiver, outcome)]).foldl Tally.add tally) := by
  cases receiver with
  | tally other =>
    simp only [hear, Heap.addToTally, Array.getElem?_modify]
    split
    · next same => simp [Heap.tallied, Heap.tallyHears, same, held]
    · next different => simp [Heap.tallied, Heap.tallyHears, different, held]
  | collect cell polarity persona callback =>
    simp only [hear]
    split <;> exact held
  | _ => exact held

theorem Callback.deliver_tally (rules : Rules V) (callback : Callback V) (outcome : Outcome)
    {scene : Scene V} (held : scene.heap.tallies[id]? = some tally) :
    (callback.deliver rules outcome scene).heap.tallies[id]? =
      some ((Heap.tallied id (callback.hearing outcome)).foldl Tally.add tally) := by
  induction callback generalizing scene tally with
  | nil => exact held
  | cons receiver rest ih =>
    have later := ih (receiver.hear_tally rules outcome held)
    rw [← List.foldl_append, ← Heap.tallied_append] at later
    exact later

namespace Operation

theorem tally_apply (rules : Rules V) (operation : Operation V) {m : Machine V}
    (held : m.heap.tallies[id]? = some tally) :
    (operation.apply rules m).heap.tallies[id]? =
      some ((Heap.tallied id (operation.heard m)).foldl Tally.add tally) := by
  cases operation with
  | queue entry =>
    simp only [apply, Machine.enqueue_toScene]
    exact held
  | returnFrom frame outcome => exact frame.sink.deliver_tally rules outcome held
  | deliver callback outcome => exact callback.deliver_tally rules outcome held
  | deliverTally other callback =>
    simp only [apply, heard, Callback.deliverTally]
    cases m.heap.total? other with
    | none => exact held
    | some outcome => exact callback.deliver_tally rules outcome held
  | newTally =>
    have known := (Array.getElem?_eq_some_iff.mp held).1
    simp only [apply, Heap.newTally]
    rw [Array.getElem?_push_lt known, ← Array.getElem?_eq_getElem known]
    exact held
  | attach tracer =>
    simp only [apply]
    split <;> exact held
  | report source error forked =>
    simp only [apply]
    rw [show (m.report rules source error forked).heap = m.heap from Machine.trace_heap rules _ m]
    exact held
  | trace event =>
    simp only [apply, Machine.trace_heap]
    exact held
  | _ => exact held

theorem tally_applyAll (rules : Rules V) (operations : List (Operation V)) {m : Machine V}
    (held : m.heap.tallies[id]? = some tally) :
    (applyAll rules operations m).heap.tallies[id]? =
      some ((Heap.tallied id (allHeard rules operations m)).foldl Tally.add tally) := by
  induction operations generalizing m tally with
  | nil => exact held
  | cons operation rest ih =>
    have later := ih (operation.tally_apply rules held)
    rw [← List.foldl_append, ← Heap.tallied_append] at later
    exact later

end Operation

namespace Machine

theorem tally_step (rules : Rules V) {m : Machine V} (held : m.heap.tallies[id]? = some tally) :
    (m.step rules).heap.tallies[id]? =
      some ((Heap.tallied id (m.turnHeard rules)).foldl Tally.add tally) := by
  cases entries : m.stack.entries with
  | nil =>
    unfold turnHeard
    rw [step_of_nil rules entries, entries]
    exact held
  | cons entry rest =>
    rw [turnHeard_of_entries rules entries, step_eq_applyAll rules entries]
    exact Operation.tally_applyAll rules _ (m := m.taking entry rest) held

theorem tally_after (rules : Rules V) (n : Nat) {m : Machine V}
    (held : m.heap.tallies[id]? = some tally) :
    (m.after rules n).heap.tallies[id]? =
      some ((Heap.tallied id (m.log rules n)).foldl Tally.add tally) := by
  induction n generalizing m tally with
  | zero => exact held
  | succ n ih =>
    have later := ih (tally_step rules held)
    rw [← List.foldl_append, ← Heap.tallied_append] at later
    exact later

end Machine

end

/-! Tallies that are opened. -/

section

variable {rules : Rules V}

theorem Callback.deliver_tallies_size (rules : Rules V) (callback : Callback V) (outcome : Outcome)
    (scene : Scene V) :
    (callback.deliver rules outcome scene).heap.tallies.size = scene.heap.tallies.size := by
  have hears (receiver : Receiver V) (scene : Scene V) :
      (receiver.hear rules outcome scene).heap.tallies.size = scene.heap.tallies.size := by
    cases receiver with
    | tally other => exact Array.size_modify
    | collect cell polarity persona callback =>
      simp only [Receiver.hear]
      split <;> rfl
    | _ => rfl
  induction callback generalizing scene with
  | nil => rfl
  | cons receiver rest ih => exact (ih _).trans (hears receiver scene)

namespace Operation

def opensTally : Operation V → Bool
  | .newTally => true
  | _ => false

theorem tallies_size_apply (rules : Rules V) (operation : Operation V) (m : Machine V) :
    (operation.apply rules m).heap.tallies.size =
      m.heap.tallies.size + if operation.opensTally then 1 else 0 := by
  cases operation with
  | queue entry => simp only [apply, Machine.enqueue_toScene]; rfl
  | returnFrom frame outcome => exact frame.sink.deliver_tallies_size rules outcome _
  | deliver callback outcome => exact callback.deliver_tallies_size rules outcome _
  | deliverTally other callback =>
    simp only [apply, Callback.deliverTally]
    cases m.heap.total? other with
    | none => rfl
    | some outcome => exact callback.deliver_tallies_size rules outcome _
  | newTally => exact Array.size_push _
  | attach tracer =>
    simp only [apply]
    split <;> rfl
  | report source error forked =>
    simp only [apply]
    rw [show (m.report rules source error forked).heap = m.heap from Machine.trace_heap rules _ m]
    rfl
  | trace event =>
    simp only [apply, Machine.trace_heap]
    rfl
  | _ => rfl

theorem tallies_size_applyAll (rules : Rules V) (operations : List (Operation V))
    (m : Machine V) :
    (applyAll rules operations m).heap.tallies.size =
      m.heap.tallies.size + operations.countP opensTally := by
  induction operations generalizing m with
  | nil => rfl
  | cons operation rest ih =>
    refine (ih _).trans ?_
    rw [tallies_size_apply, List.countP_cons]
    omega

theorem countP_opensTally_queue (entries : List (Entry V)) :
    (entries.map Operation.queue).countP opensTally = 0 := by
  refine List.countP_eq_zero.mpr fun operation member => ?_
  obtain ⟨entry, _, rfl⟩ := List.mem_map.mp member
  exact Bool.false_ne_true

theorem tally_opened {rules : Rules packWords} {mark : Heap packWords}
    {operations : List (Operation packWords)} {m : Machine packWords}
    (tacit : ∀ operation ∈ operations, Machine.Tacit mark operation) {id : TallyId}
    (young : m.heap.tallies.size ≤ id)
    (opened : id < (applyAll rules operations m).heap.tallies.size) :
    (applyAll rules operations m).heap.tallies[id]? = some {} := by
  induction operations generalizing m with
  | nil => exact absurd opened (Nat.not_lt_of_le young)
  | cons operation rest ih =>
    have later := fun other member => tacit other (List.mem_cons_of_mem operation member)
    by_cases here : id < (operation.apply rules m).heap.tallies.size
    · have fresh : (operation.apply rules m).heap.tallies[id]? = some {} := by
        have size := tallies_size_apply rules operation m
        cases operation with
        | newTally =>
          have last : id = m.heap.tallies.size :=
            Nat.le_antisymm (Nat.le_of_lt_succ (Nat.lt_of_lt_of_eq here size)) young
          rw [last]
          exact Array.getElem?_push_size
        | _ => exact absurd here (Nat.not_lt_of_le (size ▸ young))
      have kept := tally_applyAll rules rest fresh
      rwa [Machine.allHeard_tacit later] at kept
    · exact ih later (Nat.le_of_not_lt here) opened

end Operation

end

theorem Scope.Hears.tallied {s : Scope} {outcomes : List Outcome} {log : List (Hearing packWords)}
    (h : s.Hears outcomes log) {id : TallyId} (known : id < s.mark.tallies.size) :
    Heap.tallied id log =
      outcomes.flatMap fun outcome => Heap.tallied id (s.base.hearing outcome) := by
  have silent {log : List (Hearing packWords)}
      (own : ∀ heard ∈ log, heard.1.Since s.mark s.given) : Heap.tallied id log = [] := by
    refine Heap.tallied_unheard fun heard member same => ?_
    have since := own heard member
    rw [same] at since
    exact absurd known (Nat.not_lt_of_le since)
  induction h with
  | nothing own => exact silent own
  | last own outcome => simp [Heap.tallied_append, silent own]
  | next own outcome nonempty rest ih => simp [Heap.tallied_append, silent own, ih]

theorem tallied_hearing_announced (id : TallyId) (source : PackSource) (function : FunctionId)
    (callback : Callback packWords) (outcome : Outcome) :
    Heap.tallied id (Callback.hearing (announced isSilent source function callback) outcome) =
      Heap.tallied id (callback.hearing outcome) := by
  unfold announced
  split <;> rfl

end PackEngine
