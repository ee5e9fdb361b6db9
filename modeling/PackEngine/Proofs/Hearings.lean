import PackEngine.Proofs.Ledger

/-! What receivers hear. The log of a run has every delivery of an outcome to a receiver, in order.
Slots and cells that were opened before a stretch of a run change in it only by what they hear,
unless its tasks write into them directly. -/
namespace PackEngine

variable {V : Vocabulary}

abbrev Hearing (V : Vocabulary) := Receiver V × Outcome

def Callback.hearing (callback : Callback V) (outcome : Outcome) : List (Hearing V) :=
  callback.map fun receiver => (receiver, outcome)

@[simp] theorem Callback.hearing_append (first second : Callback V) (outcome : Outcome) :
    Callback.hearing (first ++ second) outcome =
      first.hearing outcome ++ second.hearing outcome := List.map_append

namespace Operation

def heard (m : Machine V) : Operation V → List (Hearing V)
  | .returnFrom frame outcome => frame.sink.hearing outcome
  | .deliver callback outcome => callback.hearing outcome
  | .deliverTally tally callback =>
      match m.heap.total? tally with
      | some outcome => callback.hearing outcome
      | none => []
  | _ => []

def allHeard (rules : Rules V) : List (Operation V) → Machine V → List (Hearing V)
  | [], _ => []
  | operation :: rest, m => operation.heard m ++ allHeard rules rest (operation.apply rules m)

theorem allHeard_append (rules : Rules V) (first second : List (Operation V)) (m : Machine V) :
    allHeard rules (first ++ second) m =
      allHeard rules first m ++ allHeard rules second (applyAll rules first m) := by
  induction first generalizing m with
  | nil => rfl
  | cons operation rest ih =>
    rw [List.cons_append, allHeard, allHeard, ih, List.append_assoc]
    rfl

end Operation

namespace Machine

def turnHeard (rules : Rules V) (m : Machine V) : List (Hearing V) :=
  match m.stack.entries with
  | [] => []
  | entry :: rest => Operation.allHeard rules (m.turnOperations rules) (m.taking entry rest)

def log (rules : Rules V) : Nat → Machine V → List (Hearing V)
  | 0, _ => []
  | n + 1, m => m.turnHeard rules ++ log rules n (m.step rules)

theorem turnHeard_of_entries (rules : Rules V) {m : Machine V} {entry : Entry V}
    {rest : List (Entry V)} (entries : m.stack.entries = entry :: rest) :
    m.turnHeard rules =
      Operation.allHeard rules (m.turnOperations rules) (m.taking entry rest) := by
  unfold turnHeard
  rw [entries]

theorem log_one (rules : Rules V) (m : Machine V) : m.log rules 1 = m.turnHeard rules :=
  List.append_nil _

theorem log_add (rules : Rules V) (n k : Nat) (m : Machine V) :
    m.log rules (n + k) = m.log rules n ++ (m.after rules n).log rules k := by
  induction n generalizing m with
  | zero => rw [Nat.zero_add]; rfl
  | succ n ih =>
    rw [Nat.add_right_comm, log, log, ih, List.append_assoc]
    rfl

end Machine

namespace Heap

def slotHears (id : SlotId) (held : Option Outcome) : Hearing V → Option Outcome
  | (.slot other, outcome) => if other = id then some outcome else held
  | _ => held

def slotAfter (id : SlotId) (log : List (Hearing V)) (held : Option Outcome) : Option Outcome :=
  log.foldl (slotHears id) held

theorem slotAfter_append (id : SlotId) (first second : List (Hearing V)) (held : Option Outcome) :
    slotAfter id (first ++ second) held = slotAfter id second (slotAfter id first held) :=
  List.foldl_append

theorem slotAfter_unheard {id : SlotId} {log : List (Hearing V)}
    (unheard : ∀ heard ∈ log, heard.1 ≠ .slot id) (held : Option Outcome) :
    slotAfter id log held = held := by
  unfold slotAfter
  induction log generalizing held with
  | nil => rfl
  | cons heard rest ih =>
    have same : slotHears id held heard = held := by
      obtain ⟨receiver, outcome⟩ := heard
      cases receiver with
      | slot other => exact if_neg fun same => unheard _ List.mem_cons_self (congrArg _ same)
      | _ => rfl
    rw [List.foldl_cons, same]
    exact ih (fun other member => unheard other (List.mem_cons_of_mem _ member)) held

def cellHears (id : CellId) : Hearing V → List (Source V)
  | (.collect cell polarity persona callback, outcome) =>
      if cell = id && polarity.passes outcome.value then [⟨persona, callback⟩] else []
  | _ => []

def kept (id : CellId) (log : List (Hearing V)) : List (Source V) := log.flatMap (cellHears id)

structure Expands (before after : Heap V) : Prop extends before.Grows after where
  cells : before.cells.size ≤ after.cells.size

theorem Expands.refl (h : Heap V) : h.Expands h := ⟨.refl h, Nat.le_refl _⟩

theorem Expands.trans {first second third : Heap V} (before : first.Expands second)
    (after : second.Expands third) : first.Expands third :=
  ⟨before.toGrows.trans after.toGrows, Nat.le_trans before.cells after.cells⟩

/-- The slots and cells of `mark` change by what they hear. -/
structure Follows (mark : Heap V) (log : List (Hearing V)) (before after : Heap V) : Prop where
  expands : before.Expands after
  slots : ∀ id < mark.slots.size, after.recorded id = slotAfter id log (before.recorded id)
  kept : ∀ id < mark.cells.size, after.collected id = before.collected id ++ kept id log

theorem Follows.refl (mark h : Heap V) : mark.Follows [] h h :=
  ⟨.refl h, fun _ _ => rfl, fun _ _ => (List.append_nil _).symm⟩

theorem Follows.trans {mark first second third : Heap V} {log later : List (Hearing V)}
    (before : mark.Follows log first second) (after : mark.Follows later second third) :
    mark.Follows (log ++ later) first third where
  expands := before.expands.trans after.expands
  slots id known := by
    rw [after.slots id known, before.slots id known, slotAfter_append]
  kept id known := by
    rw [after.kept id known, before.kept id known, List.append_assoc]
    unfold Heap.kept
    rw [List.flatMap_append]

theorem Follows.older {mark older before after : Heap V} {log : List (Hearing V)}
    (h : mark.Follows log before after) (le : older.Expands mark) :
    older.Follows log before after :=
  ⟨h.expands, fun id known => h.slots id (Nat.lt_of_lt_of_le known le.slots),
    fun id known => h.kept id (Nat.lt_of_lt_of_le known le.cells)⟩

theorem Follows.of_eq {mark before after : Heap V} (expands : before.Expands after)
    (slots : ∀ id < mark.slots.size, after.recorded id = before.recorded id)
    (cells : ∀ id < mark.cells.size, after.collected id = before.collected id) :
    mark.Follows [] before after :=
  ⟨expands, slots, fun id known => (cells id known).trans (List.append_nil _).symm⟩

theorem recorded_record (h : Heap V) {slot id : SlotId} (known : id < h.slots.size)
    (outcome : Outcome) :
    (h.record slot outcome).recorded id = if slot = id then some outcome else h.recorded id := by
  unfold recorded record
  simp only [Array.getElem?_setIfInBounds]
  by_cases same : slot = id
  · subst same
    simp [known]
  · simp [same]

theorem recorded_newSlot (h : Heap V) {id : SlotId} (known : id < h.slots.size) :
    h.newSlot.2.recorded id = h.recorded id := by
  unfold recorded newSlot
  rw [Array.getElem?_push_lt known, Array.getElem?_eq_getElem known]

theorem recorded_newSlot_self (h : Heap V) : h.newSlot.2.recorded h.slots.size = none := by
  simp [recorded, newSlot]

theorem collected_collect (h : Heap V) {cell id : CellId} (known : id < h.cells.size)
    (source : Source V) :
    (h.collect cell source).collected id =
      h.collected id ++ if cell = id then [source] else [] := by
  unfold collected collect
  simp only [Array.getElem?_modify]
  by_cases same : cell = id
  · subst same
    simp [known]
  · simp [same]

theorem collected_newCell (h : Heap V) (id : CellId) :
    h.newCell.2.collected id = h.collected id := by
  unfold collected newCell
  simp only [Array.getElem?_push]
  split
  · next same => simp [same]
  · rfl

theorem collected_emptyCell (h : Heap V) {cell id : CellId} (other : cell ≠ id) :
    (h.emptyCell cell).collected id = h.collected id := by
  unfold collected emptyCell
  simp [other]

theorem collected_of_size_le (h : Heap V) {id : CellId} (unknown : h.cells.size ≤ id) :
    h.collected id = [] := by
  simp [collected, unknown]

end Heap

theorem Receiver.hear_follows (rules : Rules V) (outcome : Outcome) {mark : Heap V}
    {scene : Scene V} (wide : mark.Expands scene.heap) (receiver : Receiver V) :
    mark.Follows [(receiver, outcome)] scene.heap (receiver.hear rules outcome scene).heap := by
  have grows := receiver.hear_grows rules outcome scene
  cases receiver with
  | slot slot =>
    refine ⟨⟨grows, Nat.le_refl _⟩, fun id known => ?_, fun id known => ?_⟩
    · exact scene.heap.recorded_record (Nat.lt_of_lt_of_le known wide.slots) outcome
    · exact (List.append_nil _).symm
  | tally tally =>
    refine ⟨⟨grows, Nat.le_refl _⟩, fun _ _ => rfl, fun _ _ => (List.append_nil _).symm⟩
  | collect cell polarity persona callback =>
    have keeps (id : CellId) : Heap.kept id [((.collect cell polarity persona callback :
        Receiver V), outcome)] =
        if cell = id && polarity.passes outcome.value then [⟨persona, callback⟩] else [] :=
      List.append_nil _
    simp only [hear] at grows ⊢
    split
    · next passes =>
      rw [if_pos passes] at grows
      refine ⟨⟨grows, Nat.le_of_eq Array.size_modify.symm⟩, fun _ _ => rfl, fun id known => ?_⟩
      rw [keeps, passes, Bool.and_true]
      simpa using scene.heap.collected_collect (Nat.lt_of_lt_of_le known wide.cells) _
    · next blocked =>
      refine ⟨.refl _, fun _ _ => rfl, fun id _ => ?_⟩
      rw [keeps, Bool.eq_false_iff.mpr blocked, Bool.and_false]
      exact (List.append_nil _).symm
  | announce persona function =>
    exact ⟨.refl _, fun _ _ => rfl, fun _ _ => (List.append_nil _).symm⟩
  | host listener => exact ⟨.refl _, fun _ _ => rfl, fun _ _ => (List.append_nil _).symm⟩

theorem Callback.deliver_follows (rules : Rules V) (callback : Callback V) (outcome : Outcome)
    {mark : Heap V} {scene : Scene V} (wide : mark.Expands scene.heap) :
    mark.Follows (callback.hearing outcome) scene.heap
      (callback.deliver rules outcome scene).heap := by
  induction callback generalizing scene with
  | nil => exact .refl _ _
  | cons receiver rest ih =>
    have first := receiver.hear_follows rules outcome wide
    exact first.trans (ih (wide.trans first.expands))

theorem Receiver.mem_collected (rules : Rules V) (outcome : Outcome) {scene : Scene V}
    {receiver : Receiver V} {cell : CellId} {source : Source V}
    (member : source ∈ (receiver.hear rules outcome scene).heap.collected cell) :
    source ∈ scene.heap.collected cell ∨
      ∃ polarity, receiver = .collect cell polarity source.persona source.callback := by
  cases receiver with
  | collect into polarity persona callback =>
    simp only [hear] at member
    split at member
    · refine (Heap.mem_collected_collect member).imp_right fun put => ⟨polarity, ?_⟩
      rw [put.1, put.2]
    · exact .inl member
  | _ => exact .inl member

theorem Callback.mem_collected (rules : Rules V) (callback : Callback V) (outcome : Outcome)
    {scene : Scene V} {cell : CellId} {source : Source V}
    (member : source ∈ (callback.deliver rules outcome scene).heap.collected cell) :
    source ∈ scene.heap.collected cell ∨
      ∃ polarity, .collect cell polarity source.persona source.callback ∈ callback := by
  induction callback generalizing scene with
  | nil => exact .inl member
  | cons receiver rest ih =>
    obtain before | ⟨polarity, among⟩ := ih member
    · refine (receiver.mem_collected rules outcome before).imp_right fun found => ?_
      obtain ⟨polarity, same⟩ := found
      exact ⟨polarity, same ▸ List.mem_cons_self⟩
    · exact .inr ⟨polarity, List.mem_cons_of_mem _ among⟩

namespace Operation

/-- Writes into no slot or cell of `mark`, except for what is heard. -/
def Spares (mark : Heap V) : Operation V → Prop
  | .record frame _ => mark.slots.size ≤ frame.slot
  | .collect cell _ => mark.cells.size ≤ cell
  | .emptyCell cell => mark.cells.size ≤ cell
  | _ => True

variable {rules : Rules V} {mark : Heap V}

theorem Spares.follows {operation : Operation V} (spares : operation.Spares mark)
    (rules : Rules V) {m : Machine V} (wide : mark.Expands m.heap) :
    mark.Follows (operation.heard m) m.heap (operation.apply rules m).heap := by
  have grows := operation.grows rules m
  have silent {after : Heap V} (same : after = m.heap) : mark.Follows [] m.heap after := by
    rw [same]
    exact .refl _ _
  cases operation with
  | queue entry =>
    apply silent
    simp only [apply, Machine.enqueue_toScene]
  | returnFrom frame outcome => exact frame.sink.deliver_follows rules outcome wide
  | deliver callback outcome => exact callback.deliver_follows rules outcome wide
  | deliverTally tally callback =>
    simp only [apply, heard, Callback.deliverTally]
    cases m.heap.total? tally with
    | none => exact .refl _ _
    | some outcome => exact callback.deliver_follows rules outcome wide
  | record frame outcome =>
    refine .of_eq ⟨grows, Nat.le_refl _⟩ (fun id known => ?_) fun _ _ => rfl
    refine (m.heap.recorded_record (Nat.lt_of_lt_of_le known wide.slots) outcome).trans ?_
    exact if_neg (Nat.ne_of_gt (Nat.lt_of_lt_of_le known spares))
  | collect cell source =>
    refine .of_eq ⟨grows, Nat.le_of_eq Array.size_modify.symm⟩ (fun _ _ => rfl) fun id known => ?_
    refine (m.heap.collected_collect (Nat.lt_of_lt_of_le known wide.cells) source).trans ?_
    rw [if_neg (Nat.ne_of_gt (Nat.lt_of_lt_of_le known spares)), List.append_nil]
  | emptyCell cell =>
    refine .of_eq ⟨grows, Nat.le_of_eq Array.size_setIfInBounds.symm⟩ (fun _ _ => rfl)
      fun id known => ?_
    exact m.heap.collected_emptyCell (Nat.ne_of_gt (Nat.lt_of_lt_of_le known spares))
  | newSlot =>
    refine .of_eq ⟨grows, Nat.le_refl _⟩ (fun id known => ?_) fun _ _ => rfl
    exact m.heap.recorded_newSlot (Nat.lt_of_lt_of_le known wide.slots)
  | newCell =>
    refine .of_eq ⟨grows, ?_⟩ (fun _ _ => rfl) fun id _ => m.heap.collected_newCell id
    simp [apply, Heap.newCell]
  | newTally => exact .of_eq ⟨grows, Nat.le_refl _⟩ (fun _ _ => rfl) fun _ _ => rfl
  | attach tracer =>
    apply silent
    simp only [apply]
    split <;> rfl
  | report source error forked => exact silent (Machine.trace_heap rules _ m)
  | trace event => exact silent (Machine.trace_heap rules event m)
  | _ => exact .refl _ _

theorem follows_applyAll (rules : Rules V) {operations : List (Operation V)}
    (spare : ∀ operation ∈ operations, operation.Spares mark) {m : Machine V}
    (wide : mark.Expands m.heap) :
    mark.Follows (allHeard rules operations m) m.heap (applyAll rules operations m).heap := by
  induction operations generalizing m with
  | nil => exact .refl _ _
  | cons operation rest ih =>
    have first := (spare operation List.mem_cons_self).follows rules wide
    refine first.trans (ih (fun other member => spare other (List.mem_cons_of_mem _ member)) ?_)
    exact wide.trans first.expands

theorem mem_collected {operation : Operation V} {m : Machine V}
    (direct : ∀ cell source, operation ≠ .collect cell source) {cell : CellId} {source : Source V}
    (member : source ∈ (operation.apply rules m).heap.collected cell) :
    source ∈ m.heap.collected cell ∨ ∃ polarity outcome,
      (.collect cell polarity source.persona source.callback, outcome) ∈ operation.heard m := by
  have hears (callback : Callback V) (outcome : Outcome)
      (member : source ∈ (callback.deliver rules outcome m.toScene).heap.collected cell) :
      source ∈ m.heap.collected cell ∨ ∃ polarity told,
        (.collect cell polarity source.persona source.callback, told) ∈
          callback.hearing outcome := by
    refine (callback.mem_collected rules outcome member).imp_right fun found => ?_
    obtain ⟨polarity, among⟩ := found
    exact ⟨polarity, outcome, List.mem_map_of_mem among⟩
  cases operation with
  | queue entry =>
    simp only [apply, Machine.enqueue] at member
    split at member
    · exact .inl member
    · split at member <;> exact .inl member
  | returnFrom frame outcome => exact hears frame.sink outcome member
  | deliver callback outcome => exact hears callback outcome member
  | deliverTally tally callback =>
    simp only [apply, heard, Callback.deliverTally] at member ⊢
    cases total : m.heap.total? tally with
    | none =>
      rw [total] at member
      exact .inl member
    | some outcome =>
      rw [total] at member
      exact hears callback outcome member
  | collect into other => exact absurd rfl (direct into other)
  | emptyCell emptied => exact .inl (Heap.mem_collected_emptyCell member)
  | newCell => exact .inl (Heap.mem_collected_newCell member)
  | attach tracer =>
    simp only [apply] at member
    split at member <;> exact .inl member
  | report source error forked =>
    have same : (apply rules m (.report source error forked)).heap = m.heap :=
      Machine.trace_heap rules (.error error.message) m
    exact .inl (same ▸ member)
  | trace event =>
    have same : (apply rules m (.trace event)).heap = m.heap := Machine.trace_heap rules event m
    exact .inl (same ▸ member)
  | _ => exact .inl member

theorem mem_collected_applyAll {operations : List (Operation V)}
    (direct : ∀ operation ∈ operations, ∀ cell source, operation ≠ .collect cell source)
    {m : Machine V} {cell : CellId} {source : Source V}
    (member : source ∈ (applyAll rules operations m).heap.collected cell) :
    source ∈ m.heap.collected cell ∨ ∃ polarity outcome,
      (.collect cell polarity source.persona source.callback, outcome) ∈
        allHeard rules operations m := by
  induction operations generalizing m with
  | nil => exact .inl member
  | cons operation rest ih =>
    obtain first | ⟨polarity, outcome, heard⟩ :=
      ih (fun other among => direct other (List.mem_cons_of_mem _ among)) member
    · refine (mem_collected (direct operation List.mem_cons_self) first).imp_right fun found => ?_
      obtain ⟨polarity, outcome, heard⟩ := found
      exact ⟨polarity, outcome, List.mem_append_left _ heard⟩
    · exact .inr ⟨polarity, outcome, List.mem_append_right _ heard⟩

theorem expands_applyAll (rules : Rules V) (operations : List (Operation V)) (m : Machine V) :
    m.heap.Expands (applyAll rules operations m).heap := by
  have bare (h : Heap V) : ({} : Heap V).Expands h := ⟨⟨by simp, by simp⟩, by simp⟩
  have spare : ∀ operation ∈ operations, operation.Spares ({} : Heap V) := by
    intro operation _
    cases operation <;> simp [Spares]
  exact (follows_applyAll rules spare (bare m.heap)).expands

end Operation

namespace Machine

theorem step_follows (rules : Rules V) {mark : Heap V} {m : Machine V}
    (spare : ∀ operation ∈ m.turnOperations rules, operation.Spares mark)
    (wide : mark.Expands m.heap) :
    mark.Follows (m.turnHeard rules) m.heap (m.step rules).heap := by
  cases entries : m.stack.entries with
  | nil =>
    unfold turnHeard
    rw [step_of_nil rules entries, entries]
    exact .refl _ _
  | cons entry rest =>
    rw [turnHeard_of_entries rules entries, step_eq_applyAll rules entries]
    exact Operation.follows_applyAll rules spare (m := m.taking entry rest) wide

theorem mem_collected_step {rules : Rules V} {m : Machine V}
    (direct : ∀ operation ∈ m.turnOperations rules, ∀ cell source,
      operation ≠ .collect cell source) {cell : CellId} {source : Source V}
    (member : source ∈ (m.step rules).heap.collected cell) :
    source ∈ m.heap.collected cell ∨ ∃ polarity outcome,
      (.collect cell polarity source.persona source.callback, outcome) ∈ m.turnHeard rules := by
  cases entries : m.stack.entries with
  | nil =>
    rw [step_of_nil rules entries] at member
    exact .inl member
  | cons entry rest =>
    rw [step_eq_applyAll rules entries] at member
    rw [turnHeard_of_entries rules entries]
    exact Operation.mem_collected_applyAll (m := m.taking entry rest) direct member

theorem step_expands (rules : Rules V) (m : Machine V) : m.heap.Expands (m.step rules).heap := by
  cases entries : m.stack.entries with
  | nil =>
    rw [step_of_nil rules entries]
    exact .refl _
  | cons entry rest =>
    rw [step_eq_applyAll rules entries]
    exact Operation.expands_applyAll rules _ (m.taking entry rest)

theorem after_expands (rules : Rules V) (n : Nat) (m : Machine V) :
    m.heap.Expands (m.after rules n).heap := by
  induction n with
  | zero => exact .refl _
  | succ n ih =>
    rw [after_succ]
    exact ih.trans (step_expands rules _)

end Machine

end PackEngine
