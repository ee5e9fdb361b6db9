import Mathlib.Algebra.Order.Group.Multiset
import Mathlib.Tactic.Abel
import PackEngine.Proofs.Plays

/-! Dockets. A docket says of each entry that a machine has accepted where it is now: waiting,
executed, removed by a return, or dropped by a failure. It follows the machine operation by
operation, and every entry stays in one place. -/
namespace PackEngine

variable {V : Vocabulary}

def Task.isCommand : Task V → Bool
  | .execute .. => true
  | .call .. => true
  | _ => false

abbrev Numbered (V : Vocabulary) := Entry V × Nat

structure Docket (V : Vocabulary) where
  accepted : List (Entry V) := []
  /-- Those on the stack, top first. -/
  stacked : List (Numbered V) := []
  /-- Those that the running task has staged, the newest first. -/
  staged : List (Numbered V) := []
  executed : List (Numbered V) := []
  /-- Those that a return removed, with its boundary. -/
  removed : List (Numbered V × Boundary) := []
  /-- Those that waited when the run failed. -/
  dropped : List (Numbered V) := []
  /-- For each attempt to queue, how many entries waited then. -/
  attempts : List Nat := []

namespace Docket

def offer (m : Machine V) (entry : Entry V) (d : Docket V) : Docket V :=
  let d := { d with attempts := d.attempts ++ [m.queued] }
  if m.overflowed then d
  else if m.limits.queue ≤ m.queued then d
  else
    { d with
      accepted := d.accepted ++ [entry]
      staged := (entry, d.accepted.length) :: d.staged }

def remove (boundary : Boundary) (d : Docket V) : Docket V :=
  let covered (numbered : Numbered V) : Bool := boundary.covers numbered.1.frame
  { d with
    stacked := d.stacked.dropWhile covered
    staged := d.staged.filter fun numbered => !covered numbered
    removed := d.removed ++
      (d.staged.filter covered ++ d.stacked.takeWhile covered).map (·, boundary) }

def apply (m : Machine V) (d : Docket V) : Operation V → Docket V
  | .queue entry => d.offer m entry
  | .returnFrom frame _ => d.remove frame.boundary
  | _ => d

def take (d : Docket V) : Docket V :=
  { d with stacked := d.stacked.tail, executed := d.executed ++ d.stacked.take 1 }

def push (d : Docket V) : Docket V :=
  { d with stacked := d.staged.reverse ++ d.stacked, staged := [] }

def close (verdict : Except EngineError Unit) (d : Docket V) : Docket V :=
  match verdict with
  | .ok () => d
  | .error _ =>
      { d with stacked := [], staged := [], dropped := d.dropped ++ d.staged ++ d.stacked }

def places (d : Docket V) : List (Numbered V) :=
  d.stacked ++ d.staged ++ d.executed ++ d.removed.map Prod.fst ++ d.dropped

def commands (d : Docket V) : Nat := d.executed.countP (·.1.task.isCommand)

end Docket

structure Docket.Agrees (m : Machine V) (d : Docket V) : Prop where
  stacked : d.stacked.map Prod.fst = m.stack.entries
  staged : d.staged.map Prod.fst = m.pending.entries
  /-- Every accepted entry is in one place, and there once. -/
  places : d.places.Perm d.accepted.zipIdx
  covered : ∀ removed ∈ d.removed, removed.2.covers removed.1.1.frame = true
  queued_le : m.queued ≤ m.limits.queue
  crowded : m.overflowed = true ↔ m.limits.queue ∈ d.attempts

namespace Docket

theorem places_offer {m : Machine V} {d : Docket V} (h : d.places.Perm d.accepted.zipIdx)
    (entry : Entry V) : (d.offer m entry).places.Perm (d.offer m entry).accepted.zipIdx := by
  unfold offer
  dsimp only
  split
  · exact h
  · split
    · exact h
    · simp only [places, List.append_assoc, List.cons_append] at h ⊢
      rw [List.zipIdx_append, List.zipIdx_singleton, Nat.zero_add]
      refine List.perm_middle.trans ?_
      exact (h.cons _).trans (List.perm_append_singleton _ _).symm

theorem places_remove (boundary : Boundary) (d : Docket V) :
    (d.remove boundary).places.Perm d.places := by
  rw [← Multiset.coe_eq_coe]
  let covered (numbered : Numbered V) : Bool := boundary.covers numbered.1.frame
  have stacked : (d.stacked : Multiset (Numbered V)) =
      (d.stacked.takeWhile covered : Multiset (Numbered V)) + d.stacked.dropWhile covered := by
    rw [Multiset.coe_add, List.takeWhile_append_dropWhile]
  have staged : (d.staged : Multiset (Numbered V)) =
      (d.staged.filter covered : Multiset (Numbered V)) +
        d.staged.filter fun numbered => !covered numbered := by
    rw [Multiset.coe_add]
    exact (Multiset.coe_eq_coe.mpr (List.filter_append_perm covered d.staged)).symm
  simp only [places, remove, List.map_append, List.map_map, Function.comp_def, List.map_id',
    ← Multiset.coe_add]
  rw [stacked, staged]
  abel

theorem places_take (d : Docket V) : d.take.places.Perm d.places := by
  rw [← Multiset.coe_eq_coe]
  have stacked : (d.stacked : Multiset (Numbered V)) =
      (d.stacked.take 1 : Multiset (Numbered V)) + d.stacked.tail := by
    rw [Multiset.coe_add, ← List.drop_one, List.take_append_drop]
  simp only [places, take, ← Multiset.coe_add]
  rw [stacked]
  abel

theorem places_push (d : Docket V) : d.push.places.Perm d.places := by
  rw [← Multiset.coe_eq_coe]
  simp only [places, push, ← Multiset.coe_add, Multiset.coe_reverse, Multiset.coe_nil]
  abel

theorem places_close (verdict : Except EngineError Unit) (d : Docket V) :
    (d.close verdict).places.Perm d.places := by
  unfold close
  split
  · exact .refl _
  · rw [← Multiset.coe_eq_coe]
    simp only [places, ← Multiset.coe_add, Multiset.coe_nil]
    abel

end Docket

namespace Docket

variable {m : Machine V} {d : Docket V}

theorem Agrees.offer (h : d.Agrees m) (entry : Entry V) :
    (d.offer m entry).Agrees (m.enqueue entry) := by
  have places := places_offer (m := m) h.places entry
  unfold Docket.offer Machine.enqueue at *
  dsimp only at *
  split
  · next full =>
    refine ⟨h.stacked, h.staged, h.places, h.covered, h.queued_le, fun _ => ?_, fun _ => full⟩
    exact List.mem_append_left _ (h.crowded.mp full)
  · next fine =>
    split
    · next crowded =>
      have exactly : m.limits.queue = m.queued := Nat.le_antisymm crowded h.queued_le
      refine ⟨h.stacked, h.staged, h.places, h.covered, h.queued_le, fun _ => ?_, fun _ => rfl⟩
      exact List.mem_append_right _ (List.mem_singleton.mpr exactly)
    · next room =>
      rw [if_neg fine, if_neg room] at places
      refine ⟨h.stacked, congrArg (entry :: ·) h.staged, places, h.covered, ?_, ?_⟩
      · show m.stack.size + (m.pending.size + 1) ≤ m.limits.queue
        have waiting : ¬m.limits.queue ≤ m.stack.size + m.pending.size := room
        omega
      · show m.overflowed = true ↔ m.limits.queue ∈ d.attempts ++ [m.queued]
        have other : m.limits.queue ≠ m.queued := fun same => room (Nat.le_of_eq same)
        simp [h.crowded, other]

theorem Agrees.remove (h : d.Agrees m) (rules : Rules V) (frame : Frame V) (outcome : Outcome) :
    (d.remove frame.boundary).Agrees (m.returnFrom rules frame outcome) := by
  let covered (numbered : Numbered V) : Bool := frame.boundary.covers numbered.1.frame
  have stacked : (d.stacked.dropWhile covered).map Prod.fst =
      m.stack.entries.dropWhile fun entry => frame.boundary.covers entry.frame := by
    rw [← h.stacked, List.dropWhile_map]
    rfl
  have staged : (d.staged.filter fun numbered => !covered numbered).map Prod.fst =
      m.pending.entries.filter fun entry => !frame.boundary.covers entry.frame := by
    rw [← h.staged, List.filter_map]
    rfl
  refine ⟨stacked, staged, (places_remove frame.boundary d).trans h.places, ?_, ?_, h.crowded⟩
  · intro removed member
    cases List.mem_append.mp member with
    | inl before => exact h.covered removed before
    | inr now =>
      obtain ⟨numbered, found, rfl⟩ := List.mem_map.mp now
      cases List.mem_append.mp found with
      | inl pending => exact (List.mem_filter.mp pending).2
      | inr waiting =>
        exact List.mem_takeWhile_imp (p := covered) waiting
  · have left : (m.returnFrom rules frame outcome).queued ≤ m.queued := by
      simp only [Machine.queued, Stack.size_eq]
      exact Nat.add_le_add (List.dropWhile_sublist _).length_le (List.length_filter_le _ _)
    exact Nat.le_trans left h.queued_le

theorem Agrees.quiet (h : d.Agrees m) (rules : Rules V) {operation : Operation V}
    (mundane : operation.Mundane) : d.Agrees (operation.apply rules m) := by
  obtain ⟨stack, pending, overflowed⟩ := mundane.keeps_waiting rules m
  have limits := operation.limits_apply rules m
  refine ⟨stack ▸ h.stacked, pending ▸ h.staged, h.places, h.covered, ?_, ?_⟩
  · rw [Machine.queued, stack, pending, limits]
    exact h.queued_le
  · rw [overflowed, limits]
    exact h.crowded

theorem Agrees.apply (h : d.Agrees m) (rules : Rules V) (operation : Operation V) :
    (d.apply m operation).Agrees (operation.apply rules m) := by
  cases operation with
  | queue entry => exact h.offer entry
  | returnFrom frame outcome => exact h.remove rules frame outcome
  | _ => exact h.quiet rules trivial

theorem Agrees.take (h : d.Agrees m) {entry : Entry V} {rest : List (Entry V)}
    (entries : m.stack.entries = entry :: rest) : d.take.Agrees (m.taking entry rest) := by
  have waiting : m.stack.size = rest.length + 1 := by
    rw [Stack.size_eq, entries, List.length_cons]
  refine ⟨?_, h.staged, (places_take d).trans h.places, h.covered, ?_, h.crowded⟩
  · show d.stacked.tail.map Prod.fst = rest
    rw [List.map_tail, h.stacked, entries, List.tail_cons]
  · have before : m.stack.size + m.pending.size ≤ m.limits.queue := h.queued_le
    show rest.length + m.pending.size ≤ m.limits.queue
    omega

theorem Agrees.push (h : d.Agrees m) : d.push.Agrees m.pushPending := by
  refine ⟨?_, rfl, (places_push d).trans h.places, h.covered, ?_, h.crowded⟩
  · show (d.staged.reverse ++ d.stacked).map Prod.fst = m.pending.entries.reverse ++ m.stack.entries
    rw [List.map_append, List.map_reverse, h.staged, h.stacked]
  · have before : m.stack.size + m.pending.size ≤ m.limits.queue := h.queued_le
    show m.pending.size + m.stack.size + 0 ≤ m.limits.queue
    omega

theorem Agrees.close (h : d.Agrees m) (verdict : Except EngineError Unit) :
    (d.close verdict).Agrees (m.close verdict) := by
  cases verdict with
  | ok value => exact ⟨h.stacked, h.staged, h.places, h.covered, h.queued_le, h.crowded⟩
  | error error =>
    exact ⟨rfl, rfl, (places_close (.error error) d).trans h.places, h.covered, Nat.zero_le _,
      h.crowded⟩

end Docket

namespace Docket

theorem apply_keeps (m : Machine V) (d : Docket V) (operation : Operation V) :
    (d.apply m operation).executed = d.executed ∧ (d.apply m operation).dropped = d.dropped := by
  cases operation with
  | queue entry =>
    simp only [apply, offer]
    split
    · exact ⟨rfl, rfl⟩
    · split <;> exact ⟨rfl, rfl⟩
  | _ => exact ⟨rfl, rfl⟩

theorem Agrees.commands_take {m : Machine V} {d : Docket V} (h : d.Agrees m) {entry : Entry V}
    {rest : List (Entry V)} (entries : m.stack.entries = entry :: rest) :
    d.take.commands = d.commands + if entry.task.isCommand then 1 else 0 := by
  have stacked := h.stacked
  rw [entries] at stacked
  obtain ⟨numbered, others, waiting, rfl, _⟩ := List.map_eq_cons_iff.mp stacked
  show (d.executed ++ d.stacked.take 1).countP _ = d.executed.countP _ + _
  rw [waiting, List.countP_append]
  exact congrArg _ (List.countP_singleton ..)

end Docket

end PackEngine
