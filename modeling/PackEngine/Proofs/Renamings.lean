import Mathlib.Logic.Function.Basic
import PackEngine.Proofs.Hearings

/-! Renamings of what runs allot: slots, tallies, cells and seeds. Two runs of the same work differ
in them when one run has allotted some before. -/
namespace PackEngine

structure Renaming where
  slot : SlotId → SlotId
  tally : TallyId → TallyId
  cell : CellId → CellId
  seed : Nat → Nat
  slot_injective : Function.Injective slot
  tally_injective : Function.Injective tally
  cell_injective : Function.Injective cell
  seed_injective : Function.Injective seed

def Renaming.same : Renaming :=
  ⟨id, id, id, id, Function.injective_id, Function.injective_id, Function.injective_id,
    Function.injective_id⟩

variable {V : Vocabulary} (names : Renaming)

mutual

def Receiver.rename : Receiver V → Receiver V
  | .slot id => .slot (names.slot id)
  | .tally id => .tally (names.tally id)
  | .collect cell polarity persona callback =>
      .collect (names.cell cell) polarity persona (Callback.rename callback)
  | .announce persona function => .announce persona function
  | .host listener => .host listener

def Callback.rename : List (Receiver V) → Callback V
  | [] => []
  | receiver :: rest => receiver.rename :: Callback.rename rest

end

namespace Callback

theorem rename_eq_map (callback : Callback V) :
    rename names callback = callback.map (Receiver.rename names) := by
  induction callback with
  | nil => rfl
  | cons receiver rest ih => exact congrArg (List.cons _) ih

@[simp] theorem rename_empty : rename names (empty : Callback V) = empty := rfl

@[simp] theorem rename_chain (first second : Callback V) :
    rename names (first.chain second) = chain (rename names first) (rename names second) := by
  simp only [rename_eq_map, chain, List.map_append]

@[simp] theorem isEmpty_rename (callback : Callback V) :
    (rename names callback).isEmpty = callback.isEmpty := by
  cases callback <;> rfl

end Callback

namespace Source

def rename (source : Source V) : Source V := { source with
  callback := Callback.rename names source.callback }

@[simp] theorem persona_rename (source : Source V) :
    (source.rename names).persona = source.persona := rfl

@[simp] theorem clearCallbacks_rename (source : Source V) :
    (source.rename names).clearCallbacks = source.clearCallbacks := rfl

end Source

def Sources.rename : Sources V → Sources V
  | .ready sources => .ready (sources.map (Source.rename names))
  | .collected cell => .collected (names.cell cell)

def Boundary.rename (boundary : Boundary) : Boundary := ⟨names.seed boundary.seed, boundary.depth⟩

namespace Frame

def rename (frame : Frame V) : Frame V :=
  ⟨frame.depth, Callback.rename names frame.sink, frame.boundary.rename names,
    names.slot frame.slot⟩

theorem rename_child (frame : Frame V) (sink : Callback V) (boundary : Option Boundary)
    (slot : SlotId) :
    (frame.child sink boundary slot).rename names =
      (frame.rename names).child (Callback.rename names sink)
        (boundary.map (Boundary.rename names)) (names.slot slot) := by
  cases boundary <;> rfl

@[simp] theorem recorder_rename (frame : Frame V) :
    (frame.rename names).recorder = Callback.rename names frame.recorder := rfl

@[simp] theorem covers_rename (boundary : Boundary) (frame : Frame V) :
    (boundary.rename names).covers (frame.rename names) = boundary.covers frame := by
  unfold Boundary.covers
  congr 1
  rw [Bool.eq_iff_iff, beq_iff_eq, beq_iff_eq]
  exact names.seed_injective.eq_iff

end Frame

/-! Nothing changes where both runs use the same names. -/

mutual

theorem Receiver.rename_same : (receiver : Receiver V) → receiver.rename .same = receiver
  | .slot _ => rfl
  | .tally _ => rfl
  | .collect cell polarity persona callback =>
      congrArg (Receiver.collect cell polarity persona) (Callback.rename_same callback)
  | .announce _ _ => rfl
  | .host _ => rfl

theorem Callback.rename_same : (callback : List (Receiver V)) →
    Callback.rename .same callback = callback
  | [] => rfl
  | receiver :: rest =>
      congrArg₂ List.cons (Receiver.rename_same receiver) (Callback.rename_same rest)

end

theorem Source.rename_same (source : Source V) : source.rename .same = source :=
  congrArg (Source.mk source.persona) (Callback.rename_same source.callback)

theorem Source.map_rename_same (sources : List (Source V)) :
    sources.map (Source.rename .same) = sources :=
  List.map_id'' Source.rename_same sources

theorem Sources.rename_same (sources : Sources V) : sources.rename .same = sources := by
  cases sources with
  | ready sources => exact congrArg Sources.ready (Source.map_rename_same sources)
  | collected cell => rfl

theorem Frame.rename_same (frame : Frame V) : frame.rename .same = frame := by
  unfold Frame.rename
  rw [Callback.rename_same]
  rfl

/-- The heaps hold the same under corresponding names, in slots from `first` on, and allot
corresponding names next. -/
structure Heap.Matches (names : Renaming) (first : SlotId) (h k : Heap V) : Prop where
  begun : first ≤ h.slots.size
  slots : ∀ id, first ≤ id → k.slots[names.slot id]? = h.slots[id]?
  nextSlots : ∀ n, names.slot (h.slots.size + n) = k.slots.size + n
  tallies : ∀ id : TallyId, k.tallies[names.tally id]? = h.tallies[id]?
  nextTallies : ∀ n, names.tally (h.tallies.size + n) = k.tallies.size + n
  cells : ∀ id : CellId, k.cells[names.cell id]? =
    (h.cells[id]?).map fun sources => sources.map (Source.rename names)
  nextCells : ∀ n, names.cell (h.cells.size + n) = k.cells.size + n

namespace Heap

variable {names} {first : SlotId} {h k : Heap V}

theorem Matches.refl (h : Heap V) : h.Matches .same 0 h where
  begun := Nat.zero_le _
  slots _ _ := rfl
  nextSlots _ := rfl
  tallies _ := rfl
  nextTallies _ := rfl
  cells cell := by
    have same : (fun sources : Array (Source V) => sources.map (Source.rename .same)) = id := by
      funext sources
      exact (Array.map_congr_left fun source _ => source.rename_same).trans (Array.map_id sources)
    rw [same]
    exact (Option.map_id_apply ..).symm
  nextCells _ := rfl

theorem lt_size_iff {α β : Type} {read : α → β} {xs : Array α} {ys : Array β} {i j : Nat}
    (same : ys[j]? = (xs[i]?).map read) : j < ys.size ↔ i < xs.size := by
  rw [← not_iff_not, Nat.not_lt, Nat.not_lt, ← Array.getElem?_eq_none_iff,
    ← Array.getElem?_eq_none_iff, same, Option.map_eq_none_iff]

theorem push_matches {α β : Type} {rename : Nat → Nat} (injective : Function.Injective rename)
    (read : α → β) {xs : Array α} {ys : Array β} (next : ∀ n, rename (xs.size + n) = ys.size + n)
    {id : Nat} (same : ys[rename id]? = (xs[id]?).map read) (x : α) :
    (ys.push (read x))[rename id]? = ((xs.push x)[id]?).map read := by
  have last : rename id = ys.size ↔ id = xs.size := by
    rw [← Nat.add_zero ys.size, ← next 0, injective.eq_iff, Nat.add_zero]
  rw [Array.getElem?_push, Array.getElem?_push]
  by_cases this : id = xs.size
  · rw [if_pos this, if_pos (last.mpr this)]
    rfl
  · rw [if_neg this, if_neg fun other => this (last.mp other), same]

theorem Matches.recorded (m : h.Matches names first k) {slot : SlotId} (known : first ≤ slot) :
    k.recorded (names.slot slot) = h.recorded slot := by
  unfold Heap.recorded
  rw [m.slots slot known]

theorem Matches.record (m : h.Matches names first k) (slot : SlotId) (outcome : Outcome) :
    (h.record slot outcome).Matches names first (k.record (names.slot slot) outcome) := by
  unfold Heap.record
  refine { m with begun := ?_, slots := fun id known => ?_, nextSlots := fun n => ?_ }
  · rw [Array.size_setIfInBounds]
    exact m.begun
  · have same := m.slots id known
    rw [Array.getElem?_setIfInBounds, Array.getElem?_setIfInBounds]
    by_cases this : slot = id
    · subst this
      have kept : k.slots[names.slot slot]? = (h.slots[slot]?).map fun held => held := by
        simpa using same
      simp only [lt_size_iff kept, if_true]
    · rw [if_neg this, if_neg fun other => this (names.slot_injective other), same]
  · rw [Array.size_setIfInBounds, Array.size_setIfInBounds]
    exact m.nextSlots n

theorem Matches.newSlot (m : h.Matches names first k) :
    h.newSlot.2.Matches names first k.newSlot.2 := by
  unfold Heap.newSlot
  refine { m with begun := ?_, slots := fun id known => ?_, nextSlots := fun n => ?_ }
  · rw [Array.size_push]
    exact Nat.le_succ_of_le m.begun
  · simpa using push_matches names.slot_injective (fun x => x) m.nextSlots
      (by simpa using m.slots id known) none
  · simpa [Nat.add_assoc] using m.nextSlots (1 + n)

theorem Matches.addToTally (m : h.Matches names first k) (tally : TallyId) (outcome : Outcome) :
    (h.addToTally tally outcome).Matches names first
      (k.addToTally (names.tally tally) outcome) := by
  unfold Heap.addToTally
  refine { m with tallies := fun id => ?_, nextTallies := fun n => ?_ }
  · simp only [Array.getElem?_modify, names.tally_injective.eq_iff, m.tallies]
  · simpa using m.nextTallies n

theorem Matches.newTally (m : h.Matches names first k) :
    h.newTally.2.Matches names first k.newTally.2 := by
  unfold Heap.newTally
  refine { m with tallies := fun id => ?_, nextTallies := fun n => ?_ }
  · simpa using push_matches names.tally_injective (fun x => x) m.nextTallies
      (by simpa using m.tallies id) {}
  · simpa [Nat.add_assoc] using m.nextTallies (1 + n)

theorem Matches.total? (m : h.Matches names first k) (tally : TallyId) :
    k.total? (names.tally tally) = h.total? tally := by
  unfold Heap.total?
  rw [m.tallies]

theorem Matches.collect (m : h.Matches names first k) (cell : CellId) (source : Source V) :
    (h.collect cell source).Matches names first
      (k.collect (names.cell cell) (source.rename names)) := by
  unfold Heap.collect
  refine { m with cells := fun id => ?_, nextCells := fun n => ?_ }
  · simp only [Array.getElem?_modify, names.cell_injective.eq_iff, m.cells]
    split
    · simp [Function.comp_def]
    · rfl
  · simpa using m.nextCells n

theorem Matches.newCell (m : h.Matches names first k) :
    h.newCell.2.Matches names first k.newCell.2 := by
  unfold Heap.newCell
  refine { m with cells := fun id => ?_, nextCells := fun n => ?_ }
  · simpa using push_matches names.cell_injective _ m.nextCells (m.cells id) #[]
  · simpa [Nat.add_assoc] using m.nextCells (1 + n)

theorem Matches.collected (m : h.Matches names first k) (cell : CellId) :
    k.collected (names.cell cell) = (h.collected cell).map (Source.rename names) := by
  unfold Heap.collected
  rw [m.cells]
  cases h.cells[cell]? <;> simp

theorem Matches.emptyCell (m : h.Matches names first k) (cell : CellId) :
    (h.emptyCell cell).Matches names first (k.emptyCell (names.cell cell)) := by
  unfold Heap.emptyCell
  refine { m with cells := fun id => ?_, nextCells := fun n => ?_ }
  · have same := m.cells id
    rw [Array.getElem?_setIfInBounds, Array.getElem?_setIfInBounds]
    by_cases this : cell = id
    · subst this
      simp only [lt_size_iff same, if_true]
      split <;> simp
    · rw [if_neg this, if_neg fun other => this (names.cell_injective other), same]
  · simpa using m.nextCells n

end Heap

end PackEngine
