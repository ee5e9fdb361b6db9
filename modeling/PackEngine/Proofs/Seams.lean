import PackEngine.Proofs.Detachments
import PackEngine.Proofs.Scopes
import PackEngine.Proofs.TwinTargets

/-! Seams of a run. Where the call of one function is over and that of the next one has not begun,
a run is like a fresh run of the next function, but for the names that have been given out and for
the calls that wait below. -/
namespace PackEngine

open Direct Operation Machine

variable {pack : Pack} {setup : Setup} {request : RunRequest} {source : PackSource} {w : World}
  {function : BoundFunction packWords} {rest : List (BoundFunction packWords)} {seed slot : Nat}
  {m n : Machine packWords}

theorem Callback.Hosted.rename {callback : Callback packWords} (hosted : callback.Hosted)
    (names : Renaming) : Callback.rename names callback = callback := by
  rw [Callback.rename_eq_map]
  refine (List.map_congr_left fun receiver member => ?_).trans (List.map_id callback)
  obtain ⟨listener, rfl⟩ := hosted receiver member
  rfl

theorem mem_seedEntries {functions : List (BoundFunction packWords)} {entry : Entry packWords}
    (member : entry ∈ seedEntries source seed slot functions) :
    seed ≤ entry.frame.boundary.seed ∧ entry.frame.boundary.seed < seed + functions.length := by
  induction functions generalizing seed slot with
  | nil => cases member
  | cons function rest ih =>
    rw [List.length_cons]
    cases List.mem_cons.mp member with
    | inl same =>
      subst same
      exact ⟨Nat.le_refl seed, Nat.lt_add_of_pos_right (Nat.succ_pos _)⟩
    | inr member =>
      obtain ⟨after, before⟩ := ih member
      omega

def Renaming.goingOn (first next : Nat) : Nat → Nat
  | 0 => first
  | id + 1 => next + id

theorem Renaming.goingOn_injective {first next : Nat} (less : first < next) :
    Function.Injective (goingOn first next) := by
  intro a b same
  cases a with
  | zero =>
    cases b with
    | zero => rfl
    | succ b =>
      have apart : first = next + b := same
      omega
  | succ a =>
    cases b with
    | zero =>
      have apart : next + a = first := same
      omega
    | succ b =>
      have shifted : next + a = next + b := same
      omega

/-- How the names of a run of one function become those that the function has in a longer run: it
keeps the seed and the slot that it was given, and opens its frames, tallies and cells behind what
is there. -/
def Renaming.onto (n : Machine packWords) (seed others : Nat) {slot : SlotId}
    (known : slot < n.heap.slots.size) : Renaming where
  slot := goingOn slot n.heap.slots.size
  tally id := n.heap.tallies.size + id
  cell id := n.heap.cells.size + id
  seed := goingOn seed (seed + others + 1)
  slot_injective := goingOn_injective known
  tally_injective _ _ same := Nat.add_left_cancel same
  cell_injective _ _ same := Nat.add_left_cancel same
  seed_injective := goingOn_injective (Nat.lt_succ_of_le (Nat.le_add_right seed others))

def Difference.seam (source : PackSource) (n : Machine packWords) (seed : Nat) {slot : SlotId}
    (rest : List (BoundFunction packWords)) (known : slot < n.heap.slots.size) : Difference where
  names := .onto n seed rest.length known
  first := 1
  lower := seedEntries source (seed + 1) (slot + 1) rest
  before := n.setting.journal.toList
  apart entry member id := by
    obtain ⟨after, before⟩ := mem_seedEntries member
    show entry.frame.boundary.seed ≠ Renaming.goingOn seed (seed + rest.length + 1) id
    cases id with
    | zero =>
      show _ ≠ seed
      omega
    | succ id =>
      show _ ≠ seed + rest.length + 1 + id
      omega

namespace RunRequest

theorem opening_room {functions : List (BoundFunction packWords)}
    (fine : (request.opening functions w).overflowed = false) (present : functions ≠ []) :
    0 < request.limits.queue := by
  have first (m : Machine packWords) (function : BoundFunction packWords)
      (rest : List (BoundFunction packWords))
      (fine : (seedAll request.source (function :: rest) m).overflowed = false) :
      0 < m.limits.queue := by
    have called := (seedAll_pending request.source rest fine).1
    unfold Machine.seedCall Machine.seed Machine.enqueue at called
    dsimp only at called
    split at called
    · next full => cases called.symm.trans full
    · split at called
      · cases called
      · next room => exact Nat.lt_of_le_of_lt (Nat.zero_le _) (Nat.lt_of_not_le room)
  cases functions with
  | nil => exact absurd rfl present
  | cons function rest =>
    have seeded : (request.seeds (function :: rest) w).overflowed = false := fine
    unfold RunRequest.seeds at seeded
    cases traced : request.traced with
    | false =>
      rw [traced] at seeded
      exact first _ function rest seeded
    | true =>
      rw [traced] at seeded
      exact first _ function rest seeded

theorem opening_one (function : BoundFunction packWords) (w : World)
    (room : 0 < request.limits.queue) :
    (request.opening [function] w).overflowed = false ∧
      (request.opening [function] w).stack.entries =
        seedEntries request.source 0 0 [function] := by
  have fine : (request.opening [function] w).overflowed = false := by
    show (request.seeds [function] w).overflowed = false
    have found : ¬request.limits.queue ≤ 0 := Nat.not_le_of_lt room
    unfold RunRequest.seeds
    cases request.traced <;>
      simp [PackEngine.seedAll, Machine.seedCall, Machine.seed, Machine.enqueue, Machine.start,
        Machine.queued, Machine.newSlot, Stack.empty, found]
  exact ⟨fine, request.opening_entries [function] w fine⟩

end RunRequest

namespace Machine

theorem seam_heap (known : slot < n.heap.slots.size) :
    Heap.Matches (.onto n seed rest.length known) 1
      ({ slots := Array.replicate 1 none } : Heap packWords) n.heap where
  begun := Nat.le_refl 1
  slots id above := by
    cases id with
    | zero => cases above
    | succ id =>
      show n.heap.slots[n.heap.slots.size + id]? = _
      rw [Array.getElem?_eq_none (Nat.le_add_right _ _)]
      exact (Array.getElem?_eq_none above).symm
  nextSlots i := by
    show Renaming.goingOn slot n.heap.slots.size (1 + i) = n.heap.slots.size + i
    rw [Nat.add_comm 1 i]
    rfl
  tallies id := Array.getElem?_eq_none (Nat.le_add_right _ _)
  nextTallies i := by
    show n.heap.tallies.size + (0 + i) = _
    rw [Nat.zero_add]
  cells id := Array.getElem?_eq_none (Nat.le_add_right _ _)
  nextCells i := by
    show n.heap.cells.size + (0 + i) = _
    rw [Nat.zero_add]

/-- At a seam, a fresh run of the next function is a twin of the longer run. -/
theorem Live.seam (live : Live setup n) (known : slot < n.heap.slots.size)
    (entries : n.stack.entries = seedEntries request.source seed slot (function :: rest))
    (free : n.tracer = none) (hosted : request.source.callback.Hosted)
    (untraced : request.traced = false) (limits : n.limits = request.limits)
    (room : 0 < request.limits.queue) :
    (request.opening [function] n.setting).Abreast
      (.seam request.source n seed rest known) (request.limits.commands - n.quota) n := by
  obtain ⟨scene, tracer, quota, own⟩ := request.opening_start [function] n.setting
  obtain ⟨fine, single⟩ := request.opening_one function n.setting room
  have same : request.source.rename (Difference.seam request.source n seed rest known).names =
      request.source :=
    congrArg (Source.mk request.source.persona) (hosted.rename _)
  have entry : Entry.Twins (.seam request.source n seed rest known)
      ⟨Frame.root 0 Callback.empty 0,
        .call function [.host (.finished function.id)] false request.source⟩
      ⟨Frame.root seed Callback.empty slot,
        .call function [.host (.finished function.id)] false request.source⟩ := by
    have task := Task.Twins.call (d := .seam request.source n seed rest known) function
      [.host (.finished function.id)] false request.source
    rw [same] at task
    exact ⟨rfl, task, fun ends => by cases ends⟩
  have waits : (request.opening [function] n.setting).Waits
      (.seam request.source n seed rest known) n := by
    refine ⟨fine, ⟨[_], entries, ?_⟩, ?_⟩
    · rw [single]
      exact .cons entry .nil
    · rw [live.reached.pending]
      exact .nil
  refine ⟨⟨⟨?_, ?_⟩, ?_, ?_, ?_, fun _ => waits, fun _ _ full => ?_⟩, ?_⟩
  · rw [congrArg Scene.heap scene]
    exact seam_heap known
  · rw [congrArg Scene.setting scene]
    exact .refl rfl
  · rw [limits, own]
  · rw [limits, own]
  · show n.tracer = _
    rw [free, tracer, untraced]
    rfl
  · cases live.unlimited.fine.symm.trans full
  · have solvent := live.solvent
    rw [limits] at solvent
    rw [quota]
    omega

theorem Free.begun {frame : Frame packWords} {lower : List (Entry packWords)}
    (free : n.Free pack) {callback : Callback packWords} {returnCall : Bool}
    (entries : n.stack.entries = ⟨frame, .call function callback returnCall source⟩ :: lower)
    (others : ∀ entry ∈ lower, entry.frame ≠ frame) {turns : Nat}
    (runs : n.Runs (packRules pack) (turns + 1)) :
    ∀ entry ∈ (n.after (packRules pack) (turns + 1)).stack.entries, entry.frame ≠ frame := by
  have known := free.known entries
  have grown := (step_grows (packRules pack) n).slots
  obtain ⟨_, further⟩ := (runs_succ_iff _ turns n).mp runs
  refine (free.step entries).reached.absent (Nat.lt_of_lt_of_le known.known grown) ?_ further
  intro entry member
  cases mem_step free.reached.pending entries member with
  | inl kept => exact others entry kept
  | inr queued =>
    rw [turnOperations_of_entries _ entries] at queued
    have within : entry.frame = _ := operations_within _ _ _ _ _ queued
    intro same
    have slot : n.heap.slots.size = frame.slot := congrArg Frame.slot (within.symm.trans same)
    exact absurd known.known (Nat.not_lt_of_le (Nat.le_of_eq slot))

theorem Free.seam_once {functions : List (BoundFunction packWords)} (free : n.Free pack)
    {last : Nat} (runs : n.Runs (packRules pack) last)
    (ends : (n.after (packRules pack) last).stack.entries = seedEntries source seed slot functions)
    {turns : Nat} (less : turns < last) :
    (n.after (packRules pack) turns).stack.entries ≠ seedEntries source seed slot functions := by
  intro entries
  cases functions with
  | nil => exact verdict?_ne_none entries (runs turns less)
  | cons function rest =>
    -- the top call would have begun at the first time, and its frame would be gone at the second
    obtain ⟨further, rfl⟩ := Nat.exists_eq_add_of_lt less
    rw [Nat.add_assoc] at runs ends
    obtain ⟨before, later⟩ := (runs_add_iff _ turns (further + 1) n).mp runs
    rw [after_add] at ends
    have again : (⟨Frame.root seed Callback.empty slot,
        .call function [.host (.finished function.id)] false source⟩ : Entry packWords) ∈
        ((n.after (packRules pack) turns).after (packRules pack) (further + 1)).stack.entries := by
      rw [ends]
      exact List.mem_cons_self
    refine (free.after before).begun entries (fun entry member => ?_) later _ again rfl
    intro same
    have seeds := (mem_seedEntries member).1
    rw [same] at seeds
    exact Nat.not_succ_le_self seed seeds

structure Alone (pack : Pack) (n m : Machine packWords) (turns : Nat) : Prop where
  runs : n.Runs (packRules pack) turns
  free : (n.after (packRules pack) turns).tracer = none
  alone : m.Runs (packRules pack) turns
  done : (m.after (packRules pack) turns).verdict? = some (.ok ())
  worlds : (m.after (packRules pack) turns).setting = (n.after (packRules pack) turns).setting
  executed : (m.after (packRules pack) turns).executed =
    n.quota - (n.after (packRules pack) turns).quota

theorem Live.to_next (live : Live setup n) (request : RunRequest)
    (together : setup.inTurn = false)
    (entries : n.stack.entries = seedEntries request.source seed slot (function :: rest))
    (free : n.tracer = none) (hosted : request.source.callback.Hosted)
    (untraced : request.traced = false) (limits : n.limits = request.limits)
    (room : 0 < request.limits.queue) :
    ∃ turns, Alone setup.pack n (request.opening [function] n.setting) turns ∧
      (n.after (packRules setup.pack) turns).stack.entries =
        seedEntries request.source (seed + 1) (slot + 1) rest := by
  obtain ⟨turns, exit, runs, evaluates, stack⟩ := carries_call together n.quota
    (Frame.root seed Callback.empty slot) function [.host (.finished function.id)] false
    request.source n _ live (Nat.le_refl _) entries
  cases evalCall_onward evaluates
  have known : slot < n.heap.slots.size := (live.free.known entries).known
  have abreast := live.seam known entries free hosted untraced limits room
  obtain ⟨alone, later⟩ := abreast.after runs
    (fun i less => live.free.seam_once runs stack less) (.inl rfl)
  have fine := (live.after runs).unlimited.fine
  refine ⟨turns, ⟨runs, ?_, alone, later.twins.done fine stack, (later.setting.eq rfl).symm, ?_⟩,
    stack⟩
  · exact ((restores_call setup n.quota).tracer _ _ _ _ _ _ _ _ evaluates).trans free
  · have solvent := live.solvent
    have quota := later.quota
    unfold Machine.executed
    rw [after_limits, (request.opening_start _ _).2.2.2]
    rw [limits] at solvent
    omega

end Machine

end PackEngine
