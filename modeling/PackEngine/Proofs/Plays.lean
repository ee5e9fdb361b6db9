import Mathlib.Algebra.GroupWithZero.Nat
import Mathlib.Data.List.DropRight
import PackEngine.Proofs.Direct

/-! What evaluation in direct style sees of a machine: its scene, its tracer and how much it has
executed. Operations change that as they come, wherever the waiting work is. -/
namespace PackEngine

open Direct

def Machine.play (m : Machine packWords) : Play := ⟨m.toScene, m.tracer, m.executed⟩

def Frame.activation (frame : Frame packWords) : Activation :=
  ⟨frame.depth, frame.sink, frame.slot⟩

namespace Operation

def effect (pack : Pack) (p : Play) : Operation packWords → Play
  | .queue _ => p
  | .returnFrom frame outcome => p.deliver pack frame.sink outcome
  | .record frame outcome => p.record frame.slot outcome
  | .deliver callback outcome => p.deliver pack callback outcome
  | .deliverTally tally callback => p.deliverTally pack tally callback
  | .report source error forked => p.report source error forked
  | .attach tracer => if p.tracer.isSome then p else { p with tracer := some tracer }
  | .detach => { p with tracer := none }
  | .newSlot => p.withHeap p.scene.heap.newSlot.2
  | .newTally => p.withHeap p.scene.heap.newTally.2
  | .newCell => p.withHeap p.scene.heap.newCell.2
  | .collect cell source => p.withHeap (p.scene.heap.collect cell source)
  | .emptyCell cell => p.withHeap (p.scene.heap.emptyCell cell)
  | .charge => p.charge
  | .trace event => p.trace event
  | .update change => p.tell change

def effects (pack : Pack) (operations : List (Operation packWords)) (p : Play) : Play :=
  operations.foldl (effect pack) p

@[simp] theorem effects_nil (pack : Pack) (p : Play) : effects pack [] p = p := rfl

@[simp] theorem effects_cons (pack : Pack) (operation : Operation packWords)
    (rest : List (Operation packWords)) (p : Play) :
    effects pack (operation :: rest) p = effects pack rest (operation.effect pack p) := rfl

@[simp] theorem effects_append (pack : Pack) (first second : List (Operation packWords))
    (p : Play) : effects pack (first ++ second) p = effects pack second (effects pack first p) := by
  simp [effects]

@[simp] theorem effects_queue {α : Type} (pack : Pack) (entry : α → Entry packWords) (l : List α)
    (p : Play) : effects pack (l.map fun a => .queue (entry a)) p = p := by
  induction l with
  | nil => rfl
  | cons a rest ih => exact ih

def cost : Operation packWords → Nat
  | .charge => 1
  | _ => 0

def costs (operations : List (Operation packWords)) : Nat := (operations.map cost).sum

def queuedIn (operations : List (Operation packWords)) : List (Entry packWords) :=
  operations.filterMap queued?

@[simp] theorem queuedIn_append (first second : List (Operation packWords)) :
    queuedIn (first ++ second) = queuedIn first ++ queuedIn second :=
  List.filterMap_append

@[simp] theorem queuedIn_queue {α : Type} (entry : α → Entry packWords) (l : List α) :
    queuedIn (l.map fun a => .queue (entry a)) = l.map entry := by
  simp [queuedIn, queued?, Function.comp_def]

end Operation

namespace Machine

@[simp] theorem play_trace (pack : Pack) (event : TraceEvent) (m : Machine packWords) :
    (m.trace (packRules pack) event).play = m.play.trace event := by
  unfold trace Play.trace
  cases traced : m.tracer with
  | none => simp [play, traced]
  | some tracer => simp [play, traced, packRules, Play.tell, executed]

end Machine

theorem Operation.limits_apply {V : Vocabulary} (rules : Rules V) (operation : Operation V)
    (m : Machine V) : (operation.apply rules m).limits = m.limits := by
  cases operation with
  | queue entry => exact m.enqueue_limits entry
  | report source error forked => exact m.trace_limits rules (.error error.message)
  | trace event => exact m.trace_limits rules event
  | attach tracer =>
    simp only [apply]
    split <;> rfl
  | _ => rfl

theorem Operation.play_apply (pack : Pack) (operation : Operation packWords)
    {m : Machine packWords} (solvent : m.quota ≤ m.limits.commands)
    (enough : operation.cost ≤ m.quota) :
    (operation.apply (packRules pack) m).play = operation.effect pack m.play ∧
      (operation.apply (packRules pack) m).quota = m.quota - operation.cost := by
  cases operation with
  | queue entry =>
    obtain ⟨_, _, same⟩ := m.enqueue_eq entry
    simp only [apply, same]
    exact ⟨rfl, rfl⟩
  | report source error forked =>
    refine ⟨?_, m.trace_quota _ (.error error.message)⟩
    show Play.tell (m.trace (packRules pack) (.error error.message)).play _ = _
    rw [Machine.play_trace]
    rfl
  | trace event => exact ⟨Machine.play_trace pack event m, m.trace_quota _ event⟩
  | attach tracer =>
    simp only [apply, effect]
    split
    · next attached => exact ⟨(if_pos attached).symm, rfl⟩
    · next free => exact ⟨(if_neg free).symm, rfl⟩
  | charge =>
    refine ⟨?_, rfl⟩
    have charged : m.limits.commands - (m.quota - 1) = m.limits.commands - m.quota + 1 := by
      have spent : 1 ≤ m.quota := enough
      omega
    simp only [apply, effect, Machine.play, Play.charge, Machine.charge, Machine.executed, charged]
  | _ => exact ⟨rfl, rfl⟩

theorem Operation.play_applyAll (pack : Pack) {operations : List (Operation packWords)}
    {m : Machine packWords} (solvent : m.quota ≤ m.limits.commands)
    (enough : costs operations ≤ m.quota) :
    (applyAll (packRules pack) operations m).play = effects pack operations m.play ∧
      (applyAll (packRules pack) operations m).quota = m.quota - costs operations ∧
      (applyAll (packRules pack) operations m).limits = m.limits := by
  induction operations generalizing m with
  | nil => exact ⟨rfl, rfl, rfl⟩
  | cons operation rest ih =>
    have split : costs (operation :: rest) = operation.cost + costs rest := rfl
    obtain ⟨play, quota⟩ := operation.play_apply pack solvent (by omega)
    have limits := operation.limits_apply (packRules pack) m
    obtain ⟨plays, quotas, same⟩ := ih (m := operation.apply (packRules pack) m)
      (by rw [quota, limits]; omega) (by omega)
    refine ⟨?_, ?_, same.trans limits⟩
    · rw [applyAll_cons, plays, play]
      rfl
    · rw [applyAll_cons, quotas, quota]
      omega

theorem Operation.staged_applyAll {rules : Rules packWords}
    {operations : List (Operation packWords)} (never : returnsIn operations = [])
    {m : Machine packWords} (fine : (applyAll rules operations m).overflowed = false) :
    m.overflowed = false ∧ (applyAll rules operations m).stack = m.stack ∧
      (applyAll rules operations m).pending.entries =
        (queuedIn operations).reverse ++ m.pending.entries := by
  induction operations generalizing m with
  | nil => exact ⟨fine, rfl, rfl⟩
  | cons operation rest ih =>
    have mundane (quiet : operation.Mundane) (later : returnsIn rest = [])
        (silent : operation.queued? = none) : m.overflowed = false ∧
          (applyAll rules (operation :: rest) m).stack = m.stack ∧
          (applyAll rules (operation :: rest) m).pending.entries =
            (queuedIn (operation :: rest)).reverse ++ m.pending.entries := by
      obtain ⟨stack, pending, overflowed⟩ := quiet.keeps_waiting rules m
      obtain ⟨free, stands, staged⟩ := ih later fine
      unfold queuedIn
      rw [overflowed] at free
      rw [List.filterMap_cons_none silent]
      exact ⟨free, stands.trans stack, staged.trans (congrArg (_ ++ Stack.entries ·) pending)⟩
    cases operation with
    | returnFrom frame outcome => cases never
    | queue entry =>
      obtain ⟨free, stands, staged⟩ := ih never fine
      have queued : m.overflowed = false ∧ (m.enqueue entry).stack = m.stack ∧
          (m.enqueue entry).pending.entries = entry :: m.pending.entries := by
        change (m.enqueue entry).overflowed = false at free
        revert free
        unfold Machine.enqueue
        split
        · next full => exact fun free => absurd (full.symm.trans free) (by simp)
        · next free =>
          split
          · exact fun full => absurd full (by simp)
          · exact fun _ => ⟨Bool.eq_false_iff.mpr free, rfl, rfl⟩
      refine ⟨queued.1, stands.trans queued.2.1, ?_⟩
      rw [applyAll_cons, staged]
      show _ ++ (m.enqueue entry).pending.entries = _
      rw [queued.2.2]
      simp [queuedIn, queued?]
    | _ => exact mundane trivial never rfl

theorem Operation.dropped_applyAll {rules : Rules packWords}
    {operations : List (Operation packWords)} {frame : Frame packWords}
    (idle : queuedIn operations = []) (own : ∀ returned ∈ returnsIn operations, returned.1 = frame)
    {m : Machine packWords} (empty : m.pending = Stack.empty) :
    (applyAll rules operations m).pending = Stack.empty ∧
      (applyAll rules operations m).stack.entries =
        if returnsIn operations = [] then m.stack.entries
        else m.stack.entries.dropWhile fun entry => frame.boundary.covers entry.frame := by
  induction operations generalizing m with
  | nil => exact ⟨empty, rfl⟩
  | cons operation rest ih =>
    have mundane (quiet : operation.Mundane) (later : queuedIn rest = [])
        (silent : operation.returned? = none) :
        (applyAll rules (operation :: rest) m).pending = Stack.empty ∧
          (applyAll rules (operation :: rest) m).stack.entries =
            if returnsIn (operation :: rest) = [] then m.stack.entries
            else m.stack.entries.dropWhile fun entry => frame.boundary.covers entry.frame := by
      obtain ⟨stack, pending, _⟩ := quiet.keeps_waiting rules m
      have same : returnsIn (operation :: rest) = returnsIn rest := List.filterMap_cons_none silent
      rw [same] at own ⊢
      rw [← stack]
      exact ih later own (pending.trans empty)
    cases operation with
    | queue entry => cases idle
    | returnFrom other outcome =>
      have found : returnsIn (.returnFrom other outcome :: rest) =
          (other, outcome) :: returnsIn rest := rfl
      rw [found] at own ⊢
      have same : other = frame := own _ List.mem_cons_self
      subst same
      have gone : (m.returnFrom rules other outcome).pending = Stack.empty := by
        unfold Machine.returnFrom Machine.discard Machine.deliver
        dsimp only
        rw [empty]
        rfl
      obtain ⟨staged, stands⟩ :=
        ih idle (fun returned member => own returned (List.mem_cons_of_mem _ member)) gone
      refine ⟨staged, stands.trans ?_⟩
      have dropped : (m.returnFrom rules other outcome).stack.entries =
          m.stack.entries.dropWhile fun entry => other.boundary.covers entry.frame := rfl
      rw [dropped, if_neg (List.cons_ne_nil _ _)]
      split
      · rfl
      · exact List.dropWhile_idempotent _ _
    | _ => exact mundane trivial idle rfl

end PackEngine
