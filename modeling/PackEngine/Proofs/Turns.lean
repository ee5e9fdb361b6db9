import PackEngine.Engine.Step

/-! Runs as sequences of turns: the machines that seeding gives, those that a run reaches, and the
verdict of a run as that of the last machine it reaches. -/
namespace PackEngine

variable {V : Vocabulary}

namespace Stack

variable {α : Type}

/-- The size follows from the entries. -/
@[ext] theorem ext {s t : Stack α} (h : s.entries = t.entries) : s = t := by
  obtain ⟨entries, size, size_eq⟩ := s
  obtain ⟨others, count, count_eq⟩ := t
  cases h
  cases size_eq
  cases count_eq
  rfl

theorem pop?_of_entries {s : Stack α} {a : α} {rest : List α} (h : s.entries = a :: rest) :
    s.pop? = some (a, ⟨rest, rest.length, rfl⟩) := by
  obtain ⟨entries, size, size_eq⟩ := s
  cases h
  simp only [pop?, Option.some.injEq, Prod.mk.injEq, true_and]
  ext
  rfl

theorem isEmpty_iff (s : Stack α) : s.isEmpty = true ↔ s.entries = [] := by
  simp [isEmpty, s.size_eq]

end Stack

namespace Machine

def taking (entry : Entry V) (rest : List (Entry V)) (m : Machine V) : Machine V :=
  { m with stack := ⟨rest, rest.length, rfl⟩, depth := entry.frame.depth }

def performed (rules : Rules V) (entry : Entry V) (rest : List (Entry V)) (m : Machine V) :
    Machine V :=
  (m.taking entry rest).perform rules entry.frame entry.task

theorem step_of_entries (rules : Rules V) {m : Machine V} {entry : Entry V}
    {rest : List (Entry V)} (h : m.stack.entries = entry :: rest) :
    m.step rules = (m.performed rules entry rest).pushPending := by
  unfold step
  rw [Stack.pop?_of_entries h]
  rfl

def after (rules : Rules V) : Nat → Machine V → Machine V
  | 0, m => m
  | n + 1, m => after rules n (m.step rules)

def Runs (rules : Rules V) (n : Nat) (m : Machine V) : Prop :=
  ∀ k < n, (m.after rules k).verdict? = none

theorem after_add (rules : Rules V) (n k : Nat) (m : Machine V) :
    m.after rules (n + k) = (m.after rules n).after rules k := by
  induction n generalizing m with
  | zero => rw [Nat.zero_add]; rfl
  | succ n ih =>
    rw [Nat.add_right_comm]
    exact ih _

theorem after_succ (rules : Rules V) (n : Nat) (m : Machine V) :
    m.after rules (n + 1) = (m.after rules n).step rules := after_add rules n 1 m

theorem runs_zero (rules : Rules V) (m : Machine V) : m.Runs rules 0 := by
  intro k h
  omega

theorem runs_succ_iff (rules : Rules V) (n : Nat) (m : Machine V) :
    m.Runs rules (n + 1) ↔ m.verdict? = none ∧ (m.step rules).Runs rules n := by
  constructor
  · intro h
    exact ⟨h 0 (by omega), fun k hk => h (k + 1) (by omega)⟩
  · rintro ⟨first, later⟩ k hk
    cases k with
    | zero => exact first
    | succ k => exact later k (by omega)

theorem forall_after_add {rules : Rules V} {P : Machine V → Prop} {n k : Nat} {m : Machine V}
    (first : ∀ i < n, P (m.after rules i)) (second : ∀ i < k, P ((m.after rules n).after rules i)) :
    ∀ i < n + k, P (m.after rules i) := by
  intro i less
  by_cases early : i < n
  · exact first i early
  · obtain ⟨j, rfl⟩ := Nat.exists_eq_add_of_le (Nat.le_of_not_lt early)
    rw [after_add]
    exact second j (Nat.lt_of_add_lt_add_left less)

theorem runs_add_iff (rules : Rules V) (n k : Nat) (m : Machine V) :
    m.Runs rules (n + k) ↔ m.Runs rules n ∧ (m.after rules n).Runs rules k := by
  constructor
  · intro h
    refine ⟨fun i hi => h i (by omega), fun i hi => ?_⟩
    rw [← after_add]
    exact h (n + i) (by omega)
  · rintro ⟨first, later⟩
    exact forall_after_add (P := fun later => later.verdict? = none) first later

theorem runs_succ_last_iff (rules : Rules V) (n : Nat) (m : Machine V) :
    m.Runs rules (n + 1) ↔ m.Runs rules n ∧ (m.after rules n).verdict? = none := by
  rw [runs_add_iff, runs_succ_iff]
  exact ⟨fun ⟨runs, goes, _⟩ => ⟨runs, goes⟩, fun ⟨runs, goes⟩ => ⟨runs, goes, runs_zero rules _⟩⟩

theorem Runs.mono {rules : Rules V} {n k : Nat} {m : Machine V} (h : m.Runs rules n)
    (le : k ≤ n) : m.Runs rules k := fun i hi => h i (by omega)

theorem Runs.unique {rules : Rules V} {n k : Nat} {m : Machine V} (runs : m.Runs rules n)
    (stops : (m.after rules n).verdict? ≠ none) (further : m.Runs rules k)
    (ends : (m.after rules k).verdict? ≠ none) : n = k := by
  obtain less | same | more := Nat.lt_trichotomy n k
  · exact absurd (further n less) stops
  · exact same
  · exact absurd (runs k more) ends

theorem turn_eq_some_iff (rules : Rules V) (turns : Nat) (m final : Machine V)
    (verdict : Except EngineError Unit) :
    turn rules turns m = some (verdict, final) ↔
      ∃ n < turns, m.Runs rules n ∧ (m.after rules n).verdict? = some verdict ∧
        final = (m.after rules n).close verdict := by
  induction turns generalizing m with
  | zero => simp [turn]
  | succ turns ih =>
    unfold turn
    cases h : m.verdict? with
    | some present =>
      constructor
      · intro same
        cases Option.some.inj same
        exact ⟨0, by omega, runs_zero rules m, h, rfl⟩
      · rintro ⟨n, _, runs, ends, rfl⟩
        cases n with
        | zero =>
          cases h.symm.trans ends
          rfl
        | succ n => cases h.symm.trans (runs 0 (by omega))
    | none =>
      dsimp only
      rw [ih]
      constructor
      · rintro ⟨n, lt, runs, ends, same⟩
        exact ⟨n + 1, by omega, (runs_succ_iff rules n m).mpr ⟨h, runs⟩, ends, same⟩
      · rintro ⟨n, lt, runs, ends, same⟩
        cases n with
        | zero => cases h.symm.trans ends
        | succ n => exact ⟨n, by omega, ((runs_succ_iff rules n m).mp runs).2, ends, same⟩

/-- A machine without a verdict has a task to run, and a command to spend on it. -/
theorem verdict?_eq_none_iff (m : Machine V) :
    m.verdict? = none ↔
      m.overflowed = false ∧ (∃ entry rest, m.stack.entries = entry :: rest) ∧ m.quota ≠ 0 := by
  unfold verdict?
  cases m.overflowed with
  | true => simp
  | false =>
    cases entries : m.stack.entries with
    | nil => simp [(Stack.isEmpty_iff m.stack).mpr entries]
    | cons entry rest =>
      have full : m.stack.isEmpty = false := by
        rw [← Bool.not_eq_true, Stack.isEmpty_iff, entries]
        exact List.cons_ne_nil entry rest
      simp [full]

theorem verdict?_eq_ok_iff (m : Machine V) :
    m.verdict? = some (.ok ()) ↔ m.overflowed = false ∧ m.stack.entries = [] := by
  rw [← Stack.isEmpty_iff]
  unfold verdict?
  cases m.overflowed <;> cases m.stack.isEmpty <;> simp

theorem verdict?_ne_none {m : Machine V} (done : m.stack.entries = []) : m.verdict? ≠ none := by
  intro goes
  obtain ⟨_, ⟨entry, rest, entries⟩, _⟩ := (verdict?_eq_none_iff m).mp goes
  cases done.symm.trans entries

/-- Idle machines and the ways to fill them: tasks of a kind are seeded, and in between the host
may change its setting, its callbacks' heap and the tracer. -/
inductive Seeded (fits : Task V → Prop) : Machine V → Prop where
  | start (limits : Limits) (scene : Scene V) : Seeded fits (start limits scene)
  | seed {m : Machine V} {task : Task V} (sink : Callback V) (fit : fits task)
      (before : Seeded fits m) : Seeded fits (m.seed task sink)
  | meanwhile {m : Machine V} (scene : Scene V) (tracer : Option V.Tracer)
      (grown : m.heap.slots.size ≤ scene.heap.slots.size) (before : Seeded fits m) :
      Seeded fits { m with toScene := scene, tracer := tracer }

def opened (m : Machine V) : Machine V := { m with phase := .running }.pushPending

inductive Reached (rules : Rules V) (fits : Task V → Prop) : Machine V → Prop where
  | opened {m : Machine V} (seeded : Seeded fits m) : Reached rules fits m.opened
  | turn {m : Machine V} (before : Reached rules fits m) (goes : m.verdict? = none) :
      Reached rules fits (m.step rules)

theorem Reached.after {rules : Rules V} {fits : Task V → Prop} {m : Machine V}
    (h : Reached rules fits m) {n : Nat} (runs : m.Runs rules n) :
    Reached rules fits (m.after rules n) := by
  induction n with
  | zero => exact h
  | succ n ih =>
    rw [after_succ]
    exact (ih (runs.mono (by omega))).turn (runs n (by omega))

theorem Seeded.phase {fits : Task V → Prop} {m : Machine V} (h : Seeded fits m) :
    m.phase = .idle := by
  induction h with
  | start => rfl
  | meanwhile scene tracer grown before ih => exact ih
  | seed sink fit before ih => exact (enqueue_phase _ _).trans ih

theorem Reached.pending {rules : Rules V} {fits : Task V → Prop} {m : Machine V}
    (h : Reached rules fits m) : m.pending = Stack.empty := by
  cases h with
  | opened seeded => rfl
  | turn before goes =>
    obtain ⟨_, ⟨entry, rest, entries⟩, _⟩ := (verdict?_eq_none_iff _).mp goes
    rw [step_of_entries rules entries]
    rfl

end Machine

end PackEngine
