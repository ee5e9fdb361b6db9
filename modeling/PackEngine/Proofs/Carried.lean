import PackEngine.Proofs.FreeRuns

/-! Evaluations that entries carry. On top of any other work, a run does what the evaluation says
with them, and then goes on with the work below, or with what a return leaves of it. -/
namespace PackEngine

open Direct Operation

structure Machine.Bounded (setup : Setup) (m : Machine packWords) : Prop where
  solvent : m.quota ≤ m.limits.commands
  forks : m.limits.forks = setup.forks

structure Machine.Live (setup : Setup) (m : Machine packWords) : Prop
    extends m.Bounded setup where
  reached : m.Reached (packRules setup.pack) PackTask
  unlimited : m.Unlimited (packRules setup.pack)

def Direct.Exit.remains (b : Boundary) (lower : List (Entry packWords)) :
    Exit → List (Entry packWords)
  | .onward => lower
  | .left => lower.dropWhile fun entry => b.covers entry.frame

def Machine.Settles (setup : Setup) (b : Boundary) (lower : List (Entry packWords))
    (m : Machine packWords) (result : Option (Exit × Play)) : Prop :=
  ∃ n exit, m.Runs (packRules setup.pack) n ∧
    result = some (exit, (m.after (packRules setup.pack) n).play) ∧
    (m.after (packRules setup.pack) n).stack.entries = exit.remains b lower

/-- The entries do what the evaluation says, as long as the quota does not exceed the fuel. -/
def Carries (setup : Setup) (fuel : Nat) (entries : List (Entry packWords)) (b : Boundary)
    (e : Eval) : Prop :=
  ∀ m lower, Machine.Live setup m → m.quota ≤ fuel → m.stack.entries = entries ++ lower →
    m.Settles setup b lower (e m.play)

variable {setup : Setup} {fuel : Nat} {b : Boundary}

namespace Machine

theorem after_limits (rules : Rules packWords) (n : Nat) (m : Machine packWords) :
    (m.after rules n).limits = m.limits := by
  induction n with
  | zero => rfl
  | succ n ih =>
    rw [after_succ, ← ih]
    cases entries : (m.after rules n).stack.entries with
    | nil => rw [step_of_nil rules entries]
    | cons top rest =>
      rw [step_eq_applyAll rules entries]
      exact applyAll_induction (fun operation _ later same =>
        (operation.limits_apply rules later).trans same) rfl

theorem Live.after {m : Machine packWords} (live : Live setup m) {n : Nat}
    (runs : m.Runs (packRules setup.pack) n) :
    Live setup (m.after (packRules setup.pack) n) where
  reached := live.reached.after runs
  unlimited := live.unlimited.after runs
  solvent := by
    rw [after_limits]
    exact Nat.le_trans (after_quota_le _ n m) live.solvent
  forks := by
    rw [after_limits]
    exact live.forks

theorem Live.free {m : Machine packWords} (live : Live setup m) : m.Free setup.pack :=
  ⟨live.reached, live.unlimited⟩

theorem Live.goes {m : Machine packWords} (live : Live setup m) {top : Entry packWords}
    {rest : List (Entry packWords)} (entries : m.stack.entries = top :: rest) :
    m.verdict? = none := live.free.goes entries

theorem Live.step {m : Machine packWords} (live : Live setup m) (goes : m.verdict? = none) :
    Live setup (m.step (packRules setup.pack)) :=
  live.after (n := 1) ((runs_succ_iff _ 0 m).mpr ⟨goes, runs_zero _ _⟩)

section

variable {m : Machine packWords} {top : Entry packWords} {lower : List (Entry packWords)}

theorem Live.step_play (live : Live setup m) (entries : m.stack.entries = top :: lower)
    (enough : costs (m.turnOperations (packRules setup.pack)) ≤ m.quota) :
    (m.step (packRules setup.pack)).play =
        effects setup.pack (m.turnOperations (packRules setup.pack)) m.play ∧
      (m.step (packRules setup.pack)).quota =
        m.quota - costs (m.turnOperations (packRules setup.pack)) := by
  obtain ⟨play, quota, _⟩ :=
    play_applyAll setup.pack (m := m.taking top lower) live.solvent enough
  rw [step_eq_applyAll _ entries]
  exact ⟨play, quota⟩

end

theorem Settles.of_step {m : Machine packWords} {lower : List (Entry packWords)}
    {result : Option (Exit × Play)} (goes : m.verdict? = none)
    (h : (m.step (packRules setup.pack)).Settles setup b lower result) :
    m.Settles setup b lower result := by
  obtain ⟨n, exit, runs, same, stack⟩ := h
  exact ⟨n + 1, exit, (runs_succ_iff _ n m).mpr ⟨goes, runs⟩, same, stack⟩

theorem Settles.confine {m : Machine packWords} {lower : List (Entry packWords)} {e : Eval}
    {p : Play} {inner : Boundary} (h : m.Settles setup inner lower (e p))
    (uncovered : ∀ entry ∈ lower, inner.covers entry.frame = false) :
    m.Settles setup b lower (e.confine p) := by
  obtain ⟨n, exit, runs, same, stack⟩ := h
  refine ⟨n, .onward, runs, ?_, stack.trans ?_⟩
  · unfold Eval.confine
    rw [same]
    rfl
  · cases exit with
    | onward => rfl
    | left =>
      cases lower with
      | nil => rfl
      | cons entry rest =>
        have kept := uncovered entry List.mem_cons_self
        simp only [Exit.remains]
        exact List.dropWhile_cons_of_neg (by simp [kept])

end Machine

open Machine

theorem carries_nil : Carries setup fuel [] b .done :=
  fun m _ _ _ stack => ⟨0, .onward, runs_zero _ m, rfl, stack⟩

theorem Carries.andThen {first second : List (Entry packWords)} {e f : Eval}
    (before : Carries setup fuel first b e) (later : Carries setup fuel second b f)
    (covered : ∀ entry ∈ second, b.covers entry.frame = true) :
    Carries setup fuel (first ++ second) b (e.andThen f) := by
  intro m lower live quota stack
  rw [List.append_assoc] at stack
  obtain ⟨n, exit, runs, same, left⟩ := before m (second ++ lower) live quota stack
  unfold Eval.andThen
  rw [same]
  cases exit with
  | onward =>
    obtain ⟨k, exit, further, ends, last⟩ := later _ lower (live.after runs)
      (Nat.le_trans (after_quota_le _ n m) quota) left
    rw [← after_add] at ends last
    exact ⟨n + k, exit, (runs_add_iff _ n k m).mpr ⟨runs, further⟩, ends, last⟩
  | left =>
    refine ⟨n, .left, runs, rfl, left.trans ?_⟩
    simp only [Exit.remains]
    rw [List.dropWhile_append_of_pos covered]

theorem covers_singleton {frame : Frame packWords} {task : Task packWords}
    (own : frame.boundary.covers frame = true) :
    ∀ entry ∈ [(⟨frame, task⟩ : Entry packWords)], frame.boundary.covers entry.frame = true := by
  intro entry member
  rw [List.mem_singleton.mp member]
  exact own

theorem Carries.cons {entry : Entry packWords} {rest : List (Entry packWords)} {e : Eval}
    {evals : List Eval} (first : Carries setup fuel [entry] b e)
    (others : Carries setup fuel rest b (.each evals))
    (covered : ∀ entry ∈ rest, b.covers entry.frame = true) :
    Carries setup fuel (entry :: rest) b (.each (e :: evals)) := first.andThen others covered

theorem Carries.map {α : Type} {l : List α} {entry : α → Entry packWords} {eval : α → Eval}
    (h : ∀ a ∈ l, Carries setup fuel [entry a] b (eval a))
    (covered : ∀ a ∈ l, b.covers (entry a).frame = true) :
    Carries setup fuel (l.map entry) b (.each (l.map eval)) := by
  induction l with
  | nil => exact carries_nil
  | cons a rest ih =>
    refine (h a List.mem_cons_self).cons (ih ?_ ?_) ?_
    · exact fun other member => h other (List.mem_cons_of_mem a member)
    · exact fun other member => covered other (List.mem_cons_of_mem a member)
    · intro entry member
      obtain ⟨other, present, rfl⟩ := List.mem_map.mp member
      exact covered other (List.mem_cons_of_mem a present)

theorem Direct.Eval.each_append (first second : List Eval) :
    Eval.each (first ++ second) = (Eval.each first).andThen (.each second) := by
  induction first with
  | nil => rfl
  | cons e rest ih =>
    funext p
    simp only [List.cons_append, Eval.each, ih, Eval.andThen]
    cases e p with
    | none => rfl
    | some result =>
      obtain ⟨exit, p⟩ := result
      cases exit <;> rfl

theorem Carries.append {first second : List (Entry packWords)} {evals others : List Eval}
    (before : Carries setup fuel first b (.each evals))
    (later : Carries setup fuel second b (.each others))
    (covered : ∀ entry ∈ second, b.covers entry.frame = true) :
    Carries setup fuel (first ++ second) b (.each (evals ++ others)) := by
  rw [Eval.each_append]
  exact before.andThen later covered

theorem Direct.Eval.each_singleton (e : Eval) : Eval.each [e] = e := by
  funext p
  simp only [Eval.each, Eval.andThen]
  cases e p with
  | none => rfl
  | some result =>
    obtain ⟨exit, p⟩ := result
    cases exit <;> rfl

theorem Carries.single {entry : Entry packWords} {e : Eval} (h : Carries setup fuel [entry] b e) :
    Carries setup fuel [entry] b (.each [e]) := by
  rw [Eval.each_singleton]
  exact h

inductive Leads (setup : Setup) (fuel : Nat) (frame : Frame packWords)
    (operations : List (Operation packWords)) (p : Play) : Option (Exit × Play) → Prop where
  | works {e : Eval} (never : returnsIn operations = [])
      (carries : Carries setup (fuel - costs operations) (queuedIn operations) frame.boundary e) :
      Leads setup fuel frame operations p (e (effects setup.pack operations p))
  | confined {inner : Frame packWords} {e : Eval} (inside : frame.Inside inner)
      (never : returnsIn operations = [])
      (carries : Carries setup (fuel - costs operations) (queuedIn operations) inner.boundary e) :
      Leads setup fuel frame operations p (e.confine (effects setup.pack operations p))
  | returns (found : returnsIn operations ≠ [])
      (own : ∀ returned ∈ returnsIn operations, returned.1 = frame)
      (idle : queuedIn operations = []) :
      Leads setup fuel frame operations p (some (.left, effects setup.pack operations p))

theorem Leads.of_eq {frame : Frame packWords} {operations : List (Operation packWords)} {p : Play}
    {result other : Option (Exit × Play)} (h : Leads setup fuel frame operations p result)
    (same : other = result) : Leads setup fuel frame operations p other := same ▸ h

theorem Leads.of_idle {frame : Frame packWords} {operations : List (Operation packWords)} {p : Play}
    (never : returnsIn operations = []) (idle : queuedIn operations = []) :
    Leads setup fuel frame operations p (some (.onward, effects setup.pack operations p)) :=
  .works (e := .done) never (idle ▸ carries_nil)

theorem Leads.of_return {frame : Frame packWords} {operations : List (Operation packWords)}
    {p : Play} {outcome : Outcome} (once : returnsIn operations = [(frame, outcome)])
    (idle : queuedIn operations = []) :
    Leads setup fuel frame operations p (some (.left, effects setup.pack operations p)) := by
  refine .returns ?_ ?_ idle
  · rw [once]
    exact List.cons_ne_nil _ _
  · rw [once]
    intro returned member
    rw [List.mem_singleton.mp member]

theorem carries_of_leads {frame : Frame packWords} {task : Task packWords} {e : Eval}
    (leads : ∀ m : Machine packWords, frame.boundary.covers frame = true →
      m.Bounded setup →
      costs (m.operations (packRules setup.pack) frame task) ≤ 1 ∧
      Leads setup fuel frame (m.operations (packRules setup.pack) frame task) m.play (e m.play)) :
    Carries setup fuel [⟨frame, task⟩] frame.boundary e := by
  intro m lower live quota stack
  have entries : m.stack.entries = ⟨frame, task⟩ :: lower := stack
  have goes := live.goes entries
  have left := ((verdict?_eq_none_iff m).mp goes).2.2
  have next := live.step goes
  have valid := (live.reached.knows _ (entries ▸ List.mem_cons_self)).valid
  have own : frame.boundary.covers frame = true := by simp [Boundary.covers, valid]
  obtain ⟨cheap, leads⟩ := leads (m.taking ⟨frame, task⟩ lower) own ⟨live.solvent, live.forks⟩
  have turn := turnOperations_of_entries (packRules setup.pack) entries
  dsimp only at turn
  rw [← turn] at cheap leads
  obtain ⟨play, rest⟩ := live.step_play entries (by omega)
  have enough : (m.step (packRules setup.pack)).quota ≤
      fuel - costs (m.turnOperations (packRules setup.pack)) := rest ▸ Nat.sub_le_sub_right quota _
  have start : (m.taking ⟨frame, task⟩ lower).play = m.play := rfl
  rw [start] at leads
  refine Settles.of_step goes ?_
  generalize e m.play = result at leads ⊢
  cases leads with
  | works never carries =>
    rw [← play]
    exact carries _ lower next enough (live.free.step_queued entries never)
  | confined inside never carries =>
    -- nothing below an inner frame is covered by it, so a return in it leaves all of `lower`
    have ordered := live.reached.ordered
    unfold Ordered at ordered
    rw [entries] at ordered
    have below := (List.pairwise_cons.mp ordered).1
    rw [← play]
    refine (carries _ lower next enough (live.free.step_queued entries never)).confine ?_
    exact fun entry member => inside.uncovered (below entry member)
  | returns found own idle =>
    rw [← play]
    exact ⟨0, .left, runs_zero _ _, rfl, live.free.reached.step_dropped entries found own idle⟩

end PackEngine
