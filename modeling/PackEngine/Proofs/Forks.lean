import PackEngine.Playbook.Host
import PackEngine.Proofs.Activations
import PackEngine.Proofs.Arrivals
import PackEngine.Proofs.Leaves

/-! Lines without gates. Their stages are composed as functions on lists are: what one stage makes
of its sources, in order, is what the next one gets. -/
namespace PackEngine

variable {V : Vocabulary}

theorem Modifier.produce?_isSome (rules : Rules V) {modifier : Modifier V}
    (gateless : ∀ gate, modifier.action ≠ .gate gate) : (modifier.produce? rules).isSome = true := by
  unfold produce?
  cases action : modifier.action with
  | gate gate => exact absurd action (gateless gate)
  | _ => rfl

structure Redirected (V : Vocabulary) where
  source : Source V
  result : Except CommandError (List (Source V))

def Redirected.outputs (answer : Redirected V) : List (Source V) :=
  match answer.result with
  | .ok produced => produced
  | .error _ => []

def Redirected.report? (forked : Bool) (answer : Redirected V) : Option (Operation V) :=
  match answer.result with
  | .ok _ => none
  | .error error => some (.report answer.source error forked)

def outputs (answers : List (Redirected V)) : List (Source V) :=
  answers.flatMap Redirected.outputs

def failures (forked : Bool) (answers : List (Redirected V)) : List (Operation V) :=
  answers.filterMap (Redirected.report? forked)

def Flags.over (flags : Flags) (passed : List (Modifier V)) : Flags where
  forked := flags.forked || passed.any (·.flags.forked)
  isReturn := flags.isReturn || passed.any (·.flags.isReturn)

theorem Flags.over_nil (flags : Flags) : flags.over (V := V) [] = flags := by
  simp [Flags.over]

theorem Flags.over_concat (flags : Flags) (passed : List (Modifier V)) (modifier : Modifier V) :
    flags.over (passed ++ [modifier]) = (flags.over passed).union modifier.flags := by
  simp [Flags.over, Flags.union, Bool.or_assoc]

/-- How a stage ends, if `answers` is what it would make of each of its sources: the reports it
makes, and the sources that the next stage gets. Those in `done` have been made before. -/
inductive StageEnds (issuer : Source V) (forked : Bool) (forks : Nat) (done : List (Source V))
    (answers : List (Redirected V)) : List (Operation V) → Option (List (Source V)) → Prop where
  /-- All outputs in order, those of failing sources left out. -/
  | passes (calm : forked = true ∨ failures forked answers = [])
      (few : (done ++ outputs answers).length ≤ forks) :
      StageEnds issuer forked forks done answers (failures forked answers)
        (some (done ++ outputs answers))
  /-- The first failure, where none may be left out. -/
  | fails {before after : List (Redirected V)} {source : Source V} {error : CommandError}
      (unforked : forked = false)
      (place : answers = before ++ ⟨source, .error error⟩ :: after)
      (calm : failures forked before = []) (few : (done ++ outputs before).length ≤ forks) :
      StageEnds issuer forked forks done answers [.report source error forked] none
  /-- The first source whose outputs are too many, together with those before them. -/
  | floods {before after : List (Redirected V)} {source : Source V} {produced : List (Source V)}
      (place : answers = before ++ ⟨source, .ok produced⟩ :: after)
      (calm : forked = true ∨ failures forked before = [])
      (few : (done ++ outputs before).length ≤ forks)
      (many : forks < (done ++ outputs before ++ produced).length) :
      StageEnds issuer forked forks done answers
        (failures forked before ++ [.report issuer (.forkLimitReached forks) forked]) none

theorem StageEnds.cons {issuer : Source V} {forked : Bool} {forks : Nat} {done : List (Source V)}
    {answer : Redirected V} {answers : List (Redirected V)} {reports : List (Operation V)}
    {result : Option (List (Source V))} (calm : forked = true ∨ failures forked [answer] = [])
    (h : StageEnds issuer forked forks (done ++ answer.outputs) answers reports result) :
    StageEnds issuer forked forks done (answer :: answers) (failures forked [answer] ++ reports)
      result := by
  have failing (others : List (Redirected V)) :
      failures forked (answer :: others) = failures forked [answer] ++ failures forked others :=
    List.filterMap_append (l := [answer])
  have becoming (others : List (Redirected V)) :
      done ++ outputs (answer :: others) = done ++ answer.outputs ++ outputs others := by
    simp [outputs]
  have still {others : List (Redirected V)} (later : forked = true ∨ failures forked others = []) :
      forked = true ∨ failures forked (answer :: others) = [] := by
    rw [failing]
    cases calm with
    | inl forked => exact .inl forked
    | inr quiet => exact later.imp id fun nothing => by rw [quiet, nothing]; rfl
  cases h with
  | passes later few =>
    rw [← failing, ← becoming]
    rw [← becoming] at few
    exact .passes (still later) few
  | fails unforked place later few =>
    rw [← becoming] at few
    have quiet := calm.resolve_left (by rw [unforked]; exact Bool.false_ne_true)
    rw [quiet]
    refine .fails unforked (congrArg (answer :: ·) place) ?_ few
    rw [failing, quiet, later]
    rfl
  | floods place later few many =>
    rw [← becoming] at few many
    rw [← List.append_assoc, ← failing]
    exact .floods (congrArg (answer :: ·) place) (still later) few many

theorem StageEnds.uncons {issuer : Source V} {forked : Bool} {forks : Nat}
    {done : List (Source V)} {answer : Redirected V} {answers : List (Redirected V)}
    {reports : List (Operation V)} {result : Option (List (Source V))}
    (h : StageEnds issuer forked forks done (answer :: answers) reports result) :
    ((forked = true ∨ failures forked [answer] = []) ∧
      (done ++ answer.outputs).length ≤ forks ∧ ∃ more,
        reports = failures forked [answer] ++ more ∧
          StageEnds issuer forked forks (done ++ answer.outputs) answers more result) ∨
    result = none ∧
      (forked = false ∧ failures forked [answer] ≠ [] ∧ reports = failures forked [answer] ∨
        forks < (done ++ answer.outputs).length ∧ failures forked [answer] = [] ∧
          reports = [.report issuer (.forkLimitReached forks) forked]) := by
  have failing (others : List (Redirected V)) :
      failures forked (answer :: others) = failures forked [answer] ++ failures forked others :=
    List.filterMap_append (l := [answer])
  have becoming (others : List (Redirected V)) :
      done ++ outputs (answer :: others) = done ++ answer.outputs ++ outputs others := by
    simp [outputs]
  have fewer {others : List (Redirected V)}
      (few : (done ++ outputs (answer :: others)).length ≤ forks) :
      (done ++ answer.outputs).length ≤ forks := by
    rw [becoming, List.length_append] at few
    exact Nat.le_trans (Nat.le_add_right _ _) few
  cases h with
  | passes calm few =>
    refine .inl ⟨calm.imp id fun quiet => ?_, fewer few, failures forked answers,
      failing answers, ?_⟩
    · exact (List.append_eq_nil_iff.mp ((failing answers).symm.trans quiet)).1
    · rw [becoming] at few ⊢
      refine .passes (calm.imp id fun quiet => ?_) few
      exact (List.append_eq_nil_iff.mp ((failing answers).symm.trans quiet)).2
  | @fails before after source error unforked place calm few =>
    cases before with
    | nil =>
      obtain ⟨rfl, rfl⟩ := List.cons.inj place
      exact .inr ⟨rfl, .inl ⟨unforked, List.cons_ne_nil _ _, rfl⟩⟩
    | cons first before =>
      obtain ⟨rfl, rfl⟩ := List.cons.inj place
      rw [failing] at calm
      obtain ⟨own, others⟩ := List.append_eq_nil_iff.mp calm
      refine .inl ⟨.inr own, fewer few, _, by rw [own]; rfl, ?_⟩
      rw [becoming] at few
      exact .fails unforked rfl others few
  | @floods before after source produced place calm few many =>
    cases before with
    | nil =>
      obtain ⟨rfl, rfl⟩ := List.cons.inj place
      refine .inr ⟨rfl, .inr ⟨?_, rfl, rfl⟩⟩
      rwa [show done ++ outputs [] = done from List.append_nil _] at many
    | cons first before =>
      obtain ⟨rfl, rfl⟩ := List.cons.inj place
      rw [failing] at calm
      refine .inl ⟨calm.imp id fun quiet => (List.append_eq_nil_iff.mp quiet).1, fewer few,
        failures forked before ++ [.report issuer (.forkLimitReached forks) forked], ?_, ?_⟩
      · rw [failing before, List.append_assoc]
      · rw [becoming] at few many
        exact .floods rfl (calm.imp id fun quiet => (List.append_eq_nil_iff.mp quiet).2) few many

theorem StageEnds.unique {issuer : Source V} {forked : Bool} {forks : Nat}
    {done : List (Source V)} {answers : List (Redirected V)} {reports others : List (Operation V)}
    {result other : Option (List (Source V))}
    (h : StageEnds issuer forked forks done answers reports result)
    (g : StageEnds issuer forked forks done answers others other) :
    reports = others ∧ result = other := by
  induction answers generalizing done reports others with
  | nil =>
    have only {reports : List (Operation V)} {result : Option (List (Source V))}
        (h : StageEnds issuer forked forks done [] reports result) :
        reports = [] ∧ result = some (done ++ []) := by
      cases h with
      | passes => exact ⟨rfl, rfl⟩
      | fails _ place => simp at place
      | floods place => simp at place
    exact ⟨(only h).1.trans (only g).1.symm, (only h).2.trans (only g).2.symm⟩
  | cons answer answers ih =>
    have clash (calm : forked = true ∨ failures forked [answer] = []) (unforked : forked = false)
        (fails : failures forked [answer] ≠ []) : False :=
      fails (calm.resolve_left (unforked ▸ Bool.false_ne_true))
    obtain ⟨calm, few, more, rfl, later⟩ | ⟨rfl, ends⟩ := h.uncons
    · obtain ⟨_, _, _, rfl, later'⟩ | ⟨_, ⟨unforked, fails, _⟩ | ⟨many, _⟩⟩ := g.uncons
      · obtain ⟨rfl, rfl⟩ := ih later later'
        exact ⟨rfl, rfl⟩
      · exact (clash calm unforked fails).elim
      · exact absurd few (Nat.not_le_of_lt many)
    · obtain ⟨calm, few, _⟩ | ⟨rfl, others⟩ := g.uncons
      · obtain ⟨unforked, fails, _⟩ | ⟨many, _⟩ := ends
        · exact (clash calm unforked fails).elim
        · exact absurd few (Nat.not_le_of_lt many)
      · refine ⟨?_, rfl⟩
        obtain ⟨_, fails, rfl⟩ | ⟨_, fine, rfl⟩ := ends <;>
          obtain ⟨_, fails', rfl⟩ | ⟨_, fine', rfl⟩ := others
        · rfl
        · exact absurd fine' fails
        · exact absurd fine fails'
        · rfl

theorem failures_reports {forked : Bool} {answers : List (Redirected V)} {operation : Operation V}
    (member : operation ∈ failures forked answers) : operation.Reports fun _ => True := by
  obtain ⟨⟨source, result⟩, _, reported⟩ := List.mem_filterMap.mp member
  cases result with
  | ok produced => cases reported
  | error error => exact ⟨source, error, forked, trivial, (Option.some.inj reported).symm⟩

theorem StageEnds.reports {issuer : Source V} {forked : Bool} {forks : Nat}
    {done : List (Source V)} {answers : List (Redirected V)} {reports : List (Operation V)}
    {result : Option (List (Source V))}
    (h : StageEnds issuer forked forks done answers reports result) :
    ∀ operation ∈ reports, operation.Reports fun _ => True := by
  intro operation member
  cases h with
  | passes => exact failures_reports member
  | fails => exact ⟨_, _, _, trivial, List.mem_singleton.mp member⟩
  | floods =>
    cases List.mem_append.mp member with
    | inl member => exact failures_reports member
    | inr member => exact ⟨_, _, _, trivial, List.mem_singleton.mp member⟩

namespace Machine

variable {rules : Rules V} {issuer : Source V}

/-- What a stage makes of each of its sources. A failure is reported before the next source is
looked at. -/
def redirected (rules : Rules V)
    (produce : Source V → V.Setting → Except CommandError (List (Source V))) (forked : Bool) :
    List (Source V) → Machine V → List (Redirected V)
  | [], _ => []
  | source :: rest, m =>
      let answer : Redirected V := ⟨source, produce source m.setting⟩
      answer :: redirected rules produce forked rest
        (Operation.applyAll rules (failures forked [answer]) m)

theorem redirectOperations_ends (rules : Rules V) (issuer : Source V)
    (produce : Source V → V.Setting → Except CommandError (List (Source V))) (forked : Bool)
    (sources : List (Source V)) (done : Array (Source V)) (m : Machine V)
    (few : done.size ≤ m.limits.forks) :
    StageEnds issuer forked m.limits.forks done.toList (m.redirected rules produce forked sources)
      (redirectOperations rules issuer produce forked sources done m)
      (m.redirectAll rules issuer produce forked sources done).1 := by
  induction sources generalizing done m with
  | nil =>
    have ends : StageEnds issuer forked m.limits.forks done.toList [] []
        (some (done.toList ++ outputs [])) := .passes (.inr rfl) (by simpa [outputs] using few)
    rwa [show done.toList ++ outputs [] = done.toList from List.append_nil _] at ends
  | cons source rest ih =>
    unfold redirectOperations redirectAll redirected
    cases answer : produce source m.setting with
    | ok produced =>
      dsimp only
      split
      · next many =>
        refine .floods (List.nil_append _).symm (.inr rfl) ?_ ?_
        · simpa [outputs] using few
        · have most : m.limits.forks < (done ++ produced).toList.length := many
          rw [Array.toList_appendList] at most
          simpa [outputs] using most
      · next few =>
        have later := ih (done ++ produced) m (Nat.le_of_not_lt few)
        rw [Array.toList_appendList] at later
        exact .cons (.inr rfl) later
    | error error =>
      dsimp only
      cases forked with
      | false => exact .fails rfl (List.nil_append _).symm rfl (by simpa [outputs] using few)
      | true =>
        have kept : (m.report rules source error true).limits = m.limits :=
          trace_limits rules _ m
        have later := ih done (m.report rules source error true) (kept ▸ few)
        rw [kept] at later
        refine .cons (.inl rfl) ?_
        rwa [show done.toList ++ Redirected.outputs (V := V) ⟨source, .error error⟩ = done.toList
          from List.append_nil _]

theorem redirectOperations_limits (rules : Rules V) (issuer : Source V)
    (produce : Source V → V.Setting → Except CommandError (List (Source V))) (forked : Bool)
    (sources : List (Source V)) (m : Machine V) :
    (Operation.applyAll rules (redirectOperations rules issuer produce forked sources #[] m)
      m).limits = m.limits := by
  have reports : ∀ operation ∈ redirectOperations rules issuer produce forked sources #[] m,
      operation.Reports fun _ => True :=
    (redirectOperations_reports forked (fun _ _ _ _ _ _ _ => trivial) trivial
      (fun _ _ => trivial) (fun _ _ => trivial) m).1
  refine Operation.applyAll_induction (P := fun later : Machine V => later.limits = m.limits)
    (fun operation member later same => ?_) rfl
  obtain ⟨source, error, forked, _, rfl⟩ := reports operation member
  exact (trace_limits rules _ later).trans same

/-- What the stages ahead make of the sources: the reports, and what becomes of the sources
unless one of the stages ends the line. A stage is forked if it or one that was passed before
is. -/
inductive Composes (rules : Rules V) (issuer : Source V) (flags : Flags) (forks : Nat) :
    (passed ahead : List (Modifier V)) → List (Source V) → Machine V → List (Operation V) →
      Option (List (Source V)) → Prop where
  | done (passed : List (Modifier V)) (sources : List (Source V)) (m : Machine V) :
      Composes rules issuer flags forks passed [] sources m [] (some sources)
  | stops {passed rest : List (Modifier V)} {modifier : Modifier V} {sources : List (Source V)}
      {m : Machine V} {reports : List (Operation V)}
      {produce : Source V → V.Setting → Except CommandError (List (Source V))}
      (stage : modifier.produce? rules = some produce)
      (ends : StageEnds issuer (flags.over (passed ++ [modifier])).forked forks []
        (m.redirected rules produce (flags.over (passed ++ [modifier])).forked sources)
        reports none) :
      Composes rules issuer flags forks passed (modifier :: rest) sources m reports none
  | goes {passed rest : List (Modifier V)} {modifier : Modifier V}
      {sources produced : List (Source V)} {m : Machine V} {reports more : List (Operation V)}
      {result : Option (List (Source V))}
      {produce : Source V → V.Setting → Except CommandError (List (Source V))}
      (stage : modifier.produce? rules = some produce)
      (ends : StageEnds issuer (flags.over (passed ++ [modifier])).forked forks []
        (m.redirected rules produce (flags.over (passed ++ [modifier])).forked sources)
        reports (some produced))
      (later : Composes rules issuer flags forks (passed ++ [modifier]) rest produced
        (Operation.applyAll rules reports m) more result) :
      Composes rules issuer flags forks passed (modifier :: rest) sources m (reports ++ more) result

def finalOperations (rules : Rules V) (frame : Frame V) (chain : Chain V) (flags : Flags)
    (result : Option (List (Source V))) (m : Machine V) : List (Operation V) :=
  match result with
  | none => []
  | some finals => finishOperations rules frame { chain with modifiers := [] } flags finals m

theorem walkOperations_stage (frame : Frame V) (issuer : Source V) (chain : Chain V)
    {modifier : Modifier V} {rest : List (Modifier V)} (flags : Flags) (sources : List (Source V))
    (m : Machine V) {produce : Source V → V.Setting → Except CommandError (List (Source V))}
    (stage : modifier.produce? rules = some produce) :
    walkOperations rules frame issuer chain (modifier :: rest) flags sources m =
      redirectOperations rules issuer produce (flags.union modifier.flags).forked sources #[] m ++
        match m.redirectAll rules issuer produce (flags.union modifier.flags).forked sources #[] with
        | (some sources, m) =>
            walkOperations rules frame issuer chain rest (flags.union modifier.flags) sources m
        | (none, _) => [] := by
  unfold Modifier.produce? at stage
  conv => lhs; unfold walkOperations
  cases action : modifier.action with
  | keep =>
    rw [action] at stage
    cases Option.some.inj stage
    rfl
  | redirect redirect =>
    rw [action] at stage
    cases Option.some.inj stage
    rfl
  | gate gate =>
    rw [action] at stage
    cases stage

theorem walkOperations_composes (rules : Rules V) (frame : Frame V) (issuer : Source V)
    (chain : Chain V) (flags : Flags) (passed ahead : List (Modifier V))
    (gateless : ∀ modifier ∈ ahead, (modifier.produce? rules).isSome = true)
    (sources : List (Source V)) (m : Machine V) :
    ∃ reports result,
      Composes rules issuer flags m.limits.forks passed ahead sources m reports result ∧
      walkOperations rules frame issuer chain ahead (flags.over passed) sources m =
        reports ++ finalOperations rules frame chain (flags.over (passed ++ ahead)) result
          (Operation.applyAll rules reports m) := by
  induction ahead generalizing passed sources m with
  | nil =>
    refine ⟨[], some sources, .done passed sources m, ?_⟩
    rw [List.append_nil]
    rfl
  | cons modifier rest ih =>
    obtain ⟨produce, stage⟩ := Option.isSome_iff_exists.mp (gateless modifier List.mem_cons_self)
    have ends := redirectOperations_ends rules issuer produce
      (flags.over (passed ++ [modifier])).forked sources #[] m (Nat.zero_le _)
    have after := applyAll_redirectOperations rules issuer produce
      (flags.over (passed ++ [modifier])).forked sources #[] m
    have limits := redirectOperations_limits rules issuer produce
      (flags.over (passed ++ [modifier])).forked sources m
    rw [walkOperations_stage frame issuer chain _ sources m stage, ← Flags.over_concat]
    cases result : m.redirectAll rules issuer produce (flags.over (passed ++ [modifier])).forked
        sources #[] with
    | mk produced later =>
      rw [result] at ends after
      cases produced with
      | none =>
        exact ⟨_, none, .stops stage ends, rfl⟩
      | some produced =>
        obtain ⟨more, result, composes, same⟩ := ih (passed ++ [modifier])
          (fun other member => gateless other (List.mem_cons_of_mem _ member)) produced later
        rw [after] at limits
        dsimp only at limits after
        rw [limits, ← after] at composes
        refine ⟨_, result, .goes stage ends composes, ?_⟩
        rw [List.append_assoc, Operation.applyAll_append, after]
        show _ ++ walkOperations rules frame issuer chain rest _ produced later = _
        rw [same, List.append_assoc]
        rfl

theorem Composes.unique {flags : Flags} {forks : Nat} {passed ahead : List (Modifier V)}
    {sources : List (Source V)} {m : Machine V} {reports others : List (Operation V)}
    {result other : Option (List (Source V))}
    (h : Composes rules issuer flags forks passed ahead sources m reports result)
    (g : Composes rules issuer flags forks passed ahead sources m others other) :
    reports = others ∧ result = other := by
  induction h generalizing others with
  | done =>
    cases g
    exact ⟨rfl, rfl⟩
  | stops stage ends =>
    cases g with
    | stops stage' ends' =>
      cases Option.some.inj (stage.symm.trans stage')
      exact ends.unique ends'
    | goes stage' ends' =>
      cases Option.some.inj (stage.symm.trans stage')
      cases (ends.unique ends').2
  | goes stage ends later ih =>
    cases g with
    | stops stage' ends' =>
      cases Option.some.inj (stage.symm.trans stage')
      cases (ends.unique ends').2
    | goes stage' ends' later' =>
      cases Option.some.inj (stage.symm.trans stage')
      obtain ⟨rfl, same⟩ := ends.unique ends'
      cases Option.some.inj same
      obtain ⟨rfl, rfl⟩ := ih later'
      exact ⟨rfl, rfl⟩

theorem Composes.reports {flags : Flags} {forks : Nat} {passed ahead : List (Modifier V)}
    {sources : List (Source V)} {m : Machine V} {reports : List (Operation V)}
    {result : Option (List (Source V))}
    (h : Composes rules issuer flags forks passed ahead sources m reports result) :
    ∀ operation ∈ reports, operation.Reports fun _ => True := by
  induction h with
  | done => exact fun _ member => absurd member List.not_mem_nil
  | stops stage ends => exact ends.reports
  | goes stage ends later ih =>
    exact fun operation member => (List.mem_append.mp member).elim (ends.reports operation)
      (ih operation)

theorem operations_line (rules : Rules V) (frame : Frame V) (issuer : Source V)
    (sources : Sources V) (chain : Chain V) (flags : Flags) (topLevel : Bool) (m : Machine V) :
    m.operations rules frame (.line issuer sources chain flags topLevel) =
      openingOperations frame sources chain topLevel ++
        walkOperations rules frame issuer chain chain.modifiers flags (m.takeSources sources).1
          (Operation.applyAll rules (openingOperations frame sources chain topLevel) m) := by
  cases topLevel with
  | false => cases sources <;> rfl
  | true =>
    cases sources with
    | ready sources => rfl
    | collected cell =>
      unfold operations openingOperations takeSources
      simp only [↓reduceIte, trace_heap]

theorem openingOperations_mundane {frame : Frame V} {sources : Sources V} {chain : Chain V}
    {topLevel : Bool} {operation : Operation V}
    (member : operation ∈ openingOperations frame sources chain topLevel) : operation.Mundane := by
  cases List.mem_append.mp member with
  | inl member =>
    cases topLevel with
    | false => cases member
    | true =>
      rw [List.mem_singleton.mp member]
      trivial
  | inr member =>
    cases sources with
    | ready sources => cases member
    | collected cell =>
      rw [List.mem_singleton.mp member]
      trivial

theorem waits_alike (rules : Rules V) (frame : Frame V) (sources : Sources V) (chain : Chain V)
    (topLevel : Bool) {reports : List (Operation V)}
    (only : ∀ operation ∈ reports, operation.Reports fun _ => True) (m : Machine V) :
    let met := Operation.applyAll rules (openingOperations frame sources chain topLevel ++ reports) m
    met.stack = m.stack ∧ met.pending = m.pending ∧ met.overflowed = m.overflowed := by
  refine Operation.applyAll_induction (P := fun later : Machine V => later.stack = m.stack ∧
    later.pending = m.pending ∧ later.overflowed = m.overflowed)
    (fun operation member later same => ?_) ⟨rfl, rfl, rfl⟩
  have mundane : operation.Mundane := by
    cases List.mem_append.mp member with
    | inr member =>
      obtain ⟨_, _, _, _, rfl⟩ := only operation member
      trivial
    | inl member => exact openingOperations_mundane member
  obtain ⟨stack, pending, overflowed⟩ := mundane.keeps_waiting rules later
  exact ⟨stack.trans same.1, pending.trans same.2.1, overflowed.trans same.2.2⟩

theorem limits_applyAll (rules : Rules V) (operations : List (Operation V)) (m : Machine V) :
    (Operation.applyAll rules operations m).limits = m.limits :=
  Operation.applyAll_induction (P := fun later : Machine V => later.limits = m.limits)
    (fun operation _ later same => (operation.limits_apply rules later).trans same) rfl

theorem queue_notMem_leafOperations (frame : Frame V) (line : LeafLine V) (source : Source V)
    (m : Machine V) (entry : Entry V) :
    .queue entry ∉ leafOperations rules frame line source m := by
  obtain ⟨outcome, tracing, same, only⟩ := leafOperations_eq rules frame line source m
  intro member
  rw [same, List.mem_append, List.mem_append, List.mem_append] at member
  obtain ((member | member) | member) | member := member
  · simp at member
  · obtain ⟨_, other⟩ | ⟨_, _, other⟩ := only _ member <;> cases other
  · simp at member
  · split at member
    · cases List.mem_singleton.mp member
    · cases member

/-- The leaf of a return line runs once, if nothing stops it, and leaves nothing waiting. -/
theorem leaf_of_return {frame : Frame V} {line : LeafLine V} {first : Source V} {m met : Machine V}
    {top : Entry V} {lower : List (Entry V)} (entries : m.stack.entries = top :: lower)
    (stack : met.stack.entries = lower) (idle : met.pending = Stack.empty)
    (stepped : m.step rules = (met.queueLeaves frame line [first]).pushPending)
    (free : m.UnlimitedFor rules 2) :
    m.Runs rules 2 ∧ (m.step rules).stack.entries = ⟨frame, .execute line first⟩ :: lower ∧
      ∀ entry ∈ (m.after rules 2).stack.entries, entry ∈ lower := by
  obtain ⟨goes, later⟩ := free.goes entries
  have pushed : m.step rules = met.withWaiting (⟨frame, .execute line first⟩ :: lower) := by
    rw [stepped] at later ⊢
    rw [← stack]
    exact queueLeaves_pushed idle later
  have next : (m.step rules).stack.entries = ⟨frame, .execute line first⟩ :: lower := by
    rw [pushed]
    rfl
  have bare : (m.step rules).pending = Stack.empty := by
    rw [pushed]
    exact idle
  refine ⟨(runs_succ_iff rules 1 m).mpr ⟨goes, (runs_succ_iff rules 0 _).mpr
    ⟨(later.goes next).1, runs_zero rules _⟩⟩, next, fun entry member => ?_⟩
  refine (mem_step bare next member).resolve_right fun queued => ?_
  rw [turnOperations_of_entries rules next] at queued
  exact queue_notMem_leafOperations frame line first _ entry queued

theorem line_turn (rules : Rules V) {m : Machine V} (idle : m.pending = Stack.empty)
    {frame : Frame V} {issuer : Source V} {sources : Sources V} {chain : Chain V} {flags : Flags}
    {topLevel : Bool} {lower : List (Entry V)}
    (entries : m.stack.entries = ⟨frame, .line issuer sources chain flags topLevel⟩ :: lower)
    (gateless : ∀ modifier ∈ chain.modifiers, ∀ gate, modifier.action ≠ .gate gate) :
    let opening := openingOperations frame sources chain topLevel
    let start := Operation.applyAll rules opening
      (m.taking ⟨frame, .line issuer sources chain flags topLevel⟩ lower)
    ∃ reports result,
      let met := Operation.applyAll rules reports start
      let finals := finalOperations rules frame chain (flags.over chain.modifiers) result met
      Composes rules issuer flags m.limits.forks [] chain.modifiers (m.takeSources sources).1 start
        reports result ∧
      m.turnOperations rules = opening ++ reports ++ finals ∧
      m.step rules = (Operation.applyAll rules finals met).pushPending ∧
      met.stack.entries = lower ∧ met.pending = Stack.empty := by
  intro opening start
  let here := m.taking ⟨frame, .line issuer sources chain flags topLevel⟩ lower
  have stages : ∀ modifier ∈ chain.modifiers, (modifier.produce? rules).isSome = true :=
    fun modifier member => Modifier.produce?_isSome rules (gateless modifier member)
  obtain ⟨reports, result, composes, walks⟩ := walkOperations_composes rules frame issuer
    chain flags [] chain.modifiers stages (m.takeSources sources).1 start
  rw [show start.limits = m.limits from limits_applyAll rules opening here] at composes
  rw [Flags.over_nil] at walks
  let met := Operation.applyAll rules reports start
  have turn : m.turnOperations rules = opening ++ reports ++
      finalOperations rules frame chain (flags.over chain.modifiers) result met := by
    have same : (here.takeSources sources).1 = (m.takeSources sources).1 := by
      cases sources <;> rfl
    rw [turnOperations_of_entries rules entries, operations_line, List.append_assoc, same]
    exact congrArg (opening ++ ·) walks
  have alike : Operation.applyAll rules (opening ++ reports) here = met :=
    Operation.applyAll_append rules opening reports here
  obtain ⟨stack, pending, _⟩ :=
    waits_alike rules frame sources chain topLevel composes.reports here
  rw [show Operation.applyAll rules (openingOperations frame sources chain topLevel ++ reports) here
    = met from alike] at stack pending
  refine ⟨reports, result, composes, turn, ?_, by rw [stack]; rfl, pending.trans idle⟩
  rw [step_eq_applyAll rules entries, turn, Operation.applyAll_append, alike]

/-- Stages compose. What a stage makes of each of its sources is, in order, what the next stage
gets; a source that fails is left out and reported once, or ends the line where no stage so far
is forked, and too many outputs of a stage end it with a report to its issuer. The executable runs
under the sources that are left in the end, in their order. Of a leaf of a return line, only the
first runs. -/
theorem lines_compose (rules : Rules V) {m : Machine V} (idle : m.pending = Stack.empty)
    {frame : Frame V} {issuer : Source V} {sources : Sources V} {chain : Chain V} {flags : Flags}
    {topLevel : Bool} {lower : List (Entry V)}
    (entries : m.stack.entries = ⟨frame, .line issuer sources chain flags topLevel⟩ :: lower)
    (gateless : ∀ modifier ∈ chain.modifiers, ∀ gate, modifier.action ≠ .gate gate) :
    let opening := openingOperations frame sources chain topLevel
    let start := Operation.applyAll rules opening
      (m.taking ⟨frame, .line issuer sources chain flags topLevel⟩ lower)
    let united := flags.over chain.modifiers
    ∃ reports result,
      Composes rules issuer flags m.limits.forks [] chain.modifiers (m.takeSources sources).1 start
        reports result ∧
      m.turnOperations rules = opening ++ reports ++ finalOperations rules frame chain united result
        (Operation.applyAll rules reports start) ∧
      (result = none ∨ result = some [] ∧ united.isReturn = false →
        (m.step rules).stack.entries = lower) ∧
      ∀ finals, result = some finals →
        (∀ action, chain.executable = .action action → finals ≠ [] →
          m.step rules = ((Operation.applyAll rules reports start).actForEach rules frame action
            { chain with modifiers := [] } united finals).pushPending) ∧
        (∀ leaf, chain.executable = .leaf leaf → united.isReturn = false →
          m.UnlimitedFor rules (leafTurns finals.length + 1) →
            m.verdict? = none ∧
            (m.step rules).Executes rules frame ⟨leaf, chain.input, united⟩ lower 2 finals
              (leafTurns finals.length)) ∧
        ∀ leaf first others, chain.executable = .leaf leaf → united.isReturn = true →
          finals = first :: others → m.UnlimitedFor rules 2 →
            m.Runs rules 2 ∧
            (m.step rules).stack.entries =
              ⟨frame, .execute ⟨leaf, chain.input, united⟩ first⟩ :: lower ∧
            ∀ entry ∈ (m.after rules 2).stack.entries, entry ∈ lower := by
  intro opening start united
  obtain ⟨reports, result, composes, turn, stepped, waits, bare⟩ :=
    line_turn rules idle entries gateless
  let met := Operation.applyAll rules reports start
  change met.stack.entries = lower at waits
  change met.pending = Stack.empty at bare
  refine ⟨reports, result, composes, turn, ?_, fun finals left => ?_⟩
  · intro ended
    have nothing : finalOperations rules frame chain united result met = [] := by
      obtain rfl | ⟨rfl, unmarked⟩ := ended
      · rfl
      · unfold finalOperations finishOperations
        rw [unmarked]
        rfl
    rw [stepped, nothing, Operation.applyAll_nil, pushPending_of_idle bare, waits]
  · subst left
    have finishes : m.step rules =
        (met.finishLine rules frame { chain with modifiers := [] } united finals).pushPending := by
      rw [stepped]
      exact congrArg pushPending (applyAll_finishOperations rules frame _ united finals met)
    refine ⟨fun action executes present => ?_, fun leaf executes unmarked free => ?_,
      fun leaf first others executes marked found free => ?_⟩
    · rw [finishes]
      unfold finishLine
      rw [if_neg (by simpa using present), executes]
    · have queues : m.step rules =
          (met.queueLeaves frame ⟨leaf, chain.input, united⟩ finals).pushPending := by
        rw [finishes]
        unfold finishLine
        cases finals <;> simp [executes, unmarked, queueLeaves]
      obtain ⟨goes, later⟩ := free.goes entries
      refine ⟨goes, ?_⟩
      rw [queues] at later ⊢
      rw [← waits]
      exact executes_queueLeaves unmarked bare later
    · refine leaf_of_return entries waits bare ?_ free
      rw [finishes, found]
      unfold finishLine
      simp [executes, marked]

/-- Two names are asked for copies of, and one of them refuses. -/
def refusingLine : Chain Playbook.words :=
  (Playbook.ChainSpec.make "copies"
    [.redirect true (.copies ⟨{ names := ["a", "b"] }, [("mute", { failure := some "refused" })]⟩),
      .redirect false .loud]
    (.leaf ⟨"leaf", ⟨{ value := 1 }, []⟩⟩)).chain

def refusingSources : List (Source Playbook.words) :=
  ["mute", "kind"].map fun name => Playbook.SourceSpec.source { name }

def refusing : Machine Playbook.words :=
  ((start {} ⟨{}, ({} : Playbook.Setting)⟩).seedTask
    (.fork (Playbook.SourceSpec.source { name := "issuer" }) refusingSources refusingLine
      Flags.none)).pushPending

theorem lines_compose_refusing :
    let rules := Playbook.rules ⟨[], []⟩
    let line : LeafLine Playbook.words := ⟨⟨"leaf", ⟨{ value := 1 }, []⟩⟩, "copies", ⟨true, false⟩⟩
    let frame := Frame.root 0 [] 0
    let mute := Playbook.SourceSpec.source { name := "mute" }
    ∃ first second,
      refusing.turnOperations rules =
        [.report mute (.failed "refused") true, .queue ⟨frame, .execute line first⟩,
          .queue ⟨frame, .execute line second⟩] ∧
      (refusing.step rules).Executes rules frame line [] 2 [first, second] 2 := by
  intro rules line frame mute
  obtain ⟨reports, result, composes, turn, _, finishes⟩ :=
    lines_compose rules (m := refusing) rfl rfl (by simp [refusingLine, Playbook.ChainSpec.chain,
      Playbook.StageSpec.modifier, Modifier.fork, Modifier.redirect])
  obtain ⟨rfl, rfl⟩ := composes.unique (.goes rfl (.passes (.inl rfl) (by decide))
    (.goes rfl (.passes (.inr rfl) (by decide)) (.done _ _ _)))
  have runs : refusing.Runs rules 3 := by
    refine (runs_succ_iff _ _ _).mpr ⟨rfl, (runs_succ_iff _ _ _).mpr ⟨rfl, ?_⟩⟩
    exact (runs_succ_iff _ _ _).mpr ⟨rfl, runs_zero _ _⟩
  exact ⟨_, _, turn, ((finishes _ rfl).2.1 _ rfl rfl runs.unlimitedFor).2⟩

end Machine

end PackEngine
