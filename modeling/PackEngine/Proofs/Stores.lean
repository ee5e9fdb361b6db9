import PackEngine.Proofs.Scopes

/-! Store modifiers. The callback of a source grows by one receiver with each store modifier that it
passes on its line, and changes in no other way. -/
namespace PackEngine

open Machine

/-- What a modifier adds to the callback of a source: a store its receiver, for whomever the source
is there, and others nothing. -/
def Modifier.Adds (modifier : Modifier packWords) (own : Callback packWords) : Prop :=
  match modifier.action with
  | .redirect (.store stored holder objective) =>
      ∃ persona : Persona, own = [.host (.score stored (persona.holder holder) objective)]
  | _ => own = []

inductive Callback.Along (base : Callback packWords) :
    List (Modifier packWords) → Callback packWords → Prop where
  | start : Along base [] base
  | pass {passed : List (Modifier packWords)} {modifier : Modifier packWords}
      {callback own : Callback packWords} (before : Along base passed callback)
      (adds : modifier.Adds own) : Along base (passed ++ [modifier]) (callback ++ own)

variable {base : Callback packWords} {passed : List (Modifier packWords)}
  {modifier : Modifier packWords}

theorem Callback.Along.hosted {callback : Callback packWords} (hosted : base.Hosted)
    (h : Along base passed callback) : callback.Hosted := by
  induction h with
  | start => exact hosted
  | @pass _ modifier _ own _ adds ih =>
    intro receiver member
    cases List.mem_append.mp member with
    | inl member => exact ih receiver member
    | inr member =>
      unfold Modifier.Adds at adds
      split at adds
      · obtain ⟨persona, rfl⟩ := adds
        exact ⟨_, List.mem_singleton.mp member⟩
      · rw [adds] at member
        cases member

theorem Callback.Along.eq_base {callback : Callback packWords} (h : Along base [] callback) :
    callback = base := by
  generalize none : [] = passed at h
  cases h with
  | start => rfl
  | pass => simp at none

theorem Callback.Along.pass_nil {callback : Callback packWords} (h : Along base passed callback)
    (adds : modifier.Adds []) : Along base (passed ++ [modifier]) callback :=
  List.append_nil callback ▸ h.pass adds

namespace Machine

theorem mem_redirectAll {V : Vocabulary} {rules : Rules V} {issuer : Source V}
    {produce : Source V → V.Setting → Except CommandError (List (Source V))} {forked : Bool}
    {sources : List (Source V)} {done : Array (Source V)} {m : Machine V}
    {outputs : List (Source V)}
    (redirected : (m.redirectAll rules issuer produce forked sources done).1 = some outputs)
    {output : Source V} (member : output ∈ outputs) :
    output ∈ done.toList ∨ ∃ source ∈ sources, ∃ setting produced,
      produce source setting = .ok produced ∧ output ∈ produced := by
  induction sources generalizing done m with
  | nil =>
    cases Option.some.inj redirected
    exact .inl member
  | cons source rest ih =>
    have later {done : Array (Source V)} {m : Machine V}
        (redirected : (m.redirectAll rules issuer produce forked rest done).1 = some outputs) :
        output ∈ done.toList ∨ ∃ origin ∈ source :: rest, ∃ setting produced,
          produce origin setting = .ok produced ∧ output ∈ produced :=
      (ih redirected).imp_right fun ⟨origin, among, found⟩ =>
        ⟨origin, List.mem_cons_of_mem source among, found⟩
    unfold redirectAll at redirected
    cases produced : produce source m.setting with
    | ok more =>
      simp only [produced] at redirected
      split at redirected
      · cases redirected
      · obtain before | found := later redirected
        · rw [Array.toList_appendList, List.mem_append] at before
          exact before.imp_right fun member =>
            ⟨source, List.mem_cons_self, m.setting, more, produced, member⟩
        · exact .inr found
    | error error =>
      simp only [produced] at redirected
      split at redirected
      · exact later redirected
      · cases redirected

section

variable {V : Vocabulary} {rules : Rules V} {P : List (Modifier V) → Source V → Prop}

theorem carry_passes {issuer : Source V} {modifiers passed : List (Modifier V)} {flags : Flags}
    {sources : List (Source V)} {m : Machine V}
    (passes : ∀ passed, ∀ modifier ∈ modifiers, ∀ produce source setting produced,
      modifier.produce? rules = some produce → P passed source →
        produce source setting = .ok produced → ∀ output ∈ produced,
          P (passed ++ [modifier]) output)
    (starts : ∀ source ∈ sources, P passed source) {arrival : Arrival V}
    (gets : (m.carry rules issuer modifiers flags sources).1 = some arrival) :
    ∃ between, modifiers = between ++ arrival.ahead ∧
      ∀ source ∈ arrival.sources, P (passed ++ between) source := by
  induction modifiers generalizing passed flags sources m with
  | nil =>
    cases Option.some.inj gets
    refine ⟨[], rfl, fun source member => ?_⟩
    rw [List.append_nil]
    exact starts source member
  | cons modifier rest ih =>
    unfold carry at gets
    cases produces : modifier.produce? rules with
    | none =>
      simp only [produces] at gets
      cases Option.some.inj gets
      refine ⟨[], rfl, fun source member => ?_⟩
      rw [List.append_nil]
      exact starts source member
    | some produce =>
      simp only [produces] at gets
      cases redirected : m.redirectAll rules issuer produce
          (flags.union modifier.flags).forked sources #[] with
      | mk outputs later =>
        rw [redirected] at gets
        cases outputs with
        | none => cases gets
        | some outputs =>
          have behind : ∀ output ∈ outputs, P (passed ++ [modifier]) output := by
            intro output member
            obtain before | ⟨source, among, setting, produced, ok, made⟩ :=
              mem_redirectAll (congrArg Prod.fst redirected) member
            · cases before
            · exact passes passed modifier List.mem_cons_self produce source setting produced
                produces (starts source among) ok output made
          obtain ⟨between, split, there⟩ :=
            ih (fun passed other member => passes passed other (.tail _ member)) behind gets
          refine ⟨modifier :: between, congrArg (modifier :: ·) split, fun source member => ?_⟩
          rw [List.append_cons]
          exact there source member

theorem lineSources_fst (rules : Rules V) (frame : Frame V) (sources : Sources V)
    (chain : Chain V) (topLevel : Bool) (m : Machine V) :
    (m.lineSources rules frame sources chain topLevel).1 = (m.takeSources sources).1 := by
  cases sources with
  | ready present => rfl
  | collected cell =>
    cases topLevel with
    | false => rfl
    | true => exact congrArg (·.collected cell) (trace_heap rules _ m)

theorem arrival_passes {m : Machine V} {frame : Frame V} {issuer : Source V} {sources : Sources V}
    {chain : Chain V} {flags : Flags} {topLevel : Bool} {passed : List (Modifier V)}
    {lower : List (Entry V)}
    (entries : m.stack.entries = ⟨frame, .line issuer sources chain flags topLevel⟩ :: lower)
    (passes : ∀ passed, ∀ modifier ∈ chain.modifiers, ∀ produce source setting produced,
      modifier.produce? rules = some produce → P passed source →
        produce source setting = .ok produced → ∀ output ∈ produced,
          P (passed ++ [modifier]) output)
    (starts : ∀ source ∈ (m.takeSources sources).1, P passed source)
    {arrival : Arrival V} (there : m.arrival rules = some arrival) :
    ∃ between, chain.modifiers = between ++ arrival.ahead ∧
      ∀ source ∈ arrival.sources, P (passed ++ between) source := by
  have present : ∀ source ∈ ((m.taking ⟨frame, .line issuer sources chain flags topLevel⟩
      lower).lineSources rules frame sources chain topLevel).1, P passed source := by
    rw [lineSources_fst]
    cases sources <;> exact starts
  unfold Machine.arrival at there
  rw [entries] at there
  exact carry_passes passes present there

end

/-- What a redirect of a pack adds to the callback, and nothing else, is behind it. -/
theorem along_produce {redirect : Redirect} (action : modifier.action = .redirect redirect)
    {source output : PackSource} (h : Callback.Along base passed source.callback) {w : World}
    (member : output ∈ redirect.produce source w) :
    Callback.Along base (passed ++ [modifier]) output.callback := by
  unfold Redirect.produce at member
  cases redirect with
  | entities targets =>
    obtain ⟨_, _, rfl⟩ := List.mem_map.mp member
    exact h.pass_nil (by simp [Modifier.Adds, action])
  | position position =>
    rw [List.mem_singleton.mp member]
    exact h.pass_nil (by simp [Modifier.Adds, action])
  | dimension dimension =>
    rw [List.mem_singleton.mp member]
    exact h.pass_nil (by simp [Modifier.Adds, action])
  | scoreWithin holder objective low high =>
    have same : output = source := by
      simp only at member
      split at member
      · split at member
        · exact List.mem_singleton.mp member
        · cases member
      · cases member
    rw [same]
    exact h.pass_nil (by simp [Modifier.Adds, action])
  | store stored holder objective =>
    rw [List.mem_singleton.mp member]
    refine h.pass ?_
    unfold Modifier.Adds
    rw [action]
    exact ⟨source.persona, rfl⟩

theorem along_arrival {pack : Pack} {m : Machine packWords} {frame : Frame packWords}
    {issuer : PackSource} {sources : Sources packWords} {chain : Chain packWords} {flags : Flags}
    {topLevel : Bool} {lower : List (Entry packWords)}
    (entries : m.stack.entries = ⟨frame, .line issuer sources chain flags topLevel⟩ :: lower)
    (heard : ∀ source ∈ (m.takeSources sources).1, Callback.Along base passed source.callback)
    {arrival : Arrival packWords} (there : m.arrival (packRules pack) = some arrival) :
    ∃ between, chain.modifiers = between ++ arrival.ahead ∧
      ∀ source ∈ arrival.sources, Callback.Along base (passed ++ between) source.callback := by
  refine arrival_passes (P := fun passed source => Callback.Along base passed source.callback)
    entries ?_ heard there
  intro passed modifier _ produce source setting produced produces before ok output member
  unfold Modifier.produce? at produces
  cases action : modifier.action with
  | keep =>
    simp only [action, Option.some.injEq] at produces
    subst produces
    cases Except.ok.inj ok
    rw [List.mem_singleton.mp member]
    exact before.pass_nil (by simp [Modifier.Adds, action])
  | redirect redirect =>
    simp only [action, Option.some.injEq] at produces
    subst produces
    cases Except.ok.inj ok
    exact along_produce action before member
  | gate gate => simp [action] at produces

end Machine

end PackEngine
