import Mathlib.Data.List.Forall2
import PackEngine.Proofs.Checks
import PackEngine.Proofs.Loading
import PackEngine.Proofs.Placeholders

/-! What becomes of a function that is bound to arguments. The arguments are looked at first, then
the parameters, then the lines with their placeholders replaced; of these the first that does not
decode is reported. -/
namespace PackEngine

namespace CommandLine

def Compiles (raw : Json) (chain : Chain packWords) : Prop :=
  ∃ line, Decode.commandLine raw = .ok line ∧ line.compile = chain

def FirstInvalid (raws : List Json) (position : Nat) (message : String) : Prop :=
  ∃ before raw after, raws = before ++ raw :: after ∧ before.length = position ∧
    (∀ earlier ∈ before, ∃ line, Decode.commandLine earlier = .ok line) ∧
    ∃ failure, Decode.commandLine raw = .error failure ∧ failure.message = message

theorem not_firstInvalid_nil {position : Nat} {message : String} :
    ¬FirstInvalid [] position message := by
  rintro ⟨before, raw, after, same, -⟩
  simp at same

theorem firstInvalid_cons {raw : Json} {rest : List Json} {position : Nat} {message : String} :
    FirstInvalid (raw :: rest) position message ↔
      (position = 0 ∧
        ∃ failure, Decode.commandLine raw = .error failure ∧ failure.message = message) ∨
      ∃ line earlier, Decode.commandLine raw = .ok line ∧ position = earlier + 1 ∧
        FirstInvalid rest earlier message := by
  constructor
  · rintro ⟨before, broken, after, same, rfl, decode, fails⟩
    cases before with
    | nil =>
      cases same
      exact .inl ⟨rfl, fails⟩
    | cons first before =>
      cases same
      obtain ⟨line, decodes⟩ := decode raw List.mem_cons_self
      exact .inr ⟨line, before.length, decodes, rfl, before, broken, after, rfl, rfl,
        fun earlier member => decode earlier (.tail _ member), fails⟩
  · rintro (⟨rfl, fails⟩ | ⟨line, _, decodes, rfl, before, broken, after, rfl, rfl, decode, fails⟩)
    · exact ⟨[], raw, rest, rfl, rfl, by simp, fails⟩
    · refine ⟨raw :: before, broken, after, rfl, rfl, ?_, fails⟩
      exact List.forall_mem_cons.mpr ⟨⟨line, decodes⟩, decode⟩

theorem compileAll_eq_ok_iff {index : Nat} {raws : List Json} {chains : List (Chain packWords)} :
    compileAll index raws = .ok chains ↔ List.Forall₂ Compiles raws chains := by
  induction raws generalizing index chains with
  | nil => simp [compileAll, eq_comm]
  | cons raw rest ih =>
    unfold compileAll
    cases decodes : Decode.commandLine raw with
    | error failure => simp [List.forall₂_cons_left_iff, Compiles, decodes]
    | ok line =>
      have later (chains : List (Chain packWords)) :
          compileAll (index + 1) rest = .ok chains ↔ List.Forall₂ Compiles rest chains := ih
      cases others : compileAll (index + 1) rest with
      | error error => simp [List.forall₂_cons_left_iff, ← later, others, Except.map]
      | ok compiled =>
        simp [List.forall₂_cons_left_iff, ← later, others, Except.map, Compiles, decodes, eq_comm]

theorem compileAll_eq_error_iff {index : Nat} {raws : List Json} {error : InstantiationError} :
    compileAll index raws = .error error ↔
      ∃ position message, error = .invalidLine (index + position) message ∧
        FirstInvalid raws position message := by
  induction raws generalizing index with
  | nil => simp [compileAll, not_firstInvalid_nil]
  | cons raw rest ih =>
    unfold compileAll
    cases decodes : Decode.commandLine raw with
    | error failure => simp [firstInvalid_cons, decodes, eq_comm]
    | ok line =>
      have passed : (compileAll (index + 1) rest).map (line.compile :: ·) = .error error ↔
          compileAll (index + 1) rest = .error error := by
        cases compileAll (index + 1) rest <;> simp [Except.map]
      simp only [passed, ih, firstInvalid_cons, decodes]
      constructor
      · rintro ⟨position, message, rfl, first⟩
        refine ⟨position + 1, message, ?_, .inr ⟨line, position, rfl, rfl, first⟩⟩
        rw [Nat.add_assoc, Nat.add_comm 1]
      · rintro ⟨_, message, rfl, ⟨-, failure, ⟨⟩, -⟩ | ⟨_, position, -, rfl, first⟩⟩
        refine ⟨position, message, ?_, first⟩
        rw [Nat.add_assoc, Nat.add_comm 1]

end CommandLine

namespace Placeholder

mutual

/-- Without bindings every value stays as it is. -/
@[simp] theorem substitute_nil : ∀ value : Json, substitute [] value = value
  | .null | .bool _ | .num _ | .str _ => rfl
  | .arr items => congrArg Json.arr (substituteItems_nil items)
  | .obj members => congrArg Json.obj (substituteMembers_nil members)

theorem substituteItems_nil : ∀ items : List Json, substituteItems [] items = items
  | [] => rfl
  | item :: rest => by rw [substituteItems, substitute_nil item, substituteItems_nil rest]

theorem substituteMembers_nil : ∀ members : List (String × Json),
    substituteMembers [] members = members
  | [] => rfl
  | (_, item) :: rest => by rw [substituteMembers, substitute_nil item, substituteMembers_nil rest]

end

end Placeholder

def givenMembers : Option Json → List (String × Json)
  | some (.obj members) => members
  | _ => []

def givenKeys (arguments : Option Json) : List String := (givenMembers arguments).map (·.1)

variable {arguments : Option Json}

theorem not_compound_iff : ¬Compound arguments ↔
    ∃ value, arguments = some value ∧ ∀ members, value ≠ .obj members := by
  unfold Compound
  split
  · simp
  · simp
  · next absent other =>
    cases arguments with
    | none => exact absurd rfl absent
    | some value => simpa using fun members same => other members (congrArg some same)

namespace FunctionDef

variable {d : FunctionDef}

def unbound (d : FunctionDef) (arguments : Option Json) : List String :=
  d.params.filter (· ∉ givenKeys arguments)

def filledLines (d : FunctionDef) (arguments : Option Json) : List Json :=
  d.lines.map (Placeholder.substitute (d.bindings (givenMembers arguments)))

theorem missing_eq_unbound (d : FunctionDef) (arguments : Option Json) :
    d.missing (givenMembers arguments) = d.unbound arguments := by
  refine List.filter_congr fun p _ => ?_
  rw [Bool.eq_iff_iff, Option.isNone_iff_eq_none, valueAt?_eq_none_iff, decide_eq_true_iff]
  rfl

theorem boundLines_plain (d : FunctionDef) (empty : d.params = []) (compound : Compound arguments) :
    d.boundLines arguments = .ok d.lines := by
  obtain ⟨given, checked⟩ := compound.checkCompound
  have plain : d.hasParams = false := by
    rw [hasParams, empty]
    rfl
  simp only [boundLines, checked, plain, bind, Except.bind, Bool.false_eq_true, if_false]
  rfl

theorem boundLines_compound (d : FunctionDef) (compound : Compound arguments) :
    d.boundLines arguments =
      if d.unbound arguments = [] then .ok (d.filledLines arguments)
      else .error (.missingArguments (d.unbound arguments)) := by
  by_cases empty : d.params = []
  · have unbound : d.unbound arguments = [] := by rw [FunctionDef.unbound, empty, List.filter_nil]
    have unbinding : d.bindings (givenMembers arguments) = [] := by
      rw [bindings, empty, List.filterMap_nil]
    have filled : d.filledLines arguments = d.lines := by
      rw [filledLines, unbinding, funext Placeholder.substitute_nil, List.map_id']
    rw [if_pos unbound, filled, d.boundLines_plain empty compound]
  · have params : d.hasParams = true := by simpa [hasParams] using empty
    unfold Compound at compound
    split at compound
    · have all : d.unbound none = d.params := by
        simp [FunctionDef.unbound, givenKeys, givenMembers]
      rw [all, if_neg empty]
      simp [boundLines, checkCompound, bind, Except.bind, params, throw, throwThe,
        MonadExceptOf.throw]
    · next members =>
      have missing : d.missing members = _ := d.missing_eq_unbound (some (.obj members))
      simp only [boundLines, checkCompound, bind, Except.bind, params, missing,
        List.isEmpty_iff, if_true]
      rfl
    · exact compound.elim

theorem boundLines_notCompound (d : FunctionDef) {value : Json}
    (other : ∀ members, value ≠ .obj members) :
    d.boundLines (some value) = .error (.notCompound value.kind) := by
  cases value with
  | obj members => exact absurd rfl (other members)
  | _ => rfl

theorem unbound_eq_nil_iff (d : FunctionDef) (arguments : Option Json) :
    d.unbound arguments = [] ↔ ∀ p ∈ d.params, p ∈ givenKeys arguments := by
  simp [unbound, List.filter_eq_nil_iff]

theorem instantiate_cases (d : FunctionDef) (arguments : Option Json) :
    (∃ value, arguments = some value ∧ (∀ members, value ≠ .obj members) ∧
      d.instantiate arguments = .error (.notCompound value.kind)) ∨
    (Compound arguments ∧ d.unbound arguments ≠ [] ∧
      d.instantiate arguments = .error (.missingArguments (d.unbound arguments))) ∨
    (Compound arguments ∧ d.unbound arguments = [] ∧
      d.instantiate arguments = CommandLine.compileAll 1 (d.filledLines arguments)) := by
  by_cases compound : Compound arguments
  · have bound := d.boundLines_compound compound
    by_cases unbound : d.unbound arguments = []
    · rw [if_pos unbound] at bound
      exact .inr (.inr ⟨compound, unbound, by rw [instantiate, bound]⟩)
    · rw [if_neg unbound] at bound
      exact .inr (.inl ⟨compound, unbound, by rw [instantiate, bound]⟩)
  · obtain ⟨value, rfl, other⟩ := not_compound_iff.mp compound
    exact .inl ⟨value, rfl, other, by rw [instantiate, d.boundLines_notCompound other]⟩

theorem instantiate_eq_notCompound_iff {found : String} :
    d.instantiate arguments = .error (.notCompound found) ↔
      ∃ value, arguments = some value ∧ (∀ members, value ≠ .obj members) ∧
        found = value.kind := by
  rcases d.instantiate_cases arguments with
    ⟨value, rfl, other, outcome⟩ | ⟨compound, -, outcome⟩ | ⟨compound, -, outcome⟩
  · simpa [outcome, eq_comm] using fun _ => other
  all_goals
    have refuses : ¬∃ value, arguments = some value ∧ ∀ members, value ≠ .obj members :=
      mt not_compound_iff.mpr (not_not_intro compound)
    rw [outcome]
    refine ⟨fun same => ?_, fun ⟨value, given, other, _⟩ => absurd ⟨value, given, other⟩ refuses⟩
  · cases same
  · simp [CommandLine.compileAll_eq_error_iff] at same

theorem instantiate_eq_missingArguments_iff {names : List String} :
    d.instantiate arguments = .error (.missingArguments names) ↔
      Compound arguments ∧ (∃ p ∈ d.params, p ∉ givenKeys arguments) ∧
        names = d.unbound arguments := by
  rcases d.instantiate_cases arguments with
    ⟨value, rfl, other, outcome⟩ | ⟨compound, unbound, outcome⟩ | ⟨compound, unbound, outcome⟩
  · have refused := not_compound_iff.mpr ⟨value, rfl, other⟩
    simp [outcome, refused]
  · rw [Ne, unbound_eq_nil_iff] at unbound
    push Not at unbound
    simp [outcome, compound, unbound, eq_comm]
  · rw [unbound_eq_nil_iff] at unbound
    have complete : ¬∃ p ∈ d.params, p ∉ givenKeys arguments := by simpa using unbound
    simp [outcome, complete, CommandLine.compileAll_eq_error_iff]

theorem instantiate_lines {outcome : Except InstantiationError (List (Chain packWords))}
    (lines : ∀ reason, outcome = .error reason →
      ∃ line message, reason = .invalidLine line message) :
    d.instantiate arguments = outcome ↔
      Compound arguments ∧ (∀ p ∈ d.params, p ∈ givenKeys arguments) ∧
        CommandLine.compileAll 1 (d.filledLines arguments) = outcome := by
  rw [← unbound_eq_nil_iff]
  rcases d.instantiate_cases arguments with
    ⟨value, rfl, other, bound⟩ | ⟨compound, unbound, bound⟩ | ⟨compound, unbound, bound⟩
  · have refused := not_compound_iff.mpr ⟨value, rfl, other⟩
    rw [bound]
    refine ⟨fun same => ?_, fun ⟨compound, _⟩ => absurd compound refused⟩
    obtain ⟨line, message, ⟨⟩⟩ := lines _ same.symm
  · rw [bound]
    refine ⟨fun same => ?_, fun ⟨_, complete, _⟩ => absurd complete unbound⟩
    obtain ⟨line, message, ⟨⟩⟩ := lines _ same.symm
  · simp [bound, compound, unbound]

/-- Arguments that agree on the parameters fill the lines alike. -/
theorem instantiate_congr (d : FunctionDef) {others : Option Json} (compound : Compound arguments)
    (alike : Compound others)
    (agree : ∀ p ∈ d.params,
      valueAt? p (givenMembers others) = valueAt? p (givenMembers arguments)) :
    d.instantiate others = d.instantiate arguments := by
  have unbound : d.unbound others = d.unbound arguments := by
    rw [← missing_eq_unbound, ← missing_eq_unbound]
    exact List.filter_congr fun p declared => by rw [agree p declared]
  have filled : d.filledLines others = d.filledLines arguments := by
    have bindings : d.bindings (givenMembers others) = d.bindings (givenMembers arguments) :=
      List.filterMap_congr fun p declared => by rw [agree p declared]
    rw [filledLines, filledLines, bindings]
  rw [instantiate, instantiate, d.boundLines_compound compound, d.boundLines_compound alike,
    unbound, filled]

/-- A function is bound to nothing but an object; to that if it has every parameter for a key; and
then if all its lines decode once the placeholders are replaced. What is refused is said as it
stands: the kind of the value, the parameters that are missing in their order, the number of the
first line that does not decode. Keys that are no parameters make no difference. -/
theorem instantiate_outcome (d : FunctionDef) (arguments : Option Json) :
    (∀ found, d.instantiate arguments = .error (.notCompound found) ↔
      ∃ value, arguments = some value ∧ (∀ members, value ≠ .obj members) ∧
        found = value.kind) ∧
    (∀ names, d.instantiate arguments = .error (.missingArguments names) ↔
      Compound arguments ∧ (∃ p ∈ d.params, p ∉ givenKeys arguments) ∧
        names = d.params.filter (· ∉ givenKeys arguments)) ∧
    (∀ line message, d.instantiate arguments = .error (.invalidLine line message) ↔
      Compound arguments ∧ (∀ p ∈ d.params, p ∈ givenKeys arguments) ∧
        ∃ position, line = position + 1 ∧
          CommandLine.FirstInvalid (d.filledLines arguments) position message) ∧
    (∀ chains, d.instantiate arguments = .ok chains ↔
      Compound arguments ∧ (∀ p ∈ d.params, p ∈ givenKeys arguments) ∧
        List.Forall₂ CommandLine.Compiles (d.filledLines arguments) chains) ∧
    (∀ others, Compound arguments → Compound others →
      (∀ p ∈ d.params, valueAt? p (givenMembers others) = valueAt? p (givenMembers arguments)) →
        d.instantiate others = d.instantiate arguments) := by
  refine ⟨fun found => instantiate_eq_notCompound_iff,
    fun names => instantiate_eq_missingArguments_iff, fun line message => ?_, fun chains => ?_,
    fun others compound alike => d.instantiate_congr compound alike⟩
  · rw [instantiate_lines (by simp), CommandLine.compileAll_eq_error_iff]
    simp [Nat.add_comm]
  · rw [instantiate_lines (by simp), CommandLine.compileAll_eq_ok_iff]

def answering : FunctionDef where
  params := ["n"]
  lines := [.obj [("run", .obj [("t", .str "Value"), ("value", .str "$(n)")])]]

theorem filledLines_answering (value : Json) :
    answering.filledLines (some (.obj [("n", value)])) =
      [.obj [("run", .obj [("t", .str "Value"), ("value", value)])]] := by
  simp [filledLines, answering, bindings, givenMembers, valueAt?, Placeholder.substitute,
    Placeholder.substituteMembers, Placeholder.substituteText, Placeholder.replaceIn,
    Placeholder.replaceAll, Placeholder.keyOf]

theorem instantiate_outcome_answering :
    answering.instantiate (some .null) = .error (.notCompound "null") ∧
    answering.instantiate none = .error (.missingArguments ["n"]) ∧
    (∃ message, answering.instantiate (some (.obj [("n", .str "many")])) =
      .error (.invalidLine 1 message)) ∧
    answering.instantiate (some (.obj [("m", .null), ("n", .num (.int 3))])) =
      .ok [CommandLine.compile ⟨[], false, .leaf (.value 3)⟩] := by
  refine ⟨?_, ?_, ?_, ?_⟩
  · exact ((answering.instantiate_outcome (some .null)).1 "null").mpr ⟨.null, rfl, by simp, rfl⟩
  · exact ((answering.instantiate_outcome none).2.1 ["n"]).mpr
      ⟨trivial, ⟨"n", by decide, by decide⟩, rfl⟩
  · have first := filledLines_answering (.str "many")
    have outcome := (answering.instantiate_outcome (some (.obj [("n", .str "many")]))).2.2.1 1
    rw [first] at outcome
    exact ⟨_, (outcome _).mpr
      ⟨trivial, by decide, 0, rfl, [], _, [], rfl, rfl, by simp, _, rfl, rfl⟩⟩
  · have first := filledLines_answering (.num (.int 3))
    have outcome := (answering.instantiate_outcome (some (.obj [("n", .num (.int 3))]))).2.2.2.1
    rw [first] at outcome
    have plain := (outcome [CommandLine.compile ⟨[], false, .leaf (.value 3)⟩]).mpr
      ⟨trivial, by decide, .cons ⟨⟨[], false, .leaf (.value 3)⟩, rfl, rfl⟩ .nil⟩
    rw [← plain]
    exact (answering.instantiate_outcome _).2.2.2.2 _ trivial trivial
      (by simp [answering, givenMembers, valueAt?])

end FunctionDef

end PackEngine
