import Mathlib.Data.List.Forall2
import PackEngine.Proofs.Openings

/-! Names of functions. A name reads as it is written, so each function that a target names is a
target of its own. -/
namespace PackEngine

namespace FunctionId

theorem splitColon_append {before : List Char} (colonless : ':' ∉ before) (after : List Char) :
    splitColon (before ++ ':' :: after) = some (before, after) := by
  induction before with
  | nil => rfl
  | cons c rest ih =>
    have other : ¬(c == ':') = true := by
      intro same
      rw [beq_iff_eq] at same
      exact colonless (same ▸ List.mem_cons_self)
    rw [List.cons_append, splitColon, if_neg other,
      ih fun member => colonless (List.mem_cons_of_mem c member)]
    rfl

variable (id : FunctionId)

theorem toList_render : id.render.toList = id.nspace.toList ++ ':' :: id.path.toList := by
  simp [render, String.toList_append]

theorem isNamespaceChar_of_mem {c : Char} (member : c ∈ id.nspace.toList) :
    isNamespaceChar c = true := by
  have ok := id.nspace_ok
  unfold isNamespace at ok
  rw [Bool.and_eq_true] at ok
  exact List.all_eq_true.mp ok.2 c member

theorem parse_render : parse id.render = .ok id := by
  have colonless : ':' ∉ id.nspace.toList := fun member => by
    cases id.isNamespaceChar_of_mem member
  unfold parse
  rw [toList_render, splitColon_append colonless]
  simp [make, id.nspace_ok, id.path_ok]

theorem render_ne_hash (rest : List Char) : id.render.toList ≠ '#' :: rest := by
  intro same
  rw [toList_render] at same
  cases parts : id.nspace.toList with
  | nil =>
    rw [parts] at same
    cases same
  | cons c others =>
    rw [parts] at same
    cases same
    have member : '#' ∈ id.nspace.toList := parts ▸ List.mem_cons_self
    cases id.isNamespaceChar_of_mem member

end FunctionId

section

variable {V : Vocabulary} (library : Library V)

theorem Library.resolve_render (id : FunctionId) {function : FunctionRef V}
    (present : library.function? id = some function) :
    library.resolve id.render = .ok [function] := by
  unfold Library.resolve
  split
  · next tag same => exact absurd same (id.render_ne_hash tag)
  · have reads : parseId id.render = .ok id := by
      unfold parseId
      rw [id.parse_render]
      rfl
    simp only [reads, bind, Except.bind, present]
    rfl

theorem Library.resolve_tag {text : String} {tag : FunctionId}
    {functions found : List (FunctionRef V)} (parsed : FunctionId.parse text = .ok tag)
    (members : library.tag? tag = some functions)
    (resolved : library.resolve ("#" ++ text) = .ok found) : found = functions := by
  have target : ("#" ++ text).toList = '#' :: text.toList := by simp [String.toList_append]
  have reads : parseId (String.ofList text.toList) = .ok tag := by
    unfold parseId
    rw [String.ofList_toList, parsed]
    rfl
  unfold Library.resolve at resolved
  simp only [target, reads, bind, Except.bind, members] at resolved
  cases functions with
  | nil => cases resolved
  | cons function rest =>
    cases resolved
    rfl

end

theorem FunctionRef.forall₂_instantiateAll {V : Vocabulary} {arguments : Option Json}
    {functions : List (FunctionRef V)} {bound : List (BoundFunction V)}
    (binds : instantiateAll arguments functions = .ok bound) :
    List.Forall₂ (fun function one => function.instantiate arguments = .ok one)
      functions bound := by
  induction functions generalizing bound with
  | nil =>
    cases binds
    exact .nil
  | cons function rest ih =>
    unfold instantiateAll at binds
    cases first : function.instantiate arguments with
    | error error => simp [first] at binds
    | ok one =>
      cases others : instantiateAll arguments rest with
      | error error => simp [first, others] at binds
      | ok more =>
        simp only [first, others, Except.ok.injEq] at binds
        subst binds
        exact .cons first (ih others)

theorem Pack.function?_of_tag {pack : Pack} {tag : FunctionId}
    {functions : List (FunctionRef packWords)} (members : pack.library.tag? tag = some functions)
    {function : FunctionRef packWords} (member : function ∈ functions) :
    pack.library.function? function.id = some function := by
  obtain ⟨⟨_, ids⟩, _, rfl⟩ := Option.map_eq_some_iff.mp members
  obtain ⟨id, _, found⟩ := List.mem_filterMap.mp member
  have same : function.id = id := by
    obtain ⟨definition, _, rfl⟩ := Option.map_eq_some_iff.mp found
    rfl
  rw [same]
  exact found

end PackEngine
