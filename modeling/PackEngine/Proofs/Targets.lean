import PackEngine.Proofs.Grammar

/-! What targets stand for. All members of a pack's tags are functions of the pack, so a tag stands
for one function per member. Every other text names one function, or is refused for one reason. -/
namespace PackEngine

open FunctionId

def FunctionId.Names (text : String) (id : FunctionId) : Prop :=
  Spelled text ∧ id.render = completed text

namespace Pack

def Stores (pack : Pack) (id : FunctionId) (function : FunctionRef packWords) : Prop :=
  ∃ definition, (id, definition) ∈ pack.functions ∧ function = ⟨id, definition.instantiate⟩

inductive Answers (pack : Pack) :
    String → Except CommandError (List (FunctionRef packWords)) → Prop where
  | members {text : String} {tag : FunctionId} {ids : List FunctionId}
      {functions : List (FunctionRef packWords)} (named : Names text tag)
      (stored : (tag, ids) ∈ pack.tags) (filled : ids ≠ [])
      (found : List.Forall₂ pack.Stores ids functions) :
      Answers pack ("#" ++ text) (.ok functions)
  | noMembers {text : String} {tag : FunctionId} (named : Names text tag)
      (stored : (tag, []) ∈ pack.tags) :
      Answers pack ("#" ++ text) (.error (.noFunctions ("#" ++ text)))
  | noTag {text : String} {tag : FunctionId} (named : Names text tag)
      (unknown : tag ∉ pack.tags.map (·.1)) :
      Answers pack ("#" ++ text) (.error (.unknownTag tag))
  | function {text : String} {id : FunctionId} {function : FunctionRef packWords}
      (named : Names text id) (stored : pack.Stores id function) :
      Answers pack text (.ok [function])
  | noFunction {text : String} {id : FunctionId} (named : Names text id)
      (unknown : id ∉ pack.functionIds) :
      Answers pack text (.error (.unknownFunction id))
  | noTagName {text : String} {fault : Fault} (unspelled : ¬Spelled text)
      (refused : parse text = .error fault) :
      Answers pack ("#" ++ text) (.error (.invalidFunctionId fault))
  | noName {text : String} {fault : Fault} (plain : text.toList.head? ≠ some '#')
      (unspelled : ¬Spelled text) (refused : parse text = .error fault) :
      Answers pack text (.error (.invalidFunctionId fault))

section

variable {document : PackDocument} {pack : Pack}

theorem Known.mem {functions : List (FunctionId × FunctionDef)} {texts : List String}
    {ids : List FunctionId} (known : Known functions texts ids) :
    ∀ id ∈ ids, id ∈ functions.map (·.1) := by
  induction known with
  | nil => exact fun _ member => absurd member List.not_mem_nil
  | cons first _ ih => exact List.forall_mem_cons.mpr ⟨first.2, ih⟩

theorem mem_functionIds_of_tag (loads : ofDocument document = .ok pack) {tag : FunctionId}
    {ids : List FunctionId} (stored : (tag, ids) ∈ pack.tags) :
    ∀ id ∈ ids, id ∈ pack.functionIds := by
  have listed := (ofDocument_filed loads).2
  have found := valueAt?_of_mem (listed.keySorted List.Pairwise.nil).nodup stored
  rcases listed.valueAt tag with ⟨texts, others, _, same, known⟩ | ⟨_, unlisted⟩
  · obtain rfl := Option.some.inj (found.symm.trans same)
    exact known.mem
  · cases found.symm.trans unlisted

theorem ref?_eq_some_iff (distinct : pack.functionIds.Nodup) {id : FunctionId}
    {function : FunctionRef packWords} :
    pack.ref? id = some function ↔ pack.Stores id function := by
  constructor
  · intro found
    obtain ⟨definition, defined, rfl⟩ := Option.map_eq_some_iff.mp found
    exact ⟨definition, mem_of_valueAt? defined, rfl⟩
  · rintro ⟨definition, member, rfl⟩
    exact Option.map_eq_some_iff.mpr ⟨definition, valueAt?_of_mem distinct member, rfl⟩

theorem ref?_eq_none_iff {id : FunctionId} : pack.ref? id = none ↔ id ∉ pack.functionIds :=
  Option.map_eq_none_iff.trans valueAt?_eq_none_iff

theorem forall₂_stores_iff (distinct : pack.functionIds.Nodup) {ids : List FunctionId}
    (known : ∀ id ∈ ids, id ∈ pack.functionIds) {functions : List (FunctionRef packWords)} :
    List.Forall₂ pack.Stores ids functions ↔ functions = ids.filterMap pack.ref? := by
  induction ids generalizing functions with
  | nil => simp
  | cons id rest ih =>
    cases found : pack.ref? id with
    | none => exact absurd (known id List.mem_cons_self) (ref?_eq_none_iff.mp found)
    | some function =>
      rw [List.filterMap_cons_some found, List.forall₂_cons_left_iff]
      constructor
      · rintro ⟨first, others, stored, later, rfl⟩
        obtain rfl := Option.some.inj (found.symm.trans ((ref?_eq_some_iff distinct).mpr stored))
        rw [(ih fun other member => known other (List.mem_cons_of_mem id member)).mp later]
      · rintro rfl
        exact ⟨function, _, (ref?_eq_some_iff distinct).mp found,
          (ih fun other member => known other (List.mem_cons_of_mem id member)).mpr rfl, rfl⟩

theorem map_id_of_stores {ids : List FunctionId} {functions : List (FunctionRef packWords)}
    (found : List.Forall₂ pack.Stores ids functions) : functions.map (·.id) = ids := by
  induction found with
  | nil => rfl
  | cons first _ ih =>
    obtain ⟨definition, _, rfl⟩ := first
    rw [List.map_cons, ih]

theorem library_tag? (tag : FunctionId) :
    pack.library.tag? tag = (valueAt? tag pack.tags).map (·.filterMap pack.ref?) := by
  unfold library valueAt?
  rw [Option.map_map]
  rfl

end

end Pack

/-! How targets are resolved. -/

theorem FunctionId.Spelled.hash_notMem {text : String} (spelled : Spelled text) :
    '#' ∉ text.toList := by
  have nowhere {alphabet : List Char} {part : String} (word : Word alphabet part)
      (without : '#' ∉ alphabet) : '#' ∉ part.toList := fun member => without (word.2 _ member)
  cases spelled with
  | short word => exact nowhere word (by decide)
  | full space word =>
    simp [String.toList_append, nowhere space (by decide), nowhere word (by decide)]

theorem FunctionId.Names.plain {text : String} {id : FunctionId} (named : Names text id) :
    text.toList.head? ≠ some '#' :=
  fun first => named.1.hash_notMem (List.mem_of_mem_head? first)

section

variable {V : Vocabulary} (library : Library V)

theorem parseId_eq (text : String) :
    parseId text = match parse text with
      | .error fault => .error (.invalidFunctionId fault)
      | .ok id => .ok id := by
  unfold parseId
  cases parse text <;> rfl

theorem Library.resolve_hash (text : String) :
    library.resolve ("#" ++ text) = match parse text with
      | .error fault => .error (.invalidFunctionId fault)
      | .ok tag => match library.tag? tag with
        | none => .error (.unknownTag tag)
        | some [] => .error (.noFunctions ("#" ++ text))
        | some functions => .ok functions := by
  have target : ("#" ++ text).toList = '#' :: text.toList := by simp [String.toList_append]
  unfold resolve
  simp only [target, String.ofList_toList, parseId_eq]
  cases parse text with
  | error fault => rfl
  | ok tag => rfl

theorem Library.resolve_plain {text : String} (plain : text.toList.head? ≠ some '#') :
    library.resolve text = match parse text with
      | .error fault => .error (.invalidFunctionId fault)
      | .ok id => match library.function? id with
        | none => .error (.unknownFunction id)
        | some function => .ok [function] := by
  unfold resolve
  split
  · next tag target =>
    rw [target] at plain
    exact absurd rfl plain
  · rw [parseId_eq]
    cases parse text with
    | error fault => rfl
    | ok id => rfl

end

namespace Pack

variable {document : PackDocument} {pack : Pack}

theorem Answers.resolves (loads : ofDocument document = .ok pack) {target : String}
    {outcome : Except CommandError (List (FunctionRef packWords))}
    (h : pack.Answers target outcome) : pack.library.resolve target = outcome := by
  have distinct := nodup_functionIds loads
  have tags := ((ofDocument_filed loads).2.keySorted List.Pairwise.nil).nodup
  cases h with
  | @members _ tag ids functions named stored filled found =>
    have same := (forall₂_stores_iff distinct (mem_functionIds_of_tag loads stored)).mp found
    have nonempty : functions ≠ [] := by
      rintro rfl
      cases found
      exact filled rfl
    rw [Library.resolve_hash, parse_eq_ok_iff.mpr named]
    simp only [library_tag?, valueAt?_of_mem tags stored, Option.map_some, ← same]
  | noMembers named stored =>
    rw [Library.resolve_hash, parse_eq_ok_iff.mpr named]
    simp [library_tag?, valueAt?_of_mem tags stored]
  | noTag named unknown =>
    rw [Library.resolve_hash, parse_eq_ok_iff.mpr named]
    simp [library_tag?, valueAt?_eq_none_iff.mpr unknown]
  | function named stored =>
    have found : pack.library.function? _ = some _ := (ref?_eq_some_iff distinct).mpr stored
    rw [Library.resolve_plain _ named.plain, parse_eq_ok_iff.mpr named]
    simp only [found]
  | noFunction named unknown =>
    have found : pack.library.function? _ = none := ref?_eq_none_iff.mpr unknown
    rw [Library.resolve_plain _ named.plain, parse_eq_ok_iff.mpr named]
    simp only [found]
  | noTagName unspelled refused => rw [Library.resolve_hash, refused]
  | noName plain unspelled refused => rw [Library.resolve_plain _ plain, refused]

theorem unspelled_of_refused {text : String} {fault : Fault}
    (refused : parse text = .error fault) : ¬Spelled text := by
  rw [← exists_parse_iff]
  rintro ⟨id, reads⟩
  cases refused.symm.trans reads

theorem exists_answers (loads : ofDocument document = .ok pack) (target : String) :
    ∃ outcome, pack.Answers target outcome := by
  have distinct := nodup_functionIds loads
  by_cases tagged : ∃ text, target = "#" ++ text
  · obtain ⟨text, rfl⟩ := tagged
    cases reads : parse text with
    | error fault => exact ⟨_, .noTagName (unspelled_of_refused reads) reads⟩
    | ok tag =>
      have named : Names text tag := parse_eq_ok_iff.mp reads
      cases found : valueAt? tag pack.tags with
      | none => exact ⟨_, .noTag named (valueAt?_eq_none_iff.mp found)⟩
      | some ids =>
        have stored := mem_of_valueAt? found
        by_cases filled : ids = []
        · subst filled
          exact ⟨_, .noMembers named stored⟩
        · exact ⟨_, .members named stored filled
            ((forall₂_stores_iff distinct (mem_functionIds_of_tag loads stored)).mpr rfl)⟩
  · have plain : target.toList.head? ≠ some '#' := by
      intro first
      obtain ⟨rest, parts⟩ := List.head?_eq_some_iff.mp first
      refine tagged ⟨String.ofList rest, String.toList_inj.mp ?_⟩
      simpa [String.toList_append] using parts
    cases reads : parse target with
    | error fault => exact ⟨_, .noName plain (unspelled_of_refused reads) reads⟩
    | ok id =>
      have named : Names target id := parse_eq_ok_iff.mp reads
      cases found : pack.ref? id with
      | none => exact ⟨_, .noFunction named (ref?_eq_none_iff.mp found)⟩
      | some function => exact ⟨_, .function named ((ref?_eq_some_iff distinct).mp found)⟩

/-- The members of every tag of a pack are functions of the pack, and looking the tag up gives all
of them in order. So what a target is resolved to follows from what the pack lists. -/
theorem targets_resolve (loads : ofDocument document = .ok pack) :
    (∀ entry ∈ pack.tags, (∀ id ∈ entry.2, id ∈ pack.functionIds) ∧
      ∃ functions, pack.library.tag? entry.1 = some functions ∧
        functions.map (·.id) = entry.2) ∧
    ∀ target outcome, pack.library.resolve target = outcome ↔ pack.Answers target outcome := by
  have distinct := nodup_functionIds loads
  have tags := ((ofDocument_filed loads).2.keySorted List.Pairwise.nil).nodup
  refine ⟨?_, fun target outcome => ⟨?_, fun answers => answers.resolves loads⟩⟩
  · rintro ⟨tag, ids⟩ stored
    have known := mem_functionIds_of_tag loads stored
    refine ⟨known, ids.filterMap pack.ref?, ?_, ?_⟩
    · simp only [library_tag?, valueAt?_of_mem tags stored, Option.map_some]
    · exact map_id_of_stores ((forall₂_stores_iff distinct known).mpr rfl)
  · rintro rfl
    obtain ⟨outcome, answers⟩ := exists_answers loads target
    exact answers.resolves loads ▸ answers

/-- A document with a tag that lists a function twice, and one that lists nothing. -/
def twiceListed : PackDocument where
  functions := [("demo:g", { lines := [.null] }), ("f", {})]
  tags := [("all", ["f", "demo:g", "minecraft:f"]), ("none", [])]

def twicePack : Pack := (ofDocument twiceListed).toOption.getD {}

theorem targets_resolve_twice : ofDocument twiceListed = .ok twicePack ∧
    (∃ functions, twicePack.library.resolve "#all" = .ok functions ∧
      functions.map (·.id.render) = ["minecraft:f", "demo:g", "minecraft:f"] ∧
      twicePack.Answers "#all" (.ok functions)) ∧
    twicePack.Answers "#none" (.error (.noFunctions "#none")) := by
  have loads : ofDocument twiceListed = .ok twicePack := rfl
  obtain ⟨_, answers⟩ := targets_resolve loads
  exact ⟨loads, ⟨_, rfl, rfl, (answers "#all" _).mp rfl⟩, (answers "#none" _).mp rfl⟩

end Pack

end PackEngine
