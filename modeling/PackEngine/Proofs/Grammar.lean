import PackEngine.Proofs.Loading

/-! The grammar of function names. A text is accepted as a name if it is a path, or a namespace and
a path with a colon between them. Each name is written in full in one way, and reads as it is
written. -/
namespace PackEngine

namespace FunctionId

def Word (alphabet : List Char) (text : String) : Prop :=
  text ≠ "" ∧ ∀ c ∈ text.toList, c ∈ alphabet

def namespaceAlphabet : List Char :=
  ['a', 'b', 'c', 'd', 'e', 'f', 'g', 'h', 'i', 'j', 'k', 'l', 'm', 'n', 'o', 'p', 'q', 'r', 's',
    't', 'u', 'v', 'w', 'x', 'y', 'z', '0', '1', '2', '3', '4', '5', '6', '7', '8', '9', '_', '.',
    '-']

def pathAlphabet : List Char := '/' :: namespaceAlphabet

inductive Spelled : String → Prop where
  | short {path : String} (word : Word pathAlphabet path) : Spelled path
  | full {nspace path : String} (space : Word namespaceAlphabet nspace)
      (word : Word pathAlphabet path) : Spelled (nspace ++ ":" ++ path)

/-- A name in full, from a text that is one. -/
def completed (text : String) : String := if ':' ∈ text.toList then text else inFull text

/-! Words. -/

theorem mem_namespaceAlphabet_iff {c : Char} :
    c ∈ namespaceAlphabet ↔ isNamespaceChar c = true := by
  have letters : ∀ i < 26, Char.ofNat (97 + i) ∈ namespaceAlphabet := by decide
  have digits : ∀ i < 10, Char.ofNat (48 + i) ∈ namespaceAlphabet := by decide
  constructor
  · have listed : namespaceAlphabet.all isNamespaceChar = true := rfl
    exact List.all_eq_true.mp listed c
  · simp only [isNamespaceChar, Bool.or_eq_true, Bool.and_eq_true, decide_eq_true_eq, beq_iff_eq,
      Char.le_def, UInt32.le_iff_toNat_le]
    rintro ((((⟨low, high⟩ | ⟨low, high⟩) | rfl) | rfl) | rfl)
    · have low : 97 ≤ c.toNat := low
      have high : c.toNat ≤ 122 := high
      have member := letters (c.toNat - 97) (by omega)
      rwa [Nat.add_sub_of_le low, Char.ofNat_toNat] at member
    · have low : 48 ≤ c.toNat := low
      have high : c.toNat ≤ 57 := high
      have member := digits (c.toNat - 48) (by omega)
      rwa [Nat.add_sub_of_le low, Char.ofNat_toNat] at member
    all_goals decide

theorem mem_pathAlphabet_iff {c : Char} : c ∈ pathAlphabet ↔ isPathChar c = true := by
  rw [pathAlphabet, isPathChar, List.mem_cons, mem_namespaceAlphabet_iff, Bool.or_eq_true,
    beq_iff_eq, or_comm]

theorem word_iff {alphabet : List Char} {allowed : Char → Bool}
    (same : ∀ c, c ∈ alphabet ↔ allowed c = true) {text : String} :
    Word alphabet text ↔ (!text.toList.isEmpty && text.toList.all allowed) = true := by
  simp [Word, same]

theorem isNamespace_iff {text : String} :
    isNamespace text = true ↔ Word namespaceAlphabet text :=
  (word_iff fun _ => mem_namespaceAlphabet_iff).symm

theorem isPath_iff {text : String} : isPath text = true ↔ Word pathAlphabet text :=
  (word_iff fun _ => mem_pathAlphabet_iff).symm

theorem Word.colon_notMem {alphabet : List Char} {text : String} (word : Word alphabet text)
    (without : ':' ∉ alphabet) : ':' ∉ text.toList := fun member => without (word.2 _ member)

/-! Reading. -/

theorem splitColon_eq_none_iff {text : List Char} : splitColon text = none ↔ ':' ∉ text := by
  induction text with
  | nil => simp [splitColon]
  | cons c rest ih =>
    by_cases colon : c = ':'
    · simp [splitColon, colon]
    · simp [splitColon, colon, ih, Ne.symm colon]

theorem make_eq_ok_iff {nspace path : String} {id : FunctionId} :
    make nspace path = .ok id ↔ id.nspace = nspace ∧ id.path = path := by
  constructor
  · intro made
    obtain ⟨rfl, rfl⟩ := eq_of_make made
    exact ⟨rfl, rfl⟩
  · rintro ⟨rfl, rfl⟩
    simp [make, id.nspace_ok, id.path_ok]

theorem exists_make_iff {nspace path : String} :
    (∃ id, make nspace path = .ok id) ↔
      Word namespaceAlphabet nspace ∧ Word pathAlphabet path := by
  rw [← isNamespace_iff, ← isPath_iff]
  constructor
  · rintro ⟨id, made⟩
    obtain ⟨rfl, rfl⟩ := eq_of_make made
    exact ⟨id.nspace_ok, id.path_ok⟩
  · rintro ⟨space, word⟩
    exact ⟨⟨nspace, path, space, word⟩, make_eq_ok_iff.mpr ⟨rfl, rfl⟩⟩

theorem parse_full {nspace : String} (colonless : ':' ∉ nspace.toList) (path : String) :
    parse (nspace ++ ":" ++ path) = make nspace path := by
  have parts : (nspace ++ ":" ++ path).toList = nspace.toList ++ ':' :: path.toList := by
    simp [String.toList_append]
  unfold parse
  rw [parts, splitColon_append colonless]
  simp

theorem parse_short {path : String} (colonless : ':' ∉ path.toList) :
    parse path = make defaultNamespace path := by
  unfold parse
  rw [splitColon_eq_none_iff.mpr colonless]

theorem word_defaultNamespace : Word namespaceAlphabet defaultNamespace := by
  rw [← isNamespace_iff]
  decide

theorem exists_parse_iff {text : String} : (∃ id, parse text = .ok id) ↔ Spelled text := by
  constructor
  · rintro ⟨id, reads⟩
    have word := isPath_iff.mp id.path_ok
    rcases written_of_parse reads with rfl | ⟨_, rfl⟩
    · exact .full (isNamespace_iff.mp id.nspace_ok) word
    · exact .short word
  · rintro (word | ⟨space, word⟩)
    · rw [parse_short (word.colon_notMem (by decide))]
      exact exists_make_iff.mpr ⟨word_defaultNamespace, word⟩
    · rw [parse_full (space.colon_notMem (by decide))]
      exact exists_make_iff.mpr ⟨space, word⟩

/-! Writing. -/

theorem colon_mem_render (id : FunctionId) : ':' ∈ id.render.toList := by
  rw [id.toList_render]
  exact List.mem_append_right _ List.mem_cons_self

theorem render_injective : Function.Injective render := by
  intro a b same
  have reads := a.parse_render
  rw [same, b.parse_render] at reads
  exact (Except.ok.inj reads).symm

theorem render_of_parse {text : String} {id : FunctionId} (reads : parse text = .ok id) :
    id.render = completed text := by
  unfold completed
  rcases written_of_parse reads with rfl | ⟨space, rfl⟩
  · rw [if_pos id.colon_mem_render]
  · rw [if_neg id.colon_notMem_path, inFull, ← space]
    rfl

theorem parse_eq_ok_iff {text : String} {id : FunctionId} :
    parse text = .ok id ↔ Spelled text ∧ id.render = completed text := by
  constructor
  · intro reads
    exact ⟨exists_parse_iff.mp ⟨id, reads⟩, render_of_parse reads⟩
  · rintro ⟨spelled, same⟩
    obtain ⟨other, reads⟩ := exists_parse_iff.mpr spelled
    rw [reads, render_injective (same.trans (render_of_parse reads).symm)]

theorem compare_eq_iff {a b : FunctionId} : compare a b = .eq ↔ a.render = b.render := by
  rw [Std.LawfulEqOrd.compare_eq_iff_eq]
  exact ⟨congrArg render, fun same => render_injective same⟩

theorem Spelled.count_colon_le {text : String} (spelled : Spelled text) :
    text.toList.count ':' ≤ 1 := by
  have once {alphabet : List Char} {part : String} (word : Word alphabet part)
      (without : ':' ∉ alphabet) : part.toList.count ':' = 0 :=
    List.count_eq_zero.mpr (word.colon_notMem without)
  cases spelled with
  | short word =>
    rw [once word (by decide)]
    exact Nat.zero_le 1
  | full space word =>
    simp [String.toList_append, once space (by decide), once word (by decide)]

/-- The texts of the grammar, and no others, are read, each as the name that it is written as in
full. A name that is put together is read again from its text, and no two have the same text. -/
theorem reads_spelled :
    (∀ text, (∃ id, parse text = .ok id) ↔ Spelled text) ∧
    (∀ text, Spelled text → text.toList.count ':' ≤ 1) ∧
    (∀ text id, parse text = .ok id ↔ Spelled text ∧ id.render = completed text) ∧
    (∀ nspace path, (∃ id, make nspace path = .ok id) ↔
      Word namespaceAlphabet nspace ∧ Word pathAlphabet path) ∧
    (∀ id : FunctionId, parse id.render = .ok id) ∧
    (∀ a b : FunctionId, a.render = b.render ↔ a = b) ∧
    (∀ a b : FunctionId, compare a b = .eq ↔ a.render = b.render) :=
  ⟨fun _ => exists_parse_iff, fun _ spelled => spelled.count_colon_le, fun _ _ => parse_eq_ok_iff,
    fun _ _ => exists_make_iff, parse_render, fun _ _ => render_injective.eq_iff,
    fun _ _ => compare_eq_iff⟩

theorem reads_spelled_short : Spelled "a/b" ∧ "a/b".toList.count ':' ≤ 1 ∧
    ∃ id, parse "a/b" = .ok id ∧ id.render = "minecraft:a/b" := by
  obtain ⟨accepts, once, _⟩ := reads_spelled
  have read : parse "a/b" = .ok ⟨"minecraft", "a/b", .refl true, .refl true⟩ := rfl
  have spelled := (accepts _).mp ⟨_, read⟩
  exact ⟨spelled, once _ spelled, _, read, rfl⟩

end FunctionId

end PackEngine
