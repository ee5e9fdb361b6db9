import Mathlib.Data.List.Forall2
import Mathlib.Data.List.Infix
import PackEngine.Pack.Placeholder

/-! Placeholders as templates. A text is filled in when all its placeholders are replaced in one
pass, and what is put in is not looked at again. Binding arguments fills in one parameter after the
other; that comes to the same where no placeholder stands in the filled text. -/
namespace PackEngine

namespace Placeholder

def upToClosing : List Char → Option (List Char × List Char)
  | [] => none
  | c :: cs =>
      if c = ')' then some ([], cs)
      else (upToClosing cs).map fun (name, rest) => (c :: name, rest)

def leading? : List Char → Option (List Char × List Char)
  | '$' :: '(' :: cs => upToClosing cs
  | _ => none

def placeholder (name : List Char) : List Char := '$' :: '(' :: name ++ [')']

theorem upToClosing_eq_some_iff {text name rest : List Char} :
    upToClosing text = some (name, rest) ↔ text = name ++ ')' :: rest ∧ ')' ∉ name := by
  induction text generalizing name with
  | nil => simp [upToClosing]
  | cons c cs ih =>
    unfold upToClosing
    by_cases closing : c = ')'
    · subst closing
      cases name with
      | nil => simp [eq_comm]
      | cons d name => simp +contextual [eq_comm]
    · rw [if_neg closing, Option.map_eq_some_iff]
      constructor
      · rintro ⟨⟨shorter, _⟩, found, same⟩
        cases same
        obtain ⟨rfl, clean⟩ := ih.mp found
        exact ⟨rfl, by simp [clean, Ne.symm closing]⟩
      · rintro ⟨same, clean⟩
        cases name with
        | nil =>
          cases same
          exact absurd rfl closing
        | cons d shorter =>
          cases same
          exact ⟨(shorter, rest), ih.mpr ⟨rfl, fun member => clean (.tail _ member)⟩, rfl⟩

theorem leading?_eq_some_iff {text name rest : List Char} :
    leading? text = some (name, rest) ↔ text = placeholder name ++ rest ∧ ')' ∉ name := by
  unfold leading?
  split
  · simp [upToClosing_eq_some_iff, placeholder]
  · next other =>
    refine ⟨(fun found => nomatch found), fun ⟨same, _⟩ => ?_⟩
    exact (other (name ++ ')' :: rest) (by simp [same, placeholder])).elim

theorem leading?_placeholder {name : List Char} (closed : ')' ∉ name) (rest : List Char) :
    leading? (placeholder name ++ rest) = some (name, rest) :=
  leading?_eq_some_iff.mpr ⟨rfl, closed⟩

/-- Every placeholder whose name has a value is replaced, in one pass from left to right. -/
def fill (value? : List Char → Option (List Char)) : List Char → List Char
  | [] => []
  | c :: cs =>
      match _found : leading? (c :: cs) with
      | some (name, rest) =>
          match value? name with
          | some value => value ++ fill value? rest
          | none => c :: fill value? cs
      | none => c :: fill value? cs
termination_by text => text.length
decreasing_by
  · obtain ⟨same, _⟩ := leading?_eq_some_iff.mp _found
    rw [same]
    simp [placeholder]
    omega
  · exact Nat.lt_succ_self _
  · exact Nat.lt_succ_self _

section

variable {value? first later : List Char → Option (List Char)}

def Leads (value? : List Char → Option (List Char)) (text : List Char) : Prop :=
  ∃ name, (value? name).isSome ∧ ')' ∉ name ∧ placeholder name <+: text

theorem fill_placeholder {name value : List Char} (present : value? name = some value)
    (closed : ')' ∉ name) (rest : List Char) :
    fill value? (placeholder name ++ rest) = value ++ fill value? rest := by
  have reads := leading?_placeholder closed rest
  show fill value? ('$' :: ('(' :: name ++ [')'] ++ rest)) = _
  rw [fill]
  split
  · next other after found =>
    cases reads.symm.trans found
    simp only [present]
  · next missing => cases reads.symm.trans missing

theorem fill_cons {c : Char} {cs : List Char} (plain : ¬Leads value? (c :: cs)) :
    fill value? (c :: cs) = c :: fill value? cs := by
  rw [fill]
  split
  · next name rest found =>
    obtain ⟨same, closed⟩ := leading?_eq_some_iff.mp found
    cases present : value? name with
    | none => rfl
    | some value =>
      exact absurd ⟨name, by simp [present], closed, rest, same.symm⟩ plain
  · rfl

theorem text_induction (value? : List Char → Option (List Char)) {P : List Char → Prop}
    (nil : P [])
    (hole : ∀ name value rest, value? name = some value → ')' ∉ name → P rest →
      P (placeholder name ++ rest))
    (kept : ∀ c cs, ¬Leads value? (c :: cs) → P cs → P (c :: cs)) (text : List Char) :
    P text := by
  induction size : text.length using Nat.strong_induction_on generalizing text with
  | _ n ih =>
    by_cases leads : Leads value? text
    · obtain ⟨name, present, closed, rest, rfl⟩ := leads
      obtain ⟨value, present⟩ := Option.isSome_iff_exists.mp present
      refine hole name value rest present closed (ih rest.length ?_ rest rfl)
      simp only [← size, placeholder, List.length_append, List.length_cons]
      omega
    · cases text with
      | nil => exact nil
      | cons c cs =>
        refine kept c cs leads (ih cs.length ?_ cs rfl)
        simp [← size]

/-- What has a value is the name of a parameter, which has neither a dollar sign nor a closing
parenthesis in it. -/
def Clean (value? : List Char → Option (List Char)) : Prop :=
  ∀ name, (value? name).isSome → '$' ∉ name ∧ ')' ∉ name

def Settled (value? : List Char → Option (List Char)) (text : List Char) : Prop :=
  ∀ name, (value? name).isSome → ¬placeholder name <:+: text

theorem Settled.of_suffix {text rest : List Char} (h : Settled value? text)
    (suffix : rest <:+ text) : Settled value? rest :=
  fun name present inside => h name present (inside.trans suffix.isInfix)

/-- Where nothing is to be replaced the text stays. -/
theorem fill_of_settled {text : List Char} (settled : Settled value? text) :
    fill value? text = text := by
  induction text using text_induction value? with
  | nil => rw [fill]
  | hole name value rest present _ _ =>
    exact absurd (List.prefix_append _ rest).isInfix (settled name (by simp [present]))
  | kept c cs plain ih => rw [fill_cons plain, ih (settled.of_suffix (List.suffix_cons c cs))]

theorem fill_append (value? : List Char → Option (List Char)) {plain : List Char}
    (dollarless : '$' ∉ plain) (rest : List Char) :
    fill value? (plain ++ rest) = plain ++ fill value? rest := by
  induction plain with
  | nil => rfl
  | cons c cs ih =>
    have other : ¬Leads value? (c :: (cs ++ rest)) := by
      rintro ⟨name, _, _, after, same⟩
      injection same with first _
      exact dollarless (first ▸ List.mem_cons_self)
    rw [List.cons_append, fill_cons other, ih fun member => dollarless (.tail _ member)]
    rfl

theorem placeholder_prefix_fill {name : List Char} (clean : '$' ∉ name) {c : Char}
    {front rest : List Char} (leads : placeholder name <+: c :: (front ++ rest)) :
    placeholder name <+: c :: (front ++ fill value? rest) := by
  obtain ⟨after, same⟩ := leads
  injection same with first others
  subst first
  refine (List.cons_prefix_cons).mpr ⟨rfl, ?_⟩
  obtain ⟨more, rfl, _⟩ | ⟨more, inside, rfl⟩ := List.append_eq_append_iff.mp others
  · exact ⟨more ++ fill value? rest, by simp⟩
  · have plain : '$' ∉ more := by
      intro member
      have : '$' ∈ front ++ more := List.mem_append_right front member
      rw [← inside] at this
      simp [clean] at this
    rw [fill_append value? plain]
    exact ⟨fill value? after, by rw [← List.append_assoc, ← inside]⟩

/-- Where no placeholder stands in the outcome, what is in front of a text is kept. -/
theorem fill_keeps (clean : Clean value?) {front rest : List Char}
    (settled : Settled value? (front ++ fill value? rest)) :
    fill value? (front ++ rest) = front ++ fill value? rest := by
  induction front with
  | nil => rfl
  | cons c front ih =>
    have plain : ¬Leads value? (c :: (front ++ rest)) := by
      rintro ⟨name, present, _, leads⟩
      exact settled name present
        (placeholder_prefix_fill (clean name present).1 leads).isInfix
    rw [List.cons_append, fill_cons plain, ih (settled.of_suffix (List.suffix_cons c _))]
    rfl

def orElse (first later : List Char → Option (List Char)) (name : List Char) :
    Option (List Char) := (first name).or (later name)

theorem fill_unknown {name : List Char} (clean : '$' ∉ name ∧ ')' ∉ name)
    (unknown : value? name = none) (rest : List Char) :
    fill value? (placeholder name ++ rest) = placeholder name ++ fill value? rest := by
  have plain : ¬Leads value? (placeholder name ++ rest) := by
    rintro ⟨other, present, closed, after, same⟩
    have reads := leading?_placeholder closed after
    rw [same, leading?_placeholder clean.2] at reads
    cases reads
    simp [unknown] at present
  have inner : '$' ∉ '(' :: name ++ [')'] := by simp [clean.1]
  exact (fill_cons plain).trans (congrArg _ (fill_append value? inner rest))

/-- Filling in twice is filling in once, where no placeholder of the second time stands in the
outcome. -/
theorem fill_fill (clean : Clean later) {text : List Char}
    (settled : Settled later (fill (orElse first later) text)) :
    fill later (fill first text) = fill (orElse first later) text := by
  induction text using text_induction (orElse first later) with
  | nil => simp [fill]
  | hole name value rest present closed ih =>
    rw [fill_placeholder present closed] at settled ⊢
    have same := ih (settled.of_suffix (List.suffix_append value _))
    cases early : first name with
    | some other =>
      simp only [orElse, early, Option.some_or, Option.some.injEq] at present
      subst present
      rw [fill_placeholder early closed, fill_keeps clean (same ▸ settled), same]
    | none =>
      simp only [orElse, early, Option.none_or] at present
      rw [fill_unknown (clean name (by simp [present])) early, fill_placeholder present closed,
        same]
  | kept c cs plain ih =>
    rw [fill_cons plain] at settled ⊢
    have same := ih (settled.of_suffix (List.suffix_cons c _))
    have early : ¬Leads first (c :: cs) := by
      rintro ⟨name, present, closed, leads⟩
      exact plain ⟨name, by simp [orElse, present], closed, leads⟩
    rw [fill_cons early, ← same]
    exact fill_keeps clean (List.singleton_append ▸ same ▸ settled)

end

theorem toList_keyOf (param : String) : (keyOf param).toList = placeholder param.toList := by
  simp [keyOf, placeholder, String.toList_append]

/-- Replacing a placeholder everywhere is filling in its name only. -/
theorem replaceAll_eq_fill {value? : List Char → Option (List Char)} {name value : List Char}
    (closed : ')' ∉ name) (only : ∀ other, value? other = if other = name then some value else none)
    (text : List Char) : replaceAll (placeholder name) value text = fill value? text := by
  induction text using text_induction value? with
  | nil => simp [replaceAll, fill]
  | hole other found rest present _ ih =>
    have same : other = name := by
      by_contra different
      simp [only, different] at present
    subst same
    have begins : (placeholder other).isPrefixOf ('$' :: ('(' :: other ++ [')'] ++ rest)) = true :=
      List.isPrefixOf_iff_prefix.mpr (List.prefix_append _ rest)
    have left : ('(' :: other ++ [')'] ++ rest).drop ((placeholder other).length - 1) = rest := by
      simp [placeholder]
    have value_eq : value = found := by simpa [only] using present
    rw [fill_placeholder present closed, ← ih, ← value_eq]
    show replaceAll _ value ('$' :: ('(' :: other ++ [')'] ++ rest)) = _
    rw [replaceAll, if_pos begins, left]
  | kept c cs plain ih =>
    have other : ¬(placeholder name).isPrefixOf (c :: cs) = true := fun begins =>
      plain ⟨name, by simp [only], closed, List.isPrefixOf_iff_prefix.mp begins⟩
    rw [fill_cons plain, ← ih, replaceAll, if_neg other]

def argument? (params : List String) (members : List (String × Json)) (name : List Char) :
    Option (List Char) :=
  if String.ofList name ∈ params then
    (valueAt? (String.ofList name) members).map fun value => (inText value).toList
  else none

section

variable {members : List (String × Json)} {params : List String}

theorem argument?_isSome {name : List Char} (present : (argument? params members name).isSome) :
    String.ofList name ∈ params := by
  unfold argument? at present
  split at present
  · assumption
  · cases present

theorem clean_argument? (clean : ∀ p ∈ params, '$' ∉ p.toList ∧ ')' ∉ p.toList) :
    Clean (argument? params members) := by
  intro name present
  have := clean _ (argument?_isSome present)
  rwa [String.toList_ofList] at this

theorem argument?_cons {param : String} {value : Json}
    (given : valueAt? param members = some value) (rest : List String) :
    argument? (param :: rest) members =
      orElse (argument? [param] members) (argument? rest members) := by
  funext name
  unfold orElse argument?
  by_cases same : String.ofList name = param
  · simp [same, given]
  · simp [same]

theorem toList_replaceIn {param : String} {value : Json} (closed : ')' ∉ param.toList)
    (given : valueAt? param members = some value) (text : String) :
    (replaceIn text ⟨keyOf param, value⟩).toList =
      fill (argument? [param] members) text.toList := by
  unfold replaceIn
  rw [String.toList_ofList, toList_keyOf]
  refine replaceAll_eq_fill closed (fun other => ?_) text.toList
  unfold argument?
  by_cases same : String.ofList other = param
  · subst same
    simp [given]
  · have different : other ≠ param.toList := by
      rintro rfl
      exact same String.ofList_toList
    simp [same, different]

def fillInTurn (params : List String) (members : List (String × Json)) (text : String) : String :=
  String.ofList
    (params.foldl (fun text param => fill (argument? [param] members) text) text.toList)

def fillTogether (params : List String) (members : List (String × Json)) (text : String) :
    String :=
  String.ofList (fill (argument? params members) text.toList)

/-- No placeholder of a parameter stands in the text once all have been replaced. -/
def Inert (params : List String) (members : List (String × Json)) (text : String) : Prop :=
  ∀ param ∈ params, ¬(keyOf param).toList <:+: (fillTogether params members text).toList

theorem Inert.settled {text : String} (inert : Inert params members text) :
    Settled (argument? params members) (fill (argument? params members) text.toList) := by
  intro name present
  have := inert _ (argument?_isSome present)
  rwa [toList_keyOf, fillTogether, String.toList_ofList, String.toList_ofList] at this

theorem argument?_congr {others : List String} (same : ∀ p, p ∈ others ↔ p ∈ params) :
    argument? others members = argument? params members := by
  funext name
  unfold argument?
  simp only [same]

theorem Inert.congr {others : List String} (same : ∀ p, p ∈ others ↔ p ∈ params)
    {text : String} (inert : Inert params members text) : Inert others members text := by
  intro p member
  have := inert p ((same p).mp member)
  rwa [fillTogether, ← argument?_congr same] at this

theorem foldl_fill (clean : ∀ p ∈ params, '$' ∉ p.toList ∧ ')' ∉ p.toList)
    (supplied : ∀ p ∈ params, (valueAt? p members).isSome) {text : List Char}
    (settled : Settled (argument? params members) (fill (argument? params members) text)) :
    params.foldl (fun text param => fill (argument? [param] members) text) text =
      fill (argument? params members) text := by
  induction params generalizing text with
  | nil =>
    refine (fill_of_settled fun name present => ?_).symm
    cases argument?_isSome present
  | cons param rest ih =>
    obtain ⟨value, given⟩ := Option.isSome_iff_exists.mp (supplied param List.mem_cons_self)
    have cleanRest := fun p member => clean p (List.mem_cons_of_mem param member)
    rw [argument?_cons given] at settled ⊢
    have later : Settled (argument? rest members)
        (fill (orElse (argument? [param] members) (argument? rest members)) text) :=
      fun name present => settled name (by simp [orElse, present])
    have twice := fill_fill (clean_argument? cleanRest) later
    rw [List.foldl_cons, ih cleanRest (fun p member => supplied p (.tail _ member))
      (twice ▸ later), twice]

end

end Placeholder

/-! Values: their texts change, and nothing else. -/

mutual

/-- The texts in a value; the keys of objects are none of them. -/
def Json.texts : Json → List String
  | .str text => [text]
  | .arr items => Json.itemTexts items
  | .obj members => Json.memberTexts members
  | _ => []

def Json.itemTexts : List Json → List String
  | [] => []
  | item :: rest => item.texts ++ Json.itemTexts rest

def Json.memberTexts : List (String × Json) → List String
  | [] => []
  | (_, item) :: rest => item.texts ++ Json.memberTexts rest

end

inductive Json.Bound (R : String → Json → Prop) : Json → Json → Prop where
  | null : Bound R .null .null
  | bool (b : Bool) : Bound R (.bool b) (.bool b)
  | num (n : JsonNumber) : Bound R (.num n) (.num n)
  | str {text : String} {value : Json} (binds : R text value) : Bound R (.str text) value
  | arr {items others : List Json} (each : List.Forall₂ (Bound R) items others) :
      Bound R (.arr items) (.arr others)
  | obj {members others : List (String × Json)} (keys : others.map (·.1) = members.map (·.1))
      (each : List.Forall₂ (Bound R) (members.map (·.2)) (others.map (·.2))) :
      Bound R (.obj members) (.obj others)

namespace Placeholder

section

variable {R : String → Json → Prop} {bindings others : List Binding}

mutual

theorem substitute_bound (binds : ∀ text, R text (substituteText bindings text)) :
    ∀ value, Json.Bound R value (substitute bindings value)
  | .null => .null
  | .bool b => .bool b
  | .num n => .num n
  | .str text => .str (binds text)
  | .arr items => .arr (substituteItems_bound binds items)
  | .obj members =>
      .obj (substituteMembers_bound binds members).1 (substituteMembers_bound binds members).2

theorem substituteItems_bound (binds : ∀ text, R text (substituteText bindings text)) :
    ∀ items, List.Forall₂ (Json.Bound R) items (substituteItems bindings items)
  | [] => .nil
  | item :: rest => .cons (substitute_bound binds item) (substituteItems_bound binds rest)

theorem substituteMembers_bound (binds : ∀ text, R text (substituteText bindings text)) :
    ∀ members, (substituteMembers bindings members).map (·.1) = members.map (·.1) ∧
      List.Forall₂ (Json.Bound R) (members.map (·.2))
        ((substituteMembers bindings members).map (·.2))
  | [] => ⟨rfl, .nil⟩
  | (key, item) :: rest =>
      ⟨congrArg (key :: ·) (substituteMembers_bound binds rest).1,
        .cons (substitute_bound binds item) (substituteMembers_bound binds rest).2⟩

end

theorem substituteItems_eq_map (items : List Json) :
    substituteItems bindings items = items.map (substitute bindings) := by
  induction items with
  | nil => rfl
  | cons item rest ih => rw [substituteItems, ih, List.map_cons]

mutual

theorem substitute_congr : ∀ value : Json,
    (∀ text ∈ value.texts, substituteText bindings text = substituteText others text) →
      substitute bindings value = substitute others value
  | .null, _ | .bool _, _ | .num _, _ => rfl
  | .str text, agree => agree text List.mem_cons_self
  | .arr items, agree => congrArg Json.arr (substituteItems_congr items agree)
  | .obj members, agree => congrArg Json.obj (substituteMembers_congr members agree)

theorem substituteItems_congr : ∀ items : List Json,
    (∀ text ∈ Json.itemTexts items, substituteText bindings text = substituteText others text) →
      substituteItems bindings items = substituteItems others items
  | [], _ => rfl
  | item :: rest, agree => by
      unfold substituteItems
      rw [substitute_congr item fun text member => agree text (List.mem_append_left _ member),
        substituteItems_congr rest fun text member => agree text (List.mem_append_right _ member)]

theorem substituteMembers_congr : ∀ members : List (String × Json),
    (∀ text ∈ Json.memberTexts members, substituteText bindings text = substituteText others text) →
      substituteMembers bindings members = substituteMembers others members
  | [], _ => rfl
  | (key, item) :: rest, agree => by
      unfold substituteMembers
      rw [substitute_congr item fun text member => agree text (List.mem_append_left _ member),
        substituteMembers_congr rest fun text member => agree text (List.mem_append_right _ member)]

end

end

end Placeholder

namespace FunctionDef

open Placeholder

variable {d : FunctionDef} {members : List (String × Json)}

theorem foldl_replaceIn_bindings {params : List String} (closed : ∀ p ∈ params, ')' ∉ p.toList)
    (supplied : ∀ p ∈ params, (valueAt? p members).isSome) (text : String) :
    ((params.filterMap fun p => (valueAt? p members).map (Binding.mk (keyOf p))).foldl replaceIn
        text).toList =
      params.foldl (fun text param => fill (argument? [param] members) text) text.toList := by
  induction params generalizing text with
  | nil => rfl
  | cons param rest ih =>
    obtain ⟨value, given⟩ := Option.isSome_iff_exists.mp (supplied param List.mem_cons_self)
    simp only [List.filterMap_cons, given, Option.map_some, List.foldl_cons]
    rw [ih (fun p member => closed p (.tail _ member))
      (fun p member => supplied p (.tail _ member)),
      toList_replaceIn (closed param List.mem_cons_self) given]

/-- What binding arguments makes of a text: of a placeholder the argument, of any other text the
text with one parameter filled in after the other. Unless a placeholder then stands in it, that is
the text with all of them filled in at once. -/
structure BindsText (d : FunctionDef) (members : List (String × Json)) (text : String)
    (value : Json) : Prop where
  whole : ∀ p ∈ d.params, text = keyOf p → valueAt? p members = some value
  inTurn : (∀ p ∈ d.params, text ≠ keyOf p) → value = .str (fillInTurn d.params members text)
  together : (∀ p ∈ d.params, text ≠ keyOf p) → Inert d.params members text →
    value = .str (fillTogether d.params members text)

theorem keyOf_injective {p q : String} (same : keyOf p = keyOf q) : p = q := by
  have := congrArg String.toList same
  rw [toList_keyOf, toList_keyOf] at this
  exact String.toList_inj.mp (by simpa [placeholder] using this)

theorem find?_bindings {params : List String} {p : String} (member : p ∈ params) {value : Json}
    (given : valueAt? p members = some value) :
    (params.filterMap fun p => (valueAt? p members).map (Binding.mk (keyOf p))).find?
      (·.key == keyOf p) = some ⟨keyOf p, value⟩ := by
  induction params with
  | nil => cases member
  | cons q rest ih =>
    by_cases same : q = p
    · subst same
      simp [given]
    · have later := ih ((List.mem_cons.mp member).resolve_left (Ne.symm same))
      have different : keyOf q ≠ keyOf p := fun keys => same (keyOf_injective keys)
      rw [List.filterMap_cons]
      cases valueAt? q members with
      | none => exact later
      | some other => exact (List.find?_cons_of_neg (by simpa using different)).trans later

theorem substituteText_binds (clean : ∀ p ∈ d.params, '$' ∉ p.toList ∧ ')' ∉ p.toList)
    (supplied : ∀ p ∈ d.params, (valueAt? p members).isSome) (text : String) :
    d.BindsText members text (substituteText (d.bindings members) text) := by
  have inTurn : (∀ p ∈ d.params, text ≠ keyOf p) → substituteText (d.bindings members) text =
      .str (fillInTurn d.params members text) := by
    intro other
    have missing : (d.bindings members).find? (·.key == text) = none := by
      rw [List.find?_eq_none]
      intro binding bound
      obtain ⟨p, member, made⟩ := List.mem_filterMap.mp bound
      obtain ⟨value, _, rfl⟩ := Option.map_eq_some_iff.mp made
      simpa using Ne.symm (other p member)
    have bound := foldl_replaceIn_bindings (fun p member => (clean p member).2) supplied text
    unfold substituteText fillInTurn
    rw [missing, ← bound, String.ofList_toList]
    rfl
  refine ⟨fun p member same => ?_, inTurn, fun other inert => ?_⟩
  · obtain ⟨value, given⟩ := Option.isSome_iff_exists.mp (supplied p member)
    subst same
    unfold substituteText bindings
    rw [find?_bindings member given, given]
  · rw [inTurn other, fillInTurn, fillTogether, foldl_fill clean supplied inert.settled]

theorem hasParams_congr {e : FunctionDef} (same : ∀ p, p ∈ e.params ↔ p ∈ d.params) :
    e.hasParams = d.hasParams := by
  have empty : e.params.isEmpty = d.params.isEmpty := by
    rw [Bool.eq_iff_iff]
    simp only [List.isEmpty_iff, List.eq_nil_iff_forall_not_mem, same]
  rw [hasParams, hasParams, empty]

theorem boundLines_eq (params : d.hasParams)
    (supplied : ∀ p ∈ d.params, (valueAt? p members).isSome) :
    d.boundLines (some (.obj members)) =
      .ok (d.lines.map (substitute (d.bindings members))) := by
  have complete : d.missing members = [] := by
    refine List.filter_eq_nil_iff.mpr fun p member => ?_
    simp [Option.isSome_iff_ne_none.mp (supplied p member)]
  unfold boundLines
  simp only [checkCompound, bind, Except.bind, params, complete, List.isEmpty_nil, if_true]
  rfl

/-- Binding an object with all the arguments keeps the shape of the lines and replaces their texts
as `BindsText` says. The order of the parameters makes no difference to lines in which every text
is a placeholder or is free of them once they have been filled in. -/
theorem boundLines_bind_texts (params : d.hasParams)
    (clean : ∀ p ∈ d.params, '$' ∉ p.toList ∧ ')' ∉ p.toList)
    (supplied : ∀ p ∈ d.params, (valueAt? p members).isSome) :
    ∃ lines, d.boundLines (some (.obj members)) = .ok lines ∧
      List.Forall₂ (Json.Bound (d.BindsText members)) d.lines lines ∧
      ∀ e : FunctionDef, e.lines = d.lines → (∀ p, p ∈ e.params ↔ p ∈ d.params) →
        (∀ text ∈ Json.itemTexts d.lines,
          (∃ p ∈ d.params, text = keyOf p) ∨ Inert d.params members text) →
        e.boundLines (some (.obj members)) = .ok lines := by
  refine ⟨_, boundLines_eq params supplied, ?_, fun e sameLines sameParams texts => ?_⟩
  · exact substituteItems_eq_map d.lines ▸
      substituteItems_bound (substituteText_binds clean supplied) d.lines
  · have eParams : e.hasParams := hasParams_congr sameParams ▸ params
    have eSupplied : ∀ p ∈ e.params, (valueAt? p members).isSome :=
      fun p member => supplied p ((sameParams p).mp member)
    have eBinds := substituteText_binds
      (fun p member => clean p ((sameParams p).mp member)) eSupplied
    have binds := substituteText_binds clean supplied
    rw [boundLines_eq eParams eSupplied, sameLines, ← substituteItems_eq_map,
      ← substituteItems_eq_map]
    refine congrArg Except.ok (substituteItems_congr d.lines fun text member => ?_)
    by_cases key : ∃ p ∈ d.params, text = keyOf p
    · obtain ⟨p, declared, same⟩ := key
      have := (eBinds text).whole p ((sameParams p).mpr declared) same
      exact Option.some.inj (this.symm.trans ((binds text).whole p declared same))
    · have inert := (texts text member).resolve_left key
      rw [(binds text).together (fun p declared same => key ⟨p, declared, same⟩) inert,
        (eBinds text).together
          (fun p declared same => key ⟨p, (sameParams p).mp declared, same⟩)
          (inert.congr sameParams), fillTogether, fillTogether, argument?_congr sameParams]

theorem boundLines_bind_texts_three :
    let greeting : FunctionDef :=
      ⟨["name", "count"], [.arr [.str "$(name): $(count)", .str "$(count)"]]⟩
    let given := [("name", Json.str "$(all)"), ("count", .num (.int 3))]
    ∃ lines, greeting.boundLines (some (.obj given)) = .ok lines ∧
      List.Forall₂ (Json.Bound (greeting.BindsText given)) greeting.lines lines := by
  intro greeting given
  obtain ⟨lines, bound, each, _⟩ :=
    @boundLines_bind_texts greeting given rfl (by decide) (by decide)
  exact ⟨lines, bound, each⟩

/-- What comes from an argument is looked at again for the parameters declared later. -/
theorem boundLines_rescan_arguments :
    let line text := Json.obj [("run", .obj [("t", .str "Say"), ("message", .str text)])]
    let given := [("a", Json.str "$(b)"), ("b", .str "x")]
    boundLines ⟨["a", "b"], [line "<$(a)>"]⟩ (some (.obj given)) = .ok [line "<x>"] ∧
      boundLines ⟨["b", "a"], [line "<$(a)>"]⟩ (some (.obj given)) = .ok [line "<$(b)>"] ∧
      fillTogether ["a", "b"] given "<$(a)>" = "<$(b)>" := by
  intro line given
  refine ⟨?_, ?_, ?_⟩
  · simp [boundLines, checkCompound, hasParams, missing, bindings, valueAt?, substitute,
      substituteMembers, substituteText, replaceIn, replaceAll, keyOf, inText, line, given,
      bind, Except.bind, pure, Except.pure]
  · simp [boundLines, checkCompound, hasParams, missing, bindings, valueAt?, substitute,
      substituteMembers, substituteText, replaceIn, replaceAll, keyOf, inText, line, given,
      bind, Except.bind, pure, Except.pure]
  · have first : argument? ["a", "b"] given ['a'] = some "$(b)".toList := by
      simp [argument?, valueAt?, given, inText]
    have text : "<$(a)>".toList = ['<'] ++ (placeholder ['a'] ++ (['>'] ++ [])) := by decide
    rw [fillTogether, text, fill_append _ (by decide), fill_placeholder first (by decide),
      fill_append _ (by decide), fill]
    decide

end FunctionDef

end PackEngine
