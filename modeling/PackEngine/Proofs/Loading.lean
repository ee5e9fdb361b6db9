import Mathlib.Data.List.Nodup
import Mathlib.Data.List.Perm.Subperm
import PackEngine.Proofs.Names

/-! Loading a pack. Of the entries of a document that read as one name the last one stays, so
nothing is lost unless a name is written both short and in full. -/
namespace PackEngine

section Entries

variable {κ : Type} {α : Type} [Ord κ]

theorem valueAt?_insertSorted [BEq κ] [LawfulBEq κ] [Std.LawfulEqOrd κ] (k key : κ) (value : α)
    (entries : List (κ × α)) :
    valueAt? k (insertSorted key value entries) =
      if key == k then some value else valueAt? k entries := by
  induction entries with
  | nil =>
    by_cases same : key == k <;> simp [insertSorted, valueAt?, same]
  | cons entry rest ih =>
    obtain ⟨first, other⟩ := entry
    unfold insertSorted
    split
    · by_cases same : key == k <;> simp [valueAt?, same]
    · next equal =>
      obtain rfl := Std.LawfulEqOrd.eq_of_compare equal
      by_cases same : key == k <;> simp [valueAt?, same]
    · next greater =>
      by_cases here : first == k
      · have apart : ¬(key == k) = true := by
          intro same
          rw [beq_iff_eq] at here same
          subst here same
          rw [Std.ReflOrd.compare_self] at greater
          cases greater
        simp [valueAt?, here, apart]
      · have skip : ∀ others : List (κ × α),
            valueAt? k ((first, other) :: others) = valueAt? k others := by
          intro others
          simp [valueAt?, here]
        rw [skip, skip, ih]

theorem mem_insertSorted {key : κ} {value : α} {entries : List (κ × α)} {entry : κ × α}
    (member : entry ∈ insertSorted key value entries) :
    entry = (key, value) ∨ entry ∈ entries := by
  induction entries with
  | nil => exact .inl (List.mem_singleton.mp member)
  | cons first rest ih =>
    unfold insertSorted at member
    split at member
    · exact List.mem_cons.mp member
    · exact (List.mem_cons.mp member).imp_right (List.mem_cons_of_mem _)
    · rcases List.mem_cons.mp member with rfl | later
      · exact .inr List.mem_cons_self
      · exact (ih later).imp_right (List.mem_cons_of_mem _)

def KeySorted (entries : List (κ × α)) : Prop :=
  entries.Pairwise fun a b => compare a.1 b.1 = .lt

theorem KeySorted.insertSorted [Std.TransOrd κ] [Std.LawfulEqOrd κ] {entries : List (κ × α)}
    (sorted : KeySorted entries) (key : κ) (value : α) :
    KeySorted (insertSorted key value entries) := by
  induction entries with
  | nil => exact List.pairwise_singleton _ _
  | cons first rest ih =>
    have after := List.pairwise_cons.mp sorted
    unfold PackEngine.insertSorted
    split
    · next less =>
      refine List.pairwise_cons.mpr ⟨fun entry member => ?_, sorted⟩
      rcases List.mem_cons.mp member with rfl | later
      · exact less
      · exact Std.TransCmp.lt_trans less (after.1 entry later)
    · next equal =>
      obtain rfl := Std.LawfulEqOrd.eq_of_compare equal
      exact List.pairwise_cons.mpr ⟨after.1, after.2⟩
    · next greater =>
      refine List.pairwise_cons.mpr ⟨fun entry member => ?_, ih after.2⟩
      rcases mem_insertSorted member with rfl | old
      · exact Std.OrientedCmp.gt_iff_lt.mp greater
      · exact after.1 entry old

theorem KeySorted.nodup [Std.TransOrd κ] {entries : List (κ × α)} (sorted : KeySorted entries) :
    (entries.map (·.1)).Nodup := by
  refine List.pairwise_map.mpr (List.Pairwise.imp ?_ sorted)
  intro a b less same
  rw [same, Std.ReflOrd.compare_self] at less
  cases less

omit [Ord κ] in
theorem valueAt?_eq_none_iff [BEq κ] [LawfulBEq κ] {k : κ} {entries : List (κ × α)} :
    valueAt? k entries = none ↔ k ∉ entries.map (·.1) := by
  simp only [valueAt?, Option.map_eq_none_iff, List.find?_eq_none, List.mem_map, not_exists,
    not_and, beq_iff_eq]

omit [Ord κ] in
theorem mem_of_valueAt? [BEq κ] [LawfulBEq κ] {k : κ} {value : α} {entries : List (κ × α)}
    (found : valueAt? k entries = some value) : (k, value) ∈ entries := by
  obtain ⟨⟨key, other⟩, here, rfl⟩ := Option.map_eq_some_iff.mp found
  obtain rfl : key = k := by simpa using List.find?_some here
  exact List.mem_of_find?_eq_some here

omit [Ord κ] in
theorem valueAt?_of_mem [BEq κ] [LawfulBEq κ] {k : κ} {value : α} {entries : List (κ × α)}
    (distinct : (entries.map (·.1)).Nodup) (member : (k, value) ∈ entries) :
    valueAt? k entries = some value := by
  induction entries with
  | nil => cases member
  | cons first rest ih =>
    obtain ⟨fresh, others⟩ := List.nodup_cons.mp distinct
    rcases List.mem_cons.mp member with rfl | later
    · simp [valueAt?]
    · have apart : first.1 ≠ k := by
        rintro rfl
        exact fresh (List.mem_map.mpr ⟨_, later, rfl⟩)
      rw [← ih others later]
      simp [valueAt?, apart]

end Entries

namespace FunctionId

instance : Std.TransOrd FunctionId :=
  inferInstanceAs (Std.TransCmp (compareLex (compareOn nspace) (compareOn path)))

instance : Std.LawfulEqOrd FunctionId where
  eq_of_compare := by
    intro a b equal
    obtain ⟨spaces, paths⟩ := Ordering.then_eq_eq.mp equal
    cases a
    cases b
    cases Std.LawfulEqOrd.eq_of_compare spaces
    cases Std.LawfulEqOrd.eq_of_compare paths
    rfl

theorem eq_append_of_splitColon {text before after : List Char}
    (splits : splitColon text = some (before, after)) : text = before ++ ':' :: after := by
  induction text generalizing before with
  | nil => cases splits
  | cons c rest ih =>
    unfold splitColon at splits
    split at splits
    · next colon =>
      cases splits
      rw [beq_iff_eq.mp colon]
      rfl
    · obtain ⟨⟨first, others⟩, found, same⟩ := Option.map_eq_some_iff.mp splits
      cases same
      rw [ih found]
      rfl

theorem eq_of_make {nspace path : String} {id : FunctionId} (made : make nspace path = .ok id) :
    nspace = id.nspace ∧ path = id.path := by
  unfold make at made
  split at made
  · split at made
    · cases made
      exact ⟨rfl, rfl⟩
    · cases made
  · cases made

theorem isPathChar_of_mem (id : FunctionId) {c : Char} (member : c ∈ id.path.toList) :
    isPathChar c = true := by
  have ok := id.path_ok
  unfold isPath at ok
  rw [Bool.and_eq_true] at ok
  exact List.all_eq_true.mp ok.2 c member

theorem colon_notMem_path (id : FunctionId) : ':' ∉ id.path.toList := fun member => by
  cases id.isPathChar_of_mem member

theorem written_of_parse {key : String} {id : FunctionId} (reads : parse key = .ok id) :
    key = id.render ∨ (id.nspace = defaultNamespace ∧ key = id.path) := by
  unfold parse at reads
  split at reads
  · next before after splits =>
    left
    obtain ⟨spaces, paths⟩ := eq_of_make reads
    apply String.toList_inj.mp
    rw [id.toList_render, ← spaces, ← paths, String.toList_ofList, String.toList_ofList]
    exact eq_append_of_splitColon splits
  · obtain ⟨spaces, paths⟩ := eq_of_make reads
    exact .inr ⟨spaces.symm, paths⟩

def inFull (short : String) : String := defaultNamespace ++ ":" ++ short

theorem eq_or_inFull_of_parse {a b : String} {id : FunctionId} (reads : parse a = .ok id)
    (alike : parse b = .ok id) : a = b ∨ a = inFull b ∨ b = inFull a := by
  rcases written_of_parse reads with rfl | ⟨space, rfl⟩
  · rcases written_of_parse alike with rfl | ⟨space, rfl⟩
    · exact .inl rfl
    · refine .inr (.inl ?_)
      unfold render inFull
      rw [space]
  · rcases written_of_parse alike with rfl | ⟨_, rfl⟩
    · refine .inr (.inr ?_)
      unfold render inFull
      rw [space]
    · exact .inl rfl

theorem parse_inFull {short : String} {id full : FunctionId} (reads : parse short = .ok id)
    (alike : parse (inFull short) = .ok full) : full = id := by
  rcases written_of_parse reads with rfl | ⟨space, rfl⟩
  · -- The key in full would be a path with a colon.
    exfalso
    have parts : (inFull id.render).toList =
        defaultNamespace.toList ++ ':' :: id.render.toList := by
      simp [inFull, String.toList_append]
    have splits : splitColon (inFull id.render).toList =
        some (defaultNamespace.toList, id.render.toList) := by
      rw [parts]
      exact splitColon_append (by decide) _
    unfold parse at alike
    rw [splits] at alike
    have paths := (eq_of_make alike).2
    rw [String.ofList_toList] at paths
    apply full.colon_notMem_path
    rw [← paths, id.toList_render]
    exact List.mem_append_right _ List.mem_cons_self
  · have written : inFull id.path = id.render := by
      unfold render inFull
      rw [space]
    rw [written, id.parse_render] at alike
    exact (Except.ok.inj alike).symm

/-- No key stands twice, and none stands both short and in full. -/
def Unambiguous (keys : List String) : Prop :=
  keys.Nodup ∧ ∀ short ∈ keys, inFull short ∉ keys

instance (keys : List String) : Decidable (Unambiguous keys) :=
  inferInstanceAs (Decidable (_ ∧ _))

theorem inFull_ne (short : String) : inFull short ≠ short := by
  intro same
  have lengths := congrArg String.length same
  unfold inFull at lengths
  rw [String.length_append, String.length_append] at lengths
  have := show defaultNamespace.length = 9 from rfl
  omega

theorem nodup_map_parse_iff {keys : List String}
    (readable : ∀ key ∈ keys, ∃ id, parse key = .ok id) :
    (keys.map parse).Nodup ↔ Unambiguous keys := by
  constructor
  · intro distinct
    refine ⟨List.Nodup.of_map _ distinct, fun short member both => ?_⟩
    obtain ⟨id, reads⟩ := readable short member
    obtain ⟨full, alike⟩ := readable _ both
    obtain rfl := parse_inFull reads alike
    exact inFull_ne short (List.inj_on_of_nodup_map distinct both member (alike.trans reads.symm))
  · rintro ⟨distinct, once⟩
    refine List.Nodup.map_on (fun a first b second same => ?_) distinct
    obtain ⟨id, reads⟩ := readable a first
    rcases eq_or_inFull_of_parse reads (same ▸ reads) with equal | rfl | rfl
    · exact equal
    · exact absurd first (once b second)
    · exact absurd second (once a first)

end FunctionId

open FunctionId

/-- The last of the entries whose keys read as a name. -/
def lastUnder? {β : Type} (id : FunctionId) : List (String × β) → Option β
  | [] => none
  | (key, value) :: rest =>
      (lastUnder? id rest).or (if parse key = .ok id then some value else none)

section LastUnder

variable {β : Type} {id : FunctionId} {entries : List (String × β)}

theorem lastUnder?_isSome_iff :
    (lastUnder? id entries).isSome ↔ ∃ entry ∈ entries, parse entry.1 = .ok id := by
  induction entries with
  | nil => simp [lastUnder?]
  | cons entry rest ih =>
    obtain ⟨key, value⟩ := entry
    by_cases reads : parse key = .ok id <;> simp [lastUnder?, reads, ih]

theorem lastUnder?_of_nodup (distinct : (entries.map fun entry => parse entry.1).Nodup)
    {entry : String × β} (member : entry ∈ entries) (reads : parse entry.1 = .ok id) :
    lastUnder? id entries = some entry.2 := by
  induction entries with
  | nil => cases member
  | cons first rest ih =>
    obtain ⟨key, value⟩ := first
    obtain ⟨fresh, others⟩ := List.nodup_cons.mp distinct
    rcases List.mem_cons.mp member with rfl | later
    · have unseen : lastUnder? id rest = none := by
        refine Option.not_isSome_iff_eq_none.mp fun given => fresh ?_
        obtain ⟨other, found, alike⟩ := lastUnder?_isSome_iff.mp given
        exact List.mem_map.mpr ⟨other, found, alike.trans reads.symm⟩
      rw [lastUnder?, unseen, if_pos reads, Option.none_or]
    · rw [lastUnder?, ih others later, Option.some_or]

end LastUnder

/-- How a map of a document is read: each entry in turn is put under the name of its key, with
its value read as well. -/
inductive Filed {α β : Type} (Reads : β → α → Prop) :
    List (FunctionId × α) → List (String × β) → List (FunctionId × α) → Prop where
  | nil (sorted) : Filed Reads sorted [] sorted
  | cons {sorted : List (FunctionId × α)} {key : String} {id : FunctionId} {given : β}
      {value : α} {rest : List (String × β)} {found : List (FunctionId × α)}
      (named : parse key = .ok id) (reads : Reads given value)
      (later : Filed Reads (insertSorted id value sorted) rest found) :
      Filed Reads sorted ((key, given) :: rest) found

namespace Filed

variable {α β : Type} {Reads : β → α → Prop} {sorted found : List (FunctionId × α)}
  {entries : List (String × β)}

theorem readable (filed : Filed Reads sorted entries found) {entry : String × β}
    (member : entry ∈ entries) : ∃ id, parse entry.1 = .ok id := by
  induction filed with
  | nil => cases member
  | cons named _ _ ih =>
    rcases List.mem_cons.mp member with rfl | later
    · exact ⟨_, named⟩
    · exact ih later

theorem keySorted (filed : Filed Reads sorted entries found) (ordered : KeySorted sorted) :
    KeySorted found := by
  induction filed with
  | nil => exact ordered
  | cons _ _ _ ih => exact ih (ordered.insertSorted _ _)

/-- Under a name stands what its last entry reads as, or else what stood there before. -/
theorem valueAt (filed : Filed Reads sorted entries found) (id : FunctionId) :
    (∃ given value, lastUnder? id entries = some given ∧ valueAt? id found = some value ∧
      Reads given value) ∨
    lastUnder? id entries = none ∧ valueAt? id found = valueAt? id sorted := by
  induction filed with
  | nil => exact .inr ⟨rfl, rfl⟩
  | @cons _ key name given value rest _ named reads _ ih =>
    rcases ih with ⟨last, kept, under, found, read⟩ | ⟨under, found⟩
    · exact .inl ⟨last, kept, by rw [lastUnder?, under, Option.some_or], found, read⟩
    · rw [valueAt?_insertSorted] at found
      by_cases here : name = id
      · subst here
        rw [if_pos (beq_self_eq_true name)] at found
        exact .inl ⟨given, value, by rw [lastUnder?, under, if_pos named, Option.none_or],
          found, reads⟩
      · rw [if_neg (by simpa using here)] at found
        have other : parse key ≠ .ok id := by
          rw [named]
          exact fun same => here (Except.ok.inj same)
        exact .inr ⟨by rw [lastUnder?, under, if_neg other, Option.none_or], found⟩

theorem valueAt_isSome (filed : Filed Reads [] entries found) (id : FunctionId) :
    (valueAt? id found).isSome = (lastUnder? id entries).isSome := by
  rcases filed.valueAt id with ⟨given, value, under, found, _⟩ | ⟨under, found⟩
  · rw [under, found]
    rfl
  · rw [under, found]
    rfl

theorem mem_keys_iff (filed : Filed Reads [] entries found) (id : FunctionId) :
    id ∈ found.map (·.1) ↔ ∃ entry ∈ entries, parse entry.1 = .ok id := by
  rw [← lastUnder?_isSome_iff, ← filed.valueAt_isSome, Option.isSome_iff_ne_none, ne_eq,
    valueAt?_eq_none_iff, not_not]

theorem mem_names_iff (filed : Filed Reads [] entries found) (name : Except Fault FunctionId) :
    name ∈ (found.map (·.1)).map Except.ok ↔ name ∈ entries.map fun entry => parse entry.1 := by
  constructor
  · intro member
    obtain ⟨id, known, rfl⟩ := List.mem_map.mp member
    obtain ⟨entry, given, reads⟩ := (filed.mem_keys_iff id).mp known
    exact List.mem_map.mpr ⟨entry, given, reads⟩
  · intro member
    obtain ⟨entry, given, rfl⟩ := List.mem_map.mp member
    obtain ⟨id, reads⟩ := filed.readable given
    exact List.mem_map.mpr ⟨id, (filed.mem_keys_iff id).mpr ⟨entry, given, reads⟩, reads.symm⟩

theorem length_eq_iff (filed : Filed Reads [] entries found) :
    found.length = entries.length ↔ (entries.map fun entry => parse entry.1).Nodup := by
  have distinct : ((found.map (·.1)).map (Except.ok : FunctionId → Except Fault _)).Nodup :=
    (filed.keySorted List.Pairwise.nil).nodup.map fun _ _ => Except.ok.inj
  constructor
  · intro same
    have all := (List.subperm_of_subset distinct fun name => (filed.mem_names_iff name).mp)
      |>.perm_of_length_le (by simp [same])
    exact all.nodup_iff.mp distinct
  · intro apart
    have all := (List.perm_ext_iff_of_nodup distinct apart).mpr filed.mem_names_iff
    simpa using all.length_eq

end Filed

theorem Library.resolve_listed {V : Vocabulary} (library : Library V) {text : String}
    {tag : FunctionId} {functions : List (FunctionRef V)} (reads : parse text = .ok tag)
    (listed : library.tag? tag = some functions) (nonempty : functions ≠ []) :
    library.resolve ("#" ++ text) = .ok functions := by
  have target : ("#" ++ text).toList = '#' :: text.toList := by simp [String.toList_append]
  have named : parseId (String.ofList text.toList) = .ok tag := by
    unfold parseId
    rw [String.ofList_toList, reads]
    rfl
  unfold Library.resolve
  simp only [target, named, bind, Except.bind, listed]
  cases functions with
  | nil => exact absurd rfl nonempty
  | cons function rest => rfl

def Pack.Member (pack : Pack) (text : String) (function : FunctionRef packWords) : Prop :=
  ∃ id definition, parse text = .ok id ∧ pack.definition? id = some definition ∧
    function = ⟨id, definition.instantiate⟩

namespace Pack

theorem parseName_eq_ok {text : String} {id : FunctionId} (reads : parseName text = .ok id) :
    parse text = .ok id := by
  unfold parseName at reads
  cases name : parse text with
  | error fault =>
    rw [name] at reads
    cases reads
  | ok other =>
    rw [name] at reads
    cases reads
    rfl

theorem addFunctions_filed {entries : List (String × FunctionDef)}
    {sorted found : List (FunctionId × FunctionDef)}
    (adds : addFunctions sorted entries = .ok found) : Filed Eq sorted entries found := by
  induction entries generalizing sorted with
  | nil =>
    cases adds
    exact .nil _
  | cons entry rest ih =>
    obtain ⟨key, definition⟩ := entry
    unfold addFunctions at adds
    cases named : parseName key with
    | error fault => simp [named, bind, Except.bind] at adds
    | ok id =>
      simp only [named, bind, Except.bind] at adds
      exact .cons (parseName_eq_ok named) rfl (ih adds)

def Known (functions : List (FunctionId × FunctionDef)) (texts : List String)
    (ids : List FunctionId) : Prop :=
  List.Forall₂ (fun text id => parse text = .ok id ∧ id ∈ functions.map (·.1)) texts ids

theorem tagMembers_known {functions : List (FunctionId × FunctionDef)} {tag : FunctionId}
    {texts : List String} {ids : List FunctionId}
    (reads : tagMembers functions tag texts = .ok ids) : Known functions texts ids := by
  induction texts generalizing ids with
  | nil =>
    cases reads
    exact .nil
  | cons text rest ih =>
    unfold tagMembers at reads
    cases named : parseName text with
    | error fault => simp [named, bind, Except.bind] at reads
    | ok id =>
      simp only [named, bind, Except.bind] at reads
      split at reads
      · next known =>
        cases others : tagMembers functions tag rest with
        | error fault => simp [others] at reads
        | ok more =>
          simp only [others, pure, Except.pure, Except.ok.injEq] at reads
          subst reads
          refine .cons ⟨parseName_eq_ok named, ?_⟩ (ih others)
          simpa using known
      · cases reads

theorem addTags_filed {functions : List (FunctionId × FunctionDef)}
    {entries : List (String × List String)} {sorted found : List (FunctionId × List FunctionId)}
    (adds : addTags functions sorted entries = .ok found) :
    Filed (Known functions) sorted entries found := by
  induction entries generalizing sorted with
  | nil =>
    cases adds
    exact .nil _
  | cons entry rest ih =>
    obtain ⟨key, texts⟩ := entry
    unfold addTags at adds
    cases named : parseName key with
    | error fault => simp [named, bind, Except.bind] at adds
    | ok tag =>
      cases members : tagMembers functions tag texts with
      | error fault => simp [named, members, bind, Except.bind] at adds
      | ok ids =>
        simp only [named, members, bind, Except.bind] at adds
        exact .cons (parseName_eq_ok named) (tagMembers_known members) (ih adds)

variable {document : PackDocument} {pack : Pack}

theorem ofDocument_filed (loads : ofDocument document = .ok pack) :
    Filed Eq [] document.functions pack.functions ∧
      Filed (Known pack.functions) [] document.tags pack.tags := by
  unfold ofDocument at loads
  cases functions : addFunctions [] document.functions with
  | error fault => simp [functions, bind, Except.bind] at loads
  | ok found =>
    cases tags : addTags found [] document.tags with
    | error fault => simp [functions, tags, bind, Except.bind] at loads
    | ok others =>
      simp only [functions, tags, bind, Except.bind, pure, Except.pure, Except.ok.injEq] at loads
      subst loads
      exact ⟨addFunctions_filed functions, addTags_filed tags⟩

theorem nodup_functionIds (loads : ofDocument document = .ok pack) : pack.functionIds.Nodup :=
  ((ofDocument_filed loads).1.keySorted List.Pairwise.nil).nodup

theorem definition?_eq_lastUnder? (loads : ofDocument document = .ok pack) (id : FunctionId) :
    pack.definition? id = lastUnder? id document.functions := by
  rcases (ofDocument_filed loads).1.valueAt id with ⟨given, value, under, found, rfl⟩ |
    ⟨under, found⟩
  · exact found.trans under.symm
  · exact found.trans under.symm

theorem filterMap_ref?_known {texts : List String} {ids : List FunctionId}
    (known : Known pack.functions texts ids) :
    List.Forall₂ pack.Member texts (ids.filterMap pack.ref?) := by
  induction known with
  | nil => exact .nil
  | @cons text id _ _ first _ ih =>
    obtain ⟨reads, member⟩ := first
    cases defined : pack.definition? id with
    | none => exact absurd member (valueAt?_eq_none_iff.mp defined)
    | some definition =>
      have found : pack.ref? id = some ⟨id, definition.instantiate⟩ := by
        unfold ref?
        rw [defined]
        rfl
      rw [List.filterMap_cons_some found]
      exact .cons ⟨id, definition, reads, defined, rfl⟩ ih

theorem resolve_tag_lastUnder? (loads : ofDocument document = .ok pack) {key : String}
    {tag : FunctionId} {texts : List String} (reads : parse key = .ok tag)
    (under : lastUnder? tag document.tags = some texts) (nonempty : texts ≠ []) :
    ∃ functions, pack.library.resolve ("#" ++ key) = .ok functions ∧
      List.Forall₂ pack.Member texts functions := by
  rcases (ofDocument_filed loads).2.valueAt tag with
    ⟨given, ids, last, found, known⟩ | ⟨unlisted, _⟩
  · rw [under] at last
    obtain rfl := Option.some.inj last
    have members := filterMap_ref?_known known
    refine ⟨ids.filterMap pack.ref?, pack.library.resolve_listed reads ?_ ?_, members⟩
    · have listed : (pack.tags.find? (·.1 == tag)).map (·.2) = some ids := found
      obtain ⟨entry, here, same⟩ := Option.map_eq_some_iff.mp listed
      unfold library
      simp only [here, Option.map_some, same]
    · intro empty
      rw [empty] at members
      cases members
      exact nonempty rfl
  · rw [unlisted] at under
    cases under

structure Keeps (pack : Pack) (document : PackDocument) : Prop where
  functions : ∀ entry ∈ document.functions, ∃ id,
    parse entry.1 = .ok id ∧ pack.definition? id = some entry.2
  count : pack.functionIds.length = document.functions.length
  tags : ∀ entry ∈ document.tags, entry.2 ≠ [] → ∃ functions,
    pack.library.resolve ("#" ++ entry.1) = .ok functions ∧
      List.Forall₂ pack.Member entry.2 functions

theorem nodup_parse_iff {α β : Type} {Reads : β → α → Prop} {found : List (FunctionId × α)}
    {entries : List (String × β)} (filed : Filed Reads [] entries found) :
    (entries.map fun entry => parse entry.1).Nodup ↔ Unambiguous (entries.map (·.1)) := by
  rw [← nodup_map_parse_iff, List.map_map]
  · rfl
  · intro key member
    obtain ⟨entry, given, rfl⟩ := List.mem_map.mp member
    exact filed.readable given

theorem keeps_of_unambiguous (loads : ofDocument document = .ok pack)
    (functions : Unambiguous (document.functions.map (·.1)))
    (tags : Unambiguous (document.tags.map (·.1))) : pack.Keeps document := by
  obtain ⟨filed, listed⟩ := ofDocument_filed loads
  have names := (nodup_parse_iff filed).mpr functions
  have tagNames := (nodup_parse_iff listed).mpr tags
  refine ⟨fun entry member => ?_, ?_, fun entry member nonempty => ?_⟩
  · obtain ⟨id, reads⟩ := filed.readable member
    exact ⟨id, reads, (definition?_eq_lastUnder? loads id).trans
      (lastUnder?_of_nodup names member reads)⟩
  · unfold functionIds
    rw [List.length_map]
    exact filed.length_eq_iff.mpr names
  · obtain ⟨tag, reads⟩ := listed.readable member
    exact resolve_tag_lastUnder? loads reads (lastUnder?_of_nodup tagNames member reads) nonempty

/-- An accepted document is read entry by entry: under each name stands the last entry that has
it, and nothing else. So nothing is lost unless a name is written both short and in full. -/
theorem ofDocument_keeps (loads : ofDocument document = .ok pack) :
    (∀ id, pack.definition? id = lastUnder? id document.functions) ∧
    pack.functionIds.Nodup ∧
    (∀ id, id ∈ pack.functionIds ↔ ∃ entry ∈ document.functions, parse entry.1 = .ok id) ∧
    (pack.functionIds.length = document.functions.length ↔
      Unambiguous (document.functions.map (·.1))) ∧
    (∀ key tag texts, parse key = .ok tag → lastUnder? tag document.tags = some texts →
      texts ≠ [] → ∃ functions, pack.library.resolve ("#" ++ key) = .ok functions ∧
        List.Forall₂ pack.Member texts functions) ∧
    (Unambiguous (document.functions.map (·.1)) → Unambiguous (document.tags.map (·.1)) →
      pack.Keeps document) := by
  obtain ⟨filed, listed⟩ := ofDocument_filed loads
  refine ⟨definition?_eq_lastUnder? loads, nodup_functionIds loads, filed.mem_keys_iff, ?_,
    fun key tag texts => resolve_tag_lastUnder? loads, keeps_of_unambiguous loads⟩
  unfold functionIds
  rw [List.length_map, filed.length_eq_iff]
  exact nodup_parse_iff filed

/-- A document with a name in the default namespace and one in another, and a tag of both. -/
def twoNames : PackDocument where
  functions := [("demo:g", { params := ["n"] }), ("f", { lines := [.null] })]
  tags := [("load", ["f", "demo:g"])]

theorem ofDocument_keeps_two : ∃ pack, ofDocument twoNames = .ok pack ∧
    Unambiguous (twoNames.functions.map (·.1)) ∧ Unambiguous (twoNames.tags.map (·.1)) ∧
    pack.Keeps twoNames := by
  have functions : Unambiguous (twoNames.functions.map (·.1)) := by decide
  have tags : Unambiguous (twoNames.tags.map (·.1)) := by decide
  exact ⟨_, rfl, functions, tags, (ofDocument_keeps rfl).2.2.2.2.2 functions tags⟩

def sayLine (message : String) : Json :=
  .obj [("run", .obj [("message", .str message), ("t", .str "Say")])]

/-- A document in which the same name is written short and in full. -/
def sameName : PackDocument where
  functions :=
    [("f", { lines := [sayLine "short"] }), ("minecraft:f", { lines := [sayLine "full"] })]

/-- The entry of the short key is overwritten. -/
theorem ofDocument_overwrites : ∃ pack id full, ofDocument sameName = .ok pack ∧
    (sameName.functions.map (·.1)).Nodup ∧ sameName.functions[1]? = some ("minecraft:f", full) ∧
    parse "f" = .ok id ∧ pack.definition? id = some full ∧
    pack.functionIds.length = 1 ∧ ¬pack.Keeps sameName := by
  refine ⟨_, _, _, rfl, by decide, rfl, rfl, rfl, rfl, fun keeps => ?_⟩
  have count := keeps.count
  cases count

end Pack

end PackEngine
