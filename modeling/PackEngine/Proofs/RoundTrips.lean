import PackEngine.Pack.Codec
import PackEngine.Proofs.Loading

/-! Command lines written as document values and read again. A written line reads as itself, unless
it holds a number that is not finite or null for arguments; no line that has been read does. -/
namespace PackEngine

namespace Binary64

/-! Whole numbers of 64 bits are far below the largest finite double. -/

theorem isFinite_ofMagnitude {magnitude : Nat} (small : magnitude < infinityBits)
    (negative : Bool) : (ofMagnitude negative magnitude).isFinite := by
  have bound : magnitude < 9218868437227405312 := small
  cases negative <;>
    simp [isFinite, magnitudeBits, ofMagnitude, signBit, infinityBits] <;> omega

theorem roundQuotient_le (num den : Nat) : roundQuotient num den ≤ num / den + 1 := by
  simp only [roundQuotient]
  split
  · omega
  · split <;> omega

theorem lastPlace_one_bounds {num : Nat} (small : num.log2 < 64) :
    (num.log2 : Int) ≤ lastPlace num 1 + 53 ∧ lastPlace num 1 ≤ 12 := by
  have one : Nat.log2 1 = 0 := by decide
  simp only [lastPlace, one]
  split <;> omega

theorem significand_one_lt {num : Nat} {place : Int} (below : (num.log2 : Int) ≤ place + 53) :
    num * Nat.pow 2 (-place).toNat / (1 * Nat.pow 2 place.toNat) < Nat.pow 2 54 := by
  have digits : num < 2 ^ (num.log2 + 1) := Nat.lt_log2_self
  have exponents : num.log2 + 1 + (-place).toNat ≤ 54 + place.toNat := by omega
  rw [Nat.one_mul]
  refine (Nat.div_lt_iff_lt_mul (Nat.pow_pos Nat.two_pos)).mpr ?_
  calc num * 2 ^ (-place).toNat
      < 2 ^ (num.log2 + 1) * 2 ^ (-place).toNat :=
        Nat.mul_lt_mul_of_pos_right digits (Nat.pow_pos Nat.two_pos)
    _ = 2 ^ (num.log2 + 1 + (-place).toNat) := (Nat.pow_add ..).symm
    _ ≤ 2 ^ (54 + place.toNat) := Nat.pow_le_pow_right Nat.two_pos exponents
    _ = 2 ^ 54 * 2 ^ place.toNat := Nat.pow_add ..

theorem isFinite_ofRatio_one {num : Nat} (small : num < Nat.pow 2 64) (negative : Bool) :
    (ofRatio negative num 1).isFinite := by
  unfold ofRatio
  split
  · exact isFinite_ofMagnitude (by decide) negative
  · next positive =>
    obtain ⟨below, above⟩ := lastPlace_one_bounds ((Nat.log2_lt positive).mpr small)
    refine isFinite_ofMagnitude ?_ negative
    have rounded : _ ≤ 18014398509481984 :=
      Nat.le_trans (roundQuotient_le _ _) (significand_one_lt below)
    have field : (lastPlace num 1 + 1074).toNat ≤ 1086 := by omega
    have scaled : (lastPlace num 1 + 1074).toNat * Nat.pow 2 52 ≤ 1086 * Nat.pow 2 52 :=
      Nat.mul_le_mul_right _ field
    have room : 1086 * Nat.pow 2 52 + 18014398509481984 < infinityBits := by decide
    omega

theorem isFinite_ofInt {n : Int} (low : -(Int.pow 2 63) ≤ n) (high : n < Int.pow 2 64) :
    (ofInt n).isFinite := by
  have low : -9223372036854775808 ≤ n := low
  have high : n < 18446744073709551616 := high
  have small : n.natAbs < 18446744073709551616 := by omega
  exact isFinite_ofRatio_one small _

end Binary64

def JsonNumber.Valid : JsonNumber → Prop
  | .int n => -(Int.pow 2 63) ≤ n ∧ n < Int.pow 2 64
  | .float x => x.isFinite

theorem JsonNumber.valid_int {n : Int} : (JsonNumber.int n).Valid ↔
    -9223372036854775808 ≤ n ∧ n < 18446744073709551616 := Iff.rfl

/-- A value of a document: its numbers are whole numbers of 64 bits and finite doubles. -/
inductive Json.Valid : Json → Prop where
  | null : Valid .null
  | bool (b : Bool) : Valid (.bool b)
  | num {n : JsonNumber} (valid : n.Valid) : Valid (.num n)
  | str (s : String) : Valid (.str s)
  | arr {items : List Json} (valid : ∀ item ∈ items, Valid item) : Valid (.arr items)
  | obj {members : List (String × Json)} (valid : ∀ member ∈ members, Valid member.2) :
      Valid (.obj members)

namespace Json

attribute [simp] Valid.null Valid.bool Valid.str

@[simp] theorem valid_num {n : JsonNumber} : (num n).Valid ↔ n.Valid :=
  ⟨fun | .num valid => valid, .num⟩

@[simp] theorem valid_arr {items : List Json} : (arr items).Valid ↔ ∀ item ∈ items, item.Valid :=
  ⟨fun | .arr valid => valid, .arr⟩

@[simp] theorem valid_obj {members : List (String × Json)} :
    (obj members).Valid ↔ ∀ member ∈ members, member.2.Valid :=
  ⟨fun | .obj valid => valid, .obj⟩

end Json

structure Position.Finite (p : Position) : Prop where
  x : p.x.isFinite
  y : p.y.isFinite
  z : p.z.isFinite

def LineModifier.Finite : LineModifier → Prop
  | .redirect (.position p) => p.Finite
  | _ => True

/-! Reading what has been written. -/

section Members

variable {members : List (String × Json)}

theorem valueAt?_sorted (distinct : (members.map (·.1)).Nodup) (k : String)
    (before : List (String × Json)) :
    valueAt? k (members.foldl (fun sorted (k, v) => insertSorted k v sorted) before) =
      (valueAt? k members).or (valueAt? k before) := by
  induction members generalizing before with
  | nil => rfl
  | cons member rest ih =>
    obtain ⟨key, value⟩ := member
    obtain ⟨fresh, others⟩ := List.nodup_cons.mp distinct
    rw [List.foldl_cons, ih others, valueAt?_insertSorted]
    by_cases same : key = k
    · subst same
      rw [valueAt?_eq_none_iff.mpr fresh]
      simp [valueAt?]
    · simp [valueAt?, same]

theorem valueAt?_without (key k : String) :
    valueAt? k (members.filter (·.1 != key)) = if key = k then none else valueAt? k members := by
  unfold valueAt?
  rw [List.find?_filter]
  split
  · next same =>
    subst same
    simp
  · next apart =>
    congr 2
    funext member
    by_cases here : member.1 = k
    · simp [here, Ne.symm apart]
    · simp [here]

theorem mem_of_mem_sorted {member : String × Json} {before : List (String × Json)}
    (here : member ∈ members.foldl (fun sorted (k, v) => insertSorted k v sorted) before) :
    member ∈ members ∨ member ∈ before := by
  induction members generalizing before with
  | nil => exact .inr here
  | cons first rest ih =>
    rcases ih here with later | earlier
    · exact .inl (.tail _ later)
    · rcases mem_insertSorted earlier with rfl | old
      · exact .inl List.mem_cons_self
      · exact .inr old

end Members

namespace Decode

theorem all_map {α β : Type} {decode : Json → Decoded β} {encode : α → Json} {value : α → β}
    {items : List α} (each : ∀ item ∈ items, decode (encode item) = .ok (value item)) :
    all decode (items.map encode) = .ok (items.map value) := by
  induction items with
  | nil => rfl
  | cons item rest ih =>
    simp only [List.map_cons, all, each item List.mem_cons_self, bind, Except.bind,
      ih fun later member => each later (.tail _ member)]
    rfl

@[simp] theorem text_str (s : String) : text (.str s) = .ok s := rfl

@[simp] theorem sequence_text (texts : List String) :
    sequence text (.arr (texts.map .str)) = .ok texts := by
  have read := @all_map _ _ text Json.str id texts fun _ _ => rfl
  rwa [List.map_id] at read

@[simp] theorem int32_encode (n : Int32) : int32 (Encode.int32 n) = .ok n := by
  have low : -(Int.pow 2 31) ≤ n.toInt := n.le_toInt
  have high : n.toInt < Int.pow 2 31 := n.toInt_lt
  simp only [int32, Encode.int32, low, high, and_self, if_true, Int32.ofInt_toInt]

@[simp] theorem optional_int32_encode (bound : Option Int32) :
    optional int32 (Encode.optional Encode.int32 bound) = .ok bound := by
  cases bound with
  | none => rfl
  | some n => exact congrArg (Except.map some) (int32_encode n)

theorem float_encode {x : Binary64} (finite : x.isFinite) : float (Encode.float x) = .ok x := by
  rw [Encode.float, if_pos finite]
  rfl

theorem checkMembers_eq_self {variant : Variant α} {members : List (String × Json)}
    (each : ∀ member ∈ members, variant.fields.any (·.name == member.1) ∧
      variant.check member.1 member.2 = .ok ()) :
    checkMembers variant members = .ok members := by
  induction members with
  | nil => rfl
  | cons member rest ih =>
    obtain ⟨known, fits⟩ := each member List.mem_cons_self
    simp only [checkMembers, known, fits, ih fun other later => each other (.tail _ later), bind,
      Except.bind, if_true]
    rfl

theorem tagged_object {variants : List (Variant α)} {variant : Variant α} {tag : String}
    (type : String) (members : List (String × Json))
    (picked : variants.find? (·.tag == tag) = some variant)
    (distinct : ("t" :: members.map (·.1)).Nodup)
    (each : ∀ member ∈ members, variant.fields.any (·.name == member.1) ∧
      variant.check member.1 member.2 = .ok ())
    (complete : missing? variant.fields members = none) :
    tagged type variants (Encode.object tag members) = variant.build (Found.value members) := by
  let sorted := (("t", Json.str tag) :: members).foldl
    (fun sorted (k, v) => insertSorted k v sorted) []
  have found (k : String) : valueAt? k sorted = valueAt? k (("t", .str tag) :: members) :=
    (@valueAt?_sorted (("t", .str tag) :: members) distinct k []).trans Option.or_none
  obtain ⟨fresh, -⟩ := List.nodup_cons.mp distinct
  have others (k : String) : valueAt? k (sorted.filter (·.1 != "t")) = valueAt? k members := by
    rw [valueAt?_without, found]
    split
    · next same =>
      subst same
      exact (valueAt?_eq_none_iff.mpr fresh).symm
    · next apart => simp [valueAt?, apart]
  have mine : ∀ member ∈ sorted.filter (·.1 != "t"), member ∈ members := by
    intro member here
    obtain ⟨here, apart⟩ := List.mem_filter.mp here
    rcases mem_of_mem_sorted here with first | foreign
    · rcases List.mem_cons.mp first with rfl | later
      · simp at apart
      · exact later
    · cases foreign
  have read : checkMembers variant (sorted.filter (·.1 != "t")) = .ok _ :=
    checkMembers_eq_self fun member here => each member (mine member here)
  have tag : valueAt? "t" sorted = some (.str tag) := found "t"
  have values : Found.value (sorted.filter (·.1 != "t")) = Found.value members := by
    funext name
    rw [Found.value, others, Found.value]
  have full : missing? variant.fields (sorted.filter (·.1 != "t")) = none := by
    simpa only [missing?, others] using complete
  change tagged type variants (.obj sorted) = _
  simp only [tagged, tag, pick, picked, fromMembers, read, full, values, bind, Except.bind]

@[simp] theorem checkText_str (name s : String) : checkText name (.str s) = .ok () := rfl

theorem position_encode {p : Position} (finite : p.Finite) :
    position (.arr [Encode.float p.x, Encode.float p.y, Encode.float p.z]) = .ok p := by
  simp [position, coordinate, float_encode, finite.x, finite.y, finite.z, bind, Except.bind]
  rfl

theorem modifier_encode {m : LineModifier} (finite : m.Finite) :
    modifier (Encode.modifier m) = .ok m := by
  have object {variant : Variant LineModifier} {tag : String} (members : List (String × Json)) :=
    @tagged_object _ modifierVariants variant tag "ModifierSpec" members
  cases m with
  | redirect r =>
    cases r with
    | entities targets =>
      refine (object _ rfl (by simp) ?_ rfl).trans ?_
      · simp [textFields, Except.map]
      · simp [Found.value, valueAt?, bind, Except.bind, pure, Except.pure]
    | position p =>
      have read := position_encode (p := p) finite
      refine (object _ rfl (by simp) ?_ rfl).trans ?_
      · simp [textFields, read, Except.map]
      · simp [Found.value, valueAt?, read, bind, Except.bind, pure, Except.pure]
    | dimension d => exact (object _ rfl (by simp) (by simp [textFields]) rfl).trans rfl
    | scoreWithin holder objective low high =>
      refine (object _ rfl (by simp) ?_ rfl).trans ?_
      · simp [textFields, Except.map]
      · simp [Found.value, valueAt?, bind, Except.bind, pure, Except.pure]
    | store stored holder objective =>
      cases stored with
      | result => exact (object _ rfl (by simp) (by simp [textFields]) rfl).trans rfl
      | success => exact (object _ rfl (by simp) (by simp [textFields]) rfl).trans rfl
  | condition c =>
    obtain ⟨polarity, target⟩ := c
    cases polarity with
    | holds => exact (object _ rfl (by simp) (by simp [textFields]) rfl).trans rfl
    | fails => exact (object _ rfl (by simp) (by simp [textFields]) rfl).trans rfl

theorem optional_ok {value : Json} (present : value ≠ .null) :
    optional .ok value = .ok (some value) := by
  cases value with
  | null => exact absurd rfl present
  | _ => rfl

theorem action_encode {a : LineAction}
    (present : ∀ target, a ≠ .call (.function target (some .null))) :
    action (Encode.action a) = .ok a := by
  have object {variant : Variant LineAction} {tag : String} (members : List (String × Json)) :=
    @tagged_object _ actionVariants variant tag "ActionSpec" members
  cases a with
  | leaf l =>
    cases l with
    | say message => exact (object _ rfl (by simp) (by simp [textFields]) rfl).trans rfl
    | value n =>
      refine (object _ rfl (by simp) ?_ rfl).trans ?_
      · simp [textFields, Except.map]
      · simp [Found.value, valueAt?, bind, Except.bind, pure, Except.pure]
    | fail message => exact (object _ rfl (by simp) (by simp [textFields]) rfl).trans rfl
    | add holder objective amount =>
      refine (object _ rfl (by simp) ?_ rfl).trans ?_
      · simp [textFields, Except.map]
      · simp [Found.value, valueAt?, bind, Except.bind, pure, Except.pure]
    | get holder objective => exact (object _ rfl (by simp) (by simp [textFields]) rfl).trans rfl
  | call c =>
    cases c with
    | function target arguments =>
      cases arguments with
      | none => exact (object _ rfl (by simp) (by simp [textFields]) rfl).trans rfl
      | some arguments =>
        have given : arguments ≠ .null := by
          rintro rfl
          exact present target rfl
        refine (object _ rfl (by simp) ?_ rfl).trans ?_
        · simp [textFields]
        · simp [Found.value, valueAt?, optional_ok given, bind, Except.bind, pure, Except.pure]
    | returnValue n =>
      refine (object _ rfl (by simp) ?_ rfl).trans ?_
      · simp [textFields, Except.map]
      · simp [Found.value, valueAt?, bind, Except.bind, pure, Except.pure]
    | returnFail => exact (object [] rfl (by simp) (by simp) rfl).trans rfl
    | debug target => exact (object _ rfl (by simp) (by simp [textFields]) rfl).trans rfl

end Decode

structure CommandLine.Storable (line : CommandLine) : Prop where
  finite : ∀ m ∈ line.modifiers, m.Finite
  present : ∀ target, line.action ≠ .call (.function target (some .null))

namespace Decode

theorem modifiers_encode {ms : List LineModifier} (finite : ∀ m ∈ ms, m.Finite) :
    modifiers (.arr (ms.map Encode.modifier)) = .ok ms := by
  have read := @all_map _ _ modifier Encode.modifier id ms fun m member =>
    modifier_encode (finite m member)
  rwa [List.map_id] at read

theorem commandLine_encode {line : CommandLine} (storable : line.Storable) :
    commandLine (Encode.commandLine line) = .ok line := by
  have modifiers := modifiers_encode storable.finite
  have action := action_encode storable.present
  obtain ⟨ms, isReturn, a⟩ := line
  cases ms with
  | nil =>
    change commandLine (.obj [("return", .bool isReturn), ("run", Encode.action a)]) = _
    simp [commandLine, lineMembers, flag, action, bind, Except.bind, pure, Except.pure]
  | cons m ms =>
    change commandLine (.obj
      [("modifiers", .arr ((m :: ms).map Encode.modifier)),
        ("return", .bool isReturn), ("run", Encode.action a)]) = _
    rw [commandLine, lineMembers, if_pos (by rfl), modifiers]
    simp [lineMembers, flag, action, bind, Except.bind, pure, Except.pure]

/-! What has been read can be written. -/

theorem bind_eq_ok {α β : Type} {first : Decoded α} {next : α → Decoded β} {b : β} :
    first.bind next = .ok b ↔ ∃ a, first = .ok a ∧ next a = .ok b := by
  cases first with
  | error error => simp [Except.bind]
  | ok a => simp [Except.bind]

theorem map_eq_ok {α β : Type} {first : Decoded α} {f : α → β} {b : β} :
    first.map f = .ok b ↔ ∃ a, first = .ok a ∧ f a = b := by
  cases first with
  | error error => simp [Except.map]
  | ok a => simp [Except.map]

theorem all_ok {α : Type} {decode : Json → Decoded α} {items : List Json} {values : List α}
    (read : all decode items = .ok values) :
    ∀ value ∈ values, ∃ item ∈ items, decode item = .ok value := by
  induction items generalizing values with
  | nil =>
    cases read
    simp
  | cons item rest ih =>
    obtain ⟨first, one, tail⟩ := bind_eq_ok.mp read
    obtain ⟨others, more, ⟨⟩⟩ := bind_eq_ok.mp tail
    refine List.forall_mem_cons.mpr ⟨⟨item, List.mem_cons_self, one⟩, fun value member => ?_⟩
    obtain ⟨source, here, was⟩ := ih more value member
    exact ⟨source, .tail _ here, was⟩

theorem checkMembers_found {variant : Variant α} {members found : List (String × Json)}
    (read : checkMembers variant members = .ok found) : ∀ entry ∈ found, entry ∈ members := by
  induction members generalizing found with
  | nil =>
    cases read
    simp
  | cons member rest ih =>
    unfold checkMembers at read
    split at read
    · obtain ⟨-, -, read⟩ := bind_eq_ok.mp read
      obtain ⟨others, more, ⟨⟩⟩ := bind_eq_ok.mp read
      exact List.forall_mem_cons.mpr
        ⟨List.mem_cons_self, fun entry here => .tail _ (ih more entry here)⟩
    · exact fun entry here => .tail _ (ih read entry here)

theorem checkItems_found {type : String} {variant : Variant α} {fields : List Field} {index : Nat}
    {items : List Json} {found : Found}
    (read : checkItems type variant index fields items = .ok found) :
    ∀ entry ∈ found, entry.2 ∈ items := by
  induction fields generalizing index items found with
  | nil =>
    unfold checkItems at read
    cases read
    simp
  | cons field fields ih =>
    cases items with
    | nil =>
      unfold checkItems at read
      split at read
      · exact ih read
      · cases read
    | cons item rest =>
      obtain ⟨-, -, read⟩ := bind_eq_ok.mp read
      obtain ⟨others, more, ⟨⟩⟩ := bind_eq_ok.mp read
      exact List.forall_mem_cons.mpr
        ⟨List.mem_cons_self, fun entry here => .tail _ (ih more entry here)⟩

theorem Found.valid {found : Found} (valid : ∀ entry ∈ found, entry.2.Valid) (name : String) :
    (found.value name).Valid := by
  unfold Found.value
  cases given : valueAt? name found with
  | none => exact .null
  | some value => exact valid _ (mem_of_valueAt? given)

theorem pick_mem {variants : List (Variant α)} {tag : Json} {variant : Variant α}
    (picked : pick variants tag = .ok variant) : variant ∈ variants := by
  unfold pick at picked
  split at picked
  · split at picked
    · next found =>
      cases picked
      exact List.mem_of_find?_eq_some found
    · cases picked
  · cases picked

theorem tagged_ok {type : String} {variants : List (Variant α)} {value : Json} {a : α}
    (valid : value.Valid) (read : tagged type variants value = .ok a) :
    ∃ variant ∈ variants, ∃ values : String → Json,
      (∀ name, (values name).Valid) ∧ variant.build values = .ok a := by
  unfold tagged at read
  split at read
  · next members =>
    rw [Json.valid_obj] at valid
    split at read
    · cases read
    · obtain ⟨variant, picked, read⟩ := bind_eq_ok.mp read
      obtain ⟨found, checked, read⟩ := bind_eq_ok.mp read
      split at read
      · cases read
      · refine ⟨variant, pick_mem picked, found.value, Found.valid fun entry here => ?_, read⟩
        exact valid entry (List.mem_filter.mp (checkMembers_found checked entry here)).1
  · cases read
  · next tag items =>
    rw [Json.valid_arr] at valid
    obtain ⟨variant, picked, read⟩ := bind_eq_ok.mp read
    obtain ⟨found, checked, read⟩ := bind_eq_ok.mp read
    split at read
    · cases read
    · refine ⟨variant, pick_mem picked, found.value, Found.valid fun entry here => ?_, read⟩
      exact valid _ (.tail _ (checkItems_found checked entry here))
  · cases read

theorem coordinate_ok {index : Nat} {items : List Json} {x : Binary64}
    (valid : ∀ item ∈ items, item.Valid) (read : coordinate index items = .ok x) : x.isFinite := by
  unfold coordinate at read
  split at read
  · next item here =>
    have valid := valid item (List.mem_of_getElem? here)
    unfold float at read
    split at read
    · cases read
      obtain ⟨low, high⟩ := Json.valid_num.mp valid
      exact Binary64.isFinite_ofInt low high
    · cases read
      exact Json.valid_num.mp valid
    · cases read
  · cases read

theorem position_ok {value : Json} {p : Position} (valid : value.Valid)
    (read : position value = .ok p) : p.Finite := by
  unfold position at read
  split at read
  · rw [Json.valid_arr] at valid
    obtain ⟨x, readX, read⟩ := bind_eq_ok.mp read
    obtain ⟨y, readY, read⟩ := bind_eq_ok.mp read
    obtain ⟨z, readZ, read⟩ := bind_eq_ok.mp read
    split at read
    · cases read
    · cases read
      exact ⟨coordinate_ok valid readX, coordinate_ok valid readY, coordinate_ok valid readZ⟩
  · cases read

/-- Only one of the variants builds a position. -/
theorem modifier_ok {value : Json} {m : LineModifier} (valid : value.Valid)
    (read : modifier value = .ok m) : m.Finite := by
  obtain ⟨variant, member, values, valid, built⟩ := tagged_ok valid read
  unfold LineModifier.Finite
  split
  · next p =>
    have read : position (values "pos") = .ok p := by
      simp only [modifierVariants, List.mem_cons, List.not_mem_nil, or_false] at member
      rcases member with rfl | rfl | rfl | rfl | rfl | rfl | rfl | rfl <;>
        simp [bind, bind_eq_ok, pure, Except.pure] at built
      exact built
    exact position_ok (valid "pos") read
  · trivial

theorem optional_ne_null {value : Json} : optional .ok value ≠ .ok (some .null) := by
  cases value <;> simp [optional, Except.map]

theorem action_ok {value : Json} {a : LineAction} (valid : value.Valid)
    (read : action value = .ok a) (target : String) :
    a ≠ .call (.function target (some .null)) := by
  obtain ⟨variant, member, values, -, built⟩ := tagged_ok valid read
  rintro rfl
  simp only [actionVariants, List.mem_cons, List.not_mem_nil, or_false] at member
  rcases member with rfl | rfl | rfl | rfl | rfl | rfl | rfl | rfl | rfl <;>
    simp [bind, bind_eq_ok, pure, Except.pure, optional_ne_null] at built

theorem modifiers_ok {value : Json} {ms : List LineModifier} (valid : value.Valid)
    (read : modifiers value = .ok ms) : ∀ m ∈ ms, m.Finite := by
  unfold modifiers sequence at read
  split at read
  · rw [Json.valid_arr] at valid
    intro m member
    obtain ⟨item, here, was⟩ := all_ok read m member
    exact modifier_ok (valid item here) was
  · cases read

theorem lineMembers_ok {members : List (String × Json)} {line last : PartialLine}
    (valid : ∀ member ∈ members, member.2.Valid)
    (finite : ∀ m ∈ line.modifiers, m.Finite)
    (present : ∀ a ∈ line.action, ∀ target, a ≠ .call (.function target (some .null)))
    (reads : lineMembers line members = .ok last) :
    (∀ m ∈ last.modifiers, m.Finite) ∧
      ∀ a ∈ last.action, ∀ target, a ≠ .call (.function target (some .null)) := by
  induction members generalizing line with
  | nil =>
    cases reads
    exact ⟨finite, present⟩
  | cons member rest ih =>
    obtain ⟨first, others⟩ := List.forall_mem_cons.mp valid
    unfold lineMembers at reads
    split at reads
    · obtain ⟨ms, was, reads⟩ := bind_eq_ok.mp reads
      refine ih others ?_ ?_ reads
      · exact modifiers_ok first was
      · exact present
    split at reads
    · obtain ⟨isReturn, -, reads⟩ := bind_eq_ok.mp reads
      refine ih others ?_ ?_ reads
      · exact finite
      · exact present
    split at reads
    · obtain ⟨a, was, reads⟩ := bind_eq_ok.mp reads
      refine ih others ?_ ?_ reads
      · exact finite
      · rintro _ ⟨⟩
        exact action_ok first was
    · cases reads

theorem commandLine_ok {value : Json} {line : CommandLine} (valid : value.Valid)
    (read : commandLine value = .ok line) : line.Storable := by
  unfold commandLine at read
  split at read
  · rw [Json.valid_obj] at valid
    obtain ⟨found, members, read⟩ := bind_eq_ok.mp read
    obtain ⟨finite, present⟩ := lineMembers_ok valid (by simp) (by simp) members
    split at read
    · cases read
    · next a given =>
      cases read
      exact ⟨finite, present a given⟩
  · rw [Json.valid_arr] at valid
    obtain ⟨ms, readFirst, read⟩ := bind_eq_ok.mp read
    obtain ⟨isReturn, -, read⟩ := bind_eq_ok.mp read
    obtain ⟨a, readThird, read⟩ := bind_eq_ok.mp read
    split at read
    · cases read
      exact ⟨modifiers_ok (valid _ (by simp)) readFirst, action_ok (valid _ (by simp)) readThird⟩
    · cases read
  · split at read
    · obtain ⟨-, -, read⟩ := bind_eq_ok.mp read
      obtain ⟨-, -, ⟨⟩⟩ := bind_eq_ok.mp read
    · obtain ⟨-, -, ⟨⟩⟩ := bind_eq_ok.mp read
    · cases read
  · cases read

end Decode

namespace CommandLine

def recode (value : Json) : Decoded Json :=
  (Decode.commandLine value).map Encode.commandLine

/-- A written line reads as itself if it can be written at all. Every line that has been read from
a document can, so to read a written line and write it again changes nothing. -/
theorem round_trips :
    (∀ line : CommandLine, line.Storable →
      Decode.commandLine (Encode.commandLine line) = .ok line) ∧
    (∀ value line, value.Valid → Decode.commandLine value = .ok line →
      line.Storable ∧ Decode.commandLine (Encode.commandLine line) = .ok line) ∧
    (∀ value again, value.Valid → recode value = .ok again → recode again = .ok again) := by
  have reads (value : Json) (line : CommandLine) (valid : value.Valid)
      (read : Decode.commandLine value = .ok line) :
      line.Storable ∧ Decode.commandLine (Encode.commandLine line) = .ok line :=
    have storable := Decode.commandLine_ok valid read
    ⟨storable, Decode.commandLine_encode storable⟩
  refine ⟨fun line => Decode.commandLine_encode, reads, fun value again valid recoded => ?_⟩
  obtain ⟨line, read, rfl⟩ := Decode.map_eq_ok.mp recoded
  rw [recode, (reads value line valid read).2]
  rfl

/-- A line in the array form, with whole numbers for a position, a key too many, and null for the
arguments. -/
def positionedCall : Json :=
  .arr
    [.arr [.obj [("pos", .arr [.num (.int 1), .num (.int (-2)), .num (.int 3)]),
      ("t", .str "Positioned"), ("why", .null)]],
      .bool true,
      .obj [("arguments", .null), ("function", .str "demo:f"), ("t", .str "Function")]]

theorem positionedCall_valid : positionedCall.Valid := by
  simp [positionedCall, JsonNumber.valid_int]

theorem round_trips_positionedCall :
    ∃ line again, line.Storable ∧ Decode.commandLine positionedCall = .ok line ∧
      Decode.commandLine (Encode.commandLine line) = .ok line ∧
      recode positionedCall = .ok again ∧ recode again = .ok again := by
  have read : Decode.commandLine positionedCall = .ok _ := rfl
  have recoded : recode positionedCall = .ok _ := rfl
  obtain ⟨storable, -⟩ := round_trips.2.1 _ _ positionedCall_valid read
  exact ⟨_, _, storable, read, round_trips.1 _ storable, recoded,
    round_trips.2.2 _ _ positionedCall_valid recoded⟩

end CommandLine

end PackEngine
