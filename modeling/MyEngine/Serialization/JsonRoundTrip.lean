import Mathlib.Data.List.Forall2
import Mathlib.Data.List.TakeWhile
import MyEngine.Serialization.RuntimeValue
import MyEngine.Support.Results

/-!
# Serialization — JsonRoundTrip

When a document that is parsed and written again denotes the same value.

* `Key`: what a key must be to come through.
* `makeJsonValue_ok`: with such keys the document comes back.
* `keys_of_makeJsonValue`: what comes back at all has such keys.
* `roundTrip_iff`: both for a parsed string.
-/

namespace MyEngine.Serialization

open Support

/-- The character that ends a C string. -/
def nul : Char := Char.ofNat 0

/-- A key that is not empty and that a C string can hold. -/
def Key (key : Text) : Prop := key ≠ [] ∧ nul ∉ key

theorem cString_eq {key : Text} (h : nul ∉ key) : cString key = key := by
  rw [cString, List.takeWhile_eq_self_iff]
  intro c hc
  refine decide_eq_true fun heq => h ?_
  rw [nul, ← heq]
  exact hc

theorem nul_notMem_cString (key : Text) : nul ∉ cString key := by
  intro h
  have hne := List.mem_takeWhile_imp h
  exact absurd rfl (of_decide_eq_true hne)

section

variable (lib : JsonCpp)

theorem valuesFromJson_eq (transformString : Text → Option Text) (elements : List Json) :
    valuesFromJson lib transformString elements =
      elements.map (valueFromJson lib transformString) := by
  induction elements with
  | nil => rfl
  | cons j elements ih => rw [valuesFromJson, ih, List.map_cons]

theorem fieldsFromJson_eq (transformString : Text → Option Text) (members : Members) :
    fieldsFromJson lib transformString members =
      members.map fun member => (member.1, valueFromJson lib transformString member.2) := by
  induction members with
  | nil => rfl
  | cons member members ih => rw [fieldsFromJson, ih, List.map_cons]

/-- Every field shown has the value of the first member of its key, or nothing. -/
theorem mem_shownFields {transformString : Text → Option Text} {members : Members}
    {field : Text × RuntimeValue}
    (h : field ∈ shownFields (fieldsFromJson lib transformString members)) :
    ∃ j, members.lookup field.1 = some j ∧
      field.2 = if field.1 = [] then .nullptr else valueFromJson lib transformString j := by
  rw [fieldsFromJson_eq] at h
  obtain ⟨other, hother, rfl⟩ := List.mem_map.1 h
  obtain ⟨member, hmember, rfl⟩ := List.mem_map.1 hother
  obtain ⟨j, hj⟩ := exists_lookup hmember
  refine ⟨j, hj, ?_⟩
  dsimp only
  rw [lookup_map, hj]
  rfl

theorem exists_shownField {transformString : Text → Option Text} {members : Members} {key : Text}
    {j : Json} (h : members.lookup key = some j) :
    ∃ value, (key, value) ∈ shownFields (fieldsFromJson lib transformString members) := by
  refine ⟨_, List.mem_map.2 ⟨(key, valueFromJson lib transformString j), ?_, rfl⟩⟩
  rw [fieldsFromJson_eq]
  exact List.mem_map.2 ⟨_, mem_of_lookup h, rfl⟩

/-! ### What `getValueFromJson` makes of a node -/

theorem JsonCpp.tests_false {j : Json} (h : ∀ x, j.denote ≠ .number x) :
    lib.isUInt j = false ∧ lib.isInt j = false ∧ lib.isUInt64 j = false ∧ lib.isInt64 j = false ∧
      lib.isDouble j = false := by
  refine ⟨?_, ?_, ?_, ?_, ?_⟩ <;> refine eq_false_of_ne_true fun htest => ?_
  · exact h _ (lib.asUInt_eq j htest)
  · exact h _ (lib.asInt_eq j htest)
  · exact h _ (lib.asUInt64_eq j htest)
  · exact h _ (lib.asInt64_eq j htest)
  · obtain ⟨x, hx⟩ := lib.isDouble_number j htest
    exact h x hx

variable {lib}

/-- A number is read as what it is equal to. -/
theorem valueFromJson_number {transformString : Text → Option Text} {j : Json} {x : Double}
    (h : j.denote = .number x) :
    (∃ i : IntegerValue, valueFromJson lib transformString j = .integer i ∧
      j.denote = .ofInt i.toInt) ∨
      ∃ x, valueFromJson lib transformString j = .float x ∧ j.denote = .number x := by
  have hnull : j.isNull = false := by
    cases j with
    | null => cases h
    | _ => rfl
  rw [valueFromJson.eq_def, if_neg (by rw [hnull]; exact Bool.false_ne_true)]
  split
  · next htest => exact .inl ⟨_, rfl, lib.asUInt_eq j htest⟩
  split
  · next htest => exact .inl ⟨_, rfl, lib.asInt_eq j htest⟩
  split
  · next htest => exact .inl ⟨_, rfl, lib.asUInt64_eq j htest⟩
  split
  · next htest => exact .inl ⟨_, rfl, lib.asInt64_eq j htest⟩
  -- an integer has passed the test of its kind before
  · next huint hint =>
    cases j with
    | int i => exact absurd (lib.isInt64_int i) hint
    | uint n => exact absurd (lib.isUInt64_uint n) huint
    | real x =>
        rw [if_pos (lib.isDouble_real x), lib.asDouble_real]
        exact .inr ⟨x, rfl, rfl⟩
    | null | boolean | string => cases h
    | array elements => rw [Json.denote_array] at h; cases h
    | object members => rw [Json.denote_object] at h; cases h

theorem valueFromJson_boolean (transformString : Text → Option Text) (b : Bool) :
    valueFromJson lib transformString (.boolean b) = .boolean b := by
  obtain ⟨h₁, h₂, h₃, h₄, h₅⟩ := lib.tests_false (j := .boolean b) nofun
  simp [valueFromJson, Json.isNull, h₁, h₂, h₃, h₄, h₅]

theorem valueFromJson_string (transformString : Text → Option Text) (s : Text) :
    valueFromJson lib transformString (.string s) = .string ((transformString s).getD s) := by
  obtain ⟨h₁, h₂, h₃, h₄, h₅⟩ := lib.tests_false (j := .string s) nofun
  simp [valueFromJson, Json.isNull, h₁, h₂, h₃, h₄, h₅]

theorem valueFromJson_array (transformString : Text → Option Text) (elements : List Json) :
    valueFromJson lib transformString (.array elements) =
      .collection (elements.map (valueFromJson lib transformString)) := by
  obtain ⟨h₁, h₂, h₃, h₄, h₅⟩ := lib.tests_false (j := .array elements) nofun
  simp [valueFromJson, Json.isNull, h₁, h₂, h₃, h₄, h₅, valuesFromJson_eq]

theorem valueFromJson_object (transformString : Text → Option Text) (members : Members) :
    valueFromJson lib transformString (.object members) =
      .dictionary (shownFields (fieldsFromJson lib transformString members)) := by
  obtain ⟨h₁, h₂, h₃, h₄, h₅⟩ := lib.tests_false (j := .object members) nofun
  simp [valueFromJson, Json.isNull, h₁, h₂, h₃, h₄, h₅]

end

/-! ### What `makeJsonValue` makes of a container -/

theorem denote_makeJsonPrimitiveValue (i : IntegerValue) :
    (makeJsonPrimitiveValue i).denote = .ofInt i.toInt := by
  cases i with
  | int8 value | int16 value | int32 value =>
      simp [makeJsonPrimitiveValue, IntegerValue.isSigned, IntegerValue.getInt64,
        IntegerValue.toInt, Json.denote]
  | uint8 value | uint16 value | uint32 value =>
      simp [makeJsonPrimitiveValue, IntegerValue.isSigned, IntegerValue.getUint64,
        IntegerValue.toInt, Json.denote]
  | int64 value | uint64 value => rfl

theorem of_makeJsonElements {writeNulls : Bool} {values : List RuntimeValue}
    {elements : List Json} (h : makeJsonElements writeNulls values = .ok elements) :
    (∀ v ∈ values, ∃ j, makeJsonValue writeNulls v = .ok j) ∧
      ∀ j ∈ elements, ∃ v ∈ values, makeJsonValue writeNulls v = .ok j := by
  induction values generalizing elements with
  | nil =>
      obtain rfl := Except.ok.inj h
      exact ⟨List.forall_mem_nil _, List.forall_mem_nil _⟩
  | cons v values ih =>
      rw [makeJsonElements] at h
      split at h
      · cases h
      · next j hj =>
        obtain ⟨rest, hrest, rfl⟩ := map_eq_ok h
        obtain ⟨hvalues, helements⟩ := ih hrest
        refine ⟨List.forall_mem_cons.2 ⟨⟨j, hj⟩, hvalues⟩, List.forall_mem_cons.2
          ⟨⟨v, List.mem_cons_self, hj⟩, fun j' hj' => ?_⟩⟩
        obtain ⟨v', hv', hmade⟩ := helements j' hj'
        exact ⟨v', List.mem_cons_of_mem _ hv', hmade⟩

theorem makeJsonElements_ok {α : Type} {writeNulls : Bool} (f : α → RuntimeValue)
    {P : α → Json → Prop} {l : List α}
    (h : ∀ a ∈ l, ∃ j, makeJsonValue writeNulls (f a) = .ok j ∧ P a j) :
    ∃ elements, makeJsonElements writeNulls (l.map f) = .ok elements ∧
      List.Forall₂ P l elements := by
  induction l with
  | nil => exact ⟨[], rfl, .nil⟩
  | cons a l ih =>
      obtain ⟨j, hj, hP⟩ := h a List.mem_cons_self
      obtain ⟨elements, helements, hrest⟩ := ih fun b hb => h b (List.mem_cons_of_mem _ hb)
      refine ⟨j :: elements, ?_, .cons hP hrest⟩
      rw [List.map_cons, makeJsonElements, hj, helements]
      rfl

/-- Every field has become a member. -/
theorem makeJsonMembers_ok {members : Members} {fields : List (Text × RuntimeValue)}
    (h : ∀ field ∈ fields, ∃ j, makeJsonValue true field.2 = .ok j) :
    ∃ result, makeJsonMembers true members fields = .ok result := by
  induction fields generalizing members with
  | nil => exact ⟨members, rfl⟩
  | cons field fields ih =>
      obtain ⟨j, hj⟩ := h field List.mem_cons_self
      rw [makeJsonMembers, Bool.not_true, Bool.false_and, if_neg Bool.false_ne_true, hj]
      exact ih fun other hother => h other (List.mem_cons_of_mem _ hother)

theorem of_makeJsonMembers {members result : Members} {fields : List (Text × RuntimeValue)}
    (h : makeJsonMembers true members fields = .ok result) :
    ∀ field ∈ fields, ∃ j, makeJsonValue true field.2 = .ok j := by
  induction fields generalizing members with
  | nil => exact List.forall_mem_nil _
  | cons field fields ih =>
      rw [makeJsonMembers, Bool.not_true, Bool.false_and, if_neg Bool.false_ne_true] at h
      split at h
      · cases h
      · next j hj => exact List.forall_mem_cons.2 ⟨⟨j, hj⟩, ih h⟩

/-- What is found in the members that have been made comes from a field of that key, as a C string,
or was there before. -/
theorem lookup_makeJsonMembers {members result : Members} {fields : List (Text × RuntimeValue)}
    (h : makeJsonMembers true members fields = .ok result) (key : Text) :
    (∃ field ∈ fields, cString field.1 = key ∧
      ∃ j, makeJsonValue true field.2 = .ok j ∧ result.lookup key = some j) ∨
      ((∀ field ∈ fields, cString field.1 ≠ key) ∧ result.lookup key = members.lookup key) := by
  induction fields generalizing members with
  | nil => exact .inr ⟨List.forall_mem_nil _, Except.ok.inj h ▸ rfl⟩
  | cons field fields ih =>
      rw [makeJsonMembers, Bool.not_true, Bool.false_and, if_neg Bool.false_ne_true] at h
      split at h
      · cases h
      · next j hj =>
        rcases ih h with ⟨other, hother, hkey, hmade⟩ | ⟨hlater, hlookup⟩
        · exact .inl ⟨other, List.mem_cons_of_mem _ hother, hkey, hmade⟩
        · by_cases hkey : cString field.1 = key
          · refine .inl ⟨field, List.mem_cons_self, hkey, j, hj, ?_⟩
            rw [hlookup, hkey, lookup_put_self]
          · refine .inr ⟨List.forall_mem_cons.2 ⟨hkey, hlater⟩, ?_⟩
            rw [hlookup, lookup_put_of_ne (Ne.symm hkey)]

/-! ### There and back -/

section

variable {lib : JsonCpp} {transformString : Text → Option Text}

theorem makeJsonValue_number {j : Json} {x : Double} (h : j.denote = .number x) :
    ∃ j', makeJsonValue true (valueFromJson lib transformString j) = .ok j' ∧
      j'.denote = j.denote := by
  rcases @valueFromJson_number lib transformString j x h with ⟨i, hi, hdenote⟩ | ⟨x, hx, hdenote⟩
  · rw [hi, hdenote]
    exact ⟨_, rfl, denote_makeJsonPrimitiveValue i⟩
  · rw [hx, hdenote]
    exact ⟨_, rfl, rfl⟩

theorem map_denote_eq {l l' : List Json}
    (h : List.Forall₂ (fun j j' => j'.denote = j.denote) l l') :
    l'.map Json.denote = l.map Json.denote := by
  induction h with
  | nil => rfl
  | cons hdenote _ ih => rw [List.map_cons, List.map_cons, hdenote, ih]

/-- No string is transformed and every key comes through: the document comes back. -/
theorem makeJsonValue_ok (htransform : ∀ s, transformString s = none) (j : Json)
    (hkeys : j.denote.Keys Key) :
    ∃ j', makeJsonValue true (valueFromJson lib transformString j) = .ok j' ∧
      j'.denote = j.denote := by
  induction j using Json.induct with
  | null => exact ⟨.null, by rw [valueFromJson.eq_def]; rfl, rfl⟩
  | int i => exact makeJsonValue_number rfl
  | uint n => exact makeJsonValue_number rfl
  | real x => exact makeJsonValue_number rfl
  | boolean b =>
      rw [valueFromJson_boolean]
      exact ⟨_, rfl, rfl⟩
  | string s =>
      rw [valueFromJson_string, htransform]
      exact ⟨_, rfl, rfl⟩
  | array elements ih =>
      rw [Json.denote_array, Value.keys_array, List.forall_mem_map] at hkeys
      obtain ⟨elements', helements, hdenote⟩ :=
        makeJsonElements_ok (valueFromJson lib transformString)
          fun j hj => ih j hj (hkeys j hj)
      refine ⟨.array elements', ?_, ?_⟩
      · rw [valueFromJson_array, makeJsonValue, helements]
        rfl
      · rw [Json.denote_array, Json.denote_array]
        rw [map_denote_eq hdenote]
  | object members ih =>
      rw [Json.keys_object] at hkeys
      -- a field is shown under its own key with the first member of that key
      have hfield : ∀ field ∈ shownFields (fieldsFromJson lib transformString members),
          Key field.1 ∧ ∃ j, members.lookup field.1 = some j ∧
            ∃ j', makeJsonValue true field.2 = .ok j' ∧ j'.denote = j.denote := by
        intro field hfield
        obtain ⟨j, hj, hvalue⟩ := mem_shownFields lib hfield
        obtain ⟨hkey, hkeysj⟩ := hkeys _ j hj
        refine ⟨hkey, j, hj, ?_⟩
        rw [hvalue, if_neg hkey.1]
        exact ih _ (mem_of_lookup hj) hkeysj
      obtain ⟨members', hmembers⟩ := @makeJsonMembers_ok [] _
        fun field h => (hfield field h).2.elim fun _ h => h.2.imp fun _ h => h.1
      refine ⟨.object members', ?_, ?_⟩
      · rw [valueFromJson_object, makeJsonValue, hmembers]
        rfl
      · rw [Json.denote_object, Json.denote_object]
        congr 1
        funext key
        rw [denoteObject, denoteObject]
        -- what is written at a key comes from the last field whose key ends there
        rcases lookup_makeJsonMembers hmembers key with ⟨field, hmem, rfl, j', hj', hlookup⟩ |
          ⟨hnone, hlookup⟩
        · obtain ⟨hkey, j, hj, j'', hj'', hdenote⟩ := hfield field hmem
          obtain rfl := Except.ok.inj (hj'.symm.trans hj'')
          rw [hlookup, cString_eq hkey.2, hj, Option.map_some, Option.map_some, hdenote]
        · rw [hlookup]
          cases hj : members.lookup key with
          | none => rfl
          | some j =>
              obtain ⟨value, hvalue⟩ := exists_shownField lib hj
              have hkey := (hkeys key j hj).1
              exact absurd (cString_eq hkey.2) (hnone _ hvalue)

/-- A member of the empty key is not there for `getValue`: the pointer is dereferenced. -/
theorem keys_of_makeJsonValue (j : Json) {result : Json}
    (h : makeJsonValue true (valueFromJson lib transformString j) = .ok result) :
    j.denote.Keys (· ≠ []) := by
  induction j using Json.induct generalizing result with
  | null | int | uint | real | boolean | string => trivial
  | array elements ih =>
      rw [valueFromJson_array, makeJsonValue] at h
      obtain ⟨made, hmade, -⟩ := map_eq_ok h
      rw [Json.denote_array, Value.keys_array, List.forall_mem_map]
      intro j hj
      obtain ⟨j', hj'⟩ := (of_makeJsonElements hmade).1 _ (List.mem_map_of_mem hj)
      exact ih j hj hj'
  | object members ih =>
      rw [valueFromJson_object, makeJsonValue] at h
      obtain ⟨made, hmade, -⟩ := map_eq_ok h
      rw [Json.keys_object]
      intro key j hj
      obtain ⟨value, hmem⟩ := exists_shownField lib hj
      obtain ⟨j', hj'⟩ := of_makeJsonMembers hmade _ hmem
      obtain ⟨first, hfirst, hvalue⟩ := mem_shownFields lib hmem
      obtain rfl := Option.some.inj (hj.symm.trans hfirst)
      dsimp only at hj' hvalue
      rw [hvalue] at hj'
      split at hj'
      · cases hj'
      · next hkey => exact ⟨hkey, ih _ (mem_of_lookup hj) hj'⟩

end

/-- The keys written are C strings. -/
theorem nul_notMem_of_makeJsonValue (v : RuntimeValue) {result : Json}
    (h : makeJsonValue true v = .ok result) : result.denote.Keys (nul ∉ ·) := by
  induction v using RuntimeValue.induct generalizing result with
  | nullptr => cases h
  | optional v ih =>
      cases v with
      | nullptr => exact Except.ok.inj h ▸ trivial
      | _ => exact ih h
  | ref v ih =>
      cases v with
      | nullptr => exact Except.ok.inj h ▸ trivial
      | _ => exact ih h
  | integer i =>
      rw [← Except.ok.inj h, denote_makeJsonPrimitiveValue]
      trivial
  | float x | boolean b | string s =>
      rw [← Except.ok.inj h]
      trivial
  | collection elements ih =>
      rw [makeJsonValue] at h
      obtain ⟨made, hmade, rfl⟩ := map_eq_ok h
      rw [Json.denote_array, Value.keys_array, List.forall_mem_map]
      intro j hj
      obtain ⟨v, hv, hj⟩ := (of_makeJsonElements hmade).2 j hj
      exact ih v hv hj
  | dictionary fields ih =>
      rw [makeJsonValue] at h
      obtain ⟨made, hmade, rfl⟩ := map_eq_ok h
      rw [Json.keys_object]
      intro key j hj
      rcases lookup_makeJsonMembers hmade key with ⟨field, hmem, rfl, j', hj', hlookup⟩ |
        ⟨-, hlookup⟩
      · obtain rfl := Option.some.inj (hj.symm.trans hlookup)
        exact ⟨nul_notMem_cString _, ih field hmem hj'⟩
      · rw [hj] at hlookup
        cases hlookup

/-! ### Strings -/

theorem jsonParseString_eq (lib : JsonCpp) {parse : Text → Except Text Json} {str : Text} {d : Json}
    (hstr : str ≠ []) (hparse : parse str = .ok d) :
    jsonParseString lib parse str =
      if d.isNull then .error (.fatal "root") else .ok (valueFromJson lib (fun _ => none) d) := by
  rw [jsonParseString, if_neg hstr, hparse]
  cases d <;> rfl

/-- A document comes back from `jsonParseString` and `runtimeToJsonValue` just when it is not null
at the top and all its keys are `Key`s. -/
theorem roundTrip_iff (lib : JsonCpp) (parse : Text → Except Text Json) (str : Text) (d : Json)
    (hstr : str ≠ []) (hparse : parse str = .ok d) :
    (∃ value j, jsonParseString lib parse str = .ok value ∧ runtimeToJsonValue true value = .ok j ∧
      j.denote = d.denote) ↔ d ≠ .null ∧ d.denote.Keys Key := by
  rw [jsonParseString_eq lib hstr hparse]
  constructor
  · rintro ⟨value, j, hvalue, hj, hdenote⟩
    split at hvalue
    · cases hvalue
    · next hnull =>
      obtain rfl := Except.ok.inj hvalue
      refine ⟨fun h => hnull (h ▸ rfl), (keys_of_makeJsonValue d hj).and ?_⟩
      exact hdenote ▸ nul_notMem_of_makeJsonValue _ hj
  · rintro ⟨hnull, hkeys⟩
    have hnull' : ¬ d.isNull = true := fun h => by
      cases d with
      | null => exact hnull rfl
      | _ => cases h
    obtain ⟨j, hj, hdenote⟩ := @makeJsonValue_ok lib _ (fun _ => rfl) d hkeys
    exact ⟨_, j, if_neg hnull', hj, hdenote⟩

theorem list_roundTrip : ∃ value j,
    jsonParseString .standard (fun _ => .ok (.object [(['a'], .array [.int 1, .null])]))
      "\x7b\"a\":[1,null]\x7d".toList = .ok value ∧
    runtimeToJsonValue true value = .ok j ∧
    j.denote = (Json.object [(['a'], .array [.int 1, .null])]).denote := by
  refine (roundTrip_iff .standard (fun _ => .ok (.object [(['a'], .array [.int 1, .null])]))
    "\x7b\"a\":[1,null]\x7d".toList _ (by decide) rfl).2 ⟨nofun, ?_⟩
  rw [Json.keys_object]
  intro key j hj
  rw [List.lookup_cons] at hj
  split at hj
  · next hkey =>
    obtain rfl := Option.some.inj hj
    rw [eq_of_beq hkey]
    exact ⟨⟨by decide, by decide⟩, trivial, trivial, trivial⟩
  · cases hj

/-- A null at the top, an empty key and a key with a NUL. -/
theorem document_lost :
    jsonParseString .standard (fun _ => .ok .null) "null".toList = .error (.fatal "root") ∧
    (∃ value, jsonParseString .standard (fun _ => .ok (.object [([], .int 1)]))
        "\x7b\"\":1\x7d".toList = .ok value ∧
      runtimeToJsonValue true value = .error .nullDereference) ∧
    ∃ value, jsonParseString .standard (fun _ => .ok (.object [(['a', nul], .int 1)]))
        "\x7b\"a\\u0000\":1\x7d".toList = .ok value ∧
      runtimeToJsonValue true value = .ok (.object [(['a'], .uint 1)]) :=
  ⟨rfl, ⟨_, rfl, rfl⟩, _, rfl, rfl⟩

end MyEngine.Serialization
