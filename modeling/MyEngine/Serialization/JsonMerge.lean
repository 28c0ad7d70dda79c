import MyEngine.Serialization.RuntimeValue

/-!
# Serialization — JsonMerge

`setJsonValue` merges: what the document denotes behind it is `Value.merge` of what it denoted and
of the value.

* `RuntimeValue.denote`, `RuntimeValue.Plain`: the values this is about.
* `setJsonValue_denote`: the merge, by induction on the value.
-/

namespace MyEngine.Serialization

open Support

mutual

def RuntimeValue.denote : RuntimeValue → Value
  | .nullptr             => .null
  | .optional value      => value.denote
  | .ref value           => value.denote
  | .integer value       => .ofInt value.toInt
  | .float value         => .number value
  | .boolean value       => .boolean value
  | .string value        => .string value
  | .collection elements => .array (RuntimeValue.denoteElements elements)
  | .dictionary fields   => .object fun key => (RuntimeValue.denoteFields fields).lookup key

def RuntimeValue.denoteElements : List RuntimeValue → List Value
  | []            => []
  | v :: elements => v.denote :: RuntimeValue.denoteElements elements

def RuntimeValue.denoteFields : List (Text × RuntimeValue) → List (Text × Value)
  | []                 => []
  | (key, v) :: fields => (key, v.denote) :: RuntimeValue.denoteFields fields

end

/-- No part of the value is a reference, and the keys of a dictionary are distinct. -/
inductive RuntimeValue.Plain : RuntimeValue → Prop where
  | nullptr : Plain .nullptr
  | optional {v : RuntimeValue} (h : v.Plain) : Plain (.optional v)
  | integer (i : IntegerValue) : Plain (.integer i)
  | float (x : Double) : Plain (.float x)
  | boolean (b : Bool) : Plain (.boolean b)
  | string (s : Text) : Plain (.string s)
  | collection {elements : List RuntimeValue} (h : ∀ v ∈ elements, v.Plain) :
      Plain (.collection elements)
  | dictionary {fields : List (Text × RuntimeValue)} (hkeys : (fields.map Prod.fst).Nodup)
      (h : ∀ field ∈ fields, field.2.Plain) : Plain (.dictionary fields)

namespace RuntimeValue

theorem denote_collection (elements : List RuntimeValue) :
    (collection elements).denote = .array (elements.map denote) := by
  have hall : denoteElements elements = elements.map denote := by
    induction elements with
    | nil => rfl
    | cons v elements ih => rw [denoteElements, ih, List.map_cons]
  rw [denote, hall]

theorem denote_dictionary (fields : List (Text × RuntimeValue)) :
    (dictionary fields).denote = .object fun key => (fields.lookup key).map denote := by
  have hall : denoteFields fields = fields.map fun field => (field.1, field.2.denote) := by
    induction fields with
    | nil => rfl
    | cons field fields ih => rw [denoteFields, ih, List.map_cons]
  rw [denote, hall]
  congr
  funext key
  exact lookup_map denote key fields

end RuntimeValue

/-! ### Merging -/

theorem Value.null_merge (v : Value) : null.merge v = v := by
  cases v <;> rfl

/-- What is no container replaces. -/
theorem Value.merge_scalar {v : Value} (harray : ∀ elements, v ≠ .array elements)
    (hobject : ∀ members, v ≠ .object members) (old : Value) : old.merge v = v := by
  cases v with
  | array elements => exact absurd rfl (harray elements)
  | object members => exact absurd rfl (hobject members)
  | _ => cases old <;> rfl

theorem denote_setIntegerValue (i : IntegerValue) :
    (setIntegerValue i).denote = .ofInt i.toInt := by
  cases i with
  | int64 value | uint64 value => rfl
  | int8 value | int16 value | int32 value =>
      simp [setIntegerValue, IntegerValue.isSigned, IntegerValue.getBitsCount,
        IntegerValue.getInt64, IntegerValue.toInt, Json.denote]
  | uint8 value | uint16 value | uint32 value =>
      simp [setIntegerValue, IntegerValue.isSigned, IntegerValue.getBitsCount,
        IntegerValue.getUint64, IntegerValue.toInt, Json.denote]

theorem appendJsonValues_eq (elements : List Json) (values : List RuntimeValue) :
    appendJsonValues elements values = elements ++ values.map (setJsonValue .null) := by
  induction values generalizing elements with
  | nil => rw [appendJsonValues, List.map_nil, List.append_nil]
  | cons v values ih => rw [appendJsonValues, ih, List.map_cons, List.append_assoc]; rfl

theorem denoteObject_demand_self (key : Text) (f : Json → Json) (members : Members) :
    denoteObject (demand key f members) key =
      some (f ((members.lookup key).getD .null)).denote := by
  rw [denoteObject, demand, lookup_put_self, Option.map_some]

theorem denoteObject_demand_of_ne {key key' : Text} (h : key' ≠ key) (f : Json → Json)
    (members : Members) : denoteObject (demand key f members) key' = denoteObject members key' := by
  rw [denoteObject, demand, lookup_put_of_ne h, denoteObject]

/-- The fields are merged one after the other. -/
theorem denoteObject_setJsonFields {fields : List (Text × RuntimeValue)}
    (hkeys : (fields.map Prod.fst).Nodup)
    (hvalues : ∀ field ∈ fields, ∀ j,
      (setJsonValue j field.2).denote = j.denote.merge field.2.denote)
    (members : Members) (key : Text) : denoteObject (setJsonFields members fields) key =
      Value.mergeMember (denoteObject members key)
        ((fields.lookup key).map RuntimeValue.denote) := by
  induction fields generalizing members with
  | nil =>
      rw [setJsonFields, List.lookup_nil, Option.map_none]
      cases denoteObject members key <;> rfl
  | cons field fields ih =>
      obtain ⟨hnew, hkeys⟩ := List.nodup_cons.1 hkeys
      obtain ⟨hvalue, hvalues⟩ := List.forall_mem_cons.1 hvalues
      rw [setJsonFields, ih hkeys hvalues]
      by_cases hkey : key = field.1
      · -- the keys are distinct, so the fields behind leave this one alone
        subst hkey
        have hnone : fields.lookup field.1 = none := by
          cases hlookup : fields.lookup field.1 with
          | none => rfl
          | some v => exact absurd (List.mem_map_of_mem (mem_of_lookup hlookup)) hnew
        rw [denoteObject_demand_self, hvalue, hnone, List.lookup_cons_self, denoteObject]
        cases members.lookup field.1 with
        | none => exact congrArg some (Value.null_merge _)
        | some j => rfl
      · rw [denoteObject_demand_of_ne hkey, lookup_cons_of_ne hkey field.2]

/-- `setJsonValue` merges the value into the document. -/
theorem setJsonValue_denote {v : RuntimeValue} (h : v.Plain) (j : Json) :
    (setJsonValue j v).denote = j.denote.merge v.denote := by
  induction h generalizing j with
  | nullptr => exact (@Value.merge_scalar .null nofun nofun _).symm
  | float x => exact (@Value.merge_scalar (.number x) nofun nofun _).symm
  | boolean b => exact (@Value.merge_scalar (.boolean b) nofun nofun _).symm
  | string s => exact (@Value.merge_scalar (.string s) nofun nofun _).symm
  | optional h ih => exact ih j
  | integer i =>
      rw [setJsonValue, denote_setIntegerValue]
      exact (@Value.merge_scalar (.number (.finite i.toInt)) nofun nofun _).symm
  | @collection values h ih =>
      -- the elements are made from null each, and null is replaced
      have hvalues : (values.map (setJsonValue .null)).map Json.denote =
          values.map RuntimeValue.denote := by
        rw [List.map_map]
        exact List.map_congr_left fun v hv => (ih v hv .null).trans (Value.null_merge _)
      rw [setJsonValue, appendJsonValues_eq, Json.denote_array, List.map_append, hvalues,
        RuntimeValue.denote_collection]
      cases j with
      | array elements =>
          rw [Json.denote_array]
          rfl
      | object members =>
          rw [Json.denote_object]
          rfl
      | _ => rfl
  | @dictionary fields hkeys h ih =>
      have hmembers := denoteObject_setJsonFields hkeys ih
      rw [setJsonValue, Json.denote_object, RuntimeValue.denote_dictionary]
      cases j with
      | object members =>
          rw [Json.denote_object]
          exact congrArg Value.object (funext (hmembers members))
      | array elements =>
          rw [Json.denote_array]
          exact congrArg Value.object (funext (hmembers []))
      | _ => exact congrArg Value.object (funext (hmembers []))

end MyEngine.Serialization
