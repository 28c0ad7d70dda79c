import MyEngine.Serialization.Json

/-!
# Serialization — RuntimeValue

`RuntimeValue` and its adapters to `Json::Value`: `json_to_runtime_value.cpp`,
`json_jsoncpp_write.cpp` and `json_jsoncpp_parse.cpp`.

* `RuntimeValue`: a value as its getters show it.
* `getValueFromJson`, `jsonParseString`: from a document.
* `makeJsonValue`, `runtimeToJsonValue`: to a document.
* `setJsonValue`: into a document that is there already.
-/

namespace MyEngine.Serialization

open Support

/-! ### Values -/

/-- A `NativeIntegerValue<T>`. -/
inductive IntegerValue where
  | int8 (value : Int8)
  | int16 (value : Int16)
  | int32 (value : Int32)
  | int64 (value : Int64)
  | uint8 (value : UInt8)
  | uint16 (value : UInt16)
  | uint32 (value : UInt32)
  | uint64 (value : UInt64)
  deriving DecidableEq

namespace IntegerValue

def isSigned : IntegerValue → Bool
  | int8 _ | int16 _ | int32 _ | int64 _     => true
  | uint8 _ | uint16 _ | uint32 _ | uint64 _ => false

/-- `sizeof(T)`. -/
def getBitsCount : IntegerValue → Nat
  | int8 _ | uint8 _   => 1
  | int16 _ | uint16 _ => 2
  | int32 _ | uint32 _ => 4
  | int64 _ | uint64 _ => 8

def getInt64 : IntegerValue → Int64
  | int8 value   => value.toInt64
  | int16 value  => value.toInt64
  | int32 value  => value.toInt64
  | int64 value  => value
  | uint8 value  => value.toUInt64.toInt64
  | uint16 value => value.toUInt64.toInt64
  | uint32 value => value.toUInt64.toInt64
  | uint64 value => value.toInt64

def getUint64 : IntegerValue → UInt64
  | int8 value   => value.toInt64.toUInt64
  | int16 value  => value.toInt64.toUInt64
  | int32 value  => value.toInt64.toUInt64
  | int64 value  => value.toUInt64
  | uint8 value  => value.toUInt64
  | uint16 value => value.toUInt64
  | uint32 value => value.toUInt64
  | uint64 value => value

/-- The number. -/
def toInt : IntegerValue → Int
  | int8 value   => value.toInt
  | int16 value  => value.toInt
  | int32 value  => value.toInt
  | int64 value  => value.toInt
  | uint8 value  => value.toNat
  | uint16 value => value.toNat
  | uint32 value => value.toNat
  | uint64 value => value.toNat

end IntegerValue

/-- A `RuntimeValuePtr`.  A `float` is the double it is equal to, an optional or a reference is
empty when it has the null pointer, and a dictionary shows for each of its keys what its
`getValue` returns. -/
inductive RuntimeValue where
  | nullptr
  | optional (value : RuntimeValue)
  | ref (value : RuntimeValue)
  | integer (value : IntegerValue)
  | float (value : Double)
  | boolean (value : Bool)
  | string (value : Text)
  | collection (elements : List RuntimeValue)
  | dictionary (fields : List (Text × RuntimeValue))

/-- What ends a call without a value: an error that is returned, a `MY_FATAL` that fails, or a null
pointer that is dereferenced. -/
inductive Failure where
  | error (message : Text)
  | fatal (check : String)
  | nullDereference
  deriving DecidableEq

abbrev Outcome := Except Failure

/-- Induction over a value, with the fields of a dictionary as pairs. -/
@[elab_as_elim]
theorem RuntimeValue.induct {P : RuntimeValue → Prop} (nullptr : P .nullptr)
    (optional : ∀ v, P v → P (.optional v)) (ref : ∀ v, P v → P (.ref v))
    (integer : ∀ i, P (.integer i)) (float : ∀ x, P (.float x)) (boolean : ∀ b, P (.boolean b))
    (string : ∀ s, P (.string s))
    (collection : ∀ elements, (∀ v ∈ elements, P v) → P (.collection elements))
    (dictionary : ∀ fields : List (Text × RuntimeValue), (∀ field ∈ fields, P field.2) →
      P (.dictionary fields)) (v : RuntimeValue) : P v :=
  @RuntimeValue.rec P (fun elements => ∀ v ∈ elements, P v)
    (fun fields => ∀ field ∈ fields, P field.2) (fun field => P field.2)
    nullptr optional ref integer float boolean string collection dictionary
    (List.forall_mem_nil _) (fun _ _ hv h => List.forall_mem_cons.2 ⟨hv, h⟩)
    (List.forall_mem_nil _) (fun _ _ hf h => List.forall_mem_cons.2 ⟨hf, h⟩) (fun _ _ hv => hv) v

/-! ### From a document -/

def Json.isNull : Json → Bool
  | null => true
  | _    => false

/-- What a dictionary over the document shows: `getKey` lists all keys, and `getValue` finds the
first member of a key that is not empty. -/
def shownFields (fields : List (Text × RuntimeValue)) : List (Text × RuntimeValue) :=
  fields.map fun field =>
    (field.1, if field.1 = [] then .nullptr else (fields.lookup field.1).getD .nullptr)

section FromJson

variable (lib : JsonCpp)

mutual

/-- `getValueFromJson` under a root that transforms strings by `transformString`. -/
@[grind =]
def valueFromJson (transformString : Text → Option Text) (jsonValue : Json) : RuntimeValue :=
  if jsonValue.isNull then .optional .nullptr
  else if lib.isUInt jsonValue then .integer (.uint32 (lib.asUInt jsonValue))
  else if lib.isInt jsonValue then .integer (.int32 (lib.asInt jsonValue))
  else if lib.isUInt64 jsonValue then .integer (.uint64 (lib.asUInt64 jsonValue))
  else if lib.isInt64 jsonValue then .integer (.int64 (lib.asInt64 jsonValue))
  else if lib.isDouble jsonValue then .float (lib.asDouble jsonValue)
  else
    match jsonValue with
    | .boolean b      => .boolean b
    | .string str     => .string ((transformString str).getD str)
    | .array elements => .collection (valuesFromJson transformString elements)
    | .object members => .dictionary (shownFields (fieldsFromJson transformString members))
    | .null | .int _ | .uint _ | .real _ => .nullptr

@[grind =] def valuesFromJson (transformString : Text → Option Text) : List Json → List RuntimeValue
  | []            => []
  | j :: elements =>
      valueFromJson transformString j :: valuesFromJson transformString elements

@[grind =] def fieldsFromJson (transformString : Text → Option Text) :
    Members → List (Text × RuntimeValue)
  | []                  => []
  | (key, j) :: members =>
      (key, valueFromJson transformString j) :: fieldsFromJson transformString members

end

/-- `getValueFromJson`; the constructors of `JsonNull`, `JsonCollection` and `JsonDictionary` check
the root. -/
def getValueFromJson (root : Option (Text → Option Text)) (jsonValue : Json) :
    Outcome RuntimeValue :=
  match root, jsonValue with
  | some transformString, _ => .ok (valueFromJson lib transformString jsonValue)
  | none, .null | none, .array _ | none, .object _ => .error (.fatal "root")
  | none, _ => .ok (valueFromJson lib (fun _ => none) jsonValue)

/-- `jsonParseString` over the parser of the library; a container at the top is its own root. -/
def jsonParseString (parse : Text → Except Text Json) (str : Text) : Outcome RuntimeValue :=
  if str = [] then .error (.error "Empty string".toList)
  else
    match parse str with
    | .error message => .error (.error message)
    | .ok root =>
        match root with
        | .object _ | .array _ => .ok (valueFromJson lib (fun _ => none) root)
        | _                    => getValueFromJson lib none root

end FromJson

/-! ### To a document -/

/-- The characters that `jValue[key.data()]` takes for the key. -/
def cString (key : Text) : Text := key.takeWhile (· ≠ Char.ofNat 0)

def makeJsonPrimitiveValue (value : IntegerValue) : Json :=
  if value.isSigned then .int value.getInt64 else .uint value.getUint64

/-- Whether `writeNulls` decides about the member. -/
def RuntimeValue.isEmpty : RuntimeValue → Bool
  | optional nullptr | ref nullptr => true
  | _                              => false

mutual

/-- `makeJsonValue`; all of its branches assign `jValue` first. -/
@[grind =] def makeJsonValue (writeNulls : Bool) : RuntimeValue → Outcome Json
  | .nullptr             => .error .nullDereference
  | .optional .nullptr   => .ok .null
  | .ref .nullptr        => .ok .null
  | .optional value      => makeJsonValue writeNulls value
  | .ref value           => makeJsonValue writeNulls value
  | .integer value       => .ok (makeJsonPrimitiveValue value)
  | .float value         => .ok (.real value)
  | .string text         => .ok (.string text)
  | .boolean value       => .ok (.boolean value)
  | .collection elements => (makeJsonElements writeNulls elements).map .array
  | .dictionary fields   => (makeJsonMembers writeNulls [] fields).map .object

@[grind =] def makeJsonElements (writeNulls : Bool) : List RuntimeValue → Outcome (List Json)
  | []            => .ok []
  | v :: elements =>
      match makeJsonValue writeNulls v with
      | .error failure => .error failure
      | .ok j          => (makeJsonElements writeNulls elements).map (j :: ·)

@[grind =] def makeJsonMembers (writeNulls : Bool) (members : Members) :
    List (Text × RuntimeValue) → Outcome Members
  | []                   => .ok members
  | (key, member) :: fields =>
      if !writeNulls && member.isEmpty then makeJsonMembers writeNulls members fields
      else
        match makeJsonValue writeNulls member with
        | .error failure => .error failure
        | .ok j          => makeJsonMembers writeNulls (put (cString key) j members) fields

end

/-- There is no error that `ignore` could hide. -/
def runtimeToJsonValue (writeNulls : Bool) (value : RuntimeValue) : Outcome Json :=
  makeJsonValue writeNulls value

/-! ### Into a document -/

def setIntegerValue (intValue : IntegerValue) : Json :=
  if intValue.isSigned then
    if intValue.getBitsCount == 8 then .int intValue.getInt64
    else .int intValue.getInt64.toInt32.toInt64
  else if intValue.getBitsCount == 8 then .uint intValue.getUint64
  else .uint intValue.getUint64.toUInt32.toUInt64

/-- The elements that stay when elements are appended. -/
def Json.elements : Json → List Json
  | array elements => elements
  | _              => []

/-- The members that stay when members are set. -/
def Json.members : Json → Members
  | object members => members
  | _              => []

/-- `Json::Value::demand`, and what is done to the field it returns. -/
def demand (key : Text) (f : Json → Json) (members : Members) : Members :=
  put key (f ((members.lookup key).getD .null)) members

mutual

/-- `setJsonValue`, which always succeeds; there is no branch for a reference. -/
@[grind =] def setJsonValue (jsonValue : Json) : RuntimeValue → Json
  | .nullptr             => .null
  | .optional optValue   => setJsonValue jsonValue optValue
  | .ref _               => jsonValue
  | .integer intValue    => setIntegerValue intValue
  | .float floatValue    => .real floatValue
  | .boolean boolValue   => .boolean boolValue
  | .string strValue     => .string strValue
  | .collection elements => .array (appendJsonValues jsonValue.elements elements)
  | .dictionary fields   => .object (setJsonFields jsonValue.members fields)

@[grind =] def appendJsonValues (elements : List Json) : List RuntimeValue → List Json
  | []          => elements
  | v :: values => appendJsonValues (elements ++ [setJsonValue .null v]) values

@[grind =] def setJsonFields (members : Members) : List (Text × RuntimeValue) → Members
  | []                   => members
  | (key, value) :: fields =>
      setJsonFields (demand key (fun field => setJsonValue field value) members) fields

end

end MyEngine.Serialization
