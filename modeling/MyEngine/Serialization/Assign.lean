import MyEngine.Network.HttpParser
import MyEngine.Serialization.RuntimeValue

/-!
# Serialization — Assign

`RuntimeValue::assign` of `runtime_value.cpp`.  The destination is what its interfaces do; the
source shares nothing with it and is what its getters show.

* `Destination`: the interfaces of a value, with the methods that change it.
* `assignPrimitiveValue`, `assignCollection`, `assignDictionary`, `assignObject`.
* `assign`: the dispatch, which goes through the source's references and optionals.
-/

namespace MyEngine.Serialization

open Network (icaseEqual isdigit decimal)

/-! ### Interfaces -/

variable {S : Type}

/-- What a call leaves behind, and what it returns. -/
abbrev Effect (S : Type) := S × Outcome Unit

/-- `MakeError`. -/
def makeError (s : S) (message : String) : Effect S := (s, .error (.error message.toList))

/-- `RuntimeValueRef`: the pointer that is set is the pointer that is there. -/
structure ValueRef (S : Type) where
  getValue : S → RuntimeValue
  setValue : S → RuntimeValue → S
  getValue_setValue : ∀ s v, getValue (setValue s v) = v

/-- `FloatValue`; `getBitsCount` is a number of bytes. -/
structure FloatItf (S : Type) where
  getBitsCount : S → ℕ
  setDouble : S → Double → S
  setSingle : S → Double → S

structure IntegerItf (S : Type) where
  isSigned : S → Bool
  setInt64 : S → Int64 → S
  setUint64 : S → UInt64 → S

structure CollectionItf (S : Type) where
  clear : S → S
  reserve : S → ℕ → S
  append : S → RuntimeValue → Effect S

structure ReadonlyCollectionItf (S : Type) where
  getSize : S → ℕ
  setAt : S → ℕ → RuntimeValue → Effect S

structure ObjectItf (S : Type) where
  getSize : S → ℕ
  getKey : S → ℕ → Text
  setFieldValue : S → Text → RuntimeValue → Effect S

/-- `ReadonlyDictionary`; a `Dictionary` can be cleared. -/
structure DictionaryItf (S : Type) where
  setValue : S → Text → RuntimeValue → Effect S
  clear : Option (S → S) := none

/-- What `as` gives for the interfaces of a value whose state is an `S`. -/
structure Destination (S : Type) where
  valueRef : Option (ValueRef S) := none
  optional : Option (S → RuntimeValue → Effect S) := none
  string : Option (S → Text → Effect S) := none
  boolean : Option (S → Bool → S) := none
  float : Option (FloatItf S) := none
  integer : Option (IntegerItf S) := none
  collection : Option (CollectionItf S) := none
  readonlyCollection : Option (ReadonlyCollectionItf S) := none
  object : Option (ObjectItf S) := none
  dictionary : Option (DictionaryItf S) := none

def Destination.isPrimitive (dst : Destination S) : Bool :=
  dst.string.isSome || dst.boolean.isSome || dst.float.isSome || dst.integer.isSome

namespace RuntimeValue

def isNull : RuntimeValue → Bool
  | nullptr => true
  | _       => false

def isPrimitive : RuntimeValue → Bool
  | integer _ | float _ | boolean _ | string _ => true
  | _                                          => false

def asCollection : RuntimeValue → Option (List RuntimeValue)
  | collection elements => some elements
  | _                   => none

def asDictionary : RuntimeValue → Option (List (Text × RuntimeValue))
  | dictionary fields => some fields
  | _                 => none

end RuntimeValue

/-! ### Numbers and texts -/

/-- What the language and its library do with floating point numbers: the casts to `float`, from
`int64_t` to either of the types and of a `floor` to `int64_t`, and the conversions of texts. -/
structure FloatLib where
  toSingle : Double → Double
  doubleOfInt64 : Int64 → Double
  singleOfInt64 : Int64 → Double
  floorToInt64 : Double → Int64
  ofText : Text → Double
  toText : Double → Text

/-- `std::from_chars` of a decimal integer: the number the longest match writes. -/
def fromChars (str : Text) : Option ℤ :=
  let negative := str.head? = some '-'
  let digits := (if negative then str.tail else str).takeWhile isdigit
  if digits = [] then none
  else some (if negative then -(decimal digits : ℤ) else decimal digits)

/-- What they do with integers that a `float` has. -/
def FloatLib.small : FloatLib where
  toSingle x := x
  doubleOfInt64 i := .finite i.toInt
  singleOfInt64 i := .finite i.toInt
  floorToInt64
    | .finite x => Int64.ofInt x.floor
    | _         => 0
  ofText str := .finite ((fromChars str).getD 0)
  toText
    | .finite x => (toString x.floor).toList ++ ".000000".toList
    | _         => []

/-- `strings::lexicalCast<int64_t>`.  Where the number is no `int64_t`, `from_chars` leaves the zero
that was there. -/
def lexicalCastInt64 (str : Text) : Int64 :=
  match fromChars str with
  | none   => 0
  | some v => if -2 ^ 63 ≤ v ∧ v < 2 ^ 63 then Int64.ofInt v else 0

/-- `strings::lexicalCast<bool>`. -/
def lexicalCastBool (str : Text) : Bool := icaseEqual str "true".toList

/-- The casts of `NativeIntegerValue::setInt64`. -/
def IntegerValue.setInt64 (i : IntegerValue) (value : Int64) : IntegerValue :=
  match i with
  | int8 _   => int8 value.toInt8
  | int16 _  => int16 value.toInt16
  | int32 _  => int32 value.toInt32
  | int64 _  => int64 value
  | uint8 _  => uint8 value.toUInt64.toUInt8
  | uint16 _ => uint16 value.toUInt64.toUInt16
  | uint32 _ => uint32 value.toUInt64.toUInt32
  | uint64 _ => uint64 value.toUInt64

/-- The casts of `NativeIntegerValue::setUint64`. -/
def IntegerValue.setUint64 (i : IntegerValue) (value : UInt64) : IntegerValue :=
  match i with
  | int8 _   => int8 value.toInt64.toInt8
  | int16 _  => int16 value.toInt64.toInt16
  | int32 _  => int32 value.toInt64.toInt32
  | int64 _  => int64 value.toInt64
  | uint8 _  => uint8 value.toUInt8
  | uint16 _ => uint16 value.toUInt16
  | uint32 _ => uint32 value.toUInt32
  | uint64 _ => uint64 value

/-! ### Primitive values -/

section Primitive

variable (lib : FloatLib)

/-- `lexical_cast` of a value. -/
def lexicalCastValue : RuntimeValue → Option Text
  | .integer iValue => some (toString iValue.getInt64.toInt).toList
  | .float fValue   => some (lib.toText (lib.toSingle fValue))
  | .boolean bValue => some (if bValue then "true".toList else "false".toList)
  | _               => none

/-- `lexical_cast` to a value, if it is one of the three kinds. -/
def lexicalCastTo (dst : Destination S) (s : S) (str : Text) : Option S :=
  match dst.integer with
  | some iValue => some (iValue.setInt64 s (if str = [] then 0 else lexicalCastInt64 str))
  | none =>
      match dst.float with
      | some fValue =>
          some (fValue.setDouble s (if str = [] then .finite 0 else lib.ofText str))
      | none =>
          match dst.boolean with
          | some setBool => some (setBool s (if str = [] then false else lexicalCastBool str))
          | none         => none

inductive TypeCoercion where
  | default
  | allow
  | strict
  deriving DecidableEq, Repr

def assignStringValue (setString : S → Text → Effect S) (s : S) (src : RuntimeValue)
    (typeCoercion : TypeCoercion) : Effect S :=
  match src with
  | .string srcStr => setString s srcStr
  | _ =>
      match if typeCoercion = .allow then lexicalCastValue lib src else none with
      | some str => setString s str
      | none     => makeError s "String value can be assigned only from other string"

/-- `tryImplicitCast`, and the error of its caller. -/
def implicitCast (dst : Destination S) (s : S) (src : RuntimeValue) (typeCoercion : TypeCoercion)
    (message : String) : Effect S :=
  match if typeCoercion = .allow then src else .nullptr with
  | .string srcStr =>
      match lexicalCastTo lib dst s srcStr with
      | some s' => (s', .ok ())
      | none    => makeError s message
  | _ => makeError s message

def assignPrimitiveValue (dst : Destination S) (s : S) (src : RuntimeValue)
    (typeCoercion : TypeCoercion := .allow) : Effect S :=
  match dst.string with
  | some dstStr => assignStringValue lib dstStr s src typeCoercion
  | none =>
      match dst.boolean with
      | some dstBool =>
          match src with
          | .boolean srcBool => (dstBool s srcBool, .ok ())
          | _ => implicitCast lib dst s src typeCoercion "Fail to assign boolean value"
      | none =>
          match dst.float with
          | some dstFloat =>
              match src with
              | .float srcFloat => (dstFloat.setDouble s srcFloat, .ok ())
              | .integer srcInt =>
                  if dstFloat.getBitsCount s = 8 then
                    (dstFloat.setDouble s (lib.doubleOfInt64 srcInt.getInt64), .ok ())
                  else (dstFloat.setSingle s (lib.singleOfInt64 srcInt.getInt64), .ok ())
              | _ => implicitCast lib dst s src typeCoercion "Can t assign value to float"
          | none =>
              match dst.integer with
              | some dstInt =>
                  match src with
                  | .integer srcInt =>
                      if dstInt.isSigned s then (dstInt.setInt64 s srcInt.getInt64, .ok ())
                      else (dstInt.setUint64 s srcInt.getUint64, .ok ())
                  | .float srcFloat =>
                      let iValue := lib.floorToInt64 (lib.toSingle srcFloat)
                      if dstInt.isSigned s then (dstInt.setInt64 s iValue, .ok ())
                      else (dstInt.setUint64 s iValue.toUInt64, .ok ())
                  | _ => implicitCast lib dst s src typeCoercion "Can t assign value to integer"
              | none => makeError s "Do not known how to assign primitive runtime value"

end Primitive

/-! ### Containers -/

structure ValueAssignOption where
  mergeCollection : Bool := false
  deriving DecidableEq, Repr

/-- A loop of calls that the first error ends. -/
def forEach {α : Type} (f : S → α → Effect S) : S → List α → Effect S
  | s, []      => (s, .ok ())
  | s, a :: as =>
      match f s a with
      | (s', .ok _)    => forEach f s' as
      | (s', .error e) => (s', .error e)

def assignCollection (dst : CollectionItf S) (s : S) (src : List RuntimeValue)
    (option : ValueAssignOption) : Effect S :=
  let s := if option.mergeCollection then s else dst.clear s
  if 0 < src.length then forEach dst.append (dst.reserve s src.length) src else (s, .ok ())

/-- The elements that both have, one after the other. -/
def assignElements (dst : ReadonlyCollectionItf S) (s : S) (src : List RuntimeValue) : Effect S :=
  forEach (fun s i =>
    match src[i]? with
    | some value => dst.setAt s i value
    | none       => (s, .ok ())) s (List.range (dst.getSize s))

def assignDictionary (dst : DictionaryItf S) (s : S) (src : List (Text × RuntimeValue))
    (option : ValueAssignOption) : Effect S :=
  let s :=
    match dst.clear with
    | some clear => if option.mergeCollection then s else clear s
    | none       => s
  forEach (fun s field => dst.setValue s field.1 field.2) s src

def assignObject (obj : ObjectItf S) (s : S) (srcDict : List (Text × RuntimeValue)) : Effect S :=
  forEach (fun s i =>
    let key := obj.getKey s i
    match srcDict.lookup key with
    | some srcValue => if srcValue.isNull then (s, .ok ()) else obj.setFieldValue s key srcValue
    | none          => (s, .ok ())) s (List.range (obj.getSize s))

/-! ### `assign` -/

/-- `clearDstIfOptionalSrcIsNull`; `reset` returns nothing. -/
def clearDst (dst : Destination S) (s : S) : Effect S :=
  match dst.optional with
  | some setValue => ((setValue s .nullptr).1, .ok ())
  | none =>
      match dst.string with
      | some setString => setString s []
      | none =>
          match dst.collection with
          | some dstCollection => (dstCollection.clear s, .ok ())
          | none =>
              match dst.dictionary.bind DictionaryItf.clear with
              | some clear => (clear s, .ok ())
              | none       => (s, .ok ())

/-- `assign` of what is neither null nor a reference nor an optional, to what is no reference. -/
def assignPlain (lib : FloatLib) (dst : Destination S) (s : S) (src : RuntimeValue)
    (option : ValueAssignOption) : Effect S :=
  match dst.optional with
  | some setValue => setValue s src
  | none =>
      if dst.isPrimitive then
        if src.isPrimitive then assignPrimitiveValue lib dst s src
        else makeError s "Expected primitive value"
      else
        match dst.collection, src.asCollection with
        | some dstCollection, some elements => assignCollection dstCollection s elements option
        | some _, none                      => makeError s "Expected Collection object"
        | none, srcCollection =>
            match dst.readonlyCollection, srcCollection with
            | some dstCollection, some elements => assignElements dstCollection s elements
            | _, _ =>
                match dst.object with
                | some dstObj =>
                    match src.asDictionary with
                    | some srcDict => assignObject dstObj s srcDict
                    | none         => makeError s "Expected Dictionary object"
                | none =>
                    match dst.dictionary with
                    | some dstDict =>
                        match src.asDictionary with
                        | some srcDict => assignDictionary dstDict s srcDict option
                        | none         => makeError s "Expected Dictionary object"
                    | none => makeError s "Do not known how to assign runtime value"

/-- `RuntimeValue::assign` to what is no reference. -/
def assignValue (lib : FloatLib) (dst : Destination S) (s : S) :
    RuntimeValue → ValueAssignOption → Effect S
  | .nullptr, _         => (s, .error .nullDereference)
  -- What is referred to is assigned without the option.
  | .ref value, _       =>
      if value.isNull then clearDst dst s else assignValue lib dst s value {}
  | .optional value, _  =>
      if value.isNull then clearDst dst s else assignValue lib dst s value {}
  | .integer i, option  => assignPlain lib dst s (.integer i) option
  | .float x, option    => assignPlain lib dst s (.float x) option
  | .boolean b, option  => assignPlain lib dst s (.boolean b) option
  | .string str, option => assignPlain lib dst s (.string str) option
  | .collection elements, option => assignPlain lib dst s (.collection elements) option
  | .dictionary fields, option   => assignPlain lib dst s (.dictionary fields) option

/-- `RuntimeValue::assign`. -/
def assign (lib : FloatLib) (dst : Destination S) (s : S) (src : RuntimeValue)
    (option : ValueAssignOption := {}) : Effect S :=
  match dst.valueRef with
  | some valueRef => (valueRef.setValue s src, .ok ())
  | none          => assignValue lib dst s src option

end MyEngine.Serialization
