import Mathlib.Algebra.Group.Nat.Defs
import Mathlib.Data.Nat.Size
import MyEngine.Serialization.RuntimeValue

/-!
# Lua — RuntimeValue

`lua_runtime_value.cpp`: runtime values pushed to the stack of a Lua state, and the wrappers of what
is read from it; with what they use of the tables and the stack of Lua 5.4.

* `LuaValue`: a table has an array part and a hash part, whose order is `order`.
* `LuaState`: a stack with a slot for each value, up to its limit.
* `pushRuntimeValue`, `makeValueFromLuaStack`.
-/

namespace MyEngine.Lua

open Serialization Support

/-! ### Tables -/

inductive LuaKey where
  | integer (i : Int64)
  | string (s : Text)
  deriving DecidableEq

inductive LuaValue where
  | nil
  | boolean (b : Bool)
  | integer (i : Int64)
  | number (x : Double)
  | string (s : Text)
  | table (array : List LuaValue) (hash : List (LuaKey × LuaValue))

namespace LuaValue

def isNil : LuaValue → Bool
  | nil => true
  | _   => false

/-- The values that are keys here. -/
def key? : LuaValue → Option LuaKey
  | integer i => some (.integer i)
  | string s  => some (.string s)
  | _         => none

end LuaValue

/-- The slot of the array part a key is for. -/
def arrayIndex (length : ℕ) : LuaKey → Option ℕ
  | .integer i => if 1 ≤ i.toInt ∧ i.toInt ≤ length then some (i.toInt.toNat - 1) else none
  | .string _  => none

/-- `lua_createtable(l, narr, nrec)`. -/
def createtable (narr : Int32) : LuaValue := .table (.replicate narr.toInt.toNat .nil) []

/-- `lua_gettable` of a table that has no metatable. -/
def gettable (table : LuaValue) (key : LuaKey) : LuaValue :=
  match table with
  | .table array hash =>
      match arrayIndex array.length key with
      | some i => array[i]?.getD .nil
      | none   => (hash.lookup key).getD .nil
  | _                 => .nil

/-- `t[key] = value` of `lua_rawset`; a value that is nil is not there. -/
def settable (table : LuaValue) (key : LuaKey) (value : LuaValue) : LuaValue :=
  match table with
  | .table array hash =>
      match arrayIndex array.length key with
      | some i => .table (array.set i value) hash
      | none   =>
          if value.isNil then .table array (hash.filter (·.1 ≠ key))
          else .table array (put key value hash)
  | _                 => table

/-- The keys in the order of `lua_next`: the array part from its start, and then the hash part as
its nodes lie. -/
def nextKeys (order : List LuaKey → List LuaKey) : LuaValue → List LuaKey
  | .table array hash =>
      ((List.range array.length).filter fun i => array[i]?.any (!·.isNil)).map
        (fun i => .integer (Int64.ofNat (i + 1))) ++ order (hash.map Prod.fst)
  | _                 => []

/-! ### The stack -/

/-- The stack from its top; the caller has seen to it that there are `limit` slots. -/
structure LuaState where
  stack : List LuaValue
  limit : ℕ

/-- An error is returned, a null pointer is dereferenced, or a value is pushed for which there is no
slot. -/
inductive Fault where
  | error (message : String)
  | nullDereference
  | stackOverflow
  deriving DecidableEq

namespace LuaState

def push (l : LuaState) (value : LuaValue) : Except Fault LuaState :=
  if l.stack.length < l.limit then .ok { l with stack := value :: l.stack }
  else .error .stackOverflow

def gettop (l : LuaState) : ℕ := l.stack.length

/-- The value at an index, which counts from the bottom, or from the top if it is negative. -/
def index2value (l : LuaState) (index : ℤ) : Option LuaValue :=
  if 0 < index then l.stack.reverse[index.toNat - 1]? else l.stack[(-index).toNat - 1]?

/-- `lua_rawset`: the key and the value above it are popped. -/
def rawset (l : LuaState) (tableIndex : ℕ) : LuaState :=
  match l.stack with
  | value :: top :: stack =>
      let slot := stack.length - tableIndex
      match stack[slot]?, top.key? with
      | some table, some key => { l with stack := stack.set slot (settable table key value) }
      | _, _                 => { l with stack }
  | _                     => l

end LuaState

/-! ### `pushRuntimeValue` -/

mutual

@[grind =] def pushRuntimeValue (l : LuaState) : RuntimeValue → Except Fault LuaState
  | .nullptr             => .error .nullDereference
  | .optional .nullptr   => l.push .nil
  | .optional value      => pushRuntimeValue l value
  | .string str          => l.push (.string str)
  | .boolean b           => l.push (.boolean b)
  | .integer intValue    =>
      l.push (.integer
        (if intValue.isSigned then intValue.getInt64 else intValue.getUint64.toInt64))
  | .float fValue        => l.push (.number fValue)
  | .collection elements => do
      let l ← l.push (createtable (Int32.ofNat elements.length))
      pushElements l l.gettop 0 elements
  | .dictionary fields   => do
      let l ← l.push (createtable 0)
      pushFields l l.gettop fields
  | .ref _               => .error (.error "Dont known how to push value")

@[grind =]
def pushElements (l : LuaState) (tableIndex i : ℕ) : List RuntimeValue → Except Fault LuaState
  | []                  => .ok l
  | element :: elements => do
      let l ← l.push (.integer (Int64.ofNat (i + 1)))
      let l ← pushRuntimeValue l element
      pushElements (l.rawset tableIndex) tableIndex (i + 1) elements

@[grind =] def pushFields (l : LuaState) (tableIndex : ℕ) :
    List (Text × RuntimeValue) → Except Fault LuaState
  | []                             => .ok l
  | (fieldKey, fieldValue) :: rest => do
      let l ← l.push (.string fieldKey)
      let l ← pushRuntimeValue l fieldValue
      pushFields (l.rawset tableIndex) tableIndex rest

end

/-! ### Child keys -/

/-- `InvalidLuaIndex`. -/
def invalidLuaIndex : Int32 := Int32.minValue

structure ChildVariableKey where
  index : Int32 := invalidLuaIndex
  name : Text := []
  deriving DecidableEq

namespace ChildVariableKey

def makeFromStack : LuaKey → ChildVariableKey
  | .integer i => { index := i.toInt32 }
  | .string s  => { name := s }

def isIndexed (key : ChildVariableKey) : Bool := key.index ≠ invalidLuaIndex

/-- `operator bool`. -/
def isKey (key : ChildVariableKey) : Bool := key.isIndexed || key.name ≠ []

/-- `operator==(std::string_view)`. -/
def eqText (key : ChildVariableKey) (str : Text) : Bool :=
  if key.isIndexed then (toString key.index.toInt).toList == str else key.name == str

def asString (key : ChildVariableKey) : Text :=
  if key.isIndexed then (toString key.index.toInt).toList else key.name

def push (key : ChildVariableKey) : LuaKey :=
  if key.isIndexed then .integer key.index.toInt64 else .string key.name

end ChildVariableKey

/-! ### Numbers -/

/-- The double that a conversion of the integer gives: the nearest, and of two the one whose
significand is even. -/
def nearestDouble (i : ℤ) : ℤ :=
  let n := i.natAbs
  let unit := 2 ^ (n.size - 53)
  let significand := n / unit
  let rest := n % unit
  let up := if unit < 2 * rest ∨ unit = 2 * rest ∧ significand % 2 = 1 then 1 else 0
  i.sign * ((significand + up) * unit : ℕ)

/-- `static_cast<int64_t>` of a double, where it is defined. -/
def castInt64 : Double → Option Int64
  | .finite x         =>
      let i := x.num.tdiv x.den
      if -2 ^ 63 ≤ i ∧ i < 2 ^ 63 then some (Int64.ofInt i) else none
  | .infinite _ | .nan => none

/-! ### `makeValueFromLuaStack` -/

/-- The wrappers; those of a table have the table that they refer to. -/
inductive LuaRuntimeValue where
  | string (value : Text)
  | numeric (value : Double)
  | boolean (value : Bool)
  | nil
  | table (self : LuaValue) (keys : List ChildVariableKey)
  | array (self : LuaValue) (keys : List ChildVariableKey)

/-- "array if all keys are integers + each key must be greater than the previous one". -/
def ascending (lastChildIndex : Int32) : List ChildVariableKey → Bool
  | []               => true
  | childKey :: keys =>
      if !childKey.isIndexed || lastChildIndex ≠ invalidLuaIndex && childKey.index < lastChildIndex
      then false
      else ascending childKey.index keys

section

variable (order : List LuaKey → List LuaKey)

def makeValue (value : LuaValue) : LuaRuntimeValue :=
  match value with
  | .string s    => .string s
  | .integer i   => .numeric (.finite (nearestDouble i.toInt))
  | .number x    => .numeric x
  | .boolean b   => .boolean b
  | .nil         => .nil
  | .table _ _ =>
      let childKeys := (nextKeys order value).map ChildVariableKey.makeFromStack
      let isArray := childKeys ≠ [] && ascending invalidLuaIndex childKeys
      if isArray then .array value childKeys else .table value childKeys

def makeValueFromLuaStack (l : LuaState) (index : ℤ) : Option LuaRuntimeValue :=
  (l.index2value index).map (makeValue order)

/-- `pushChild`. -/
def child (self : LuaValue) (childKey : ChildVariableKey) : LuaValue :=
  if childKey.isKey then gettable self childKey.push else self

def makeChildValue (self : LuaValue) (key : ChildVariableKey) : LuaRuntimeValue :=
  makeValue order (child self key)

namespace LuaRuntimeValue

/-- `LuaNumericValue::getInt64`. -/
def getInt64 : LuaRuntimeValue → Option Int64
  | numeric value => castInt64 value
  | _             => none

def getSize : LuaRuntimeValue → ℕ
  | table _ keys | array _ keys => keys.length
  | _                           => 0

/-- `LuaArrayValue::getAt`. -/
def getAt (value : LuaRuntimeValue) (index : ℕ) : Option LuaRuntimeValue :=
  match value with
  | array self keys => keys[index]?.map (makeChildValue order self)
  | _               => none

/-- `LuaTableValue::getValue`. -/
def getValue (value : LuaRuntimeValue) (keyName : Text) : Option LuaRuntimeValue :=
  match value with
  | table self keys => (keys.find? (·.eqText keyName)).map (makeChildValue order self)
  | _               => none

/-- `LuaTableValue::getKey` of all indices. -/
def getKeys : LuaRuntimeValue → List Text
  | table _ keys => keys.map ChildVariableKey.asString
  | _            => []

end LuaRuntimeValue

end

end MyEngine.Lua
