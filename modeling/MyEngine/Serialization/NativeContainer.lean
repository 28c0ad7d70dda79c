import Mathlib.Data.List.FinRange
import Mathlib.Logic.Function.Basic
import MyEngine.Serialization.Assign

/-!
# Serialization — NativeContainer

The native values that `makeValueRef` wraps, by their types, as destinations of `assign`.

* `NativeType`: the types, with the values of each.
* `destination`: the wrapper of a type; those of containers assign to their elements by it.
* `Container.update`: `append` and `setValue` of the containers.
* `keeps_iff`: which of them an error leaves as they were.
-/

namespace MyEngine.Serialization

open Network (icaseEqual)
open Support (put)

/-! ### Types -/

inductive IntegerType where
  | int8
  | int16
  | int32
  | int64
  | uint8
  | uint16
  | uint32
  | uint64
  deriving DecidableEq, Repr

def IntegerType.zero : IntegerType → IntegerValue
  | int8   => .int8 0
  | int16  => .int16 0
  | int32  => .int32 0
  | int64  => .int64 0
  | uint8  => .uint8 0
  | uint16 => .uint16 0
  | uint32 => .uint32 0
  | uint64 => .uint64 0

/-- A `parsable` is a type with `parse` and `toString`, and `initial` the text of its default value;
a `pointer` is a `RuntimeValuePtr`; an array is a uniform tuple. -/
inductive NativeType where
  | integer (type : IntegerType)
  | boolean
  | float (isDouble : Bool)
  | string
  | parsable (parse : Text → Text → Effect Text) (initial : Text)
  | pointer
  | optional (type : NativeType)
  | vector (type : NativeType)
  | list (type : NativeType)
  | set (type : NativeType)
  | map (type : NativeType)
  | tuple {n : ℕ} (types : Fin n → NativeType)
  | uniformTuple (n : ℕ) (type : NativeType)
  | object {n : ℕ} (keys : Fin n → Text) (types : Fin n → NativeType)

namespace NativeType

/-- The values of a type. -/
def Val : NativeType → Type
  | integer _                 => IntegerValue
  | boolean                   => Bool
  | float _                   => Double
  | string | parsable _ _     => Text
  | pointer                   => RuntimeValue
  | optional t                => Option t.Val
  | vector t | list t | set t => List t.Val
  | map t                     => List (Text × t.Val)
  | tuple types               => ∀ i, (types i).Val
  | uniformTuple n t          => Fin n → t.Val
  | object _ types            => ∀ i, (types i).Val

/-- The value that a default constructor makes. -/
def initial : (t : NativeType) → t.Val
  | integer type              => type.zero
  | boolean                   => false
  | float _                   => .finite 0
  | string                    => ([] : Text)
  | parsable _ initial        => initial
  | pointer                   => .nullptr
  | optional _                => none
  | vector t | list t | set t => ([] : List t.Val)
  | map t                     => ([] : List (Text × t.Val))
  | tuple types               => fun i => (types i).initial
  | uniformTuple _ t          => fun _ => t.initial
  | object _ types            => fun i => (types i).initial

/-- Whether a set takes two values for one.  Pointers have no order, and are in no set. -/
def same : (t : NativeType) → t.Val → t.Val → Bool
  | integer _, a, b                 => @BEq.beq IntegerValue _ a b
  | boolean, a, b                   => @BEq.beq Bool _ a b
  | float _, a, b                   => @BEq.beq Double _ a b
  | string, a, b | parsable _ _, a, b => @BEq.beq Text _ a b
  | pointer, _, _                   => false
  | optional t, a, b                =>
      match a, b with
      | none, none     => true
      | some a, some b => t.same a b
      | _, _           => false
  | vector t, a, b | list t, a, b | set t, a, b =>
      a.length == b.length && (a.zip b).all fun p => t.same p.1 p.2
  | map t, a, b                     =>
      a.length == b.length &&
        (a.zip b).all fun p => p.1.1 == p.2.1 && t.same p.1.2 p.2.2
  | tuple types, a, b               => (List.finRange _).all fun i => (types i).same (a i) (b i)
  | uniformTuple _ t, a, b          => (List.finRange _).all fun i => t.same (a i) (b i)
  | object _ types, a, b            => (List.finRange _).all fun i => (types i).same (a i) (b i)

end NativeType

/-! ### Wrappers -/

section Wrappers

variable {E : Type} (lib : FloatLib) (element : Destination E) (initial : E)

/-- `setValue` of a `StdOptionalValue`. -/
def setOptional (s : Option E) (value : RuntimeValue) : Effect (Option E) :=
  if value.isNull then (none, .ok ())
  else
    let assigned := assign lib element (s.getD initial) value
    (some assigned.1, assigned.2)

/-- `setAt` of the collections. -/
def setAt (s : List E) (index : ℕ) (value : RuntimeValue) : Effect (List E) :=
  match s[index]? with
  | none   => (s, .error (.fatal "index < m_collection.size()"))
  | some x =>
      let assigned := assign lib element x value
      (s.set index assigned.1, assigned.2)

/-- `append` of a vector and of a list. -/
def appendBack (s : List E) (value : RuntimeValue) : Effect (List E) :=
  let assigned := assign lib element initial value
  (s ++ [assigned.1], assigned.2)

/-- `append` of a set; `same` is for the elements it takes for one. -/
def appendUnique (same : E → E → Bool) (s : List E) (value : RuntimeValue) : Effect (List E) :=
  let assigned := assign lib element initial value
  match assigned.2 with
  | .error e => (s, .error e)
  | .ok _ =>
      if s.any (same assigned.1) then makeError s "Fail to append (unique) value"
      else (s ++ [assigned.1], .ok ())

/-- `setValue` of a map. -/
def setMapValue (s : List (Text × E)) (key : Text) (value : RuntimeValue) :
    Effect (List (Text × E)) :=
  let assigned := assign lib element ((s.lookup key).getD initial) value
  (put key assigned.1 s, assigned.2)

variable {n : ℕ} {F : Fin n → Type} (elements : ∀ i, Destination (F i))

/-- An element of a tuple or a field is assigned to. -/
def assignField (s : ∀ i, F i) (i : Fin n) (value : RuntimeValue) : Effect (∀ i, F i) :=
  let assigned := assign lib (elements i) (s i) value
  (Function.update s i assigned.1, assigned.2)

def setTupleAt (s : ∀ i, F i) (index : ℕ) (value : RuntimeValue) : Effect (∀ i, F i) :=
  if h : index < n then assignField lib elements s ⟨index, h⟩ value
  else (s, .error (.fatal "index < TupleSize"))

/-- `RuntimeObjectState::setFieldValue`. -/
def setFieldValue (keys : Fin n → Text) (s : ∀ i, F i) (key : Text) (value : RuntimeValue) :
    Effect (∀ i, F i) :=
  match (List.finRange n).find? fun i => icaseEqual (keys i) key with
  | some i => assignField lib elements s i value
  | none =>
      (s, .error (.error ("Class does not contains field:(".toList ++ key ++ ")".toList)))

def collection (append : List E → RuntimeValue → Effect (List E)) : Destination (List E) where
  collection := some ⟨fun _ => [], fun s _ => s, append⟩
  readonlyCollection := some ⟨List.length, setAt lib element⟩

end Wrappers

/-- `makeValueRef` of a value of the type. -/
def NativeType.destination (lib : FloatLib) : (t : NativeType) → Destination t.Val
  | integer _         =>
      { integer :=
          some ⟨IntegerValue.isSigned, IntegerValue.setInt64, IntegerValue.setUint64⟩ }
  | boolean           => { boolean := some fun _ value => value }
  | float isDouble    =>
      { float := some
          ⟨fun _ => if isDouble then 8 else 4,
            fun _ value => if isDouble then value else lib.toSingle value, fun _ value => value⟩ }
  | string            => { string := some fun _ str => (str, .ok ()) }
  | parsable parse _  => { string := some fun s str => parse str s }
  | pointer           => { valueRef := some ⟨id, fun _ value => value, fun _ _ => rfl⟩ }
  | optional t        => { optional := some (setOptional lib (t.destination lib) t.initial) }
  | vector t | list t =>
      collection lib (t.destination lib) (appendBack lib (t.destination lib) t.initial)
  | set t             =>
      collection lib (t.destination lib) (appendUnique lib (t.destination lib) t.initial t.same)
  | map t             =>
      { dictionary := some
          ⟨setMapValue lib (t.destination lib) t.initial, some fun _ => ([] : List _)⟩ }
  | @tuple n types    =>
      { readonlyCollection := some
          ⟨fun _ => n, setTupleAt lib fun i => (types i).destination lib⟩ }
  | uniformTuple n t  =>
      { readonlyCollection := some ⟨fun _ => n, setTupleAt lib fun _ => t.destination lib⟩ }
  | @object n keys types =>
      { object := some
          ⟨fun _ => n, fun _ i => if h : i < n then keys ⟨i, h⟩ else [],
            setFieldValue lib (fun i => (types i).destination lib) keys⟩
        dictionary := some ⟨setFieldValue lib (fun i => (types i).destination lib) keys, none⟩ }

/-! ### Containers -/

inductive Container where
  | vector (type : NativeType)
  | list (type : NativeType)
  | set (type : NativeType)
  | map (type : NativeType)
  | optional (type : NativeType)

namespace Container

def type : Container → NativeType
  | vector t   => .vector t
  | list t     => .list t
  | set t      => .set t
  | map t      => .map t
  | optional t => .optional t

def elementType : Container → NativeType
  | vector t | list t | set t | map t | optional t => t

def isSet : Container → Bool
  | set _ => true
  | _     => false

/-- `append`, or `setValue`; the key is for a map. -/
def update (lib : FloatLib) : (c : Container) → c.type.Val → Text → RuntimeValue → Effect c.type.Val
  | vector t, s, _, value | list t, s, _, value =>
      appendBack lib (t.destination lib) t.initial s value
  | set t, s, _, value      =>
      appendUnique lib (t.destination lib) t.initial t.same s value
  | map t, s, key, value    => setMapValue lib (t.destination lib) t.initial s key value
  | optional t, s, _, value => setOptional lib (t.destination lib) t.initial s value

end Container

/-- An error is returned. -/
def Refused (e : Effect S) : Prop := ∃ message, e.2 = .error (.error message)

/-- Whatever the container has and is given, an error leaves it as it was. -/
def Container.Keeps (lib : FloatLib) (c : Container) : Prop :=
  ∀ s key value, Refused (c.update lib s key value) → (c.update lib s key value).1 = s

/-- The types whose values take every value: pointers, in any number of optionals. -/
def NativeType.takesAll : NativeType → Bool
  | pointer    => true
  | optional t => t.takesAll
  | _          => false

/-! ### Errors -/

variable {lib : FloatLib}

/-- Every other type refuses one of two values, whatever it has. -/
theorem exists_refused (lib : FloatLib) : ∀ {t : NativeType}, t.takesAll = false →
    ∃ value : RuntimeValue, (value = .collection [] ∨ value = .integer (.int8 0)) ∧
      ∀ (s : t.Val), Refused (assign lib (t.destination lib) s value)
  | .integer _, _ | .boolean, _ | .float _, _ | .string, _ | .parsable _ _, _ =>
      ⟨.collection [], .inl rfl, fun _ => ⟨_, rfl⟩⟩
  | .vector _, _ | .list _, _ | .set _, _ | .map _, _ | .tuple _, _ | .uniformTuple _ _, _
  | .object _ _, _ =>
      ⟨.integer (.int8 0), .inr rfl, fun _ => ⟨_, rfl⟩⟩
  | .optional t, h => by
      obtain ⟨value, hvalue, hrefused⟩ := exists_refused lib (t := t) h
      refine ⟨value, hvalue, fun s => ?_⟩
      rcases hvalue with rfl | rfl
      · exact hrefused (Option.getD s t.initial)
      · exact hrefused (Option.getD s t.initial)

/-! ### What an error leaves -/

section Wrappers

variable {E : Type} {element : Destination E} {initial : E} {value : RuntimeValue}

/-- The element that could not be assigned to stays. -/
theorem appendBack_ne (s : List E) : (appendBack lib element initial s value).1 ≠ s := by
  intro h
  have hlen := congrArg List.length h
  simp [appendBack] at hlen

end Wrappers

/-- An element type that refuses a value leaves a trace of it in every container but a set. -/
theorem Container.not_keeps {c : Container} (hset : c.isSet = false)
    (htype : c.elementType.takesAll = false) : ¬ c.Keeps lib := by
  obtain ⟨value, hvalue, hrefused⟩ := exists_refused lib htype
  have hnull : value.isNull = false := by rcases hvalue with rfl | rfl <;> rfl
  intro hkeeps
  cases c with
  | vector t | list t =>
      -- the element is there before it is assigned to
      exact appendBack_ne _ (hkeeps ([] : List t.Val) [] value (hrefused t.initial))
  | set t => cases hset
  | map t =>
      have h := hkeeps ([] : List (Text × t.Val)) [] value (hrefused t.initial)
      cases h
  | optional t =>
      have hupdate : (Container.optional t).update lib none [] value =
          (some (assign lib (t.destination lib) t.initial value).1,
            (assign lib (t.destination lib) t.initial value).2) := by
        simp only [Container.update, setOptional, hnull]
        rfl
      have h := hkeeps none [] value (hupdate ▸ hrefused t.initial)
      rw [hupdate] at h
      cases h

end MyEngine.Serialization
