import MyEngine.Support.Replace
import MyEngine.Support.Runs
import MyEngine.Support.Tally

/-!
# Serialization — NativeValue

`native_value_base.h`: the native runtime values that a client reaches from one another, with their
references.  The child has the guard of its parent, the guard has the parent, and is made in the
memory of the parent, its counters too.

* `NativeValue`: a value with the two counters of `rtti_impl.cpp` and those of its guard.
* `releaseInstanceRef`: the reference that goes, and what goes with it, in the order of the code.
* `step`: what a client can do with its handles.
-/

namespace MyEngine.Serialization.Native

/-- A value; `parent` is whose guard it has, `guardInstance` and `guardState` are the counters in
`m_mutabilityGuardStorage`, and `guardRef` is `m_mutabilityGuardRef`.  The last four are the
references of clients, and how often it has been destroyed and its memory freed. -/
structure NativeValue where
  parent : Option ℕ
  instanceCounter : ℕ := 1
  stateCounter : ℕ := 1
  guardInstance : ℕ := 0
  guardState : ℕ := 0
  guardRef : Bool := false
  handles : ℕ := 1
  weaks : ℕ := 0
  destroyed : ℕ := 0
  freed : ℕ := 0
  deriving DecidableEq, Repr

namespace NativeValue

@[simp]
def addInstanceRef (v : NativeValue) : NativeValue :=
  { v with instanceCounter := v.instanceCounter + 1, stateCounter := v.stateCounter + 1 }

@[simp]
def addStorageRef (v : NativeValue) : NativeValue := { v with stateCounter := v.stateCounter + 1 }

@[simp]
def removeInstance (v : NativeValue) : NativeValue :=
  { v with instanceCounter := v.instanceCounter - 1 }

/-- The memory is given back with the last reference. -/
@[simp]
def removeStorage (v : NativeValue) : NativeValue :=
  { v with
    stateCounter := v.stateCounter - 1
    freed := if v.stateCounter = 1 then v.freed + 1 else v.freed }

/-- The destructor, with `m_mutabilityGuardRef`. -/
@[simp]
def destroy (v : NativeValue) : NativeValue :=
  { v with
    destroyed := v.destroyed + 1
    guardState := if v.guardRef then v.guardState - 1 else v.guardState
    guardRef := false }

@[simp]
def removeGuard (v : NativeValue) : NativeValue := { v with guardInstance := v.guardInstance - 1 }

@[simp]
def removeGuardStorage (v : NativeValue) : NativeValue := { v with guardState := v.guardState - 1 }

/-- `getThisMutabilityGuard`: the guard that is alive, or a new one in the same place. -/
def guard (v : NativeValue) : NativeValue :=
  if v.guardRef ∧ v.guardInstance ≠ 0 then
    { v with guardInstance := v.guardInstance + 1, guardState := v.guardState + 1 }
  else { v.addInstanceRef with guardInstance := 1, guardState := 2, guardRef := true }

end NativeValue

/-- The values, in the order they are made.  Behind a guard that is touched in freed memory there is
nothing to tell. -/
structure State where
  values : List NativeValue := []
  touched : Bool := false
  deriving DecidableEq, Repr

namespace State

def modify (s : State) (value : ℕ) (f : NativeValue → NativeValue) : State :=
  { s with values := s.values.modify value f }

/-- The counters of the guard are in the memory of the value. -/
def touch (s : State) (value : ℕ) : State :=
  { s with touched := s.touched || s.values[value]?.any fun v => v.freed ≠ 0 }

/-- `releaseStorageRef` of the guard. -/
def releaseGuardStorage (s : State) (value : ℕ) : State :=
  (s.touch value).modify value NativeValue.removeGuardStorage

/-- `releaseInstanceRef` of the guard, whose destructor releases the parent. -/
def releaseGuard (release : State → ℕ → State) (s : State) (parent : ℕ) : State :=
  let s' := (s.touch parent).modify parent NativeValue.removeGuard
  (if s.values[parent]?.any fun v => v.guardInstance = 1 then release s' parent
    else s').releaseGuardStorage parent

/-- The destructor of a value: `m_mutabilityGuardRef`, and then `m_parentGuard`. -/
def destroy (release : State → ℕ → State) (s : State) (value : ℕ) (v : NativeValue) : State :=
  let s' := (if v.guardRef then s.touch value else s).modify value NativeValue.destroy
  match v.parent with
  | none        => s'
  | some parent => s'.releaseGuard release parent

/-- `releaseInstanceRef` of a value.  A parent has been made before its children. -/
def releaseInstanceRef : ℕ → State → ℕ → State
  | 0, s, _            => s
  | fuel + 1, s, value =>
      match s.values[value]? with
      | none   => s
      | some v =>
          let s' := s.modify value NativeValue.removeInstance
          (if v.instanceCounter = 1 then s'.destroy (releaseInstanceRef fuel) value v
            else s').modify value NativeValue.removeStorage

end State

/-- What a client does with a value it has a handle or a weak reference of. -/
inductive Action where
  | makeValue
  | getValue (value : ℕ)
  | addRef (value : ℕ)
  | releaseRef (value : ℕ)
  | getWeakRef (value : ℕ)
  | acquire (value : ℕ)
  | releaseWeakRef (value : ℕ)
  deriving DecidableEq, Repr

def step (s : State) (a : Action) : Option State :=
  if s.touched then none
  else
    match a with
    | .makeValue            => some { s with values := s.values ++ [{ parent := none }] }
    | .getValue value       =>
        s.values[value]?.bind fun v =>
          if v.handles = 0 then none
          else
            let s' := if v.guardRef ∧ v.guardInstance = 0 then s.touch value else s
            some { s' with
              values := (s'.values.modify value NativeValue.guard) ++ [{ parent := some value }] }
    | .addRef value         =>
        s.values[value]?.bind fun v =>
          if v.handles = 0 then none
          else some (s.modify value fun v => { v.addInstanceRef with handles := v.handles + 1 })
    | .releaseRef value     =>
        s.values[value]?.bind fun v =>
          if v.handles = 0 then none
          else
            some ((s.modify value fun v =>
              { v with handles := v.handles - 1 }).releaseInstanceRef s.values.length value)
    | .getWeakRef value     =>
        s.values[value]?.bind fun v =>
          if v.handles = 0 ∧ v.weaks = 0 then none
          else some (s.modify value fun v => { v.addStorageRef with weaks := v.weaks + 1 })
    | .acquire value        =>
        s.values[value]?.bind fun v =>
          if v.weaks = 0 then none
          else if v.instanceCounter = 0 then some s
          else some (s.modify value fun v => { v.addInstanceRef with handles := v.handles + 1 })
    | .releaseWeakRef value =>
        s.values[value]?.bind fun v =>
          if v.weaks = 0 then none
          else some (s.modify value fun v => { v.removeStorage with weaks := v.weaks - 1 })

end MyEngine.Serialization.Native
