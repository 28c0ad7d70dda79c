import MyEngine.Support.Runs
import MyEngine.Support.Tally

/-!
# Rtti — SharedState

`rtti_impl.cpp`: the two reference counters of a ref-counted object and the calls that move
them.  `m_instanceCounter` counts strong references, `m_stateCounter` strong and weak ones; the
instance is destroyed when the first reaches zero, the storage freed when the second does.

Any number of calls run at once.  A call is where it stands in its method (`Call`), and every
atomic load, compare-exchange, increment and decrement is one step.  `strong` and `weak` are the
references in their holders' hands.  Calls may be made through one reference at a time in any
number; a release takes a reference away, and there has to be another one for the calls in
progress through references of its kind, if there are any.
-/

namespace MyEngine.Rtti

/-- The counters are `std::atomic<uint32_t>`. -/
def counterSize : Nat := 2 ^ 32

/-- The value `fetch_add(1)` leaves. -/
def fetchAdd (counter : Nat) : Nat := (counter + 1) % counterSize

/-- The value `fetch_sub(1)` leaves. -/
def fetchSub (counter : Nat) : Nat := if counter = 0 then counterSize - 1 else counter - 1

/-- Where a call stands: the next step it takes. -/
inductive Call where
  /-- `addInstanceRef`: `addRef(m_instanceCounter)`. -/
  | addInstance
  /-- `addInstanceRef`: `addRef(m_stateCounter)`. -/
  | addState
  /-- `releaseInstanceRef`: `removeRef(m_instanceCounter)`. -/
  | removeInstance
  /-- `releaseInstanceRef`: `m_destructorFunc(instancePtr)`. -/
  | destruct
  /-- `releaseStorageRef`: `removeRef(m_stateCounter)`. -/
  | removeState
  /-- `releaseStorageRef`: `std::destroy_at(this)` and `allocator->free(m_allocatedPtr)`. -/
  | free
  /-- `acquireWeakRef`: `addRef(m_stateCounter)`. -/
  | acquireWeakRef
  /-- `addWeakRef`: `addRef(m_stateCounter)`. -/
  | addWeakRef
  /-- `tryAddRef`: `counter.load()`. -/
  | load
  /-- `tryAddRef`: the operand `counter + 1`, which loads the counter again. -/
  | operand (value : Nat)
  /-- `tryAddRef`: `compare_exchange_weak(value, desired)`. -/
  | exchange (value desired : Nat)
  /-- `acquire`, after `tryAddRef` succeeded: `addRef(m_stateCounter)`. -/
  | acquired
  | done
  deriving DecidableEq, Repr

namespace Call

/-- The call is made through a strong reference, which stays its holder's. -/
def usesStrong : Call → Nat
  | .addInstance | .addState | .acquireWeakRef => 1
  | _ => 0

/-- The call is made through a weak reference, which stays its holder's. -/
def usesWeak : Call → Nat
  | .addWeakRef | .load | .operand _ | .exchange _ _ | .acquired => 1
  | _ => 0

/-- The strong references in the call's own hands: one it has to release, or one it has taken
for its caller. -/
def strongRefs : Call → Nat
  | .addState | .removeInstance | .acquired => 1
  | _ => 0

/-- What the call still has to take from `m_stateCounter`. -/
def stateRefs : Call → Nat
  | .removeInstance | .destruct | .removeState => 1
  | _ => 0

/-- The call is about to run the instance destructor. -/
def destructs : Call → Nat
  | .destruct => 1
  | _ => 0

/-- The call is about to destroy the shared state. -/
def frees : Call → Nat
  | .free => 1
  | _ => 0

theorem strongRefs_le : ∀ c : Call, c.strongRefs ≤ c.stateRefs + (c.usesStrong + c.usesWeak)
  | .addInstance | .addState | .removeInstance | .destruct | .removeState => by decide
  | .acquireWeakRef | .addWeakRef | .load | .acquired | .free | .done => by decide
  | .operand _ | .exchange _ _ => Nat.zero_le _

theorem destructs_le : ∀ c : Call, c.destructs ≤ c.stateRefs
  | .addInstance | .addState | .removeInstance | .destruct | .removeState => by decide
  | .acquireWeakRef | .addWeakRef | .load | .acquired | .free | .done => by decide
  | .operand _ | .exchange _ _ => Nat.zero_le _

end Call

structure State where
  /-- Whether there is an `m_allocator`: an instance created in place has none. -/
  allocator : Bool
  instanceCounter : Nat := 1
  stateCounter : Nat := 1
  /-- Strong references in their holders' hands. -/
  strong : Nat := 1
  /-- Weak references in their holders' hands. -/
  weak : Nat := 0
  calls : List Call := []
  /-- How often the instance destructor ran. -/
  destructed : Nat := 0
  /-- How often the shared state was destroyed. -/
  released : Nat := 0
  /-- How often the storage was given back to the allocator. -/
  freed : Nat := 0
  deriving DecidableEq, Repr

/-- A new object, its one strong reference in its creator's hands. -/
def State.new (allocator : Bool) : State := { allocator }

inductive Method where
  | addInstanceRef
  | releaseInstanceRef
  | acquireWeakRef
  | acquire
  | addWeakRef
  | releaseRef
  deriving DecidableEq, Repr

inductive Act where
  | call (m : Method)
  /-- The `i`-th call takes its next step; `spurious`: a weak compare-exchange fails although
  it could succeed. -/
  | step (i : Nat) (spurious : Bool)
  deriving DecidableEq, Repr

namespace State

/-- A method is called through a strong reference. -/
def useStrong (s : State) (c : Call) : Option State :=
  if s.strong = 0 then none else some { s with calls := s.calls ++ [c] }

/-- A method is called through a weak reference. -/
def useWeak (s : State) (c : Call) : Option State :=
  if s.weak = 0 then none else some { s with calls := s.calls ++ [c] }

/-- The method called, and whether there is a reference to call it through. -/
def enter (s : State) : Method → Option State
  | .addInstanceRef     => s.useStrong .addInstance
  | .releaseInstanceRef =>
      if min 1 (tally Call.usesStrong s.calls) < s.strong then
        some { s with strong := s.strong - 1, calls := s.calls ++ [.removeInstance] }
      else
        none
  | .acquireWeakRef     => s.useStrong .acquireWeakRef
  | .acquire            => s.useWeak .load
  | .addWeakRef         => s.useWeak .addWeakRef
  | .releaseRef         =>
      if min 1 (tally Call.usesWeak s.calls) < s.weak then
        some { s with weak := s.weak - 1, calls := s.calls ++ [.removeState] }
      else
        none

/-- The head of `tryAddRef`'s loop with the loaded `value`: on zero `acquire` returns null. -/
def tested (value : Nat) : Call :=
  if value = 0 then .done else .operand value

/-- The next step of a call: the state it leaves, and where the call stands then. -/
def advance (s : State) (spurious : Bool) : Call → State × Call
  | .addInstance    => ({ s with instanceCounter := fetchAdd s.instanceCounter }, .addState)
  | .addState       =>
      ({ s with stateCounter := fetchAdd s.stateCounter, strong := s.strong + 1 }, .done)
  | .removeInstance =>
      ({ s with instanceCounter := fetchSub s.instanceCounter },
        if s.instanceCounter = 1 then .destruct else .removeState)
  | .destruct       => ({ s with destructed := s.destructed + 1 }, .removeState)
  | .removeState    =>
      ({ s with stateCounter := fetchSub s.stateCounter },
        if s.stateCounter = 1 then .free else .done)
  | .free           =>
      ({ s with
          released := s.released + 1
          freed := if s.allocator then s.freed + 1 else s.freed }, .done)
  | .acquireWeakRef =>
      ({ s with stateCounter := fetchAdd s.stateCounter, weak := s.weak + 1 }, .done)
  | .addWeakRef     =>
      ({ s with stateCounter := fetchAdd s.stateCounter, weak := s.weak + 1 }, .done)
  | .load           => (s, tested s.instanceCounter)
  | .operand value  => (s, .exchange value (fetchAdd s.instanceCounter))
  | .exchange value desired =>
      if s.instanceCounter = value ∧ spurious = false then
        ({ s with instanceCounter := desired }, .acquired)
      else
        (s, tested s.instanceCounter)
  | .acquired       =>
      ({ s with stateCounter := fetchAdd s.stateCounter, strong := s.strong + 1 }, .done)
  | .done           => (s, .done)

def step (s : State) : Act → Option State
  | .call m => s.enter m
  | .step i spurious =>
      s.calls[i]?.map fun c =>
        { (s.advance spurious c).1 with calls := s.calls.set i (s.advance spurious c).2 }

/-- The strong references that are held, those included that a call has taken or has yet to
release. -/
def heldStrong (s : State) : Nat := s.strong + tally Call.strongRefs s.calls

/-- The references of both kinds that `m_stateCounter` stands for. -/
def heldState (s : State) : Nat := s.strong + s.weak + tally Call.stateRefs s.calls

/-- No call is in progress. -/
def Quiet (s : State) : Prop := ∀ c ∈ s.calls, c = .done

/-- Between `s` and `s'` a compare-exchange of an `acquire` succeeded. -/
def Acquires (s s' : State) : Prop :=
  ∃ (i value desired : Nat),
    s.calls[i]? = some (Call.exchange value desired) ∧ s'.calls[i]? = some Call.acquired

end State

/-- The step of the call stays clear of the two defects: an increment does not wrap, and a
compare-exchange that succeeds stores the successor of the value it compared with, that is,
`counter + 1` was evaluated while the counter still had that value. -/
def State.Clear (s : State) (spurious : Bool) : Call → Prop
  | .addInstance => s.instanceCounter + 1 < counterSize
  | .addState | .acquireWeakRef | .addWeakRef | .acquired => s.stateCounter + 1 < counterSize
  | .exchange value desired =>
      s.instanceCounter = value → spurious = false → desired = value + 1 ∧ desired < counterSize
  | _ => True

/-- Every call's step stays clear of them. -/
def Clear (s : State) : Act → Prop
  | .call _          => True
  | .step i spurious => ∀ c, s.calls[i]? = some c → s.Clear spurious c

instance (s : State) (spurious : Bool) : DecidablePred (s.Clear spurious)
  | .addInstance => inferInstanceAs (Decidable (_ < _))
  | .addState | .acquireWeakRef | .addWeakRef | .acquired => inferInstanceAs (Decidable (_ < _))
  | .exchange _ _ => inferInstanceAs (Decidable (_ → _ → _))
  | .removeInstance | .destruct | .removeState | .free | .load | .operand _ | .done =>
      inferInstanceAs (Decidable True)

instance (s : State) : DecidablePred (Clear s)
  | .call _          => inferInstanceAs (Decidable True)
  | .step i spurious => inferInstanceAs (Decidable (∀ c ∈ s.calls[i]?, s.Clear spurious c))

end MyEngine.Rtti
