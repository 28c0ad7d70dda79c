import MyEngine.Rtti.SharedState

/-!
# Rtti — Ptr

`ptr.h`: the handles of ref-counted objects, which are variables or members of such objects.

* `releaseRef`: the reference that goes, and with the last one the object and its members.
* `acquire`, `moveAcquire` and what they are for a `Ptr` of another type.
* `step`: what a client does with its handles.
-/

namespace MyEngine.Rtti.Handles

/-- A `Ptr` with its `m_instance`; one with no `owner` is a variable. -/
structure Ptr where
  owner : Option ℕ := none
  instancePtr : Option ℕ := none
  alive : Bool := true
  deriving DecidableEq, Repr

/-- An object, with how often it has been destroyed. -/
structure Object where
  counter : ℕ := 1
  destroyed : ℕ := 0
  deriving DecidableEq, Repr

/-- The handles and the objects, in the order they are made.  Behind a call on a destroyed object,
or for a handle that is no more, there is nothing to tell. -/
structure State where
  ptrs : List Ptr := []
  objects : List Object := []
  touched : Bool := false
  deriving DecidableEq, Repr

namespace State

def setPtr (s : State) (p : ℕ) (ptr : Ptr) : State := { s with ptrs := s.ptrs.set p ptr }

def setObject (s : State) (x : ℕ) (o : Object) : State := { s with objects := s.objects.set x o }

def isDestroyed (s : State) (x : ℕ) : Bool := s.objects[x]?.any fun o => o.destroyed ≠ 0

def isThere (s : State) (x : ℕ) : Bool := s.objects[x]?.any fun o => o.destroyed = 0

def isAlive (s : State) (p : ℕ) : Bool := s.ptrs[p]?.any Ptr.alive

def instancePtr (s : State) (p : ℕ) : Option ℕ := s.ptrs[p]?.bind Ptr.instancePtr

def owner (s : State) (p : ℕ) : Option ℕ := s.ptrs[p]?.bind Ptr.owner

def touch (s : State) (bad : Bool) : State := { s with touched := s.touched || bad }

def addRef (s : State) (x : ℕ) : State :=
  match s.objects[x]? with
  | none   => s
  | some o =>
      (s.touch (s.isDestroyed x)).setObject x { o with counter := fetchAdd o.counter }

/-- `~Ptr`. -/
def destroyPtr (release : State → ℕ → State) (s : State) (p : ℕ) : State :=
  match s.ptrs[p]? with
  | none     => s
  | some ptr =>
      let s' := s.setPtr p { ptr with alive := false }
      match ptr.instancePtr with
      | none   => s'
      | some x => release s' x

/-- The members of an object, the last one first. -/
def members (s : State) (x : ℕ) : List ℕ :=
  ((List.range s.ptrs.length).filter fun p => s.isAlive p && s.owner p == some x).reverse

/-- `releaseRef` of an object: with the last reference its destructor runs, and those of its
members.  No more objects than there are go one in another. -/
def releaseRef : ℕ → State → ℕ → State
  | 0, s, _        => s
  | fuel + 1, s, x =>
      match s.objects[x]? with
      | none   => s
      | some o =>
          let o' := { o with counter := fetchSub o.counter }
          let s' := (s.touch (s.isDestroyed x)).setObject x o'
          if o.counter = 1 then
            (s.members x).foldl (destroyPtr (releaseRef fuel))
              (s'.setObject x { o' with destroyed := o.destroyed + 1 })
          else s'

/-- `std::exchange(m_instance, value)`, and `releaseRef` of what was there. -/
def exchange (s : State) (p : ℕ) (value : Option ℕ) : State :=
  match s.ptrs[p]? with
  | none     => s
  | some ptr =>
      let s' := s.setPtr p { ptr with instancePtr := value }
      match ptr.instancePtr with
      | none   => s'
      | some x => releaseRef s.objects.length s' x

/-- `m_instance = value`. -/
def setInstance (s : State) (p : ℕ) (value : Option ℕ) : State :=
  match s.ptrs[p]? with
  | none     => s
  | some ptr => (s.touch (!ptr.alive)).setPtr p { ptr with instancePtr := value }

/-- `acquire` of an instance of the same type: `m_instance` is read again for `addRef`. -/
def acquire (s : State) (p : ℕ) (newInstance : Option ℕ) : State :=
  let s' := s.exchange p newInstance
  -- `instancePtr` is read again, and the handle may have gone with what it referred to.
  let s'' := s'.touch !s'.isAlive p
  match s''.instancePtr p with
  | none   => s''
  | some x => s''.addRef x

/-- `moveAcquire` of an instance of the same type. -/
def moveAcquire (s : State) (p : ℕ) (newInstance : Option ℕ) : State := s.exchange p newInstance

/-- `acquire<U>`: `newInstance` is asked for its interface, and has it. -/
def acquireFrom (s : State) (p : ℕ) (newInstance : Option ℕ) : State :=
  let s' := s.exchange p none
  match newInstance with
  | none   => s'
  -- The interface is asked for after the release, which may have destroyed the instance, too.
  | some x => ((s'.touch (s'.isDestroyed x)).setInstance p (some x)).addRef x

/-- `moveAcquire<U>`. -/
def moveAcquireFrom (s : State) (p : ℕ) (newInstance : Option ℕ) : State :=
  let s' := s.exchange p none
  match newInstance with
  | none   => s'
  | some x => (s'.touch (s'.isDestroyed x)).setInstance p (some x)

/-- `giveUp`: what is given up is `instancePtr` of the state before. -/
def giveUp (s : State) (p : ℕ) : State := s.setInstance p none

/-- A new handle: a variable, or a member of an object that is there. -/
def push (s : State) (ptr : Ptr) : State := { s with ptrs := s.ptrs ++ [ptr] }

end State

/-- What a client does: `converts` tells the templates for another type. -/
inductive Action where
  | createInstance (owner : Option ℕ)
  | construct (owner : Option ℕ)
  | constructRaw (owner : Option ℕ) (instancePtr : ℕ)
  | constructCopy (owner : Option ℕ) (other : ℕ) (converts : Bool)
  | constructMove (owner : Option ℕ) (other : ℕ) (converts : Bool)
  | assign (p other : ℕ) (converts : Bool)
  | moveAssign (p other : ℕ) (converts : Bool)
  | reset (p : ℕ) (ptr : Option ℕ)
  | destroy (p : ℕ)
  deriving DecidableEq, Repr

namespace State

/-- The handles that a client names are there, the raw pointers are to objects that are there. -/
def Valid (s : State) : Action → Prop
  | .createInstance owner | .construct owner => ∀ o ∈ owner, s.isThere o
  | .constructRaw owner x => (∀ o ∈ owner, s.isThere o) ∧ s.isThere x
  | .constructCopy owner other _ | .constructMove owner other _ =>
      (∀ o ∈ owner, s.isThere o) ∧ s.isAlive other
  | .assign p other _ | .moveAssign p other _ => s.isAlive p ∧ s.isAlive other
  | .reset p ptr => s.isAlive p ∧ ∀ x ∈ ptr, s.isThere x
  | .destroy p => s.isAlive p

instance (s : State) : DecidablePred s.Valid
  | .createInstance _ | .construct _ => inferInstanceAs (Decidable (∀ o ∈ _, _))
  | .constructRaw _ _ | .constructCopy _ _ _ | .constructMove _ _ _ | .assign _ _ _
  | .moveAssign _ _ _ | .reset _ _ => inferInstanceAs (Decidable (_ ∧ _))
  | .destroy _ => inferInstanceAs (Decidable (_ = true))

/-- What an action does. -/
def run (s : State) : Action → State
  | .createInstance owner =>
      { s with
        ptrs := s.ptrs ++ [{ owner, instancePtr := some s.objects.length }]
        objects := s.objects ++ [{}] }
  | .construct owner => s.push { owner }
  | .constructRaw owner x => (s.push { owner, instancePtr := some x }).addRef x
  | .constructCopy owner other converts =>
      let instancePtr := s.instancePtr other
      if converts then (s.push { owner }).acquireFrom s.ptrs.length instancePtr
      else
        let s' := s.push { owner, instancePtr }
        match instancePtr with
        | none   => s'
        | some x => s'.addRef x
  | .constructMove owner other converts =>
      let instancePtr := s.instancePtr other
      if converts then
        ((s.push { owner }).giveUp other).moveAcquireFrom s.ptrs.length instancePtr
      else (s.giveUp other).push { owner, instancePtr }
  | .assign p other converts =>
      if converts then s.acquireFrom p (s.instancePtr other) else s.acquire p (s.instancePtr other)
  | .moveAssign p other converts =>
      let newInstance := s.instancePtr other
      if converts then (s.giveUp other).moveAcquireFrom p newInstance
      else (s.giveUp other).moveAcquire p newInstance
  | .reset p ptr => s.acquire p ptr
  | .destroy p => s.destroyPtr (releaseRef s.objects.length) p

def step (s : State) (a : Action) : Option State :=
  if s.touched = false ∧ s.Valid a then some (s.run a) else none

end State

end MyEngine.Rtti.Handles
