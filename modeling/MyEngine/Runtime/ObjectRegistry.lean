import Mathlib.Data.List.Perm.Basic
import MyEngine.Support.Runs

/-!
# Runtime — ObjectRegistry

`runtime_object_registry.cpp`: the registry of the runtime's objects, its handles and its visits,
while the owners of the objects take and drop references at any time.

* `fastRemoveObjectAt`: an entry goes, and the last one takes its place.
* `Visit`: `visitObjects` on its way, with what it holds.
* `step`: an owner, a call into the registry, or the next operation of the visit that runs.

The registry's mutex is recursive: while a visit runs, other threads only move references, and calls
come from the visit itself, out of the callback and out of the destructors that it runs.
-/

namespace MyEngine.Runtime.Registry

/-- `fastRemoveObjectAt`. -/
def fastRemoveObjectAt {α : Type*} (container : List α) (index : ℕ) : List α :=
  let lastIndex := container.length - 1
  let container :=
    if index = lastIndex then container
    else
      match container[lastIndex]? with
      | some last => container.set index last
      | none      => container
  container.take lastIndex

section Removal
variable {α : Type*} {l l₁ l₂ : List α} {x y : α} {i n : ℕ} {p : α → Bool}

theorem fastRemoveObjectAt_last (l : List α) (x : α) :
    fastRemoveObjectAt (l ++ [x]) l.length = l := by
  simp [fastRemoveObjectAt]

theorem fastRemoveObjectAt_mid (l₁ l₂ : List α) (x y : α) :
    fastRemoveObjectAt (l₁ ++ x :: (l₂ ++ [y])) l₁.length = l₁ ++ y :: l₂ := by
  have hlast : (l₁ ++ x :: (l₂ ++ [y])).length - 1 = l₁.length + (l₂.length + 1) := by
    simp only [List.length_append, List.length_cons, List.length_nil]
    omega
  have hget : (l₁ ++ x :: (l₂ ++ [y]))[l₁.length + (l₂.length + 1)]? = some y := by simp
  have hne : l₁.length ≠ l₁.length + (l₂.length + 1) := by omega
  simp only [fastRemoveObjectAt, hlast, if_neg hne, hget]
  rw [List.set_append_right _ _ (Nat.le_refl _), Nat.sub_self, List.set_cons_zero,
    List.take_length_add_append, List.take_succ_cons, List.take_left]

/-- An entry is the last one, or there is a last one behind it. -/
theorem removal_cases (h : l[i]? = some x) :
    (∃ l₁, l = l₁ ++ [x] ∧ i = l₁.length ∧ fastRemoveObjectAt l i = l₁) ∨
    (∃ l₁ l₂ y, l = l₁ ++ x :: (l₂ ++ [y]) ∧ i = l₁.length ∧
      fastRemoveObjectAt l i = l₁ ++ y :: l₂) := by
  obtain ⟨hlt, hget⟩ := List.getElem?_eq_some_iff.1 h
  have hsplit : l = l.take i ++ x :: l.drop (i + 1) := by
    rw [← hget, List.getElem_cons_drop, List.take_append_drop]
  have hlen : (l.take i).length = i := List.length_take_of_le (Nat.le_of_lt hlt)
  rcases List.eq_nil_or_concat (l.drop (i + 1)) with hnil | ⟨l₂, y, hconcat⟩
  · rw [hnil] at hsplit
    refine .inl ⟨l.take i, hsplit, hlen.symm, ?_⟩
    have hlast := fastRemoveObjectAt_last (l.take i) x
    rwa [← hsplit, hlen] at hlast
  · rw [hconcat, List.concat_eq_append] at hsplit
    refine .inr ⟨l.take i, l₂, y, hsplit, hlen.symm, ?_⟩
    have hmid := fastRemoveObjectAt_mid (l.take i) l₂ x y
    rwa [← hsplit, hlen] at hmid

/-- One entry goes. -/
theorem perm_fastRemoveObjectAt (h : l[i]? = some x) : (x :: fastRemoveObjectAt l i).Perm l := by
  obtain ⟨l₁, rfl, -, hremove⟩ | ⟨l₁, l₂, y, rfl, -, hremove⟩ := removal_cases h
  · rw [hremove]
    exact (List.perm_append_singleton x l₁).symm
  · rw [hremove]
    have hlast : (l₁ ++ y :: l₂).Perm (l₁ ++ (l₂ ++ [y])) := by
      rw [← List.append_assoc]
      exact List.perm_middle.trans (List.perm_append_singleton y (l₁ ++ l₂)).symm
    exact (hlast.cons x).trans List.perm_middle.symm

/-- What is in front of the entry stays. -/
theorem take_fastRemoveObjectAt (h : l[i]? = some x) (hle : n ≤ i) :
    (fastRemoveObjectAt l i).take n = l.take n := by
  obtain ⟨l₁, rfl, rfl, hremove⟩ | ⟨l₁, l₂, y, rfl, rfl, hremove⟩ := removal_cases h
  · rw [hremove, List.take_append_of_le_length hle]
  · rw [hremove, List.take_append_of_le_length hle, List.take_append_of_le_length hle]

/-- An entry that does not count can go. -/
theorem countP_take_le (h : l[i]? = some x) (hx : p x = false) (n : ℕ) :
    (l.take n).countP p ≤ ((fastRemoveObjectAt l i).take n).countP p := by
  obtain ⟨l₁, rfl, rfl, hremove⟩ | ⟨l₁, l₂, y, rfl, rfl, hremove⟩ := removal_cases h
  · rw [hremove, List.take_append, List.countP_append]
    have hnone : ([x].take (n - l₁.length)).countP p = 0 := by
      rw [List.countP_eq_zero]
      intro z hz
      rw [List.mem_singleton.1 (List.mem_of_mem_take hz), hx]
      exact Bool.false_ne_true
    omega
  · rw [hremove, List.take_append, List.take_append, List.countP_append, List.countP_append]
    refine Nat.add_le_add_left ?_ _
    cases n - l₁.length with
    | zero => exact Nat.le_refl _
    | succ m =>
        rw [List.take_succ_cons, List.take_succ_cons, List.countP_cons_of_neg (by simp [hx]),
          List.take_append, List.countP_append, List.countP_cons]
        have hlast : ([y].take (m - l₂.length)).countP p ≤ [y].countP p :=
          (List.take_sublist _ _).countP_le
        rw [List.countP_singleton] at hlast
        exact Nat.add_le_add_left hlast _

/-- Nothing comes to the front that counts, unless the last one does. -/
theorem countP_take_ge (h : l[i]? = some x)
    (hlast : n < l.length → ∀ y ∈ l.getLast?, p y = false) :
    ((fastRemoveObjectAt l i).take n).countP p ≤ (l.take n).countP p := by
  obtain ⟨l₁, rfl, rfl, hremove⟩ | ⟨l₁, l₂, y, rfl, rfl, hremove⟩ := removal_cases h
  · rw [hremove, List.take_append, List.countP_append]
    exact Nat.le_add_right _ _
  · have hget : (l₁ ++ x :: (l₂ ++ [y])).getLast? = some y := by
      rw [← List.cons_append, ← List.append_assoc, List.getLast?_concat]
    have hlen : (l₁ ++ x :: (l₂ ++ [y])).length = l₁.length + (l₂.length + 2) := by simp
    rw [hget, hlen] at hlast
    rw [hremove, List.take_append, List.take_append, List.countP_append, List.countP_append]
    refine Nat.add_le_add_left ?_ _
    cases hm : n - l₁.length with
    | zero => exact Nat.le_refl _
    | succ m =>
        rw [List.take_succ_cons, List.take_succ_cons, List.countP_cons, List.countP_cons,
          List.take_append, List.countP_append]
        by_cases hn : n < l₁.length + (l₂.length + 2)
        · rw [hlast hn y rfl]
          simp only [Bool.false_eq_true, if_false]
          omega
        · have hall : [y].take (m - l₂.length) = [y] :=
            List.take_of_length_le (by rw [List.length_singleton]; omega)
          rw [hall, List.countP_singleton]
          omega

end Removal

variable {O Ty : Type} [DecidableEq O]

/-- `RuntimeObjectRegistryImpl::ObjectEntry`. -/
structure ObjectEntry (O : Type) where
  objectId : UInt64
  object : O
  isWeak : Bool
  deriving DecidableEq

/-- `RuntimeObjectRegistration`, with the object it has been constructed with. -/
structure Registration (O : Type) where
  objectId : UInt64
  object : O

/-- Where a visit is: before an entry; holding the instance of an entry; in the destructor of an
object whose last reference it has released; in the callback; releasing its instances. -/
inductive Phase (O : Type) where
  | collecting
  | examining (locked : O)
  | destroying
  | reporting
  | releasing
  deriving DecidableEq

/-- `visitObjects` on its way.  `due` are the entries it owes a report: registered since it has
begun, of the type, and alive all the time. -/
structure Visit (O Ty : Type) where
  type : Option Ty
  due : List UInt64
  index : ℕ := 0
  instances : List O := []
  phase : Phase O := .collecting

/-- The visit is in code that is not its own, which can call into the registry. -/
def Visit.calling (v : Visit O Ty) : Bool :=
  match v.phase with
  | .collecting | .examining _            => false
  | .destroying | .reporting | .releasing => true

/-- The objects: which of them are ref-counted, and of which types they are. -/
structure Objects (O Ty : Type) where
  refCounted : O → Bool
  is : O → Ty → Bool

/-- The registry, the objects' references and those among them that are not a visit's, and the
visits on their way, the innermost first.  An object that is not ref-counted has a reference as long
as it lives. -/
structure State (O Ty : Type) where
  entries : List (ObjectEntry O) := []
  objectId : UInt64 := 0
  registrations : List (Registration O) := []
  refs : O → ℕ
  outside : O → ℕ
  visits : List (Visit O Ty) := []

/-- `!type || instance->is(type)`. -/
def Objects.matches (objects : Objects O Ty) (type : Option Ty) (o : O) : Bool :=
  match type with
  | none      => true
  | some type => objects.is o type

namespace State

def addRef (objects : Objects O Ty) (o : O) (s : State O Ty) : State O Ty :=
  if objects.refCounted o then
    { s with refs := fun o' => if o' = o then s.refs o + 1 else s.refs o' }
  else s

def releaseRef (objects : Objects O Ty) (o : O) (s : State O Ty) : State O Ty :=
  if objects.refCounted o then
    { s with refs := fun o' => if o' = o then s.refs o - 1 else s.refs o' }
  else s

/-- `addObject`, and the registration that keeps the id. -/
def addObject (o : O) (isWeak : Bool) (s : State O Ty) : State O Ty :=
  let id := s.objectId + 1
  { s with
    objectId := id
    entries := s.entries ++ [⟨id, o, isWeak⟩]
    registrations := s.registrations ++ [⟨id, o⟩] }

/-- `removeObject`. -/
def removeObject (id : UInt64) (s : State O Ty) : State O Ty :=
  match s.entries.findIdx? fun e => e.objectId = id with
  | some i => { s with entries := fastRemoveObjectAt s.entries i }
  | none   => s

/-- `isAutoRemovable`. -/
def isAutoRemovable (id : UInt64) (s : State O Ty) : Bool :=
  match s.entries.find? fun e => e.objectId = id with
  | some e => e.isWeak
  | none   => false

def forget (k : ℕ) (r : Registration O) (s : State O Ty) : State O Ty :=
  { s with registrations := s.registrations.set k { r with objectId := 0 } }

/-- `RuntimeObjectRegistration::reset`. -/
def reset (k : ℕ) (r : Registration O) (s : State O Ty) : State O Ty :=
  if r.objectId = 0 then s else (s.forget k r).removeObject r.objectId

/-- `RuntimeObjectRegistration::setAutoRemove`. -/
def setAutoRemove (k : ℕ) (r : Registration O) (s : State O Ty) : State O Ty :=
  if r.objectId ≠ 0 ∧ s.isAutoRemovable r.objectId = true then s.forget k r else s

/-- `visitObjects` up to its loop. -/
def visitObjects (objects : Objects O Ty) (type : Option Ty) (s : State O Ty) : State O Ty :=
  if s.entries = [] then s
  else
    let due := s.entries.filter fun e => objects.matches type e.object && 0 < s.refs e.object
    { s with visits := { type := type, due := due.map (·.objectId) } :: s.visits }

/-- The visit that runs goes on. -/
def goto (v : Visit O Ty) (outer : List (Visit O Ty)) (s : State O Ty) : State O Ty :=
  { s with visits := v :: outer }

/-- The next operation of a visit. -/
def next (objects : Objects O Ty) (v : Visit O Ty) (outer : List (Visit O Ty)) (s : State O Ty) :
    State O Ty :=
  match v.phase with
  | .collecting =>
      match s.entries[v.index]? with
      | none =>
          s.goto { v with phase := if v.instances = [] then .releasing else .reporting } outer
      | some e =>
          -- `lock` gives nothing for a weak entry that is expired
          if e.isWeak = true ∧ s.refs e.object = 0 then
            { s with entries := fastRemoveObjectAt s.entries v.index }
          else
            (s.addRef objects e.object).goto { v with phase := .examining e.object } outer
  | .examining o =>
      if objects.matches v.type o then
        s.goto { v with
          instances := v.instances ++ [o]
          index := v.index + 1
          phase := .collecting } outer
      else
        let s := s.releaseRef objects o
        if objects.refCounted o = true ∧ s.refs o = 0 then
          s.goto { v with phase := .destroying } outer
        else
          s.goto { v with index := v.index + 1, phase := .collecting } outer
  | .destroying => s.goto { v with index := v.index + 1, phase := .collecting } outer
  | .reporting  => s.goto { v with phase := .releasing } outer
  | .releasing  =>
      match v.instances with
      | []             => { s with visits := outer }
      | o :: instances => (s.releaseRef objects o).goto { v with instances := instances } outer

/-- What the visits owe: an entry that goes or expires is not owed any more. -/
def prune (s : State O Ty) : State O Ty :=
  { s with visits := s.visits.map fun v =>
      { v with due := v.due.filter fun id =>
          s.entries.any fun e => e.objectId = id && 0 < s.refs e.object } }

/-- A call into the registry gets through: no visit runs, or one that is in other code. -/
def entered (s : State O Ty) : Bool :=
  match s.visits with
  | []     => true
  | v :: _ => v.calling

end State

inductive Action (O Ty : Type) where
  /-- An owner takes one more reference. -/
  | take (o : O)
  | drop (o : O)
  | register (o : O) (isWeak : Bool)
  | reset (k : ℕ)
  | setAutoRemove (k : ℕ)
  | visit (type : Option Ty)
  | next

def act (objects : Objects O Ty) (s : State O Ty) : Action O Ty → Option (State O Ty)
  | .take o =>
      if objects.refCounted o = true ∧ 0 < s.refs o then
        some { s.addRef objects o with
          outside := fun o' => if o' = o then s.outside o + 1 else s.outside o' }
      else none
  | .drop o =>
      if 0 < s.outside o then
        some { s with
          refs := fun o' => if o' = o then s.refs o - 1 else s.refs o'
          outside := fun o' => if o' = o then s.outside o - 1 else s.outside o' }
      else none
  | .register o isWeak =>
      if s.entered = true ∧ 0 < s.refs o ∧ (isWeak = true → objects.refCounted o = true) then
        some (s.addObject o isWeak)
      else none
  | .reset k =>
      if s.entered then s.registrations[k]?.map fun r => s.reset k r else none
  | .setAutoRemove k =>
      if s.entered then s.registrations[k]?.map fun r => s.setAutoRemove k r else none
  | .visit type => if s.entered then some (s.visitObjects objects type) else none
  | .next =>
      match s.visits with
      | []         => none
      | v :: outer => some (s.next objects v outer)

def step (objects : Objects O Ty) (s : State O Ty) (a : Action O Ty) : Option (State O Ty) :=
  (act objects s a).map State.prune

/-- The empty registry, and objects that have owners. -/
def initial (outside : O → ℕ) : State O Ty where
  refs := outside
  outside := outside

end MyEngine.Runtime.Registry
