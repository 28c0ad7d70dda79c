import MyEngine.Support.Links
import Mathlib.Data.List.Nodup
import Mathlib.Logic.Function.Basic

/-!
# Containers — IntrusiveList

`IntrusiveList` and `IntrusiveListNode` of `intrusive_list.h`, over a heap of nodes (known by
values of `ν`) and of lists (values of `κ`).  An operation gives nothing where an assertion of the
code fails; the loops take the number of their iterations for fuel.

* `Heap`: the three pointers of every node, the two of every list.
* `Op`, `Heap.step`: the operations of the lists and the destructor of a node.
-/

namespace MyEngine.Containers

/-- `IntrusiveListNode`. -/
structure Node (κ ν : Type) where
  list : Option κ := none
  prev : Option ν := none
  next : Option ν := none
  deriving DecidableEq, Repr

@[ext]
structure IntrusiveList (ν : Type) where
  head : Option ν := none
  tail : Option ν := none
  deriving DecidableEq, Repr

structure Heap (κ ν : Type) where
  node : ν → Node κ ν := fun _ => {}
  list : κ → IntrusiveList ν := fun _ => {}

variable {κ ν : Type} [DecidableEq κ] [DecidableEq ν]

namespace Heap

/-- An assignment to members of a node. -/
def modify (h : Heap κ ν) (x : ν) (f : Node κ ν → Node κ ν) : Heap κ ν :=
  { h with node := Function.update h.node x (f (h.node x)) }

/-- An assignment to members of a list. -/
def setList (h : Heap κ ν) (l : κ) (v : IntrusiveList ν) : Heap κ ν :=
  { h with list := Function.update h.list l v }

/-- `clearListElementState()`. -/
def clearListElementState (h : Heap κ ν) (x : ν) : Heap κ ν := h.modify x fun _ => {}

/-- `asFreeNode`: the node is in no list, and then it becomes one of `l`. -/
def asFreeNode (h : Heap κ ν) (l : κ) (x : ν) : Option (Heap κ ν) :=
  if h.node x = {} then some (h.modify x fun n => { n with list := some l }) else none

/-- The second half of `push_back`. -/
def linkBack (h : Heap κ ν) (l : κ) (x : ν) : Option (Heap κ ν) :=
  match (h.list l).head, (h.list l).tail with
  | none, none      => some (h.setList l ⟨some x, some x⟩)
  | none, some _    => none
  | some _, none    => none
  | some _, some t  =>
      let h := h.modify t fun n => { n with next := some x }
      let h := h.modify x fun n => { n with prev := some t }
      some (h.setList l { h.list l with tail := some x })

def pushBack (h : Heap κ ν) (l : κ) (x : ν) : Option (Heap κ ν) :=
  (h.asFreeNode l x).bind fun h => h.linkBack l x

/-- The part of `insert` behind `asFreeNode`, in front of the node `p`. -/
def linkBefore (h : Heap κ ν) (l : κ) (p x : ν) : Heap κ ν :=
  let prev := (h.node p).prev
  let h := h.modify x fun n => { n with next := some p, prev := prev }
  let h := match prev with
    | some q => h.modify q fun n => { n with next := some x }
    | none   => h
  let h := h.modify p fun n => { n with prev := some x }
  if (h.list l).head = some p then h.setList l { h.list l with head := some x } else h

/-- `insert(pos, element)`, where no node stands for `end()`. -/
def insert (h : Heap κ ν) (l : κ) (pos : Option ν) (x : ν) : Option (Option ν × Heap κ ν) :=
  match pos with
  | none   => (h.pushBack l x).map fun h => ((h.list l).tail, h)
  | some p =>
      if (h.node p).list = some l then
        (h.asFreeNode l x).map fun h => (some x, h.linkBefore l p x)
      else none

def pushFront (h : Heap κ ν) (l : κ) (x : ν) : Option (Heap κ ν) :=
  (h.insert l (h.list l).head x).map Prod.snd

/-- What comes before the erased node `p` is linked to what comes behind it. -/
def linkPrev (h : Heap κ ν) (l : κ) (p : ν) (prev next : Option ν) : Option (Heap κ ν) :=
  match prev with
  | some q =>
      if (h.node q).next = some p then some (h.modify q fun n => { n with next := next }) else none
  | none   => some (h.setList l { h.list l with head := next })

def linkNext (h : Heap κ ν) (l : κ) (p : ν) (prev next : Option ν) : Option (Heap κ ν) :=
  match next with
  | some q =>
      if (h.node q).prev = some p then some (h.modify q fun n => { n with prev := prev }) else none
  | none   => some (h.setList l { h.list l with tail := prev })

/-- `erase(pos)`, with the iterator behind the erased node. -/
def erase (h : Heap κ ν) (l : κ) (pos : Option ν) : Option (Option ν × Heap κ ν) :=
  match pos with
  | none   => none
  | some p =>
      if (h.node p).list = some l then
        let prev := (h.node p).prev
        let next := (h.node p).next
        ((h.linkPrev l p prev next).bind fun h => h.linkNext l p prev next).map fun h =>
          (next, h.clearListElementState p)
      else none

/-- The loop of `erase(first, last)`. -/
def eraseUntil (l : κ) (last : Option ν) : ℕ → Heap κ ν → Option ν → Option (Heap κ ν)
  | 0, _, _               => none
  | fuel + 1, h, position =>
      match h.erase l position with
      | none           => none
      | some (next, h) => if next = last then some h else eraseUntil l last fuel h next

/-- The loop that looks for `last` behind `first`. -/
def staysAfter (h : Heap κ ν) (last : ν) : ℕ → Option ν → Option Bool
  | 0, _               => none
  | _, none            => none
  | fuel + 1, some p   =>
      match (h.node p).next with
      | none   => some false
      | some q => if q = last then some true else staysAfter h last fuel (some q)

/-- `erase(first, last)`. -/
def eraseRange (fuel : ℕ) (h : Heap κ ν) (l : κ) (first last : Option ν) :
    Option (Option ν × Heap κ ν) :=
  match first with
  | none   => none
  | some p =>
      if (h.node p).list = some l then
        match last with
        | none   => (eraseUntil l none fuel h first).map fun h => (none, h)
        | some q =>
            if (h.node q).list = some l ∧ h.staysAfter q fuel first = some true then
              (eraseUntil l last fuel h first).map fun h => (last, h)
            else none
      else none

def remove (h : Heap κ ν) (l : κ) (x : ν) : Option (Heap κ ν) :=
  (h.erase l (some x)).map Prod.snd

/-- The loop of `clear`, from the tail on. -/
def clearFrom : ℕ → Heap κ ν → Option ν → Option (Heap κ ν)
  | _, h, none          => some h
  | 0, _, some _        => none
  | fuel + 1, h, some p => clearFrom fuel (h.clearListElementState p) (h.node p).prev

def clear (fuel : ℕ) (h : Heap κ ν) (l : κ) : Option (Heap κ ν) :=
  (clearFrom fuel h (h.list l).tail).map fun h => h.setList l {}

/-- The loop of `moveFrom`, over the nodes that have come from the other list. -/
def adopt (this : κ) : ℕ → Heap κ ν → Option ν → Option (Heap κ ν)
  | _, h, none          => some h
  | 0, _, some _        => none
  | fuel + 1, h, some p =>
      adopt this fuel (h.modify p fun n => { n with list := some this }) (h.node p).next

def moveFrom (fuel : ℕ) (h : Heap κ ν) (this list : κ) : Option (Heap κ ν) :=
  if list = this then some h
  else
    (h.clear fuel this).bind fun h =>
      if h.list this = {} then
        let moved := h.list list
        adopt this fuel ((h.setList this moved).setList list {}) moved.head
      else none

/-- `IntrusiveList(IntrusiveList&&)`. -/
def moveConstruct (fuel : ℕ) (h : Heap κ ν) (this list : κ) : Option (Heap κ ν) :=
  (h.setList this {}).moveFrom fuel this list

/-- `~IntrusiveListNode()`. -/
def destroyNode (h : Heap κ ν) (x : ν) : Option (Heap κ ν) :=
  match (h.node x).list with
  | none   => some h
  | some l => h.remove l x

end Heap

inductive Op (κ ν : Type) where
  | pushBack (l : κ) (x : ν)
  | pushFront (l : κ) (x : ν)
  | insert (l : κ) (pos : Option ν) (x : ν)
  | erase (l : κ) (pos : Option ν)
  | eraseRange (l : κ) (first last : Option ν)
  | remove (l : κ) (x : ν)
  | clear (l : κ)
  | moveConstruct (this list : κ)
  | moveAssign (this list : κ)
  | destroyNode (x : ν)

def Heap.step (fuel : ℕ) (h : Heap κ ν) : Op κ ν → Option (Heap κ ν)
  | .pushBack l x              => h.pushBack l x
  | .pushFront l x             => h.pushFront l x
  | .insert l pos x            => (h.insert l pos x).map Prod.snd
  | .erase l pos               => (h.erase l pos).map Prod.snd
  | .eraseRange l first last   => (h.eraseRange fuel l first last).map Prod.snd
  | .remove l x                => h.remove l x
  | .clear l                   => h.clear fuel l
  | .moveConstruct this list   => h.moveConstruct fuel this list
  | .moveAssign this list      => h.moveFrom fuel this list
  | .destroyNode x             => h.destroyNode x

/-- The operations one after the other. -/
def Heap.run (fuel : ℕ) : Heap κ ν → List (Op κ ν) → Option (Heap κ ν)
  | h, []        => some h
  | h, op :: ops => (h.step fuel op).bind fun h => h.run fuel ops

/-! ### The reference lists -/

/-- What each list holds. -/
abbrev Lists (κ ν : Type) := κ → List ν

namespace Lists

variable (r : Lists κ ν)

/-- The node is in no list. -/
def IsFree (x : ν) : Prop := ∀ l, x ∉ r l

/-- The nodes in front of a position. -/
def before (l : List ν) (pos : Option ν) : List ν := l.takeWhile fun y => pos ≠ some y

/-- The nodes from a position on. -/
def «from» (l : List ν) (pos : Option ν) : List ν := l.dropWhile fun y => pos ≠ some y

/-- What an operation asks of the lists: free nodes to insert, and positions of the list; the end
of a range comes behind its beginning, and there is nothing yet where a list is constructed. -/
def Accepts : Op κ ν → Prop
  | .pushBack _ x | .pushFront _ x => r.IsFree x
  | .insert l pos x                => r.IsFree x ∧ ∀ p, pos = some p → p ∈ r l
  | .erase l pos                   => ∃ p, pos = some p ∧ p ∈ r l
  | .eraseRange l first last       =>
      ∃ p rest, first = some p ∧ «from» (r l) first = p :: rest ∧ ∀ q, last = some q → q ∈ rest
  | .remove l x                    => x ∈ r l
  | .moveConstruct this _          => r this = []
  | .clear _ | .moveAssign _ _ | .destroyNode _ => True

def apply : Op κ ν → Lists κ ν
  | .pushBack l x            => Function.update r l (r l ++ [x])
  | .pushFront l x           => Function.update r l (x :: r l)
  | .insert l pos x          => Function.update r l (before (r l) pos ++ x :: «from» (r l) pos)
  | .erase l pos             =>
      Function.update r l ((r l).filter fun y => pos ≠ some y)
  | .eraseRange l first last =>
      Function.update r l (before (r l) first ++ «from» («from» (r l) first) last)
  | .remove l x              => Function.update r l ((r l).erase x)
  | .clear l                 => Function.update r l []
  | .moveConstruct this list | .moveAssign this list =>
      if list = this then r else Function.update (Function.update r this (r list)) list []
  | .destroyNode x           => fun l => (r l).erase x

/-- Every operation of a sequence is accepted where it comes. -/
def AcceptsAll : Lists κ ν → List (Op κ ν) → Prop
  | _, []        => True
  | r, op :: ops => r.Accepts op ∧ AcceptsAll (r.apply op) ops

def applyAll : Lists κ ν → List (Op κ ν) → Lists κ ν
  | r, []        => r
  | r, op :: ops => applyAll (r.apply op) ops

end Lists

end MyEngine.Containers
