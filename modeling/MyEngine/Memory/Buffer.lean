import MyEngine.Support.Runs
import MyEngine.Support.Tally
import Mathlib.Data.Nat.Notation

/-!
# Memory — Buffer

The reference counted storages of `buffer.cpp`: the handles that own them (`Buffer`,
`ReadOnlyBuffer`, and the `BufferHandle` of `BufferStorage`), known by their numbers, and what
moves, shares and drops the references.

* `Storage`: the header, with the allocator it is from and the ones it has been given back to.
* `Fault`: an access to a storage that has been freed is an error of the model.
* `step`: the operations of the handles.
-/

namespace MyEngine.Memory

open Runs

/-! ### Allocators -/

def headerSize : ℕ := 16

def allocationGranularity : ℕ := 128

def bigAllocationGranularity : ℕ := 1024

def bigAllocationThreshold : ℕ := 4096

/-- The block sizes of the fixed size allocators. -/
def blockSizes : List ℕ := [256, 512, 1024, 1280, 1536, 1792, 2048]

/-- The allocator by its block size; none is the default allocator. -/
def getBufferAllocator (storageSize : ℕ) : Option ℕ := blockSizes.find? (storageSize ≤ ·)

/-- `alignedSize` of 64-bit sizes, for an alignment that is a power of two. -/
def alignedSize (size alignment : ℕ) : ℕ :=
  (size + alignment - 1) % 2 ^ 64 / alignment * alignment

/-- The storage size of `allocate`. -/
def storageSize (clientSize : ℕ) : ℕ :=
  alignedSize (headerSize + clientSize)
    (if clientSize < bigAllocationThreshold then allocationGranularity
      else bigAllocationGranularity)

/-! ### Storages and handles -/

/-- `BufferBase::Header` of 32-bit members.  `allocator` and `freedTo` remember where the storage is
from and the calls of `free`. -/
structure Storage where
  refs : ℕ := 1
  capacity : ℕ
  size : ℕ
  allocator : Option ℕ
  freedTo : List (Option ℕ) := []
  deriving DecidableEq, Repr

/-- `handle` is a `BufferHandle` that `allocate` or `takeOut` has returned. -/
inductive HandleKind where
  | buffer
  | readOnlyBuffer
  | handle
  | destroyed
  deriving DecidableEq, Repr

structure Handle where
  kind : HandleKind
  storage : Option ℕ
  deriving DecidableEq, Repr

structure State where
  handles : List Handle := []
  storages : List Storage := []
  deriving DecidableEq, Repr

/-- There is no such handle for the operation, a storage is accessed that has been freed, or a
`MY_FATAL` or `MY_ASSERT` fails. -/
inductive Fault where
  | noHandle
  | accessAfterFree
  | fatal
  deriving DecidableEq, Repr

abbrev Result (α : Type) := Except Fault α

namespace State

def storageOf (s : State) (i : ℕ) : Option ℕ := s.handles[i]?.bind Handle.storage

/-- `m_storage` of the handle is set. -/
def setStorage (s : State) (i : ℕ) (storage : Option ℕ) : State :=
  match s.handles[i]? with
  | some h => { s with handles := s.handles.set i { h with storage := storage } }
  | none   => s

/-- A new handle. -/
def push (s : State) (kind : HandleKind) (storage : Option ℕ) : State :=
  { s with handles := s.handles ++ [⟨kind, storage⟩] }

/-- The header behind a pointer. -/
def access (s : State) (j : ℕ) : Result Storage :=
  match s.storages[j]? with
  | some header => if header.freedTo = [] then .ok header else .error .accessAfterFree
  | none        => .error .accessAfterFree

def setHeader (s : State) (j : ℕ) (header : Storage) : State :=
  { s with storages := s.storages.set j header }

/-- `refs.fetch_sub(1)`, and `free` if it was the last reference. -/
def fetchSub (s : State) (j : ℕ) : Result State :=
  match s.access j with
  | .error e   => .error e
  | .ok header =>
      if header.refs = 1 then
        .ok (s.setHeader j { header with
          refs := 0
          freedTo := header.freedTo ++ [getBufferAllocator (headerSize + header.capacity)] })
      else .ok (s.setHeader j { header with refs := (header.refs + (2 ^ 32 - 1)) % 2 ^ 32 })

/-- `MY_ASSERT(refs.fetch_add(1) > 0)`. -/
def fetchAdd (s : State) (j : ℕ) : Result State :=
  match s.access j with
  | .error e   => .error e
  | .ok header =>
      if 0 < header.refs then
        .ok (s.setHeader j { header with refs := (header.refs + 1) % 2 ^ 32 })
      else .error .fatal

/-- `BufferBase(header)`: a new handle, for a storage with references. -/
def construct (s : State) (kind : HandleKind) (storage : Option ℕ) : Result State :=
  match storage with
  | none   => .ok (s.push kind none)
  | some j =>
      match s.access j with
      | .error e   => .error e
      | .ok header => if 0 < header.refs then .ok (s.push kind (some j)) else .error .fatal

/-- `release` of a `BufferBase`, and of a `BufferHandle`. -/
def release (s : State) (i : ℕ) : Result State :=
  match s.storageOf i with
  | none   => .ok s
  | some j => (s.setStorage i none).fetchSub j

/-- The exchange of a move: `i` gets what `j` has, and `j` has nothing. -/
def take (s : State) (i j : ℕ) : State :=
  (s.setStorage j none).setStorage i (s.storageOf j)

def allocate (s : State) (kind : HandleKind) (clientSize : ℕ) : State :=
  let header : Storage :=
    { capacity := (storageSize clientSize - headerSize) % 2 ^ 32
      size := clientSize % 2 ^ 32
      allocator := getBufferAllocator (storageSize clientSize) }
  State.push { s with storages := s.storages ++ [header] } kind (some s.storages.length)

/-- The move constructors. -/
def moveConstruct (s : State) (kind : HandleKind) (i : ℕ) : Result State :=
  match s.construct kind (s.storageOf i) with
  | .error e => .error e
  | .ok s    => .ok (s.setStorage i none)

/-- `ReadOnlyBuffer(const ReadOnlyBuffer&)`. -/
def copyConstruct (s : State) (i : ℕ) : Result State :=
  match s.construct .readOnlyBuffer (s.storageOf i) with
  | .error e => .error e
  | .ok s'   =>
      match s.storageOf i with
      | none   => .ok s'
      | some j => s'.fetchAdd j

/-- `operator=` of an rvalue.  A `ReadOnlyBuffer` swaps, with a pointer that `release` has set to
null. -/
def moveAssign (s : State) (i j : ℕ) : Result State :=
  match s.release i with
  | .error e => .error e
  | .ok s    => .ok (s.take i j)

/-- `operator=(const ReadOnlyBuffer&)`. -/
def copyAssign (s : State) (i j : ℕ) : Result State :=
  match s.release i with
  | .error e => .error e
  | .ok s    =>
      match s.storageOf j with
      | none         => .ok (s.setStorage i none)
      | some storage => (s.setStorage i (some storage)).fetchAdd storage

/-- `toReadOnly`: a `ReadOnlyBuffer` of nothing, and the assignment of the `Buffer` to it. -/
def toReadOnly (s : State) (i : ℕ) : State :=
  (s.push .readOnlyBuffer none).take s.handles.length i

/-- `toBuffer`: the storage itself where it has no other reference, or a copy. -/
def toBuffer (s : State) (i : ℕ) : Result State :=
  match s.storageOf i with
  | none   => .ok (s.push .buffer none)
  | some j =>
      match s.access j with
      | .error e   => .error e
      | .ok header =>
          if header.refs = 1 then (s.setStorage i none).construct .buffer (some j)
          else if header.size ≠ 0 ∧ header.capacity = 0 then .error .fatal
          else (s.allocate .buffer header.size).release i

/-- `takeOut`. -/
def takeOut (s : State) (i : ℕ) : State := (s.setStorage i none).push .handle (s.storageOf i)

/-- `bufferFromHandle` of a handle with the only reference, as `allocate` and `takeOut` give it. -/
def bufferFromHandle (s : State) (i : ℕ) : Result State :=
  match s.storageOf i with
  | none   => .error .fatal
  | some j =>
      match s.access j with
      | .error e   => .error e
      | .ok header =>
          if header.refs = 1 then (s.setStorage i none).construct .buffer (some j)
          else .error .fatal

/-- The destructor of a `BufferBase`. -/
def destroy (s : State) (i : ℕ) : Result State :=
  match s.release i with
  | .error e => .error e
  | .ok s    => .ok { s with handles := s.handles.set i ⟨.destroyed, none⟩ }

end State

inductive Op where
  | construct (kind : HandleKind)
  | allocate (kind : HandleKind) (clientSize : ℕ)
  | moveConstruct (i : ℕ)
  | copyConstruct (i : ℕ)
  | moveAssign (i j : ℕ)
  | copyAssign (i j : ℕ)
  | release (i : ℕ)
  | toReadOnly (i : ℕ)
  | toBuffer (i : ℕ)
  | takeOut (i : ℕ)
  | bufferFromHandle (i : ℕ)
  | destroy (i : ℕ)

def State.kindOf (s : State) (i : ℕ) : Option HandleKind := s.handles[i]?.map Handle.kind

/-- The types of the handles an operation is for. -/
def State.Applies (s : State) : Op → Bool
  | .construct kind          => kind = .buffer || kind = .readOnlyBuffer
  | .allocate kind _         => kind = .buffer || kind = .handle
  | .moveConstruct i         => s.kindOf i = some .buffer || s.kindOf i = some .readOnlyBuffer
  | .copyConstruct i         => s.kindOf i = some .readOnlyBuffer
  | .moveAssign i j          =>
      s.kindOf i = some .buffer && s.kindOf j = some .buffer ||
      s.kindOf i = some .readOnlyBuffer &&
        (s.kindOf j = some .buffer || s.kindOf j = some .readOnlyBuffer)
  | .copyAssign i j          =>
      s.kindOf i = some .readOnlyBuffer && s.kindOf j = some .readOnlyBuffer
  | .release i               =>
      s.kindOf i = some .buffer || s.kindOf i = some .readOnlyBuffer || s.kindOf i = some .handle
  | .toReadOnly i            => s.kindOf i = some .buffer
  | .toBuffer i              => s.kindOf i = some .readOnlyBuffer
  | .takeOut i | .destroy i  => s.kindOf i = some .buffer || s.kindOf i = some .readOnlyBuffer
  | .bufferFromHandle i      => s.kindOf i = some .handle

/-- The operation on handles that it is for. -/
def State.apply (s : State) : Op → Result State
  | .construct kind           => .ok (s.push kind none)
  | .allocate kind clientSize => .ok (s.allocate kind clientSize)
  | .moveConstruct i          =>
      s.moveConstruct (if s.kindOf i = some .buffer then .buffer else .readOnlyBuffer) i
  | .copyConstruct i          => s.copyConstruct i
  | .moveAssign i j           => s.moveAssign i j
  | .copyAssign i j           => s.copyAssign i j
  | .release i                => s.release i
  | .toReadOnly i             => .ok (s.toReadOnly i)
  | .toBuffer i               => s.toBuffer i
  | .takeOut i                => .ok (s.takeOut i)
  | .bufferFromHandle i       => s.bufferFromHandle i
  | .destroy i                => s.destroy i

def State.perform (s : State) (op : Op) : Result State :=
  if s.Applies op then s.apply op else .error .noHandle

def step (s : State) (op : Op) : Option State := (s.perform op).toOption

end MyEngine.Memory
