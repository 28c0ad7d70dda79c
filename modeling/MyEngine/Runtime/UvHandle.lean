import Mathlib.Data.List.Nodup
import Mathlib.Logic.Function.Basic
import MyEngine.Support.Replace
import MyEngine.Support.Runs

/-!
# Runtime — UvHandle

`UvHandle`, of `uv_handle.h` and `uv_handle.cpp`: who has the memory of a handle of libuv, from its
allocation until the callback of `uv_close` frees it.

* `closeAndFreeUvHandle`: a shutdown request of a stream, then `uv_close`.
* `resetInternal`: the runtime thread closes at once, other threads through the runtime executor.
* `step`: what threads do with handles, and the callbacks of the loop.
* `handles_freed`: every block is freed once, when no handle has it any more.
* `data_cleared_iff`: the runs in which no callback sees the data of a handle that nobody has.
-/

namespace MyEngine.Runtime.UvHandles

open Function (update)
open Runs

/-! ### The code -/

/-- `uv_handle_type`, as far as it is used; `unknown` is that of a handle that is not
initialized. -/
inductive UvHandleType where
  | unknown
  | async
  | timer
  | tcp
  | udp
  | tty
  | namedPipe
  deriving DecidableEq, Repr

def isStreamCompatible : UvHandleType → Bool
  | .tty | .tcp | .namedPipe => true
  | _                        => false

/-- What libuv answers: `uv_is_writable`, `uv_is_active`, and whether `uv_shutdown` gives 0. -/
structure Answers where
  writable : Bool
  active : Bool
  shutdown : Bool
  deriving DecidableEq, Repr

/-- The asserts: that a handle is not closing yet, and that it is replaced by one of its type. -/
inductive Failure where
  | closing
  | type
  deriving DecidableEq, Repr

/-- The `UvHandle` objects by their numbers, with `m_handle`; the blocks of the allocator, of
handles and of requests, are numbered too.  `posted` are the coroutines that wait for the runtime
executor, `requests` the shutdown requests with their streams, `closing` the handles that
`uv_close` was called for. -/
structure State where
  wrappers : List (Option (Option ℕ)) := []
  next : ℕ := 0
  type : ℕ → UvHandleType := fun _ => .unknown
  data : ℕ → Option ℕ := fun _ => none
  posted : List (Option ℕ) := []
  requests : List (ℕ × ℕ) := []
  closing : List ℕ := []
  freed : List ℕ := []
  failures : List Failure := []

namespace State

variable (s : State)

def wrapper (v : ℕ) : Option (Option ℕ) := s.wrappers[v]?.join

def setWrapper (v : ℕ) (w : Option (Option ℕ)) : State := { s with wrappers := s.wrappers.set v w }

def assert (holds : Bool) (failure : Failure) : State :=
  if holds then s else { s with failures := s.failures ++ [failure] }

def uvClose (handle : ℕ) : State := { s with closing := s.closing ++ [handle] }

def closeAndFreeUvHandle (handle : Option ℕ) (uv : Answers) : State :=
  match handle with
  | none        => s
  | some handle =>
      let s := s.assert (handle ∉ s.closing) .closing
      let s := { s with data := update s.data handle none }
      if isStreamCompatible (s.type handle) && uv.writable && uv.active then
        let request := s.next
        let s := { s with next := s.next + 1 }
        if uv.shutdown then { s with requests := s.requests ++ [(request, handle)] }
        else { s with freed := s.freed ++ [request] }.uvClose handle
      else s.uvClose handle

/-- The assert of `resetInternal`. -/
def assertSameType (currHandle newHandle : Option ℕ) : State :=
  match currHandle, newHandle with
  | some currHandle, some newHandle => s.assert (s.type currHandle = s.type newHandle) .type
  | _, _                            => s

/-- `resetInternal`, of an object that has `prevHandle`. -/
def resetInternal (v : ℕ) (prevHandle newHandle : Option ℕ) (runtimeThread : Bool)
    (uv : Answers) : State :=
  let s := (s.assertSameType prevHandle newHandle).setWrapper v (some newHandle)
  if runtimeThread then s.closeAndFreeUvHandle prevHandle uv
  else { s with posted := s.posted ++ [prevHandle] }

end State

/-- `runtimeThread` is whether it is the runtime thread that does it. -/
inductive Action where
  | construct (allocate : Bool)
  | init (v : ℕ) (type : UvHandleType)
  | setData (v : ℕ) (data : Option ℕ)
  | moveConstruct (other : ℕ)
  | moveAssign (v other : ℕ) (runtimeThread : Bool) (uv : Answers)
  | reset (v : ℕ) (runtimeThread : Bool) (uv : Answers)
  | destroy (v : ℕ) (runtimeThread : Bool) (uv : Answers)
  | execute (i : ℕ) (uv : Answers)
  | shutdownCallback (i : ℕ)
  | closeCallback (i : ℕ)
  deriving DecidableEq, Repr

/-- A step; none with an object, a coroutine or a callback that is not there. -/
def step (s : State) : Action → Option State
  | .construct allocate =>
      if allocate then
        some { s with wrappers := s.wrappers ++ [some (some s.next)], next := s.next + 1 }
      else some { s with wrappers := s.wrappers ++ [some none] }
  | .init v type => do
      let handle ← (← s.wrapper v)
      some { s with type := update s.type handle type }
  | .setData v data => do
      let handle ← (← s.wrapper v)
      some { s with data := update s.data handle data }
  | .moveConstruct other => do
      let handle ← s.wrapper other
      let s := s.setWrapper other (some none)
      some { s with wrappers := s.wrappers ++ [some handle] }
  | .moveAssign v other runtimeThread uv => do
      let _ ← s.wrapper v
      let newHandle ← s.wrapper other
      let s := s.setWrapper other (some none)
      some (s.resetInternal v (s.wrapper v).join newHandle runtimeThread uv)
  | .reset v runtimeThread uv => do
      some (s.resetInternal v (← s.wrapper v) none runtimeThread uv)
  | .destroy v runtimeThread uv => do
      some ((s.resetInternal v (← s.wrapper v) none runtimeThread uv).setWrapper v none)
  | .execute i uv => do
      let handle ← s.posted[i]?
      some ({ s with posted := s.posted.eraseIdx i }.closeAndFreeUvHandle handle uv)
  | .shutdownCallback i => do
      let (request, handle) ← s.requests[i]?
      let s := { s with requests := s.requests.eraseIdx i, freed := s.freed ++ [request] }
      some (s.uvClose handle)
  | .closeCallback i => do
      let handle ← s.closing[i]?
      some { s with closing := s.closing.eraseIdx i, freed := s.freed ++ [handle] }

/-! ### Blocks -/

namespace State

variable (s : State)

/-- The blocks that the objects, the coroutines, and the requests have. -/
def held : List ℕ := s.wrappers.flatMap fun w => w.join.toList

def awaiting : List ℕ := s.posted.flatMap Option.toList

def requested : List ℕ := s.requests.flatMap fun r => [r.1, r.2]

def places : List ℕ := s.held ++ (s.awaiting ++ (s.requested ++ s.closing))

end State

/-- Every block allocated is in one place or freed, but for the blocks in `moving`, which are on
their way; and no handle was closed twice. -/
structure Owned (s : State) (moving : List ℕ) : Prop where
  perm : (moving ++ (s.places ++ s.freed)).Perm (List.range s.next)
  notClosedTwice : .closing ∉ s.failures

section

variable {s : State} {moving : List ℕ} {v i handle : ℕ} {w : Option ℕ}

theorem wrapper_eq_some_iff : s.wrapper v = some w ↔ s.wrappers[v]? = some (some w) := by
  rw [State.wrapper, Option.join_eq_some_iff]

/-- The number of places of a block. -/
theorem count_places (b : ℕ) : (s.places ++ s.freed).count b =
    s.held.count b + (s.awaiting.count b + (s.requested.count b + s.closing.count b)) +
      s.freed.count b := by
  simp only [State.places, List.count_append]

theorem Owned.of_count {s' : State} {moving' : List ℕ} (h : Owned s moving)
    (hnext : s'.next = s.next) (hfailures : .closing ∉ s'.failures)
    (hcount : ∀ b, moving'.count b + (s'.places ++ s'.freed).count b =
      moving.count b + (s.places ++ s.freed).count b) : Owned s' moving' where
  perm := by
    rw [hnext]
    refine List.Perm.trans (List.perm_iff_count.2 fun b => ?_) h.perm
    simpa only [List.count_append] using hcount b
  notClosedTwice := hfailures

/-- An object gets what is on its way, and what it had is on its way. -/
theorem Owned.setWrapper (h : Owned s moving) (hv : s.wrapper v = some w)
    {w' : Option (Option ℕ)} {moving' : List ℕ}
    (hmoving : (moving' ++ w'.join.toList).Perm (moving ++ w.toList)) :
    Owned (s.setWrapper v w') moving' := by
  refine h.of_count rfl h.notClosedTwice fun b => ?_
  have hheld : (s.setWrapper v w').held.count b + w.toList.count b =
      s.held.count b + w'.join.toList.count b :=
    count_flatMap_set (wrapper_eq_some_iff.1 hv) w' fun w => w.join.toList
  have hsame := hmoving.count_eq b
  rw [List.count_append, List.count_append] at hsame
  rw [count_places, count_places]
  simp only [State.setWrapper, State.awaiting, State.requested] at hheld ⊢
  omega

theorem assertSameType_cases (s : State) (currHandle newHandle : Option ℕ) :
    s.assertSameType currHandle newHandle = s ∨
      s.assertSameType currHandle newHandle = { s with failures := s.failures ++ [.type] } := by
  cases currHandle with
  | none => exact .inl rfl
  | some currHandle =>
      cases newHandle with
      | none => exact .inl rfl
      | some newHandle =>
          rw [State.assertSameType, State.assert]
          split
          · exact .inl rfl
          · exact .inr rfl

theorem wrapper_assertSameType (currHandle newHandle : Option ℕ) :
    (s.assertSameType currHandle newHandle).wrapper v = s.wrapper v := by
  rcases assertSameType_cases s currHandle newHandle with h | h <;> rw [h]
  rfl

theorem Owned.assertSameType (h : Owned s moving) (currHandle newHandle : Option ℕ) :
    Owned (s.assertSameType currHandle newHandle) moving := by
  rcases assertSameType_cases s currHandle newHandle with heq | heq <;> rw [heq]
  · exact h
  · exact ⟨h.perm, by simpa using h.notClosedTwice⟩

/-- `closing` gets what is on its way. -/
theorem Owned.uvClose (h : Owned s (handle :: moving)) : Owned (s.uvClose handle) moving := by
  refine h.of_count rfl h.notClosedTwice fun b => ?_
  rw [count_places, count_places]
  simp only [State.uvClose, State.held, State.awaiting, State.requested, List.count_append,
    List.count_cons, List.count_nil]
  omega

theorem Owned.allocate (h : Owned s moving) :
    Owned { s with next := s.next + 1 } (s.next :: moving) where
  perm := by
    rw [List.range_succ]
    exact (List.Perm.cons s.next h.perm).trans (List.perm_append_singleton ..).symm
  notClosedTwice := h.notClosedTwice

theorem Owned.not_closing (h : Owned s (handle :: moving)) : handle ∉ s.closing := by
  intro hmem
  have hnodup := h.perm.nodup_iff.2 List.nodup_range
  rw [List.cons_append, List.nodup_cons] at hnodup
  refine hnodup.1 (List.mem_append_right _ (List.mem_append_left _ ?_))
  simp [State.places, hmem]

theorem Owned.closeAndFree (h : Owned s (w.toList ++ moving)) (uv : Answers) :
    Owned (s.closeAndFreeUvHandle w uv) moving := by
  cases w with
  | none => exact h
  | some handle =>
      have hassert : s.assert (handle ∉ s.closing) .closing = s := by
        rw [State.assert, if_pos (decide_eq_true h.not_closing)]
      have hcleared : Owned { s with data := update s.data handle none } (handle :: moving) :=
        ⟨h.perm, h.notClosedTwice⟩
      rw [State.closeAndFreeUvHandle]
      dsimp only
      rw [hassert]
      split
      · split
        · -- the request has the handle, and is a block too
          refine hcleared.allocate.of_count rfl h.notClosedTwice fun b => ?_
          rw [count_places, count_places]
          simp only [State.held, State.awaiting, State.requested, List.flatMap_append,
            List.count_append, List.flatMap_cons, List.flatMap_nil, List.count_cons, List.count_nil]
          omega
        · refine Owned.uvClose (hcleared.allocate.of_count rfl h.notClosedTwice fun b => ?_)
          rw [count_places, count_places]
          simp only [State.held, State.awaiting, State.requested, List.count_append,
            List.count_cons, List.count_nil]
          omega
      · exact hcleared.uvClose

/-- An object gets a handle, and what it had is closed or posted. -/
theorem Owned.resetInternal {newHandle : Option ℕ} (h : Owned s newHandle.toList)
    (hv : s.wrapper v = some w) (runtimeThread : Bool) (uv : Answers) :
    Owned (s.resetInternal v w newHandle runtimeThread uv) [] := by
  have hmoved : Owned ((s.assertSameType w newHandle).setWrapper v (some newHandle))
      (w.toList ++ []) := by
    refine (h.assertSameType w newHandle).setWrapper ((wrapper_assertSameType ..).trans hv) ?_
    rw [List.append_nil]
    exact List.perm_append_comm
  rw [State.resetInternal]
  split
  · exact hmoved.closeAndFree uv
  · rw [List.append_nil] at hmoved
    refine hmoved.of_count rfl hmoved.notClosedTwice fun b => ?_
    rw [count_places, count_places]
    simp only [State.held, State.awaiting, State.requested, List.flatMap_append, List.count_append,
      List.flatMap_cons, List.flatMap_nil, List.count_nil]
    omega

theorem wrapper_setWrapper_self (hv : s.wrapper v = some w) (w' : Option (Option ℕ)) :
    (s.setWrapper v w').wrapper v = w' := by
  rw [State.wrapper, State.setWrapper, getElem?_replaced (wrapper_eq_some_iff.1 hv),
    Option.join_some]

theorem wrapper_setWrapper_of_ne {other : ℕ} (hne : other ≠ v) (w' : Option (Option ℕ)) :
    (s.setWrapper other w').wrapper v = s.wrapper v := by
  rw [State.wrapper, State.setWrapper, List.getElem?_set_ne hne, State.wrapper]

theorem wrappers_closeAndFree (s : State) (w : Option ℕ) (uv : Answers) :
    (s.closeAndFreeUvHandle w uv).wrappers = s.wrappers := by
  cases w with
  | none => rfl
  | some handle =>
      have hassert : ∀ holds, (s.assert holds .closing).wrappers = s.wrappers := by
        intro holds
        rw [State.assert]
        split <;> rfl
      rw [State.closeAndFreeUvHandle]
      dsimp only
      split
      · split <;> exact hassert _
      · exact hassert _

theorem wrapper_resetInternal (hv : s.wrapper v = some w) (newHandle : Option ℕ)
    (runtimeThread : Bool) (uv : Answers) :
    (s.resetInternal v w newHandle runtimeThread uv).wrapper v = some newHandle := by
  have hmoved : ((s.assertSameType w newHandle).setWrapper v (some newHandle)).wrapper v =
      some newHandle :=
    wrapper_setWrapper_self ((wrapper_assertSameType ..).trans hv) _
  rw [State.resetInternal]
  split
  · rw [State.wrapper, wrappers_closeAndFree]
    exact hmoved
  · exact hmoved

theorem Owned.push (h : Owned s w.toList) :
    Owned { s with wrappers := s.wrappers ++ [some w] } [] := by
  refine h.of_count rfl h.notClosedTwice fun b => ?_
  rw [count_places, count_places]
  simp only [State.held, State.awaiting, State.requested, List.flatMap_append, List.count_append,
    List.flatMap_cons, List.flatMap_nil, List.count_nil, Option.join_some]
  omega

theorem Owned.step {s' : State} (h : Owned s []) {a : Action} (hstep : step s a = some s') :
    Owned s' [] := by
  cases a with
  | construct allocate =>
      rw [UvHandles.step] at hstep
      split at hstep <;> obtain rfl := Option.some.inj hstep
      · exact Owned.push (w := some s.next) h.allocate
      · exact Owned.push (w := none) h
  | init v type =>
      obtain ⟨w, -, hstep⟩ := Option.bind_eq_some_iff.1 hstep
      obtain ⟨handle, -, hstep⟩ := Option.bind_eq_some_iff.1 hstep
      obtain rfl := Option.some.inj hstep
      exact ⟨h.perm, h.notClosedTwice⟩
  | setData v data =>
      obtain ⟨w, -, hstep⟩ := Option.bind_eq_some_iff.1 hstep
      obtain ⟨handle, -, hstep⟩ := Option.bind_eq_some_iff.1 hstep
      obtain rfl := Option.some.inj hstep
      exact ⟨h.perm, h.notClosedTwice⟩
  | moveConstruct other =>
      obtain ⟨w, hv, hstep⟩ := Option.bind_eq_some_iff.1 hstep
      obtain rfl := Option.some.inj hstep
      refine Owned.push (h.setWrapper hv ?_)
      simp
  | moveAssign v other runtimeThread uv =>
      obtain ⟨old, hold, hstep⟩ := Option.bind_eq_some_iff.1 hstep
      obtain ⟨w, hv, hstep⟩ := Option.bind_eq_some_iff.1 hstep
      obtain rfl := Option.some.inj hstep
      have hmoved : Owned (s.setWrapper other (some none)) w.toList := h.setWrapper hv (by simp)
      have hwrapper : ∃ w', (s.setWrapper other (some none)).wrapper v = some w' := by
        by_cases hsame : other = v
        · subst hsame
          exact ⟨none, wrapper_setWrapper_self hv _⟩
        · exact ⟨old, (wrapper_setWrapper_of_ne hsame _).trans hold⟩
      obtain ⟨w', hw'⟩ := hwrapper
      rw [hw']
      exact hmoved.resetInternal hw' runtimeThread uv
  | reset v runtimeThread uv =>
      obtain ⟨w, hv, hstep⟩ := Option.bind_eq_some_iff.1 hstep
      obtain rfl := Option.some.inj hstep
      exact h.resetInternal hv runtimeThread uv
  | destroy v runtimeThread uv =>
      obtain ⟨w, hv, hstep⟩ := Option.bind_eq_some_iff.1 hstep
      obtain rfl := Option.some.inj hstep
      exact (h.resetInternal hv runtimeThread uv).setWrapper
        (wrapper_resetInternal hv none runtimeThread uv) (List.Perm.refl [])
  | execute i uv =>
      obtain ⟨w, hi, hstep⟩ := Option.bind_eq_some_iff.1 hstep
      obtain rfl := Option.some.inj hstep
      have hmoving : Owned { s with posted := s.posted.eraseIdx i } (w.toList ++ []) := by
        refine h.of_count rfl h.notClosedTwice fun b => ?_
        have herase := count_flatMap_eraseIdx (b := b) hi Option.toList
        rw [count_places, count_places]
        simp only [State.held, State.awaiting, State.requested, List.append_nil, List.count_nil]
        omega
      exact hmoving.closeAndFree uv
  | shutdownCallback i =>
      obtain ⟨⟨request, handle⟩, hi, hstep⟩ := Option.bind_eq_some_iff.1 hstep
      obtain rfl := Option.some.inj hstep
      refine Owned.uvClose (h.of_count rfl h.notClosedTwice fun b => ?_)
      have herase := count_flatMap_eraseIdx (b := b) hi fun r => [r.1, r.2]
      rw [count_places, count_places]
      simp only [State.held, State.awaiting, State.requested, List.count_append, List.count_cons,
        List.count_nil] at herase ⊢
      omega
  | closeCallback i =>
      obtain ⟨handle, hi, hstep⟩ := Option.bind_eq_some_iff.1 hstep
      obtain rfl := Option.some.inj hstep
      refine h.of_count rfl h.notClosedTwice fun b => ?_
      have herase := count_flatMap_eraseIdx (b := b) hi fun h => [h]
      rw [List.flatMap_singleton', List.flatMap_singleton'] at herase
      rw [count_places, count_places]
      simp only [State.held, State.awaiting, State.requested, List.count_append, List.count_cons,
        List.count_nil] at herase ⊢
      omega

end

theorem owned_new : Owned {} [] where
  perm := List.Perm.refl []
  notClosedTwice h := nomatch h

theorem owned_exec {s s' : State} (h : Owned s []) {actions : List Action}
    (hrun : exec step s actions = some s') : Owned s' [] :=
  Steps.invariant (P := fun s => Owned s []) (fun h _ hstep => h.step hstep)
    (exec_steps (allowed_free actions s) hrun) h

/-! ### The loop -/

/-- What the loop does by itself. -/
def Action.ofLoop : Action → Bool
  | execute _ _ | shutdownCallback _ | closeCallback _ => true
  | _                                                  => false

/-- The steps that the loop can take. -/
def State.pending (s : State) : ℕ := 3 * s.posted.length + 2 * s.requests.length + s.closing.length

section

variable {s s' : State} {a : Action}

theorem wrappers_of_loop (hstep : step s a = some s') (hloop : a.ofLoop = true) :
    s'.wrappers = s.wrappers := by
  cases a with
  | execute i uv =>
      obtain ⟨w, -, hstep⟩ := Option.bind_eq_some_iff.1 hstep
      obtain rfl := Option.some.inj hstep
      exact wrappers_closeAndFree ..
  | shutdownCallback i =>
      obtain ⟨⟨request, handle⟩, -, hstep⟩ := Option.bind_eq_some_iff.1 hstep
      obtain rfl := Option.some.inj hstep
      rfl
  | closeCallback i =>
      obtain ⟨handle, -, hstep⟩ := Option.bind_eq_some_iff.1 hstep
      obtain rfl := Option.some.inj hstep
      rfl
  | _ => cases hloop

theorem pending_closeAndFree_le (s : State) (w : Option ℕ) (uv : Answers) :
    (s.closeAndFreeUvHandle w uv).pending ≤ s.pending + 2 := by
  cases w with
  | none => exact Nat.le_add_right ..
  | some handle =>
      have hassert : ∀ holds, (s.assert holds .closing).posted = s.posted ∧
          (s.assert holds .closing).requests = s.requests ∧
          (s.assert holds .closing).closing = s.closing := by
        intro holds
        rw [State.assert]
        split <;> exact ⟨rfl, rfl, rfl⟩
      obtain ⟨hposted, hrequests, hclosing⟩ := hassert (handle ∉ s.closing)
      rw [State.closeAndFreeUvHandle]
      dsimp only
      split
      · split <;> simp only [State.pending, State.uvClose, hposted, hrequests, hclosing,
          List.length_append, List.length_cons, List.length_nil] <;> omega
      · simp only [State.pending, State.uvClose, hposted, hrequests, hclosing, List.length_append,
          List.length_cons, List.length_nil]
        omega

theorem pending_lt_of_loop (hstep : step s a = some s') (hloop : a.ofLoop = true) :
    s'.pending < s.pending := by
  have herase : ∀ {α : Type} {l : List α} {i : ℕ} {x : α}, l[i]? = some x →
      (l.eraseIdx i).length + 1 = l.length := by
    intro α l i x hi
    obtain ⟨hlt, -⟩ := List.getElem?_eq_some_iff.1 hi
    rw [List.length_eraseIdx_of_lt hlt]
    omega
  cases a with
  | execute i uv =>
      obtain ⟨w, hi, hstep⟩ := Option.bind_eq_some_iff.1 hstep
      obtain rfl := Option.some.inj hstep
      have hclose := pending_closeAndFree_le { s with posted := s.posted.eraseIdx i } w uv
      have hlength := herase hi
      simp only [State.pending] at hclose ⊢
      omega
  | shutdownCallback i =>
      obtain ⟨⟨request, handle⟩, hi, hstep⟩ := Option.bind_eq_some_iff.1 hstep
      obtain rfl := Option.some.inj hstep
      have hlength := herase hi
      simp only [State.pending, State.uvClose, List.length_append, List.length_cons,
        List.length_nil]
      omega
  | closeCallback i =>
      obtain ⟨handle, hi, hstep⟩ := Option.bind_eq_some_iff.1 hstep
      obtain rfl := Option.some.inj hstep
      have hlength := herase hi
      simp only [State.pending]
      omega
  | _ => cases hloop

/-- The loop does not go on for ever. -/
theorem loop_length_le {actions : List Action} (hrun : exec step s actions = some s')
    (hloop : ∀ a ∈ actions, a.ofLoop = true) :
    s'.wrappers = s.wrappers ∧ actions.length + s'.pending ≤ s.pending := by
  induction actions generalizing s with
  | nil =>
      obtain rfl := Option.some.inj hrun
      exact ⟨rfl, Nat.le_of_eq (Nat.zero_add _)⟩
  | cons a actions ih =>
      obtain ⟨s₁, hstep, hrun⟩ := Option.bind_eq_some_iff.1 hrun
      have hfirst := hloop a List.mem_cons_self
      obtain ⟨hwrappers, hlength⟩ := ih hrun fun a ha => hloop a (List.mem_cons_of_mem _ ha)
      have hpending := pending_lt_of_loop hstep hfirst
      rw [List.length_cons]
      exact ⟨hwrappers.trans (wrappers_of_loop hstep hfirst), by omega⟩

/-- Nothing waits for the loop when it can take no step. -/
theorem idle_of_stuck (hstuck : ∀ a, a.ofLoop = true → step s a = none) :
    s.awaiting = [] ∧ s.requested = [] ∧ s.closing = [] := by
  refine ⟨?_, ?_, ?_⟩
  · cases hposted : s.posted with
    | nil => rw [State.awaiting, hposted, List.flatMap_nil]
    | cons w posted =>
        have hnone := hstuck (.execute 0 ⟨false, false, false⟩) rfl
        rw [step, hposted] at hnone
        cases hnone
  · cases hrequests : s.requests with
    | nil => rw [State.requested, hrequests, List.flatMap_nil]
    | cons r requests =>
        have hnone := hstuck (.shutdownCallback 0) rfl
        rw [step, hrequests] at hnone
        cases hnone
  · cases hclosing : s.closing with
    | nil => rfl
    | cons handle closing =>
        have hnone := hstuck (.closeCallback 0) rfl
        rw [step, hclosing] at hnone
        cases hnone

end

/-- **Memory.**  In no run is a block freed twice or while something has it, nor a handle closed
twice.  When no object has a handle any more, the loop frees every block in so many steps, whatever
libuv answers. -/
theorem handles_freed {actions : List Action} {s : State} (hrun : exec step {} actions = some s) :
    s.freed.Nodup ∧ (∀ b ∈ s.freed, b ∉ s.places) ∧ .closing ∉ s.failures ∧
      (s.held = [] → ∀ loop s', exec step s loop = some s' → (∀ a ∈ loop, a.ofLoop = true) →
        loop.length ≤ s.pending ∧
          ((∀ a, a.ofLoop = true → step s' a = none) → s'.freed.Perm (List.range s'.next))) := by
  have howned := owned_exec owned_new hrun
  have hnodup : (s.places ++ s.freed).Nodup := howned.perm.nodup_iff.2 List.nodup_range
  obtain ⟨-, hfreed, hdisjoint⟩ := List.nodup_append.1 hnodup
  refine ⟨hfreed, fun b hb hplace => hdisjoint b hplace b hb rfl, howned.notClosedTwice, ?_⟩
  intro hheld loop s' hloopRun hloop
  obtain ⟨hwrappers, hlength⟩ := loop_length_le hloopRun hloop
  refine ⟨Nat.le_trans (Nat.le_add_right ..) hlength, fun hstuck => ?_⟩
  obtain ⟨hawaiting, hrequested, hclosing⟩ := idle_of_stuck hstuck
  have hperm := (owned_exec howned hloopRun).perm
  have hheld' : s'.held = [] := by rw [State.held, hwrappers]; exact hheld
  rw [State.places, hheld', hawaiting, hrequested, hclosing] at hperm
  exact hperm

/-- A writable stream, given up by another thread. -/
theorem handles_freed_stream : ∃ s, exec step {} [.construct true, .init 0 .tcp,
      .destroy 0 false ⟨true, true, true⟩, .execute 0 ⟨true, true, true⟩, .shutdownCallback 0,
      .closeCallback 0] = some s ∧ s.freed.Nodup := by
  obtain ⟨s, hrun⟩ : ∃ s, exec step {} [.construct true, .init 0 .tcp,
      .destroy 0 false ⟨true, true, true⟩, .execute 0 ⟨true, true, true⟩, .shutdownCallback 0,
      .closeCallback 0] = some s := ⟨_, rfl⟩
  exact ⟨s, hrun, (handles_freed hrun).1⟩

/-! ### Data -/

/-- No handle has data that no object has. -/
def Cleared (s : State) : Prop := ∀ handle, handle ∉ s.held → s.data handle = none

/-- The handle that another thread than the runtime thread gives up. -/
def dropped (s : State) : Action → Option ℕ
  | .moveAssign v other false _        => if v = other then none else (s.wrapper v).join
  | .reset v false _ | .destroy v false _ => (s.wrapper v).join
  | _                                  => none

/-- The data of a handle is reset before another thread gives it up. -/
def ResetsData (s : State) (a : Action) : Prop :=
  step s a ≠ none → ∀ handle ∈ dropped s a, s.data handle = none

section

variable {s s' : State} {moving : List ℕ} {v : ℕ} {w : Option ℕ}

theorem mem_held_setWrapper (h : Owned s moving) (hv : s.wrapper v = some w)
    (w' : Option (Option ℕ)) (b : ℕ) :
    b ∈ (s.setWrapper v w').held ↔ b ∈ w'.join.toList ∨ b ∈ s.held ∧ b ∉ w.toList := by
  have hset : (s.setWrapper v w').held.count b + w.toList.count b =
      s.held.count b + w'.join.toList.count b :=
    count_flatMap_set (wrapper_eq_some_iff.1 hv) w' fun w => w.join.toList
  have hone : s.held.count b ≤ 1 := by
    have hnodup := h.perm.nodup_iff.2 List.nodup_range
    have hheld := (List.nodup_append.1 (List.nodup_append.1 (List.nodup_append.1 hnodup).2.1).1).1
    exact List.nodup_iff_count_le_one.1 hheld b
  have hle : w.toList.count b ≤ s.held.count b := by
    obtain ⟨l₁, l₂, heq, -, -⟩ := exists_split (wrapper_eq_some_iff.1 hv)
    rw [State.held, heq]
    simp only [List.flatMap_append, List.flatMap_cons, List.count_append, Option.join_some]
    omega
  simp only [← List.count_pos_iff]
  omega

theorem data_closeAndFree (s : State) (w : Option ℕ) (uv : Answers) (b : ℕ) :
    (s.closeAndFreeUvHandle w uv).data b = if w = some b then none else s.data b := by
  cases w with
  | none => rfl
  | some handle =>
      have hassert : ∀ holds, (s.assert holds .closing).data = s.data := by
        intro holds
        rw [State.assert]
        split <;> rfl
      have hdata : update (s.assert (handle ∉ s.closing) .closing).data handle none b =
          if some handle = some b then none else s.data b := by
        rw [hassert, Function.update_apply]
        simp only [Option.some.injEq, eq_comm]
      rw [State.closeAndFreeUvHandle]
      dsimp only
      split
      · split <;> exact hdata
      · exact hdata

theorem mem_held (hv : s.wrapper v = some w) {b : ℕ} (hb : w = some b) : b ∈ s.held := by
  refine List.mem_flatMap.2 ⟨some w, List.mem_of_getElem? (wrapper_eq_some_iff.1 hv), ?_⟩
  rw [hb]
  exact List.mem_singleton_self b

theorem wrappers_resetInternal (s : State) (v : ℕ) (w newHandle : Option ℕ) (runtimeThread : Bool)
    (uv : Answers) : (s.resetInternal v w newHandle runtimeThread uv).wrappers =
      (s.setWrapper v (some newHandle)).wrappers := by
  have hassert : (s.assertSameType w newHandle).wrappers = s.wrappers := by
    rcases assertSameType_cases s w newHandle with h | h <;> rw [h]
  have hmoved : ((s.assertSameType w newHandle).setWrapper v (some newHandle)).wrappers =
      (s.setWrapper v (some newHandle)).wrappers := by
    rw [State.setWrapper, hassert, State.setWrapper]
  rw [State.resetInternal]
  split
  · exact (wrappers_closeAndFree ..).trans hmoved
  · exact hmoved

theorem data_resetInternal (s : State) (v : ℕ) (w newHandle : Option ℕ) (runtimeThread : Bool)
    (uv : Answers) (b : ℕ) : (s.resetInternal v w newHandle runtimeThread uv).data b =
      if runtimeThread = true ∧ w = some b then none else s.data b := by
  have hassert : (s.assertSameType w newHandle).data = s.data := by
    rcases assertSameType_cases s w newHandle with h | h <;> rw [h]
  rw [State.resetInternal]
  cases runtimeThread with
  | true =>
      rw [if_pos rfl, data_closeAndFree]
      simp only [State.setWrapper, hassert, true_and]
  | false => simp only [State.setWrapper, hassert, Bool.false_eq_true, if_false, false_and]

/-- An object that gets another handle. -/
theorem cleared_resetInternal {newHandle : Option ℕ} (h : Owned s newHandle.toList)
    (hv : s.wrapper v = some w) (runtimeThread : Bool) (uv : Answers)
    (hclear : ∀ b, b ∉ s.held → newHandle ≠ some b → s.data b = none) :
    Cleared (s.resetInternal v w newHandle runtimeThread uv) ↔
      (runtimeThread = false → ∀ b ∈ w, s.data b = none) := by
  have hheld : ∀ b, b ∈ (s.resetInternal v w newHandle runtimeThread uv).held ↔
      newHandle = some b ∨ b ∈ s.held ∧ ¬ w = some b := by
    intro b
    have hmem := mem_held_setWrapper h hv (some newHandle) b
    rw [State.held, wrappers_resetInternal, ← State.held, hmem]
    simp only [Option.join_some, Option.mem_toList]
  simp only [Cleared, hheld, data_resetInternal]
  constructor
  · intro hcleared hthread b hb
    have hnew : newHandle ≠ some b := by
      intro hnew
      have hnodup := h.perm.nodup_iff.2 List.nodup_range
      rw [hnew, Option.toList_some, List.cons_append, List.nil_append, List.nodup_cons] at hnodup
      refine hnodup.1 (List.mem_append_left _ (List.mem_append_left _ ?_))
      exact mem_held hv hb
    have hnone := hcleared b fun hmem => hmem.elim hnew fun hmem => hmem.2 hb
    rwa [if_neg (by simp [hthread])] at hnone
  · intro hreset b hb
    simp only [not_or, not_and, not_not] at hb
    by_cases hw : w = some b
    · cases runtimeThread with
      | true => rw [if_pos ⟨rfl, hw⟩]
      | false =>
          rw [if_neg (by simp)]
          exact hreset rfl b hw
    · rw [if_neg (by simp [hw])]
      exact hclear b (fun hmem => hw (hb.2 hmem)) hb.1

end

/-- A step after which no handle has data that no object has. -/
theorem cleared_step {s s' : State} (h : Owned s []) (hcleared : Cleared s) {a : Action}
    (hstep : step s a = some s') : Cleared s' ↔ ∀ handle ∈ dropped s a, s.data handle = none := by
  -- the steps that give nothing up
  have hkept : (∀ b, b ∈ s.held → b ∈ s'.held) → (∀ b, b ∉ s'.held → s.data b = none →
      s'.data b = none) → Cleared s' :=
    fun hheld hdata b hb => hdata b hb (hcleared b fun hmem => hb (hheld b hmem))
  have hnothing : dropped s a = none → Cleared s' →
      (Cleared s' ↔ ∀ handle ∈ dropped s a, s.data handle = none) := by
    intro hdropped hcleared'
    rw [hdropped]
    exact iff_of_true hcleared' fun handle hmem => nomatch hmem
  cases a with
  | construct allocate =>
      refine hnothing rfl (hkept (fun b hb => ?_) fun b _ hb => ?_) <;> rw [step] at hstep <;>
        split at hstep <;> obtain rfl := Option.some.inj hstep
      · rw [State.held, List.flatMap_append]
        exact List.mem_append_left _ hb
      · rw [State.held, List.flatMap_append]
        exact List.mem_append_left _ hb
      · exact hb
      · exact hb
  | init v type =>
      obtain ⟨w, -, hstep⟩ := Option.bind_eq_some_iff.1 hstep
      obtain ⟨handle, -, hstep⟩ := Option.bind_eq_some_iff.1 hstep
      obtain rfl := Option.some.inj hstep
      exact hnothing rfl hcleared
  | setData v data =>
      obtain ⟨w, hv, hstep⟩ := Option.bind_eq_some_iff.1 hstep
      obtain ⟨handle, hhandle, hstep⟩ := Option.bind_eq_some_iff.1 hstep
      obtain rfl := Option.some.inj hstep
      refine hnothing rfl (hkept (fun b hb => hb) fun b hb hnone => ?_)
      have hne : b ≠ handle := by
        rintro rfl
        exact hb (mem_held hv hhandle)
      exact (Function.update_of_ne hne ..).trans hnone
  | moveConstruct other =>
      obtain ⟨w, hv, hstep⟩ := Option.bind_eq_some_iff.1 hstep
      obtain rfl := Option.some.inj hstep
      refine hnothing rfl (hkept (fun b hb => ?_) fun b _ hb => hb)
      have hmem := (mem_held_setWrapper h hv (some none) b).2
      rw [State.held, List.flatMap_append]
      by_cases hw : b ∈ w.toList
      · exact List.mem_append_right _ (by simpa using hw)
      · exact List.mem_append_left _ (hmem (.inr ⟨hb, hw⟩))
  | moveAssign v other runtimeThread uv =>
      obtain ⟨old, hold, hstep⟩ := Option.bind_eq_some_iff.1 hstep
      obtain ⟨w, hv, hstep⟩ := Option.bind_eq_some_iff.1 hstep
      obtain rfl := Option.some.inj hstep
      have hmoved : Owned (s.setWrapper other (some none)) w.toList := h.setWrapper hv (by simp)
      have hclear : ∀ b, b ∉ (s.setWrapper other (some none)).held → w ≠ some b →
          (s.setWrapper other (some none)).data b = none := by
        intro b hb hw
        have hkept := (mem_held_setWrapper h hv (some none) b).2
        refine hcleared b fun hmem => hb (hkept (.inr ⟨hmem, fun hmem => hw ?_⟩))
        exact Option.mem_toList.1 hmem
      by_cases hsame : v = other
      · subst hsame
        have hself := wrapper_setWrapper_self hv (some none)
        rw [hself, Option.join_some, cleared_resetInternal hmoved hself runtimeThread uv hclear]
        refine iff_of_true (fun _ b hb => nomatch hb) fun handle hmem => ?_
        cases runtimeThread <;> simp [dropped] at hmem
      · have hkeeps := (wrapper_setWrapper_of_ne (Ne.symm hsame) (some none)).trans hold
        rw [hkeeps, Option.join_some, cleared_resetInternal hmoved hkeeps runtimeThread uv hclear]
        cases runtimeThread <;> simp [dropped, hsame, hold, State.setWrapper]
  | reset v runtimeThread uv =>
      obtain ⟨w, hv, hstep⟩ := Option.bind_eq_some_iff.1 hstep
      obtain rfl := Option.some.inj hstep
      have hiff : Cleared (s.resetInternal v w none runtimeThread uv) ↔ _ :=
        cleared_resetInternal h hv runtimeThread uv fun b hb _ => hcleared b hb
      rw [hiff]
      cases runtimeThread <;> simp [dropped, hv]
  | destroy v runtimeThread uv =>
      obtain ⟨w, hv, hstep⟩ := Option.bind_eq_some_iff.1 hstep
      obtain rfl := Option.some.inj hstep
      have hiff : Cleared (s.resetInternal v w none runtimeThread uv) ↔ _ :=
        cleared_resetInternal h hv runtimeThread uv fun b hb _ => hcleared b hb
      have howned : Owned (s.resetInternal v w none runtimeThread uv) [] :=
        h.resetInternal hv runtimeThread uv
      have hreset :=
        mem_held_setWrapper howned (wrapper_resetInternal hv none runtimeThread uv) none
      have hgone : Cleared ((s.resetInternal v w none runtimeThread uv).setWrapper v none) ↔
          Cleared (s.resetInternal v w none runtimeThread uv) := by
        simp only [Cleared, hreset, Option.join_none, Option.toList_none, List.not_mem_nil,
          false_or, not_false_eq_true, and_true]
        rfl
      rw [hgone, hiff]
      cases runtimeThread <;> simp [dropped, hv]
  | execute i uv =>
      obtain ⟨w, hi, hstep⟩ := Option.bind_eq_some_iff.1 hstep
      obtain rfl := Option.some.inj hstep
      refine hnothing rfl (hkept (fun b hb => ?_) fun b _ hb => ?_)
      · rw [State.held, wrappers_closeAndFree]
        exact hb
      · rw [data_closeAndFree]
        split
        · rfl
        · exact hb
  | shutdownCallback i =>
      obtain ⟨⟨request, handle⟩, -, hstep⟩ := Option.bind_eq_some_iff.1 hstep
      obtain rfl := Option.some.inj hstep
      exact hnothing rfl hcleared
  | closeCallback i =>
      obtain ⟨handle, -, hstep⟩ := Option.bind_eq_some_iff.1 hstep
      obtain rfl := Option.some.inj hstep
      exact hnothing rfl hcleared

/-- **Data.**  In a run no handle keeps its data that no object has any more, so that callbacks find
none, just when threads other than the runtime thread give up only handles without data. -/
theorem data_cleared_iff (actions : List Action) :
    Allowed step (fun s a => ∀ s' ∈ step s a, Cleared s') {} actions ↔
      Allowed step ResetsData {} actions := by
  refine allowed_congr (P := fun s => Owned s [] ∧ Cleared s) ?_ ?_ actions
    ⟨owned_new, fun _ _ => rfl⟩ (allowed_free actions _)
  · intro s a s' h _ hcleared hstep
    exact ⟨h.1.step hstep, hcleared s' hstep⟩
  · intro s a h _
    cases hstep : step s a with
    | none => exact iff_of_true (fun s' hs' => nomatch hs') fun hne => absurd hstep hne
    | some s' =>
        have hiff := cleared_step h.1 h.2 hstep
        rw [ResetsData, hstep]
        simpa using hiff

end MyEngine.Runtime.UvHandles
