import Mathlib.Data.List.Basic
import MyEngine.Support.Replace
import MyEngine.Support.Runs

/-!
# Network — Listener

`listener.cpp`: inbound connections, `accept` from any thread and `dispose`.  A section under
`m_mutex` is one step; the callback of `closeListener` takes no lock, so each of its accesses to a
member is one.  Tasks are numbered in the order in which `accept` makes them.

* `step`: a connection callback, a call, or an access of the close callback.
* `Inv`: the connections, the task that waits, and where the close callback is.
* `listener_runs`: who gets which connection, and that closing leaves no task behind.
-/

namespace MyEngine.Network.Listening

open MyEngine.Runs

variable {C : Type}

/-- The result of a task of `accept`; a stream may be null. -/
inductive Answer (C : Type) where
  | resolved (stream : Option C)
  | rejected
  deriving DecidableEq, Repr

/-- The connection a task has got. -/
@[simp]
def connection? : Option (Answer C) → Option C
  | none                    => none
  | some (.resolved stream) => stream
  | some .rejected          => none

/-- The next access of the close callback. -/
inductive Closing where
  | notDisposed
  | reset
  | test
  | take
  | assign (task : Option ℕ)
  | resolve (task : Option ℕ)
  | emplaceBack
  | finished
  deriving DecidableEq, Repr

/-- The members, the results of all tasks, and the connections that have come in. -/
structure Listener (C : Type) where
  uvServer : Bool := true
  acceptTaskSource : Option ℕ := none
  delayedConnections : List (Option C) := []
  isDisposed : Bool := false
  closing : Closing := .notDisposed
  tasks : List (Option (Answer C)) := []
  arrived : List C := []

/-- What libuv calls back with. -/
inductive Inbound (C : Type) where
  | failed
  | notAccepted
  | accepted (connection : C)
  deriving DecidableEq, Repr

inductive Action (C : Type) where
  | connectionCallback (inbound : Inbound C)
  | accept
  | dispose
  | close
  deriving DecidableEq, Repr

namespace Listener

/-- With the lock held by the caller. -/
def doAccept (s : Listener C) (stream : Option C) : Listener C :=
  match s.acceptTaskSource with
  | some task => { s with
      acceptTaskSource := none
      tasks := s.tasks.set task (some (.resolved stream)) }
  | none      => { s with delayedConnections := s.delayedConnections ++ [stream] }

def connectionCallback (s : Listener C) : Inbound C → Listener C
  | .failed              => s.doAccept none
  | .notAccepted         => s
  | .accepted connection =>
      { s with arrived := s.arrived ++ [connection] }.doAccept (some connection)

def accept (s : Listener C) : Listener C :=
  if !s.uvServer then { s with tasks := s.tasks ++ [some (.resolved none)] }
  else if s.acceptTaskSource.isSome then { s with tasks := s.tasks ++ [some .rejected] }
  else
    match s.delayedConnections with
    | stream :: delayed => { s with
        delayedConnections := delayed
        tasks := s.tasks ++ [some (.resolved stream)] }
    | []                => { s with
        acceptTaskSource := some s.tasks.length
        tasks := s.tasks ++ [none] }

/-- `doDispose` to the start of the callback on the runtime thread. -/
def dispose (s : Listener C) : Listener C :=
  if s.isDisposed then s else { s with isDisposed := true, closing := .reset }

/-- The callback of `closeListener`, with `doAccept(nullptr)` without the lock. -/
def close (s : Listener C) : Option (Listener C) :=
  match s.closing with
  | .notDisposed  => none
  | .reset        => some { s with uvServer := false, closing := .test }
  | .test         => some { s with
      closing := if s.acceptTaskSource.isSome then .take else .emplaceBack }
  | .take         => some { s with acceptTaskSource := none, closing := .assign s.acceptTaskSource }
  | .assign task  => some { s with acceptTaskSource := none, closing := .resolve task }
  | .resolve task => some { s with
      tasks := match task with
        | some task => s.tasks.set task (some (.resolved none))
        | none      => s.tasks
      closing := .finished }
  | .emplaceBack  => some { s with
      delayedConnections := s.delayedConnections ++ [none]
      closing := .finished }
  | .finished     => none

end Listener

/-- libuv calls back only while the handle is open. -/
def step (s : Listener C) : Action C → Option (Listener C)
  | .connectionCallback inbound => if s.uvServer then some (s.connectionCallback inbound) else none
  | .accept                     => some s.accept
  | .dispose                    => some s.dispose
  | .close                      => s.close

/-! ### The tasks -/

/-- A task waits in the source, or has been taken out of it by the close callback. -/
def Waits (s : Listener C) (task : ℕ) : Prop :=
  s.acceptTaskSource = some task ∨ s.closing = .assign (some task) ∨
    s.closing = .resolve (some task)

/-- What the place of the close callback says. -/
@[simp]
def Placed (s : Listener C) : Closing → Prop
  | .notDisposed  => s.uvServer = true
  | .reset        => s.uvServer = true
  | .test         => s.uvServer = false
  | .take         => s.uvServer = false ∧ s.acceptTaskSource ≠ none
  | .assign task  => s.uvServer = false ∧ s.acceptTaskSource = none ∧ task ≠ none
  | .resolve task => s.uvServer = false ∧ s.acceptTaskSource = none ∧ task ≠ none
  | .emplaceBack  => s.uvServer = false ∧ s.acceptTaskSource = none
  | .finished     => s.uvServer = false ∧ s.acceptTaskSource = none

/-- Holds of every state. -/
structure Inv (s : Listener C) : Prop where
  /-- Every connection that has come in is with a task, or waits, in the order of arrival. -/
  ledger : s.tasks.filterMap connection? ++ s.delayedConnections.filterMap id = s.arrived
  unresolved : ∀ task, s.tasks[task]? = some none ↔ Waits s task
  /-- No task behind one that waits has got a connection. -/
  last : ∀ task, Waits s task → ∀ later answer, task < later → s.tasks[later]? = some answer →
    connection? answer = none
  nothingDelayed : ∀ task, Waits s task → s.delayedConnections = []
  placed : Placed s s.closing
  disposed : s.closing ≠ .notDisposed → s.isDisposed = true

section Steps

variable {s s' : Listener C} {task : ℕ}

theorem filterMap_set_none {tasks : List (Option (Answer C))} (h : tasks[task]? = some none) :
    (tasks.set task (some (.resolved none))).filterMap connection? =
      tasks.filterMap connection? := by
  obtain ⟨hlt, hget⟩ := List.getElem?_eq_some_iff.1 h
  conv_rhs => rw [← List.take_append_drop task tasks, List.drop_eq_getElem_cons hlt, hget]
  rw [List.set_eq_take_append_cons_drop, if_pos hlt]
  simp [List.filterMap_cons]

/-- The last task that gets a connection. -/
theorem filterMap_set_some {tasks : List (Option (Answer C))} (h : tasks[task]? = some none)
    (hlast : ∀ later answer, task < later → tasks[later]? = some answer →
      connection? answer = none) (c : C) :
    (tasks.set task (some (.resolved (some c)))).filterMap connection? =
      tasks.filterMap connection? ++ [c] := by
  obtain ⟨hlt, hget⟩ := List.getElem?_eq_some_iff.1 h
  conv_rhs => rw [← List.take_append_drop task tasks, List.drop_eq_getElem_cons hlt, hget]
  rw [List.set_eq_take_append_cons_drop, if_pos hlt]
  have hdrop : (tasks.drop (task + 1)).filterMap connection? = [] := by
    refine List.filterMap_eq_nil_iff.2 fun answer hanswer => ?_
    obtain ⟨index, hindex⟩ := List.getElem?_of_mem hanswer
    rw [List.getElem?_drop] at hindex
    exact hlast _ answer (by omega) hindex
  simp [List.filterMap_cons, hdrop]

/-- A task that is resolved when it is made. -/
theorem getElem?_append_some {tasks : List (Option (Answer C))} (answer : Answer C) (task : ℕ) :
    (tasks ++ [some answer])[task]? = some none ↔ tasks[task]? = some none := by
  refine ⟨fun h => ?_, fun h => getElem?_concat_of_some h _⟩
  rcases getElem?_concat_cases h with h | ⟨-, h⟩
  · exact h
  · cases h

/-- Resolving the task leaves the other ones as they are. -/
theorem getElem?_set_some {tasks : List (Option (Answer C))} {answer : Answer C} (other : ℕ) :
    (tasks.set task (some answer))[other]? = some none ↔
      other ≠ task ∧ tasks[other]? = some none := by
  rw [List.getElem?_set]
  split
  next heq =>
    subst heq
    split <;> simp
  next hne => simp [Ne.symm hne]

/-! ### What the steps keep -/

/-- A task that is resolved at once, without a connection. -/
theorem inv_append (hs : Inv s) {answer : Answer C} (hnone : connection? (some answer) = none) :
    Inv { s with tasks := s.tasks ++ [some answer] } := by
  refine ⟨?_, fun task => ?_, fun task hwaits later got hlt hget => ?_, hs.nothingDelayed,
    hs.placed, hs.disposed⟩
  · rw [List.filterMap_append, List.filterMap_cons, hnone, List.filterMap_nil, List.append_nil]
    exact hs.ledger
  · rw [getElem?_append_some]
    exact hs.unresolved task
  · rcases getElem?_concat_cases hget with hget | ⟨-, rfl⟩
    · exact hs.last task hwaits later got hlt hget
    · exact hnone

/-- While the handle is open the close callback has not come to the tasks. -/
theorem waits_iff_of_uvServer (hs : Inv s) (hopen : s.uvServer = true) :
    Waits s task ↔ s.acceptTaskSource = some task := by
  refine ⟨?_, .inl⟩
  have hplaced := hs.placed
  rintro (h | h | h)
  · exact h
  · rw [h] at hplaced
    cases hopen.symm.trans hplaced.1
  · rw [h] at hplaced
    cases hopen.symm.trans hplaced.1

theorem placed_of_uvServer (hs : Inv s) (hopen : s.uvServer = true) :
    s.closing = .notDisposed ∨ s.closing = .reset := by
  have hplaced := hs.placed
  cases hclosing : s.closing <;> simp_all

theorem inv_accept (hs : Inv s) : Inv s.accept := by
  unfold Listener.accept
  split
  next => exact inv_append hs rfl
  next hserver =>
    have hopen : s.uvServer = true := by simpa using hserver
    split
    next => exact inv_append hs rfl
    next hsource =>
      have hnobody : ∀ task, ¬ Waits s task := by
        intro task hwaits
        rw [waits_iff_of_uvServer hs hopen] at hwaits
        rw [hwaits] at hsource
        exact hsource rfl
      split
      next stream delayed hdelayed =>
        refine ⟨?_, fun task => ?_, fun task h => absurd h (hnobody task),
          fun task h => absurd h (hnobody task), hs.placed, hs.disposed⟩
        · rw [← hs.ledger, hdelayed, List.filterMap_append]
          cases stream <;> simp [List.filterMap_cons]
        · rw [getElem?_append_some]
          exact hs.unresolved task
      next hdelayed =>
        have hwaits : ∀ task, Waits { s with
            acceptTaskSource := some s.tasks.length
            tasks := s.tasks ++ [none] } task ↔ task = s.tasks.length := by
          intro task
          refine ⟨?_, fun h => .inl (congrArg some h.symm)⟩
          rintro (h | h)
          · exact (Option.some.inj h).symm
          · exact absurd (.inr h) (hnobody task)
        refine ⟨?_, fun task => ?_, fun task h later got hlt hget => ?_, fun _ _ => hdelayed, ?_,
          hs.disposed⟩
        · rw [← hs.ledger, List.filterMap_append]
          simp
        · rw [hwaits]
          constructor
          · intro h
            rcases getElem?_concat_cases h with h | ⟨h, -⟩
            · exact absurd ((hs.unresolved task).1 h) (hnobody task)
            · exact h
          · rintro rfl
            exact List.getElem?_concat_length
        · rw [hwaits] at h
          obtain ⟨hlater, -⟩ := List.getElem?_eq_some_iff.1 hget
          rw [List.length_append, List.length_singleton] at hlater
          omega
        · rcases placed_of_uvServer hs hopen with h | h <;> rw [h] <;> exact hopen

/-- The next entry goes to the task that waits, or behind the other ones. -/
theorem inv_doAccept (hs : Inv s) (hopen : s.uvServer = true) (stream : Option C) :
    Inv ({ s with arrived := s.arrived ++ stream.toList }.doAccept stream) := by
  have hplaced := placed_of_uvServer hs hopen
  unfold Listener.doAccept
  split
  next task hsource =>
    have hwaits : Waits s task := .inl hsource
    have hnone := (hs.unresolved task).2 hwaits
    have hledger := hs.ledger
    rw [hs.nothingDelayed task hwaits, List.filterMap_nil, List.append_nil] at hledger
    have hnobody : ∀ other, ¬ Waits { s with
        acceptTaskSource := none
        tasks := s.tasks.set task (some (.resolved stream))
        arrived := s.arrived ++ stream.toList } other := by
      rintro other (h | h | h)
      · cases h
      · rcases hplaced with hclosing | hclosing <;> cases hclosing.symm.trans h
      · rcases hplaced with hclosing | hclosing <;> cases hclosing.symm.trans h
    refine ⟨?_, fun other => ?_, fun other h => absurd h (hnobody other),
      fun other h => absurd h (hnobody other), ?_, hs.disposed⟩
    · rw [hs.nothingDelayed task hwaits, List.filterMap_nil, List.append_nil, ← hledger]
      cases stream with
      | none => rw [filterMap_set_none hnone, Option.toList_none, List.append_nil]
      | some c => rw [filterMap_set_some hnone (hs.last task hwaits), Option.toList_some]
    · rw [getElem?_set_some]
      refine iff_of_false ?_ (hnobody other)
      rintro ⟨hne, hget⟩
      have hother := (hs.unresolved other).1 hget
      rw [waits_iff_of_uvServer hs hopen, hsource] at hother
      exact hne (Option.some.inj hother).symm
    · rcases hplaced with h | h <;> rw [h] <;> exact hopen
  next hsource =>
    have hnobody : ∀ task, ¬ Waits s task := by
      intro task h
      rw [waits_iff_of_uvServer hs hopen, hsource] at h
      cases h
    refine ⟨?_, hs.unresolved, hs.last, fun task h => absurd h (hnobody task), ?_,
      hs.disposed⟩
    · rw [List.filterMap_append, ← List.append_assoc, hs.ledger]
      cases stream <;> rfl
    · rcases hplaced with h | h <;> rw [h] <;> exact hopen

theorem inv_connectionCallback (hs : Inv s) (hopen : s.uvServer = true) (inbound : Inbound C) :
    Inv (s.connectionCallback inbound) := by
  cases inbound with
  | failed =>
      have h := inv_doAccept hs hopen none
      rw [Option.toList_none, List.append_nil] at h
      exact h
  | notAccepted => exact hs
  | accepted connection => exact inv_doAccept hs hopen (some connection)

/-- The close callback has moved on and the same tasks wait. -/
theorem Inv.of_waits (hs : Inv s) (htasks : s'.tasks = s.tasks)
    (hdelayed : s'.delayedConnections = s.delayedConnections) (harrived : s'.arrived = s.arrived)
    (hwaits : ∀ task, Waits s' task ↔ Waits s task) (hplaced : Placed s' s'.closing)
    (hdisposed : s'.closing ≠ .notDisposed → s'.isDisposed = true) : Inv s' := by
  refine ⟨?_, fun task => ?_, fun task h => ?_, fun task h => ?_, hplaced, hdisposed⟩
  · rw [htasks, hdelayed, harrived]
    exact hs.ledger
  · rw [htasks, hwaits]
    exact hs.unresolved task
  · rw [htasks]
    exact hs.last task ((hwaits task).1 h)
  · rw [hdelayed]
    exact hs.nothingDelayed task ((hwaits task).1 h)

theorem inv_dispose (hs : Inv s) : Inv s.dispose := by
  unfold Listener.dispose
  split
  next => exact hs
  next hnot =>
    have hclosing : s.closing = .notDisposed := by
      by_contra hne
      exact hnot (hs.disposed hne)
    have hplaced := hs.placed
    rw [hclosing] at hplaced
    refine hs.of_waits rfl rfl rfl (fun task => ?_) hplaced (fun _ => rfl)
    simp [Waits, hclosing]

theorem inv_close (hs : Inv s) (h : s.close = some s') : Inv s' := by
  have hplaced := hs.placed
  unfold Listener.close at h
  split at h
  next => cases h
  next hclosing =>
    obtain rfl := Option.some.inj h
    refine hs.of_waits rfl rfl rfl (fun task => ?_) rfl fun _ => hs.disposed (by simp [hclosing])
    simp [Waits, hclosing]
  next hclosing =>
    obtain rfl := Option.some.inj h
    rw [hclosing] at hplaced
    have hdisposed := hs.disposed (by simp [hclosing])
    cases hsource : s.acceptTaskSource with
    | none =>
        refine hs.of_waits rfl rfl rfl (fun task => ?_) ⟨hplaced, rfl⟩ (fun _ => hdisposed)
        simp [Waits, hclosing, hsource]
    | some task =>
        refine hs.of_waits rfl rfl rfl (fun task => ?_) ⟨hplaced, by simp⟩ (fun _ => hdisposed)
        simp [Waits, hclosing, hsource]
  next hclosing =>
    obtain rfl := Option.some.inj h
    rw [hclosing] at hplaced
    refine hs.of_waits rfl rfl rfl (fun task => ?_) ⟨hplaced.1, rfl, hplaced.2⟩
      fun _ => hs.disposed (by simp [hclosing])
    simp [Waits, hclosing]
  next task hclosing =>
    obtain rfl := Option.some.inj h
    rw [hclosing] at hplaced
    refine hs.of_waits rfl rfl rfl (fun task => ?_) ⟨hplaced.1, rfl, hplaced.2.2⟩
      fun _ => hs.disposed (by simp [hclosing])
    simp [Waits, hclosing, hplaced.2.1]
  next task hclosing =>
    obtain rfl := Option.some.inj h
    rw [hclosing] at hplaced
    obtain ⟨hserver, hsource, hsome⟩ := hplaced
    obtain ⟨task, rfl⟩ := Option.ne_none_iff_exists'.1 hsome
    have hwaits : Waits s task := .inr (.inr hclosing)
    have hnone := (hs.unresolved task).2 hwaits
    have hnobody : ∀ other, ¬ Waits { s with
        tasks := s.tasks.set task (some (.resolved none))
        closing := .finished } other := by
      rintro other (h | h | h)
      · cases hsource.symm.trans h
      · cases h
      · cases h
    refine ⟨?_, fun other => ?_, fun other h => absurd h (hnobody other),
      fun other h => absurd h (hnobody other), ⟨hserver, hsource⟩,
      fun _ => hs.disposed (by simp [hclosing])⟩
    · rw [filterMap_set_none hnone]
      exact hs.ledger
    · rw [getElem?_set_some]
      refine iff_of_false ?_ (hnobody other)
      rintro ⟨hne, hget⟩
      have hother := (hs.unresolved other).1 hget
      simp [Waits, hclosing, hsource, Ne.symm hne] at hother
  next hclosing =>
    obtain rfl := Option.some.inj h
    rw [hclosing] at hplaced
    have hnobody : ∀ task, ¬ Waits s task := by simp [Waits, hclosing, hplaced.2]
    refine ⟨?_, fun task => ?_, fun task h => ?_, fun task h => ?_, hplaced,
      fun _ => hs.disposed (by simp [hclosing])⟩
    · rw [List.filterMap_append]
      simpa using hs.ledger
    · exact (hs.unresolved task).trans (iff_of_false (hnobody task) (by simp [Waits, hplaced.2]))
    · simp [Waits, hplaced.2] at h
    · simp [Waits, hplaced.2] at h
  next => cases h

theorem inv_start : Inv ({} : Listener C) :=
  ⟨rfl, by simp [Waits], by simp [Waits], fun _ _ => rfl, rfl, fun h => absurd rfl h⟩

theorem inv_step (hs : Inv s) {a : Action C} (h : step s a = some s') : Inv s' := by
  cases a with
  | connectionCallback inbound =>
      simp only [step] at h
      split at h
      next hopen =>
        obtain rfl := Option.some.inj h
        exact inv_connectionCallback hs hopen inbound
      next => cases h
  | accept =>
      obtain rfl := Option.some.inj h
      exact inv_accept hs
  | dispose =>
      obtain rfl := Option.some.inj h
      exact inv_dispose hs
  | close => exact inv_close hs h

/-- **Each connection goes to one `accept`, in the order of arrival**; nothing is delayed while a
task waits, and none waits behind the close callback. -/
theorem listener_runs (h : Steps step Free {} s) :
    s.tasks.filterMap connection? ++ s.delayedConnections.filterMap id = s.arrived ∧
      ((∃ task : ℕ, s.tasks[task]? = some none) → s.delayedConnections = []) ∧
      (s.closing = .finished → ∀ task : ℕ, s.tasks[task]? ≠ some none) := by
  have hs : Inv s := h.invariant (fun hs _ h => inv_step hs h) inv_start
  refine ⟨hs.ledger, ?_, fun hclosing task hnone => ?_⟩
  · rintro ⟨task, hnone⟩
    exact hs.nothingDelayed task ((hs.unresolved task).1 hnone)
  · have hplaced := hs.placed
    rw [hclosing] at hplaced
    have hwaits := (hs.unresolved task).1 hnone
    simp [Waits, hclosing, hplaced.2] at hwaits

end Steps

/-- Two connections, one to a task that waits, and a task that waits when the listener is closed. -/
def closed : List (Action ℕ) :=
  [.accept, .connectionCallback (.accepted 0), .connectionCallback (.accepted 1), .accept, .accept,
    .dispose, .close, .accept, .close, .close, .close, .close]

def closedEnd : Listener ℕ where
  uvServer := false
  isDisposed := true
  closing := .finished
  tasks := [some (.resolved (some 0)), some (.resolved (some 1)), some (.resolved none),
    some (.resolved none)]
  arrived := [0, 1]

theorem listener_runs_closed : closedEnd.tasks.filterMap connection? ++
    closedEnd.delayedConnections.filterMap id = [0, 1] ∧ closedEnd.tasks[3]? ≠ some none := by
  have hexec : exec step {} closed = some closedEnd := rfl
  have h := listener_runs (exec_steps (allowed_free closed _) hexec)
  exact ⟨h.1, h.2.2 rfl 3⟩

end MyEngine.Network.Listening
