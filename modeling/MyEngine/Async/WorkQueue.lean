import Mathlib.Data.List.ReduceOption
import MyEngine.Support.Runs

/-!
# Async — WorkQueue

`WorkQueueImpl` of `work_queue.cpp`: `scheduleInvocation`, `notify`, `waitForWork` and the calls of
`poll`, one after the other.  A section under `m_mutex` is one step, and so is each access to the
event and to `m_isNotified` outside of one.

* `Place`: where the running `poll` stands.
* `step`: the queue and the poll.
* `Kept`: no invocation is lost, run twice or overtaken.
* `Heeded`: `poll` does not reset the event over a notification.
-/

namespace MyEngine.Async.WorkQueue

open Runs

inductive ResetMode where
  | auto
  | manual
  deriving DecidableEq, Repr

/-- `Event` of `event.cpp`. -/
structure Event where
  mode : ResetMode
  state : Bool := false
  deriving DecidableEq, Repr

namespace Event

def set (e : Event) : Event := { e with state := true }

def reset (e : Event) : Event := { e with state := false }

/-- What `wait` leaves of a signaled event; there is no step while it is not signaled. -/
def wait (e : Event) : Option Event :=
  if e.state then
    match e.mode with
    | .auto   => some e.reset
    | .manual => some e
  else none

end Event

/-- `m_signal`: no task source, one whose task is waited for, one that is resolved. -/
inductive Signal where
  | null
  | pending
  | ready
  deriving DecidableEq, Repr

/-- `tryResolve` of the signal, if there is one. -/
def Signal.resolve : Signal → Signal
  | null            => null
  | pending | ready => ready

/-- Before `takeInvocations`, at the condition of the inner loop, in the wait, behind it, behind
the loop, before the invocation at an index, at `timeIsOut` and at `m_isNotified` of the outer
loop's condition, before each of the two stores of `scope_on_leave`. -/
inductive Place where
  | taking
  | testing
  | waiting
  | woken
  | behind
  | invoking (index : Nat)
  | looping
  | checking
  | resetting
  | leaving
  deriving DecidableEq, Repr

/-- A running `poll`: `invocations` is its local vector; an invocation that has run is a `none`. -/
structure Poll (ι : Type) where
  timeout : Option Int
  place : Place := .taking
  invocations : List (Option ι) := []
  deriving DecidableEq, Repr

structure State (ι : Type) where
  invocations : List ι := []
  signal : Signal := .pending
  isPolled : Bool := false
  isNotified : Bool := false
  event : Event := { mode := .manual }
  poll : Option (Poll ι) := none
  scheduled : List ι := []
  executed : List ι := []
  deriving DecidableEq, Repr

/-- `work` is a step of the running `poll`, where the milliseconds since its start are `elapsed`;
`expire` ends its wait at the timeout. -/
inductive Action (ι : Type) where
  | scheduleInvocation (invocation : ι)
  | notify
  | waitForWork
  | poll (timeout : Option Int)
  | work (elapsed : Int)
  | expire

variable {ι : Type}

def initial (ι : Type) : State ι := {}

def State.notifyInternal (s : State ι) : State ι :=
  { s with signal := s.signal.resolve, event := s.event.set }

def State.setPlace (s : State ι) (p : Poll ι) (place : Place) : State ι :=
  { s with poll := some { p with place := place } }

/-- The vector gets the invocations of the queue, also where there are none. -/
def takeInvocations (s : State ι) (p : Poll ι) : State ι :=
  { s with
    signal := if s.signal = .ready then .null else s.signal
    invocations := []
    event := s.event.reset
    poll := some { p with place := .testing, invocations := s.invocations.map some } }

/-- `timeout->count() < dt.count()`, and never without a timeout. -/
def Poll.timeIsOut (p : Poll ι) (elapsed : Int) : Bool :=
  match p.timeout with
  | none         => false
  | some timeout => timeout < elapsed

/-- Where the body of the inner loop goes: it leaves the loop when no time is left to wait. -/
def Poll.toWait (p : Poll ι) (elapsed : Int) : Place :=
  match p.timeout with
  | none         => .waiting
  | some timeout => if elapsed < timeout then .waiting else .behind

def stepPoll (s : State ι) (p : Poll ι) (elapsed : Int) : Option (State ι) :=
  match p.place with
  | .taking  => some (takeInvocations s p)
  | .testing => some (s.setPlace p (if p.invocations.isEmpty then p.toWait elapsed else .behind))
  | .waiting => s.event.wait.map fun event => State.setPlace { s with event := event } p .woken
  | .woken   => some (s.setPlace p (if s.isNotified then .behind else .taking))
  | .behind  => some (s.setPlace p (if p.invocations.isEmpty then .looping else .invoking 0))
  | .invoking index =>
      match p.invocations[index]? with
      | none      => some (s.setPlace p .looping)
      | some slot =>
          some (State.setPlace { s with executed := s.executed ++ slot.toList }
            { p with invocations := p.invocations.set index none } (.invoking (index + 1)))
  | .looping   => some (s.setPlace p (if p.timeIsOut elapsed then .resetting else .checking))
  | .checking  => some (s.setPlace p (if s.isNotified then .resetting else .taking))
  | .resetting => some (State.setPlace { s with isNotified := false } p .leaving)
  | .leaving   => some { s with isPolled := false, poll := none }

def step (s : State ι) : Action ι → Option (State ι)
  | .scheduleInvocation invocation =>
      some (State.notifyInternal { s with
        invocations := s.invocations ++ [invocation]
        scheduled := s.scheduled ++ [invocation] })
  | .notify => some (State.notifyInternal { s with isNotified := true })
  | .waitForWork =>
      if s.invocations.isEmpty && s.signal != .pending then some { s with signal := .pending }
      else some s
  | .poll timeout =>
      match s.poll with
      | none   => some { s with isPolled := true, poll := some { timeout := timeout } }
      | some _ => none
  | .work elapsed =>
      match s.poll with
      | none   => none
      | some p => stepPoll s p elapsed
  | .expire =>
      match s.poll with
      | none   => none
      | some p =>
          if p.place = .waiting ∧ p.timeout.isSome then some (s.setPlace p .woken) else none

/-! ### `Kept` -/

/-- The invocations the running `poll` has taken and not run. -/
def State.taken (s : State ι) : List ι :=
  match s.poll with
  | none   => []
  | some p => p.invocations.reduceOption

/-- What the vector holds at each place: nothing where `takeInvocations` writes over it or `poll`
leaves it. -/
def Poll.Spent (p : Poll ι) : Prop :=
  match p.place with
  | .testing | .behind => True
  | .waiting | .woken  => p.invocations = []
  | .invoking index    => (p.invocations.take index).reduceOption = []
  | _                  => p.invocations.reduceOption = []

structure Kept (s : State ι) : Prop where
  total : s.executed ++ s.taken ++ s.invocations = s.scheduled
  spent : ∀ p, s.poll = some p → p.Spent

/-- The slot at an index, between those before and those behind it. -/
theorem reduceOption_at {l : List (Option ι)} {i : Nat} {slot : Option ι} (h : l[i]? = some slot) :
    l.reduceOption = (l.take i).reduceOption ++ (slot.toList ++ (l.drop (i + 1)).reduceOption) := by
  obtain ⟨hi, rfl⟩ := List.getElem?_eq_some_iff.1 h
  conv_lhs => rw [← List.take_append_drop i l, List.drop_eq_getElem_cons hi]
  rw [List.reduceOption_append]
  cases l[i] with
  | none => rfl
  | some a => rfl

theorem reduceOption_map_some (l : List ι) : (l.map some).reduceOption = l := by
  induction l with
  | nil => rfl
  | cons a l ih => rw [List.map_cons, List.reduceOption_cons_of_some, ih]

namespace Kept

variable {s s' : State ι}

theorem init : Kept (initial ι) where
  total := rfl
  spent := fun _ hp => (nomatch hp)

/-- The poll moves and leaves the vector alone. -/
theorem setPlace (h : Kept s) {p : Poll ι} (hp : s.poll = some p) {place : Place}
    (hspent : Poll.Spent { p with place := place }) : Kept (s.setPlace p place) where
  total := by
    have := h.total
    rwa [State.taken, hp] at this
  spent q hq := by
    obtain rfl := Option.some.inj hq
    exact hspent

/-- A step that touches neither the queue nor the vector. -/
theorem congr (h : Kept s) (hinvocations : s'.invocations = s.invocations)
    (hpoll : s'.poll = s.poll) (hscheduled : s'.scheduled = s.scheduled)
    (hexecuted : s'.executed = s.executed) : Kept s' where
  total := by
    rw [State.taken, hpoll, hinvocations, hscheduled, hexecuted]
    exact h.total
  spent p hp := h.spent p (hpoll ▸ hp)

theorem takeInvocations (h : Kept s) {p : Poll ι} (hp : s.poll = some p)
    (hspent : p.invocations.reduceOption = []) : Kept (takeInvocations s p) where
  total := by
    have htotal := h.total
    rw [State.taken, hp] at htotal
    dsimp only at htotal
    rw [hspent, List.append_nil] at htotal
    dsimp only [WorkQueue.takeInvocations, State.taken]
    rw [reduceOption_map_some, List.append_nil, htotal]
  spent q hq := by
    obtain rfl := Option.some.inj hq
    trivial

/-- `invocation()` of the loop in `Executor::invoke`. -/
theorem invoke (h : Kept s) {p : Poll ι} (hp : s.poll = some p) {index : Nat}
    (hspent : (p.invocations.take index).reduceOption = []) {slot : Option ι}
    (hslot : p.invocations[index]? = some slot) :
    Kept (State.setPlace { s with executed := s.executed ++ slot.toList }
      { p with invocations := p.invocations.set index none } (.invoking (index + 1))) := by
  obtain ⟨hi, -⟩ := List.getElem?_eq_some_iff.1 hslot
  have hset : (p.invocations.set index none)[index]? = some none :=
    List.getElem?_set_self hi
  constructor
  · have htotal := h.total
    rw [State.taken, hp] at htotal
    dsimp only at htotal
    rw [reduceOption_at hslot, hspent, List.nil_append] at htotal
    dsimp only [State.setPlace, State.taken]
    rw [reduceOption_at hset, List.take_set_of_le (Nat.le_refl _), hspent,
      List.drop_set_of_lt (Nat.lt_succ_self _)]
    simpa only [List.append_assoc, List.nil_append, Option.toList_none] using htotal
  · intro q hq
    obtain rfl := Option.some.inj hq
    dsimp only [Poll.Spent]
    rw [List.take_add_one, hset, List.reduceOption_append, List.take_set_of_le (Nat.le_refl _),
      hspent]
    rfl

theorem stepPoll {p : Poll ι} {elapsed : Int} (h : Kept s) (hp : s.poll = some p)
    (hs : stepPoll s p elapsed = some s') : Kept s' := by
  have hspent := h.spent p hp
  rw [WorkQueue.stepPoll] at hs
  rw [Poll.Spent] at hspent
  cases hplace : p.place with
  | taking =>
      rw [hplace] at hs hspent
      obtain rfl := Option.some.inj hs
      exact h.takeInvocations hp hspent
  | testing =>
      rw [hplace] at hs
      obtain rfl := Option.some.inj hs
      -- the wait is come to with nothing taken only
      refine h.setPlace hp ?_
      split
      · next hempty =>
        rw [Poll.toWait]
        split
        · exact List.isEmpty_iff.1 hempty
        · split
          · exact List.isEmpty_iff.1 hempty
          · trivial
      · trivial
  | waiting =>
      rw [hplace] at hs hspent
      obtain ⟨event, -, rfl⟩ := Option.map_eq_some_iff.1 hs
      have h' : Kept { s with event := event } := h.congr rfl rfl rfl rfl
      exact h'.setPlace hp hspent
  | woken =>
      rw [hplace] at hs hspent
      obtain rfl := Option.some.inj hs
      refine h.setPlace hp ?_
      split
      · trivial
      · exact congrArg List.reduceOption hspent
  | behind =>
      rw [hplace] at hs
      obtain rfl := Option.some.inj hs
      refine h.setPlace hp ?_
      split
      · next hempty => exact congrArg List.reduceOption (List.isEmpty_iff.1 hempty)
      · rfl
  | invoking index =>
      rw [hplace] at hs hspent
      dsimp only at hs hspent
      cases hslot : p.invocations[index]? with
      | none =>
          -- the loop is through, and all slots are spent
          rw [hslot] at hs
          obtain rfl := Option.some.inj hs
          refine h.setPlace hp ?_
          rwa [List.take_of_length_le (List.getElem?_eq_none_iff.1 hslot)] at hspent
      | some slot =>
          rw [hslot] at hs
          obtain rfl := Option.some.inj hs
          exact h.invoke hp hspent hslot
  | looping | checking =>
      rw [hplace] at hs hspent
      obtain rfl := Option.some.inj hs
      refine h.setPlace hp ?_
      split <;> exact hspent
  | resetting =>
      rw [hplace] at hs hspent
      obtain rfl := Option.some.inj hs
      have h' : Kept { s with isNotified := false } := h.congr rfl rfl rfl rfl
      exact h'.setPlace hp hspent
  | leaving =>
      rw [hplace] at hs hspent
      obtain rfl := Option.some.inj hs
      -- what this `poll` has taken is spent, so nothing is lost with it
      refine ⟨?_, fun q hq => (nomatch hq)⟩
      have htotal := h.total
      rw [State.taken, hp] at htotal
      dsimp only at htotal
      rwa [hspent] at htotal

theorem step {a : Action ι} (h : Kept s) (hs : step s a = some s') : Kept s' := by
  cases a with
  | scheduleInvocation invocation =>
      obtain rfl := Option.some.inj hs
      refine ⟨?_, h.spent⟩
      calc s.executed ++ s.taken ++ (s.invocations ++ [invocation])
          = s.executed ++ s.taken ++ s.invocations ++ [invocation] :=
            (List.append_assoc _ _ _).symm
        _ = s.scheduled ++ [invocation] := by rw [h.total]
  | notify =>
      obtain rfl := Option.some.inj hs
      exact h.congr rfl rfl rfl rfl
  | waitForWork =>
      rw [WorkQueue.step] at hs
      split at hs
      · obtain rfl := Option.some.inj hs
        exact h.congr rfl rfl rfl rfl
      · obtain rfl := Option.some.inj hs
        exact h
  | poll timeout =>
      rw [WorkQueue.step] at hs
      cases hp : s.poll with
      | some p =>
          rw [hp] at hs
          cases hs
      | none =>
          rw [hp] at hs
          obtain rfl := Option.some.inj hs
          have htotal := h.total
          rw [State.taken, hp] at htotal
          refine ⟨htotal, fun q hq => ?_⟩
          obtain rfl := Option.some.inj hq
          rfl
  | work elapsed =>
      rw [WorkQueue.step] at hs
      cases hp : s.poll with
      | none =>
          rw [hp] at hs
          cases hs
      | some p =>
          rw [hp] at hs
          exact h.stepPoll hp hs
  | expire =>
      rw [WorkQueue.step] at hs
      cases hp : s.poll with
      | none =>
          rw [hp] at hs
          cases hs
      | some p =>
          rw [hp] at hs
          dsimp only at hs
          split at hs
          case isFalse => cases hs
          case isTrue hwaiting =>
            obtain rfl := Option.some.inj hs
            refine h.setPlace hp ?_
            have hspent := h.spent p hp
            rwa [Poll.Spent, hwaiting.1] at hspent

end Kept

variable {s : State ι}

theorem kept_of_steps (h : Steps step Free (initial ι) s) : Kept s :=
  h.invariant (fun h _ hs => h.step hs) .init

/-- What has run, what the running `poll` has taken and what is queued are the scheduled
invocations, in their order. -/
theorem invocations_in_order (h : Steps step Free (initial ι) s) :
    s.executed ++ s.taken ++ s.invocations = s.scheduled :=
  (kept_of_steps h).total

/-- Two runs of the queue with a `poll` in between. -/
theorem two_invocations_in_order :
    ∃ s : State Nat, s.scheduled = [0, 1] ∧ s.executed ++ s.taken ++ s.invocations = [0, 1] := by
  obtain ⟨s, hs, hscheduled⟩ : ∃ s, exec step (initial Nat) [.scheduleInvocation 0,
      .poll (some 0), .work 0, .work 0, .scheduleInvocation 1, .work 0, .work 0] = some s ∧
      s.scheduled = [0, 1] := ⟨_, rfl, rfl⟩
  exact ⟨s, hscheduled, hscheduled ▸ invocations_in_order (exec_steps (allowed_free _ _) hs)⟩

/-! ### `Heeded` -/

/-- A `poll` without timeout is in the wait and the event is not signaled. -/
def State.Blocked (s : State ι) : Prop :=
  ∃ p, s.poll = some p ∧ p.timeout = none ∧ p.place = .waiting ∧ s.event.state = false

/-- It is blocked although there is something to wake up for. -/
def State.LostWakeUp (s : State ι) : Prop :=
  s.Blocked ∧ (s.isNotified = true ∨ s.invocations ≠ [])

/-- `takeInvocations` of a `poll` without timeout, where it finds no invocation, finds no
notification either. -/
def Heeded (s : State ι) : Action ι → Prop
  | .work _ =>
      ∀ p ∈ s.poll, p.timeout = none → p.place = .taking → s.invocations = [] →
        s.isNotified = false
  | _ => True

instance : ∀ (s : State ι) (a : Action ι), Decidable (Heeded s a)
  | s, .work _ =>
      inferInstanceAs (Decidable (∀ p ∈ s.poll, p.timeout = none → p.place = .taking →
        s.invocations = [] → s.isNotified = false))
  | _, .scheduleInvocation _ | _, .notify | _, .waitForWork | _, .poll _ | _, .expire =>
      inferInstanceAs (Decidable True)

/-- The `poll` without timeout is in the wait, or what it has taken leads it there. -/
def Poll.AboutToWait (p : Poll ι) : Prop :=
  p.place = .testing ∧ p.invocations = [] ∨ p.place = .waiting

structure Awake (s : State ι) : Prop where
  manual : s.event.mode = .manual
  queued : s.invocations ≠ [] → s.event.state = true
  notified : ∀ p, s.poll = some p → p.timeout = none → p.AboutToWait → s.isNotified = true →
    s.event.state = true

namespace Awake

variable {s' : State ι}

theorem init : Awake (initial ι) where
  manual := rfl
  queued h := absurd rfl h
  notified _ hp := nomatch hp

/-- A section that ends with `notifyInternal`. -/
theorem signal (h : Awake s) (hevent : s'.event = s.event.set) : Awake s' where
  manual := by
    rw [hevent]
    exact h.manual
  queued _ := by
    rw [hevent]
    rfl
  notified _ _ _ _ _ := by
    rw [hevent]
    rfl

/-- The poll moves: when it has not been about to wait, it is not so now. -/
theorem setPlace (h : Awake s) {p : Poll ι} (hp : s.poll = some p) {place : Place}
    (hwait : p.timeout = none → Poll.AboutToWait { p with place := place } → p.AboutToWait) :
    Awake (s.setPlace p place) where
  manual := h.manual
  queued := h.queued
  notified q hq htimeout hq' hnotified := by
    obtain rfl := Option.some.inj hq
    exact h.notified p hp htimeout (hwait htimeout hq') hnotified

theorem congr (h : Awake s) (hevent : s'.event = s.event)
    (hinvocations : s'.invocations = s.invocations) (hpoll : s'.poll = s.poll)
    (hnotified : s'.isNotified = true → s.isNotified = true) : Awake s' where
  manual := hevent ▸ h.manual
  queued := hevent ▸ hinvocations ▸ h.queued
  notified p hp htimeout hp' hn := by
    rw [hevent]
    exact h.notified p (hpoll ▸ hp) htimeout hp' (hnotified hn)

theorem takeInvocations (h : Awake s) {p : Poll ι}
    (hheeded : p.timeout = none → s.invocations = [] → s.isNotified = false) :
    Awake (takeInvocations s p) where
  manual := h.manual
  queued hne := absurd rfl hne
  notified q hq htimeout hwait hnotified := by
    obtain rfl := Option.some.inj hq
    rcases hwait with ⟨-, hempty⟩ | hwaiting
    · have hfalse := hheeded htimeout (List.map_eq_nil_iff.1 hempty)
      exact absurd hnotified (ne_true_of_eq_false hfalse)
    · cases hwaiting

theorem wait {e e' : Event} (hmode : e.mode = .manual) (he : e.wait = some e') : e' = e := by
  rw [Event.wait, hmode] at he
  split at he
  · exact (Option.some.inj he).symm
  · cases he

theorem stepPoll {p : Poll ι} {elapsed : Int} (h : Awake s) (hp : s.poll = some p)
    (hheeded : Heeded s (.work elapsed)) (hs : stepPoll s p elapsed = some s') : Awake s' := by
  rw [WorkQueue.stepPoll] at hs
  cases hplace : p.place with
  | taking =>
      rw [hplace] at hs
      obtain rfl := Option.some.inj hs
      exact h.takeInvocations fun htimeout => hheeded p hp htimeout hplace
  | testing =>
      rw [hplace] at hs
      obtain rfl := Option.some.inj hs
      refine h.setPlace hp fun _ hwait => .inl ⟨hplace, ?_⟩
      rcases hwait with ⟨htesting, hempty⟩ | hwaiting
      · exact hempty
      · dsimp only at hwaiting
        split at hwaiting
        · next hempty => exact List.isEmpty_iff.1 hempty
        · cases hwaiting
  | waiting =>
      rw [hplace] at hs
      obtain ⟨event, hevent, rfl⟩ := Option.map_eq_some_iff.1 hs
      obtain rfl := wait h.manual hevent
      exact h.setPlace hp fun _ _ => .inr hplace
  | woken | behind | looping | checking =>
      rw [hplace] at hs
      obtain rfl := Option.some.inj hs
      refine h.setPlace hp fun _ hwait => ?_
      rcases hwait with ⟨hplace', -⟩ | hplace' <;> dsimp only at hplace' <;> split at hplace' <;>
        cases hplace'
  | invoking index =>
      rw [hplace] at hs
      dsimp only at hs
      cases hslot : p.invocations[index]? with
      | none =>
          rw [hslot] at hs
          obtain rfl := Option.some.inj hs
          refine h.setPlace hp fun _ hwait => ?_
          rcases hwait with ⟨hplace', -⟩ | hplace' <;> cases hplace'
      | some slot =>
          rw [hslot] at hs
          obtain rfl := Option.some.inj hs
          refine ⟨h.manual, h.queued, fun q hq _ hwait => ?_⟩
          obtain rfl := Option.some.inj hq
          rcases hwait with ⟨hplace', -⟩ | hplace' <;> cases hplace'
  | resetting =>
      rw [hplace] at hs
      obtain rfl := Option.some.inj hs
      exact ⟨h.manual, h.queued, fun _ _ _ _ hnotified => (nomatch hnotified)⟩
  | leaving =>
      rw [hplace] at hs
      obtain rfl := Option.some.inj hs
      exact ⟨h.manual, h.queued, fun _ hq => (nomatch hq)⟩

theorem step {a : Action ι} (h : Awake s) (hheeded : Heeded s a) (hs : step s a = some s') :
    Awake s' := by
  cases a with
  | scheduleInvocation invocation | notify =>
      obtain rfl := Option.some.inj hs
      exact h.signal rfl
  | waitForWork =>
      rw [WorkQueue.step] at hs
      split at hs
      · obtain rfl := Option.some.inj hs
        exact h.congr rfl rfl rfl id
      · obtain rfl := Option.some.inj hs
        exact h
  | poll timeout =>
      rw [WorkQueue.step] at hs
      cases hp : s.poll with
      | some p =>
          rw [hp] at hs
          cases hs
      | none =>
          rw [hp] at hs
          obtain rfl := Option.some.inj hs
          refine ⟨h.manual, h.queued, fun q hq _ hwait => ?_⟩
          obtain rfl := Option.some.inj hq
          rcases hwait with ⟨hplace, -⟩ | hplace <;> cases hplace
  | work elapsed =>
      rw [WorkQueue.step] at hs
      cases hp : s.poll with
      | none =>
          rw [hp] at hs
          cases hs
      | some p =>
          rw [hp] at hs
          exact h.stepPoll hp hheeded hs
  | expire =>
      rw [WorkQueue.step] at hs
      cases hp : s.poll with
      | none =>
          rw [hp] at hs
          cases hs
      | some p =>
          rw [hp] at hs
          dsimp only at hs
          split at hs
          case isFalse => cases hs
          case isTrue hwaiting =>
            obtain rfl := Option.some.inj hs
            exact h.setPlace hp fun _ _ => .inr hwaiting.1

theorem not_lostWakeUp (h : Awake s) : ¬ s.LostWakeUp := by
  rintro ⟨⟨p, hp, htimeout, hplace, hevent⟩, hnotified | hqueued⟩
  · exact ne_true_of_eq_false hevent (h.notified p hp htimeout (.inr hplace) hnotified)
  · exact ne_true_of_eq_false hevent (h.queued hqueued)

end Awake

/-- The `poll` that resets the event over a notification goes straight into the wait. -/
theorem lostWakeUp_of_not_heeded {s₁ : State ι} {a : Action ι} (hs : step s a = some s₁)
    (hheeded : ¬ Heeded s a) : ∃ s₂, step s₁ (.work 0) = some s₂ ∧ s₂.LostWakeUp := by
  cases a with
  | work elapsed =>
      rw [Heeded] at hheeded
      push Not at hheeded
      obtain ⟨p, hp, htimeout, hplace, hempty, hnotified⟩ := hheeded
      have hp' : s.poll = some p := hp
      rw [step, hp'] at hs
      dsimp only at hs
      rw [stepPoll, hplace] at hs
      obtain rfl := Option.some.inj hs
      refine ⟨_, rfl, ⟨_, rfl, htimeout, ?_, rfl⟩, .inl (eq_true_of_ne_false hnotified)⟩
      dsimp only
      rw [hempty, List.map_nil, List.isEmpty_nil, if_pos rfl, Poll.toWait]
      dsimp only
      rw [htimeout]
  | scheduleInvocation | notify | waitForWork | poll | expire => exact absurd trivial hheeded

/-- Where every reset heeds the notifications no wake-up is lost, and the first that does not
loses one in the next step of the `poll`. -/
theorem awake_of_heeded (h : Steps step Heeded (initial ι) s) :
    ¬ s.LostWakeUp ∧ ∀ a s₁, step s a = some s₁ → ¬ Heeded s a →
      ∃ s₂, step s₁ (.work 0) = some s₂ ∧ s₂.LostWakeUp :=
  ⟨(h.invariant (fun h hok hs => h.step hok hs) Awake.init).not_lostWakeUp,
    fun _ _ => lostWakeUp_of_not_heeded⟩

/-- A `poll` waits and runs an invocation, and the notification comes in between its test of
`m_isNotified` and its next `takeInvocations`. -/
def notifiedInBetween : List (Action Unit) :=
  [.poll none, .work 0, .work 0, .scheduleInvocation (), .work 0, .work 0, .work 0, .work 0,
    .work 0, .work 0, .work 0, .work 0, .work 0, .notify]

theorem notify_lost : ∃ s : State Unit, Steps step Free (initial Unit) s ∧ s.LostWakeUp := by
  obtain ⟨s, hs, hblocked, hnotified⟩ : ∃ s,
      exec step (initial Unit) (notifiedInBetween ++ [.work 0, .work 0]) = some s ∧
      s.Blocked ∧ s.isNotified = true := ⟨_, rfl, ⟨_, rfl, rfl, rfl, rfl⟩, rfl⟩
  exact ⟨s, exec_steps (allowed_free _ _) hs, hblocked, .inl hnotified⟩

theorem awake_in_between : ∃ s s₁ s₂ : State Unit, ¬ s.LostWakeUp ∧
    step s (.work 0) = some s₁ ∧ step s₁ (.work 0) = some s₂ ∧ s₂.LostWakeUp := by
  obtain ⟨s, hs, s₁, hs₁, hheeded⟩ : ∃ s, exec step (initial Unit) notifiedInBetween = some s ∧
      ∃ s₁, step s (.work 0) = some s₁ ∧ ¬ Heeded s (.work 0) := by
    refine ⟨_, rfl, _, rfl, ?_⟩
    decide
  have h := awake_of_heeded (exec_steps (by decide) hs)
  obtain ⟨s₂, hs₂, hlost⟩ := h.2 _ _ hs₁ hheeded
  exact ⟨s, s₁, s₂, h.1, hs₁, hs₂, hlost⟩

end MyEngine.Async.WorkQueue
