import MyEngine.Support.CondVar
import MyEngine.Support.Runs
import Mathlib.Data.List.Basic
import Mathlib.Data.Nat.Notation

/-!
# Threading — Barrier

`Barrier::enter` of `barrier.cpp` by any number of participants: the increment of `m_counter`
without the mutex, the notification by the last participant, and the wait of the others.

* `Place`: where a participant stands in `enter`.
* `step`: the participants, one access to shared state at a time.
* `State.Stuck`: everybody has come and the last has notified, and one that has no timeout waits.
* `Heard`: the last notifies when nobody is between the test of `m_counter` and the wait.
-/

namespace MyEngine.Threading.Barrier

open Runs CondVar

/-- Before the increment; behind it with the value it returned; with the mutex before the test of
the predicate, and behind it before the wait; in the wait; woken and without the mutex; timed out
and without it; with it before the last test of the predicate; and behind `enter`. -/
inductive Place where
  | outside
  | counted (counter : ℕ)
  | testing
  | entering
  | waiting
  | woken
  | expired
  | lastTest
  | returned (result : Bool)
  deriving DecidableEq, Repr

structure Participant where
  timeout : Option ℕ
  place : Place := .outside
  deriving DecidableEq, Repr

/-- `isNotified` remembers that the last participant is behind its `notify_all`. -/
structure State where
  total : ℕ
  counter : ℕ := 0
  participants : List Participant
  isNotified : Bool := false

inductive Action where
  | enter (participant : ℕ)
  | wake (participant : ℕ)
  | expire (participant : ℕ)

def initial (total : ℕ) (timeouts : List (Option ℕ)) : State where
  total := total
  participants := timeouts.map fun timeout => { timeout := timeout }

/-- The participant holds `m_mutex`. -/
def Participant.locks (p : Participant) : Bool :=
  match p.place with
  | .testing | .entering | .lastTest => true
  | _                                => false

def State.locked (s : State) : Bool := s.participants.any Participant.locks

def Participant.notified (p : Participant) : Participant :=
  match p.place with
  | .waiting => { p with place := .woken }
  | _        => p

def State.move (s : State) (i : ℕ) (p : Participant) (place : Place) : State :=
  { s with participants := s.participants.set i { p with place := place } }

def State.maxExpectedCounter (s : State) : ℕ := s.total - 1

/-- The predicate of the wait. -/
def State.isComplete (s : State) : Bool := s.counter == s.total

/-- What `enter` does next.  The increment has the assertion `counter < m_total` for its guard. -/
def stepEnter (s : State) (i : ℕ) (p : Participant) : Option State :=
  match p.place with
  | .outside =>
      if s.counter < s.total then
        some (State.move { s with counter := s.counter + 1 } i p (.counted s.counter))
      else none
  | .counted counter =>
      if counter = s.maxExpectedCounter then
        some (State.move
          { s with participants := s.participants.map .notified, isNotified := true } i p
          (.returned true))
      else if s.locked then none else some (s.move i p .testing)
  | .testing  => some (s.move i p (if s.isComplete then .returned true else .entering))
  | .entering => some (s.move i p .waiting)
  | .woken    => if s.locked then none else some (s.move i p .testing)
  | .expired  => if s.locked then none else some (s.move i p .lastTest)
  | .lastTest => some (s.move i p (.returned s.isComplete))
  | .waiting | .returned _ => none

/-- A participant goes on, its wait ends spuriously, or by its timeout. -/
def step (s : State) : Action → Option State
  | .enter i => s.participants[i]?.bind (stepEnter s i)
  | .wake i => s.participants[i]?.bind fun p =>
      if p.place = .waiting then some (s.move i p .woken) else none
  | .expire i => s.participants[i]?.bind fun p =>
      if p.place = .waiting ∧ p.timeout ≠ none then some (s.move i p .expired) else none

/-- Everybody has come, the last participant has notified, and one without timeout is blocked in
`m_signal.wait`. -/
structure State.Stuck (s : State) : Prop where
  complete : s.counter = s.total
  notified : s.isNotified = true
  waiting : { timeout := none, place := .waiting } ∈ s.participants

/-- The `notify_all` of the last participant finds nobody without timeout that has seen the counter
below `m_total` and does not wait yet. -/
def Heard (s : State) : Action → Prop
  | .enter i => ∀ p, s.participants[i]? = some p → p.place = .counted s.maxExpectedCounter →
      { timeout := none, place := .entering } ∉ s.participants
  | _        => True

instance (s : State) : DecidablePred (Heard s)
  | .enter i =>
      decidable_of_iff (∀ p ∈ s.participants[i]?, p.place = .counted s.maxExpectedCounter →
        { timeout := none, place := .entering } ∉ s.participants) Iff.rfl
  | .wake _ | .expire _ => inferInstanceAs (Decidable True)

/-! ### The condition variable -/

/-- A participant without timeout as a thread of `m_signal`. -/
def Participant.stage (p : Participant) : Stage :=
  match p.timeout, p.place with
  | none, .entering => .tested
  | none, .waiting  => .waiting
  | _, _            => .elsewhere

def State.stages (s : State) : List Stage := s.participants.map Participant.stage

variable {s s' : State}

theorem Participant.notified_stage (p : Participant) : p.notified.stage = p.stage.notified := by
  obtain ⟨timeout, place⟩ := p
  cases timeout <;> cases place <;> rfl

theorem Participant.stage_eq_tested {p : Participant} :
    p.stage = .tested ↔ p = { timeout := none, place := .entering } := by
  obtain ⟨timeout, place⟩ := p
  cases timeout <;> cases place <;> simp [stage]

theorem Participant.stage_eq_waiting {p : Participant} :
    p.stage = .waiting ↔ p = { timeout := none, place := .waiting } := by
  obtain ⟨timeout, place⟩ := p
  cases timeout <;> cases place <;> simp [stage]

theorem stages_notified (l : List Participant) :
    (l.map Participant.notified).map Participant.stage =
      (l.map Participant.stage).map Stage.notified := by
  rw [List.map_map, List.map_map]
  exact List.map_congr_left fun p _ => p.notified_stage

/-! ### What a step does -/

/-- One participant increments the counter, or the last notifies, or one goes on without either:
it goes to the wait from its test only, and behind its test only where that has failed. -/
inductive Shape (s : State) : Action → State → Prop where
  | increment {i : ℕ} {p : Participant} (hp : s.participants[i]? = some p)
      (hplace : p.place = .outside) (hlt : s.counter < s.total) :
      Shape s (.enter i) (State.move { s with counter := s.counter + 1 } i p (.counted s.counter))
  | notify {i : ℕ} {p : Participant} (hp : s.participants[i]? = some p)
      (hplace : p.place = .counted s.maxExpectedCounter) :
      Shape s (.enter i) (State.move
        { s with participants := s.participants.map .notified, isNotified := true } i p
        (.returned true))
  | move {a : Action} {i : ℕ} {p : Participant} {place : Place} (hp : s.participants[i]? = some p)
      (hcounted : ∀ counter, place ≠ .counted counter)
      (hentering : place = .entering → s.isComplete = false)
      (hwaiting : place = .waiting → p.place = .entering)
      (hlast : ∀ j, a = .enter j → i = j ∧ p.place ≠ .counted s.maxExpectedCounter) :
      Shape s a (s.move i p place)

theorem shape_of_step {a : Action} (hs : step s a = some s') : Shape s a s' := by
  cases a with
  | enter i =>
      rw [step] at hs
      obtain ⟨p, hp, hs⟩ := Option.bind_eq_some_iff.1 hs
      rw [stepEnter] at hs
      cases hplace : p.place with
      | outside =>
          rw [hplace] at hs
          dsimp only at hs
          split at hs
          case isTrue hlt =>
            obtain rfl := Option.some.inj hs
            exact .increment hp hplace hlt
          case isFalse => cases hs
      | counted counter =>
          rw [hplace] at hs
          dsimp only at hs
          split at hs
          case isTrue hlast =>
            obtain rfl := Option.some.inj hs
            exact .notify hp (by rw [hplace, hlast])
          case isFalse hlast =>
            split at hs
            · cases hs
            · obtain rfl := Option.some.inj hs
              exact .move hp (by simp) (by simp) (by simp) (by simp [hplace, hlast])
      | testing =>
          rw [hplace] at hs
          obtain rfl := Option.some.inj hs
          cases hc : s.isComplete with
          | true => exact .move hp (by simp) (by simp) (by simp) (by simp [hplace])
          | false => exact .move hp (by simp) (fun _ => hc) (by simp) (by simp [hplace])
      | entering =>
          rw [hplace] at hs
          obtain rfl := Option.some.inj hs
          exact .move hp (by simp) (by simp) (fun _ => hplace) (by simp [hplace])
      | woken | expired =>
          rw [hplace] at hs
          dsimp only at hs
          split at hs
          · cases hs
          · obtain rfl := Option.some.inj hs
            exact .move hp (by simp) (by simp) (by simp) (by simp [hplace])
      | lastTest =>
          rw [hplace] at hs
          obtain rfl := Option.some.inj hs
          exact .move hp (by simp) (by simp) (by simp) (by simp [hplace])
      | waiting | returned result =>
          rw [hplace] at hs
          cases hs
  | wake i | expire i =>
      rw [step] at hs
      obtain ⟨p, hp, hs⟩ := Option.bind_eq_some_iff.1 hs
      split at hs
      · obtain rfl := Option.some.inj hs
        exact .move hp (by simp) (by simp) (by simp) (by simp)
      · cases hs

/-- What is known of the counter: it is above what any participant got from it, and at `m_total`
when the last has notified. -/
structure Counted (s : State) : Prop where
  le : s.counter ≤ s.total
  lt : ∀ p ∈ s.participants, ∀ counter, p.place = .counted counter → counter < s.counter
  complete : s.isNotified = true → s.counter = s.total

theorem Participant.notified_counted {p : Participant} {counter : ℕ}
    (h : p.notified.place = .counted counter) : p.place = .counted counter := by
  obtain ⟨timeout, place⟩ := p
  cases place with
  | waiting => cases h
  | _ => exact h

namespace Counted

theorem init (total : ℕ) (timeouts : List (Option ℕ)) : Counted (initial total timeouts) where
  le := Nat.zero_le total
  lt p hp counter hplace := by
    obtain ⟨timeout, -, rfl⟩ := List.mem_map.1 hp
    cases hplace
  complete h := by cases h

theorem complete_of_counted (h : Counted s) {p : Participant} (hp : p ∈ s.participants)
    (hplace : p.place = .counted s.maxExpectedCounter) : s.counter = s.total := by
  have hle := h.le
  have hlt := h.lt p hp _ hplace
  rw [State.maxExpectedCounter] at hlt
  omega

theorem step {a : Action} (h : Counted s) (hs : step s a = some s') : Counted s' := by
  cases shape_of_step hs with
  | increment hp _ hlt =>
      refine ⟨hlt, fun q hq counter hplace => ?_, fun hn => ?_⟩
      · rcases List.mem_or_eq_of_mem_set hq with hq | rfl
        · exact Nat.lt_succ_of_lt (h.lt q hq counter hplace)
        · obtain rfl := Place.counted.inj hplace
          exact Nat.lt_succ_self _
      · exact absurd (h.complete hn) (Nat.ne_of_lt hlt)
  | notify hp hplace =>
      refine ⟨h.le, fun q hq counter hcounted => ?_, fun _ => ?_⟩
      · rcases List.mem_or_eq_of_mem_set hq with hq | rfl
        · obtain ⟨r, hr, rfl⟩ := List.mem_map.1 hq
          exact h.lt r hr counter (Participant.notified_counted hcounted)
        · cases hcounted
      · exact h.complete_of_counted (List.mem_of_getElem? hp) hplace
  | move hp hcounted =>
      refine ⟨h.le, fun q hq counter hplace => ?_, h.complete⟩
      rcases List.mem_or_eq_of_mem_set hq with hq | rfl
      · exact h.lt q hq counter hplace
      · exact absurd hplace (hcounted counter)

end Counted

/-! ### The notification of the last participant -/

/-- The last participant is elsewhere before its notification and behind it. -/
theorem stages_of_notify {i : ℕ} {p : Participant} (hp : s.participants[i]? = some p)
    (hplace : p.place = .counted s.maxExpectedCounter) :
    (State.move { s with participants := s.participants.map .notified, isNotified := true } i p
      (.returned true)).stages = s.stages.map Stage.notified := by
  rw [State.move, State.stages]
  dsimp only
  rw [List.map_set, stages_notified]
  refine List.ext_getElem? fun j => ?_
  rw [List.getElem?_set]
  split
  case isFalse => rfl
  case isTrue h =>
    obtain rfl := h
    rw [State.stages, List.getElem?_map, List.getElem?_map, hp]
    have hlt : i < s.participants.length := (List.getElem?_eq_some_iff.1 hp).1
    obtain ⟨timeout, place⟩ := p
    obtain rfl : place = _ := hplace
    cases timeout <;> simpa [Participant.stage, Stage.notified] using hlt

theorem move_of_step {a : Action} (hs : step s a = some s') :
    Move s.isComplete s.stages s'.stages := by
  cases shape_of_step hs with
  | @increment i p hp hplace hlt =>
      rw [State.stages, State.stages, State.move, List.map_set]
      refine .thread (x := p.stage) (by rw [List.getElem?_map, hp]; rfl) (fun hx => ?_)
        fun hx => ?_
      · cases (Participant.mk.inj (Participant.stage_eq_tested.1 hx)).2
      · cases (Participant.mk.inj (Participant.stage_eq_waiting.1 hx)).2
  | notify hp hplace =>
      rw [stages_of_notify hp hplace]
      exact .notify _
  | @move _ i p place hp hcounted hentering hwaiting hlast =>
      rw [State.stages, State.stages, State.move, List.map_set]
      refine .thread (x := p.stage) (by rw [List.getElem?_map, hp]; rfl) (fun hx => ?_)
        fun hx => ?_
      · exact hentering (Participant.mk.inj (Participant.stage_eq_tested.1 hx)).2
      · obtain ⟨htimeout, hplace⟩ := Participant.mk.inj (Participant.stage_eq_waiting.1 hx)
        refine Participant.stage_eq_tested.2 ?_
        rw [← htimeout, ← hwaiting hplace]

theorem entering_of_tested (h : .tested ∈ s.stages) :
    { timeout := none, place := .entering } ∈ s.participants := by
  obtain ⟨p, hp, hstage⟩ := List.mem_map.1 h
  obtain rfl := Participant.stage_eq_tested.1 hstage
  exact hp

theorem awake_step {a : Action} (h : Awake s.isNotified s.stages) (hc : Counted s)
    (ha : Heard s a) (hs : step s a = some s') : Awake s'.isNotified s'.stages := by
  have hset : s.isNotified = true → s.isComplete = true := fun hn => by
    rw [State.isComplete, hc.complete hn, beq_self_eq_true]
  have hmove := h.move hset (move_of_step hs)
  cases shape_of_step hs with
  | increment | move => exact hmove
  | notify hp hplace =>
      rw [stages_of_notify hp hplace]
      exact Awake.of_notify fun hm => ha _ hp hplace (entering_of_tested hm)

theorem not_stuck (h : Awake s.isNotified s.stages) : ¬ s.Stuck := fun hstuck =>
  h.not_waiting hstuck.notified (List.mem_map.2 ⟨_, hstuck.waiting, rfl⟩)

/-- The participant that the last one did not find waiting goes on into the wait. -/
theorem stuck_of_not_heard {a : Action} (h : Counted s) (hs : step s a = some s')
    (ha : ¬ Heard s a) : ∃ i s₂, step s' (.enter i) = some s₂ ∧ s₂.Stuck := by
  cases a with
  | enter i =>
      rw [Heard] at ha
      push Not at ha
      obtain ⟨p, hp, hplace, hentering⟩ := ha
      cases shape_of_step hs with
      | increment hq houtside =>
          cases hp.symm.trans hq
          cases hplace.symm.trans houtside
      | move hq _ _ _ hlast =>
          obtain ⟨rfl, hne⟩ := hlast i rfl
          cases hp.symm.trans hq
          exact absurd hplace hne
      | notify hq hlast =>
          cases hp.symm.trans hq
          obtain ⟨j, hj⟩ := List.mem_iff_getElem?.1 hentering
          have hne : i ≠ j := by
            rintro rfl
            cases hp.symm.trans hj
            cases hplace
          let q : Participant := { timeout := none, place := .entering }
          let s₁ : State := State.move
            { s with participants := s.participants.map .notified, isNotified := true } i p
            (.returned true)
          have hget : s₁.participants[j]? = some q := by
            change ((s.participants.map Participant.notified).set i _)[j]? = _
            rw [List.getElem?_set_ne hne, List.getElem?_map, hj]
            rfl
          refine ⟨j, s₁.move j q .waiting, ?_,
            h.complete_of_counted (List.mem_of_getElem? hp) hplace,
            rfl, ?_⟩
          · change step s₁ (.enter j) = _
            rw [step, hget]
            rfl
          · exact List.mem_set (List.getElem?_eq_some_iff.1 hget).1 _
  | wake | expire => exact absurd trivial ha

/-- Where the last participant notifies when nobody without timeout is on the way into the wait
nobody is stuck, and where it does not somebody is with the next step it takes. -/
theorem not_stuck_of_heard (total : ℕ) (timeouts : List (Option ℕ)) :
    (∀ s, Steps step Heard (initial total timeouts) s → ¬ s.Stuck) ∧
    ∀ s a s₁, Steps step Free (initial total timeouts) s → step s a = some s₁ → ¬ Heard s a →
      ∃ i s₂, step s₁ (.enter i) = some s₂ ∧ s₂.Stuck := by
  constructor
  · intro s h
    have hinv : Counted s ∧ Awake s.isNotified s.stages :=
      h.invariant (P := fun s => Counted s ∧ Awake s.isNotified s.stages)
        (fun ⟨hc, h⟩ ha hs => ⟨hc.step hs, awake_step h hc ha hs⟩)
        ⟨Counted.init _ _, Awake.of_not_told rfl⟩
    exact not_stuck hinv.2
  · intro s a s₁ h hs ha
    exact stuck_of_not_heard (h.invariant (fun h _ hs => h.step hs) (Counted.init _ _)) hs ha

/-- The first of two participants has found the counter at 1 when the second comes and notifies. -/
theorem participant_stuck : ∃ s, Steps step Free (initial 2 [none, none]) s ∧ s.Stuck := by
  obtain ⟨s, hs, hcounter, hnotified, hwaiting⟩ : ∃ s,
      exec step (initial 2 [none, none])
        [.enter 0, .enter 0, .enter 0, .enter 1, .enter 1, .enter 0] = some s ∧
      s.counter = s.total ∧ s.isNotified = true ∧
      s.participants = [⟨none, .waiting⟩, ⟨none, .returned true⟩] := ⟨_, rfl, rfl, rfl, rfl⟩
  exact ⟨s, exec_steps (allowed_free _ _) hs, hcounter, hnotified, by simp [hwaiting]⟩

/-- Of three participants one waits, one has a timeout and is at its test when the third comes. -/
theorem three_participants : ∃ s : State, s.participants =
    [⟨none, .returned true⟩, ⟨some 5, .returned true⟩, ⟨none, .returned true⟩] ∧ ¬ s.Stuck := by
  obtain ⟨s, hs, hheard, hp⟩ : ∃ s, exec step (initial 3 [none, some 5, none])
      ([.enter 0, .enter 0, .enter 0, .enter 0, .enter 1, .enter 1, .enter 1, .enter 2, .enter 2,
        .enter 1, .enter 0, .enter 0, .expire 1, .enter 1, .enter 1]) = some s ∧
      Allowed step Heard (initial 3 [none, some 5, none])
        ([.enter 0, .enter 0, .enter 0, .enter 0, .enter 1, .enter 1, .enter 1, .enter 2, .enter 2,
          .enter 1, .enter 0, .enter 0, .expire 1, .enter 1, .enter 1]) ∧
      s.participants =
        [⟨none, .returned true⟩, ⟨some 5, .returned true⟩, ⟨none, .returned true⟩] :=
    ⟨_, rfl, by decide, rfl⟩
  exact ⟨s, hp, (not_stuck_of_heard 3 _).1 s (exec_steps hheard hs)⟩

end MyEngine.Threading.Barrier
