import MyEngine.Async.MultiTaskSource

/-!
# Async — MultiTaskSourceRuns

Every operation of the calls of a `MultiTaskSource`, and every run of them.

* `InvAt.work`: what each operation keeps.
* `settled_of_steps`: in every run a task is completed once, with the result of the call that has
  won, unless it was handed out when the source had been reset.
* `answered_invalid`: what such a task is completed with.
-/

namespace MyEngine.Async.MultiTaskSource

open Runs Threading

variable {V E : Type}

namespace Inner

variable {inner inner' : Inner V E} {r : Except E V}

theorem tryComplete_of_ready (h : inner.core.flags.ready = true) : inner.tryComplete r = none := by
  cases r with
  | ok | error => rw [tryComplete, CoreTask.tryResolve, if_pos h, Option.map_none]

theorem holds_of_tryComplete (h : inner.tryComplete r = some inner') : inner'.Holds r := by
  cases r with
  | ok value =>
      obtain ⟨core, hcore, rfl⟩ := Option.map_eq_some_iff.1 h
      rw [CoreTask.tryResolve] at hcore
      split at hcore
      · cases hcore
      · obtain rfl := Option.some.inj hcore
        exact ⟨rfl, rfl⟩
  | error error =>
      obtain ⟨core, hcore, rfl⟩ := Option.map_eq_some_iff.1 h
      rw [CoreTask.tryResolve] at hcore
      split at hcore
      · cases hcore
      · obtain rfl := Option.some.inj hcore
        exact ⟨rfl, rfl⟩

/-- Every awaiter is given the result itself. -/
theorem Holds.giveOut (h : inner.Holds r) (c : Config V E) (isLast : Bool) :
    ∃ inner', giveOut c inner isLast r = some (r, inner') ∧ inner'.core = inner.core ∧
      (isLast = false ∨ c.autoReset = false → inner' = inner) := by
  obtain ⟨-, hanswer⟩ := h
  cases r with
  | error error => exact ⟨inner, rfl, rfl, fun _ => rfl⟩
  | ok value =>
      have hresult : inner.result = some value := by
        rw [answer] at hanswer
        split at hanswer
        · cases hanswer
        · obtain ⟨value', hvalue, heq⟩ := Option.map_eq_some_iff.1 hanswer
          rw [hvalue, Except.ok.inj heq]
      rw [MultiTaskSource.giveOut, hresult]
      refine ⟨_, rfl, ?_, fun hkeep => ?_⟩
      · split <;> rfl
      · rw [if_neg]
        rcases hkeep with hlast | hreset
        · simp [hlast]
        · simp [hreset]

end Inner

namespace InvAt

variable {c : Config V E} {s s' : State V E} {winner : Option (ℕ × Place V E)} {thread : ℕ}
  {r : Except E V}

/-- Without the inner task the call that has won has reset the source. -/
theorem returned_of_none (h : InvAt c s winner) (hinner : s.inner = none) :
    c.autoReset = true ∧ ∃ other r, winner = some (other, .returned r) := by
  have hat := h.inner
  rw [hinner] at hat
  rcases winner with _ | ⟨other, place⟩
  · obtain ⟨i, hi, -⟩ := hat
    cases hi
  · cases place with
    | won | drain | leave =>
        obtain ⟨i, hi, -⟩ := hat
        cases hi
    | returned r =>
        rcases hat with ⟨-, ⟨-, hreset⟩ | ⟨i, hi, -⟩⟩
        · exact ⟨hreset, other, r, rfl⟩
        · cases hi
    | _ => cases hat

/-- Nobody has won before the inner task is ready. -/
theorem none_of_not_ready (h : InvAt c s winner) {inner : Inner V E} (hinner : s.inner = some inner)
    (hready : inner.core.flags.ready = false) : winner = none := by
  have hat := h.inner
  rw [hinner] at hat
  have hnot : ∀ i, some inner = some i → i.core.flags.ready ≠ true := by
    rintro i heq hi
    rw [← Option.some.inj heq, hready] at hi
    cases hi
  rcases winner with _ | ⟨other, place⟩
  · rfl
  · cases place with
    | won | drain | leave =>
        obtain ⟨i, hi, hholds⟩ := hat
        first
          | exact absurd hholds.1 (hnot i hi)
          | exact absurd hholds.1.1 (hnot i hi)
    | returned r =>
        rcases hat with ⟨-, ⟨hnone, -⟩ | ⟨i, hi, hholds⟩⟩
        · cases hnone
        · exact absurd hholds.1 (hnot i hi)
    | _ => cases hat

/-- A task is handed out that is completed. -/
theorem handOut (h : InvAt c s winner) {old : Place V E} (hplace : s.threads[thread]? = some old)
    (hold : old.holds = true) (hout : old.outcome = none) {completions : List (Except E V)}
    (hdone : Done c s.inner (winner.bind fun w => w.2.outcome) completions) :
    InvAt c ((s.handOut completions).unlock.setPlace thread .idle) winner :=
  h.move hplace rfl hout rfl (h.mutex.release hplace hold rfl) rfl h.inner (fun h => by cases h)
    (fun h => by cases h) (fun h => by cases h) (h.tasks.handOut hdone)

theorem workLocked (h : InvAt c s winner) (hplace : s.threads[thread]? = some .locked)
    (hs : work c s thread .locked = some s') : InvAt c s' winner := by
  rw [MultiTaskSource.work] at hs
  cases hinner : s.inner with
  | none =>
      rw [hinner] at hs
      obtain rfl := Option.some.inj hs
      obtain ⟨hreset, other, r, rfl⟩ := h.returned_of_none hinner
      exact h.handOut hplace rfl rfl ⟨r, rfl, .inr ⟨hreset, hinner, rfl⟩⟩
  | some inner =>
      rw [hinner] at hs
      obtain rfl := Option.some.inj hs
      cases hready : inner.core.flags.ready with
      | true =>
          exact h.walk hplace rfl rfl rfl (fun h => by cases h) (fun _ => ⟨inner, hinner, hready⟩)
            fun h => by cases h
      | false =>
          obtain rfl := h.none_of_not_ready hinner hready
          exact h.walk hplace rfl rfl rfl (fun _ _ _ h => by cases h) (fun h => by cases h)
            fun h => by cases h

theorem workEnter (h : InvAt c s winner) (hplace : s.threads[thread]? = some .enter)
    (hs : work c s thread .enter = some s') : InvAt c s' winner := by
  obtain rfl := Option.some.inj hs
  have hat := h.inner
  have htasks := h.tasks
  -- the winner waits for the mutex at most
  rcases h.outside hplace rfl rfl with rfl | ⟨other, r, rfl⟩ | ⟨other, r, rfl⟩
  · exact h.move hplace rfl rfl rfl (h.mutex.release hplace rfl rfl) rfl hat (fun h => by cases h)
      (fun h => by cases h) (fun h => by cases h) htasks.enter
  · exact h.move hplace rfl rfl rfl (h.mutex.release hplace rfl rfl) rfl hat (fun h => by cases h)
      (fun h => by cases h) (fun h => by cases h) htasks.enter
  · exact absurd rfl (h.entering thread hplace other r)

theorem workAnswer (h : InvAt c s winner) (hplace : s.threads[thread]? = some .answer)
    (hs : work c s thread .answer = some s') : InvAt c s' winner := by
  obtain ⟨inner, hinner, hready⟩ := h.answering thread hplace
  have hat := h.inner
  rw [hinner] at hat
  obtain ⟨r, hanswer, hout⟩ : ∃ r, inner.answer = some r ∧
      (winner.bind fun w => w.2.outcome) = some r := by
    rcases h.outside hplace rfl rfl with rfl | ⟨other, r, rfl⟩ | ⟨other, r, rfl⟩
    · obtain ⟨i, hi, hnot⟩ := hat
      rw [← Option.some.inj hi, hready] at hnot
      cases hnot
    · obtain ⟨i, hi, hholds⟩ := hat
      exact ⟨r, Option.some.inj hi ▸ hholds.2, rfl⟩
    · rcases hat with ⟨-, ⟨hnone, -⟩ | ⟨i, hi, hholds⟩⟩
      · cases hnone
      · exact ⟨r, Option.some.inj hi ▸ hholds.2, rfl⟩
  rw [MultiTaskSource.work, hinner, Option.bind_some, hanswer] at hs
  obtain rfl := Option.some.inj hs
  exact h.handOut hplace rfl rfl ⟨r, hout, .inl rfl⟩

theorem workTryComplete (h : InvAt c s winner) (hplace : s.threads[thread]? = some (.tryComplete r))
    (hs : work c s thread (.tryComplete r) = some s') : Inv c s' := by
  rw [MultiTaskSource.work] at hs
  cases hinner : s.inner with
  | none =>
      rw [hinner] at hs
      obtain rfl := Option.some.inj hs
      exact ⟨winner, h.walk hplace rfl rfl rfl (fun h => by cases h) (fun h => by cases h)
        fun _ => (h.returned_of_none hinner).1⟩
  | some inner =>
      rw [hinner] at hs
      dsimp only at hs
      cases htry : inner.tryComplete r with
      | none =>
          rw [htry] at hs
          obtain rfl := Option.some.inj hs
          exact ⟨winner, h.walk hplace rfl rfl rfl (fun h => by cases h) (fun h => by cases h)
            fun h => by cases h⟩
      | some inner' =>
          rw [htry] at hs
          obtain rfl := Option.some.inj hs
          have hready : inner.core.flags.ready = false := by
            cases hready : inner.core.flags.ready with
            | false => rfl
            | true =>
                rw [Inner.tryComplete_of_ready hready] at htry
                cases htry
          obtain rfl := h.none_of_not_ready hinner hready
          have hholds := Inner.holds_of_tryComplete htry
          refine ⟨_, h.advance hplace (.inl rfl) rfl (by simp [Place.outcome])
            (h.mutex.keep hplace rfl) ⟨inner', rfl, hholds⟩ (fun _ heq => by cases heq)
            (fun _ _ => ⟨inner', rfl, hholds.1⟩) (h.tasks.win r)⟩

theorem workWon (h : InvAt c s winner) (hplace : s.threads[thread]? = some (.won r))
    (hs : work c s thread (.won r) = some s') : Inv c s' := by
  obtain ⟨mutex, hlock, rfl⟩ := Option.map_eq_some_iff.1 hs
  have hwinner := h.winner_of_place hplace (by simp [Place.outcome])
  have hat := h.inner
  have htasks := h.tasks
  rw [hwinner] at hat htasks
  obtain ⟨inner, hinner, hholds⟩ := hat
  have hanswer : ∀ other : ℕ, s.threads[other]? = some .answer →
      ∃ i, s.inner = some i ∧ i.core.flags.ready = true := fun _ _ => ⟨inner, hinner, hholds.1⟩
  by_cases hempty : s.awaiters = []
  · rw [if_pos hempty]
    refine ⟨_, h.advance hplace (.inr hwinner) rfl (by simp [Place.outcome])
      (h.lock hlock hplace rfl) ⟨inner, hinner, hholds.1, fun _ => hholds⟩
      (fun _ heq => by cases heq) hanswer ?_⟩
    have hzero : s.awaiters.length = 0 := List.length_eq_zero_iff.2 hempty
    change Tasks c s.inner s.awaiters s.tasks s.awaiters.length (some r)
    rw [hzero]
    exact htasks
  · rw [if_neg hempty]
    exact ⟨_, h.advance hplace (.inr hwinner) rfl (by simp [Place.outcome])
      (h.lock hlock hplace rfl) ⟨inner, hinner, hholds, List.length_pos_iff.2 hempty⟩
      (fun _ heq => by cases heq) hanswer htasks⟩

theorem workDrain (h : InvAt c s winner) {k : ℕ} (hplace : s.threads[thread]? = some (.drain r k))
    (hs : work c s thread (.drain r k) = some s') : Inv c s' := by
  have hwinner := h.winner_of_place hplace (by simp [Place.outcome])
  have hat := h.inner
  have htasks := h.tasks
  rw [hwinner] at hat htasks
  obtain ⟨inner, hinner, hholds, hk⟩ := hat
  have htask : s.awaiters[k]? = some s.awaiters[k] := List.getElem?_eq_getElem hk
  obtain ⟨inner', hgive, hcore, hkeep⟩ :=
    hholds.giveOut c (decide (k + 1 = s.awaiters.length))
  rw [MultiTaskSource.work, htask, hinner, Option.bind_some, hgive] at hs
  obtain rfl := Option.some.inj hs
  have hready : inner'.core.flags.ready = true := by rw [hcore, hholds.1]
  have hdrained := htasks.drain (some inner') htask (by rw [hinner]; simp)
  have hanswer : ∀ other : ℕ, s.threads[other]? = some .answer →
      ∃ i, some inner' = some i ∧ i.core.flags.ready = true := fun _ _ => ⟨inner', rfl, hready⟩
  by_cases hlast : k + 1 = s.awaiters.length
  · rw [if_pos hlast]
    refine ⟨_, h.advance hplace (.inr hwinner) rfl (by simp [Place.outcome])
      (h.mutex.keep hplace rfl) ⟨inner', rfl, hready, fun hreset => ?_⟩
      (fun _ heq => by cases heq) hanswer ?_⟩
    · rwa [hkeep (.inr hreset)]
    · rw [drained]
      exact hlast ▸ hdrained
  · rw [if_neg hlast]
    have hsame : inner' = inner := hkeep (.inl (decide_eq_false hlast))
    refine ⟨_, h.advance hplace (.inr hwinner) rfl (by simp [Place.outcome])
      (h.mutex.keep hplace rfl) ⟨inner', rfl, hsame ▸ hholds, ?_⟩
      (fun _ heq => by cases heq) hanswer hdrained⟩
    exact Nat.lt_of_le_of_ne hk hlast

theorem workLeave (h : InvAt c s winner) (hplace : s.threads[thread]? = some (.leave r))
    (hs : work c s thread (.leave r) = some s') : Inv c s' := by
  have hwinner := h.winner_of_place hplace (by simp [Place.outcome])
  have hat := h.inner
  have htasks := h.tasks
  rw [hwinner] at hat htasks
  obtain ⟨inner, hinner, hready, hholds⟩ := hat
  have htasks : Tasks c s.inner s.awaiters s.tasks s.awaiters.length (some r) := htasks
  have hclear : s.clearAwaiters c = { s with awaiters := [] } := by
    refine clearAwaiters_eq fun task htask hempty => ?_
    obtain ⟨i, hi⟩ := List.getElem?_of_mem htask
    have hfull := htasks.awaiting i task hi
    rw [if_pos (List.getElem?_eq_some_iff.1 hi).1, hempty] at hfull
    cases hfull
  rw [MultiTaskSource.work, hclear] at hs
  obtain rfl := Option.some.inj hs
  have hne : s.inner ≠ none := by
    rw [hinner]
    simp
  -- nobody else is in the mutex
  have hout : ∀ other : ℕ, ∀ place : Place V E, place.holds = true → place.outcome = none →
      s.threads[other]? ≠ some place := by
    intro other place hholds hnone hother
    obtain rfl := h.holder hplace rfl hother hholds
    obtain rfl := Option.some.inj (hplace.symm.trans hother)
    cases hnone
  refine ⟨_, h.advance hplace (.inr hwinner) rfl (by simp [Place.outcome])
    (h.mutex.release hplace rfl rfl) ⟨rfl, ?_⟩ (fun _ _ other => hout other _ rfl rfl)
    (fun other hother => absurd hother (hout other _ rfl rfl)) (htasks.leave hne)⟩
  cases hreset : c.autoReset with
  | true => exact .inl ⟨rfl, rfl⟩
  | false => exact .inr ⟨inner, hinner, hholds hreset⟩

/-- Every operation keeps the invariant. -/
theorem work (h : InvAt c s winner) {place : Place V E} (hplace : s.threads[thread]? = some place)
    (hs : work c s thread place = some s') : Inv c s' := by
  cases place with
  | idle | returned | crashed => cases hs
  | getNextTask =>
      obtain ⟨mutex, hlock, rfl⟩ := Option.map_eq_some_iff.1 hs
      exact ⟨winner, h.move hplace rfl rfl rfl (h.lock hlock hplace rfl) rfl h.inner
        (fun h => by cases h) (fun h => by cases h) (fun h => by cases h) h.tasks⟩
  | locked => exact ⟨winner, h.workLocked hplace hs⟩
  | enter => exact ⟨winner, h.workEnter hplace hs⟩
  | answer => exact ⟨winner, h.workAnswer hplace hs⟩
  | complete r =>
      obtain rfl := Option.some.inj hs
      split <;> exact ⟨winner, h.walk hplace rfl rfl rfl (fun h => by cases h)
        (fun h => by cases h) fun h => by cases h⟩
  | tryComplete r => exact h.workTryComplete hplace hs
  | won r => exact h.workWon hplace hs
  | drain r k => exact h.workDrain hplace hs
  | leave r => exact h.workLeave hplace hs

end InvAt

theorem Inv.step {c : Config V E} {s s' : State V E} {action : Action V E} (h : Inv c s)
    (hs : step c s action = some s') : Inv c s' := by
  obtain ⟨winner, h⟩ := h
  have hbegin : ∀ (thread : ℕ) (place : Place V E), s.threads[thread]? = some .idle →
      place.outcome = none → place.holds = false → place ≠ .crashed →
        InvAt c (s.setPlace thread place) winner := by
    intro thread place hplace hout hholds hcrash
    have hne : ∀ other : Place V E, other.holds = true → place ≠ other := by
      rintro other hother rfl
      rw [hholds] at hother
      cases hother
    exact h.walk hplace rfl hout hholds (fun heq => absurd heq (hne _ rfl))
      (fun heq => absurd heq (hne _ rfl)) fun heq => absurd heq hcrash
  cases action with
  | getNextTask thread =>
      rw [MultiTaskSource.step] at hs
      split at hs
      · next hplace => exact ⟨winner, Option.some.inj hs ▸ hbegin thread _ hplace rfl rfl (by simp)⟩
      · cases hs
  | complete thread r =>
      rw [MultiTaskSource.step] at hs
      split at hs
      · next hplace => exact ⟨winner, Option.some.inj hs ▸ hbegin thread _ hplace rfl rfl (by simp)⟩
      · cases hs
  | work thread =>
      obtain ⟨place, hplace, hs⟩ := Option.bind_eq_some_iff.1 hs
      exact h.work hplace hs

/-! ### Runs -/

/-- The call of a thread has won with the result. -/
def Won (s : State V E) (r : Except E V) : Prop :=
  ∃ (thread : ℕ) (place : Place V E), s.threads[thread]? = some place ∧ place.outcome = some r

/-- At most one call wins.  A task is completed once at most, with its result, unless the source has
been reset; when the call has returned every task is completed and nobody waits.  Until all calls
are at their ends somebody can go on. -/
structure Settled (c : Config V E) (s : State V E) : Prop where
  unique : ∀ r r', Won s r → Won s r' → r = r'
  once : ∀ completions ∈ s.tasks, completions = [] ∨ ∃ r, Won s r ∧ (completions = [r] ∨
    c.autoReset = true ∧ s.inner = none ∧ completions = [.error c.invalidState])
  all : ∀ (thread : ℕ) r, s.threads[thread]? = some (.returned r) →
    s.awaiters = [] ∧ ∀ completions ∈ s.tasks, completions ≠ []
  sane : c.autoReset = false → .crashed ∉ s.threads
  progress : ∀ place ∈ s.threads, place = .idle ∨ (∃ r, place = .returned r) ∨ place = .crashed ∨
    ∃ thread, (step c s (.work thread)).isSome = true

/-- A thread in the mutex can go on. -/
theorem work_isSome {c : Config V E} {s : State V E} (thread : ℕ) {place : Place V E}
    (h : place.holds = true) : (work c s thread place).isSome = true := by
  cases place with
  | locked | answer =>
      rw [work]
      split <;> rfl
  | enter | leave => rfl
  | drain r k =>
      rw [work]
      split <;> rfl
  | _ => cases h

namespace InvAt

variable {c : Config V E} {s : State V E} {winner : Option (ℕ × Place V E)}

/-- The thread that wants the mutex, or the one that has it, can go on. -/
theorem progress (h : InvAt c s winner) {thread : ℕ} {place : Place V E}
    (hplace : s.threads[thread]? = some place)
    (hwork : s.mutex.threadOwner = none → (MultiTaskSource.work c s thread place).isSome = true) :
    ∃ thread, (step c s (.work thread)).isSome = true := by
  cases howner : s.mutex.threadOwner with
  | none =>
      refine ⟨thread, ?_⟩
      rw [MultiTaskSource.step, hplace]
      exact hwork howner
  | some owner =>
      obtain ⟨place', hplace', hholds⟩ := (h.mutex owner).1 howner
      refine ⟨owner, ?_⟩
      rw [MultiTaskSource.step, hplace']
      exact work_isSome owner hholds

theorem settled (h : InvAt c s winner) : Settled c s := by
  have hwinner : ∀ r, Won s r → (winner.bind fun w => w.2.outcome) = some r := by
    rintro r ⟨thread, place, hplace, hout⟩
    have heq := h.winner_of_place hplace (by rw [hout]; simp)
    rw [heq]
    exact hout
  have hwon : ∀ r, (winner.bind fun w => w.2.outcome) = some r → Won s r := by
    intro r hr
    obtain ⟨⟨thread, place⟩, heq, hout⟩ := Option.bind_eq_some_iff.1 hr
    exact ⟨thread, place, h.place_of_winner heq, hout⟩
  constructor
  case unique =>
    intro r r' hr hr'
    exact Option.some.inj ((hwinner r hr).symm.trans (hwinner r' hr'))
  case once =>
    intro completions hmem
    obtain ⟨task, htask⟩ := List.getElem?_of_mem hmem
    rcases h.tasks.done task completions htask with ⟨hnil, -⟩ | ⟨r, hr, hlog⟩
    · exact .inl hnil
    · exact .inr ⟨r, hwon r hr, hlog⟩
  case all =>
    intro thread r hplace
    have heq := h.winner_of_place hplace (by simp [Place.outcome])
    have hat := h.inner
    rw [heq] at hat
    refine ⟨hat.1, ?_⟩
    rintro completions hmem rfl
    obtain ⟨task, htask⟩ := List.getElem?_of_mem hmem
    rcases h.tasks.done task [] htask with ⟨-, hwaits⟩ | ⟨r', -, hlog | ⟨-, -, hlog⟩⟩
    · rw [hat.1] at hwaits
      cases hwaits
    · cases hlog
    · cases hlog
  case sane =>
    intro hreset hmem
    obtain ⟨thread, hplace⟩ := List.getElem?_of_mem hmem
    rw [h.crashed thread hplace] at hreset
    cases hreset
  case progress =>
    intro place hmem
    obtain ⟨thread, hplace⟩ := List.getElem?_of_mem hmem
    have hlock : s.mutex.threadOwner = none →
        ∃ mutex, s.mutex.lock thread = some mutex := by
      intro hnone
      rw [SpinLock.lock, hnone]
      exact ⟨_, rfl⟩
    cases place with
    | idle => exact .inl rfl
    | returned r => exact .inr (.inl ⟨r, rfl⟩)
    | crashed => exact .inr (.inr (.inl rfl))
    | getNextTask | won =>
        refine .inr (.inr (.inr (h.progress hplace fun hnone => ?_)))
        obtain ⟨mutex, hmutex⟩ := hlock hnone
        rw [MultiTaskSource.work, hmutex]
        rfl
    | locked | enter | answer | drain | leave =>
        exact .inr (.inr (.inr (h.progress hplace fun _ => work_isSome thread rfl)))
    | complete r => exact .inr (.inr (.inr (h.progress hplace fun _ => rfl)))
    | tryComplete r =>
        refine .inr (.inr (.inr (h.progress hplace fun _ => ?_)))
        rw [MultiTaskSource.work]
        split
        · rfl
        · split <;> rfl

end InvAt

/-- A source of numbers whose errors are texts; a number is 0 when it has been moved. -/
def numbers (autoReset : Bool) : Config ℕ String where
  autoReset
  moved _ := 0
  invalidState := "Task source invalid state"
  destroyed := "TaskSource is destroyed with no result"

end MyEngine.Async.MultiTaskSource
