import MyEngine.Async.TaskCoroutine

/-!
# Async — TaskCoroutineMoves

What one operation of a coroutine does, and what a coroutine still means at the place it has come
to, when `μ` is what the tasks end with.

* `Moves`: the moves that can follow a place, with what the coroutine saw.
* `Place.rest`: what is still to be executed, and what it ends with; `Moves.rest`: a move leaves
  the rest of it.
* `Place.bound`: how many operations are left; `Moves.bound`: a move leaves fewer.
-/

namespace MyEngine.Async.Coroutine

variable {X S V E L : Type} {makeError : String → E} {outcomes : Outcomes V E L}

/-! ### Tasks -/

/-- The error a result is. -/
def failure : Except E V → Option E
  | .ok _        => none
  | .error error => some error

/-- What a task ended with, or that it has not ended. -/
structure Task.Holds (t : Task X V E) (r : Option (Except E V)) : Prop where
  completions : t.completions = r.toList
  ready : t.isReady = r.isSome
  error : t.core.error = r.bind failure
  result : t.result = r.bind Except.toOption

namespace Task

variable {t : Task X V E} {r : Option (Except E V)}

theorem holds_new : ({} : Task X V E).Holds none := ⟨rfl, rfl, rfl, rfl⟩

/-- The first completion ends the task. -/
theorem Holds.complete (h : t.Holds none) (result : Except E V) :
    (t.complete result).Holds (some result) := by
  obtain ⟨hcompletions, hready, -, hresult⟩ := h
  rw [isReady] at hready
  cases result with
  | ok value =>
      simp only [Task.complete, resolve, CoreTask.tryResolve, hready]
      exact ⟨by rw [hcompletions]; rfl, rfl, rfl, rfl⟩
  | error error =>
      simp only [Task.complete, reject, CoreTask.tryResolve, hready]
      exact ⟨by rw [hcompletions]; rfl, rfl, rfl, hresult⟩

theorem Holds.asResult (h : t.Holds r) : t.asResult = r := by
  rw [Task.asResult, h.error, h.result]
  rcases r with _ | _ | _ <;> rfl

theorem Holds.error_iff (h : t.Holds r) {error : E} :
    t.core.error = some error ↔ r = some (.error error) := by
  rw [h.error]
  rcases r with _ | _ | _ <;> simp [failure]

theorem Holds.result_iff (h : t.Holds r) {value : V} :
    t.result = some value ↔ r = some (.ok value) := by
  rw [h.result]
  rcases r with _ | _ | _ <;> simp [Except.toOption]

/-- The task has not ended, or with `result`. -/
def Agrees (t : Task X V E) (result : Except E V) : Prop :=
  t.Holds none ∨ t.Holds (some result)

variable {result : Except E V}

theorem Agrees.of_ready (h : t.Agrees result) (hready : t.isReady = true) :
    t.Holds (some result) := by
  refine h.resolve_left fun hnone => ?_
  rw [hnone.ready] at hready
  cases hready

theorem Agrees.of_asResult {result' : Except E V} (h : t.Agrees result)
    (hr : t.asResult = some result') : result = result' := by
  rcases h with h | h
  · rw [h.asResult] at hr
    cases hr
  · rw [h.asResult] at hr
    exact Option.some.inj hr

theorem Agrees.of_error {error : E} (h : t.Agrees result) (he : t.core.error = some error) :
    result = .error error := by
  rcases h with h | h
  · cases h.error_iff.1 he
  · exact Option.some.inj (h.error_iff.1 he)

theorem Agrees.of_result {value : V} (h : t.Agrees result) (hv : t.result = some value) :
    result = .ok value := by
  rcases h with h | h
  · cases h.result_iff.1 hv
  · exact Option.some.inj (h.result_iff.1 hv)

/-- A source that is destroyed when the task has ended does nothing. -/
theorem Holds.abandon (h : t.Holds (some result)) :
    t.abandon makeError = t := by
  have hready : t.isReady = true := h.ready
  rw [Task.abandon, if_pos hready]

end Task

/-! ### The moves from a place -/

/-- A body that ends with `result` at once. -/
def Body.Ends (makeError : String → E) (outcomes : Outcomes V E L) {m : Nat}
    (body : Body S V E L m) (result : Except E V) : Prop :=
  ∀ env, body.eval makeError outcomes env = ([], result)

/-- The moves that can follow a place, one constructor for each way an operation can go; the
guards are what it saw. -/
inductive Moves (makeError : String → E) (outcomes : Outcomes V E L) (task : Nat → Task X V E) :
    Place S V E L → Move S V E L → Prop where
  | stmt {m : Nat} (s : S) (next : Body S V E L m) (tasks : Fin m → Nat) :
      Moves makeError outcomes task (.running (.stmt s next) tasks)
        (.goto [s] (.running next tasks))
  | ends {m : Nat} {body : Body S V E L m} {result : Except E V} (tasks : Fin m → Nat)
      (h : body.Ends makeError outcomes result) :
      Moves makeError outcomes task (.running body tasks) (.finish result)
  | call {k n m : Nat} (σ : Fin k ⊕ Fin n ≃ Fin m) (callee : Body S V E L k)
      (next : Body S V E L (n + 1)) (tasks : Fin m → Nat) :
      Moves makeError outcomes task (.running (.call σ callee next) tasks)
        (.call callee (fun i => tasks (σ (.inl i))) next fun i => tasks (σ (.inr i)))
  | source {m : Nat} (leaf : L) (next : Body S V E L (m + 1)) (tasks : Fin m → Nat) :
      Moves makeError outcomes task (.running (.source leaf next) tasks) (.source leaf next tasks)
  | ready {m : Nat} {i : Fin (m + 1)} (next : V → Body S V E L m) {tasks : Fin (m + 1) → Nat}
      {value : V} (herror : (task (tasks i)).core.error = none)
      (h : (task (tasks i)).result = some value) :
      Moves makeError outcomes task (.running (.awaitTask i next) tasks)
        (.goto [] (.running (next value) (i.removeNth tasks)))
  | suspending {m : Nat} {i : Fin (m + 1)} (next : V → Body S V E L m)
      {tasks : Fin (m + 1) → Nat}
      (h : (task (tasks i)).isReady = true → (task (tasks i)).core.error ≠ none) :
      Moves makeError outcomes task (.running (.awaitTask i next) tasks)
        (.goto [] (.suspending (tasks i) next (i.removeNth tasks)))
  | tried {m : Nat} {i : Fin m} (next : Except E V → Body S V E L m) {tasks : Fin m → Nat}
      {result : Except E V} (h : (task (tasks i)).asResult = some result) :
      Moves makeError outcomes task (.running (.awaitTry i next) tasks)
        (.goto [] (.running (next result) tasks))
  | trying {m : Nat} {i : Fin m} (next : Except E V → Body S V E L m) {tasks : Fin m → Nat}
      (h : (task (tasks i)).isReady = false) :
      Moves makeError outcomes task (.running (.awaitTry i next) tasks)
        (.goto [] (.registering (.tryTask (tasks i) next tasks)))
  | given {m : Nat} (value : V) (next : V → Body S V E L m) (tasks : Fin m → Nat) :
      Moves makeError outcomes task (.running (.awaitResult (.ok value) next) tasks)
        (.goto [] (.running (next value) tasks))
  | skipped {m : Nat} (leaf : L) (next : Body S V E L m) (tasks : Fin m → Nat) :
      Moves makeError outcomes task (.running (.awaitDelay 0 leaf next) tasks)
        (.goto [] (.running next tasks))
  | delayed {m : Nat} {delay : Nat} (hdelay : delay ≠ 0) (leaf : L) (next : Body S V E L m)
      (tasks : Fin m → Nat) :
      Moves makeError outcomes task (.running (.awaitDelay delay leaf next) tasks)
        (.goto [] (.delayed leaf next tasks))
  | rejected {m : Nat} {t : Nat} {error : E} (next : V → Body S V E L m) (tasks : Fin m → Nat)
      (h : (task t).core.error = some error) :
      Moves makeError outcomes task (.suspending t next tasks) (.finish (.error error))
  | registering {m : Nat} {t : Nat} (next : V → Body S V E L m) (tasks : Fin m → Nat)
      (h : (task t).isReady = true → (task t).core.error = none) :
      Moves makeError outcomes task (.suspending t next tasks)
        (.goto [] (.registering (.task t next tasks)))
  | resumed {m : Nat} {t : Nat} {value : V} (next : V → Body S V E L m) (tasks : Fin m → Nat)
      (herror : (task t).core.error = none) (h : (task t).result = some value) :
      Moves makeError outcomes task (.suspended (.task t next tasks))
        (.goto [] (.running (next value) tasks))
  | failed {m : Nat} {t : Nat} {error : E} (next : V → Body S V E L m) (tasks : Fin m → Nat)
      (h : (task t).core.error = some error) :
      Moves makeError outcomes task (.suspended (.task t next tasks)) (.fail error)
  | delivered {m : Nat} {t : Nat} {result : Except E V} (next : Except E V → Body S V E L m)
      (tasks : Fin m → Nat) (h : (task t).asResult = some result) :
      Moves makeError outcomes task (.suspended (.tryTask t next tasks))
        (.goto [] (.running (next result) tasks))
  | expired {m : Nat} {leaf : L} (next : Body S V E L m) (tasks : Fin m → Nat)
      (h : outcomes.timer leaf = none) :
      Moves makeError outcomes task (.delayed leaf next tasks) (.goto [] (.running next tasks))
  | cancelled {m : Nat} {leaf : L} {error : E} (next : Body S V E L m) (tasks : Fin m → Nat)
      (h : outcomes.timer leaf = some error) :
      Moves makeError outcomes task (.delayed leaf next tasks) (.fail error)

variable {task : Nat → Task X V E} {move : Move S V E L}

theorem Moves.of_next {m : Nat} {body : Body S V E L m} {tasks : Fin m → Nat}
    (h : body.next makeError task tasks = some move) :
    Moves makeError outcomes task (.running body tasks) move := by
  cases body with
  | stmt s next =>
      cases h
      exact .stmt s next tasks
  | returnValue | returnError | returnResult | yieldValue =>
      cases h
      exact .ends tasks fun _ => rfl
  | call σ callee next =>
      cases h
      exact .call σ callee next tasks
  | source leaf next =>
      cases h
      exact .source leaf next tasks
  | awaitTask i next =>
      rw [Body.next] at h
      split at h
      next hready =>
        obtain ⟨value, hvalue, rfl⟩ := Option.map_eq_some_iff.1 h
        exact .ready next (Option.isNone_iff_eq_none.1 hready.2) hvalue
      next hnot =>
        cases h
        refine .suspending next fun hready hnone => hnot ⟨hready, ?_⟩
        rw [hnone]
        rfl
  | awaitTry i next =>
      rw [Body.next] at h
      split at h
      next =>
        obtain ⟨result, hresult, rfl⟩ := Option.map_eq_some_iff.1 h
        exact .tried next hresult
      next hnot =>
        cases h
        exact .trying next (Bool.eq_false_iff.2 hnot)
  | awaitResult result next =>
      cases result with
      | ok value =>
          cases h
          exact .given value next tasks
      | error error =>
          cases h
          exact .ends tasks fun _ => rfl
  | awaitDelay delay leaf next =>
      rw [Body.next] at h
      split at h
      next hzero =>
        subst hzero
        cases h
        exact .skipped leaf next tasks
      next hdelay =>
        cases h
        exact .delayed hdelay leaf next tasks

theorem Moves.of_suspend {m : Nat} (t : Nat) (next : V → Body S V E L m) (tasks : Fin m → Nat) :
    Moves makeError outcomes task (.suspending t next tasks) (suspend task t next tasks) := by
  rw [suspend]
  split
  next error herror =>
    split at herror
    next => exact .rejected next tasks herror
    next => cases herror
  next hnone =>
    refine .registering next tasks fun hready => ?_
    rwa [if_pos hready] at hnone

theorem Moves.of_resume {a : Awaiter S V E L} (h : a.resume task = some move) :
    Moves makeError outcomes task (.suspended a) move := by
  cases a with
  | task t next tasks =>
      rw [Awaiter.resume] at h
      split at h
      next error herror =>
        cases h
        exact .failed next tasks herror
      next herror =>
        obtain ⟨value, hvalue, rfl⟩ := Option.map_eq_some_iff.1 h
        exact .resumed next tasks herror hvalue
  | tryTask t next tasks =>
      obtain ⟨result, hresult, rfl⟩ := Option.map_eq_some_iff.1 h
      exact .delivered next tasks hresult

theorem Moves.of_expire {m : Nat} (leaf : L) (next : Body S V E L m) (tasks : Fin m → Nat) :
    Moves makeError outcomes task (.delayed leaf next tasks)
      (expire (outcomes.timer leaf) next tasks) := by
  cases h : outcomes.timer leaf with
  | none => exact .expired next tasks h
  | some error => exact .cancelled next tasks h

/-- A body always has a next operation: what it awaits has ended with an error or a value. -/
theorem Body.next_ne_none {μ : Nat → Except E V} {m : Nat} (body : Body S V E L m)
    {tasks : Fin m → Nat} (htask : ∀ i, (task (tasks i)).Agrees (μ (tasks i))) :
    body.next makeError task tasks ≠ none := by
  cases body with
  | stmt | returnValue | returnError | returnResult | yieldValue | call | source =>
      exact Option.some_ne_none _
  | awaitTask i next =>
      rw [Body.next]
      split
      next hready =>
        have herror := Option.isNone_iff_eq_none.1 hready.2
        have hresult := ((htask i).of_ready hready.1).asResult
        rw [Task.asResult, herror] at hresult
        intro hnone
        rw [Option.map_eq_none_iff.1 hnone] at hresult
        cases hresult
      next => exact Option.some_ne_none _
  | awaitTry i next =>
      rw [Body.next]
      split
      next hready =>
        rw [((htask i).of_ready hready).asResult]
        exact Option.some_ne_none _
      next => exact Option.some_ne_none _
  | awaitResult result next =>
      cases result with
      | ok value => exact Option.some_ne_none _
      | error error => exact Option.some_ne_none _
  | awaitDelay delay leaf next =>
      rw [Body.next]
      split
      next => exact Option.some_ne_none _
      next => exact Option.some_ne_none _

/-- A continuation that is called finds the task it waited for. -/
theorem Awaiter.resume_ne_none {a : Awaiter S V E L} {result : Except E V}
    (h : (task a.awaited).Holds (some result)) : a.resume task ≠ none := by
  have hresult := h.asResult
  cases a with
  | task t next tasks =>
      rw [Awaiter.resume]
      rw [Task.asResult] at hresult
      split
      next => exact Option.some_ne_none _
      next herror =>
        rw [Awaiter.awaited, herror] at hresult
        intro hnone
        rw [Option.map_eq_none_iff.1 hnone] at hresult
        cases hresult
  | tryTask t next tasks =>
      rw [Awaiter.resume]
      rw [Awaiter.awaited] at hresult
      rw [hresult]
      exact Option.some_ne_none _

/-! ### What is left to be executed -/

section
variable (makeError outcomes) (μ : Nat → Except E V)

def Awaiter.rest : Awaiter S V E L → List S × Except E V
  | .task t next tasks    =>
      after (μ t) fun value => (next value).eval makeError outcomes (μ ∘ tasks)
  | .tryTask t next tasks => (next (μ t)).eval makeError outcomes (μ ∘ tasks)

/-- What is executed from a place on, and what it ends with; `result` is what the coroutine has
ended with. -/
def Place.rest (result : Except E V) : Place S V E L → List S × Except E V
  | .running body tasks         => body.eval makeError outcomes (μ ∘ tasks)
  | .suspending t next tasks    => Awaiter.rest makeError outcomes μ (.task t next tasks)
  | .registering a | .suspended a => a.rest makeError outcomes μ
  | .delayed leaf next tasks    =>
      match outcomes.timer leaf with
      | none       => next.eval makeError outcomes (μ ∘ tasks)
      | some error => ([], .error error)
  | .leaving | .destroyed       => ([], result)

/-- The same behind a move; what a callee ends with is what its body means. -/
def Move.rest (result : Except E V) : Move S V E L → List S × Except E V
  | .goto log place => (place.rest makeError outcomes μ result).map (log ++ ·) id
  | .finish result  => ([], result)
  | .fail error     => ([], .error error)
  | .call callee arguments next tasks =>
      next.eval makeError outcomes
        (Fin.cons (callee.eval makeError outcomes (μ ∘ arguments)).2 (μ ∘ tasks))
  | .source leaf next tasks =>
      next.eval makeError outcomes (Fin.cons (outcomes.source leaf) (μ ∘ tasks))

end

/-- The tasks a place has at hand. -/
def Awaiter.Has : Awaiter S V E L → Nat → Prop
  | .task t _ tasks, u    => u = t ∨ ∃ i, tasks i = u
  | .tryTask t _ tasks, u => u = t ∨ ∃ i, tasks i = u

def Place.Has : Place S V E L → Nat → Prop
  | .running _ tasks, u | .delayed _ _ tasks, u => ∃ i, tasks i = u
  | .suspending t _ tasks, u => u = t ∨ ∃ i, tasks i = u
  | .registering a, u | .suspended a, u => a.Has u
  | .leaving, _ | .destroyed, _ => False

variable {μ : Nat → Except E V} {place : Place S V E L}

/-- A move leaves the rest: what is executed, and what the coroutine ends with. -/
theorem Moves.rest (h : Moves makeError outcomes task place move)
    (htask : ∀ u, place.Has u → (task u).Agrees (μ u)) (result : Except E V) :
    move.rest makeError outcomes μ result = place.rest makeError outcomes μ result := by
  cases h with
  | stmt | call | source | suspending | trying | given | skipped | registering => rfl
  | ends tasks h => exact (h _).symm
  | @ready _ i next tasks value _ hvalue =>
      have hμ := (htask (tasks i) ⟨i, rfl⟩).of_result hvalue
      change _ = after (μ (tasks i)) _
      rw [hμ]
      rfl
  | @tried _ i next tasks result hresult =>
      have hμ := (htask (tasks i) ⟨i, rfl⟩).of_asResult hresult
      subst hμ
      rfl
  | @delayed m delay hdelay leaf next tasks =>
      simp only [Move.rest, Place.rest, Body.eval, if_neg hdelay]
      rfl
  | rejected next tasks herror =>
      have hμ := (htask _ (.inl rfl)).of_error herror
      simp only [Move.rest, Place.rest, Awaiter.rest, hμ, after]
  | resumed next tasks _ hvalue =>
      have hμ := (htask _ (.inl rfl)).of_result hvalue
      simp only [Place.rest, Awaiter.rest, hμ, after]
      rfl
  | failed next tasks herror =>
      have hμ := (htask _ (.inl rfl)).of_error herror
      simp only [Move.rest, Place.rest, Awaiter.rest, hμ, after]
  | delivered next tasks hresult =>
      have hμ := (htask _ (.inl rfl)).of_asResult hresult
      subst hμ
      rfl
  | expired next tasks h =>
      simp only [Place.rest, h]
      rfl
  | cancelled next tasks h => simp only [Move.rest, Place.rest, h]

/-! ### How much is left -/

/-- The operations after what was awaited; a coroutine that ends there is still destroyed. -/
def boundAfter (awaited : Except E V) (next : V → Nat) : Nat :=
  match awaited with
  | .ok value => next value
  | .error _  => 1

section
variable (makeError outcomes)

/-- How many operations a coroutine and what it calls have left at most. -/
def Body.bound {m : Nat} : Body S V E L m → (Fin m → Except E V) → Nat
  | stmt _ next, env           => next.bound env + 1
  | returnValue _, _ | returnError _, _ | returnResult _, _ | yieldValue _, _ => 2
  | call σ callee next, env    =>
      let result := (callee.eval makeError outcomes fun i => env (σ (.inl i))).2
      (callee.bound fun i => env (σ (.inl i))) +
        next.bound (Fin.cons result fun i => env (σ (.inr i))) + 1
  | source leaf next, env      => next.bound (Fin.cons (outcomes.source leaf) env) + 2
  | awaitTask i next, env      =>
      boundAfter (env i) (fun value => (next value).bound (i.removeNth env)) + 4
  | awaitTry i next, env       => (next (env i)).bound env + 3
  | awaitResult result next, env =>
      boundAfter result (fun value => (next value).bound env) + 1
  | awaitDelay delay leaf next, env =>
      (match if delay = 0 then none else outcomes.timer leaf with
        | none   => next.bound env
        | some _ => 1) + 2

variable (μ : Nat → Except E V)

def Awaiter.bound : Awaiter S V E L → Nat
  | .task t next tasks    =>
      boundAfter (μ t) fun value => (next value).bound makeError outcomes (μ ∘ tasks)
  | .tryTask t next tasks => (next (μ t)).bound makeError outcomes (μ ∘ tasks)

def Place.bound : Place S V E L → Nat
  | .running body tasks      => body.bound makeError outcomes (μ ∘ tasks)
  | .suspending t next tasks => Awaiter.bound makeError outcomes μ (.task t next tasks) + 3
  | .registering a           => a.bound makeError outcomes μ + 2
  | .suspended a             => a.bound makeError outcomes μ + 1
  | .delayed leaf next tasks =>
      (match outcomes.timer leaf with
        | none   => next.bound makeError outcomes (μ ∘ tasks)
        | some _ => 1) + 1
  | .leaving                 => 1
  | .destroyed               => 0

def Move.bound : Move S V E L → Nat
  | .goto _ place => place.bound makeError outcomes μ
  | .finish _ | .fail _ => 1
  | .call callee arguments next tasks =>
      callee.bound makeError outcomes (μ ∘ arguments) + next.bound makeError outcomes
        (Fin.cons (callee.eval makeError outcomes (μ ∘ arguments)).2 (μ ∘ tasks))
  | .source leaf next tasks =>
      next.bound makeError outcomes (Fin.cons (outcomes.source leaf) (μ ∘ tasks)) + 1

end

/-- A coroutine that runs has its task to complete and its frame to be destroyed. -/
theorem Body.two_le_bound {m : Nat} (body : Body S V E L m) (env : Fin m → Except E V) :
    2 ≤ body.bound makeError outcomes env := by
  induction body with
  | stmt s next ih =>
      have := ih env
      rw [bound]
      omega
  | returnValue | returnError | returnResult | yieldValue => exact Nat.le_refl 2
  | call σ callee next _ ih =>
      rw [bound]
      exact Nat.le_succ_of_le (Nat.le_add_left_of_le (ih _))
  | source leaf next => exact Nat.le_add_left 2 _
  | awaitTask i next => exact Nat.le_add_left_of_le (Nat.le_of_ble_eq_true rfl)
  | awaitTry i next => exact Nat.le_add_left_of_le (Nat.le_of_ble_eq_true rfl)
  | awaitResult result next ih =>
      cases result with
      | ok value => exact Nat.le_succ_of_le (ih value env)
      | error error => exact Nat.le_refl 2
  | awaitDelay delay leaf next => exact Nat.le_add_left 2 _

/-- A move leaves fewer operations. -/
theorem Moves.bound (h : Moves makeError outcomes task place move)
    (htask : ∀ u, place.Has u → (task u).Agrees (μ u)) :
    move.bound makeError outcomes μ < place.bound makeError outcomes μ := by
  cases h with
  | stmt => exact Nat.lt_succ_self _
  | ends tasks => exact Body.two_le_bound _ _
  | call => exact Nat.lt_succ_self _
  | source => exact Nat.lt_succ_self _
  | suspending => exact Nat.lt_succ_self _
  | trying => exact Nat.lt_succ_self _
  | given => exact Nat.lt_succ_self _
  | registering => exact Nat.lt_succ_self _
  | skipped => exact Nat.lt_add_of_pos_right Nat.two_pos
  | @ready _ i next tasks value _ hvalue =>
      have hμ := (htask (tasks i) ⟨i, rfl⟩).of_result hvalue
      change _ < boundAfter (μ (tasks i)) _ + 4
      rw [hμ]
      exact Nat.lt_add_of_pos_right (by decide)
  | @tried _ i next tasks result hresult =>
      have hμ := (htask (tasks i) ⟨i, rfl⟩).of_asResult hresult
      subst hμ
      exact Nat.lt_add_of_pos_right (by decide)
  | @delayed m delay hdelay leaf next tasks =>
      simp only [Move.bound, Place.bound, Body.bound, if_neg hdelay]
      exact Nat.lt_succ_self _
  | rejected next tasks herror =>
      have hμ := (htask _ (.inl rfl)).of_error herror
      simp only [Move.bound, Place.bound, Awaiter.bound, hμ, boundAfter]
      decide
  | resumed next tasks _ hvalue =>
      have hμ := (htask _ (.inl rfl)).of_result hvalue
      simp only [Place.bound, Awaiter.bound, hμ, boundAfter]
      exact Nat.lt_succ_self _
  | failed next tasks herror =>
      have hμ := (htask _ (.inl rfl)).of_error herror
      simp only [Move.bound, Place.bound, Awaiter.bound, hμ, boundAfter]
      decide
  | delivered next tasks hresult =>
      have hμ := (htask _ (.inl rfl)).of_asResult hresult
      subst hμ
      exact Nat.lt_succ_self _
  | expired next tasks h =>
      simp only [Place.bound, h]
      exact Nat.lt_succ_self _
  | cancelled next tasks h =>
      simp only [Move.bound, Place.bound, h]
      decide

/-! ### The tasks of a coroutine -/

/-- No task is held twice. -/
def Awaiter.Distinct : Awaiter S V E L → Prop
  | .task _ _ tasks | .tryTask _ _ tasks => Function.Injective tasks

def Place.Distinct : Place S V E L → Prop
  | .running _ tasks | .delayed _ _ tasks | .suspending _ _ tasks => Function.Injective tasks
  | .registering a | .suspended a => a.Distinct
  | .leaving | .destroyed => True

/-- A move takes its tasks from the place: a callee is given some and the others stay. -/
def Move.Owns (place : Place S V E L) : Move S V E L → Prop
  | .goto _ place' => (∀ u, place'.Has u → place.Has u) ∧ place'.Distinct
  | .finish _ | .fail _ => True
  | .call _ arguments _ tasks =>
      (Function.Injective arguments ∧ Function.Injective tasks ∧ ∀ i j, arguments i ≠ tasks j) ∧
        (∀ i, place.Has (arguments i)) ∧ ∀ i, place.Has (tasks i)
  | .source _ _ tasks => Function.Injective tasks ∧ ∀ i, place.Has (tasks i)

theorem removeNth_injective {m : Nat} {i : Fin (m + 1)} {tasks : Fin (m + 1) → Nat}
    (h : Function.Injective tasks) : Function.Injective (i.removeNth tasks) :=
  h.comp Fin.succAbove_right_injective

theorem Moves.owns (h : Moves makeError outcomes task place move) (hd : place.Distinct) :
    move.Owns place := by
  cases h with
  | stmt | given | skipped | delayed | expired => exact ⟨fun _ hu => hu, hd⟩
  | ends | rejected | failed | cancelled => trivial
  | call σ callee next tasks =>
      refine ⟨⟨?_, ?_, fun i j he => ?_⟩, fun i => ⟨_, rfl⟩, fun i => ⟨_, rfl⟩⟩
      · exact hd.comp (σ.injective.comp Sum.inl_injective)
      · exact hd.comp (σ.injective.comp Sum.inr_injective)
      · cases σ.injective (hd he)
  | source => exact ⟨hd, fun i => ⟨i, rfl⟩⟩
  | ready => exact ⟨fun u ⟨j, hj⟩ => ⟨_, hj⟩, removeNth_injective hd⟩
  | suspending =>
      refine ⟨fun u hu => ?_, removeNth_injective hd⟩
      rcases hu with rfl | ⟨j, hj⟩
      · exact ⟨_, rfl⟩
      · exact ⟨_, hj⟩
  | tried => exact ⟨fun _ hu => hu, hd⟩
  | trying =>
      refine ⟨fun u hu => ?_, hd⟩
      rcases hu with rfl | hu
      · exact ⟨_, rfl⟩
      · exact hu
  | registering => exact ⟨fun _ hu => hu, hd⟩
  | resumed | delivered => exact ⟨fun _ hu => .inr hu, hd⟩

/-- What is known of the continuation of a task before it is set. -/
def Place.Unset (task : Nat → Task X V E) : Place S V E L → Prop
  | .suspending t _ _ => (task t).core.flags.hasContinuation = true →
      (task t).isReady = true ∧ (task t).core.error ≠ none
  | .registering a => (task a.awaited).core.flags.hasContinuation = false
  | _ => True

/-- A task that is not ready has a continuation only when a coroutine is suspended on it: the
hypothesis is for the tasks of a coroutine that runs. -/
theorem Moves.unset {log : List S} {place' : Place S V E L}
    (h : Moves makeError outcomes task place (.goto log place'))
    (hfree : ∀ {m : Nat} {body : Body S V E L m} {tasks : Fin m → Nat},
      place = .running body tasks → ∀ i, (task (tasks i)).isReady = false →
        (task (tasks i)).core.flags.hasContinuation = false)
    (hu : place.Unset task) : place'.Unset task := by
  cases h with
  | stmt | given | skipped | delayed | ready | tried | resumed | delivered | expired => trivial
  | @suspending _ i next tasks hseen =>
      intro hset
      cases hready : (task (tasks i)).isReady with
      | false => cases (hfree rfl i hready).symm.trans hset
      | true => exact ⟨rfl, hseen hready⟩
  | @trying _ i next tasks hready => exact hfree rfl i hready
  | @registering _ t next tasks hseen =>
      refine Bool.eq_false_iff.2 fun hset => ?_
      obtain ⟨hready, herror⟩ := hu hset
      exact herror (hseen hready)

/-- A coroutine comes to be suspended by `setContinuation` only. -/
theorem Moves.not_suspended {log : List S} {place' : Place S V E L}
    (h : Moves makeError outcomes task place (.goto log place')) (a : Awaiter S V E L) :
    place' ≠ .suspended a := by
  rintro rfl
  cases h

/-- A coroutine that is resumed sets no continuation before it comes to the next `co_await`. -/
theorem Moves.unset_of_suspended {log : List S} {a : Awaiter S V E L} {place' : Place S V E L}
    (h : Moves makeError outcomes task (.suspended a) (.goto log place'))
    (task' : Nat → Task X V E) : place'.Unset task' := by
  cases h with
  | resumed | delivered => trivial

end MyEngine.Async.Coroutine
