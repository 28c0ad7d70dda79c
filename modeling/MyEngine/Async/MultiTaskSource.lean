import MyEngine.Async.CoreTask
import MyEngine.Support.Replace
import MyEngine.Threading.SpinLock

/-!
# Async — MultiTaskSource

`multi_task_source.h`: tasks that are handed out by `getNextTask` and completed by the first
`resolve` or `reject`, with the threads by their numbers.

* `Place`: where a thread stands in one of the calls; what a thread does under `m_mutex` are steps
  of their own, for the inner task becomes ready outside of it.
* `State.tasks`: for each task handed out, what it has been completed with.
* `Inv`: a task waits in `m_awaiters` from where the winning call has got to, or has the result.
* `InvAt.move`, `InvAt.advance`: a step of a thread that has not won, and of the one that has.
-/

namespace MyEngine.Async.MultiTaskSource

open Runs Threading

/-! ### Calls -/

/-- The core task of the source with its `TaskClientData`. -/
structure Inner (V E : Type) where
  core : CoreTask Unit Unit Unit E := {}
  result : Option V := none
  deriving DecidableEq

/-- `autoReset` is `m_autoResetOnReady`, and `moved` what a move leaves of a value. -/
structure Config (V E : Type) where
  autoReset : Bool
  moved : V → V
  invalidState : E
  destroyed : E

/-- A call of `getNextTask`, of `resolve` with a value or of `reject` with an error: `locked`,
`enter` and `answer`, and `drain` and `leave` hold `m_mutex`. -/
inductive Place (V E : Type) where
  | idle
  | getNextTask
  | locked
  | enter
  | answer
  | complete (r : Except E V)
  | tryComplete (r : Except E V)
  | won (r : Except E V)
  | drain (r : Except E V) (i : ℕ)
  | leave (r : Except E V)
  | returned (r : Except E V)
  | crashed
  deriving DecidableEq

structure State (V E : Type) where
  inner : Option (Inner V E) := some {}
  awaiters : List ℕ := []
  mutex : SpinLock := {}
  tasks : List (List (Except E V)) := []
  threads : List (Place V E)
  deriving DecidableEq

inductive Action (V E : Type) where
  | getNextTask (thread : ℕ)
  | complete (thread : ℕ) (r : Except E V)
  | work (thread : ℕ)

section

variable {V E : Type}

namespace State

def setPlace (s : State V E) (thread : ℕ) (place : Place V E) : State V E :=
  { s with threads := s.threads.set thread place }

/-- A new task. -/
def handOut (s : State V E) (completions : List (Except E V)) : State V E :=
  { s with tasks := s.tasks ++ [completions] }

/-- `resolve` or `reject` of a `TaskSource`. -/
def completeTask (s : State V E) (task : ℕ) (r : Except E V) : State V E :=
  { s with tasks := s.tasks.modify task (· ++ [r]) }

def unlock (s : State V E) : State V E := { s with mutex := s.mutex.unlock }

/-- The destructor of a `TaskSource`, which rejects a task that is not ready. -/
def destroyAwaiter (c : Config V E) (s : State V E) (task : ℕ) : State V E :=
  if s.tasks[task]?.any List.isEmpty then s.completeTask task (.error c.destroyed) else s

/-- `m_awaiters.clear()`. -/
def clearAwaiters (c : Config V E) (s : State V E) : State V E :=
  { s.awaiters.foldl (destroyAwaiter c) s with awaiters := [] }

end State

namespace Inner

/-- `tryResolve` with a value, or `tryRejectWithError`. -/
def tryComplete (inner : Inner V E) : Except E V → Option (Inner V E)
  | .ok value    => (inner.core.tryResolve (some none)).map fun core => ⟨core, some value⟩
  | .error error => (inner.core.tryResolve (some (some error))).map fun core => ⟨core, inner.result⟩

/-- What `getNextTask` answers when the inner task is ready; a `MY_DEBUG_FATAL` asserts that there
is a value. -/
def answer (inner : Inner V E) : Option (Except E V) :=
  match inner.core.error with
  | some error => some (.error error)
  | none       => inner.result.map .ok

end Inner

/-- What the awaiter is completed with, and what is left of the value: `*data.result` is moved to
the last one if the source is reset then. -/
def giveOut (c : Config V E) (inner : Inner V E) (isLast : Bool) :
    Except E V → Option (Except E V × Inner V E)
  | .error error => some (.error error, inner)
  | .ok _        =>
      inner.result.map fun value =>
        (.ok value,
          if isLast && c.autoReset then { inner with result := some (c.moved value) } else inner)

/-- The next operation of a thread in a call. -/
def work (c : Config V E) (s : State V E) (thread : ℕ) : Place V E → Option (State V E)
  | .idle | .returned _ | .crashed => none
  | .getNextTask                   =>
      (s.mutex.lock thread).map fun mutex => { s with mutex }.setPlace thread .locked
  | .locked                        =>
      match s.inner with
      | none       => some ((s.handOut [.error c.invalidState]).unlock.setPlace thread .idle)
      | some inner =>
          some (s.setPlace thread (if inner.core.flags.ready then .answer else .enter))
  | .enter                         =>
      let s := { s with awaiters := s.awaiters ++ [s.tasks.length] }
      some ((s.handOut []).unlock.setPlace thread .idle)
  | .answer                        =>
      match s.inner.bind Inner.answer with
      | some r => some ((s.handOut [r]).unlock.setPlace thread .idle)
      | none   => some (s.setPlace thread .crashed)
  | .complete r                    =>
      some (s.setPlace thread (if s.inner.isSome then .tryComplete r else .idle))
  | .tryComplete r                 =>
      match s.inner with
      | none       => some (s.setPlace thread .crashed)
      | some inner =>
          match inner.tryComplete r with
          | none       => some (s.setPlace thread .idle)
          | some inner => some ({ s with inner := some inner }.setPlace thread (.won r))
  | .won r                         =>
      (s.mutex.lock thread).map fun mutex =>
        { s with mutex }.setPlace thread (if s.awaiters = [] then .leave r else .drain r 0)
  | .drain r i                     =>
      let isLast := i + 1 = s.awaiters.length
      match s.awaiters[i]?, s.inner.bind (giveOut c · isLast r) with
      | some task, some (r', inner) =>
          some ({ s with inner := some inner }.completeTask task r' |>.setPlace thread
            (if isLast then .leave r else .drain r (i + 1)))
      | _, _                        => some (s.setPlace thread .crashed)
  | .leave r                       =>
      let s := s.clearAwaiters c
      let s := { s with inner := if c.autoReset then none else s.inner }
      some (s.unlock.setPlace thread (.returned r))

def step (c : Config V E) (s : State V E) : Action V E → Option (State V E)
  | .getNextTask thread =>
      match s.threads[thread]? with
      | some .idle => some (s.setPlace thread .getNextTask)
      | _          => none
  | .complete thread r  =>
      match s.threads[thread]? with
      | some .idle => some (s.setPlace thread (.complete r))
      | _          => none
  | .work thread        => s.threads[thread]?.bind (work c s thread)

def initial (threads : ℕ) : State V E := { threads := .replicate threads .idle }

/-! ### The winning call -/

namespace Place

/-- The result that the call has won with. -/
def outcome : Place V E → Option (Except E V)
  | won r | drain r _ | leave r | returned r => some r
  | _                                        => none

def holds : Place V E → Bool
  | locked | enter | answer | drain _ _ | leave _ => true
  | _                                             => false

end Place

/-- `winner` is the thread whose call has won, with its place. -/
def Winner (threads : List (Place V E)) (winner : Option (ℕ × Place V E)) : Prop :=
  ∀ thread place, threads[thread]? = some place ∧ place.outcome ≠ none ↔
    winner = some (thread, place)

namespace Winner

variable {threads : List (Place V E)} {winner : Option (ℕ × Place V E)} {thread : ℕ}
  {old new : Place V E}

theorem replicate (n : ℕ) : Winner (.replicate n (.idle : Place V E)) none := by
  refine fun thread place => iff_of_false ?_ (by simp)
  rintro ⟨hplace, houtcome⟩
  obtain rfl := List.eq_of_mem_replicate (List.mem_of_getElem? hplace)
  exact houtcome rfl

/-- A thread that has not won moves on. -/
theorem other (h : Winner threads winner) (hplace : threads[thread]? = some old)
    (hold : old.outcome = none) (hnew : new.outcome = none) :
    Winner (threads.set thread new) winner := by
  intro t place
  rw [← h t place]
  by_cases ht : t = thread
  · subst ht
    rw [getElem?_replaced hplace, hplace]
    refine iff_of_false ?_ ?_
    · rintro ⟨heq, houtcome⟩
      exact houtcome (Option.some.inj heq ▸ hnew)
    · rintro ⟨heq, houtcome⟩
      exact houtcome (Option.some.inj heq ▸ hold)
  · rw [List.getElem?_set_ne (Ne.symm ht)]

/-- The one that has, or now has, moves on. -/
theorem advance (h : Winner threads winner) (hplace : threads[thread]? = some old)
    (hwinner : winner = none ∨ winner = some (thread, old)) (hnew : new.outcome ≠ none) :
    Winner (threads.set thread new) (some (thread, new)) := by
  intro t place
  rw [Option.some.injEq, Prod.mk.injEq]
  by_cases ht : t = thread
  · subst ht
    rw [getElem?_replaced hplace]
    constructor
    · exact fun heq => ⟨rfl, Option.some.inj heq.1⟩
    · rintro ⟨-, rfl⟩
      exact ⟨rfl, hnew⟩
  · rw [List.getElem?_set_ne (Ne.symm ht)]
    refine iff_of_false (fun hp => ?_) fun heq => ht heq.1.symm
    have heq := (h t place).1 hp
    rcases hwinner with rfl | rfl
    · cases heq
    · exact ht (congrArg Prod.fst (Option.some.inj heq)).symm

end Winner

/-- The inner task is ready with the result. -/
def Inner.Holds (inner : Inner V E) (r : Except E V) : Prop :=
  inner.core.flags.ready = true ∧ inner.answer = some r

/-- What the winning call, where there is one, has made of the inner task. -/
def InnerAt (c : Config V E) (inner : Option (Inner V E)) (awaiters : List ℕ) :
    Option (Place V E) → Prop
  | none               => ∃ i, inner = some i ∧ i.core.flags.ready = false
  | some (.won r)      => ∃ i, inner = some i ∧ i.Holds r
  | some (.drain r k)  => ∃ i, inner = some i ∧ i.Holds r ∧ k < awaiters.length
  | some (.leave r)    =>
      ∃ i, inner = some i ∧ i.core.flags.ready = true ∧ (c.autoReset = false → i.Holds r)
  | some (.returned r) =>
      awaiters = [] ∧ (inner = none ∧ c.autoReset = true ∨ ∃ i, inner = some i ∧ i.Holds r)
  | some _             => False

/-- How many awaiters it has completed. -/
def drained (awaiters : List ℕ) : Option (Place V E) → ℕ
  | some (.drain _ k) => k
  | some (.leave _)   => awaiters.length
  | _                 => 0

/-! ### The invariant -/

/-- A task that is completed: with the result, or it was handed out after the source was reset. -/
def Done (c : Config V E) (inner : Option (Inner V E)) (outcome : Option (Except E V))
    (completions : List (Except E V)) : Prop :=
  ∃ r, outcome = some r ∧ (completions = [r] ∨
    c.autoReset = true ∧ inner = none ∧ completions = [.error c.invalidState])

/-- Every task waits in `m_awaiters`, or is completed once; the first `k` awaiters are. -/
structure Tasks (c : Config V E) (inner : Option (Inner V E)) (awaiters : List ℕ)
    (tasks : List (List (Except E V))) (k : ℕ) (outcome : Option (Except E V)) : Prop where
  nodup : awaiters.Nodup
  awaiting : ∀ i task, awaiters[i]? = some task →
    tasks[task]? = some (if i < k then outcome.toList else [])
  done : ∀ task completions, tasks[task]? = some completions →
    completions = [] ∧ task ∈ awaiters ∨ Done c inner outcome completions

structure InvAt (c : Config V E) (s : State V E) (winner : Option (ℕ × Place V E)) : Prop where
  mutex : Owned s.mutex.threadOwner s.threads Place.holds
  alone : Winner s.threads winner
  inner : InnerAt c s.inner s.awaiters (winner.map Prod.snd)
  entering : ∀ thread : ℕ, s.threads[thread]? = some .enter →
    ∀ other r, winner ≠ some (other, .returned r)
  answering : ∀ thread : ℕ, s.threads[thread]? = some .answer →
    ∃ i, s.inner = some i ∧ i.core.flags.ready = true
  tasks : Tasks c s.inner s.awaiters s.tasks (drained s.awaiters (winner.map Prod.snd))
    (winner.bind fun w => w.2.outcome)
  crashed : ∀ thread : ℕ, s.threads[thread]? = some .crashed → c.autoReset = true

def Inv (c : Config V E) (s : State V E) : Prop := ∃ winner, InvAt c s winner

theorem Done.congr {c : Config V E} {inner inner' : Option (Inner V E)}
    {outcome : Option (Except E V)} {log : List (Except E V)} (h : Done c inner outcome log)
    (hinner : inner ≠ none) : Done c inner' outcome log := by
  obtain ⟨r, houtcome, hlog | ⟨-, hnone, -⟩⟩ := h
  · exact ⟨r, houtcome, .inl hlog⟩
  · exact absurd hnone hinner

namespace Tasks

variable {c : Config V E} {inner inner' : Option (Inner V E)} {awaiters : List ℕ}
  {tasks : List (List (Except E V))} {k : ℕ} {outcome : Option (Except E V)}

theorem init : Tasks c inner [] [] k outcome where
  nodup := List.nodup_nil
  awaiting _ _ h := by cases h
  done _ _ h := by cases h

/-- A task that is completed when it is handed out. -/
theorem handOut (h : Tasks c inner awaiters tasks k outcome) {completions : List (Except E V)}
    (hdone : Done c inner outcome completions) :
    Tasks c inner awaiters (tasks ++ [completions]) k outcome where
  nodup := h.nodup
  awaiting i task htask := by
    have hlog := h.awaiting i task htask
    rw [List.getElem?_append_left (List.getElem?_eq_some_iff.1 hlog).1, hlog]
  done task log hlog := by
    rcases Nat.lt_trichotomy task tasks.length with hlt | rfl | hgt
    · rw [List.getElem?_append_left hlt] at hlog
      exact h.done task log hlog
    · rw [List.getElem?_concat_length] at hlog
      exact .inr (Option.some.inj hlog ▸ hdone)
    · rw [List.getElem?_eq_none (by simp; omega)] at hlog
      cases hlog

/-- One that waits. -/
theorem enter (h : Tasks c inner awaiters tasks 0 outcome) :
    Tasks c inner (awaiters ++ [tasks.length]) (tasks ++ [[]]) 0 outcome where
  nodup := by
    refine List.nodup_append.2 ⟨h.nodup, List.nodup_singleton _, fun task htask other hother => ?_⟩
    obtain rfl := List.mem_singleton.1 hother
    obtain ⟨i, hi⟩ := List.getElem?_of_mem htask
    exact Nat.ne_of_lt (List.getElem?_eq_some_iff.1 (h.awaiting i task hi)).1
  awaiting i task htask := by
    rcases Nat.lt_trichotomy i awaiters.length with hlt | rfl | hgt
    · rw [List.getElem?_append_left hlt] at htask
      have hlog := h.awaiting i task htask
      rw [List.getElem?_append_left (List.getElem?_eq_some_iff.1 hlog).1, hlog]
    · rw [List.getElem?_concat_length] at htask
      rw [← Option.some.inj htask, List.getElem?_concat_length, if_neg (Nat.not_lt_zero _)]
    · rw [List.getElem?_eq_none (by simp; omega)] at htask
      cases htask
  done task log hlog := by
    rcases Nat.lt_trichotomy task tasks.length with hlt | rfl | hgt
    · rw [List.getElem?_append_left hlt] at hlog
      exact (h.done task log hlog).imp_left fun h => ⟨h.1, List.mem_append_left _ h.2⟩
    · rw [List.getElem?_concat_length] at hlog
      exact .inl ⟨(Option.some.inj hlog).symm, List.mem_append_right _ List.mem_cons_self⟩
    · rw [List.getElem?_eq_none (by simp; omega)] at hlog
      cases hlog

/-- The call that wins has completed nothing yet. -/
theorem win (h : Tasks c inner awaiters tasks 0 none) (r : Except E V) :
    Tasks c inner' awaiters tasks 0 (some r) where
  nodup := h.nodup
  awaiting i task htask := by
    rw [h.awaiting i task htask, if_neg (Nat.not_lt_zero i), if_neg (Nat.not_lt_zero i)]
  done task log hlog := by
    rcases h.done task log hlog with hwaits | ⟨r', houtcome, -⟩
    · exact .inl hwaits
    · cases houtcome

/-- The next awaiter is completed. -/
theorem drain {r : Except E V} (h : Tasks c inner awaiters tasks k (some r))
    (inner' : Option (Inner V E)) {task : ℕ}
    (htask : awaiters[k]? = some task) (hinner : inner ≠ none) :
    Tasks c inner' awaiters (tasks.modify task (· ++ [r])) (k + 1) (some r) := by
  have hwaits := h.awaiting k task htask
  rw [if_neg (Nat.lt_irrefl k)] at hwaits
  refine ⟨h.nodup, fun i other hother => ?_, fun other log hlog => ?_⟩
  · by_cases hi : i = k
    · subst hi
      obtain rfl := Option.some.inj (htask.symm.trans hother)
      rw [List.getElem?_modify_eq, hwaits, if_pos (Nat.lt_succ_self i)]
      rfl
    · have hne : task ≠ other := by
        rintro rfl
        exact hi ((List.getElem?_inj (List.getElem?_eq_some_iff.1 hother).1 h.nodup).1
          (hother.trans htask.symm))
      rw [List.getElem?_modify_ne _ _ hne, h.awaiting i other hother]
      rcases Nat.lt_or_gt_of_ne hi with hlt | hgt
      · rw [if_pos hlt, if_pos (Nat.lt_succ_of_lt hlt)]
      · rw [if_neg (Nat.not_lt_of_gt hgt), if_neg (Nat.not_lt_of_ge hgt)]
  · by_cases hother : task = other
    · subst hother
      rw [List.getElem?_modify_eq, hwaits] at hlog
      exact .inr ⟨r, rfl, .inl (Option.some.inj hlog).symm⟩
    · rw [List.getElem?_modify_ne _ _ hother] at hlog
      exact (h.done other log hlog).imp_right fun h => h.congr hinner

/-- The source is reset, or not, when all awaiters are completed. -/
theorem leave {r : Except E V} (h : Tasks c inner awaiters tasks awaiters.length (some r))
    (hinner : inner ≠ none) : Tasks c inner' [] tasks 0 (some r) where
  nodup := List.nodup_nil
  awaiting _ _ h := by cases h
  done task log hlog := by
    rcases h.done task log hlog with ⟨rfl, hmem⟩ | hdone
    · obtain ⟨i, hi⟩ := List.getElem?_of_mem hmem
      have hfull := h.awaiting i task hi
      rw [if_pos (List.getElem?_eq_some_iff.1 hi).1, hlog] at hfull
      cases hfull
    · exact .inr (hdone.congr hinner)

end Tasks

/-- Behind the last awaiter there is none left to be rejected. -/
theorem clearAwaiters_eq {c : Config V E} {s : State V E}
    (h : ∀ task ∈ s.awaiters, s.tasks[task]? ≠ some []) :
    s.clearAwaiters c = { s with awaiters := [] } := by
  have hfold : ∀ l : List ℕ, (∀ task ∈ l, s.tasks[task]? ≠ some []) →
      l.foldl (State.destroyAwaiter c) s = s := by
    intro l hl
    induction l with
    | nil => rfl
    | cons task l ih =>
        rw [List.forall_mem_cons] at hl
        have hkeep : s.destroyAwaiter c task = s := by
          rw [State.destroyAwaiter, if_neg]
          intro hany
          rw [Option.any_eq_true] at hany
          obtain ⟨log, hlog, hempty⟩ := hany
          exact hl.1 (List.isEmpty_iff.1 hempty ▸ hlog)
        rw [List.foldl_cons, hkeep, ih hl.2]
  rw [State.clearAwaiters, hfold s.awaiters h]

namespace InvAt

variable {c : Config V E} {s s' : State V E} {winner : Option (ℕ × Place V E)} {thread : ℕ}
  {old new : Place V E}

theorem init (c : Config V E) (threads : ℕ) : InvAt c (initial threads) none where
  mutex := Owned.replicate rfl
  alone := Winner.replicate threads
  inner := ⟨{}, rfl, rfl⟩
  entering thread h := by
    have hplace := List.eq_of_mem_replicate (List.mem_of_getElem? h)
    cases hplace
  answering thread h := by
    have hplace := List.eq_of_mem_replicate (List.mem_of_getElem? h)
    cases hplace
  tasks := .init
  crashed thread h := by
    have hplace := List.eq_of_mem_replicate (List.mem_of_getElem? h)
    cases hplace

/-- The place of the winner. -/
theorem place_of_winner (h : InvAt c s winner) {place : Place V E}
    (hwinner : winner = some (thread, place)) : s.threads[thread]? = some place :=
  ((h.alone thread place).2 hwinner).1

theorem winner_of_place (h : InvAt c s winner) (hplace : s.threads[thread]? = some old)
    (hout : old.outcome ≠ none) : winner = some (thread, old) :=
  (h.alone thread old).1 ⟨hplace, hout⟩

/-- Two threads that hold the mutex are the same one. -/
theorem holder (h : InvAt c s winner) {other : ℕ} (hplace : s.threads[thread]? = some old)
    (hold : old.holds = true) (hother : s.threads[other]? = some new) (hnew : new.holds = true) :
    thread = other := by
  have hthread := (h.mutex thread).2 ⟨old, hplace, hold⟩
  have hother := (h.mutex other).2 ⟨new, hother, hnew⟩
  exact Option.some.inj (hthread.symm.trans hother)

/-- A thread that has not won, in the mutex: the winner has not got there, or is out again. -/
theorem outside (h : InvAt c s winner) (hplace : s.threads[thread]? = some old)
    (hold : old.holds = true) (hout : old.outcome = none) :
    winner = none ∨ (∃ other r, winner = some (other, .won r)) ∨
      ∃ other r, winner = some (other, .returned r) := by
  cases hwinner : winner with
  | none => exact .inl rfl
  | some w =>
      obtain ⟨other, place⟩ := w
      have hother := h.place_of_winner hwinner
      have hinner := h.inner
      rw [hwinner] at hinner
      have hnot : place.holds = false := by
        cases hholds : place.holds with
        | false => rfl
        | true =>
            obtain rfl := h.holder hplace hold hother hholds
            obtain rfl := Option.some.inj (hplace.symm.trans hother)
            exact absurd hout ((h.alone thread old).2 hwinner).2
      cases place with
      | won r => exact .inr (.inl ⟨other, r, rfl⟩)
      | returned r => exact .inr (.inr ⟨other, r, rfl⟩)
      | drain | leave => cases hnot
      | _ => cases hinner

/-- A step of a thread that has not won: what it changes beside its place is said for itself. -/
theorem move (h : InvAt c s winner) (hplace : s.threads[thread]? = some old)
    (hthreads : s'.threads = s.threads.set thread new) (hold : old.outcome = none)
    (hnew : new.outcome = none)
    (hmutex : Owned s'.mutex.threadOwner (s.threads.set thread new) Place.holds)
    (hinner : s'.inner = s.inner)
    (hat : InnerAt c s.inner s'.awaiters (winner.map Prod.snd))
    (henter : new = .enter → ∀ other r, winner ≠ some (other, .returned r))
    (hanswer : new = .answer → ∃ i, s.inner = some i ∧ i.core.flags.ready = true)
    (hcrash : new = .crashed → c.autoReset = true)
    (htasks : Tasks c s.inner s'.awaiters s'.tasks (drained s'.awaiters (winner.map Prod.snd))
      (winner.bind fun w => w.2.outcome)) : InvAt c s' winner := by
  have hset : ∀ (t : ℕ) (place : Place V E), s'.threads[t]? = some place →
      new = place ∨ s.threads[t]? = some place := by
    intro t place ht
    rw [hthreads] at ht
    rcases getElem?_set_cases ht with ⟨-, hnew⟩ | ⟨-, ht⟩
    · exact .inl hnew
    · exact .inr ht
  refine ⟨hthreads ▸ hmutex, hthreads ▸ h.alone.other hplace hold hnew, hinner ▸ hat,
    fun t ht => ?_, fun t ht => ?_, hinner ▸ htasks, fun t ht => ?_⟩
  · exact (hset t _ ht).elim henter fun ht => h.entering t ht
  · rw [hinner]
    exact (hset t _ ht).elim hanswer fun ht => h.answering t ht
  · exact (hset t _ ht).elim hcrash fun ht => h.crashed t ht

/-- One that changes only the place, and does not take or leave the mutex. -/
theorem walk (h : InvAt c s winner) (hplace : s.threads[thread]? = some old)
    (hold : old.outcome = none) (hnew : new.outcome = none) (hholds : new.holds = old.holds)
    (henter : new = .enter → ∀ other r, winner ≠ some (other, .returned r))
    (hanswer : new = .answer → ∃ i, s.inner = some i ∧ i.core.flags.ready = true)
    (hcrash : new = .crashed → c.autoReset = true) : InvAt c (s.setPlace thread new) winner :=
  h.move hplace rfl hold hnew (h.mutex.keep hplace hholds) rfl h.inner henter hanswer hcrash h.tasks

/-- The mutex is taken. -/
theorem lock (h : InvAt c s winner) {mutex : SpinLock} (hlock : s.mutex.lock thread = some mutex)
    (hplace : s.threads[thread]? = some old) (hnew : new.holds = true) :
    Owned mutex.threadOwner (s.threads.set thread new) Place.holds := by
  obtain ⟨hfree, rfl⟩ := SpinLock.lock_eq_some hlock
  have howned := h.mutex
  rw [hfree] at howned
  exact howned.take hplace hnew

/-- A step of the thread that has won, or wins. -/
theorem advance (h : InvAt c s winner) (hplace : s.threads[thread]? = some old)
    (hwinner : winner = none ∨ winner = some (thread, old))
    (hthreads : s'.threads = s.threads.set thread new) (hnew : new.outcome ≠ none)
    (hmutex : Owned s'.mutex.threadOwner (s.threads.set thread new) Place.holds)
    (hat : InnerAt c s'.inner s'.awaiters (some new))
    (henter : ∀ r, new = .returned r → ∀ other : ℕ, s.threads[other]? ≠ some .enter)
    (hanswer : ∀ other : ℕ, s.threads[other]? = some .answer →
      ∃ i, s'.inner = some i ∧ i.core.flags.ready = true)
    (htasks : Tasks c s'.inner s'.awaiters s'.tasks (drained s'.awaiters (some new)) new.outcome) :
    InvAt c s' (some (thread, new)) := by
  -- the thread itself is neither at `enter` nor at `answer` then
  have hother : ∀ (t : ℕ) (place : Place V E), place.outcome = none →
      (s.threads.set thread new)[t]? = some place → s.threads[t]? = some place := by
    intro t place hout ht
    rcases getElem?_set_cases ht with ⟨-, rfl⟩ | ⟨-, ht⟩
    · exact absurd hout hnew
    · exact ht
  refine ⟨hthreads ▸ hmutex, hthreads ▸ h.alone.advance hplace hwinner hnew, hat,
    fun t ht other r heq => ?_, fun t ht => ?_, htasks, fun t ht => ?_⟩
  · rw [hthreads] at ht
    obtain ⟨-, rfl⟩ := Prod.mk.inj (Option.some.inj heq)
    exact henter r rfl t (hother t _ rfl ht)
  · rw [hthreads] at ht
    exact hanswer t (hother t _ rfl ht)
  · rw [hthreads] at ht
    exact h.crashed t (hother t _ rfl ht)

end InvAt

end

end MyEngine.Async.MultiTaskSource
