import MyEngine.Async.TaskCoroutineMoves

/-!
# Async — TaskCoroutineInv

What every run of a tree of coroutines keeps.

* `Meant`: every task ends with what `μ` says, and every coroutine has the rest of its meaning
  before it.
* `Owned`: a task is held by one coroutine at most, and the one that holds it comes before it in
  an order.
* `Registered`: a coroutine is suspended on a task if and only if it is that task's continuation.
-/

namespace MyEngine.Async.Coroutine

variable {X S V E L : Type} {makeError : String → E} {outcomes : Outcomes V E L}

/-! ### What the coroutines mean -/

section
variable (makeError outcomes) (μ : Nat → Except E V)

/-- What a call executes and ends with. -/
def Call.eval (c : Call S V E L) : List S × Except E V :=
  c.callee.eval makeError outcomes (μ ∘ c.arguments)

end

/-- The coroutine has completed its task. -/
def Frame.ended (f : Frame S V E L) : Bool :=
  match f.place with
  | .destroyed => true
  | .leaving   => f.errorOnDestroy.isNone
  | _          => false

/-- What the coroutine `n` ends with once it leaves. -/
def Frame.ending (f : Frame S V E L) (result : Except E V) : Except E V :=
  f.errorOnDestroy.elim result .error

/-- A coroutine that still has something to execute. -/
def Place.Live : Place S V E L → Prop
  | .leaving | .destroyed => False
  | _                     => True

/-- The coroutine `n`, whose task is `t`, has the rest of its meaning before it. -/
structure Frame.Meant (makeError : String → E) (outcomes : Outcomes V E L)
    (μ : Nat → Except E V) (n : Nat) (f : Frame S V E L) (t : Task X V E) : Prop where
  result : μ n = (f.called.eval makeError outcomes μ).2
  rest : f.called.eval makeError outcomes μ =
    (f.place.rest makeError outcomes μ (f.ending (μ n))).map (f.log ++ ·) id
  task : t.Holds (if f.ended then some (μ n) else none)
  errorOnDestroy : f.errorOnDestroy ≠ none → f.place = .leaving
  destructions : f.destructions = match f.place with
    | .destroyed => 1
    | _          => 0

namespace Frame.Meant

variable {μ μ' : Nat → Except E V} {n : Nat} {f : Frame S V E L} {t : Task X V E}

theorem agrees (h : f.Meant makeError outcomes μ n t) : t.Agrees (μ n) := by
  have htask := h.task
  split at htask
  · exact .inr htask
  · exact .inl htask

/-- A coroutine that goes on has neither completed its task nor an error to complete it with. -/
theorem live (h : f.Meant makeError outcomes μ n t) (hl : f.place.Live) :
    f.ended = false ∧ f.errorOnDestroy = none ∧ t.Holds none ∧ f.destructions = 0 := by
  have hended : f.ended = false := by
    rw [ended]
    cases hp : f.place with
    | leaving | destroyed => rw [hp] at hl; exact hl.elim
    | _ => rfl
  have herror : f.errorOnDestroy = none := by
    by_contra hne
    rw [h.errorOnDestroy hne] at hl
    exact hl
  have htask := h.task
  rw [hended] at htask
  refine ⟨hended, herror, htask, ?_⟩
  rw [h.destructions]
  cases hp : f.place with
  | destroyed => rw [hp] at hl; exact hl.elim
  | _ => rfl

end Frame.Meant

variable {task : Nat → Task X V E} {place place' : Place S V E L} {move : Move S V E L}

theorem Moves.live (h : Moves makeError outcomes task place move) : place.Live := by
  cases h with
  | _ => trivial

theorem Moves.live_goto {log : List S}
    (h : Moves makeError outcomes task place (.goto log place')) : place'.Live := by
  cases h with
  | _ => trivial

namespace Frame.Meant

variable {μ μ' : Nat → Except E V} {n : Nat} {f : Frame S V E L} {t : Task X V E}

/-- What a coroutine that goes on still executes is what its next move leaves. -/
theorem rest_move (h : f.Meant makeError outcomes μ n t)
    (hm : Moves makeError outcomes task f.place move)
    (htask : ∀ u, f.place.Has u → (task u).Agrees (μ u)) :
    f.called.eval makeError outcomes μ =
      (move.rest makeError outcomes μ (μ n)).map (f.log ++ ·) id := by
  rw [h.rest, hm.rest htask, ending, (h.live hm.live).2.1]
  rfl

theorem goto {log : List S} (h : f.Meant makeError outcomes μ n t)
    (hm : Moves makeError outcomes task f.place (.goto log place'))
    (htask : ∀ u, f.place.Has u → (task u).Agrees (μ u)) :
    Frame.Meant makeError outcomes μ n { f with log := f.log ++ log, place := place' } t := by
  obtain ⟨-, herror, hholds, hzero⟩ := h.live hm.live
  have hlive := hm.live_goto
  refine ⟨h.result, ?_, ?_, fun hne => absurd herror hne, ?_⟩
  · refine (h.rest_move hm htask).trans ?_
    rw [ending, herror]
    exact Prod.ext (List.append_assoc _ _ _).symm rfl
  · cases place' with
    | leaving | destroyed => exact hlive.elim
    | _ => exact hholds
  · cases place' with
    | leaving | destroyed => exact hlive.elim
    | _ => exact hzero

theorem finish {result : Except E V} (h : f.Meant makeError outcomes μ n t)
    (hm : Moves makeError outcomes task f.place (.finish result))
    (htask : ∀ u, f.place.Has u → (task u).Agrees (μ u)) :
    Frame.Meant makeError outcomes μ n { f with place := .leaving } (t.complete result) := by
  obtain ⟨-, herror, hholds, hzero⟩ := h.live hm.live
  have hrest := h.rest_move hm htask
  have hresult : μ n = result := h.result.trans (congrArg Prod.snd hrest)
  refine ⟨h.result, ?_, ?_, fun _ => rfl, hzero⟩
  · rw [hrest, ending, herror, hresult]
    rfl
  · rw [Frame.ended, herror, hresult]
    exact hholds.complete result

theorem fail {error : E} (h : f.Meant makeError outcomes μ n t)
    (hm : Moves makeError outcomes task f.place (.fail error))
    (htask : ∀ u, f.place.Has u → (task u).Agrees (μ u)) :
    Frame.Meant makeError outcomes μ n
      { f with errorOnDestroy := some error, place := .leaving } t := by
  obtain ⟨-, -, hholds, hzero⟩ := h.live hm.live
  exact ⟨h.result, h.rest_move hm htask, hholds, fun _ => rfl, hzero⟩

/-- A coroutine that calls another, or takes the task of a source: the new task is `u`. -/
theorem create {k u : Nat} {next : Body S V E L (k + 1)} {tasks : Fin k → Nat}
    (h : f.Meant makeError outcomes μ n t) (hl : f.place.Live)
    (hrest : f.called.eval makeError outcomes μ =
      (next.eval makeError outcomes (Fin.cons (μ u) (μ ∘ tasks))).map (f.log ++ ·) id) :
    Frame.Meant makeError outcomes μ n { f with place := .running next (Fin.cons u tasks) } t := by
  obtain ⟨-, herror, hholds, hzero⟩ := h.live hl
  refine ⟨h.result, ?_, hholds, fun hne => absurd herror hne, hzero⟩
  rw [hrest, Place.rest, Fin.comp_cons]

/-- A coroutine that has been called. -/
theorem start {c : Call S V E L} (hresult : μ n = (c.eval makeError outcomes μ).2)
    (ht : t.Holds none) : Frame.Meant makeError outcomes μ n { called := c } t :=
  ⟨hresult, rfl, ht, fun hne => absurd rfl hne, rfl⟩

/-- `setContinuation` of the coroutine. -/
theorem suspend {a : Awaiter S V E L} (h : f.Meant makeError outcomes μ n t)
    (hp : f.place = .registering a) :
    Frame.Meant makeError outcomes μ n { f with place := .suspended a } t := by
  obtain ⟨-, herror, hholds, hzero⟩ := h.live (by rw [hp]; trivial)
  have hrest := h.rest
  rw [hp] at hrest
  exact ⟨h.result, hrest, hholds, fun hne => absurd herror hne, hzero⟩

/-- The frame is destroyed; an error that was kept for the destructor completes the task there. -/
theorem destroy (h : f.Meant makeError outcomes μ n t) (hp : f.place = .leaving) :
    Frame.Meant makeError outcomes μ n
      { f with place := .destroyed, errorOnDestroy := none, destructions := f.destructions + 1 }
      ((match f.errorOnDestroy with
        | some error => t.reject error
        | none       => t).abandon makeError) := by
  have hrest := h.rest
  have hholds := h.task
  rw [Frame.ended, hp] at hholds
  rw [hp] at hrest
  have hresult : μ n = f.ending (μ n) := h.result.trans (congrArg Prod.snd hrest)
  have hzero : f.destructions = 0 := by rw [h.destructions, hp]
  have hdone : ((match f.errorOnDestroy with
      | some error => t.reject error
      | none       => t)).Holds (some (μ n)) := by
    rw [Frame.ending] at hresult
    cases herror : f.errorOnDestroy with
    | none =>
        rw [herror] at hholds
        exact hholds
    | some error =>
        rw [herror] at hholds hresult
        rw [hresult]
        exact hholds.complete (.error error)
  refine ⟨h.result, ?_, ?_, fun hne => absurd rfl hne, by rw [hzero]⟩
  · rw [hrest, ← hresult]
    rfl
  · rw [hdone.abandon]
    exact hdone

end Frame.Meant

variable {μ μ' : Nat → Except E V}

theorem comp_congr {m : Nat} {tasks : Fin m → Nat} (h : ∀ i, μ' (tasks i) = μ (tasks i)) :
    μ' ∘ tasks = μ ∘ tasks :=
  funext h

theorem Awaiter.rest_congr {a : Awaiter S V E L} (h : ∀ u, a.Has u → μ' u = μ u) :
    a.rest makeError outcomes μ' = a.rest makeError outcomes μ := by
  cases a with
  | task t next tasks | tryTask t next tasks =>
      rw [Awaiter.rest, Awaiter.rest, comp_congr fun i => h _ (.inr ⟨i, rfl⟩), h t (.inl rfl)]

/-- A place speaks of the tasks it has. -/
theorem Place.rest_congr (h : ∀ u, place.Has u → μ' u = μ u) (result : Except E V) :
    place.rest makeError outcomes μ' result = place.rest makeError outcomes μ result := by
  cases place with
  | running body tasks =>
      rw [Place.rest, Place.rest, comp_congr fun i => h _ ⟨i, rfl⟩]
  | suspending t next tasks => exact Awaiter.rest_congr (a := .task t next tasks) h
  | registering a | suspended a => exact Awaiter.rest_congr h
  | delayed leaf next tasks =>
      rw [Place.rest, Place.rest, comp_congr fun i => h _ ⟨i, rfl⟩]
  | leaving | destroyed => rfl

theorem Frame.Meant.congr {n : Nat} {f : Frame S V E L} {t : Task X V E}
    (h : f.Meant makeError outcomes μ n t) (hn : μ' n = μ n)
    (harguments : ∀ i, μ' (f.called.arguments i) = μ (f.called.arguments i))
    (hplace : ∀ u, f.place.Has u → μ' u = μ u) : f.Meant makeError outcomes μ' n t := by
  have heval : f.called.eval makeError outcomes μ' = f.called.eval makeError outcomes μ := by
    rw [Call.eval, Call.eval, comp_congr harguments]
  refine ⟨?_, ?_, ?_, h.errorOnDestroy, h.destructions⟩
  · rw [hn, heval, h.result]
  · rw [heval, h.rest, hn, Place.rest_congr hplace]
  · rw [hn]
    exact h.task

/-! ### Who holds the tasks -/

def Code.Has : Code S V E L → Nat → Prop
  | .leaf _, _      => False
  | .coroutine f, u => f.place.Has u

def Code.Distinct : Code S V E L → Prop
  | .leaf _      => True
  | .coroutine f => f.place.Distinct

/-- The coroutine `n` holds the task `u`. -/
def State.Holds (s : State X S V E L) (n u : Nat) : Prop := ∃ c, s.code n = some c ∧ c.Has u

/-- The coroutines await each other as a tree: a task is held by one coroutine at most, which
comes before it in the order that `rank` is. -/
structure Owned (rank : Nat → Nat) (s : State X S V E L) : Prop where
  created : ∀ n, n < s.created ↔ s.code n ≠ none
  arguments : ∀ n f, s.code n = some (.coroutine f) → ∀ i, f.called.arguments i < n
  held : ∀ n u, s.Holds n u → u < s.created ∧ rank n < rank u
  unique : ∀ n n' u, s.Holds n u → s.Holds n' u → n = n'
  distinct : ∀ n c, s.code n = some c → c.Distinct

variable {s s' : State X S V E L} {rank : Nat → Nat} {n : Nat} {f f' : Frame S V E L}

theorem code_update_cases {c c' : Code S V E L} {k : Nat}
    (h : Function.update s.code n (some c') k = some c) :
    k = n ∧ c' = c ∨ k ≠ n ∧ s.code k = some c := by
  by_cases hk : k = n
  · subst hk
    rw [Function.update_self] at h
    exact .inl ⟨rfl, Option.some.inj h⟩
  · rw [Function.update_of_ne hk] at h
    exact .inr ⟨hk, h⟩

theorem Owned.lt_created (h : Owned rank s) {c : Code S V E L} (hc : s.code n = some c) :
    n < s.created :=
  (h.created n).2 (by rw [hc]; exact Option.some_ne_none c)

/-- A frame that goes on with tasks it had. -/
theorem Owned.update (h : Owned rank s) (hcode : s.code n = some (.coroutine f))
    (hcreated : s'.created = s.created)
    (hs : s'.code = Function.update s.code n (some (.coroutine f')))
    (hcalled : f'.called = f.called) (hkeep : ∀ u, f'.place.Has u → f.place.Has u)
    (hd : f'.place.Distinct) : Owned rank s' := by
  have hholds : ∀ {k u}, s'.Holds k u → s.Holds k u := by
    rintro k u ⟨c, hc, hu⟩
    rw [hs] at hc
    rcases code_update_cases hc with ⟨rfl, rfl⟩ | ⟨-, hc⟩
    · exact ⟨_, hcode, hkeep u hu⟩
    · exact ⟨c, hc, hu⟩
  constructor
  case created =>
    intro k
    rw [hcreated, h.created, hs]
    by_cases hk : k = n
    · subst hk
      rw [Function.update_self, hcode]
      simp
    · rw [Function.update_of_ne hk]
  case arguments =>
    intro k g hc
    rw [hs] at hc
    rcases code_update_cases hc with ⟨rfl, hg⟩ | ⟨-, hc⟩
    · cases hg
      rw [hcalled]
      exact h.arguments k f hcode
    · exact h.arguments k g hc
  case held =>
    intro k u hu
    rw [hcreated]
    exact h.held k u (hholds hu)
  case unique =>
    intro k k' u hu hu'
    exact h.unique k k' u (hholds hu) (hholds hu')
  case distinct =>
    intro k c hc
    rw [hs] at hc
    rcases code_update_cases hc with ⟨rfl, rfl⟩ | ⟨-, hc⟩
    · exact hd
    · exact h.distinct k c hc

/-- The order with a new task `u` right behind the coroutine `n`. -/
def behind (rank : Nat → Nat) (n u : Nat) : Nat → Nat :=
  Function.update (fun k => 2 * rank k) u (2 * rank n + 1)

/-- Who holds what when the coroutine `n` has created a task, which is given what `c` has. -/
theorem holds_create {c : Code S V E L} {k : Nat}
    {next : Body S V E L (k + 1)} {tasks : Fin k → Nat} (hcode : s.code n = some (.coroutine f))
    (hgiven : ∀ u, c.Has u → f.place.Has u) (hkept : ∀ i, f.place.Has (tasks i)) {m u : Nat}
    (hu : ((s.create c).setFrame n
      { f with place := .running next (Fin.cons s.created tasks) }).Holds m u) :
    m = n ∧ u = s.created ∨
      s.Holds n u ∧ (m = s.created ∧ c.Has u ∨ m = n ∧ ∃ i, tasks i = u) ∨
        m ≠ n ∧ m ≠ s.created ∧ s.Holds m u := by
  obtain ⟨c', hc', hu⟩ := hu
  rcases code_update_cases (s := s.create c) hc' with ⟨rfl, rfl⟩ | ⟨hm, hc'⟩
  · obtain ⟨i, hi⟩ := hu
    induction i using Fin.cases with
    | zero => exact .inl ⟨rfl, hi.symm⟩
    | succ i =>
        rw [Fin.cons_succ] at hi
        refine .inr (.inl ⟨⟨_, hcode, hi ▸ hkept i⟩, .inr ⟨rfl, i, hi⟩⟩)
  · rcases code_update_cases hc' with ⟨rfl, rfl⟩ | ⟨hm', hc'⟩
    · exact .inr (.inl ⟨⟨_, hcode, hgiven u hu⟩, .inl ⟨rfl, hu⟩⟩)
    · exact .inr (.inr ⟨hm, hm', c', hc', hu⟩)

theorem Owned.create (h : Owned rank s) {c : Code S V E L} {k : Nat}
    {next : Body S V E L (k + 1)} {tasks : Fin k → Nat} (hcode : s.code n = some (.coroutine f))
    (hgiven : ∀ u, c.Has u → f.place.Has u) (hkept : ∀ i, f.place.Has (tasks i))
    (hapart : ∀ i, ¬ c.Has (tasks i)) (hd : c.Distinct) (hi : Function.Injective tasks)
    (harguments : ∀ g, c = .coroutine g → ∀ i, g.called.arguments i < s.created) :
    Owned (behind rank n s.created) ((s.create c).setFrame n
      { f with place := .running next (Fin.cons s.created tasks) }) := by
  have hlt := h.lt_created hcode
  have hne : n ≠ s.created := Nat.ne_of_lt hlt
  have hcases := fun {m u} => @holds_create _ _ _ _ _ s n f c k next tasks hcode hgiven
    hkept m u
  have hold : ∀ {m u}, s.Holds m u → m < s.created ∧ u < s.created ∧ rank m < rank u :=
    fun ⟨c, hc, hu⟩ => ⟨h.lt_created hc, h.held _ _ ⟨c, hc, hu⟩⟩
  constructor
  case created =>
    intro m
    change m < s.created + 1 ↔ Function.update (Function.update s.code _ _) _ _ m ≠ none
    rw [Nat.lt_succ_iff_lt_or_eq, h.created]
    by_cases hm : m = n
    · subst hm
      rw [Function.update_self, hcode]
      simp
    · rw [Function.update_of_ne hm]
      by_cases hm' : m = s.created
      · subst hm'
        rw [Function.update_self]
        simp
      · rw [Function.update_of_ne hm']
        simp [hm']
  case arguments =>
    intro m g hc
    rcases code_update_cases (s := s.create c) hc with ⟨rfl, hg⟩ | ⟨-, hc⟩
    · cases hg
      exact h.arguments m f hcode
    · rcases code_update_cases hc with ⟨rfl, hg⟩ | ⟨-, hc⟩
      · exact harguments g hg
      · exact h.arguments m g hc
  case held =>
    intro m u hu
    change u < s.created + 1 ∧ _
    rw [behind]
    rcases hcases hu with ⟨rfl, rfl⟩ | ⟨hn, ⟨rfl, -⟩ | ⟨rfl, -⟩⟩ | ⟨-, hm, hu⟩
    · rw [Function.update_of_ne hne, Function.update_self]
      exact ⟨Nat.lt_succ_self _, Nat.lt_succ_self _⟩
    · obtain ⟨-, hu, hrank⟩ := hold hn
      rw [Function.update_self, Function.update_of_ne (Nat.ne_of_lt hu)]
      exact ⟨by omega, by omega⟩
    · obtain ⟨-, hu, hrank⟩ := hold hn
      rw [Function.update_of_ne hne, Function.update_of_ne (Nat.ne_of_lt hu)]
      exact ⟨by omega, by omega⟩
    · obtain ⟨-, hlt, hrank⟩ := hold hu
      rw [Function.update_of_ne hm, Function.update_of_ne (Nat.ne_of_lt hlt)]
      exact ⟨by omega, by omega⟩
  case unique =>
    intro m m' u hu hu'
    rcases hcases hu with ⟨rfl, rfl⟩ | ⟨hn, hm⟩ | ⟨hm, -, hu⟩
    · rcases hcases hu' with ⟨rfl, -⟩ | ⟨hn, -⟩ | ⟨-, -, hu'⟩
      · rfl
      · exact absurd (hold hn).2.1 (Nat.lt_irrefl _)
      · exact absurd (hold hu').2.1 (Nat.lt_irrefl _)
    · rcases hcases hu' with ⟨-, rfl⟩ | ⟨-, hm'⟩ | ⟨hne', -, hu'⟩
      · exact absurd (hold hn).2.1 (Nat.lt_irrefl _)
      · rcases hm with ⟨rfl, hc⟩ | ⟨rfl, i, rfl⟩
        · rcases hm' with ⟨rfl, -⟩ | ⟨rfl, i, rfl⟩
          · rfl
          · exact absurd hc (hapart i)
        · rcases hm' with ⟨rfl, hc⟩ | ⟨rfl, -⟩
          · exact absurd hc (hapart i)
          · rfl
      · exact absurd (h.unique _ _ _ hu' hn) hne'
    · rcases hcases hu' with ⟨-, rfl⟩ | ⟨hn, -⟩ | ⟨-, -, hu'⟩
      · exact absurd (hold hu).2.1 (Nat.lt_irrefl _)
      · exact absurd (h.unique _ _ _ hu hn) hm
      · exact h.unique _ _ _ hu hu'
  case distinct =>
    intro m c' hc'
    rcases code_update_cases (s := s.create c) hc' with ⟨rfl, rfl⟩ | ⟨-, hc'⟩
    · refine Fin.cons_injective_iff.2 ⟨?_, hi⟩
      rintro ⟨i, hi⟩
      have := (hold ⟨_, hcode, hkept i⟩).2.1
      rw [hi] at this
      exact Nat.lt_irrefl _ this
    · rcases code_update_cases hc' with ⟨rfl, rfl⟩ | ⟨-, hc'⟩
      · exact hd
      · exact h.distinct m c' hc'

/-! ### Continuations -/

/-- The coroutine `n` is the continuation of the task, and has not been scheduled. -/
structure Task.Waits (t : Task X V E) (n : Nat) : Prop where
  hasContinuation : t.core.flags.hasContinuation = true
  unscheduled : t.core.flags.continuationScheduled = false
  continuation : ∃ executor, t.core.continuation = some ⟨executor, n⟩

/-- The task has ended, or is as it was: nothing else has become of it. -/
structure Task.Later (t t' : Task X V E) : Prop where
  hasContinuation : t'.core.flags.hasContinuation = t.core.flags.hasContinuation
  unscheduled : t'.core.flags.continuationScheduled = t.core.flags.continuationScheduled
  continuation : t'.core.continuation = t.core.continuation
  ready : t.isReady = true → t'.isReady = true ∧ t'.core.error = t.core.error

namespace Task

variable {t t' t'' : Task X V E}

theorem Later.refl (t : Task X V E) : t.Later t := ⟨rfl, rfl, rfl, fun h => ⟨h, rfl⟩⟩

theorem Later.trans (h : t.Later t') (h' : t'.Later t'') : t.Later t'' where
  hasContinuation := h'.hasContinuation.trans h.hasContinuation
  unscheduled := h'.unscheduled.trans h.unscheduled
  continuation := h'.continuation.trans h.continuation
  ready hr := by
    obtain ⟨hr', he⟩ := h.ready hr
    obtain ⟨hr'', he'⟩ := h'.ready hr'
    exact ⟨hr'', he'.trans he⟩

theorem later_reject (t : Task X V E) (error : E) : t.Later (t.reject error) := by
  rw [reject]
  cases hready : t.core.flags.ready with
  | true =>
      simp only [CoreTask.tryResolve, hready]
      exact ⟨rfl, rfl, rfl, fun h => ⟨h, rfl⟩⟩
  | false =>
      simp only [CoreTask.tryResolve, hready]
      exact ⟨rfl, rfl, rfl, fun h => by cases hready.symm.trans h⟩

theorem later_resolve (t : Task X V E) (value : V) : t.Later (t.resolve value) := by
  rw [resolve]
  cases hready : t.core.flags.ready with
  | true =>
      simp only [CoreTask.tryResolve, hready]
      exact ⟨rfl, rfl, rfl, fun h => ⟨h, rfl⟩⟩
  | false =>
      simp only [CoreTask.tryResolve, hready]
      exact ⟨rfl, rfl, rfl, fun h => by cases hready.symm.trans h⟩

theorem later_complete (t : Task X V E) (result : Except E V) : t.Later (t.complete result) := by
  cases result with
  | ok value => exact t.later_resolve value
  | error error => exact t.later_reject error

theorem later_abandon (t : Task X V E) : t.Later (t.abandon makeError) := by
  rw [abandon]
  split
  · exact .refl t
  · exact t.later_reject _

theorem Waits.later {n : Nat} (h : t.Waits n) (hl : t.Later t') : t'.Waits n := by
  obtain ⟨executor, hc⟩ := h.continuation
  exact ⟨hl.hasContinuation.trans h.hasContinuation, hl.unscheduled.trans h.unscheduled, executor,
    hl.continuation.trans hc⟩

theorem setContinuation_waits (t : Task X V E) (n : Nat) (current : Option X)
    (h : t.core.flags.continuationScheduled = false) : (t.setContinuation n current).Waits n where
  hasContinuation := rfl
  unscheduled := h
  continuation :=
    ⟨(t.core.captured ⟨current, n⟩).executor, congrArg some (congrArg (TaskContinuation.mk _)
      (t.core.captured_invocation ⟨current, n⟩) : t.core.captured ⟨current, n⟩ = _)⟩

/-- What is scheduled is the continuation of a task that is ready, once. -/
theorem schedule_eq {current : Option X} {dispatch : Dispatch X Nat}
    (h : t.schedule current = some (dispatch, t')) :
    (t.isReady = true ∧ t.core.flags.hasContinuation = true) ∧
      (∃ executor, t.core.continuation = some ⟨executor, dispatch.invocation⟩) ∧
      t' = { t with core := { t.core with
        continuation := none
        flags := { t.core.flags with continuationScheduled := true } } } := by
  rw [schedule] at h
  split at h
  next hdue =>
    obtain ⟨continuation, hc, he⟩ := Option.map_eq_some_iff.1 h
    cases he
    refine ⟨hdue.1, ⟨continuation.executor, ?_⟩, rfl⟩
    rw [hc, t.core.dispatch_invocation]
  next => cases h

variable {r : Option (Except E V)}

/-- What becomes of the continuation does not touch the result. -/
theorem Holds.setContinuation (h : t.Holds r) (n : Nat) (current : Option X) :
    (t.setContinuation n current).Holds r :=
  ⟨h.completions, h.ready, h.error, h.result⟩

theorem Holds.schedule {current : Option X} {dispatch : Dispatch X Nat} (h : t.Holds r)
    (hs : t.schedule current = some (dispatch, t')) : t'.Holds r := by
  obtain ⟨-, -, rfl⟩ := schedule_eq hs
  exact ⟨h.completions, h.ready, h.error, h.result⟩

end Task

/-- The continuations of the tasks are the coroutines that are suspended on them. -/
structure Registered (s : State X S V E L) : Prop where
  suspended : ∀ n f a, s.code n = some (.coroutine f) → f.place = .suspended a →
    (s.task a.awaited).Waits n
  unset : ∀ n f, s.code n = some (.coroutine f) → f.place.Unset s.task
  waiting : ∀ t executor n, (s.task t).core.continuation = some ⟨executor, n⟩ →
    ∃ f a, s.code n = some (.coroutine f) ∧ f.place = .suspended a ∧ a.awaited = t
  kept : ∀ t, (s.task t).core.flags.hasContinuation = true →
    (s.task t).isReady = true ∨ (s.task t).core.continuation ≠ none
  scheduled : ∀ t, (s.task t).core.flags.continuationScheduled = true →
    (s.task t).core.flags.hasContinuation = true

theorem Awaiter.has_awaited (a : Awaiter S V E L) : a.Has a.awaited := by
  cases a with
  | _ => exact .inl rfl

theorem Awaiter.has_awaited_suspended {a : Awaiter S V E L} (hcode : s.code n = some (.coroutine f))
    (hp : f.place = .suspended a) : s.Holds n a.awaited :=
  ⟨_, hcode, by rw [Code.Has, hp]; exact a.has_awaited⟩

/-- What is known of a continuation that has not been set stays known while it is not set and the
tasks at most end. -/
theorem Place.Unset.congr {task' : Nat → Task X V E} (h : place.Unset task)
    (hset : ∀ u, place.Has u →
      (task' u).core.flags.hasContinuation = (task u).core.flags.hasContinuation)
    (hready : ∀ u, (task u).isReady = true →
      (task' u).isReady = true ∧ (task' u).core.error = (task u).core.error) :
    place.Unset task' := by
  cases place with
  | suspending t next tasks =>
      intro hset'
      rw [hset t (.inl rfl)] at hset'
      obtain ⟨hr, herror⟩ := h hset'
      obtain ⟨hr', herror'⟩ := hready t hr
      exact ⟨hr', herror' ▸ herror⟩
  | registering a => exact (hset a.awaited a.has_awaited).trans h
  | running | suspended | delayed | leaving | destroyed => trivial

/-- The tasks of a coroutine that runs are not ready, or have no continuation. -/
theorem Registered.free (h : Registered s) (ho : Owned rank s)
    (hcode : s.code n = some (.coroutine f)) (hnot : ∀ a, f.place ≠ .suspended a) {u : Nat}
    (hu : f.place.Has u) (hready : (s.task u).isReady = false) :
    (s.task u).core.flags.hasContinuation = false := by
  refine Bool.eq_false_iff.2 fun hset => ?_
  have hsome := (h.kept u hset).resolve_left (by rw [hready]; decide)
  obtain ⟨⟨executor, k⟩, hc⟩ := Option.ne_none_iff_exists'.1 hsome
  obtain ⟨g, a, hg, hp, rfl⟩ := h.waiting u executor k hc
  obtain rfl := ho.unique k n a.awaited (Awaiter.has_awaited_suspended hg hp) ⟨_, hcode, hu⟩
  rw [hcode] at hg
  cases hg
  exact hnot a hp

/-- Tasks end, and a coroutine that is not suspended goes on. -/
theorem Registered.update (h : Registered s) (hcode : s.code n = some (.coroutine f))
    (hnot : ∀ a, f.place ≠ .suspended a) (hnot' : ∀ a, f'.place ≠ .suspended a)
    (hs : s'.code = Function.update s.code n (some (.coroutine f')))
    (hl : ∀ u, (s.task u).Later (s'.task u)) (hunset : f'.place.Unset s'.task) :
    Registered s' := by
  constructor
  case suspended =>
    intro k g a hc hp
    rw [hs] at hc
    rcases code_update_cases hc with ⟨rfl, hg⟩ | ⟨-, hc⟩
    · cases hg
      exact absurd hp (hnot' a)
    · exact (h.suspended k g a hc hp).later (hl _)
  case unset =>
    intro k g hc
    rw [hs] at hc
    rcases code_update_cases hc with ⟨rfl, hg⟩ | ⟨-, hc⟩
    · cases hg
      exact hunset
    · exact (h.unset k g hc).congr (fun u _ => (hl u).hasContinuation) fun u => (hl u).ready
  case waiting =>
    intro t executor k hc
    rw [(hl t).continuation] at hc
    obtain ⟨g, a, hg, hp, ha⟩ := h.waiting t executor k hc
    refine ⟨g, a, ?_, hp, ha⟩
    rw [hs, Function.update_of_ne]
    · exact hg
    · rintro rfl
      rw [hcode] at hg
      cases hg
      exact hnot a hp
  case kept =>
    intro t hset
    rw [(hl t).hasContinuation] at hset
    rcases h.kept t hset with hready | hsome
    · exact .inl ((hl t).ready hready).1
    · rw [(hl t).continuation]
      exact .inr hsome
  case scheduled =>
    intro t hsched
    rw [(hl t).unscheduled] at hsched
    exact (hl t).hasContinuation.trans (h.scheduled t hsched)

/-- Tasks end. -/
theorem Registered.later (h : Registered s) (hs : s'.code = s.code)
    (hl : ∀ u, (s.task u).Later (s'.task u)) : Registered s' := by
  constructor
  case suspended =>
    intro k g a hc hp
    rw [hs] at hc
    exact (h.suspended k g a hc hp).later (hl _)
  case unset =>
    intro k g hc
    rw [hs] at hc
    exact (h.unset k g hc).congr (fun u _ => (hl u).hasContinuation) fun u => (hl u).ready
  case waiting =>
    intro t executor k hc
    rw [(hl t).continuation] at hc
    rw [hs]
    exact h.waiting t executor k hc
  case kept =>
    intro t hset
    rw [(hl t).hasContinuation] at hset
    rw [(hl t).continuation]
    exact (h.kept t hset).imp_left fun hready => ((hl t).ready hready).1
  case scheduled =>
    intro t hsched
    rw [(hl t).unscheduled] at hsched
    exact (hl t).hasContinuation.trans (h.scheduled t hsched)

/-- A task is created, and nothing is known of what completes it. -/
theorem Registered.create (h : Registered s) {c : Code S V E L} (hnone : s.code s.created = none)
    (hfresh : s.task s.created = {})
    (hc : ∀ g, c = .coroutine g → g.place.Unset s.task ∧ ∀ a, g.place ≠ .suspended a) :
    Registered (s.create c) := by
  have htask : (s.create c).task = s.task := by
    rw [State.create, ← hfresh, Function.update_eq_self]
  constructor
  case suspended =>
    intro k g a hk hp
    rcases code_update_cases hk with ⟨rfl, rfl⟩ | ⟨-, hk⟩
    · exact absurd hp ((hc g rfl).2 a)
    · rw [htask]
      exact h.suspended k g a hk hp
  case unset =>
    intro k g hk
    rw [htask]
    rcases code_update_cases hk with ⟨rfl, rfl⟩ | ⟨-, hk⟩
    · exact (hc g rfl).1
    · exact h.unset k g hk
  case waiting =>
    intro t executor k hk
    rw [htask] at hk
    obtain ⟨g, a, hg, hp⟩ := h.waiting t executor k hk
    refine ⟨g, a, (Function.update_of_ne ?_ _ _).trans hg, hp⟩
    rintro rfl
    cases hnone.symm.trans hg
  case kept => rw [htask]; exact h.kept
  case scheduled => rw [htask]; exact h.scheduled

/-- `setContinuation`: until then the task has no continuation, and it has no other awaiter. -/
theorem Registered.register (h : Registered s) (ho : Owned rank s) {a : Awaiter S V E L}
    (current : Option X) (hcode : s.code n = some (.coroutine f))
    (hp : f.place = .registering a) : Registered (s.register n current f a) := by
  have hset : (s.task a.awaited).core.flags.hasContinuation = false := by
    have := h.unset n f hcode
    rwa [hp] at this
  have hunscheduled : (s.task a.awaited).core.flags.continuationScheduled = false :=
    Bool.eq_false_iff.2 fun hsched => by cases hset.symm.trans (h.scheduled _ hsched)
  have hheld : s.Holds n a.awaited := ⟨_, hcode, by rw [Code.Has, hp]; exact a.has_awaited⟩
  have hself : (s.register n current f a).task a.awaited =
      (s.task a.awaited).setContinuation n current := Function.update_self _ _ _
  have hwaits := (s.task a.awaited).setContinuation_waits n current hunscheduled
  have hrest : ∀ {t}, t ≠ a.awaited → (s.register n current f a).task t = s.task t :=
    fun ht => Function.update_of_ne ht _ _
  -- Another coroutine does not have the task.
  have hother : ∀ {k c u}, k ≠ n → s.code k = some c → c.Has u → u ≠ a.awaited := by
    rintro k c u hk hc hu rfl
    exact hk (ho.unique k n _ ⟨c, hc, hu⟩ hheld)
  constructor
  case suspended =>
    intro k g b hk hpb
    rcases code_update_cases (s := s.setTask _ _) hk with ⟨rfl, hg⟩ | ⟨hne, hk⟩
    · cases hg
      cases hpb
      rwa [hself]
    · rw [hrest (hother hne hk (by rw [Code.Has, hpb]; exact b.has_awaited))]
      exact h.suspended k g b hk hpb
  case unset =>
    intro k g hk
    rcases code_update_cases (s := s.setTask _ _) hk with ⟨rfl, hg⟩ | ⟨hne, hk⟩
    · cases hg
      trivial
    · refine (h.unset k g hk).congr (fun u hu => by rw [hrest (hother hne hk hu)]) fun u hr => ?_
      by_cases hu : u = a.awaited
      · subst hu
        rw [hself]
        exact ⟨hr, rfl⟩
      · rw [hrest hu]
        exact ⟨hr, rfl⟩
  case waiting =>
    intro t executor k hk
    by_cases ht : t = a.awaited
    · subst ht
      rw [hself] at hk
      obtain ⟨_, hc⟩ := hwaits.continuation
      cases hc.symm.trans hk
      exact ⟨_, a, Function.update_self _ _ _, rfl, rfl⟩
    · rw [hrest ht] at hk
      obtain ⟨g, b, hg, hpb, hb⟩ := h.waiting t executor k hk
      refine ⟨g, b, (Function.update_of_ne ?_ _ _).trans hg, hpb, hb⟩
      rintro rfl
      cases hcode.symm.trans hg
      cases hp.symm.trans hpb
  case kept =>
    intro t ht
    by_cases hta : t = a.awaited
    · subst hta
      rw [hself]
      exact .inr (Option.some_ne_none _)
    · rw [hrest hta] at ht ⊢
      exact h.kept t ht
  case scheduled =>
    intro t ht
    by_cases hta : t = a.awaited
    · subst hta
      rw [hself]
      rfl
    · rw [hrest hta] at ht ⊢
      exact h.scheduled t ht

/-- A continuation is called: the coroutine was suspended on the task, and goes on. -/
theorem Registered.invoke (h : Registered s) (ho : Owned rank s) {a : Awaiter S V E L}
    {current : Option X} {dispatch : Dispatch X Nat} {t : Task X V E}
    (hcode : s.code n = some (.coroutine f)) (hp : f.place = .suspended a)
    (hsched : (s.task a.awaited).schedule current = some (dispatch, t))
    (hnot : ∀ b, f'.place ≠ .suspended b) (hunset : f'.place.Unset s'.task)
    (htask : s'.task = Function.update s.task a.awaited t)
    (hs : s'.code = Function.update s.code n (some (.coroutine f'))) : Registered s' := by
  obtain ⟨⟨hready, hhas⟩, -, rfl⟩ := Task.schedule_eq hsched
  have hheld := Awaiter.has_awaited_suspended hcode hp
  have hself := congrFun htask a.awaited
  rw [Function.update_self] at hself
  have hrest : ∀ {u}, u ≠ a.awaited → s'.task u = s.task u := fun {u} hu =>
    (congrFun htask u).trans (Function.update_of_ne hu _ _)
  constructor
  case suspended =>
    intro k g b hk hpb
    rw [hs] at hk
    rcases code_update_cases hk with ⟨rfl, hg⟩ | ⟨hne, hk⟩
    · cases hg
      exact absurd hpb (hnot b)
    · rw [hrest]
      · exact h.suspended k g b hk hpb
      · intro hb
        have := Awaiter.has_awaited_suspended hk hpb
        rw [hb] at this
        exact hne (ho.unique k n _ this hheld)
  case unset =>
    intro k g hk
    rw [hs] at hk
    rcases code_update_cases hk with ⟨rfl, hg⟩ | ⟨-, hk⟩
    · cases hg
      exact hunset
    · refine (h.unset k g hk).congr (fun u _ => ?_) fun u hr => ?_
      · by_cases hu : u = a.awaited
        · subst hu
          rw [hself]
        · rw [hrest hu]
      · by_cases hu : u = a.awaited
        · subst hu
          rw [hself]
          exact ⟨hr, rfl⟩
        · rw [hrest hu]
          exact ⟨hr, rfl⟩
  case waiting =>
    intro u executor k hk
    by_cases hu : u = a.awaited
    · subst hu
      rw [hself] at hk
      cases hk
    · rw [hrest hu] at hk
      obtain ⟨g, b, hg, hpb, rfl⟩ := h.waiting u executor k hk
      refine ⟨g, b, ?_, hpb, rfl⟩
      rw [hs]
      refine (Function.update_of_ne ?_ _ _).trans hg
      rintro rfl
      cases hcode.symm.trans hg
      cases hp.symm.trans hpb
      exact hu rfl
  case kept =>
    intro u hset
    by_cases hu : u = a.awaited
    · subst hu
      rw [hself]
      exact .inl hready
    · rw [hrest hu] at hset ⊢
      exact h.kept u hset
  case scheduled =>
    intro u hset
    by_cases hu : u = a.awaited
    · subst hu
      rw [hself]
      exact hhas
    · rw [hrest hu] at hset ⊢
      exact h.scheduled u hset

end MyEngine.Async.Coroutine
