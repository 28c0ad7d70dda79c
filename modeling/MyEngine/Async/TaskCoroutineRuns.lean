import MyEngine.Async.TaskCoroutineInv
import MyEngine.Support.Tally
import Mathlib.Logic.Equiv.Fin.Basic

/-!
# Async — TaskCoroutineRuns

The runs of a tree of coroutines, in any order of their operations and of what completes the
leaves.

* `Inv`: what `TaskCoroutineInv` says of the coroutines, together.
* `State.bound`: how many operations are left at most; every step leaves fewer.
* `step_of_bound`: while some are left, one can be carried out.
* `tree_completes`: a run is finite, and at its end every coroutine has done what it means.
-/

namespace MyEngine.Async.Coroutine

open Runs

variable {X S V E L : Type} {makeError : String → E} {outcomes : Outcomes V E L}
  {μ μ' : Nat → Except E V} {rank : Nat → Nat} {s s' : State X S V E L} {n : Nat}
  {f f' : Frame S V E L}

/-- What completes the task `n` completes it with what `μ` says. -/
def Code.Meant (makeError : String → E) (outcomes : Outcomes V E L) (μ : Nat → Except E V)
    (n : Nat) (t : Task X V E) : Code S V E L → Prop
  | .leaf l      => μ n = outcomes.source l ∧ t.Agrees (μ n)
  | .coroutine f => f.Meant makeError outcomes μ n t

/-- A task that has ended no more is still meant. -/
theorem Code.Meant.task {c : Code S V E L} {t t' : Task X V E}
    (h : c.Meant makeError outcomes μ n t) (ht : ∀ r, t.Holds r → t'.Holds r) :
    c.Meant makeError outcomes μ n t' := by
  cases c with
  | leaf l => exact ⟨h.1, h.2.imp (ht _) (ht _)⟩
  | coroutine f => exact { h with task := ht _ (Frame.Meant.task h) }

theorem Code.Meant.agrees {c : Code S V E L} {t : Task X V E}
    (h : c.Meant makeError outcomes μ n t) : t.Agrees (μ n) := by
  cases c with
  | leaf l => exact h.2
  | coroutine f => exact Frame.Meant.agrees h

/-- What every run keeps. -/
structure Inv (makeError : String → E) (outcomes : Outcomes V E L) (μ : Nat → Except E V)
    (rank : Nat → Nat) (s : State X S V E L) : Prop where
  meant : ∀ n c, s.code n = some c → c.Meant makeError outcomes μ n (s.task n)
  owned : Owned rank s
  registered : Registered s
  fresh : ∀ n, s.created ≤ n → s.task n = {}

/-! ### How much is left -/

section
variable (makeError outcomes) (μ : Nat → Except E V)

def Code.bound (t : Task X V E) : Code S V E L → Nat
  | .leaf _      => if t.isReady then 0 else 1
  | .coroutine f => f.place.bound makeError outcomes μ

def State.boundAt (s : State X S V E L) (n : Nat) : Nat :=
  (s.code n).elim 0 fun c => c.bound makeError outcomes μ (s.task n)

/-- How many operations are left at most. -/
def State.bound (s : State X S V E L) : Nat :=
  tally (s.boundAt makeError outcomes μ) (List.range s.created)

end

theorem Awaiter.bound_congr {a : Awaiter S V E L} (h : ∀ u, a.Has u → μ' u = μ u) :
    a.bound makeError outcomes μ' = a.bound makeError outcomes μ := by
  cases a with
  | task t next tasks | tryTask t next tasks =>
      rw [Awaiter.bound, Awaiter.bound, comp_congr fun i => h _ (.inr ⟨i, rfl⟩), h t (.inl rfl)]

theorem Place.bound_congr {place : Place S V E L} (h : ∀ u, place.Has u → μ' u = μ u) :
    place.bound makeError outcomes μ' = place.bound makeError outcomes μ := by
  cases place with
  | running body tasks =>
      rw [Place.bound, Place.bound, comp_congr fun i => h _ ⟨i, rfl⟩]
  | suspending t next tasks =>
      rw [Place.bound, Place.bound, Awaiter.bound_congr (a := .task t next tasks) h]
  | registering a | suspended a => rw [Place.bound, Place.bound, Awaiter.bound_congr h]
  | delayed leaf next tasks =>
      rw [Place.bound, Place.bound, comp_congr fun i => h _ ⟨i, rfl⟩]
  | leaving | destroyed => rfl

/-- One coroutine has less left, and the others have what they had. -/
theorem State.bound_lt (hn : n < s.created) (hcreated : s'.created = s.created)
    (hlt : s'.boundAt makeError outcomes μ n < s.boundAt makeError outcomes μ n)
    (hrest : ∀ u, u ≠ n → s'.boundAt makeError outcomes μ u = s.boundAt makeError outcomes μ u) :
    s'.bound makeError outcomes μ < s.bound makeError outcomes μ := by
  have := tally_update List.nodup_range (List.mem_range.2 hn) fun u _ hu => hrest u hu
  rw [State.bound, State.bound, hcreated]
  omega

theorem State.boundAt_of_code {c : Code S V E L} (h : s.code n = some c) :
    s.boundAt makeError outcomes μ n = c.bound makeError outcomes μ (s.task n) := by
  rw [State.boundAt, h]
  rfl

/-- One more task, which `c` completes, and the coroutine `n` is at `place`. -/
structure State.Creates (n : Nat) (f : Frame S V E L) (c : Code S V E L)
    (place : Place S V E L) (s s' : State X S V E L) : Prop where
  created : s'.created = s.created + 1
  task : s'.task = s.task
  self : s'.code n = some (.coroutine { f with place := place })
  new : s'.code s.created = some c
  rest : ∀ {u}, u ≠ n → u ≠ s.created → s'.code u = s.code u

theorem State.creates {c : Code S V E L} {place : Place S V E L}
    (hfresh : s.task s.created = {}) (hne : n ≠ s.created) :
    State.Creates n f c place s ((s.create c).setFrame n { f with place := place }) where
  created := rfl
  task := by rw [State.setFrame, State.create, ← hfresh, Function.update_eq_self]
  self := Function.update_self _ _ _
  new := by simp [State.setFrame, State.create, hne.symm]
  rest hu hu' := by simp [State.setFrame, State.create, hu, hu']

/-- The new task and the coroutine have less left together than the coroutine had. -/
theorem State.Creates.bound_lt {c : Code S V E L} {place : Place S V E L}
    (h : State.Creates n f c place s s') (hn : n < s.created)
    (hcode : s.code n = some (.coroutine f))
    (hrest : ∀ u < s.created, u ≠ n →
      s'.boundAt makeError outcomes μ' u = s.boundAt makeError outcomes μ u)
    (hlt : c.bound makeError outcomes μ' (s.task s.created) + place.bound makeError outcomes μ' <
      f.place.bound makeError outcomes μ) :
    s'.bound makeError outcomes μ' < s.bound makeError outcomes μ := by
  have hset := tally_update List.nodup_range (List.mem_range.2 hn)
    fun u hu => hrest u (List.mem_range.1 hu)
  rw [State.boundAt_of_code h.self, State.boundAt_of_code hcode] at hset
  have hnew : s'.boundAt makeError outcomes μ' s.created =
      c.bound makeError outcomes μ' (s.task s.created) := by
    rw [State.boundAt_of_code h.new, h.task]
  rw [State.bound, State.bound, h.created, List.range_succ, tally_append, tally_cons, tally_nil,
    hnew]
  simp only [Code.bound] at hset
  omega

/-- The tasks are what they were, those that `changed` says apart. -/
structure State.SameTasks (changed : Nat → Prop) (s s' : State X S V E L) : Prop where
  created : s'.created = s.created
  fresh : ∀ u, s.created ≤ u → s'.task u = s.task u
  holds : ∀ u, ¬ changed u → ∀ r, (s.task u).Holds r → (s'.task u).Holds r
  ready : ∀ u, ¬ changed u → (s'.task u).isReady = (s.task u).isReady

theorem State.SameTasks.mono {changed : Nat → Prop} (h : State.SameTasks (fun _ => False) s s') :
    State.SameTasks changed s s' where
  created := h.created
  fresh := h.fresh
  holds u _ := h.holds u id
  ready u _ := h.ready u id

theorem State.SameTasks.setFrame : State.SameTasks (fun _ => False) s (s.setFrame n f) :=
  ⟨rfl, fun _ _ => rfl, fun _ _ _ => id, fun _ _ => rfl⟩

theorem State.setTask_task_self (n u : Nat) (t : Task X V E) (f : Frame S V E L)
    (s : State X S V E L) : ((s.setTask n t).setFrame u f).task n = t := by
  simp [State.setFrame, State.setTask]

theorem State.setTask_task_of_ne {v : Nat} (hv : v ≠ n) (u : Nat) (t : Task X V E)
    (f : Frame S V E L) (s : State X S V E L) :
    ((s.setTask n t).setFrame u f).task v = s.task v := by
  simp [State.setFrame, State.setTask, hv]

/-- A task of the tree is replaced. -/
theorem State.SameTasks.setTask (hn : n < s.created) (t : Task X V E) (u : Nat) :
    State.SameTasks (· = n) s ((s.setTask n t).setFrame u f) where
  created := rfl
  fresh v hv := State.setTask_task_of_ne (Nat.ne_of_gt (Nat.lt_of_lt_of_le hn hv)) u t f s
  holds v hv r hr := by rwa [State.setTask_task_of_ne hv]
  ready v hv := by rw [State.setTask_task_of_ne hv]

/-- A task of the tree is replaced by one that has ended no more than it. -/
theorem State.SameTasks.setContinuation (hn : n < s.created) {t : Task X V E}
    (hholds : ∀ r, (s.task n).Holds r → t.Holds r) (hready : t.isReady = (s.task n).isReady)
    (u : Nat) : State.SameTasks (fun _ => False) s ((s.setTask n t).setFrame u f) := by
  have h := State.SameTasks.setTask (f := f) hn t u
  refine ⟨rfl, h.fresh, fun v _ => ?_, fun v _ => ?_⟩
  · by_cases hv : v = n
    · subst hv
      rwa [State.setTask_task_self]
    · exact h.holds v hv
  · by_cases hv : v = n
    · subst hv
      rwa [State.setTask_task_self]
    · exact h.ready v hv

theorem State.later_setTask {t : Task X V E} (h : (s.task n).Later t) (u v : Nat) :
    (s.task v).Later (((s.setTask n t).setFrame u f).task v) := by
  by_cases hv : v = n
  · subst hv
    rwa [State.setTask_task_self]
  · rw [State.setTask_task_of_ne hv]
    exact .refl _

/-- What a step leads to. -/
def Advances (makeError : String → E) (outcomes : Outcomes V E L) (μ : Nat → Except E V)
    (s s' : State X S V E L) : Prop :=
  ∃ μ' rank', Inv makeError outcomes μ' rank' s' ∧
    s'.bound makeError outcomes μ' < s.bound makeError outcomes μ ∧
    ∀ n f, s.code n = some (.coroutine f) →
      ∃ f', s'.code n = some (.coroutine f') ∧ f'.called = f.called

namespace Inv

/-- The task of every coroutine and leaf has not ended, or with what `μ` says. -/
theorem agrees (h : Inv makeError outcomes μ rank s) {u : Nat} (hu : u < s.created) :
    (s.task u).Agrees (μ u) := by
  obtain ⟨c, hc⟩ := Option.ne_none_iff_exists'.1 ((h.owned.created u).1 hu)
  exact (h.meant u c hc).agrees

theorem frame (h : Inv makeError outcomes μ rank s) (hcode : s.code n = some (.coroutine f)) :
    f.Meant makeError outcomes μ n (s.task n) :=
  h.meant n _ hcode

/-- A task that has been there means the same, whatever a new one ends with. -/
theorem meant_congr (h : Inv makeError outcomes μ rank s)
    (hμ : ∀ u < s.created, μ' u = μ u) {c : Code S V E L} (hc : s.code n = some c) :
    c.Meant makeError outcomes μ' n (s.task n) := by
  have hn := h.owned.lt_created hc
  cases c with
  | leaf l =>
      obtain ⟨hl, hagrees⟩ : _ ∧ (s.task n).Agrees (μ n) := h.meant n _ hc
      rw [← hμ n hn] at hl hagrees
      exact ⟨hl, hagrees⟩
  | coroutine f =>
      refine Frame.Meant.congr (h.frame hc) (hμ n hn) (fun i => hμ _ ?_) fun u hu => hμ u ?_
      · exact Nat.lt_trans (h.owned.arguments n f hc i) hn
      · exact (h.owned.held n u ⟨_, hc, hu⟩).1

/-- Likewise what is left of what completes it. -/
theorem boundAt_congr (h : Inv makeError outcomes μ rank s) (hμ : ∀ u < s.created, μ' u = μ u)
    (hn : n < s.created) (htask : s'.task = s.task) (hcode : s'.code n = s.code n) :
    s'.boundAt makeError outcomes μ' n = s.boundAt makeError outcomes μ n := by
  obtain ⟨c, hc⟩ := Option.ne_none_iff_exists'.1 ((h.owned.created n).1 hn)
  rw [State.boundAt, State.boundAt, hcode, htask, hc]
  cases c with
  | leaf l => rfl
  | coroutine f => exact Place.bound_congr fun u hu => hμ u (h.owned.held n u ⟨_, hc, hu⟩).1

theorem agrees_of_has (h : Inv makeError outcomes μ rank s) (hcode : s.code n = some (.coroutine f))
    {u : Nat} (hu : f.place.Has u) : (s.task u).Agrees (μ u) :=
  h.agrees (h.owned.held n u ⟨_, hcode, hu⟩).1

/-- The coroutine `n` goes on with tasks it had; the other tasks end with what they have ended
with. -/
theorem update (h : Inv makeError outcomes μ rank s) (hcode : s.code n = some (.coroutine f))
    (hs : s'.code = Function.update s.code n (some (.coroutine f')))
    (hsame : State.SameTasks (· = n) s s') (hcalled : f'.called = f.called)
    (hkeep : ∀ u, f'.place.Has u → f.place.Has u) (hd : f'.place.Distinct)
    (hregistered : Registered s') (hf : f'.Meant makeError outcomes μ n (s'.task n))
    (hbound : f'.place.bound makeError outcomes μ < f.place.bound makeError outcomes μ) :
    Advances makeError outcomes μ s s' := by
  have hself : s'.code n = some (.coroutine f') := by rw [hs, Function.update_self]
  have hrest : ∀ {u}, u ≠ n → s'.code u = s.code u := fun hu => by
    rw [hs, Function.update_of_ne hu]
  refine ⟨μ, rank, ⟨?_, ?_, hregistered, ?_⟩, ?_, ?_⟩
  · intro u c hc
    by_cases hu : u = n
    · subst hu
      cases hself.symm.trans hc
      exact hf
    · exact (h.meant u c (hrest hu ▸ hc)).task (hsame.holds u hu)
  · exact h.owned.update hcode hsame.created hs hcalled hkeep hd
  · intro u hu
    rw [hsame.created] at hu
    rw [hsame.fresh u hu, h.fresh u hu]
  · refine State.bound_lt (h.owned.lt_created hcode) hsame.created ?_ fun u hu => ?_
    · rwa [State.boundAt_of_code hself, State.boundAt_of_code hcode]
    · rw [State.boundAt, State.boundAt, hrest hu]
      cases s.code u with
      | none => rfl
      | some c =>
          cases c with
          | leaf l => simp only [Option.elim, Code.bound, hsame.ready u hu]
          | coroutine g => rfl
  · intro u g hg
    by_cases hu : u = n
    · subst hu
      cases hcode.symm.trans hg
      exact ⟨f', hself, hcalled⟩
    · exact ⟨g, (hrest hu).trans hg, rfl⟩

/-- A coroutine goes on; the tasks have not changed. -/
theorem goto {log : List S} {place : Place S V E L} (h : Inv makeError outcomes μ rank s)
    (hcode : s.code n = some (.coroutine f))
    (hm : Moves makeError outcomes s.task f.place (.goto log place))
    (hs : s'.code = Function.update s.code n
      (some (.coroutine { f with log := f.log ++ log, place := place })))
    (hsame : State.SameTasks (fun _ => False) s s') (hregistered : Registered s') :
    Advances makeError outcomes μ s s' := by
  have htask := fun u => h.agrees_of_has hcode (u := u)
  obtain ⟨hkeep, hd⟩ := hm.owns (h.owned.distinct n _ hcode)
  have hf := (h.frame hcode).goto hm htask
  exact h.update hcode hs hsame.mono rfl hkeep hd hregistered
    { hf with task := hsame.holds n id _ hf.task } (hm.bound htask)

/-- A coroutine is to be destroyed with an error; the tasks have not changed. -/
theorem fail {error : E} (h : Inv makeError outcomes μ rank s)
    (hcode : s.code n = some (.coroutine f))
    (hm : Moves makeError outcomes s.task f.place (.fail error))
    (hs : s'.code = Function.update s.code n
      (some (.coroutine { f with errorOnDestroy := some error, place := .leaving })))
    (hsame : State.SameTasks (fun _ => False) s s') (hregistered : Registered s') :
    Advances makeError outcomes μ s s' := by
  have htask := fun u => h.agrees_of_has hcode (u := u)
  have hf := (h.frame hcode).fail hm htask
  exact h.update hcode hs hsame.mono rfl (fun _ hu => hu.elim) trivial hregistered
    { hf with task := hsame.holds n id _ hf.task } (hm.bound htask)

/-- A coroutine completes its task. -/
theorem finish {result : Except E V} (h : Inv makeError outcomes μ rank s)
    (hcode : s.code n = some (.coroutine f)) (hnot : ∀ a, f.place ≠ .suspended a)
    (hm : Moves makeError outcomes s.task f.place (.finish result)) :
    Advances makeError outcomes μ s (s.move n f (.finish result)) := by
  have htask := fun u => h.agrees_of_has hcode (u := u)
  have hlt := h.owned.lt_created hcode
  refine h.update hcode rfl (.setTask hlt _ n) rfl (fun _ hu => hu.elim) trivial
    (h.registered.update hcode hnot (fun a ha => by cases ha) rfl ?_ trivial) ?_ (hm.bound htask)
  · exact State.later_setTask ((s.task n).later_complete result) n
  · rw [State.move, State.setTask_task_self]
    exact (h.frame hcode).finish hm htask

/-- `setContinuation`. -/
theorem register {a : Awaiter S V E L} (h : Inv makeError outcomes μ rank s)
    (current : Option X) (hcode : s.code n = some (.coroutine f))
    (hp : f.place = .registering a) :
    Advances makeError outcomes μ s (s.register n current f a) := by
  have hhas : f.place.Has a.awaited := by rw [hp]; exact a.has_awaited
  have hlt := (h.owned.held n _ ⟨_, hcode, hhas⟩).1
  have hsame : State.SameTasks (fun _ => False) s (s.register n current f a) :=
    .setContinuation hlt (fun r hr => hr.setContinuation n current) rfl n
  have hf := (h.frame hcode).suspend hp
  refine h.update hcode rfl hsame.mono rfl (fun u hu => ?_) ?_
    (h.registered.register h.owned current hcode hp)
    { hf with task := hsame.holds n id _ hf.task } ?_
  · rw [hp]
    exact hu
  · have := h.owned.distinct n _ hcode
    rw [Code.Distinct, hp] at this
    exact this
  · rw [hp]
    exact Nat.lt_succ_self _

/-- A frame is destroyed. -/
theorem destroy (h : Inv makeError outcomes μ rank s) (hcode : s.code n = some (.coroutine f))
    (hp : f.place = .leaving) :
    Advances makeError outcomes μ s (s.destroy makeError n f) := by
  have hlt := h.owned.lt_created hcode
  have hnot : ∀ a, f.place ≠ .suspended a := fun a ha => by cases hp.symm.trans ha
  refine h.update hcode rfl (.setTask hlt _ n) rfl (fun _ hu => hu.elim) trivial
    (h.registered.update hcode hnot (fun a ha => by cases ha) rfl ?_ trivial) ?_ ?_
  · refine State.later_setTask (.trans ?_ (Task.later_abandon _)) n
    cases f.errorOnDestroy with
    | none => exact .refl _
    | some error => exact (s.task n).later_reject error
  · rw [State.destroy, State.setTask_task_self]
    exact (h.frame hcode).destroy hp
  · rw [hp]
    exact Nat.one_pos

/-- The source of a leaf is completed. -/
theorem complete {l : L} (h : Inv makeError outcomes μ rank s) (hcode : s.code n = some (.leaf l))
    (hready : (s.task n).isReady = false) :
    Advances makeError outcomes μ s
      (s.setTask n ((s.task n).complete (outcomes.source l))) := by
  obtain ⟨hμ, hagrees⟩ : _ ∧ (s.task n).Agrees (μ n) := h.meant n _ hcode
  have hnone : (s.task n).Holds none :=
    hagrees.resolve_right fun hsome => by cases hready.symm.trans hsome.ready
  have hdone := hnone.complete (outcomes.source l)
  have hlt := h.owned.lt_created hcode
  set t := (s.task n).complete (outcomes.source l) with ht
  have hself : (s.setTask n t).task n = t := Function.update_self _ _ _
  have hrest : ∀ {u}, u ≠ n → (s.setTask n t).task u = s.task u :=
    fun hu => Function.update_of_ne hu _ _
  refine ⟨μ, rank, ⟨?_, ?_, ?_, ?_⟩, ?_, fun u g hg => ⟨g, hg, rfl⟩⟩
  · intro u c hc
    by_cases hu : u = n
    · subst hu
      cases hcode.symm.trans hc
      rw [hself]
      refine ⟨hμ, .inr ?_⟩
      rwa [hμ]
    · rw [hrest hu]
      exact h.meant u c hc
  · exact ⟨h.owned.created, h.owned.arguments, h.owned.held, h.owned.unique, h.owned.distinct⟩
  · refine h.registered.later rfl fun u => ?_
    by_cases hu : u = n
    · subst hu
      rw [hself]
      exact (s.task u).later_complete _
    · rw [hrest hu]
      exact .refl _
  · intro u hu
    rw [hrest]
    · exact h.fresh u hu
    · exact Nat.ne_of_gt (Nat.lt_of_lt_of_le hlt hu)
  · refine State.bound_lt hlt rfl ?_ fun u hu => ?_
    · rw [State.boundAt_of_code hcode, State.boundAt_of_code (s := s.setTask n t) hcode, hself]
      simp only [Code.bound, hready, show t.isReady = true from hdone.ready]
      decide
    · change (s.code u).elim 0 _ = (s.code u).elim 0 _
      rw [hrest hu]

/-- The coroutine `n` creates a task that `c` completes with `result`. -/
theorem create {c : Code S V E L} {k : Nat} {next : Body S V E L (k + 1)} {tasks : Fin k → Nat}
    {result : Except E V} (h : Inv makeError outcomes μ rank s)
    (hcode : s.code n = some (.coroutine f)) (hl : f.place.Live)
    (hnot : ∀ a, f.place ≠ .suspended a)
    (hnew : ∀ μ' : Nat → Except E V, (∀ u < s.created, μ' u = μ u) → μ' s.created = result →
      c.Meant makeError outcomes μ' s.created ({} : Task X V E) ∧
        c.bound makeError outcomes μ' ({} : Task X V E) +
          next.bound makeError outcomes (Fin.cons result (μ ∘ tasks)) <
            f.place.bound makeError outcomes μ)
    (hunset : ∀ g, c = .coroutine g → g.place.Unset s.task ∧ ∀ a, g.place ≠ .suspended a)
    (hrest : f.called.eval makeError outcomes μ =
      (next.eval makeError outcomes (Fin.cons result (μ ∘ tasks))).map (f.log ++ ·) id)
    (howned : Owned (behind rank n s.created) ((s.create c).setFrame n
      { f with place := .running next (Fin.cons s.created tasks) }))
    (hkept : ∀ i, f.place.Has (tasks i)) :
    Advances makeError outcomes μ s ((s.create c).setFrame n
      { f with place := .running next (Fin.cons s.created tasks) }) := by
  have hlt := h.owned.lt_created hcode
  have hfresh : s.task s.created = {} := h.fresh _ (Nat.le_refl _)
  have hcreates : State.Creates n f c (.running next (Fin.cons s.created tasks)) s _ :=
    State.creates hfresh (Nat.ne_of_lt hlt)
  have hnone : s.code s.created = none := by
    by_contra hsome
    exact Nat.lt_irrefl _ ((h.owned.created _).2 hsome)
  -- The new task is given its meaning.
  let μ' := Function.update μ s.created result
  have hμ : ∀ u < s.created, μ' u = μ u := fun u hu => Function.update_of_ne (Nat.ne_of_lt hu) _ _
  have hμ' : μ' s.created = result := Function.update_self _ _ _
  have hcons : μ' ∘ (Fin.cons s.created tasks : Fin (k + 1) → Nat) =
      Fin.cons result (μ ∘ tasks) := by
    rw [Fin.comp_cons, hμ', comp_congr fun i => hμ _ (h.owned.held n _ ⟨_, hcode, hkept i⟩).1]
  obtain ⟨hmeant, hbound⟩ := hnew μ' hμ hμ'
  refine ⟨μ', _, ⟨?_, howned, ?_, ?_⟩, ?_, ?_⟩
  · intro u c' hc'
    rw [hcreates.task]
    by_cases hu : u = n
    · subst hu
      cases hcreates.self.symm.trans hc'
      refine Frame.Meant.create (h.meant_congr hμ hcode) hl ?_
      have heval : f.called.eval makeError outcomes μ' = f.called.eval makeError outcomes μ := by
        rw [Call.eval, Call.eval, comp_congr fun i =>
          hμ _ (Nat.lt_trans (h.owned.arguments u f hcode i) hlt)]
      rw [heval, ← Fin.comp_cons, hcons, hrest]
    · by_cases hu' : u = s.created
      · subst hu'
        cases hcreates.new.symm.trans hc'
        rw [hfresh]
        exact hmeant
      · exact h.meant_congr hμ (hcreates.rest hu hu' ▸ hc')
  · refine (h.registered.create hnone hfresh hunset).update (n := n) (f := f) ?_ hnot
      (fun a ha => by cases ha) rfl (fun u => ?_) trivial
    · exact (Function.update_of_ne (Nat.ne_of_lt hlt) _ _).trans hcode
    · exact .refl _
  · intro u hu
    rw [hcreates.task]
    exact h.fresh u (Nat.le_of_succ_le hu)
  · refine hcreates.bound_lt hlt hcode (fun u hu hne => ?_) ?_
    · exact h.boundAt_congr hμ hu hcreates.task (hcreates.rest hne (Nat.ne_of_lt hu))
    · rw [hfresh, Place.bound, hcons]
      exact hbound
  · intro u g hg
    by_cases hu : u = n
    · subst hu
      cases hcode.symm.trans hg
      exact ⟨_, hcreates.self, rfl⟩
    · refine ⟨g, (hcreates.rest hu ?_).trans hg, rfl⟩
      rintro rfl
      cases hnone.symm.trans hg

theorem call {k m : Nat} {callee : Body S V E L m} {arguments : Fin m → Nat}
    {next : Body S V E L (k + 1)} {tasks : Fin k → Nat} (h : Inv makeError outcomes μ rank s)
    (hcode : s.code n = some (.coroutine f)) (hnot : ∀ a, f.place ≠ .suspended a)
    (hm : Moves makeError outcomes s.task f.place (.call callee arguments next tasks)) :
    Advances makeError outcomes μ s (s.move n f (.call callee arguments next tasks)) := by
  have htask := fun u => h.agrees_of_has hcode (u := u)
  obtain ⟨⟨hiarguments, hitasks, hapart⟩, hgiven, hkept⟩ := hm.owns (h.owned.distinct n _ hcode)
  have hlt : ∀ i, arguments i < s.created := fun i => (h.owned.held n _ ⟨_, hcode, hgiven i⟩).1
  refine h.create hcode hm.live hnot (fun μ' hμ hμ' => ?_) ?_
    ((h.frame hcode).rest_move hm htask) ?_ hkept
  · have hcomp : μ' ∘ arguments = μ ∘ arguments := comp_congr fun i => hμ _ (hlt i)
    refine ⟨Frame.Meant.start ?_ Task.holds_new, ?_⟩
    · rw [hμ', Call.eval, hcomp]
    · change callee.bound makeError outcomes (μ' ∘ arguments) + _ < _
      rw [hcomp]
      exact hm.bound htask
  · rintro g ⟨⟩
    exact ⟨trivial, fun a ha => by cases ha⟩
  · refine h.owned.create hcode (fun u hu => ?_) hkept (fun i hi => ?_) hiarguments hitasks ?_
    · obtain ⟨i, rfl⟩ := hu
      exact hgiven i
    · obtain ⟨j, hj⟩ := hi
      exact hapart j i hj
    · rintro g ⟨⟩
      exact hlt

theorem source {k : Nat} {l : L} {next : Body S V E L (k + 1)} {tasks : Fin k → Nat}
    (h : Inv makeError outcomes μ rank s)
    (hcode : s.code n = some (.coroutine f)) (hnot : ∀ a, f.place ≠ .suspended a)
    (hm : Moves makeError outcomes s.task f.place (.source l next tasks)) :
    Advances makeError outcomes μ s (s.move n f (.source l next tasks)) := by
  have htask := fun u => h.agrees_of_has hcode (u := u)
  obtain ⟨hitasks, hkept⟩ := hm.owns (h.owned.distinct n _ hcode)
  refine h.create hcode hm.live hnot (fun μ' _ hμ' => ⟨⟨hμ', .inl Task.holds_new⟩, ?_⟩)
    (fun g hg => by cases hg) ((h.frame hcode).rest_move hm htask) ?_ hkept
  · rw [Nat.add_comm]
    exact hm.bound htask
  · exact h.owned.create hcode (fun _ hu => hu.elim) hkept (fun _ hi => hi) trivial hitasks
      fun g hg => by cases hg

/-- A coroutine that is not suspended makes a move. -/
theorem move {move : Move S V E L} (h : Inv makeError outcomes μ rank s)
    (hcode : s.code n = some (.coroutine f)) (hnot : ∀ a, f.place ≠ .suspended a)
    (hm : Moves makeError outcomes s.task f.place move) :
    Advances makeError outcomes μ s (s.move n f move) := by
  cases move with
  | goto log place =>
      refine h.goto hcode hm rfl .setFrame (h.registered.update hcode hnot hm.not_suspended rfl
        (fun _ => .refl _) (hm.unset (fun hp i hready => ?_) (h.registered.unset n f hcode)))
      refine h.registered.free h.owned hcode hnot ?_ hready
      rw [hp]
      exact ⟨i, rfl⟩
  | finish result => exact h.finish hcode hnot hm
  | fail error =>
      exact h.fail hcode hm rfl .setFrame (h.registered.update hcode hnot
        (fun a ha => by cases ha) rfl (fun _ => .refl _) trivial)
  | call callee arguments next tasks => exact h.call hcode hnot hm
  | source leaf next tasks => exact h.source hcode hnot hm

/-- The continuation of a task is called. -/
theorem invoke {current : Option X} {dispatch : Dispatch X Nat} {t : Task X V E} {u : Nat}
    {a : Awaiter S V E L} {move : Move S V E L} (h : Inv makeError outcomes μ rank s)
    (hsched : (s.task u).schedule current = some (dispatch, t))
    (hcode : s.code dispatch.invocation = some (.coroutine f)) (hp : f.place = .suspended a)
    (hmove : a.resume s.task = some move) :
    Advances makeError outcomes μ s ((s.setTask u t).move dispatch.invocation f move) := by
  obtain ⟨-, ⟨executor, hc⟩, ht⟩ := Task.schedule_eq hsched
  obtain ⟨g, b, hg, hpb, rfl⟩ := h.registered.waiting u executor _ hc
  cases hcode.symm.trans hg
  cases hp.symm.trans hpb
  have hm : Moves makeError outcomes s.task f.place move := hp ▸ .of_resume hmove
  have hlt := (h.owned.held _ _ (Awaiter.has_awaited_suspended hcode hp)).1
  have hsame : ∀ g, State.SameTasks (fun _ => False) s
      ((s.setTask a.awaited t).setFrame dispatch.invocation g) := fun g =>
    .setContinuation hlt (fun r hr => hr.schedule hsched) (by rw [ht]; rfl) _
  cases move with
  | goto log place =>
      refine h.goto hcode hm rfl (hsame _) (h.registered.invoke h.owned hcode hp hsched
        hm.not_suspended ?_ rfl rfl)
      rw [hp] at hm
      exact hm.unset_of_suspended _
  | fail error =>
      refine h.fail hcode hm rfl (hsame _) (h.registered.invoke h.owned hcode hp hsched
        (fun a ha => by cases ha) ?_ rfl rfl)
      trivial
  | finish | call | source =>
      rw [hp] at hm
      cases hm

theorem run {current : Option X} (h : Inv makeError outcomes μ rank s)
    (hcode : s.code n = some (.coroutine f))
    (hs : s.stepFrame makeError n current f = some s') : Advances makeError outcomes μ s s' := by
  rw [State.stepFrame] at hs
  split at hs
  next m body tasks hp =>
    obtain ⟨move, hmove, rfl⟩ := Option.map_eq_some_iff.1 hs
    refine h.move hcode (fun a ha => by cases hp.symm.trans ha) ?_
    rw [hp]
    exact .of_next hmove
  next m t next tasks hp =>
    cases hs
    refine h.move hcode (fun a ha => by cases hp.symm.trans ha) ?_
    rw [hp]
    exact .of_suspend t next tasks
  next a hp =>
    cases hs
    exact h.register current hcode hp
  next hp =>
    cases hs
    exact h.destroy hcode hp
  all_goals cases hs

/-- Every step keeps the invariant, and leaves fewer operations. -/
theorem step {a : Action X} (h : Inv makeError outcomes μ rank s)
    (hs : step makeError outcomes s a = some s') : Advances makeError outcomes μ s s' := by
  cases a with
  | complete n =>
      rw [Coroutine.step] at hs
      split at hs
      next l hcode =>
        split at hs
        next => cases hs
        next hready =>
          cases hs
          exact h.complete hcode (Bool.eq_false_iff.2 hready)
      next => cases hs
  | expire n =>
      rw [Coroutine.step] at hs
      split at hs
      next f hcode =>
        split at hs
        next m leaf next tasks hp =>
          cases hs
          refine h.move hcode (fun a ha => by cases hp.symm.trans ha) ?_
          rw [hp]
          exact .of_expire leaf next tasks
        next => cases hs
      next => cases hs
  | run n current =>
      rw [Coroutine.step] at hs
      split at hs
      next f hcode => exact h.run hcode hs
      next => cases hs
  | invoke n current =>
      obtain ⟨⟨dispatch, t⟩, hsched, hs⟩ := Option.bind_eq_some_iff.1 hs
      dsimp only at hs
      split at hs
      next f hcode =>
        split at hs
        next a hp =>
          obtain ⟨move, hmove, rfl⟩ := Option.map_eq_some_iff.1 hs
          exact h.invoke hsched hcode hp hmove
        next => cases hs
      next => cases hs

end Inv

/-! ### The end of a run -/

/-- No operation can be carried out. -/
def Settled (makeError : String → E) (outcomes : Outcomes V E L) (s : State X S V E L) : Prop :=
  ∀ a, step makeError outcomes s a = none

/-- A coroutine that is suspended on a task that is ready is resumed. -/
theorem Inv.not_ready_of_settled {a : Awaiter S V E L} (h : Inv makeError outcomes μ rank s)
    (hset : Settled makeError outcomes s) (hcode : s.code n = some (.coroutine f))
    (hp : f.place = .suspended a) : (s.task a.awaited).isReady = false := by
  have hwaits := h.registered.suspended n f a hcode hp
  obtain ⟨executor, hc⟩ := hwaits.continuation
  have hlt := (h.owned.held n _ (Awaiter.has_awaited_suspended hcode hp)).1
  refine Bool.eq_false_iff.2 fun hready => ?_
  have hresume := Awaiter.resume_ne_none (a := a) ((h.agrees hlt).of_ready hready)
  have hstep := hset (.invoke a.awaited none)
  have hdue : (s.task a.awaited).core.Due := ⟨hready, hwaits.hasContinuation⟩
  rw [Coroutine.step, Task.schedule, if_pos ⟨hdue, hwaits.unscheduled⟩, hc] at hstep
  simp only [Option.map_some, Option.bind_some, CoreTask.dispatch_invocation, hcode, hp,
    Option.map_eq_none_iff] at hstep
  exact hresume hstep

/-- Where no operation can be carried out, every coroutine has been destroyed: one that is
suspended waits for another that comes behind it in the order. -/
theorem Inv.destroyed_of_settled (h : Inv makeError outcomes μ rank s)
    (hset : Settled makeError outcomes s) (hcode : s.code n = some (.coroutine f)) :
    f.place = .destroyed := by
  have hmax : ∀ {u}, u < s.created → rank u ≤ tally rank (List.range s.created) := fun hu =>
    le_tally rank (List.getElem?_range hu)
  induction hk : tally rank (List.range s.created) - rank n using Nat.strong_induction_on
    generalizing n f with
  | _ k ih =>
    subst hk
    have hrun := hset (.run n none)
    rw [Coroutine.step, hcode] at hrun
    dsimp only at hrun
    rw [State.stepFrame] at hrun
    cases hp : f.place with
    | running body tasks =>
        rw [hp] at hrun
        have hnext := Option.map_eq_none_iff.1 hrun
        have htask : ∀ i, (s.task (tasks i)).Agrees (μ (tasks i)) := fun i =>
          h.agrees_of_has hcode (by rw [hp]; exact ⟨i, rfl⟩)
        exact absurd hnext (body.next_ne_none htask)
    | suspending t next tasks => rw [hp] at hrun; cases hrun
    | registering a => rw [hp] at hrun; cases hrun
    | leaving => rw [hp] at hrun; cases hrun
    | destroyed => rfl
    | delayed leaf next tasks =>
        have hexpire := hset (.expire n)
        simp only [Coroutine.step, hcode, hp] at hexpire
        cases hexpire
    | suspended a =>
        have hready := h.not_ready_of_settled hset hcode hp
        obtain ⟨hlt, hrank⟩ := h.owned.held n _ (Awaiter.has_awaited_suspended hcode hp)
        obtain ⟨c, hc⟩ := Option.ne_none_iff_exists'.1 ((h.owned.created _).1 hlt)
        cases c with
        | leaf l =>
            have hcomplete := hset (.complete a.awaited)
            simp only [Coroutine.step, hc, hready] at hcomplete
            cases hcomplete
        | coroutine g =>
            have hle := hmax hlt
            have hg := ih _ (by omega) hc rfl
            have hdone := (h.frame hc).task
            rw [Frame.ended, hg] at hdone
            cases hready.symm.trans hdone.ready

/-- What holds of the coroutine `n` in every state of a run: its task is completed once at most,
with what its body means, and it executes what its body means. -/
structure Frame.Sound (makeError : String → E) (outcomes : Outcomes V E L)
    (μ : Nat → Except E V) (n : Nat) (f : Frame S V E L) (t : Task X V E) : Prop where
  result : μ n = (f.called.eval makeError outcomes μ).2
  completions : t.completions = [] ∧ t.isReady = false ∨
    t.completions = [μ n] ∧ t.asResult = some (μ n)
  log : f.log <+: (f.called.eval makeError outcomes μ).1
  destructions : f.destructions ≤ 1

/-- What holds of the tree: the leaves end with their outcomes, a coroutine is given tasks that
are there, and the continuation of a task is a coroutine that is suspended on it. -/
structure State.Sound (makeError : String → E) (outcomes : Outcomes V E L)
    (μ : Nat → Except E V) (s : State X S V E L) : Prop where
  leaf : ∀ n l, s.code n = some (.leaf l) →
    μ n = outcomes.source l ∧ (s.task n).Agrees (μ n)
  arguments : ∀ n f, s.code n = some (.coroutine f) → ∀ i, f.called.arguments i < n
  coroutine : ∀ n f, s.code n = some (.coroutine f) →
    f.Sound makeError outcomes μ n (s.task n)
  continuation : ∀ t executor n, (s.task t).core.continuation = some ⟨executor, n⟩ →
    ∃ f a, s.code n = some (.coroutine f) ∧ f.place = .suspended a ∧ a.awaited = t

/-- What has become of it at the end. -/
structure Frame.Done (makeError : String → E) (outcomes : Outcomes V E L)
    (μ : Nat → Except E V) (n : Nat) (f : Frame S V E L) (t : Task X V E) : Prop where
  completions : t.completions = [μ n]
  asResult : t.asResult = some (μ n)
  log : f.log = (f.called.eval makeError outcomes μ).1
  destructions : f.destructions = 1

theorem Frame.Meant.sound {t : Task X V E} (h : f.Meant makeError outcomes μ n t) :
    f.Sound makeError outcomes μ n t where
  result := h.result
  completions := by
    rcases h.agrees with hnone | hsome
    · exact .inl ⟨hnone.completions, hnone.ready⟩
    · exact .inr ⟨hsome.completions, hsome.asResult⟩
  log := by
    rw [h.rest]
    exact List.prefix_append _ _
  destructions := by
    rw [h.destructions]
    split
    · exact Nat.le_refl 1
    · exact Nat.zero_le 1

theorem Frame.Meant.done {t : Task X V E} (h : f.Meant makeError outcomes μ n t)
    (hp : f.place = .destroyed) : f.Done makeError outcomes μ n t := by
  have htask := h.task
  rw [Frame.ended, hp] at htask
  refine ⟨htask.completions, htask.asResult, ?_, ?_⟩
  · rw [h.rest, hp]
    exact (List.append_nil _).symm
  · rw [h.destructions, hp]

theorem inv_initial (root : Body S V E L 0) :
    Inv makeError outcomes (fun _ => (root.eval makeError outcomes Fin.elim0).2) (fun _ => 0)
      (initial root : State X S V E L) := by
  have hcode : ∀ {n c}, (initial root : State X S V E L).code n = some c →
      n = 0 ∧ c = .coroutine { called := ⟨root, Fin.elim0⟩ } := by
    intro n c hc
    rw [initial] at hc
    dsimp only at hc
    split at hc
    · exact ⟨‹_›, (Option.some.inj hc).symm⟩
    · cases hc
  have hholds : ∀ {n u}, ¬ (initial root : State X S V E L).Holds n u := by
    rintro n u ⟨c, hc, hu⟩
    obtain ⟨-, rfl⟩ := hcode hc
    obtain ⟨i, -⟩ := hu
    exact i.elim0
  constructor
  case meant =>
    intro n c hc
    obtain ⟨rfl, rfl⟩ := hcode hc
    refine Frame.Meant.start ?_ Task.holds_new
    exact congrArg (fun env => (root.eval makeError outcomes env).2) (Subsingleton.elim _ _)
  case owned =>
    refine ⟨fun n => ?_, ?_, fun n u hu => absurd hu hholds, fun n _ u hu => absurd hu hholds, ?_⟩
    · rw [initial]
      dsimp only
      split
      · simp_all
      · simp_all
    · intro n f hf i
      obtain ⟨-, hf⟩ := hcode hf
      cases hf
      exact i.elim0
    · intro n c hc
      obtain ⟨-, rfl⟩ := hcode hc
      exact fun i => i.elim0
  case registered =>
    refine ⟨fun n f a hf hp => ?_, fun n f hf => ?_, fun t executor n hc => ?_, fun t ht => ?_,
      fun t ht => ?_⟩
    · obtain ⟨-, hf⟩ := hcode hf
      cases hf
      cases hp
    · obtain ⟨-, hf⟩ := hcode hf
      cases hf
      trivial
    · cases hc
    · cases ht
    · cases ht
  case fresh => exact fun _ _ => rfl

theorem bound_initial (root : Body S V E L 0) :
    (initial root : State X S V E L).bound makeError outcomes
      (fun _ => (root.eval makeError outcomes Fin.elim0).2) =
        root.bound makeError outcomes Fin.elim0 := by
  change tally _ [0] = _
  rw [tally_cons, tally_nil, Nat.add_zero]
  exact congrArg (root.bound makeError outcomes) (Subsingleton.elim _ _)

/-- A tree of coroutines, in any order of their operations and of what completes the leaves: every
coroutine completes its task once at most, with what its body means, and executes no more than
that.  A run is no longer than the body of the root allows, and where no operation is left every
task has been completed and every frame has been destroyed, once. -/
theorem tree_completes (makeError : String → E) (outcomes : Outcomes V E L)
    (root : Body S V E L 0) (actions : List (Action X)) (s : State X S V E L)
    (h : exec (step makeError outcomes) (initial root) actions = some s) :
    actions.length ≤ root.bound makeError outcomes Fin.elim0 ∧ ∃ μ : Nat → Except E V,
      (∃ f, s.code 0 = some (.coroutine f) ∧ f.called = ⟨root, Fin.elim0⟩) ∧
      s.Sound makeError outcomes μ ∧
      (Settled makeError outcomes s → ∀ n f, s.code n = some (.coroutine f) →
        f.Done makeError outcomes μ n (s.task n)) := by
  let P : Nat → State X S V E L → Prop := fun k s => ∃ μ rank, Inv makeError outcomes μ rank s ∧
    s.bound makeError outcomes μ = k ∧
      ∃ f, s.code 0 = some (.coroutine f) ∧ f.called = ⟨root, Fin.elim0⟩
  have hstep : ∀ {k s a s'}, P k s → step makeError outcomes s a = some s' →
      ∃ k' < k, P k' s' := by
    rintro k s a s' ⟨μ, rank, hinv, rfl, f, hf, hcalled⟩ hs
    obtain ⟨μ', rank', hinv', hlt, hkeep⟩ := hinv.step hs
    obtain ⟨f', hf', hcalled'⟩ := hkeep 0 f hf
    exact ⟨_, hlt, μ', rank', hinv', rfl, f', hf', hcalled'.trans hcalled⟩
  obtain ⟨k', hle, μ, rank, hinv, -, hroot⟩ := exec_bounded (P := P) hstep
    ⟨_, _, inv_initial root, bound_initial root, _, rfl, rfl⟩ h
  refine ⟨Nat.le_of_add_right_le hle, μ, hroot, ?_, fun hset n f hf => ?_⟩
  · exact ⟨fun n l hl => hinv.meant n _ hl, hinv.owned.arguments, fun n f hf =>
      (hinv.frame hf).sound, hinv.registered.waiting⟩
  · exact (hinv.frame hf).done (hinv.destroyed_of_settled hset hf)

/-- The root gives the second source's task to a callee, which awaits it; it awaits the first
source's with `doTry`, and then the callee. -/
def rejected : Body String Nat String Nat 0 :=
  .source 0 <| .source 1 <| .call (k := 1) (n := 1) finSumFinEquiv
    (.awaitTask 0 fun value => .stmt "unreached" (.returnValue value))
    (.awaitTry (Fin.last 1) fun _ => .stmt "tried"
      (.awaitTask (Fin.castSucc (Fin.last 0)) fun value => .stmt "unreached" (.returnValue value)))

/-- The callee is suspended when the sources are rejected, and is destroyed by its continuation;
the root finds the callee's task rejected. -/
def rejection : List (Action Nat) :=
  [.run 0 none, .run 0 none, .run 0 none, .run 3 none, .run 3 none, .run 3 (some 0),
    .complete 2, .complete 1, .run 0 none, .run 0 none, .invoke 2 none, .run 3 none, .run 0 none,
    .run 0 none, .run 0 none]

def sources : Outcomes Nat String Nat := ⟨fun n => .error (toString n), fun _ => none⟩

theorem tree_completes_rejected : ∃ s,
    exec (step id sources) (initial rejected) rejection = some s ∧
      (s.task 0).completions = [.error "1"] ∧ ∃ μ, s.Sound id sources μ := by
  obtain ⟨-, μ, -, hsound, -⟩ := tree_completes id sources rejected rejection _ rfl
  exact ⟨_, rfl, rfl, μ, hsound⟩

end MyEngine.Async.Coroutine
