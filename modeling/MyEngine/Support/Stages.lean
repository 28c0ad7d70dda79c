import Mathlib.Data.List.Induction
import Mathlib.Data.List.Nodup
import MyEngine.Support.Runs

/-!
# Support — Stages

A coroutine that makes its calls stage by stage: the calls of a stage side by side, and on when all
their tasks are over; or a single call, whose task has to succeed.

* `proceed`: what the coroutine does until it waits for a task.
* `step`: a task ends, or the coroutine goes on.
* `Behind`: a call is made when the calls of the stages before it are over.
* `exists_at`: where the coroutine is, in every run.
* `exec_length_le`: a run ends.
-/

namespace MyEngine.Stages

open Runs

inductive Stage (ι : Type) where
  | all (calls : List ι)
  | one (call : ι)

/-- The task that a call gives, if any. -/
inductive Answer where
  | none
  | ready (ok : Bool)
  | pending
  deriving DecidableEq, Repr

inductive Event (ι : Type) where
  | called (call : ι)
  | finished (call : ι) (ok : Bool)
  deriving DecidableEq, Repr

/-- `awaited` are the tasks that are not over; `alone` is whether the task of a single call is
awaited, and `error` whether it has failed. -/
structure State (ι : Type) where
  log : List (Event ι) := []
  rest : List (Stage ι) := []
  awaited : List ι := []
  alone : Bool := false
  error : Bool := false
  ended : Bool := false

inductive Action (ι : Type) where
  | finish (call : ι) (ok : Bool)
  | resume
  deriving DecidableEq, Repr

variable {ι : Type}

def Stage.calls : Stage ι → List ι
  | all calls => calls
  | one call  => [call]

/-- What is known of a call right after it. -/
def made (answer : ι → Answer) (call : ι) : List (Event ι) :=
  match answer call with
  | .none     => [.called call, .finished call true]
  | .ready ok => [.called call, .finished call ok]
  | .pending  => [.called call]

def proceed (answer : ι → Answer) : List (Stage ι) → List (Event ι) → State ι
  | [], log                 => { log, ended := true }
  | .all calls :: rest, log =>
      let log := log ++ calls.flatMap (made answer)
      let awaited := calls.filter fun call => answer call = .pending
      if awaited.isEmpty then proceed answer rest log else { log, rest, awaited }
  | .one call :: rest, log  =>
      let log := log ++ made answer call
      match answer call with
      | .pending     => { log, rest, awaited := [call], alone := true }
      | .ready false => { log, rest, error := true, ended := true }
      | _            => proceed answer rest log

def step [DecidableEq ι] (answer : ι → Answer) (s : State ι) : Action ι → Option (State ι)
  | .finish call ok =>
      if call ∈ s.awaited then
        some { s with
          awaited := s.awaited.erase call
          log := s.log ++ [.finished call ok]
          error := s.error || (s.alone && !ok) }
      else none
  | .resume =>
      if s.awaited = [] ∧ s.ended = false then
        some (if s.error then { s with ended := true } else proceed answer s.rest s.log)
      else none

/-- The calls, in their order. -/
def calledOf (log : List (Event ι)) : List ι :=
  log.filterMap fun
    | .called call => some call
    | .finished _ _    => none

/-- The tasks that are over, with what they have ended with. -/
def overs (log : List (Event ι)) : List (ι × Bool) :=
  log.filterMap fun
    | .called _     => none
    | .finished call ok => some (call, ok)

/-! ### Calls behind calls -/

/-- Every task of a stage is over, that of a single call with no error. -/
def Stage.Over (log : List (Event ι)) : Stage ι → Prop
  | all calls => ∀ call ∈ calls, ∃ ok, .finished call ok ∈ log
  | one call  => .finished call true ∈ log

/-- Each call is one of a stage, and all stages before that one are over. -/
def Behind (plan : List (Stage ι)) (log : List (Event ι)) : Prop :=
  ∀ before call after, log = before ++ .called call :: after →
    ∃ past stage rest, plan = past ++ stage :: rest ∧ call ∈ stage.calls ∧
      ∀ stage' ∈ past, stage'.Over before

section

variable {answer : ι → Answer} {plan past rest : List (Stage ι)} {log log' : List (Event ι)}
  {stage : Stage ι} {calls : List ι} {call : ι}

theorem Stage.Over.mono (h : stage.Over log) (hsub : log ⊆ log') : stage.Over log' := by
  cases stage with
  | all calls => exact fun call hcall => (h call hcall).imp fun ok hok => hsub hok
  | one call => exact hsub h

/-- A stage whose tasks are over, whatever they have ended with. -/
theorem Stage.Over.exists_over (h : stage.Over log) (hcall : call ∈ stage.calls) :
    ∃ ok, .finished call ok ∈ log := by
  cases stage with
  | all calls => exact h call hcall
  | one call' =>
      obtain rfl := List.mem_singleton.1 hcall
      exact ⟨true, h⟩

theorem Behind.finished (h : Behind plan log) (call : ι) (ok : Bool) :
    Behind plan (log ++ [.finished call ok]) := by
  intro before call' after hsplit
  obtain ⟨after', rfl⟩ : ∃ after', after = after' ++ [Event.finished call ok] := by
    cases after using List.reverseRecOn with
    | nil =>
        have hlast := congrArg List.getLast? hsplit
        simp at hlast
    | append_singleton after' event =>
        rw [← List.cons_append, ← List.append_assoc] at hsplit
        have hlast := (List.append_inj' hsplit rfl).2
        exact ⟨after', by rw [List.cons.inj hlast |>.1]⟩
  refine h before call' after' ?_
  rw [← List.cons_append, ← List.append_assoc] at hsplit
  exact (List.append_inj' hsplit rfl).1

/-- A call of the next stage. -/
theorem Behind.called (h : Behind plan log) (hplan : plan = past ++ stage :: rest)
    (hover : ∀ stage' ∈ past, stage'.Over log) (hcall : call ∈ stage.calls) :
    Behind plan (log ++ [.called call]) := by
  intro before call' after hsplit
  cases after using List.reverseRecOn with
  | nil =>
      obtain ⟨rfl, hlast⟩ := List.append_inj' hsplit rfl
      obtain rfl := Event.called.inj (List.cons.inj hlast).1
      exact ⟨past, stage, rest, hplan, hcall, hover⟩
  | append_singleton after event =>
      rw [← List.cons_append, ← List.append_assoc] at hsplit
      exact h before call' after (List.append_inj' hsplit rfl).1

/-- A call of the next stage, with what is known right after it. -/
theorem Behind.made (h : Behind plan log) (hplan : plan = past ++ stage :: rest)
    (hover : ∀ stage' ∈ past, stage'.Over log) (hcall : call ∈ stage.calls) :
    Behind plan (log ++ made answer call) := by
  have hcalled := h.called hplan hover hcall
  rw [Stages.made]
  cases answer call with
  | none => simpa using hcalled.finished call true
  | ready ok => simpa using hcalled.finished call ok
  | pending => exact hcalled

/-- The calls of the next stage. -/
theorem Behind.calledAll (hplan : plan = past ++ stage :: rest) (hsub : calls ⊆ stage.calls)
    (h : Behind plan log) (hover : ∀ stage' ∈ past, stage'.Over log) :
    Behind plan (log ++ calls.flatMap (Stages.made answer)) := by
  induction calls generalizing log with
  | nil => simpa using h
  | cons call calls ih =>
      rw [List.flatMap_cons, ← List.append_assoc]
      refine ih (fun c hc => hsub (List.mem_cons_of_mem call hc))
        (h.made hplan hover (hsub List.mem_cons_self)) fun stage' hstage' => ?_
      exact (hover stage' hstage').mono (List.subset_append_left ..)

theorem calledOf_append (log log' : List (Event ι)) :
    calledOf (log ++ log') = calledOf log ++ calledOf log' :=
  List.filterMap_append ..

theorem calledOf_made (answer : ι → Answer) (call : ι) : calledOf (made answer call) = [call] := by
  rw [made]
  cases answer call <;> rfl

theorem calledOf_flatMap_made (answer : ι → Answer) (calls : List ι) :
    calledOf (calls.flatMap (made answer)) = calls := by
  induction calls with
  | nil => rfl
  | cons call calls ih => rw [List.flatMap_cons, calledOf_append, calledOf_made, ih]; rfl

theorem mem_overs {ok : Bool} : (call, ok) ∈ overs log ↔ .finished call ok ∈ log := by
  rw [overs, List.mem_filterMap]
  constructor
  · rintro ⟨event, hevent, heq⟩
    cases event with
    | called call' => cases heq
    | finished call' ok' =>
        obtain ⟨rfl, rfl⟩ := Prod.mk.inj (Option.some.inj heq)
        exact hevent
  · exact fun hevent => ⟨_, hevent, rfl⟩

theorem overs_append (log log' : List (Event ι)) : overs (log ++ log') = overs log ++ overs log' :=
  List.filterMap_append ..

/-- The calls that are over right after they are made. -/
theorem overs_made (answer : ι → Answer) (call : ι) :
    (overs (made answer call)).map Prod.fst =
      [call].filter fun call => answer call ≠ .pending := by
  rw [made]
  cases hanswer : answer call <;> simp [overs, hanswer]

theorem overs_flatMap_made (answer : ι → Answer) (calls : List ι) :
    (overs (calls.flatMap (made answer))).map Prod.fst =
      calls.filter fun call => answer call ≠ .pending := by
  induction calls with
  | nil => rfl
  | cons call calls ih =>
      rw [List.flatMap_cons, overs_append, List.map_append, overs_made, ih, ← List.filter_append]
      rfl

end

/-- Calls that give no task are made at once. -/
theorem proceed_of_none {answer : ι → Answer} (h : ∀ call, answer call = .none)
    (plan : List (Stage ι)) (log : List (Event ι)) :
    proceed answer plan log =
      { log := log ++ (plan.flatMap Stage.calls).flatMap (made answer), ended := true } := by
  induction plan generalizing log with
  | nil => rw [proceed, List.flatMap_nil, List.flatMap_nil, List.append_nil]
  | cons stage rest ih =>
      rw [List.flatMap_cons, List.flatMap_append, ← List.append_assoc]
      cases stage with
      | all calls =>
          have hnone : (calls.filter fun call => answer call = .pending).isEmpty = true := by
            simp [h]
          rw [proceed, if_pos hnone, ih]
          rfl
      | one call =>
          rw [proceed, h call]
          dsimp only
          rw [ih, Stage.calls, List.flatMap_singleton]

/-! ### Where the coroutine is -/

/-- The stages that the coroutine has reached, in a state of it. -/
structure At (plan past : List (Stage ι)) (s : State ι) : Prop where
  split : plan = past ++ s.rest
  behind : Behind plan s.log
  called : calledOf s.log = past.flatMap Stage.calls
  perm : ((overs s.log).map Prod.fst ++ s.awaited).Perm (calledOf s.log)
  single : ∀ call, .one call ∈ past →
    .finished call true ∈ s.log ∨ s.alone = true ∧ call ∈ s.awaited ∨ s.error = true
  last : s.alone = true ∨ s.error = true → ∃ p call, past = p ++ [.one call] ∧
    (∀ c ∈ s.awaited, c = call) ∧ (s.error = true → .finished call false ∈ s.log)
  ended : s.ended = true → s.awaited = [] ∧ (s.error = false → s.rest = [])

namespace At

variable {answer : ι → Answer} {plan past : List (Stage ι)} {s s' : State ι}

theorem finished_or_awaited (h : At plan past s) {call : ι} (hcall : call ∈ calledOf s.log) :
    call ∈ s.awaited ∨ ∃ ok, .finished call ok ∈ s.log := by
  rcases List.mem_append.1 (h.perm.mem_iff.2 hcall) with hover | hawaited
  · obtain ⟨⟨call, ok⟩, hmem, rfl⟩ := List.mem_map.1 hover
    exact .inr ⟨ok, mem_overs.1 hmem⟩
  · exact .inl hawaited

/-- No task is awaited, and the coroutine has not failed. -/
theorem allOver (h : At plan past s) (hawaited : s.awaited = []) (herror : s.error = false) :
    ∀ stage ∈ past, stage.Over s.log := by
  intro stage hstage
  cases stage with
  | all calls =>
      intro call hcall
      have hcalled : call ∈ calledOf s.log := by
        rw [h.called]
        exact List.mem_flatMap.2 ⟨_, hstage, hcall⟩
      rcases h.finished_or_awaited hcalled with hmem | hover
      · rw [hawaited] at hmem
        cases hmem
      · exact hover
  | one call =>
      rcases h.single call hstage with hover | ⟨-, hmem⟩ | hfailed
      · exact hover
      · rw [hawaited] at hmem
        cases hmem
      · rw [herror] at hfailed
        cases hfailed

/-- The coroutine has ended, with nothing left to call. -/
theorem done {log : List (Event ι)} (hbehind : Behind past log)
    (hcalled : calledOf log = past.flatMap Stage.calls)
    (hperm : ((overs log).map Prod.fst).Perm (calledOf log))
    (hover : ∀ stage ∈ past, stage.Over log) : At past past { log, ended := true } where
  split := (List.append_nil past).symm
  behind := hbehind
  called := hcalled
  perm := by rwa [List.append_nil]
  single call hcall := .inl (hover _ hcall)
  last h := by rcases h with h | h <;> cases h
  ended _ := ⟨rfl, fun _ => rfl⟩

section

variable {rest : List (Stage ι)} {log : List (Event ι)} {calls : List ι} {call : ι}

/-- The coroutine waits for tasks of calls that it has made side by side. -/
theorem waitsAll (hplan : plan = past ++ .all calls :: rest)
    (hbehind : Behind plan (log ++ calls.flatMap (made answer)))
    (hcalled : calledOf log = past.flatMap Stage.calls)
    (hperm : ((overs log).map Prod.fst).Perm (calledOf log))
    (hover : ∀ stage ∈ past, stage.Over log) :
    At plan (past ++ [.all calls]) {
      log := log ++ calls.flatMap (made answer)
      rest
      awaited := calls.filter fun call => answer call = .pending } where
  split := by rw [hplan, List.append_assoc]; rfl
  behind := hbehind
  called := by
    rw [calledOf_append, calledOf_flatMap_made, hcalled, List.flatMap_append]
    simp [Stage.calls]
  perm := by
    rw [overs_append, List.map_append, overs_flatMap_made, calledOf_append, calledOf_flatMap_made,
      List.append_assoc]
    refine hperm.append (List.perm_append_comm.trans ?_)
    simpa using List.filter_append_perm (fun call => decide (answer call = .pending)) calls
  single call hcall := by
    rcases List.mem_append.1 hcall with hcall | hcall
    · exact .inl ((hover _ hcall).mono (List.subset_append_left ..))
    · cases List.mem_singleton.1 hcall
  last h := by rcases h with h | h <;> cases h
  ended h := Bool.noConfusion h

/-- The coroutine waits for the task of a single call, or the task has failed. -/
theorem waitsOne (hplan : plan = past ++ .one call :: rest)
    (hbehind : Behind plan (log ++ made answer call))
    (hcalled : calledOf log = past.flatMap Stage.calls)
    (hperm : ((overs log).map Prod.fst).Perm (calledOf log))
    (hover : ∀ stage ∈ past, stage.Over log) {awaited : List ι} {alone error : Bool}
    (hwaits : awaited = [call] ∧ alone = true ∧ error = false ∧ overs (made answer call) = [] ∨
      awaited = [] ∧ error = true ∧ overs (made answer call) = [(call, false)]) :
    At plan (past ++ [.one call]) {
      log := log ++ made answer call, rest, awaited, alone, error, ended := error } where
  split := by rw [hplan, List.append_assoc]; rfl
  behind := hbehind
  called := by
    rw [calledOf_append, calledOf_made, hcalled, List.flatMap_append]
    simp [Stage.calls]
  perm := by
    rw [overs_append, List.map_append, calledOf_append, calledOf_made, List.append_assoc]
    refine hperm.append ?_
    rcases hwaits with ⟨rfl, -, -, hovers⟩ | ⟨rfl, -, hovers⟩ <;> rw [hovers]
    · exact List.Perm.refl _
    · exact List.Perm.refl _
  single c hc := by
    rcases List.mem_append.1 hc with hc | hc
    · exact .inl ((hover _ hc).mono (List.subset_append_left ..))
    · obtain rfl := Stage.one.inj (List.mem_singleton.1 hc)
      rcases hwaits with ⟨rfl, halone, -⟩ | ⟨-, herror, -⟩
      · exact .inr (.inl ⟨halone, List.mem_cons_self⟩)
      · exact .inr (.inr herror)
  last _ := by
    refine ⟨past, call, rfl, ?_⟩
    rcases hwaits with ⟨rfl, -, rfl, -⟩ | ⟨rfl, -, hovers⟩
    · exact ⟨fun c hc => List.mem_singleton.1 hc, fun h => Bool.noConfusion h⟩
    · have hfailed : .finished call false ∈ made answer call :=
        mem_overs.1 (by rw [hovers]; exact List.mem_cons_self)
      exact ⟨fun c hc => (List.not_mem_nil hc).elim, fun _ => List.mem_append_right _ hfailed⟩
  ended hended := by
    rcases hwaits with ⟨-, -, herror, -⟩ | ⟨hawaited, herror, -⟩
    · exact Bool.noConfusion (herror.symm.trans hended)
    · exact ⟨hawaited, fun h => Bool.noConfusion (herror.symm.trans h)⟩

/-- The coroutine goes on when the stages that it has reached are over. -/
theorem proceed (answer : ι → Answer) (hplan : plan = past ++ rest) (hbehind : Behind plan log)
    (hcalled : calledOf log = past.flatMap Stage.calls)
    (hperm : ((overs log).map Prod.fst).Perm (calledOf log))
    (hover : ∀ stage ∈ past, stage.Over log) :
    ∃ past', At plan past' (Stages.proceed answer rest log) := by
  induction rest generalizing past log with
  | nil =>
      rw [List.append_nil] at hplan
      subst hplan
      exact ⟨plan, done hbehind hcalled hperm hover⟩
  | cons stage rest ih =>
      have hplan' : plan = (past ++ [stage]) ++ rest := by rw [hplan, List.append_assoc]; rfl
      cases stage with
      | all calls =>
          have hbehind' : Behind plan (log ++ calls.flatMap (made answer)) :=
            hbehind.calledAll hplan (List.Subset.refl _) hover
          have hwaits := waitsAll hplan hbehind' hcalled hperm hover
          rw [Stages.proceed]
          split
          · next hempty =>
            have hnone := List.isEmpty_iff.1 hempty
            have hperm' := hwaits.perm
            rw [hnone, List.append_nil] at hperm'
            exact ih hplan' hbehind' hwaits.called hperm' (hwaits.allOver hnone rfl)
          · exact ⟨_, hwaits⟩
      | one call =>
          have hbehind' : Behind plan (log ++ made answer call) :=
            hbehind.made hplan hover (List.mem_singleton_self call)
          have hfinished : overs (made answer call) = [(call, true)] →
              ∃ past', At plan past' (Stages.proceed answer rest (log ++ made answer call)) := by
            intro hovers
            refine ih hplan' hbehind' ?_ ?_ fun stage hstage => ?_
            · rw [calledOf_append, calledOf_made, hcalled, List.flatMap_append]
              simp [Stage.calls]
            · rw [overs_append, calledOf_append, calledOf_made, hovers, List.map_append]
              exact hperm.append (List.Perm.refl _)
            · rcases List.mem_append.1 hstage with hstage | hstage
              · exact (hover stage hstage).mono (List.subset_append_left ..)
              · obtain rfl := List.mem_singleton.1 hstage
                have hmade : .finished call true ∈ made answer call :=
                  mem_overs.1 (by rw [hovers]; exact List.mem_cons_self)
                exact List.mem_append_right _ hmade
          have hovers : overs (made answer call) = match answer call with
              | .none     => [(call, true)]
              | .ready ok => [(call, ok)]
              | .pending  => [] := by
            rw [made]
            cases answer call <;> rfl
          rw [Stages.proceed]
          cases hanswer : answer call with
          | none => exact hfinished (by rw [hovers, hanswer])
          | ready ok =>
              rw [hanswer] at hovers
              cases ok with
              | true => exact hfinished hovers
              | false =>
                  exact ⟨_, waitsOne hplan hbehind' hcalled hperm hover (.inr ⟨rfl, rfl, hovers⟩)⟩
          | pending =>
              rw [hanswer] at hovers
              exact ⟨_, waitsOne hplan hbehind' hcalled hperm hover (.inl ⟨rfl, rfl, rfl, hovers⟩)⟩

end

theorem start (answer : ι → Answer) (plan : List (Stage ι)) :
    ∃ past, At plan past (Stages.proceed answer plan []) := by
  have hbehind : Behind plan ([] : List (Event ι)) := by
    intro before call after h
    cases before <;> cases h
  have hnil : ∀ stage ∈ ([] : List (Stage ι)), stage.Over [] := fun stage h => nomatch h
  exact proceed answer (List.nil_append plan).symm hbehind rfl (List.Perm.refl []) hnil

variable [DecidableEq ι]

/-- A task ends. -/
theorem finish (h : At plan past s) {call : ι} (hcall : call ∈ s.awaited) (ok : Bool) :
    At plan past { s with
      awaited := s.awaited.erase call
      log := s.log ++ [.finished call ok]
      error := s.error || (s.alone && !ok) } := by
  have hkept : ∀ c, c ∈ s.awaited → c ∈ s.awaited.erase call ∨ c = call := by
    intro c hc
    by_cases heq : c = call
    · exact .inr heq
    · exact .inl ((List.mem_erase_of_ne heq).2 hc)
  have hover : .finished call ok ∈ s.log ++ [Event.finished call ok] :=
    List.mem_append_right _ List.mem_cons_self
  constructor
  case split => exact h.split
  case behind => exact h.behind.finished call ok
  case called =>
    rw [calledOf_append, h.called]
    exact List.append_nil _
  case perm =>
    have hone : overs [Event.finished call ok] = [(call, ok)] := rfl
    rw [calledOf_append, overs_append, hone, List.map_append, List.append_assoc]
    refine (((List.perm_cons_erase hcall).symm).append_left _).trans (h.perm.trans ?_)
    exact List.Perm.of_eq (List.append_nil _).symm
  case single =>
    intro c hc
    rcases h.single c hc with hsucceeded | ⟨halone, hmem⟩ | herror
    · exact .inl (List.mem_append_left _ hsucceeded)
    · rcases hkept c hmem with hmem | rfl
      · exact .inr (.inl ⟨halone, hmem⟩)
      · cases ok with
        | true => exact .inl hover
        | false => exact .inr (.inr (by simp [halone]))
    · exact .inr (.inr (by simp [herror]))
  case last =>
    intro hlast
    have hbefore : s.alone = true ∨ s.error = true := by
      simp only [Bool.or_eq_true, Bool.and_eq_true] at hlast
      tauto
    obtain ⟨p, c₀, hpast, hone, hfailed⟩ := h.last hbefore
    refine ⟨p, c₀, hpast, fun c hc => hone c (List.mem_of_mem_erase hc), fun herror => ?_⟩
    simp only [Bool.or_eq_true, Bool.and_eq_true, Bool.not_eq_true'] at herror
    rcases herror with herror | ⟨-, rfl⟩
    · exact List.mem_append_left _ (hfailed herror)
    · rw [hone call hcall] at hover ⊢
      exact hover
  case ended =>
    intro hended
    rw [(h.ended hended).1] at hcall
    cases hcall

omit [DecidableEq ι] in
theorem resume (h : At plan past s) (hawaited : s.awaited = []) :
    ∃ past', At plan past' (if s.error then { s with ended := true }
      else Stages.proceed answer s.rest s.log) := by
  split
  · next herror =>
    have hended : s.awaited = [] ∧ (s.error = false → s.rest = []) :=
      ⟨hawaited, fun h => Bool.noConfusion (herror.symm.trans h)⟩
    exact ⟨past, { h with ended := fun _ => hended }⟩
  · next herror =>
    have herror := Bool.eq_false_iff.2 herror
    have hperm := h.perm
    rw [hawaited, List.append_nil] at hperm
    exact proceed answer h.split h.behind h.called hperm (h.allOver hawaited herror)

theorem step (h : At plan past s) {a : Action ι} (hstep : Stages.step answer s a = some s') :
    ∃ past', At plan past' s' := by
  cases a with
  | finish call ok =>
      rw [Stages.step] at hstep
      split at hstep
      · next hcall =>
        obtain rfl := Option.some.inj hstep
        exact ⟨past, h.finish hcall ok⟩
      · cases hstep
  | resume =>
      rw [Stages.step] at hstep
      split at hstep
      · next hresume =>
        obtain rfl := Option.some.inj hstep
        exact h.resume hresume.1
      · cases hstep

end At

section

variable {plan past : List (Stage ι)} {s : State ι} {call : ι}

theorem At.called_prefix (h : At plan past s) : calledOf s.log <+: plan.flatMap Stage.calls := by
  rw [h.called, h.split, List.flatMap_append]
  exact List.prefix_append ..

/-- A task ends once. -/
theorem At.over_unique (h : At plan past s) (hnodup : (plan.flatMap Stage.calls).Nodup)
    (hsucceeded : .finished call true ∈ s.log) : .finished call false ∉ s.log := by
  intro hfailed
  have hovers := h.perm.nodup_iff.2 (hnodup.sublist h.called_prefix.sublist)
  have heq := List.inj_on_of_nodup_map (List.nodup_append.1 hovers).1 (mem_overs.2 hsucceeded)
    (mem_overs.2 hfailed) rfl
  cases heq

/-- The coroutine fails just when the task of a single call does. -/
theorem At.error_iff (h : At plan past s) (hnodup : (plan.flatMap Stage.calls).Nodup) :
    s.error = true ↔ ∃ call, .one call ∈ plan ∧ .finished call false ∈ s.log := by
  constructor
  · intro herror
    obtain ⟨p, call, hpast, -, hfailed⟩ := h.last (.inr herror)
    refine ⟨call, ?_, hfailed herror⟩
    rw [h.split, hpast]
    simp
  · rintro ⟨call, hcall, hfailed⟩
    have hovers := h.perm.nodup_iff.2 (hnodup.sublist h.called_prefix.sublist)
    have hover : call ∈ (overs s.log).map Prod.fst := List.mem_map_of_mem (mem_overs.2 hfailed)
    have hpast : .one call ∈ past := by
      rw [h.split] at hcall
      refine (List.mem_append.1 hcall).resolve_right fun hrest => ?_
      have hcalled := h.perm.mem_iff.1 (List.mem_append_left s.awaited hover)
      rw [h.called] at hcalled
      rw [h.split, List.flatMap_append] at hnodup
      exact (List.nodup_append.1 hnodup).2.2 call hcalled call
        (List.mem_flatMap.2 ⟨_, hrest, List.mem_singleton_self call⟩) rfl
    rcases h.single call hpast with hsucceeded | ⟨-, hawaited⟩ | herror
    · exact absurd hfailed (h.over_unique hnodup hsucceeded)
    · exact ((List.nodup_append.1 hovers).2.2 call hover call hawaited rfl).elim
    · exact herror

/-- When the coroutine has ended and not failed, all calls have been made, and are over. -/
theorem At.called_all (h : At plan past s) (hended : s.ended = true) (herror : s.error = false) :
    calledOf s.log = plan.flatMap Stage.calls ∧ ∀ stage ∈ plan, stage.Over s.log := by
  obtain ⟨hawaited, hrest⟩ := h.ended hended
  have hsplit := h.split
  rw [hrest herror, List.append_nil] at hsplit
  rw [h.called, hsplit]
  exact ⟨rfl, h.allOver hawaited herror⟩

end

/-- In every run there are stages that the coroutine has reached. -/
theorem exists_at [DecidableEq ι] {answer : ι → Answer} {plan : List (Stage ι)} {s : State ι}
    (hrun : Steps (step answer) Free (proceed answer plan []) s) : ∃ past, At plan past s := by
  refine Steps.invariant (P := fun s => ∃ past, At plan past s) ?_ hrun (At.start answer plan)
  rintro s a s' ⟨past, h⟩ - hstep
  exact h.step hstep

/-! ### The end -/

/-- The steps that there can be. -/
def State.left (s : State ι) : ℕ :=
  (s.rest.flatMap Stage.calls).length + s.rest.length + s.awaited.length +
    if s.ended then 0 else 1

theorem left_proceed_le (answer : ι → Answer) (rest : List (Stage ι)) (log : List (Event ι)) :
    (proceed answer rest log).left ≤ (rest.flatMap Stage.calls).length + rest.length := by
  induction rest generalizing log with
  | nil => exact Nat.le_refl _
  | cons stage rest ih =>
      rw [List.flatMap_cons, List.length_append, List.length_cons]
      cases stage with
      | all calls =>
          rw [proceed]
          split
          · have hrest := ih (log ++ calls.flatMap (made answer))
            omega
          · have hawaited := List.length_filter_le (fun call => answer call = .pending) calls
            simp only [State.left, Stage.calls, Bool.false_eq_true, if_false]
            omega
      | one call =>
          have hrest := ih (log ++ made answer call)
          rw [proceed]
          cases answer call with
          | none => exact Nat.le_trans hrest (by omega)
          | ready ok =>
              cases ok with
              | true => exact Nat.le_trans hrest (by omega)
              | false =>
                  simp only [State.left, Stage.calls, List.length_nil, if_true]
                  omega
          | pending =>
              simp only [State.left, Stage.calls, List.length_singleton, Bool.false_eq_true,
                if_false]
              omega

theorem left_step [DecidableEq ι] {answer : ι → Answer} {s s' : State ι} {a : Action ι}
    (hstep : step answer s a = some s') : s'.left < s.left := by
  cases a with
  | finish call ok =>
      rw [step] at hstep
      split at hstep
      · next hcall =>
        obtain rfl := Option.some.inj hstep
        have hlength := List.length_erase_of_mem hcall
        have hpos := List.length_pos_of_mem hcall
        simp only [State.left]
        omega
      · cases hstep
  | resume =>
      rw [step] at hstep
      split at hstep
      · next hresume =>
        obtain rfl := Option.some.inj hstep
        split
        · simp [State.left, hresume.1, hresume.2]
        · have hrest := left_proceed_le answer s.rest s.log
          refine Nat.lt_of_le_of_lt hrest ?_
          simp only [State.left, hresume.1, hresume.2, List.length_nil, Bool.false_eq_true,
            if_false]
          omega
      · cases hstep

/-- A run is no longer than the stages and the calls that are left. -/
theorem exec_length_le [DecidableEq ι] {answer : ι → Answer} {s s' : State ι}
    {actions : List (Action ι)} (hrun : exec (step answer) s actions = some s') :
    actions.length ≤ s.left := by
  have hbounded : ∃ k', actions.length + k' ≤ s.left ∧ s'.left = k' :=
    exec_bounded (P := fun k s => s.left = k)
      (fun hk hstep => ⟨_, hk ▸ left_step hstep, rfl⟩) rfl hrun
  obtain ⟨k', hle, -⟩ := hbounded
  exact Nat.le_trans (Nat.le_add_right ..) hle

/-- There is a step as long as the coroutine has not ended. -/
theorem ended_iff [DecidableEq ι] {answer : ι → Answer} {plan past : List (Stage ι)} {s : State ι}
    (h : At plan past s) : s.ended = true ↔ ∀ a, step answer s a = none := by
  constructor
  · intro hended a
    cases a with
    | finish call ok => rw [step, if_neg (by simp [(h.ended hended).1])]
    | resume => rw [step, if_neg (by simp [hended])]
  · intro hnone
    by_contra hended
    cases hawaited : s.awaited with
    | nil =>
        have hresume := hnone .resume
        rw [step, if_pos ⟨hawaited, Bool.eq_false_iff.2 hended⟩] at hresume
        cases hresume
    | cons call calls =>
        have hfinish := hnone (.finish call true)
        rw [step, if_pos (by rw [hawaited]; exact List.mem_cons_self)] at hfinish
        cases hfinish

end MyEngine.Stages
