import MyEngine.Async.WhenAllResult

/-!
# Async — WhenAllReset

What is left behind when `CoreTaskLinkedList::reset` and the registration loop are both over.

* `Walk`: how far `reset` has come; it releases every task once, whatever the loop does.
* `Orderly`: the loop installs no callback on a task that `reset` has cleared, and `reset` clears
  no task that is ready and still holds its callback.
* `settled_of_orderly`: then no task holds a callback, and a run that is not orderly may end with
  one that does.
-/

namespace MyEngine.Async.WhenAll

open Runs

variable {ι : Type}

/-! ### `Walk` -/

/-- Where `reset` stands when it has released `done` and not `rest`. -/
def Reset.At (done rest : List ι) : Reset ι → Prop
  | idle | start                   => done = []
  | visit next                     => next = rest.head?
  | unset t next | release t next  => rest.head? = some t ∧ next = rest.tail.head?
  | source | returned                  => rest = []

/-- The tasks whose links are still to be followed. -/
def Reset.ahead (rest : List ι) : Reset ι → List ι
  | unset _ _ | release _ _ => rest.tail
  | _                       => rest

section

variable [DecidableEq ι]

structure Walk (u : Setup ι) (s : State ι) (done rest : List ι) : Prop where
  split : u.tasks = done ++ rest
  reset : s.reset.At done rest
  links : ∀ t ∈ s.reset.ahead rest,
    s.list.next t = (CoreTaskLinkedList.ofTasks u.tasks).next t
  released : ∀ t, s.released t = done.count t
  ended : s.main.kind = .returned → s.reset = .source ∨ s.reset = .returned

namespace Walk

variable {u : Setup ι} {s s' : State ι} {done rest : List ι}

theorem init (u : Setup ι) : Walk u (initial u) [] u.tasks where
  split := rfl
  reset := rfl
  links _ _ := rfl
  released _ := rfl
  ended hk := nomatch hk

/-- A step of another thread. -/
theorem keep (h : Walk u s done rest) (hreset : s'.reset = s.reset) (hlist : s'.list = s.list)
    (hreleased : s'.released = s.released)
    (hkind : s'.main.kind = .returned → s.reset = .source ∨ s.reset = .returned) :
    Walk u s' done rest where
  split := h.split
  reset := hreset ▸ h.reset
  links := by
    rw [hreset, hlist]
    exact h.links
  released := hreleased ▸ h.released
  ended hk := hreset ▸ hkind hk

/-- `reset` is called. -/
theorem start (h : Walk u s done rest) (hidle : s.reset = .idle) (hreset : s'.reset = .start)
    (hlist : s'.list = s.list) (hreleased : s'.released = s.released)
    (hkind : s'.main.kind ≠ .returned) : Walk u s' done rest where
  split := h.split
  reset := by
    have hr := h.reset
    rw [hidle] at hr
    rw [hreset]
    exact hr
  links t ht := by
    rw [hreset] at ht
    rw [hlist]
    exact h.links t (by rw [hidle]; exact ht)
  released := hreleased ▸ h.released
  ended hk := absurd hk hkind

/-- The task `reset` is at. -/
theorem head_eq (h : Walk u s done rest) {t : ι} {next : Option ι}
    (hr : s.reset = .unset t next ∨ s.reset = .release t next) :
    ∃ rest', rest = t :: rest' ∧ next = rest'.head? := by
  have hat := h.reset
  have hat' : rest.head? = some t ∧ next = rest.tail.head? := by
    rcases hr with hr | hr <;> rw [hr] at hat <;> exact hat
  obtain ⟨rest', rfl⟩ := List.head?_eq_some_iff.1 hat'.1
  exact ⟨rest', rfl, hat'.2⟩

theorem step (h : Walk u s done rest) (hlinks : Links u s) (hp : Phase s) (hm : Move u s s') :
    ∃ done rest, Walk u s' done rest := by
  cases hm with
  | startEmpty hm | allReady hm | someReady hm | expiredEarly hm =>
      have hb : s.main.kind = .before := by rw [hm]; rfl
      have hidle := hp.idle (hp.undecided (Or.inl hb)) (Or.inl hb)
      exact ⟨done, rest, h.start hidle rfl rfl rfl nofun⟩
  | left hm hr => exact ⟨done, rest, h.keep rfl rfl rfl fun _ => Or.inl hr⟩
  | awaited hm hr =>
      exact ⟨done, rest, h.keep rfl rfl rfl fun _ => Or.inr (hp.returned_of_resolved hr)⟩
  | won hc hn =>
      have hl := hp.live_of_call hn (by rw [hc]; exact nofun)
      refine ⟨done, rest, h.start (hp.idle hn (Or.inr hl)) rfl rfl rfl fun hk => ?_⟩
      cases hl.symm.trans hk
  | resetHead hr =>
      -- nothing is done yet, and the list is still as it was made
      have hdone : done = [] := by
        have hat := h.reset
        rwa [hr] at hat
      have hsplit : u.tasks = rest := by rw [h.split, hdone, List.nil_append]
      refine ⟨done, rest, h.split, ?_, fun t ht => ?_, h.released, fun hk => ?_⟩
      · change s.list.head = rest.head?
        rw [hlinks.intact (Or.inr hr), CoreTaskLinkedList.ofTasks_head, hsplit]
      · exact h.links t (by rw [hr]; exact ht)
      · rcases h.ended hk with he | he <;> cases hr.symm.trans he
  | resetEnd hr =>
      have hat := h.reset
      rw [hr] at hat
      obtain rfl : rest = [] := List.head?_eq_none_iff.1 hat.symm
      exact ⟨done, [], h.split, rfl, fun _ ht => (nomatch ht), h.released, fun _ => Or.inl rfl⟩
  | @unlinked t hr =>
      have hat := h.reset
      rw [hr] at hat
      obtain ⟨rest', rfl⟩ := List.head?_eq_some_iff.1 hat.symm
      -- the link of `t` is read and taken out; those behind it are untouched, as no task is twice
      -- in the list
      have hnodup : (done ++ t :: rest').Nodup := h.split ▸ u.nodup
      have hlist : ∀ t' ∈ t :: rest',
          s.list.next t' = (CoreTaskLinkedList.ofTasks u.tasks).next t' := by
        have := h.links
        rwa [hr] at this
      refine ⟨done, t :: rest', h.split, ⟨rfl, ?_⟩, fun t' ht => ?_, h.released, fun hk => ?_⟩
      · rw [hlist t List.mem_cons_self, h.split]
        exact CoreTaskLinkedList.ofTasks_next hnodup
      · have hne : t' ≠ t := by
          rintro rfl
          exact (List.nodup_cons.1 (List.nodup_append.1 hnodup).2.1).1 ht
        dsimp only
        rw [Function.update_of_ne hne]
        exact hlist t' (List.mem_cons_of_mem t ht)
      · rcases h.ended hk with he | he <;> cases hr.symm.trans he
  | @cleared t next hr =>
      obtain ⟨rest', rfl, hnext⟩ := h.head_eq (Or.inl hr)
      refine ⟨done, t :: rest', h.split, ⟨rfl, hnext⟩, fun t' ht => ?_, h.released, fun hk => ?_⟩
      · exact h.links t' (by rw [hr]; exact ht)
      · rcases h.ended hk with he | he <;> cases hr.symm.trans he
  | @released t next hr =>
      obtain ⟨rest', rfl, hnext⟩ := h.head_eq (Or.inr hr)
      -- `t` is behind now, and released once more than before
      refine ⟨done ++ [t], rest', ?_, hnext, fun t' ht => ?_, fun t' => ?_, fun hk => ?_⟩
      · rw [h.split, List.append_assoc]
        rfl
      · exact h.links t' (by rw [hr]; exact ht)
      · dsimp only
        rw [List.count_append]
        by_cases ht : t' = t
        · rw [ht, Function.update_self, h.released, List.count_singleton_self]
        · rw [Function.update_of_ne ht, h.released, List.count_singleton,
            if_neg (by simpa using Ne.symm ht), Nat.add_zero]
      · rcases h.ended hk with he | he <;> cases hr.symm.trans he
  | source hr =>
      have hat := h.reset
      rw [hr] at hat
      obtain rfl : rest = [] := hat
      exact ⟨done, [], h.split, rfl, fun _ ht => (nomatch ht), h.released, fun _ => Or.inr rfl⟩
  | started hm | noneReady hm | tested hm | notReady hm | checked hm | createdEternal hm
  | createdExpired hm | created hm | subscribed hm | begun hm | registered hm | stored hm
  | called hm | resumed hm | advanced hm => exact ⟨done, rest, h.keep rfl rfl rfl nofun⟩
  | completed | taken | untaken | expired | fired | last | counted | lost | ended =>
      exact ⟨done, rest, h.keep rfl rfl rfl h.ended⟩

/-- When `reset` is over, it has released every reference that the list took. -/
theorem released_eq (h : Walk u s done rest) (hlinks : Links u s)
    (hr : s.reset = .source ∨ s.reset = .returned) (t : ι) : s.released t = s.list.taken t := by
  have hat := h.reset
  have hrest : rest = [] := by rcases hr with hr | hr <;> rw [hr] at hat <;> exact hat
  rw [h.released, hlinks.taken, h.split, hrest, List.append_nil]

end Walk

/-! ### `Orderly` -/

/-- The task whose callback the loop registers next. -/
def Main.registering : Main ι → Option ι
  | register current => current
  | _                => none

/-- The task whose callback `reset` clears next. -/
def Reset.clearing : Reset ι → Option ι
  | unset t _ => some t
  | _         => none

/-- The task whose callback `reset` has cleared, and which it releases next. -/
def Reset.releasing : Reset ι → Option ι
  | release t _ => some t
  | _           => none

/-- `reset` has cleared the callback of the task. -/
def State.Cleared (s : State ι) (t : ι) : Prop :=
  0 < s.released t ∨ s.reset.releasing = some t

instance (s : State ι) (t : ι) : Decidable (s.Cleared t) := inferInstanceAs (Decidable (_ ∨ _))

/-- The loop installs no callback on a task that was cleared, and a task whose callback is to be
cleared is not ready with the callback still there. -/
def Orderly (s : State ι) (a : Action ι) : Prop :=
  (a = .main → ∀ t ∈ s.main.registering, (s.task t).flags.ready = false → ¬ s.Cleared t) ∧
  (a = .reset → ∀ t ∈ s.reset.clearing,
    (s.task t).flags.ready = true → (s.task t).readyCallback = none)

instance (s : State ι) (a : Action ι) : Decidable (Orderly s a) :=
  inferInstanceAs (Decidable (_ ∧ _))

variable {u : Setup ι} {s s' : State ι}

theorem frame_of_stepCall {k : Caller ι} (h : stepCall s k = some s') :
    s'.main = s.main ∧ (s'.reset = s.reset ∨ s'.reset = .start) := by
  rw [stepCall] at h
  split at h
  case h_1 =>
    obtain rfl := Option.some.inj h
    exact ⟨rfl, Or.inl rfl⟩
  case h_2 =>
    split at h <;> obtain rfl := Option.some.inj h
    · exact ⟨rfl, Or.inr rfl⟩
    · exact ⟨rfl, Or.inl rfl⟩
  case h_3 =>
    split at h
    · obtain rfl := Option.some.inj h
      exact ⟨rfl, Or.inl rfl⟩
    · cases h
  case h_4 => cases h

theorem frame_of_stepComplete {t : ι} (h : stepComplete u s t = some s') :
    s'.main = s.main ∧ s'.reset = s.reset := by
  rw [stepComplete] at h
  split at h
  case h_1 =>
    obtain ⟨task, -, rfl⟩ := Option.map_eq_some_iff.1 h
    exact ⟨rfl, rfl⟩
  case h_2 =>
    obtain rfl := Option.some.inj h
    exact ⟨rfl, rfl⟩
  case h_3 => cases h

theorem main_of_stepReset (h : stepReset s = some s') : s'.main = s.main := by
  rw [stepReset] at h
  split at h
  case h_1 | h_2 => cases h
  case h_8 =>
    split at h
    · obtain rfl := Option.some.inj h
      rfl
    · cases h
  all_goals
    obtain rfl := Option.some.inj h
    rfl

theorem reset_of_stepMain (h : stepMain u s = some s') :
    s'.reset = s.reset ∨ s'.reset = .start := by
  rw [stepMain] at h
  dsimp only at h
  repeat' split at h
  all_goals cases h <;> first | exact Or.inl rfl | exact Or.inr rfl

/-- Only the coroutine moves itself. -/
theorem main_of_step {a : Action ι} (h : step u s a = some s') (ha : a ≠ .main) :
    s'.main = s.main := by
  cases a with
  | main => exact absurd rfl ha
  | complete t => exact (frame_of_stepComplete h).1
  | expire | expiration =>
      rw [step] at h
      split at h <;> cases h
      rfl
  | call k => exact (frame_of_stepCall h).1
  | reset => exact main_of_stepReset h

/-- Other threads can only call `reset`. -/
theorem reset_of_step {a : Action ι} (h : step u s a = some s') (ha : a ≠ .reset) :
    s'.reset = s.reset ∨ s'.reset = .start := by
  cases a with
  | main => exact reset_of_stepMain h
  | complete t => exact Or.inl (frame_of_stepComplete h).2
  | expire | expiration =>
      rw [step] at h
      split at h <;> cases h
      exact Or.inl rfl
  | call k => exact (frame_of_stepCall h).2
  | reset => exact absurd rfl ha

/-- No task that `reset` has cleared holds a callback. -/
def Clean (s : State ι) : Prop :=
  ∀ t, s.Cleared t → (s.task t).readyCallback = none

omit [DecidableEq ι] in
/-- A step that installs and clears no callback. -/
theorem Clean.keep (h : Clean s)
    (htask : ∀ t, (s.task t).readyCallback = none → (s'.task t).readyCallback = none)
    (hreleased : s'.released = s.released)
    (hreset : ∀ t, s'.reset.releasing = some t → s.reset.releasing = some t) : Clean s' := by
  intro t hc
  refine htask t (h t ?_)
  rw [State.Cleared, hreleased] at hc
  exact hc.imp_right (hreset t)

theorem Clean.init (u : Setup ι) : Clean (initial u) := by
  intro t hc
  rcases hc with hc | hc
  · cases hc
  · cases hc

theorem Clean.step {a : Action ι} (h : Clean s) (ho : Orderly s a)
    (hs : step u s a = some s') : Clean s' := by
  have hm := move_of_step hs
  cases hm with
  | startEmpty | allReady | someReady | expiredEarly | won | resetHead | resetEnd | unlinked |
    source => exact h.keep (fun _ => id) rfl fun t he => by cases he
  | started | noneReady | tested | notReady | left | checked | createdEternal | createdExpired
  | created | subscribed | begun | registered | called | resumed | advanced | awaited | untaken
  | expired | fired | last | counted | lost | ended =>
      exact h.keep (fun _ => id) rfl fun _ => id
  | @stored t hm hr =>
      -- only the coroutine installs, and in an orderly run not where `reset` has been
      have ha : a = .main := by
        by_contra hne
        cases (main_of_step hs hne).trans hm
      have hnot : ¬ s.Cleared t := ho.1 ha t (by rw [hm]; rfl) hr
      intro t' hc
      have hne : t' ≠ t := fun he => hnot (he ▸ hc)
      dsimp only
      rw [Function.update_of_ne hne]
      exact h t' hc
  | @completed t =>
      refine h.keep (fun t' ht' => ?_) rfl fun _ => id
      dsimp only
      by_cases htt : t' = t
      · rw [htt, Function.update_self]
        exact htt ▸ ht'
      · rwa [Function.update_of_ne htt]
  | @taken t =>
      refine h.keep (fun t' ht' => ?_) rfl fun _ => id
      dsimp only [State.setCall]
      by_cases htt : t' = t
      · rw [htt, Function.update_self]
      · rwa [Function.update_of_ne htt]
  | @cleared t next hr =>
      have ha : a = .reset := by
        by_contra hne
        rcases reset_of_step hs hne with he | he
        · cases hr.symm.trans he.symm
        · cases he
      have hready := ho.2 ha t (by rw [hr]; rfl)
      intro t' hc
      dsimp only
      by_cases htt : t' = t
      · rw [htt, Function.update_self, CoreTask.setReadyCallback]
        split
        case isTrue hf => exact hready hf
        case isFalse => rfl
      · rw [Function.update_of_ne htt]
        refine h t' (Or.inl (hc.resolve_right fun he => htt ?_))
        exact (Option.some.inj he).symm
  | @released t next hr =>
      intro t' hc
      refine h t' ?_
      by_cases htt : t' = t
      · exact Or.inr (by rw [hr, htt]; rfl)
      · refine Or.inl ?_
        have hpos := hc.resolve_right fun he => by cases he
        dsimp only at hpos
        rwa [Function.update_of_ne htt] at hpos

/-! ### What is left behind -/

/-- The awaiter state has been resolved, or was not needed, and the registration loop has ended. -/
def State.Settled (s : State ι) : Prop :=
  s.main = .returned ∨ s.main = .awaiting ∧ (s.reset = .source ∨ s.reset = .returned)

/-- No task holds a callback of the awaiter state, and every reference the list took has been
released once. -/
def State.Released (s : State ι) : Prop :=
  (∀ t, (s.task t).readyCallback = none) ∧ ∀ t, s.released t = s.list.taken t

theorem walk_of_steps {ok : State ι → Action ι → Prop} (h : Steps (step u) ok (initial u) s) :
    Inv u s ∧ ∃ done rest, Walk u s done rest := by
  refine h.invariant (P := fun s => Inv u s ∧ ∃ done rest, Walk u s done rest) ?_
    ⟨Inv.init u, [], u.tasks, Walk.init u⟩
  rintro s a s' ⟨hi, _, _, hw⟩ - hs
  exact ⟨hi.step hs, hw.step hi.links hi.phase (move_of_step hs)⟩

/-- The references are released in every run. -/
theorem released_of_settled (h : Inv u s ∧ ∃ done rest, Walk u s done rest) (hs : s.Settled)
    (t : ι) : s.released t = s.list.taken t := by
  obtain ⟨hi, done, rest, hw⟩ := h
  refine hw.released_eq hi.links ?_ t
  rcases hs with hm | ⟨-, hr⟩
  · exact hw.ended (by rw [hm]; rfl)
  · exact hr

/-- **After an orderly run nothing is left behind.** -/
theorem settled_of_orderly (u : Setup ι) (h : Steps (step u) Orderly (initial u) s)
    (hs : s.Settled) : s.Released := by
  have hw := walk_of_steps h
  have hclean : Clean s := h.invariant (fun hc ho hs => hc.step ho hs) (Clean.init u)
  have hreleased := released_of_settled hw hs
  refine ⟨fun t => ?_, hreleased⟩
  by_contra hne
  obtain ⟨pre, rest, hl, -⟩ := hw.1.loop
  have ht : t ∈ u.tasks := hl.split ▸ List.mem_append_left rest (hl.held t hne)
  refine hne (hclean t (Or.inl ?_))
  rw [hreleased, hw.1.links.taken]
  exact List.count_pos_iff.2 ht

/-- Two tasks that are pending, and an expiration. -/
def pair : Setup (Fin 2) where
  mode := .any
  tasks := List.finRange 2
  nodup := List.nodup_finRange 2
  stage _ := .pending
  eternal := false
  expired := false

/-- The first task is completed and taken, the list is reset, and the loop goes on. -/
def takenThenReset (a : ι) : List (Action ι) :=
  List.replicate 12 Action.main ++ [.complete a, .complete a, .call (.task a)] ++
    List.replicate 9 Action.reset ++ [.main]

theorem pair_released :
    ∃ s : State (Fin 2), s.main = .returned ∧ s.released 1 = 1 ∧ s.Released := by
  have hrun : (exec (step pair) (initial pair) (takenThenReset 0)).map
      (fun s => (s.main, s.released 1)) = some (.returned, 1) := by decide +kernel
  have ho : Allowed (step pair) Orderly (initial pair) (takenThenReset 0) := by decide
  obtain ⟨s, hs, heq⟩ := Option.map_eq_some_iff.1 hrun
  obtain ⟨hm, hr⟩ := Prod.mk.inj heq
  exact ⟨s, hm, hr, settled_of_orderly pair (exec_steps ho hs) (Or.inl hm)⟩

/-- The first task is completed while the loop is at the second, and the list is reset before the
loop installs the callback of the second. -/
def resetThenInstalled (a : ι) : List (Action ι) :=
  List.replicate 9 Action.main ++ [.complete a, .complete a, .call (.task a)] ++
    List.replicate 9 Action.reset ++ List.replicate 3 Action.main

/-- The second is completed as well, and the list is reset before its callback is taken. -/
def resetThenTaken (a b : ι) : List (Action ι) :=
  List.replicate 12 Action.main ++ [.complete b, .complete a, .complete a, .call (.task a)] ++
    List.replicate 9 Action.reset

/-- Without the order, a reset that ends while the callback of a task is on its way leaves it. -/
theorem pair_left :
    (∃ s, Steps (step pair) Free (initial pair) s ∧ s.Settled ∧ (s.task 1).flags.ready = false ∧
      ¬ s.Released) ∧
    ∃ s, Steps (step pair) Free (initial pair) s ∧ s.Settled ∧ (s.task 1).flags.ready = true ∧
      ¬ s.Released := by
  constructor
  · have hrun : (exec (step pair) (initial pair) (resetThenInstalled 0)).map
        (fun s => (s.main, s.reset, (s.task 1).flags.ready, (s.task 1).readyCallback)) =
        some (.awaiting, .returned, false, some ()) := by decide +kernel
    obtain ⟨s, hs, heq⟩ := Option.map_eq_some_iff.1 hrun
    simp only [Prod.mk.injEq] at heq
    obtain ⟨hmain, hreset, hready, hleft⟩ := heq
    refine ⟨s, exec_steps (allowed_free _ _) hs, Or.inr ⟨hmain, Or.inr hreset⟩, hready,
      fun h => ?_⟩
    cases hleft.symm.trans (h.1 1)
  · have hrun : (exec (step pair) (initial pair) (resetThenTaken 0 1)).map
        (fun s => (s.main, s.reset, (s.task 1).flags.ready, (s.task 1).readyCallback)) =
        some (.awaiting, .returned, true, some ()) := by decide +kernel
    obtain ⟨s, hs, heq⟩ := Option.map_eq_some_iff.1 hrun
    simp only [Prod.mk.injEq] at heq
    obtain ⟨hmain, hreset, hready, hleft⟩ := heq
    refine ⟨s, exec_steps (allowed_free _ _) hs, Or.inr ⟨hmain, Or.inr hreset⟩, hready,
      fun h => ?_⟩
    cases hleft.symm.trans (h.1 1)

end

end MyEngine.Async.WhenAll
