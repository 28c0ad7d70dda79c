import MyEngine.Support.Tally
import MyEngine.Async.WhenAll

/-!
# Async — WhenAllInv

What every run of `whenAllInternal` and `whenAnyInternal` keeps.

* `Phase`: the awaiter state is decided once, and the list is reset once.
* `Links`: the list is as it was made until it is reset, and then only cut.
* `Loop`: how far the registration loop has come; only tasks behind it hold a callback.
* `Count`: the counter of `whenAllInternal` is the number of callbacks still to come.
-/

namespace MyEngine.Async.WhenAll

variable {ι : Type}

/-- The part of the coroutine. -/
inductive Kind where
  | before
  | early
  | live
  | returned
  deriving DecidableEq

def Main.kind : Main ι → Kind
  | start | test _ | checking | create => .before
  | early _                            => .early
  | returned                           => .returned
  | _                                  => .live

/-! ### `Phase` -/

structure Phase (s : State ι) : Prop where
  undecided : s.main.kind = .before ∨ s.main.kind = .early → s.completionState = none
  calm : s.completionState = none → s.main.kind ≠ .live →
    s.expiring = .idle ∧ (∀ k, s.call k = .returned) ∧ ∀ t, (s.task t).readyCallback = none
  idle : s.completionState = none → s.main.kind = .before ∨ s.main.kind = .live → s.reset = .idle
  resolved : s.reset ≠ .returned → s.resolved = 0
  returned : s.reset = .returned → s.resolved = 1 ∧ s.completionState ≠ none
  mainCall : s.call .main ≠ .returned → s.main = .subscribing ∨ ∃ t, s.main = .calling t
  results : s.main.kind ≠ .returned → s.results = []
  results_le : s.results.length ≤ 1

namespace Phase

variable {s s' : State ι}

/-- The coroutine goes on in the same part. -/
theorem go (h : Phase s) {m : Main ι} (hk : m.kind = s.main.kind)
    (hcall : s.call .main = .returned) : Phase { s with main := m } where
  undecided hb := h.undecided (hk ▸ hb)
  calm hn hl := h.calm hn (hk ▸ hl)
  idle hn hl := h.idle hn (hk ▸ hl)
  resolved := h.resolved
  returned := h.returned
  mainCall hc := absurd hcall hc
  results hr := h.results (hk ▸ hr)
  results_le := h.results_le

theorem call_main (h : Phase s) (hs : s.main ≠ .subscribing) (hc : ∀ t, s.main ≠ .calling t) :
    s.call .main = .returned := by
  by_contra hne
  rcases h.mainCall hne with he | ⟨t, he⟩
  · exact hs he
  · exact hc t he

theorem returned_of_resolved (h : Phase s) (hr : 0 < s.resolved) : s.reset = .returned := by
  by_contra hne
  exact absurd (h.resolved hne) (Nat.ne_of_gt hr)

/-- Something is called only while the coroutine is between its awaiter state and its end, or
after the state was decided. -/
theorem live_of_call (h : Phase s) (hn : s.completionState = none) {k : Caller ι}
    (hk : s.call k ≠ .returned) : s.main.kind = .live := by
  by_contra hl
  exact hk ((h.calm hn hl).2.1 k)

theorem returnEarly (h : Phase s) (hb : s.main.kind = .before) (result : Bool) :
    Phase (s.returnEarly result) where
  undecided _ := h.undecided (Or.inl hb)
  calm hn _ := h.calm hn (by rw [hb]; exact (nomatch ·))
  idle _ hl := nomatch hl
  resolved _ := h.resolved (by
    rw [h.idle (h.undecided (Or.inl hb)) (Or.inl hb)]
    exact (nomatch ·))
  returned ho := nomatch ho
  mainCall hc := by
    have := (h.calm (h.undecided (Or.inl hb)) (by rw [hb]; exact (nomatch ·))).2.1 .main
    exact absurd this hc
  results _ := h.results (by rw [hb]; exact (nomatch ·))
  results_le := h.results_le

/-- The coroutine ends. -/
theorem ret (h : Phase s) (hr : s.main.kind ≠ .returned) (result : Bool)
    (hn : s.completionState = none → s.main.kind ≠ .live) (hcall : s.call .main = .returned) :
    Phase { s with main := .returned, results := s.results ++ [result] } where
  undecided hb := by rcases hb with hb | hb <;> cases hb
  calm hnone _ := h.calm hnone (hn hnone)
  idle _ hl := by rcases hl with hl | hl <;> cases hl
  resolved := h.resolved
  returned := h.returned
  mainCall hc := absurd hcall hc
  results hne := absurd rfl hne
  results_le := by
    rw [h.results hr]
    exact Nat.le_refl 1

/-- The awaiter state is made. -/
theorem make (h : Phase s) (hb : s.main.kind = .before) {m : Main ι} (hm : m.kind = .live)
    (counter : Nat) (expiring : Expiring) :
    Phase { s with main := m, counter := counter, expiring := expiring } where
  undecided hu := by rcases hu with hu | hu <;> cases hm.symm.trans hu
  calm _ hl := absurd hm hl
  idle hn _ := h.idle hn (Or.inl hb)
  resolved := h.resolved
  returned := h.returned
  mainCall hc := by
    have := (h.calm (h.undecided (Or.inl hb)) (by rw [hb]; exact (nomatch ·))).2.1 .main
    exact absurd this hc
  results _ := h.results (by rw [hb]; exact (nomatch ·))
  results_le := h.results_le

/-- A ready callback may go, and may come while the coroutine is registering them. -/
theorem tasks (h : Phase s) {task : ι → Listed} {finish : ι → Finish}
    (hle : s.main.kind ≠ .live → (∀ t, (s.task t).readyCallback = none) →
      ∀ t, (task t).readyCallback = none) :
    Phase { s with task := task, finish := finish } where
  undecided := h.undecided
  calm hn hl :=
    have ⟨he, hc, ht⟩ := h.calm hn hl
    ⟨he, hc, hle hl ht⟩
  idle := h.idle
  resolved := h.resolved
  returned := h.returned
  mainCall := h.mainCall
  results := h.results
  results_le := h.results_le

/-- `reset` goes on. -/
theorem walk (h : Phase s) {reset : Reset ι} (hs : s.reset ≠ .idle) (ho : s.reset ≠ .returned)
    (hr : reset ≠ .returned) (list : CoreTaskLinkedList ι) (released : ι → Nat) :
    Phase { s with reset := reset, list := list, released := released } where
  undecided := h.undecided
  calm := h.calm
  idle hn hl := absurd (h.idle hn hl) hs
  resolved _ := h.resolved ho
  returned hr' := absurd hr' hr
  mainCall := h.mainCall
  results := h.results
  results_le := h.results_le

variable [DecidableEq ι]

theorem call_setCall_of_ne {k k' : Caller ι} (h : k' ≠ k) (s : State ι) (c : Call) :
    (s.setCall k c).call k' = s.call k' := by
  dsimp only [State.setCall]
  rw [Function.update_of_ne h]

theorem call_setCall_self (s : State ι) (k : Caller ι) (c : Call) : (s.setCall k c).call k = c := by
  dsimp only [State.setCall]
  rw [Function.update_self]

theorem setCall (h : Phase s) {k : Caller ι} {c : Call}
    (hk : s.completionState = none → s.main.kind = .live)
    (hmain : k = .main → c ≠ .returned → s.main = .subscribing ∨ ∃ t, s.main = .calling t) :
    Phase (s.setCall k c) where
  undecided := h.undecided
  calm hn hl := absurd (hk hn) hl
  idle := h.idle
  resolved := h.resolved
  returned := h.returned
  mainCall hc := by
    by_cases he : Caller.main = k
    · subst he
      rw [call_setCall_self] at hc
      exact hmain rfl hc
    · rw [call_setCall_of_ne he] at hc
      exact h.mainCall hc
  results := h.results
  results_le := h.results_le

/-- A callback ends. -/
theorem endCall (h : Phase s) (k : Caller ι) : Phase (s.setCall k .returned) where
  undecided := h.undecided
  calm hn hl := by
    obtain ⟨he, hc, ht⟩ := h.calm hn hl
    refine ⟨he, fun k' => ?_, ht⟩
    by_cases hk : k' = k
    · rw [hk, call_setCall_self]
    · rw [call_setCall_of_ne hk, hc k']
  idle := h.idle
  resolved := h.resolved
  returned := h.returned
  mainCall hc := by
    by_cases he : Caller.main = k
    · rw [he, call_setCall_self] at hc
      exact absurd rfl hc
    · rw [call_setCall_of_ne he] at hc
      exact h.mainCall hc
  results := h.results
  results_le := h.results_le

/-- The compare-exchange of `resolve` is won once: the list was not reset before. -/
theorem win (h : Phase s) {k : Caller ι} {result : Bool} (hc : s.call k = .exchange result)
    (hn : s.completionState = none) :
    Phase (State.setCall { s with completionState := some result, reset := .start } k .won) where
  undecided hu := by
    have hl := h.live_of_call hn (k := k) (by rw [hc]; exact (nomatch ·))
    rcases hu with hu | hu <;> cases hl.symm.trans hu
  calm hnone _ := nomatch hnone
  idle hnone _ := nomatch hnone
  resolved _ := by
    have hl := h.live_of_call hn (k := k) (by rw [hc]; exact (nomatch ·))
    exact h.resolved (by rw [h.idle hn (Or.inr hl)]; exact (nomatch ·))
  returned ho := nomatch ho
  mainCall hw := by
    by_cases he : Caller.main = k
    · exact h.mainCall (by rw [he, hc]; exact (nomatch ·))
    · rw [call_setCall_of_ne he] at hw
      exact h.mainCall hw
  results := h.results
  results_le := h.results_le

theorem step {u : Setup ι} (h : Phase s) (hm : Move u s s') : Phase s' := by
  cases hm with
  | startEmpty hm | allReady hm | someReady hm | expiredEarly hm =>
      exact h.returnEarly (by rw [hm]; rfl) _
  | started hm | noneReady hm | tested hm | notReady hm | checked hm =>
      refine h.go (by rw [hm]; rfl) (h.call_main ?_ fun t => ?_) <;> rw [hm] <;> exact (nomatch ·)
  | left hm =>
      refine h.ret (by rw [hm]; exact (nomatch ·)) _ (fun _ => by rw [hm]; exact (nomatch ·))
        (h.call_main ?_ fun t => ?_) <;> rw [hm] <;> exact (nomatch ·)
  | createdEternal hm => exact h.make (by rw [hm]; rfl) rfl _ _
  | createdExpired hm =>
      exact (h.make (by rw [hm]; rfl) rfl _ _).setCall (fun _ => rfl) fun _ _ => Or.inl rfl
  | created hm => exact h.make (by rw [hm]; rfl) rfl _ _
  | subscribed hm hc | resumed hm hc => exact h.go (by rw [hm]; rfl) hc
  | begun hm | registered hm | advanced hm =>
      refine h.go (by rw [hm]; rfl) (h.call_main ?_ fun t => ?_) <;> rw [hm] <;> exact (nomatch ·)
  | @stored t hm =>
      have hgo := h.go (m := .advance t) (by rw [hm]; rfl)
        (h.call_main (by rw [hm]; exact (nomatch ·)) (by rw [hm]; exact fun t => (nomatch ·)))
      exact hgo.tasks fun hl => absurd rfl hl
  | @called t hm =>
      have hgo := h.go (m := .calling t) (by rw [hm]; rfl)
        (h.call_main (by rw [hm]; exact (nomatch ·)) (by rw [hm]; exact fun t => (nomatch ·)))
      exact hgo.setCall (fun _ => rfl) fun _ _ => Or.inr ⟨_, rfl⟩
  | awaited hm hr =>
      have ho := h.returned_of_resolved hr
      refine h.ret (by rw [hm]; exact (nomatch ·)) _ (fun hn => absurd hn (h.returned ho).2)
        (h.call_main ?_ fun t => ?_) <;> rw [hm] <;> exact (nomatch ·)
  | @completed t hf hr =>
      refine h.tasks fun _ hnone t' => ?_
      by_cases ht : t' = t
      · rw [ht, Function.update_self, hnone t]
      · rw [Function.update_of_ne ht, hnone t']
  | @taken t hf hc =>
      -- a callback is there only while the coroutine is live, or the state is decided
      have hlive : s.completionState = none → s.main.kind = .live := fun hn => by
        by_contra hl
        cases ((h.calm hn hl).2.2 t).symm.trans hc
      refine Phase.setCall (h.tasks fun _ hnone t' => ?_) hlive fun hk => nomatch hk
      cases (hnone t).symm.trans hc
  | untaken => exact (h.tasks fun _ hnone => hnone).endCall _
  | expired =>
      exact ⟨h.undecided, h.calm, h.idle, h.resolved, h.returned, h.mainCall, h.results,
        h.results_le⟩
  | fired he =>
      have hlive : s.completionState = none → s.main.kind = .live := fun hn => by
        by_contra hl
        cases (h.calm hn hl).1.symm.trans he
      have h' : Phase { s with expiring := .fired } :=
        ⟨h.undecided, fun hn hl => absurd (hlive hn) hl, h.idle, h.resolved, h.returned, h.mainCall,
          h.results, h.results_le⟩
      exact h'.setCall hlive fun hk => nomatch hk
  | last hc =>
      have h' : Phase { s with counter := 0 } :=
        ⟨h.undecided, h.calm, h.idle, h.resolved, h.returned, h.mainCall, h.results, h.results_le⟩
      refine h'.setCall (fun hn => h.live_of_call hn (by rw [hc]; exact (nomatch ·)))
        fun hk _ => h.mainCall (by rw [← hk, hc]; exact (nomatch ·))
  | counted =>
      have h' : Phase { s with counter := s.counter - 1 } :=
        ⟨h.undecided, h.calm, h.idle, h.resolved, h.returned, h.mainCall, h.results, h.results_le⟩
      exact h'.endCall _
  | won hc hn => exact h.win hc hn
  | lost | ended => exact h.endCall _
  | resetHead hr | resetEnd hr | unlinked hr | released hr =>
      refine h.walk ?_ ?_ ?_ _ _
      · rw [hr]
        exact (nomatch ·)
      · rw [hr]
        exact (nomatch ·)
      · exact (nomatch ·)
  | @cleared t next hr =>
      have hw : Phase { s with reset := .release t next } := by
        refine h.walk ?_ ?_ ?_ _ _
        · rw [hr]
          exact (nomatch ·)
        · rw [hr]
          exact (nomatch ·)
        · exact (nomatch ·)
      refine hw.tasks fun _ hnone t' => ?_
      by_cases ht : t' = t
      · rw [ht, Function.update_self, CoreTask.setReadyCallback]
        split
        · exact hnone t
        · rfl
      · rw [Function.update_of_ne ht]
        exact hnone t'
  | source hr hs =>
      refine ⟨h.undecided, h.calm, fun hn => absurd hn hs, fun hne => absurd rfl hne, fun _ => ?_,
        h.mainCall, h.results, h.results_le⟩
      exact ⟨congrArg (· + 1) (h.resolved (by rw [hr]; exact (nomatch ·))), hs⟩

theorem init (u : Setup ι) : Phase (initial u) where
  undecided _ := rfl
  calm _ _ := ⟨rfl, fun _ => rfl, fun t => by
    change (u.stage t).task.readyCallback = none
    cases u.stage t <;> rfl⟩
  idle _ _ := rfl
  resolved _ := rfl
  returned ho := nomatch ho
  mainCall hc := absurd rfl hc
  results _ := rfl
  results_le := Nat.zero_le 1

end Phase

/-! ### `Links` -/

section

variable [DecidableEq ι]

structure Links (u : Setup ι) (s : State ι) : Prop where
  intact : s.reset = .idle ∨ s.reset = .start → s.list = .ofTasks u.tasks
  next : ∀ t, s.list.next t = (CoreTaskLinkedList.ofTasks u.tasks).next t ∨ s.list.next t = none
  head : s.list.head = u.tasks.head? ∨ s.list.head = none
  size : s.list.size = u.tasks.length
  taken : ∀ t, s.list.taken t = u.tasks.count t

namespace Links

variable {u : Setup ι} {s s' : State ι}

theorem init (u : Setup ι) : Links u (initial u) where
  intact _ := rfl
  next _ := Or.inl rfl
  head := Or.inl (CoreTaskLinkedList.ofTasks_head _)
  size := CoreTaskLinkedList.ofTasks_size _
  taken := CoreTaskLinkedList.ofTasks_taken _

theorem returnEarly (h : Links u s) (hp : Phase s) (hb : s.main.kind = .before) (result : Bool) :
    Links u (s.returnEarly result) where
  intact _ := h.intact (Or.inl (hp.idle (hp.undecided (Or.inl hb)) (Or.inl hb)))
  next := h.next
  head := h.head
  size := h.size
  taken := h.taken

theorem step (h : Links u s) (hp : Phase s) (hm : Move u s s') : Links u s' := by
  cases hm with
  | startEmpty hm | allReady hm | someReady hm | expiredEarly hm =>
      exact h.returnEarly hp (by rw [hm]; rfl) _
  | @won k result hc hn =>
      have hl := hp.live_of_call hn (k := k) (by rw [hc]; exact (nomatch ·))
      exact ⟨fun _ => h.intact (Or.inl (hp.idle hn (Or.inr hl))), h.next, h.head, h.size, h.taken⟩
  | resetHead =>
      exact ⟨fun hr => hr.elim nofun nofun, h.next, Or.inr rfl, h.size, h.taken⟩
  | @unlinked t =>
      refine ⟨fun hr => hr.elim nofun nofun, fun t' => ?_, h.head, h.size,
        h.taken⟩
      by_cases ht : t' = t
      · exact Or.inr (by rw [ht]; exact Function.update_self ..)
      · dsimp only
        rw [Function.update_of_ne ht]
        exact h.next t'
  | resetEnd | cleared | released | source =>
      exact ⟨fun hr => hr.elim nofun nofun, h.next, h.head, h.size, h.taken⟩
  | _ => exact ⟨h.intact, h.next, h.head, h.size, h.taken⟩

end Links

end

/-! ### `Loop` -/

/-- Where the coroutine stands when it has registered the callbacks of `pre` and not those of
`rest`. -/
def Main.At (pre rest : List ι) : Main ι → Prop
  | register (some t)                     => rest.head? = some t
  | calling t | advance t                 => pre.getLast? = some t
  | register none | awaiting | returned   => True
  | _                                     => pre = []

structure Loop (u : Setup ι) (s : State ι) (pre rest : List ι) : Prop where
  split : u.tasks = pre ++ rest
  main : s.main.At pre rest
  whole : s.completionState = none → s.main = .register none ∨ s.main = .awaiting → rest = []
  held : ∀ t, (s.task t).readyCallback ≠ none → t ∈ pre
  called : ∀ t, s.call (.task t) ≠ .returned → t ∈ pre ∧ s.finish t = .done
  calling : ∀ t, s.main = .calling t → (s.task t).flags.ready = true
  ready : ∀ t, (s.task t).flags.ready = true ↔ s.finish t ≠ .pending

/-- The two ways to register the callback of a task. -/
theorem Move.register [DecidableEq ι] {u : Setup ι} {s s' : State ι} {t : ι} (hm : Move u s s')
    (hreg : s.main = .register (some t)) (hne : s'.main ≠ s.main) :
    ((s.task t).flags.ready = false ∧ s' = { s with
      task := Function.update s.task t { s.task t with readyCallback := some () }
      main := .advance t }) ∨
    ((s.task t).flags.ready = true ∧
      s' = State.setCall { s with main := .calling t } .main u.mode.call) := by
  cases hm with
  | stored hm hr =>
      cases hreg.symm.trans hm
      exact Or.inl ⟨hr, rfl⟩
  | called hm hr =>
      cases hreg.symm.trans hm
      exact Or.inr ⟨hr, rfl⟩
  | startEmpty hm | started hm | allReady hm | noneReady hm | tested hm | notReady hm
  | someReady hm | left hm | expiredEarly hm | checked hm | createdEternal hm
  | createdExpired hm | created hm | subscribed hm | begun hm | registered hm | resumed hm
  | advanced hm | awaited hm => cases hreg.symm.trans hm
  | _ => exact absurd rfl hne

namespace Loop

variable {u : Setup ι} {s s' : State ι} {pre rest : List ι}

/-- The coroutine goes on without touching a task. -/
theorem go (h : Loop u s pre rest) {m : Main ι} (hat : m.At pre rest)
    (hwhole : s.completionState = none → m = .register none ∨ m = .awaiting → rest = [])
    (hcalling : ∀ t, m ≠ .calling t) : Loop u { s with main := m } pre rest where
  split := h.split
  main := hat
  whole := hwhole
  held := h.held
  called := h.called
  calling t hm := absurd hm (hcalling t)
  ready := h.ready

/-- The same to a place at which the list need not have been gone through. -/
theorem pass (h : Loop u s pre rest) {m : Main ι} (hat : m.At pre rest) (hreg : m ≠ .register none)
    (hawait : m ≠ .awaiting) (hcalling : ∀ t, m ≠ .calling t) :
    Loop u { s with main := m } pre rest :=
  h.go hat (fun _ hw => hw.elim (absurd · hreg) (absurd · hawait)) hcalling

theorem congr (h : Loop u s pre rest) (htask : s'.task = s.task) (hfinish : s'.finish = s.finish)
    (hcall : s'.call = s.call) (hmain : s'.main = s.main)
    (hstate : s'.completionState = none → s.completionState = none) : Loop u s' pre rest where
  split := h.split
  main := hmain ▸ h.main
  whole hn hw := h.whole (hstate hn) (hmain ▸ hw)
  held := htask ▸ h.held
  called := by rw [hcall, hfinish]; exact h.called
  calling := by rw [hmain, htask]; exact h.calling
  ready := by rw [htask, hfinish]; exact h.ready

/-- What a step does to a task other than giving it a callback. -/
theorem tasks (h : Loop u s pre rest) {task : ι → Listed} {finish : ι → Finish}
    {call : Caller ι → Call}
    (hheld : ∀ t, (task t).readyCallback ≠ none → (s.task t).readyCallback ≠ none)
    (hcalled : ∀ t, call (.task t) ≠ .returned → t ∈ pre ∧ finish t = .done)
    (hcalling : ∀ t, (s.task t).flags.ready = true → (task t).flags.ready = true)
    (hready : ∀ t, (task t).flags.ready = true ↔ finish t ≠ .pending) :
    Loop u { s with task := task, finish := finish, call := call } pre rest where
  split := h.split
  main := h.main
  whole := h.whole
  held t ht := h.held t (hheld t ht)
  called := hcalled
  calling t hm := hcalling t (h.calling t hm)
  ready := hready

/-- The next task of the list is not registered. -/
theorem notMem (h : Loop u s pre rest) {t : ι} {rest' : List ι} (hrest : rest = t :: rest') :
    t ∉ pre := fun ht =>
  (List.nodup_append.1 (h.split ▸ u.nodup)).2.2 t ht t (hrest ▸ List.mem_cons_self) rfl

theorem callback_next (h : Loop u s pre rest) {t : ι} {rest' : List ι} (hrest : rest = t :: rest') :
    (s.task t).readyCallback = none := by
  by_contra hne
  exact h.notMem hrest (h.held t hne)

theorem call_next (h : Loop u s pre rest) {t : ι} {rest' : List ι} (hrest : rest = t :: rest') :
    s.call (.task t) = .returned := by
  by_contra hne
  exact h.notMem hrest (h.called t hne).1

/-- The thread that is to invoke a callback is not in one yet. -/
theorem call_of_ready (h : Loop u s pre rest) {t : ι} (hf : s.finish t = .ready) :
    s.call (.task t) = .returned := by
  by_contra hne
  cases hf.symm.trans (h.called t hne).2

variable [DecidableEq ι]

theorem init (u : Setup ι) : Loop u (initial u) [] u.tasks where
  split := rfl
  main := rfl
  whole _ hm := by rcases hm with hm | hm <;> cases hm
  held t hne := by
    refine absurd ?_ hne
    change (u.stage t).task.readyCallback = none
    cases u.stage t <;> rfl
  called t hne := absurd rfl hne
  calling t hm := nomatch hm
  ready t := by
    change (u.stage t).task.flags.ready = true ↔ (u.stage t).finish ≠ .pending
    cases u.stage t <;> simp [Stage.task, Stage.finish]

/-- The link of the last task that was registered leads to the next one, if to any. -/
theorem next_eq (h : Loop u s pre rest) {t : ι} (ht : pre.getLast? = some t) :
    (CoreTaskLinkedList.ofTasks u.tasks).next t = rest.head? := by
  obtain ⟨pre, rfl⟩ := List.getLast?_eq_some_iff.1 ht
  have hsplit : u.tasks = pre ++ t :: rest := by rw [h.split, List.append_assoc]; rfl
  rw [hsplit]
  exact CoreTaskLinkedList.ofTasks_next (hsplit ▸ u.nodup)

/-- A callback goes on. -/
theorem setCall (h : Loop u s pre rest) {k : Caller ι} {c : Call}
    (hk : c ≠ .returned → k = .main ∨ k = .expiration ∨ s.call k ≠ .returned) :
    Loop u (s.setCall k c) pre rest := by
  refine h.tasks (fun _ => id) (fun t ht => ?_) (fun _ => id) h.ready
  by_cases hkt : Caller.task t = k
  · subst hkt
    rw [Function.update_self] at ht
    exact h.called t ((hk ht).resolve_left (nomatch ·) |>.resolve_left (nomatch ·))
  · rw [Function.update_of_ne hkt] at ht
    exact h.called t ht

/-- `s.main` registers the callback of the next task; `main` is where the coroutine goes. -/
theorem push (h : Loop u s pre rest) {t : ι} (hm : s.main = .register (some t)) {m : Main ι}
    (hmain : m = .advance t ∨ m = .calling t ∧ (s.task t).flags.ready = true)
    (callback : Option Unit) :
    ∃ rest', rest = t :: rest' ∧ Loop u { s with
      task := Function.update s.task t { s.task t with readyCallback := callback }
      main := m } (pre ++ [t]) rest' := by
  have hat := h.main
  rw [hm] at hat
  obtain ⟨rest', rfl⟩ : ∃ rest', rest = t :: rest' := List.head?_eq_some_iff.1 hat
  have hflags : ∀ t', (Function.update s.task t { s.task t with readyCallback := callback }
      t').flags = (s.task t').flags := by
    intro t'
    by_cases ht : t' = t
    · rw [ht, Function.update_self]
    · rw [Function.update_of_ne ht]
  refine ⟨rest', rfl, ⟨?_, ?_, fun _ hw => ?_, fun t' ht => ?_, fun t' ht => ?_, fun t' ht => ?_,
    fun t' => ?_⟩⟩
  · rw [h.split, List.append_assoc]
    rfl
  · rcases hmain with rfl | ⟨rfl, -⟩ <;> exact List.getLast?_concat
  · rcases hmain with rfl | ⟨rfl, -⟩ <;> rcases hw with hw | hw <;> cases hw
  · by_cases htt : t' = t
    · rw [htt]
      exact List.mem_append_right _ List.mem_cons_self
    · dsimp only at ht
      rw [Function.update_of_ne htt] at ht
      exact List.mem_append_left _ (h.held t' ht)
  · have ⟨hpre, hfinish⟩ := h.called t' ht
    exact ⟨List.mem_append_left _ hpre, hfinish⟩
  · dsimp only
    rw [hflags]
    rcases hmain with rfl | ⟨rfl, hr⟩
    · cases ht
    · obtain rfl := Main.calling.inj ht
      exact hr
  · dsimp only
    rw [hflags]
    exact h.ready t'

/-- A list that is reset cuts the loop off, and then the awaiter state was decided. -/
theorem link (h : Loop u s pre rest) (hl : Links u s) (hp : Phase s) {m : Main ι} {o : Option ι}
    (hm : m = .register o) (hk : s.main.kind = .live)
    (ho : s.list = .ofTasks u.tasks → o = rest.head?) (ho' : o = rest.head? ∨ o = none) :
    Loop u { s with main := m } pre rest := by
  subst hm
  refine h.go ?_ (fun hn hw => ?_) fun t => (nomatch ·)
  · rcases o with _ | t
    · trivial
    · rcases ho' with ho' | ho'
      · exact ho'.symm
      · cases ho'
  · have hintact := hl.intact (Or.inl (hp.idle hn (Or.inr hk)))
    rcases hw with hw | hw
    · obtain rfl := Main.register.inj hw
      exact List.head?_eq_none_iff.1 (ho hintact).symm
    · cases hw

/-- Every step other than a registration leaves the two parts of the list as they are. -/
theorem keep (h : Loop u s pre rest) (hl : Links u s) (hp : Phase s) (hm : Move u s s')
    (hno : ∀ t, s.main = .register (some t) → s'.main = s.main) : Loop u s' pre rest := by
  cases hm with
  | startEmpty hm | allReady hm | someReady hm | expiredEarly hm =>
      have hat := h.main
      rw [hm] at hat
      exact (h.pass (m := .early _) hat nofun nofun nofun).congr rfl rfl rfl rfl id
  | started hm | noneReady hm | tested hm | notReady hm | checked hm | subscribed hm =>
      have hat := h.main
      rw [hm] at hat
      exact h.pass hat nofun nofun nofun
  | createdEternal hm | created hm =>
      have hat := h.main
      rw [hm] at hat
      exact (h.pass (m := .begin) hat nofun nofun nofun).congr rfl rfl rfl rfl id
  | createdExpired hm =>
      have hat := h.main
      rw [hm] at hat
      refine Loop.setCall ?_ fun _ => Or.inl rfl
      exact (h.pass (m := .subscribing) hat nofun nofun nofun).congr rfl rfl rfl rfl id
  | left hm | awaited hm =>
      exact (h.pass (m := .returned) trivial nofun nofun nofun).congr rfl rfl rfl rfl id
  | begun hm =>
      have hat := h.main
      rw [hm] at hat
      -- the loop starts at the head of the list, which is whole unless `reset` has begun
      obtain rfl : pre = [] := hat
      have htasks : u.tasks = rest := h.split
      refine h.link hl hp rfl (by rw [hm]; rfl) (fun he => ?_) (htasks ▸ hl.head)
      rw [he, CoreTaskLinkedList.ofTasks_head, htasks]
  | registered hm =>
      refine h.go trivial (fun hn _ => h.whole hn (Or.inl hm)) nofun
  | resumed hm =>
      have hat := h.main
      rw [hm] at hat
      exact h.pass hat nofun nofun nofun
  | advanced hm =>
      have hat := h.main
      rw [hm] at hat
      have hnext := h.next_eq hat
      refine h.link hl hp rfl (by rw [hm]; rfl) (fun he => ?_) (hnext ▸ hl.next _)
      rw [he, hnext]
  | stored hm | called hm => cases (hno _ hm).trans hm
  | @completed t hf hr =>
      -- the four facts are about one task each; only those about `t` change
      refine h.tasks (fun t' ht => ?_) (fun t' ht => ?_) (fun t' ht => ?_) fun t' => ?_
      all_goals by_cases htt : t' = t
      · rw [htt, Function.update_self] at ht
        exact htt ▸ ht
      · rwa [Function.update_of_ne htt] at ht
      · have := (h.called t' ht).2
        rw [htt, hf] at this
        cases this
      · rw [Function.update_of_ne htt]
        exact h.called t' ht
      · rw [htt, Function.update_self]
      · rwa [Function.update_of_ne htt]
      · rw [htt, Function.update_self, Function.update_self]
        exact ⟨fun _ => nofun, fun _ => rfl⟩
      · rw [Function.update_of_ne htt, Function.update_of_ne htt]
        exact h.ready t'
  | @taken t hf hc =>
      have h' : Loop u { s with
          task := Function.update s.task t { s.task t with readyCallback := none }
          finish := Function.update s.finish t .done
          call := Function.update s.call (.task t) u.mode.call } pre rest := ?_
      · exact h'
      refine h.tasks (fun t' ht => ?_) (fun t' ht => ?_) (fun t' ht => ?_) fun t' => ?_
      all_goals by_cases htt : t' = t
      · rw [htt, Function.update_self] at ht
        exact absurd rfl ht
      · rwa [Function.update_of_ne htt] at ht
      · rw [htt, Function.update_self]
        exact ⟨h.held t (by rw [hc]; exact nofun), rfl⟩
      · rw [Function.update_of_ne fun he => htt (Caller.task.inj he)] at ht
        rw [Function.update_of_ne htt]
        exact h.called t' ht
      · rw [htt, Function.update_self]
        exact htt ▸ ht
      · rwa [Function.update_of_ne htt]
      · rw [htt, Function.update_self, Function.update_self, h.ready t, hf]
        exact ⟨fun _ => nofun, fun _ => nofun⟩
      · rw [Function.update_of_ne htt, Function.update_of_ne htt]
        exact h.ready t'
  | @untaken t hf hc =>
      have h' : Loop u { s with
          finish := Function.update s.finish t .done
          call := Function.update s.call (.task t) .returned } pre rest := ?_
      · exact h'
      refine h.tasks (fun _ => id) (fun t' ht => ?_) (fun _ => id) fun t' => ?_
      all_goals by_cases htt : t' = t
      · rw [htt, Function.update_self] at ht
        exact absurd rfl ht
      · rw [Function.update_of_ne fun he => htt (Caller.task.inj he)] at ht
        rw [Function.update_of_ne htt]
        exact h.called t' ht
      · rw [htt, Function.update_self, h.ready t, hf]
        exact ⟨fun _ => nofun, fun _ => nofun⟩
      · rw [Function.update_of_ne htt]
        exact h.ready t'
  | last hc =>
      have h' : Loop u { s with counter := 0 } pre rest := h.congr rfl rfl rfl rfl id
      exact h'.setCall fun _ => Or.inr (Or.inr (by dsimp only; rw [hc]; exact nofun))
  | counted hc =>
      have h' : Loop u { s with counter := s.counter - 1 } pre rest := h.congr rfl rfl rfl rfl id
      exact h'.setCall fun hne => absurd rfl hne
  | @won k result hc hn =>
      have h' : Loop u { s with completionState := some result, reset := .start } pre rest :=
        h.congr rfl rfl rfl rfl nofun
      exact h'.setCall fun _ => Or.inr (Or.inr (by dsimp only; rw [hc]; exact nofun))
  | lost | ended => exact h.setCall fun hne => absurd rfl hne
  | fired =>
      have h' : Loop u { s with expiring := .fired } pre rest := h.congr rfl rfl rfl rfl id
      exact h'.setCall fun _ => Or.inr (Or.inl rfl)
  | @cleared t next hr =>
      -- `setReadyCallback(nullptr)` takes a callback away and leaves the flags
      have hflags : ∀ t', (Function.update s.task t ((s.task t).setReadyCallback none).2
          t').flags = (s.task t').flags := by
        intro t'
        by_cases htt : t' = t
        · rw [htt, Function.update_self, CoreTask.setReadyCallback_flags]
        · rw [Function.update_of_ne htt]
      have h' : Loop u { s with
          task := Function.update s.task t ((s.task t).setReadyCallback none).2 } pre rest := ?_
      · exact h'.congr rfl rfl rfl rfl id
      refine h.tasks (fun t' ht => ?_) h.called (fun t' ht => ?_) fun t' => ?_
      · by_cases htt : t' = t
        · rw [htt, Function.update_self, CoreTask.setReadyCallback] at ht
          split at ht
          · exact htt ▸ ht
          · exact absurd rfl ht
        · rwa [Function.update_of_ne htt] at ht
      · rwa [hflags]
      · rw [hflags]
        exact h.ready t'
  | expired | resetHead | resetEnd | unlinked | released | source =>
      exact ⟨h.split, h.main, h.whole, h.held, h.called, h.calling, h.ready⟩

end Loop

end MyEngine.Async.WhenAll
