import MyEngine.Async.WhenAllInv

/-!
# Async — WhenAllResult

What `whenAllInternal` and `whenAnyInternal` yield, and how often.

* `Due`: what a result says of the tasks and of the expiration.
* `Count`: the counter of `whenAllInternal` is the number of callbacks still to come.
* `Verdict`: every result that is on its way is due.
-/

namespace MyEngine.Async.WhenAll

open Runs

variable {ι : Type}

/-- What the mode waits for. -/
def Mode.Met (tasks : List ι) (task : ι → Listed) : Mode → Prop
  | all => ∀ t ∈ tasks, (task t).flags.ready = true
  | any => tasks = [] ∨ ∃ t ∈ tasks, (task t).flags.ready = true

/-- `true` means that what the mode waits for is met, `false` that the expiration has expired. -/
def Due (u : Setup ι) (s : State ι) : Bool → Prop
  | false => s.expired = true
  | true  => u.mode.Met u.tasks s.task

theorem Mode.Met.mono {mode : Mode} {tasks : List ι} {task task' : ι → Listed}
    (h : mode.Met tasks task)
    (htask : ∀ t, (task t).flags.ready = true → (task' t).flags.ready = true) :
    mode.Met tasks task' := by
  cases mode with
  | all => exact fun t ht => htask t (h t ht)
  | any =>
      rcases h with h | ⟨t, ht, hr⟩
      · exact Or.inl h
      · exact Or.inr ⟨t, ht, htask t hr⟩

theorem Due.mono {u : Setup ι} {s s' : State ι} {b : Bool} (h : Due u s b)
    (htask : ∀ t, (s.task t).flags.ready = true → (s'.task t).flags.ready = true)
    (hexpired : s.expired = true → s'.expired = true) : Due u s' b := by
  cases b with
  | false => exact hexpired h
  | true => exact Mode.Met.mono h htask

/-! ### `Count` -/

/-- The decrement a callback is about to do. -/
def Call.weight : Call → Nat
  | count => 1
  | _     => 0

theorem Call.weight_of_ne {c : Call} (h : c ≠ count) : c.weight = 0 := by
  cases c with
  | count => exact absurd rfl h
  | exchange | won | returned => rfl

theorem Mode.all_of_call {mode : Mode} (h : mode.call = .count) : mode = all := by
  cases mode with
  | all => rfl
  | any => cases h

/-- The decrements a task is good for: one to come, or one that its completion is about to do. -/
def State.tokens (s : State ι) (t : ι) : Nat :=
  (s.task t).readyCallback.toList.length + (s.call (.task t)).weight

variable [DecidableEq ι]

structure Count (u : Setup ι) (s : State ι) (pre rest : List ι) : Prop where
  total : u.mode = .all → s.completionState = none → s.main.kind = .live →
    tally s.tokens pre + (s.call .main).weight + rest.length = s.counter
  held : s.completionState = none → ∀ t ∈ pre,
    (s.task t).readyCallback ≠ none ∨ (s.task t).flags.ready = true
  count : ∀ k, s.call k = .count → u.mode = .all ∧ k ≠ .expiration

namespace Count

variable {u : Setup ι} {s s' : State ι} {pre rest : List ι}

theorem init (u : Setup ι) : Count u (initial u) [] u.tasks where
  total _ _ hk := nomatch hk
  held _ _ ht := nomatch ht
  count _ hk := nomatch hk

omit [DecidableEq ι] in
/-- A step after which the same decrements are still to come. -/
theorem keep (h : Count u s pre rest) (htokens : u.mode = .all → ∀ t, s'.tokens t = s.tokens t)
    (hmain : (s'.call .main).weight = (s.call .main).weight) (hcounter : s'.counter = s.counter)
    (hstate : s'.completionState = none → s.completionState = none)
    (hkind : s'.main.kind = .live → s.main.kind = .live)
    (hheld : ∀ t, (s.task t).readyCallback ≠ none ∨ (s.task t).flags.ready = true →
      (s'.task t).readyCallback ≠ none ∨ (s'.task t).flags.ready = true)
    (hcount : ∀ k, s'.call k = .count → u.mode = .all ∧ k ≠ .expiration) :
    Count u s' pre rest where
  total hu hn hk := by
    rw [tally_congr fun t _ => htokens hu t, hmain, hcounter]
    exact h.total hu (hstate hn) (hkind hk)
  held hn t ht := hheld t (h.held (hstate hn) t ht)
  count := hcount

omit [DecidableEq ι] in
/-- A step that leaves the tasks, the calls and the counter as they are. -/
theorem congr (h : Count u s pre rest) (htask : s'.task = s.task) (hcall : s'.call = s.call)
    (hcounter : s'.counter = s.counter)
    (hstate : s'.completionState = none → s.completionState = none)
    (hkind : s'.main.kind = .live → s.main.kind = .live) : Count u s' pre rest := by
  refine h.keep (fun _ t => ?_) (by rw [hcall]) hcounter hstate hkind (fun t ht => htask ▸ ht) ?_
  · rw [State.tokens, State.tokens, htask, hcall]
  · exact hcall ▸ h.count

/-- A callback goes on without a decrement. -/
theorem setCall (h : Count u s pre rest) {k : Caller ι} {c : Call}
    (hc : c.weight = (s.call k).weight)
    (hcount : c = .count → u.mode = .all ∧ k ≠ .expiration) : Count u (s.setCall k c) pre rest := by
  have hweight : ∀ k', ((s.setCall k c).call k').weight = (s.call k').weight := by
    intro k'
    by_cases hk : k' = k
    · rw [hk, Phase.call_setCall_self, hc]
    · rw [Phase.call_setCall_of_ne hk]
  refine h.keep (fun _ t => ?_) (hweight _) rfl id id (fun _ => id) fun k' hk' => ?_
  · rw [State.tokens, hweight]
    rfl
  · by_cases hk : k' = k
    · rw [hk, Phase.call_setCall_self] at hk'
      exact hk ▸ hcount hk'
    · rw [Phase.call_setCall_of_ne hk] at hk'
      exact h.count k' hk'

/-- The awaiter state is made before any callback is registered. -/
theorem make (h : Count u s pre rest) (hl : Loop u s pre rest) (hlinks : Links u s)
    (hpre : pre = []) (hmain : (s.call .main).weight = 0) {m : Main ι} {expiring : Expiring} :
    Count u { s with
      main := m, counter := u.mode.counter s.list.size, expiring := expiring } pre rest where
  total hu _ _ := by
    have hrest : u.tasks = rest := by rw [hl.split, hpre, List.nil_append]
    dsimp only
    rw [hmain, hu, hlinks.size, hrest, hpre]
    exact Nat.zero_add _
  held := h.held
  count := h.count

/-- A decrement: the counter was not zero, and one callback less is to come. -/
theorem spend (h : Count u s pre rest) (hl : Loop u s pre rest) {k : Caller ι}
    (hk : s.call k = .count) {c : Call} (hc : c ≠ .count) :
    Count u (State.setCall { s with counter := s.counter - 1 } k c) pre rest where
  total hu hn hkind := by
    have htotal := h.total hu hn hkind
    rcases k with t | _ | _
    case task =>
      have ht := hl.called t (by rw [hk]; exact nofun)
      have hnodup : pre.Nodup := (List.nodup_append.1 (hl.split ▸ u.nodup)).1
      -- `t` alone gives its token up
      have htally := tally_update (f := s.tokens)
        (g := (State.setCall { s with counter := s.counter - 1 } (.task t) c).tokens)
        hnodup ht.1 fun t' _ hne => by
          rw [State.tokens, Phase.call_setCall_of_ne fun he => hne (Caller.task.inj he)]
          rfl
      have hold : s.tokens t = (s.task t).readyCallback.toList.length + 1 := by
        rw [State.tokens, hk]
        rfl
      have hnew : (State.setCall { s with counter := s.counter - 1 } (.task t) c).tokens t =
          (s.task t).readyCallback.toList.length := by
        rw [State.tokens, Phase.call_setCall_self, Call.weight_of_ne hc]
        rfl
      rw [Phase.call_setCall_of_ne (show Caller.main ≠ .task t from nofun)]
      change _ + _ + _ = s.counter - 1
      rw [hold, hnew] at htally
      dsimp only
      omega
    case main =>
      have htokens : ∀ t, (State.setCall { s with counter := s.counter - 1 } .main c).tokens t =
          s.tokens t := by
        intro t
        rw [State.tokens, Phase.call_setCall_of_ne (show Caller.task t ≠ .main from nofun)]
        rfl
      rw [hk] at htotal
      change _ + 1 + _ = _ at htotal
      rw [tally_congr fun t _ => htokens t, Phase.call_setCall_self, Call.weight_of_ne hc]
      change _ = s.counter - 1
      omega
    case expiration => exact absurd rfl (h.count _ hk).2
  held := h.held
  count k' hk' := by
    by_cases hkk : k' = k
    · rw [hkk, Phase.call_setCall_self] at hk'
      exact absurd hk' hc
    · rw [Phase.call_setCall_of_ne hkk] at hk'
      exact h.count k' hk'

/-- The decrement that takes the counter to zero is that of the last task. -/
theorem met_of_last (h : Count u s pre rest) (hl : Loop u s pre rest) (hp : Phase s)
    {k : Caller ι} (hk : s.call k = .count) (h1 : s.counter = 1) (hn : s.completionState = none) :
    Due u s true := by
  have hu := (h.count k hk).1
  have htotal := (h.spend hl hk (c := .returned) nofun).total hu hn
    (hp.live_of_call hn (by rw [hk]; exact nofun))
  change _ = s.counter - 1 at htotal
  obtain ⟨hsum, hlen⟩ := Nat.add_eq_zero_iff.1 (htotal.trans (by rw [h1]))
  have hrest : rest = [] := List.length_eq_zero_iff.1 hlen
  have hzero := tally_eq_zero.1 (Nat.add_eq_zero_iff.1 hsum).1
  rw [Due, hu]
  intro t ht
  have ht : t ∈ pre := by rwa [hl.split, hrest, List.append_nil] at ht
  refine (h.held hn t ht).resolve_left fun hne => hne ?_
  have hlist : (s.task t).readyCallback.toList.length = 0 :=
    (Nat.add_eq_zero_iff.1 (hzero t ht)).1
  exact Option.toList_eq_nil_iff.1 (List.length_eq_zero_iff.1 hlist)

/-- The completion of a task takes its callback. -/
theorem take (h : Count u s pre rest) {t : ι} (hc : (s.task t).readyCallback = some ())
    (hover : s.call (.task t) = .returned) (hready : (s.task t).flags.ready = true) :
    Count u (State.setCall { s with
      task := Function.update s.task t { s.task t with readyCallback := none }
      finish := Function.update s.finish t .done } (.task t) u.mode.call) pre rest := by
  have hcount : ∀ k, (Function.update s.call (.task t) u.mode.call) k = .count →
      u.mode = .all ∧ k ≠ .expiration := by
    intro k hk
    by_cases hkt : k = .task t
    · subst hkt
      rw [Function.update_self] at hk
      exact ⟨Mode.all_of_call hk, nofun⟩
    · rw [Function.update_of_ne hkt] at hk
      exact h.count k hk
  refine h.keep (fun hu t' => ?_) ?_ rfl id id (fun t' ht' => ?_) hcount
  · rw [State.tokens, State.tokens]
    dsimp only [State.setCall]
    by_cases htt : t' = t
    · rw [htt, Function.update_self, Function.update_self, hc, hover, hu]
      rfl
    · rw [Function.update_of_ne htt,
        Function.update_of_ne fun he => htt (Caller.task.inj he)]
  · rw [Phase.call_setCall_of_ne (show Caller.main ≠ .task t from nofun)]
  · dsimp only [State.setCall]
    by_cases htt : t' = t
    · rw [htt, Function.update_self]
      exact Or.inr hready
    · rwa [Function.update_of_ne htt]

/-- The coroutine takes the next task. -/
theorem push (h : Count u s pre rest) (hl : Loop u s pre rest) {t : ι} {rest' : List ι}
    (hrest : rest = t :: rest') (hlive : s.main.kind = .live) {s' : State ι}
    (hother : ∀ t', t' ≠ t → s'.task t' = s.task t')
    (hcall : ∀ t', s'.call (.task t') = s.call (.task t'))
    (hcounter : s'.counter = s.counter) (hstate : s'.completionState = s.completionState)
    (htokens : u.mode = .all →
      s'.tokens t + (s'.call .main).weight = 1 + (s.call .main).weight)
    (hheld : (s'.task t).readyCallback ≠ none ∨ (s'.task t).flags.ready = true)
    (hcount : ∀ k, s'.call k = .count → u.mode = .all ∧ k ≠ .expiration) :
    Count u s' (pre ++ [t]) rest' where
  total hu hn _ := by
    have htotal := h.total hu (hstate ▸ hn) hlive
    have hnodup := List.nodup_append.1 (hl.split ▸ u.nodup)
    have hne : ∀ t' ∈ pre, t' ≠ t := fun t' ht' =>
      hnodup.2.2 t' ht' t (hrest ▸ List.mem_cons_self)
    have hpre : tally s'.tokens pre = tally s.tokens pre := tally_congr fun t' ht' => by
      rw [State.tokens, State.tokens, hother t' (hne t' ht'), hcall]
    have := htokens hu
    rw [hrest, List.length_cons] at htotal
    rw [tally_append, tally_cons, tally_nil, hpre, hcounter]
    omega
  held hn t' ht' := by
    rcases List.mem_append.1 ht' with ht' | ht'
    · by_cases htt : t' = t
      · exact htt ▸ hheld
      · rw [hother t' htt]
        exact h.held (hstate ▸ hn) t' ht'
    · rw [List.mem_singleton.1 ht']
      exact hheld
  count := hcount

/-- Every step other than a registration. -/
theorem step (h : Count u s pre rest) (hl : Loop u s pre rest) (hlinks : Links u s) (hp : Phase s)
    (hm : Move u s s') (hno : ∀ t, s.main = .register (some t) → s'.main = s.main) :
    Count u s' pre rest := by
  cases hm with
  | startEmpty | started | allReady | noneReady | tested | notReady | someReady | left |
    expiredEarly | checked | awaited => exact h.congr rfl rfl rfl id nofun
  | subscribed hm | begun hm | registered hm | resumed hm | advanced hm =>
      exact h.congr rfl rfl rfl id fun _ => by rw [hm]; rfl
  | expired | resetHead | resetEnd | unlinked | released | source =>
      exact h.congr rfl rfl rfl id id
  | stored hm | called hm => cases (hno _ hm).trans hm
  | createdEternal hm | created hm =>
      have hat := hl.main
      rw [hm] at hat
      have hcall := hp.call_main (by rw [hm]; exact nofun) (by rw [hm]; exact nofun)
      exact h.make hl hlinks hat (by rw [hcall]; rfl)
  | createdExpired hm =>
      have hat := hl.main
      rw [hm] at hat
      have hcall := hp.call_main (by rw [hm]; exact nofun) (by rw [hm]; exact nofun)
      refine Count.setCall (h.make hl hlinks hat (by rw [hcall]; rfl)) ?_ nofun
      dsimp only
      rw [hcall]
      rfl
  | @completed t =>
      refine h.keep (fun _ t' => ?_) rfl rfl id id (fun t' ht' => ?_) h.count
      all_goals by_cases ht : t' = t
      · rw [State.tokens, State.tokens, ht]
        dsimp only
        rw [Function.update_self]
      · rw [State.tokens, State.tokens]
        dsimp only
        rw [Function.update_of_ne ht]
      · rw [ht]
        dsimp only
        rw [Function.update_self]
        exact Or.inr rfl
      · dsimp only
        rwa [Function.update_of_ne ht]
  | @taken t hf hc =>
      exact h.take hc (hl.call_of_ready hf) ((hl.ready t).2 (by rw [hf]; exact nofun))
  | @untaken t hf hc =>
      have hover := hl.call_of_ready hf
      have h' : Count u { s with finish := Function.update s.finish t .done } pre rest :=
        h.congr rfl rfl rfl id id
      exact h'.setCall (by dsimp only; rw [hover]) nofun
  | fired =>
      have h' : Count u { s with expiring := .fired } pre rest := h.congr rfl rfl rfl id id
      refine h'.setCall (Call.weight_of_ne fun hc => ?_).symm nofun
      exact (h.count _ hc).2 rfl
  | last hc h1 =>
      have hs := h.spend hl hc (c := .exchange true) nofun
      rwa [h1] at hs
  | counted hc => exact h.spend hl hc nofun
  | @won k result hc hn =>
      have h' : Count u { s with completionState := some result, reset := .start } pre rest :=
        ⟨nofun, nofun, h.count⟩
      exact h'.setCall (by dsimp only; rw [hc]; rfl) nofun
  | lost hc | ended hc => exact h.setCall (by rw [hc]; rfl) nofun
  | @cleared t next hr =>
      -- `reset` runs only behind the decision, or when the coroutine returns early
      refine ⟨fun _ hn hk => ?_, fun hn t' ht' => ?_, h.count⟩
      · cases hr.symm.trans (hp.idle hn (Or.inr hk))
      · have hlive : s.main.kind ≠ .live := fun hk => by
          cases hr.symm.trans (hp.idle hn (Or.inr hk))
        have hready := (h.held hn t' ht').resolve_left fun hne => hne ((hp.calm hn hlive).2.2 t')
        dsimp only
        by_cases htt : t' = t
        · rw [htt, Function.update_self, CoreTask.setReadyCallback_flags]
          exact Or.inr (htt ▸ hready)
        · rw [Function.update_of_ne htt]
          exact Or.inr hready

end Count

/-! ### `Verdict` -/

/-- A task that is ready stays so. -/
theorem Move.ready {u : Setup ι} {s s' : State ι} (hm : Move u s s') {t' : ι}
    (hr : (s.task t').flags.ready = true) : (s'.task t').flags.ready = true := by
  cases hm with
  | @completed t =>
      dsimp only
      by_cases htt : t' = t
      · rw [htt, Function.update_self]
      · rwa [Function.update_of_ne htt]
  | @taken t | @stored t =>
      dsimp only [State.setCall]
      by_cases htt : t' = t
      · rwa [htt, Function.update_self, ← htt]
      · rwa [Function.update_of_ne htt]
  | @cleared t =>
      dsimp only
      by_cases htt : t' = t
      · rwa [htt, Function.update_self, CoreTask.setReadyCallback_flags, ← htt]
      · rwa [Function.update_of_ne htt]
  | _ => exact hr

theorem Move.due {u : Setup ι} {s s' : State ι} (hm : Move u s s') {b : Bool} (h : Due u s b) :
    Due u s' b := by
  refine h.mono (fun t => hm.ready) fun he => ?_
  cases hm with
  | expired => rfl
  | _ => exact he

/-- The tests have come to `current`: for `whenAllInternal` the tasks before it are ready. -/
def Tested (u : Setup ι) (s : State ι) (current : Option ι) : Prop :=
  ∃ pre rest, u.tasks = pre ++ rest ∧ current = rest.head? ∧
    (u.mode = .all → ∀ t ∈ pre, (s.task t).flags.ready = true)

/-- Every result on its way is due. -/
structure Verdict (u : Setup ι) (s : State ι) : Prop where
  call : ∀ k b, s.call k = .exchange b → s.completionState = none → Due u s b
  state : ∀ b, s.completionState = some b → Due u s b
  early : ∀ b, s.main = .early b → Due u s b
  results : ∀ b ∈ s.results, Due u s b
  test : ∀ current, s.main = .test current → Tested u s current

namespace Verdict

variable {u : Setup ι} {s s' : State ι}

theorem init (u : Setup ι) : Verdict u (initial u) where
  call _ _ hk := nomatch hk
  state _ hb := nomatch hb
  early _ hb := nomatch hb
  results _ hb := nomatch hb
  test _ hm := nomatch hm

/-- A step after which every new result is due. -/
theorem next (h : Verdict u s) (hm : Move u s s')
    (hcall : ∀ k b, s'.call k = .exchange b → s'.completionState = none →
      s.call k = .exchange b ∧ s.completionState = none ∨ Due u s b)
    (hstate : ∀ b, s'.completionState = some b → s.completionState = some b ∨ Due u s b)
    (hearly : ∀ b, s'.main = .early b → s.main = .early b ∨ Due u s b)
    (hresults : ∀ b ∈ s'.results, b ∈ s.results ∨ Due u s b)
    (htest : ∀ current, s'.main = .test current → s.main = .test current ∨ Tested u s current) :
    Verdict u s' where
  call k b hk hn := hm.due ((hcall k b hk hn).elim (fun hc => h.call k b hc.1 hc.2) id)
  state b hb := hm.due ((hstate b hb).elim (h.state b) id)
  early b hb := hm.due ((hearly b hb).elim (h.early b) id)
  results b hb := hm.due ((hresults b hb).elim (h.results b) id)
  test current hc :=
    have ⟨pre, rest, hsplit, hcur, hr⟩ := (htest current hc).elim (h.test current) id
    ⟨pre, rest, hsplit, hcur, fun hu t ht => hm.ready (hr hu t ht)⟩

/-- A step that brings no result on its way. -/
theorem keep (h : Verdict u s) (hm : Move u s s') (hcall : s'.call = s.call)
    (hstate : s'.completionState = s.completionState) (hmain : s'.main = s.main)
    (hresults : s'.results = s.results) : Verdict u s' :=
  h.next hm (fun _ _ hk hn => Or.inl ⟨hcall ▸ hk, hstate ▸ hn⟩) (fun _ hb => Or.inl (hstate ▸ hb))
    (fun _ hb => Or.inl (hmain ▸ hb)) (fun _ hb => Or.inl (hresults ▸ hb))
    fun _ hc => Or.inl (hmain ▸ hc)

/-- The coroutine goes on. -/
theorem go (h : Verdict u s) (hm : Move u s s') (hcall : s'.call = s.call)
    (hstate : s'.completionState = s.completionState) (hresults : s'.results = s.results)
    (hearly : ∀ b, s'.main = .early b → Due u s b)
    (htest : ∀ current, s'.main = .test current → Tested u s current) : Verdict u s' :=
  h.next hm (fun _ _ hk hn => Or.inl ⟨hcall ▸ hk, hstate ▸ hn⟩) (fun _ hb => Or.inl (hstate ▸ hb))
    (fun b hb => Or.inr (hearly b hb)) (fun _ hb => Or.inl (hresults ▸ hb))
    fun current hc => Or.inr (htest current hc)

/-- The callback of `k` goes on, and so may the coroutine. -/
theorem call_next (h : Verdict u s) {k : Caller ι} {c : Call} (hm : Move u s s')
    (hcall : s'.call = Function.update s.call k c)
    (hstate : s'.completionState = s.completionState) (hresults : s'.results = s.results)
    (hmain : s'.main = s.main ∨ s'.main.kind = .live)
    (hdue : ∀ b, c = .exchange b → s.completionState = none → Due u s b) : Verdict u s' := by
  refine h.next hm (fun k' b hk hn => ?_) (fun b hb => Or.inl (hstate ▸ hb)) (fun b hb => ?_)
    (fun b hb => Or.inl (hresults ▸ hb)) fun current hc => ?_
  · rw [hcall] at hk
    by_cases hkk : k' = k
    · rw [hkk, Function.update_self] at hk
      exact Or.inr (hdue b hk (hstate ▸ hn))
    · rw [Function.update_of_ne hkk] at hk
      exact Or.inl ⟨hk, hstate ▸ hn⟩
  · rcases hmain with hmain | hmain
    · exact Or.inl (hmain ▸ hb)
    · rw [hb] at hmain
      cases hmain
  · rcases hmain with hmain | hmain
    · exact Or.inl (hmain ▸ hc)
    · rw [hc] at hmain
      cases hmain

/-- The coroutine yields a result. -/
theorem yield (h : Verdict u s) {b : Bool}
    (hm : Move u s { s with main := .returned, results := s.results ++ [b] })
    (hb : Due u s b) : Verdict u { s with main := .returned, results := s.results ++ [b] } := by
  refine h.next hm (fun _ _ hk hn => Or.inl ⟨hk, hn⟩) (fun _ => Or.inl) nofun (fun b' hb' => ?_)
    nofun
  rcases List.mem_append.1 hb' with hb' | hb'
  · exact Or.inl hb'
  · rw [List.mem_singleton.1 hb']
    exact Or.inr hb

omit [DecidableEq ι] in
/-- The callback of a task that is ready. -/
theorem due_of_ready {t : ι} (ht : t ∈ u.tasks) (hr : (s.task t).flags.ready = true) {b : Bool}
    (hb : u.mode.call = .exchange b) : Due u s b := by
  cases hu : u.mode with
  | all =>
      rw [hu] at hb
      cases hb
  | any =>
      rw [hu] at hb
      cases hb
      rw [Due, hu]
      exact Or.inr ⟨t, ht, hr⟩

/-- The tests go over the list as it was made. -/
theorem tested_next (h : Tested u s (some t)) (hlist : s.list = .ofTasks u.tasks)
    (hr : u.mode = .all → (s.task t).flags.ready = true) : Tested u s (s.list.next t) := by
  obtain ⟨pre, rest, hsplit, hcur, hready⟩ := h
  obtain ⟨rest, rfl⟩ := List.head?_eq_some_iff.1 hcur.symm
  refine ⟨pre ++ [t], rest, by rw [hsplit, List.append_assoc]; rfl, ?_, fun hu t' ht' => ?_⟩
  · rw [hlist, hsplit]
    exact CoreTaskLinkedList.ofTasks_next (hsplit ▸ u.nodup)
  · rcases List.mem_append.1 ht' with ht' | ht'
    · exact hready hu t' ht'
    · exact List.mem_singleton.1 ht' ▸ hr hu

variable {pre rest : List ι}

theorem step (h : Verdict u s) (hc : Count u s pre rest) (hl : Loop u s pre rest)
    (hlinks : Links u s) (hp : Phase s) (hm : Move u s s') : Verdict u s' := by
  have hmove := hm
  -- before the awaiter state is made, nobody has touched the list
  have hlist : s.main.kind = .before → s.list = .ofTasks u.tasks := fun hb =>
    hlinks.intact (Or.inl (hp.idle (hp.undecided (Or.inl hb)) (Or.inl hb)))
  cases hm with
  | expired | resetHead | resetEnd | unlinked | cleared | released | source | completed =>
      exact h.keep hmove rfl rfl rfl rfl
  | noneReady | notReady | checked | createdEternal | created | subscribed | begun | registered |
    resumed | advanced | stored => exact h.go hmove rfl rfl rfl nofun nofun
  | startEmpty hm hu hh =>
      refine h.go hmove rfl rfl rfl (fun b hb => ?_) nofun
      cases hb
      rw [hlist (by rw [hm]; rfl), CoreTaskLinkedList.ofTasks_head] at hh
      rw [Due, hu]
      exact Or.inl (List.head?_eq_none_iff.1 hh)
  | started hm =>
      refine h.go hmove rfl rfl rfl nofun fun current hcur => ?_
      cases hcur
      refine ⟨[], u.tasks, rfl, ?_, fun _ => nofun⟩
      rw [hlist (by rw [hm]; rfl), CoreTaskLinkedList.ofTasks_head]
  | allReady hm hu =>
      refine h.go hmove rfl rfl rfl (fun b hb => ?_) nofun
      cases hb
      obtain ⟨pre, rest, hsplit, hcur, hready⟩ := h.test _ hm
      rw [List.head?_eq_none_iff.1 hcur.symm, List.append_nil] at hsplit
      rw [Due, hu]
      exact fun t ht => hready hu t (hsplit ▸ ht)
  | tested hm hr =>
      refine h.go hmove rfl rfl rfl nofun fun current hcur => ?_
      cases hcur
      exact tested_next (h.test _ hm) (hlist (by rw [hm]; rfl)) hr
  | @someReady t hm hu hr =>
      refine h.go hmove rfl rfl rfl (fun b hb => ?_) nofun
      cases hb
      obtain ⟨pre, rest, hsplit, hcur, -⟩ := h.test _ hm
      have ht : t ∈ rest := List.mem_of_mem_head? hcur.symm
      rw [Due, hu]
      exact Or.inr ⟨t, hsplit ▸ List.mem_append_right pre ht, hr⟩
  | left hm => exact h.yield hmove (h.early _ hm)
  | expiredEarly hm he =>
      refine h.go hmove rfl rfl rfl (fun b hb => ?_) nofun
      cases hb
      exact he
  | createdExpired hm he =>
      refine h.call_next hmove rfl rfl rfl (Or.inr rfl) fun b hb _ => ?_
      cases hb
      exact he
  | @called t hm hr =>
      have hat := hl.main
      rw [hm] at hat
      have ht : t ∈ u.tasks := hl.split ▸ List.mem_append_right pre (List.mem_of_mem_head? hat)
      exact h.call_next hmove rfl rfl rfl (Or.inr rfl) fun b hb _ => due_of_ready ht hr hb
  | awaited hm hr =>
      have ho := hp.returned_of_resolved hr
      obtain ⟨b, hb⟩ := Option.ne_none_iff_exists'.1 (hp.returned ho).2
      refine h.yield hmove ?_
      have hdec : decide (s.completionState = some true) = b := by
        rw [hb]
        cases b <;> rfl
      exact hdec ▸ h.state b hb
  | @taken t hf hk =>
      have ht : t ∈ u.tasks :=
        hl.split ▸ List.mem_append_left rest (hl.held t (by rw [hk]; exact nofun))
      have hr : (s.task t).flags.ready = true := (hl.ready t).2 (by rw [hf]; exact nofun)
      exact h.call_next hmove rfl rfl rfl (Or.inl rfl) fun b hb _ => due_of_ready ht hr hb
  | untaken => exact h.call_next hmove rfl rfl rfl (Or.inl rfl) nofun
  | fired he hx =>
      refine h.call_next hmove rfl rfl rfl (Or.inl rfl) fun b hb _ => ?_
      cases hb
      exact hx
  | last hk h1 =>
      refine h.call_next hmove rfl rfl rfl (Or.inl rfl) fun b hb hn => ?_
      cases hb
      exact hc.met_of_last hl hp hk h1 hn
  | counted => exact h.call_next hmove rfl rfl rfl (Or.inl rfl) nofun
  | @won k result hk hn =>
      refine h.next hmove nofun (fun b hb => ?_) (fun _ => Or.inl) (fun _ => Or.inl)
        fun _ => Or.inl
      cases hb
      exact Or.inr (h.call k _ hk hn)
  | lost | ended => exact h.call_next hmove rfl rfl rfl (Or.inl rfl) nofun

end Verdict

/-! ### The results -/

/-- What every reachable state keeps. -/
structure Inv (u : Setup ι) (s : State ι) : Prop where
  phase : Phase s
  links : Links u s
  loop : ∃ pre rest, Loop u s pre rest ∧ Count u s pre rest
  verdict : Verdict u s

namespace Inv

variable {u : Setup ι} {s s' : State ι}

theorem init (u : Setup ι) : Inv u (initial u) where
  phase := Phase.init u
  links := Links.init u
  loop := ⟨[], u.tasks, Loop.init u, Count.init u⟩
  verdict := Verdict.init u

/-- The loop goes one task further, or stays where it is. -/
theorem step_loop {pre rest : List ι} (hl : Loop u s pre rest) (hc : Count u s pre rest)
    (hlinks : Links u s) (hp : Phase s) (hm : Move u s s') :
    ∃ pre rest, Loop u s' pre rest ∧ Count u s' pre rest := by
  by_cases hno : ∀ t, s.main = .register (some t) → s'.main = s.main
  · exact ⟨pre, rest, hl.keep hlinks hp hm hno, hc.step hl hlinks hp hm hno⟩
  push Not at hno
  obtain ⟨t, hreg, hne⟩ := hno
  have hlive : s.main.kind = .live := by rw [hreg]; rfl
  have hmain : s.call .main = .returned :=
    hp.call_main (by rw [hreg]; exact nofun) (by rw [hreg]; exact nofun)
  rcases hm.register hreg hne with ⟨hr, rfl⟩ | ⟨hr, rfl⟩
  · obtain ⟨rest', hrest, hl'⟩ := hl.push hreg (Or.inl rfl) (some ())
    refine ⟨pre ++ [t], rest', hl', hc.push hl hrest hlive (fun t' ht => ?_) (fun _ => rfl) rfl rfl
      (fun _ => ?_) (Or.inl ?_) hc.count⟩
    · exact Function.update_of_ne ht _ _
    · rw [State.tokens]
      dsimp only
      rw [Function.update_self, hl.call_next hrest]
      rfl
    · dsimp only
      rw [Function.update_self]
      exact nofun
  · obtain ⟨rest', hrest, hl'⟩ := hl.push hreg (Or.inr ⟨rfl, hr⟩)
      (s.task t).readyCallback
    rw [Function.update_eq_self] at hl'
    refine ⟨pre ++ [t], rest', hl'.setCall fun _ => Or.inl rfl, hc.push hl hrest hlive
      (fun _ _ => rfl) (fun t' => ?_) rfl rfl (fun hu => ?_) (Or.inr hr) fun k hk => ?_⟩
    · exact Phase.call_setCall_of_ne (show Caller.task t' ≠ .main from nofun) _ _
    · rw [State.tokens, Phase.call_setCall_self,
        Phase.call_setCall_of_ne (show Caller.task t ≠ .main from nofun)]
      dsimp only [State.setCall]
      rw [hl.callback_next hrest, hl.call_next hrest, hmain, hu]
      rfl
    · by_cases hk' : k = .main
      · subst hk'
        rw [Phase.call_setCall_self] at hk
        exact ⟨Mode.all_of_call hk, nofun⟩
      · rw [Phase.call_setCall_of_ne hk'] at hk
        exact hc.count k hk

theorem step {a : Action ι} (h : Inv u s) (hs : WhenAll.step u s a = some s') : Inv u s' := by
  have hm := move_of_step hs
  obtain ⟨pre, rest, hl, hc⟩ := h.loop
  exact ⟨h.phase.step hm, h.links.step h.phase hm, step_loop hl hc h.links h.phase hm,
    h.verdict.step hc hl h.links h.phase hm⟩

end Inv

/-- **Every run of `whenAllInternal` or `whenAnyInternal` yields at most one result, and a due
one.**  So is the one its awaiter state was resolved with. -/
theorem results_due (u : Setup ι) {s : State ι} (h : Steps (step u) Free (initial u) s) :
    s.resolved ≤ 1 ∧ s.results.length ≤ 1 ∧ (∀ b ∈ s.results, Due u s b) ∧
      ∀ b, s.completionState = some b → Due u s b := by
  have hinv : Inv u s := h.invariant (fun hi _ hs => hi.step hs) (Inv.init u)
  refine ⟨?_, hinv.phase.results_le, hinv.verdict.results, hinv.verdict.state⟩
  by_cases hr : s.reset = .returned
  · exact Nat.le_of_eq (hinv.phase.returned hr).1
  · rw [hinv.phase.resolved hr]
    exact Nat.zero_le 1

/-- Two tasks that are completed while the coroutine registers their callbacks: the first before
its callback is there, the second with its callback. -/
def racing : Setup (Fin 2) where
  mode := .all
  tasks := [0, 1]
  nodup := by decide
  stage _ := .pending
  eternal := false
  expired := false

def race (a b : ι) : List (Action ι) :=
  [.main, .main, .main, .main, .main, .complete a, .complete a, .main, .call .main] ++
    List.replicate 5 Action.main ++
    [.complete b, .complete b, .call (.task b), .call (.task b)] ++
    List.replicate 9 Action.reset ++ [.main]

theorem racing_due : ∃ s, s.results = [true] ∧ s.resolved = 1 ∧
    s.resolved ≤ 1 ∧ s.results.length ≤ 1 ∧ (∀ b ∈ s.results, Due racing s b) ∧
      ∀ b, s.completionState = some b → Due racing s b := by
  have hrun : (exec (step racing) (initial racing) (race 0 1)).map
      (fun s => (s.results, s.resolved)) = some ([true], 1) := by decide +kernel
  obtain ⟨s, hs, heq⟩ := Option.map_eq_some_iff.1 hrun
  obtain ⟨hres, hn⟩ := Prod.mk.inj heq
  exact ⟨s, hres, hn, results_due racing (exec_steps (allowed_free (race 0 1) _) hs)⟩

end MyEngine.Async.WhenAll
