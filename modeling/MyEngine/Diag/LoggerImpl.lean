import Mathlib.Data.List.Count
import Mathlib.Data.List.Nodup
import Mathlib.Data.Prod.Basic
import MyEngine.Support.Replace
import MyEngine.Support.Runs
import MyEngine.Support.Tally

/-!
# Diag — LoggerImpl

`LoggerImpl::log`: messages that are logged from inside a sink or a formatter are put aside, in a
list that all loggers of the thread share.

* `LogCall`: a call with the calls that its delivery leads to.
* `log`: the call, on a thread.
* `State`, `step`: sinks come and go, and calls are made from outside of all sinks.
* `complete_iff`: what has to be so that every message is delivered.
-/

namespace MyEngine.Diag

/-! ### Calls -/

/-- A call of `log`: what the formatter of a sink logs when it is given the message, and what the
sink itself does. -/
inductive LogCall (M : Type) where
  | log (logger : ℕ) (message : M) (formatMessage : ℕ → List (LogCall M))
      (sinkLog : ℕ → List (LogCall M))

variable {M : Type}

/-- The thread-local data of `log`, with all calls and deliveries there have been.  A message is
known by the number of its call. -/
structure Thread (M : Type) where
  recursionCounter : ℕ := 0
  pendingMessages : List ℕ := []
  logged : List (ℕ × M) := []
  delivered : List (ℕ × ℕ) := []

namespace Thread

def enter (t : Thread M) (logger : ℕ) (message : M) : Thread M :=
  { t with recursionCounter := t.recursionCounter + 1, logged := t.logged ++ [(logger, message)] }

/-- `scope_on_leave`. -/
def leave (t : Thread M) : Thread M := { t with recursionCounter := t.recursionCounter - 1 }

def putAside (t : Thread M) (message : ℕ) : Thread M :=
  { t with pendingMessages := t.pendingMessages ++ [message] }

/-- `LogSinkEntryImpl::log`; the list of filters is always empty. -/
def deliver (t : Thread M) (message sink : ℕ) : Thread M :=
  { t with delivered := t.delivered ++ [(message, sink)] }

end Thread

mutual

/-- `LoggerImpl::log`, where `sinks` are those of each logger. -/
@[grind =] def log (sinks : ℕ → List ℕ) (t : Thread M) : LogCall M → Thread M
  | .log logger message formatMessage sinkLog =>
      if 1 < (t.enter logger message).recursionCounter then
        ((t.enter logger message).putAside t.logged.length).leave
      else
        ((sinks logger).foldl (fun t' sink =>
          logAll sinks ((logAll sinks t' (formatMessage sink)).deliver t.logged.length sink)
            (sinkLog sink)) (t.enter logger message)).leave

@[grind =] def logAll (sinks : ℕ → List ℕ) (t : Thread M) : List (LogCall M) → Thread M
  | []            => t
  | call :: calls => logAll sinks (log sinks t call) calls

end

/-! ### Runs -/

/-- The sinks of each logger, and the thread between its calls. -/
structure State (M : Type) where
  sinks : ℕ → List ℕ := fun _ => []
  created : ℕ := 0
  thread : Thread M := {}

inductive Action (M : Type) where
  | addSink (logger : ℕ)
  | releaseLogSink (logger sink : ℕ)
  | log (call : LogCall M)

def step (s : State M) : Action M → Option (State M)
  | .addSink logger =>
      some { s with
        sinks := Function.update s.sinks logger (s.sinks logger ++ [s.created])
        created := s.created + 1 }
  | .releaseLogSink logger sink =>
      some { s with sinks := Function.update s.sinks logger ((s.sinks logger).erase sink) }
  | .log call => some { s with thread := log s.sinks s.thread call }

/-- Every message that is logged in a call is delivered once to each sink of its logger, and none is
left behind. -/
def Complete (s : State M) : Action M → Prop
  | .log call =>
      (log s.sinks s.thread call).pendingMessages = [] ∧
        ∀ number entry, s.thread.logged.length ≤ number →
          (log s.sinks s.thread call).logged[number]? = some entry →
            ∀ sink, (log s.sinks s.thread call).delivered.count (number, sink) =
              if sink ∈ s.sinks entry.1 then 1 else 0
  | _ => True

/-- The sinks that get the message log nothing, and neither do their formatters. -/
def Silent (s : State M) : Action M → Prop
  | .log (.log logger _ formatMessage sinkLog) =>
      ∀ sink ∈ s.sinks logger, formatMessage sink = [] ∧ sinkLog sink = []
  | _ => True

/-! ### Calls from inside -/

variable {sinks : ℕ → List ℕ} {t : Thread M}

theorem log_inside (ht : 0 < t.recursionCounter) (logger : ℕ) (message : M)
    (formatMessage sinkLog : ℕ → List (LogCall M)) :
    log sinks t (.log logger message formatMessage sinkLog) =
      ((t.enter logger message).putAside t.logged.length).leave := by
  have hnested : 1 < (t.enter logger message).recursionCounter := Nat.succ_lt_succ ht
  rw [log, if_pos hnested]

/-- Calls are put aside while there is one around them. -/
theorem logAll_inside (sinks : ℕ → List ℕ) {t : Thread M} (ht : 0 < t.recursionCounter)
    (calls : List (LogCall M)) :
    (logAll sinks t calls).recursionCounter = t.recursionCounter ∧
      (logAll sinks t calls).delivered = t.delivered ∧
      (logAll sinks t calls).pendingMessages.length = t.pendingMessages.length + calls.length := by
  induction calls generalizing t with
  | nil => exact ⟨rfl, rfl, rfl⟩
  | cons call calls ih =>
      obtain ⟨logger, message, formatMessage, sinkLog⟩ := call
      rw [logAll, log_inside ht]
      obtain ⟨hcounter, hdelivered, hpending⟩ :=
        ih (t := ((t.enter logger message).putAside t.logged.length).leave) ht
      refine ⟨hcounter, hdelivered, hpending.trans ?_⟩
      simp only [Thread.leave, Thread.putAside, Thread.enter, List.length_append, List.length_cons,
        List.length_nil]
      omega

/-- What a sink and its formatter log in turn stays behind. -/
theorem pending_sinks (sinks : ℕ → List ℕ) {t : Thread M} (ht : 0 < t.recursionCounter) (number : ℕ)
    (formatMessage sinkLog : ℕ → List (LogCall M)) (registered : List ℕ) :
    (registered.foldl (fun t' sink =>
      logAll sinks ((logAll sinks t' (formatMessage sink)).deliver number sink) (sinkLog sink))
        t).pendingMessages.length =
      t.pendingMessages.length +
        tally (fun sink => (formatMessage sink).length + (sinkLog sink).length) registered := by
  induction registered generalizing t with
  | nil => rfl
  | cons sink registered ih =>
      obtain ⟨hcounter, -, hpending⟩ := logAll_inside sinks ht (formatMessage sink)
      obtain ⟨hcounter', -, hpending'⟩ := logAll_inside sinks
        (t := (logAll sinks t (formatMessage sink)).deliver number sink)
        (hcounter.symm ▸ ht) (sinkLog sink)
      rw [List.foldl_cons, ih (hcounter'.symm ▸ hcounter.symm ▸ ht), hpending', tally_cons]
      change (logAll sinks t (formatMessage sink)).pendingMessages.length + _ + _ = _
      rw [hpending]
      omega

/-- Where nothing is logged in turn, the message is delivered to one sink after the other. -/
theorem deliver_sinks (number : ℕ) {formatMessage sinkLog : ℕ → List (LogCall M)}
    {registered : List ℕ}
    (h : ∀ sink ∈ registered, formatMessage sink = [] ∧ sinkLog sink = []) :
    registered.foldl (fun t' sink =>
      logAll sinks ((logAll sinks t' (formatMessage sink)).deliver number sink) (sinkLog sink)) t =
      { t with delivered := t.delivered ++ registered.map fun sink => (number, sink) } := by
  induction registered generalizing t with
  | nil =>
      rw [List.map_nil, List.append_nil]
      rfl
  | cons sink registered ih =>
      obtain ⟨hformat, hlog⟩ := h sink List.mem_cons_self
      rw [List.foldl_cons, hformat, hlog, logAll, logAll,
        ih fun sink hsink => h sink (List.mem_cons_of_mem _ hsink)]
      simp only [Thread.deliver, List.map_cons, List.append_assoc, List.singleton_append]

/-! ### Between the calls -/

/-- No call is going on, and nothing is left of the earlier ones. -/
structure Ready (s : State M) : Prop where
  counter : s.thread.recursionCounter = 0
  pending : s.thread.pendingMessages = []
  delivered : ∀ d ∈ s.thread.delivered, d.1 < s.thread.logged.length
  sinks : ∀ logger, (s.sinks logger).Nodup ∧ ∀ sink ∈ s.sinks logger, sink < s.created

variable {s s' : State M} {a : Action M}

theorem log_outside (hs : Ready s) (logger : ℕ) (message : M)
    (formatMessage sinkLog : ℕ → List (LogCall M)) :
    log s.sinks s.thread (.log logger message formatMessage sinkLog) =
      ((s.sinks logger).foldl (fun t' sink => logAll s.sinks
        ((logAll s.sinks t' (formatMessage sink)).deliver s.thread.logged.length sink)
          (sinkLog sink)) (s.thread.enter logger message)).leave := by
  have houter : ¬ 1 < (s.thread.enter logger message).recursionCounter := by
    rw [Thread.enter, hs.counter]
    exact Nat.lt_irrefl 1
  rw [log, if_neg houter]

/-- What a call of silent sinks leaves behind. -/
theorem log_silent (hs : Ready s) {logger : ℕ} {message : M}
    {formatMessage sinkLog : ℕ → List (LogCall M)}
    (h : ∀ sink ∈ s.sinks logger, formatMessage sink = [] ∧ sinkLog sink = []) :
    log s.sinks s.thread (.log logger message formatMessage sinkLog) =
      { s.thread with
        logged := s.thread.logged ++ [(logger, message)]
        delivered := s.thread.delivered ++
          (s.sinks logger).map fun sink => (s.thread.logged.length, sink) } := by
  rw [log_outside hs, deliver_sinks _ h]
  rfl

theorem ready_initial : Ready ({} : State M) where
  counter := rfl
  pending := rfl
  delivered := fun _ hd => absurd hd List.not_mem_nil
  sinks := fun _ => ⟨List.nodup_nil, fun _ hsink => absurd hsink List.not_mem_nil⟩

theorem Ready.addSink (hs : Ready s) (logger : ℕ) : Ready { s with
    sinks := Function.update s.sinks logger (s.sinks logger ++ [s.created])
    created := s.created + 1 } where
  counter := hs.counter
  pending := hs.pending
  delivered := hs.delivered
  sinks := by
    obtain ⟨hnodup, hcreated⟩ := hs.sinks logger
    refine (Function.forall_update_iff s.sinks
      (p := fun _ l => l.Nodup ∧ ∀ sink ∈ l, sink < s.created + 1)).2 ⟨⟨?_, ?_⟩, ?_⟩
    · rw [List.nodup_append_comm, List.singleton_append, List.nodup_cons]
      exact ⟨fun hmem => Nat.lt_irrefl _ (hcreated _ hmem), hnodup⟩
    · intro sink hsink
      rcases List.mem_append.1 hsink with hsink | hsink
      · exact Nat.lt_succ_of_lt (hcreated sink hsink)
      · obtain rfl := List.mem_singleton.1 hsink
        exact Nat.lt_succ_self _
    · intro i _
      exact ⟨(hs.sinks i).1, fun sink hsink => Nat.lt_succ_of_lt ((hs.sinks i).2 sink hsink)⟩

theorem Ready.releaseLogSink (hs : Ready s) (logger sink : ℕ) :
    Ready { s with sinks := Function.update s.sinks logger ((s.sinks logger).erase sink) } where
  counter := hs.counter
  pending := hs.pending
  delivered := hs.delivered
  sinks := by
    obtain ⟨hnodup, hcreated⟩ := hs.sinks logger
    refine (Function.forall_update_iff s.sinks
      (p := fun _ l => l.Nodup ∧ ∀ sink ∈ l, sink < s.created)).2 ⟨⟨hnodup.erase sink, ?_⟩, ?_⟩
    · exact fun x hx => hcreated x (List.mem_of_mem_erase hx)
    · exact fun i _ => hs.sinks i

theorem Ready.log (hs : Ready s) {call : LogCall M} (h : Silent s (.log call)) :
    Ready { s with thread := Diag.log s.sinks s.thread call } := by
  obtain ⟨logger, message, formatMessage, sinkLog⟩ := call
  rw [log_silent hs h]
  refine ⟨hs.counter, hs.pending, fun d hd => ?_, hs.sinks⟩
  simp only [List.length_append, List.length_singleton] at hd ⊢
  rcases List.mem_append.1 hd with hd | hd
  · exact Nat.lt_succ_of_lt (hs.delivered d hd)
  · obtain ⟨sink, -, rfl⟩ := List.mem_map.1 hd
    exact Nat.lt_succ_self _

theorem Ready.step (hs : Ready s) (ha : Silent s a) (h : step s a = some s') : Ready s' := by
  cases a with
  | addSink logger =>
      obtain rfl := Option.some.inj h
      exact hs.addSink logger
  | releaseLogSink logger sink =>
      obtain rfl := Option.some.inj h
      exact hs.releaseLogSink logger sink
  | log call =>
      obtain rfl := Option.some.inj h
      exact hs.log ha

theorem getElem?_concat_new {α : Type} {l : List α} {x y : α} {i : ℕ} (hi : l.length ≤ i)
    (h : (l ++ [x])[i]? = some y) : i = l.length ∧ x = y := by
  rcases getElem?_concat_cases h with hold | hnew
  · exact absurd (List.getElem?_eq_some_iff.1 hold).1 (Nat.not_lt_of_le hi)
  · exact hnew

/-- A call is complete just when its sinks are silent. -/
theorem complete_iff_silent (hs : Ready s) (a : Action M) : Complete s a ↔ Silent s a := by
  cases a with
  | addSink logger => exact Iff.rfl
  | releaseLogSink logger sink => exact Iff.rfl
  | log call =>
      obtain ⟨logger, message, formatMessage, sinkLog⟩ := call
      constructor
      · rintro ⟨hpending, -⟩ sink hsink
        have hlength := pending_sinks s.sinks (t := s.thread.enter logger message)
          (Nat.succ_pos _) s.thread.logged.length formatMessage sinkLog (s.sinks logger)
        rw [log_outside hs] at hpending
        have hnil := (congrArg List.length hpending).symm.trans hlength
        obtain ⟨-, htally⟩ := Nat.add_eq_zero_iff.1 hnil.symm
        obtain ⟨hformat, hlog⟩ := Nat.add_eq_zero_iff.1 (tally_eq_zero.1 htally sink hsink)
        exact ⟨List.length_eq_zero_iff.1 hformat, List.length_eq_zero_iff.1 hlog⟩
      · intro h
        rw [Complete, log_silent hs h]
        refine ⟨hs.pending, fun number entry hnumber hentry sink => ?_⟩
        dsimp only at hentry ⊢
        obtain ⟨rfl, rfl⟩ := getElem?_concat_new hnumber hentry
        have hbefore : s.thread.delivered.count (s.thread.logged.length, sink) = 0 :=
          List.count_eq_zero.2 fun hmem => Nat.lt_irrefl _ (hs.delivered _ hmem)
        rw [List.count_append, hbefore, Nat.zero_add,
          List.count_map_of_injective _ _ (Prod.mk_right_injective s.thread.logged.length),
          (hs.sinks logger).1.count]

/-- **Logging on a thread** delivers every message to all sinks and leaves none behind just when no
sink and no formatter logs anything itself. -/
theorem complete_iff (as : List (Action M)) :
    Runs.Allowed step Complete {} as ↔ Runs.Allowed step Silent {} as :=
  Runs.allowed_congr (fun hs _ hok hstep => hs.step ((complete_iff_silent hs _).1 hok) hstep)
    (fun a hs _ => complete_iff_silent hs a) as ready_initial (Runs.allowed_free as _)

/-- A message, and the one that every sink logs when it gets it. -/
def noted : LogCall String :=
  .log 0 "message" (fun _ => []) fun _ => [.log 0 "received" (fun _ => []) fun _ => []]

/-- The message of the sink stays behind. -/
theorem not_complete : ¬ ∀ as : List (Action String), Runs.Allowed step Complete {} as := by
  intro h
  obtain ⟨-, hrest⟩ := h [.addSink 0, .log noted]
  obtain ⟨⟨hpending, -⟩, -⟩ := hrest _ rfl
  have hleft : (log (fun _ => [0]) ({} : Thread String) noted).pendingMessages = [1] := by decide
  cases hleft.symm.trans hpending

end MyEngine.Diag
