import MyEngine.Support.OneShot
import MyEngine.Support.Tally

/-!
# Support — Notifier

Threads that run a one-shot ledger: each has a stack of frames, and the loop over the entries is
a frame of one of them.

* `Walk`: which frames are in the loop, and how many entries such a frame has passed.
* `Notifier`: the stacks and the shared data; `Notifier.ledger` is what they amount to.
* `Linked`, `Refines`: one frame at most is in the loop, and a step is one of the ledger or none.
-/

namespace MyEngine.OneShot

variable {φ : Type*}

/-- `walks` is `1` at the frames that are in the loop and `0` at the others. -/
structure Walk (φ : Type*) where
  walks : φ → Nat
  passed : φ → Nat
  passed_of_walks : ∀ f, walks f = 0 → passed f = 0

/-- An entry has the number of its subscriber and says whether there is still a callback. -/
structure Notifier (φ : Type*) where
  threads : List (List φ)
  started : Bool
  entries : List (Nat × Bool)
  subscribed : Nat
  notified : List Nat
  left : List Nat

namespace Notifier

/-- No thread runs anything and nobody is subscribed. -/
def initial (φ : Type*) (threads : Nat) : Notifier φ where
  threads := .replicate threads []
  started := false
  entries := []
  subscribed := 0
  notified := []
  left := []

def walkers (w : Walk φ) (n : Notifier φ) : Nat := tally (tally w.walks) n.threads

def progress (w : Walk φ) (n : Notifier φ) : Nat := tally (tally w.passed) n.threads

def loop (w : Walk φ) (n : Notifier φ) : Option Nat :=
  if n.walkers w = 0 then none else some (n.progress w)

def ledger (w : Walk φ) (n : Notifier φ) : Ledger where
  started := n.started
  loop := n.loop w
  entries := n.entries.map Prod.fst
  subscribed := n.subscribed
  notified := n.notified
  left := n.left

structure Linked (w : Walk φ) (n : Notifier φ) : Prop where
  walkers : n.walkers w ≤ n.started.toNat
  live : ∀ e ∈ n.entries, e.2 = true ↔ e.1 ∉ n.left
  ledger : (n.ledger w).Inv

/-- The step is one of the ledger, or none. -/
def Refines (w : Walk φ) (n n' : Notifier φ) : Prop :=
  Linked w n' ∧ (n'.ledger w = n.ledger w ∨ (n.ledger w).Step (n'.ledger w))

variable {w : Walk φ} {n n' : Notifier φ} {thread : Nat} {old new rest : List φ} {frame : φ}

/-! ### The loop -/

theorem tally_passed_of_walks {stack : List φ} (h : tally w.walks stack = 0) :
    tally w.passed stack = 0 :=
  tally_eq_zero.2 fun f hf => w.passed_of_walks f (tally_eq_zero.1 h f hf)

theorem walkers_set (hstack : n.threads[thread]? = some old)
    (hn : n'.threads = n.threads.set thread new) :
    n'.walkers w + tally w.walks old = n.walkers w + tally w.walks new := by
  rw [walkers, hn]
  exact tally_set _ hstack new

theorem progress_set (hstack : n.threads[thread]? = some old)
    (hn : n'.threads = n.threads.set thread new) :
    n'.progress w + tally w.passed old = n.progress w + tally w.passed new := by
  rw [progress, hn]
  exact tally_set _ hstack new

theorem progress_of_walkers (h : n.walkers w = 0) : n.progress w = 0 :=
  tally_eq_zero.2 fun stack hstack => tally_passed_of_walks (tally_eq_zero.1 h stack hstack)

/-- What is on top of a stack is replaced by something with the same share in the loop. -/
theorem loop_set (top top' : List φ) (hstack : n.threads[thread]? = some (top ++ rest))
    (hn : n'.threads = n.threads.set thread (top' ++ rest))
    (hwalks : tally w.walks top' = tally w.walks top)
    (hpassed : tally w.passed top' = tally w.passed top) :
    n'.walkers w = n.walkers w ∧ n'.loop w = n.loop w := by
  have hw := walkers_set (w := w) hstack hn
  have hp := progress_set (w := w) hstack hn
  rw [tally_append, tally_append, hwalks] at hw
  rw [tally_append, tally_append, hpassed] at hp
  rw [loop, loop, Nat.add_right_cancel hw, Nat.add_right_cancel hp]
  exact ⟨rfl, rfl⟩

/-- The frame on top of the stack is in the loop, and so no other is. -/
theorem loop_alone (hone : n.walkers w ≤ 1) (hstack : n.threads[thread]? = some (frame :: rest))
    (hframe : w.walks frame = 1) : n.loop w = some (w.passed frame) ∧
      ∀ (n' : Notifier φ) (top : List φ), n'.threads = n.threads.set thread (top ++ rest) →
        n'.walkers w = tally w.walks top ∧ n'.progress w = tally w.passed top := by
  have hle := le_tally (tally w.walks) hstack
  have hwalkers : n.walkers w = tally (tally w.walks) n.threads := rfl
  rw [tally_cons, hframe, ← hwalkers] at hle
  have hrest : tally w.walks rest = 0 := by omega
  have hpassed := tally_passed_of_walks hrest
  -- without this stack nothing is in the loop
  have hnone : n.progress w = w.passed frame := by
    obtain ⟨n', hn⟩ : ∃ n' : Notifier φ, n'.threads = n.threads.set thread [] :=
      ⟨{ n with threads := n.threads.set thread [] }, rfl⟩
    have hw := walkers_set (w := w) hstack hn
    have hp := progress_set (w := w) hstack hn
    rw [tally_cons, hrest, hframe, tally_nil] at hw
    rw [tally_cons, hpassed, tally_nil, progress_of_walkers (by omega)] at hp
    omega
  refine ⟨?_, fun n' top hn => ?_⟩
  · rw [loop, if_neg (by omega), hnone]
  · have hw := walkers_set (w := w) hstack hn
    have hp := progress_set (w := w) hstack hn
    rw [tally_cons, tally_append, hrest, hframe] at hw
    rw [tally_cons, tally_append, hpassed, hnone] at hp
    omega

theorem loop_of_idle (h : ∀ stack ∈ n.threads, stack = []) : n.walkers w = 0 ∧ n.loop w = none := by
  have hzero : n.walkers w = 0 := tally_eq_zero.2 fun stack hstack => h stack hstack ▸ rfl
  exact ⟨hzero, if_pos hzero⟩

/-! ### The steps -/

theorem ledger_eq {l : Ledger} (hstarted : n.started = l.started) (hloop : n.loop w = l.loop)
    (hentries : n.entries.map Prod.fst = l.entries) (hsubscribed : n.subscribed = l.subscribed)
    (hnotified : n.notified = l.notified) (hleft : n.left = l.left) : n.ledger w = l := by
  rw [ledger, hstarted, hloop, hentries, hsubscribed, hnotified, hleft]

namespace Linked

theorem init (threads : Nat) : Linked w (initial φ threads) := by
  obtain ⟨hzero, hloop⟩ := loop_of_idle (w := w) (n := initial φ threads)
    fun stack hstack => List.eq_of_mem_replicate hstack
  exact ⟨Nat.le_of_eq hzero, nofun, ledger_eq (l := {}) rfl hloop rfl rfl rfl rfl ▸ .init⟩

theorem walkers_le_one (h : Linked w n) : n.walkers w ≤ 1 :=
  Nat.le_trans h.walkers (Bool.toNat_le _)

/-- The ledger of the state reached is `l`, one step of the ledger away. -/
theorem of_step (h : Linked w n) {l : Ledger} (hl : n'.ledger w = l) (hs : (n.ledger w).Step l)
    (hwalkers : n'.walkers w ≤ n'.started.toNat)
    (hlive : ∀ e ∈ n'.entries, e.2 = true ↔ e.1 ∉ n'.left) : Refines w n n' :=
  ⟨⟨hwalkers, hlive, h.ledger.step (hl ▸ hs)⟩, .inr (hl ▸ hs)⟩

/-- A step that changes stacks only. -/
theorem quiet (h : Linked w n) (hloop : n'.walkers w = n.walkers w ∧ n'.loop w = n.loop w)
    (hstarted : n'.started = n.started) (hentries : n'.entries = n.entries)
    (hsubscribed : n'.subscribed = n.subscribed) (hnotified : n'.notified = n.notified)
    (hleft : n'.left = n.left) : Refines w n n' := by
  have hledger : n'.ledger w = n.ledger w := ledger_eq hstarted hloop.2 (congrArg _ hentries)
    hsubscribed hnotified hleft
  refine ⟨⟨?_, ?_, hledger ▸ h.ledger⟩, .inl hledger⟩
  · rw [hloop.1, hstarted]
    exact h.walkers
  · rw [hentries, hleft]
    exact h.live

theorem enter (h : Linked w n) (hloop : n'.walkers w = n.walkers w ∧ n'.loop w = n.loop w)
    (hs : n.started = false) (hstarted : n'.started = n.started)
    (hentries : n'.entries = n.entries ++ [(n.subscribed, true)])
    (hsubscribed : n'.subscribed = n.subscribed + 1) (hnotified : n'.notified = n.notified)
    (hleft : n'.left = n.left) : Refines w n n' := by
  refine h.of_step (ledger_eq hstarted hloop.2 ?_ hsubscribed hnotified hleft) (.enter hs) ?_
    fun e he => ?_
  · rw [hentries, List.map_append]
    rfl
  · rw [hloop.1, hstarted]
    exact h.walkers
  · rw [hleft]
    rw [hentries] at he
    rcases List.mem_append.1 he with he | he
    · exact h.live e he
    · obtain rfl := List.mem_singleton.1 he
      exact iff_of_true rfl fun hmem =>
        Nat.lt_irrefl _ (h.ledger.entered _ (h.ledger.left _ hmem))

theorem atOnce (h : Linked w n) (hloop : n'.walkers w = n.walkers w ∧ n'.loop w = n.loop w)
    (hstarted : n'.started = n.started) (hentries : n'.entries = n.entries)
    (hsubscribed : n'.subscribed = n.subscribed + 1)
    (hnotified : n'.notified = n.notified ++ [n.subscribed]) (hleft : n'.left = n.left) :
    Refines w n n' := by
  refine h.of_step (ledger_eq hstarted hloop.2 (congrArg _ hentries) hsubscribed hnotified hleft)
    (.atOnce _) ?_ ?_
  · rw [hloop.1, hstarted]
    exact h.walkers
  · rw [hentries, hleft]
    exact h.live

/-- The subscriber of an entry leaves, and the callback goes. -/
theorem leave (h : Linked w n) {i id : Nat} {live : Bool} (hi : n.entries[i]? = some (id, live))
    (hloop : n'.walkers w = n.walkers w ∧ n'.loop w = n.loop w) (hstarted : n'.started = n.started)
    (hentries : n'.entries = n.entries.set i (id, false))
    (hsubscribed : n'.subscribed = n.subscribed) (hnotified : n'.notified = n.notified)
    (hleft : n'.left = n.left ++ [id]) : Refines w n n' := by
  have hfst : n'.entries.map Prod.fst = n.entries.map Prod.fst := by
    rw [hentries]
    exact map_set_of_eq hi rfl
  refine h.of_step (l := { n.ledger w with left := n.left ++ [id] })
    (ledger_eq hstarted hloop.2 hfst hsubscribed hnotified hleft)
    (.leave (List.mem_map_of_mem (List.mem_of_getElem? hi))) ?_ fun e he => ?_
  · rw [hloop.1, hstarted]
    exact h.walkers
  · obtain ⟨j, hj⟩ := List.getElem?_of_mem he
    rw [hentries, List.getElem?_set] at hj
    rw [hleft]
    split at hj
    · split at hj
      · obtain rfl := Option.some.inj hj
        exact iff_of_false nofun fun hmem =>
          hmem (List.mem_append_right _ (List.mem_singleton.2 rfl))
      · cases hj
    · next hne =>
      have hid : e.1 ≠ id := by
        intro heq
        have hi' : (n.ledger w).entries[i]? = some e.1 :=
          heq ▸ List.getElem?_map .. ▸ congrArg (Option.map Prod.fst) hi
        have hj' : (n.ledger w).entries[j]? = some e.1 :=
          List.getElem?_map .. ▸ congrArg (Option.map Prod.fst) hj
        exact hne (h.ledger.index_unique hi' hj')
      rw [h.live e (List.mem_of_getElem? hj)]
      refine not_congr ⟨fun hmem => List.mem_append_left _ hmem, fun hmem => ?_⟩
      exact (List.mem_append.1 hmem).resolve_right fun heq => hid (List.mem_singleton.1 heq)

/-- The loop starts, on top of a stack. -/
theorem start (h : Linked w n) (hs : n.started = false)
    (hstack : n.threads[thread]? = some (frame :: rest)) (hframe : w.walks frame = 0) {next : φ}
    (hn : n'.threads = n.threads.set thread (next :: rest)) (hwalks : w.walks next = 1)
    (hpassed : w.passed next = 0) (hstarted : n'.started = true)
    (hentries : n'.entries = n.entries) (hsubscribed : n'.subscribed = n.subscribed)
    (hnotified : n'.notified = n.notified) (hleft : n'.left = n.left) : Refines w n n' := by
  have hzero : n.walkers w = 0 := by
    have hle := h.walkers
    rw [hs] at hle
    exact Nat.le_zero.1 hle
  have hwalkers := walkers_set (w := w) hstack hn
  have hprogress := progress_set (w := w) hstack hn
  rw [hzero, tally_cons, tally_cons, hframe, hwalks] at hwalkers
  rw [progress_of_walkers hzero, tally_cons, tally_cons, w.passed_of_walks frame hframe, hpassed]
    at hprogress
  have hloop : n'.loop w = some 0 := by
    rw [loop, if_neg (by omega)]
    exact congrArg some (by omega)
  refine h.of_step (ledger_eq hstarted hloop (congrArg _ hentries) hsubscribed hnotified hleft)
    (.start hs) ?_ ?_
  · rw [hstarted]
    exact Nat.le_of_eq (show _ = 1 by omega)
  · rw [hentries, hleft]
    exact h.live

/-- The loop moves to another place, as a step of the ledger says. -/
theorem advance (h : Linked w n) (top : List φ) (place : Option Nat)
    (hstack : n.threads[thread]? = some (frame :: rest)) (hframe : w.walks frame = 1)
    (hn : n'.threads = n.threads.set thread (top ++ rest))
    (htop : tally w.walks top = if place = none then 0 else 1)
    (hpassed : ∀ i ∈ place, tally w.passed top = i) (hstarted : n'.started = n.started)
    (hentries : n'.entries = n.entries) (hsubscribed : n'.subscribed = n.subscribed)
    (hleft : n'.left = n.left)
    (hs : n.loop w = some (w.passed frame) →
      (n.ledger w).Step { n.ledger w with loop := place, notified := n'.notified }) :
    Refines w n n' := by
  obtain ⟨hloop, hset⟩ := loop_alone h.walkers_le_one hstack hframe
  obtain ⟨hwalkers, hprogress⟩ := hset n' top hn
  have hloop' : n'.loop w = place := by
    rw [loop, hwalkers, hprogress, htop]
    cases place with
    | none => rfl
    | some i => exact congrArg some (hpassed i rfl)
  refine h.of_step (ledger_eq hstarted hloop' (congrArg _ hentries) hsubscribed rfl hleft)
    (hs hloop) ?_ ?_
  · have hone : 1 ≤ n.walkers w := by
      have hle := le_tally (tally w.walks) hstack
      rw [tally_cons, hframe] at hle
      exact Nat.le_trans (Nat.le_add_right _ _) hle
    rw [hwalkers, htop, hstarted]
    refine Nat.le_trans ?_ (Nat.le_trans hone h.walkers)
    split <;> omega
  · rw [hentries, hleft]
    exact h.live

theorem notify (h : Linked w n) {i id : Nat} {next : φ}
    (hstack : n.threads[thread]? = some (frame :: rest)) (hframe : w.walks frame = 1)
    (hi : w.passed frame = i) (hentry : n.entries[i]? = some (id, true))
    (hn : n'.threads = n.threads.set thread (next :: rest)) (hwalks : w.walks next = 1)
    (hpassed : w.passed next = i + 1) (hstarted : n'.started = n.started)
    (hentries : n'.entries = n.entries) (hsubscribed : n'.subscribed = n.subscribed)
    (hnotified : n'.notified = n.notified ++ [id]) (hleft : n'.left = n.left) :
    Refines w n n' := by
  refine h.advance [next] (some (i + 1)) hstack hframe hn ?_ ?_ hstarted hentries hsubscribed hleft
    fun hloop => ?_
  · rw [tally_cons, hwalks]
    rfl
  · intro j hj
    obtain rfl := Option.some.inj hj
    rw [tally_cons, hpassed]
    rfl
  · rw [hnotified]
    refine .notify (hloop.trans (congrArg some hi)) ?_
      ((h.live _ (List.mem_of_getElem? hentry)).1 rfl)
    exact List.getElem?_map .. ▸ congrArg (Option.map Prod.fst) hentry

theorem pass (h : Linked w n) {i id : Nat} {next : φ}
    (hstack : n.threads[thread]? = some (frame :: rest)) (hframe : w.walks frame = 1)
    (hi : w.passed frame = i) (hentry : n.entries[i]? = some (id, false))
    (hn : n'.threads = n.threads.set thread (next :: rest)) (hwalks : w.walks next = 1)
    (hpassed : w.passed next = i + 1) (hstarted : n'.started = n.started)
    (hentries : n'.entries = n.entries) (hsubscribed : n'.subscribed = n.subscribed)
    (hnotified : n'.notified = n.notified) (hleft : n'.left = n.left) : Refines w n n' := by
  have hid : id ∈ n.left := not_not.1 (mt (h.live _ (List.mem_of_getElem? hentry)).2 nofun)
  refine h.advance [next] (some (i + 1)) hstack hframe hn ?_ ?_ hstarted hentries hsubscribed hleft
    fun hloop => ?_
  · rw [tally_cons, hwalks]
    rfl
  · intro j hj
    obtain rfl := Option.some.inj hj
    rw [tally_cons, hpassed]
    rfl
  · rw [hnotified]
    refine .pass (hloop.trans (congrArg some hi)) ?_ hid
    exact List.getElem?_map .. ▸ congrArg (Option.map Prod.fst) hentry

theorem finish (h : Linked w n) (hstack : n.threads[thread]? = some (frame :: rest))
    (hframe : w.walks frame = 1) (hi : n.entries.length ≤ w.passed frame)
    (hn : n'.threads = n.threads.set thread rest) (hstarted : n'.started = n.started)
    (hentries : n'.entries = n.entries) (hsubscribed : n'.subscribed = n.subscribed)
    (hnotified : n'.notified = n.notified) (hleft : n'.left = n.left) : Refines w n n' := by
  refine h.advance [] none hstack hframe hn rfl nofun hstarted hentries hsubscribed hleft
    fun hloop => ?_
  rw [hnotified]
  refine .finish hloop ?_
  dsimp only [Notifier.ledger]
  rwa [List.length_map]

end Linked

/-- Who has left is on neither side of a step notified once more. -/
theorem left_of_refines (hs : n'.ledger w = n.ledger w ∨ (n.ledger w).Step (n'.ledger w))
    (h : (n.ledger w).Inv) {id : Nat} (hid : id ∈ n.left) :
    id ∈ n'.left ∧ n'.notified.count id = n.notified.count id := by
  rcases hs with heq | hstep
  · have hleft : n'.left = n.left := congrArg Ledger.left heq
    have hnotified : n'.notified = n.notified := congrArg Ledger.notified heq
    rw [hleft, hnotified]
    exact ⟨hid, rfl⟩
  · exact ⟨hstep.left_subset hid, hstep.count_of_left h hid⟩

end Notifier

end MyEngine.OneShot
