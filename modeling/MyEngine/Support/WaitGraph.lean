import Mathlib.Logic.Relation

/-!
# Support — WaitGraph

Who waits for whom: where one lock is taken before the others, so that whoever waits asks for the
first lock or holds it; and where locks are taken along an order.

* `Hub`: the holder of the first lock is the only one that waits for other locks.
* `Hub.cycle_iff`: a cycle is the holder waiting for itself, or for one that asks.
* `Ordered`: who holds a lock asks only for locks behind it.
* `Ordered.acyclic`: then no one waits in a cycle.
-/

namespace MyEngine

open Relation

variable {α : Type*} {Waits : α → α → Prop} {Asks Holds : α → Prop}

/-- One at most holds the lock; to ask for it is to wait for the holder. -/
structure Hub (Waits : α → α → Prop) (Asks Holds : α → Prop) : Prop where
  unique : ∀ {i j}, Holds i → Holds j → i = j
  apart : ∀ {i}, Asks i → ¬ Holds i
  asks : ∀ {i j}, Asks i → Holds j → Waits i j
  edge : ∀ {i j}, Waits i j → Asks i ∧ Holds j ∨ Holds i

/-- Whom the holder waits for comes back to it, or asks. -/
theorem Hub.of_path (hub : Hub Waits Asks Holds) {h g i : α} (hholds : Holds h) (hwaits : Waits h g)
    (hback : g = i → g = h ∨ Asks g) (hpath : ReflTransGen Waits g i) :
    ∃ h g, Holds h ∧ Waits h g ∧ (g = h ∨ Asks g) := by
  rcases hpath.cases_head with heq | ⟨k, hedge, -⟩
  · exact ⟨h, g, hholds, hwaits, hback heq⟩
  · refine ⟨h, g, hholds, hwaits, ?_⟩
    rcases hub.edge hedge with ⟨hasks, -⟩ | hholds'
    · exact .inr hasks
    · exact .inl (hub.unique hholds' hholds)

theorem Hub.cycle_iff (hub : Hub Waits Asks Holds) :
    (∃ i, TransGen Waits i i) ↔ ∃ h g, Holds h ∧ Waits h g ∧ (g = h ∨ Asks g) := by
  constructor
  · rintro ⟨i, hcycle⟩
    obtain ⟨j, hedge, hpath⟩ := TransGen.head'_iff.1 hcycle
    rcases hub.edge hedge with ⟨hasks, hholds⟩ | hholds
    · -- The next on the way is the holder, which waits for another lock.
      rcases hpath.cases_head with rfl | ⟨k, hnext, hrest⟩
      · exact absurd hholds (hub.apart hasks)
      · exact hub.of_path hholds hnext (fun heq => .inr (heq ▸ hasks)) hrest
    · exact hub.of_path hholds hedge .inl hpath
  · rintro ⟨h, g, hholds, hwaits, rfl | hasks⟩
    · exact ⟨g, .single hwaits⟩
    · exact ⟨h, .head hwaits (.single (hub.asks hasks hholds))⟩

/-- To wait is to ask for one lock that the other holds; what is asked for comes behind what is
held. -/
structure Ordered {ρ : Type*} (Waits : α → α → Prop) (Asks Holds : α → ρ → Prop)
    (Before : ρ → ρ → Prop) : Prop where
  edge : ∀ {i j}, Waits i j → ∃ r, Asks i r ∧ Holds j r
  asks : ∀ {i r r'}, Asks i r → Asks i r' → r = r'
  order : ∀ {i r r'}, Holds i r → Asks i r' → Before r r'
  trans : ∀ {r r' r''}, Before r r' → Before r' r'' → Before r r''
  irrefl : ∀ r, ¬ Before r r

namespace Ordered

variable {ρ : Type*} {Asks Holds : α → ρ → Prop} {Before : ρ → ρ → Prop}

/-- Along a way, what is asked for moves on in the order. -/
theorem before_of_path (h : Ordered Waits Asks Holds Before) {i j : α} {r : ρ}
    (hpath : TransGen Waits i j) (hasks : Asks j r) : ∃ r₀, Asks i r₀ ∧ Before r₀ r := by
  induction hpath generalizing r with
  | single hedge =>
      obtain ⟨r₀, hr₀, hholds⟩ := h.edge hedge
      exact ⟨r₀, hr₀, h.order hholds hasks⟩
  | tail _ hedge ih =>
      obtain ⟨r₁, hr₁, hholds⟩ := h.edge hedge
      obtain ⟨r₀, hr₀, hbefore⟩ := ih hr₁
      exact ⟨r₀, hr₀, h.trans hbefore (h.order hholds hasks)⟩

theorem acyclic (h : Ordered Waits Asks Holds Before) (i : α) : ¬ TransGen Waits i i := by
  intro hcycle
  obtain ⟨j, hedge, -⟩ := TransGen.head'_iff.1 hcycle
  obtain ⟨r, hasks, -⟩ := h.edge hedge
  obtain ⟨r₀, hr₀, hbefore⟩ := h.before_of_path hcycle hasks
  obtain rfl := h.asks hr₀ hasks
  exact h.irrefl r₀ hbefore

end Ordered

end MyEngine
