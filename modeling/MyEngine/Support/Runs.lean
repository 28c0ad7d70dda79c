import Mathlib.Tactic.TypeStar

/-!
# Support — Runs

The runs of a machine whose step is a partial function: `step s a` is the state after the
action `a`, or nothing when `a` cannot be taken in `s`.  A run is constrained by a predicate
`ok` on the step's state and action; `Free` is the constraint every step meets.

* `Steps`: the reflexive-transitive closure, one constructor per step.
* `Steps.invariant`: what one step preserves, a run preserves.
* `exec`: the run along a given list of actions, to evaluate a schedule.
* `exec_bounded`: a bound that every step lowers bounds a run's length.
-/

namespace MyEngine.Runs

variable {σ α : Type*}

/-- `s` goes to `s'` by steps that meet `ok`. -/
inductive Steps (step : σ → α → Option σ) (ok : σ → α → Prop) : σ → σ → Prop where
  | refl (s : σ) : Steps step ok s s
  | more {s s₁ s' : σ} {a : α} (h : ok s a) (hs : step s a = some s₁)
      (t : Steps step ok s₁ s') : Steps step ok s s'

/-- The constraint every step meets. -/
def Free : σ → α → Prop := fun _ _ => True

namespace Steps

variable {step : σ → α → Option σ} {ok ok' : σ → α → Prop} {s s₁ s' : σ} {a : α}

theorem mono (hle : ∀ s a, ok s a → ok' s a) (h : Steps step ok s s') :
    Steps step ok' s s' := by
  induction h with
  | refl => exact .refl _
  | more h hs _ ih => exact .more (hle _ _ h) hs ih

/-- One step more. -/
theorem snoc (h : Steps step ok s s₁) (ha : ok s₁ a) (hs : step s₁ a = some s') :
    Steps step ok s s' := by
  induction h with
  | refl => exact .more ha hs (.refl _)
  | more h hs' _ ih => exact .more h hs' (ih ha hs)

theorem trans (h : Steps step ok s s₁) (h' : Steps step ok s₁ s') : Steps step ok s s' := by
  induction h with
  | refl => exact h'
  | more h hs _ ih => exact .more h hs (ih h')

/-- A property one step preserves holds at the end of a run it holds at the start of. -/
theorem invariant {P : σ → Prop}
    (hstep : ∀ {s a s'}, P s → ok s a → step s a = some s' → P s')
    (h : Steps step ok s s') (h₀ : P s) : P s' := by
  induction h with
  | refl => exact h₀
  | more h hs _ ih => exact ih (hstep h₀ h hs)

end Steps

/-- The run along `as`, or nothing when one of the actions cannot be taken. -/
@[grind =] def exec (step : σ → α → Option σ) : σ → List α → Option σ
  | s, []      => some s
  | s, a :: as => (step s a).bind fun s₁ => exec step s₁ as

/-- `ok` holds at every step of the run along `as`. -/
@[grind =] def Allowed (step : σ → α → Option σ) (ok : σ → α → Prop) : σ → List α → Prop
  | _, []      => True
  | s, a :: as => ok s a ∧ ∀ s₁ ∈ step s a, Allowed step ok s₁ as

instance {step : σ → α → Option σ} {ok : σ → α → Prop} [∀ s a, Decidable (ok s a)] :
    ∀ s as, Decidable (Allowed step ok s as)
  | _, []      => inferInstanceAs (Decidable True)
  | s, a :: as =>
      have : ∀ s₁, Decidable (Allowed step ok s₁ as) := fun s₁ => instDecidableAllowed s₁ as
      inferInstanceAs (Decidable (ok s a ∧ ∀ s₁ ∈ step s a, Allowed step ok s₁ as))

theorem exec_steps {step : σ → α → Option σ} {ok : σ → α → Prop} :
    ∀ {as : List α} {s s' : σ}, Allowed step ok s as → exec step s as = some s' →
      Steps step ok s s'
  | [], s, s', _, h => by
      obtain rfl : s = s' := Option.some.inj h
      exact .refl _
  | a :: as, s, s', ⟨ha, hr⟩, h => by
      obtain ⟨s₁, hs, ht⟩ := Option.bind_eq_some_iff.mp h
      exact .more ha hs (exec_steps (hr s₁ hs) ht)

/-- A run is no longer than a bound that every step lowers. -/
theorem exec_bounded {step : σ → α → Option σ} {P : Nat → σ → Prop}
    (hstep : ∀ {k s a s'}, P k s → step s a = some s' → ∃ k' < k, P k' s') :
    ∀ {as : List α} {k : Nat} {s s' : σ}, P k s → exec step s as = some s' →
      ∃ k', as.length + k' ≤ k ∧ P k' s'
  | [], k, s, s', hP, h => by
      obtain rfl : s = s' := Option.some.inj h
      exact ⟨k, Nat.le_of_eq (Nat.zero_add k), hP⟩
  | a :: as, k, s, s', hP, h => by
      obtain ⟨s₁, hs, ht⟩ := Option.bind_eq_some_iff.mp h
      obtain ⟨k₁, hlt, hP₁⟩ := hstep hP hs
      obtain ⟨k', hle, hP'⟩ := exec_bounded hstep hP₁ ht
      refine ⟨k', ?_, hP'⟩
      rw [List.length_cons]
      omega

theorem allowed_free {step : σ → α → Option σ} :
    ∀ (as : List α) (s : σ), Allowed step Free s as
  | [], _      => trivial
  | _ :: as, _ => ⟨trivial, fun s₁ _ => allowed_free as s₁⟩

/-- Two constraints allow the same runs when they agree wherever the first one leads, among the runs
that a third one allows. -/
theorem allowed_congr {step : σ → α → Option σ} {ok₀ ok ok' : σ → α → Prop} {P : σ → Prop}
    (hstep : ∀ {s a s'}, P s → ok₀ s a → ok s a → step s a = some s' → P s')
    (hiff : ∀ {s} a, P s → ok₀ s a → (ok s a ↔ ok' s a)) :
    ∀ {s : σ} (as : List α), P s → Allowed step ok₀ s as →
      (Allowed step ok s as ↔ Allowed step ok' s as)
  | _, [], _, _                 => Iff.rfl
  | s, a :: as, h, ⟨hok₀, hrun⟩ => by
      constructor
      · rintro ⟨hok, hrest⟩
        refine ⟨(hiff a h hok₀).1 hok, fun s₁ hs => ?_⟩
        exact (allowed_congr hstep hiff as (hstep h hok₀ hok hs) (hrun s₁ hs)).1 (hrest s₁ hs)
      · rintro ⟨hok', hrest⟩
        have hok := (hiff a h hok₀).2 hok'
        refine ⟨hok, fun s₁ hs => ?_⟩
        exact (allowed_congr hstep hiff as (hstep h hok₀ hok hs) (hrun s₁ hs)).2 (hrest s₁ hs)

end MyEngine.Runs
