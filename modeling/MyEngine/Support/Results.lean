import Mathlib.Tactic.TypeStar

/-!
# Support — Results

What a call with errors has done when its result is there.
-/

namespace MyEngine.Support

variable {ε α β : Type*}

theorem map_eq_ok {f : α → β} {x : Except ε α} {b : β} (h : x.map f = .ok b) :
    ∃ a, x = .ok a ∧ f a = b := by
  cases x with
  | error e => cases h
  | ok a => exact ⟨a, rfl, Except.ok.inj h⟩

theorem map_eq_error_iff {f : α → β} {x : Except ε α} {e : ε} :
    x.map f = .error e ↔ x = .error e := by
  cases x with
  | error e' => exact ⟨fun h => by cases h; rfl, fun h => by cases h; rfl⟩
  | ok a => exact iff_of_false (fun h => by cases h) (fun h => by cases h)

/-- Of a call whose errors end the step of a machine. -/
theorem map_toOption_eq_some {f : α → β} {x : Except ε α} {b : β}
    (h : x.toOption.map f = some b) : ∃ a, x = .ok a ∧ f a = b := by
  cases x with
  | error e => cases h
  | ok a => exact ⟨a, rfl, Option.some.inj h⟩

end MyEngine.Support
