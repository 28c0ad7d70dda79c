import MyEngine.Serialization.NativeContainer
import MyEngine.Support.Results

/-!
# Dispatch — MethodInfo

`MethodInfoImpl::invoke` of `class_descriptor_builder.h`: a method is called with the arguments that
a script gives it.

* `Argument`, `Arguments`: the entries of the list, and the parameters.
* `assignArgumentValues`: the parameters are assigned to, one after the other.
* `invoke`: the call.
* `invoke_iff`: which lists are dealt with.
-/

namespace MyEngine.Dispatch

open Serialization

/-- A `Ptr<>` of the list: a `RuntimeValue`, which may be null, or another object. -/
inductive Argument where
  | value (value : RuntimeValue)
  | object

/-- The parameters of a method. -/
inductive Arguments : List NativeType → Type where
  | nil : Arguments []
  | cons {t : NativeType} {types : List NativeType} (x : t.Val) (xs : Arguments types) :
      Arguments (t :: types)

/-- What ends a call without a result: an entry beyond the end of the list, or a failure. -/
inductive Fault where
  | outOfRange
  | failure (f : Failure)

section Assign

variable (lib : FloatLib)

/-- `assignNativeValue` to a parameter, which a default constructor has made. -/
def assignNativeValue (t : NativeType) : Argument → Except Failure t.Val
  | .object   => .error (.error "Dont known how to assign value".toList)
  | .value rtArgValue =>
      if rtArgValue.isNull then .error .nullDereference
      else
        match assign lib (t.destination lib) t.initial rtArgValue with
        | (x, .ok _)    => .ok x
        | (_, .error f) => .error f

/-- `assignArgumentValues`, from an index of the list on. -/
def assignArgumentValues : (types : List NativeType) → List Argument →
    Except Fault (Arguments types)
  | [], _           => .ok .nil
  | _ :: _, []      => .error .outOfRange
  | t :: types, inArg :: inArgs =>
      match assignNativeValue lib t inArg with
      | .error f => .error (.failure f)
      | .ok x    => (assignArgumentValues types inArgs).map (.cons x)

end Assign

/-- The calls of the method that an `invoke` has made, and what it returns. -/
structure Invocation (types : List NativeType) (R : Type) where
  calls : List (Arguments types)
  result : Except Fault R

/-- `invokeInstanceImpl`; `api` is what the instance has of the class. -/
def invoke {types : List NativeType} {C R : Type} (lib : FloatLib)
    (method : C → Arguments types → R) (api : Option C) (inArgs : List Argument) :
    Invocation types R :=
  match assignArgumentValues lib types inArgs with
  | .error f => ⟨[], .error f⟩
  | .ok arguments =>
      match api with
      | none     => ⟨[], .error (.failure (.error "Api not supported".toList))⟩
      | some api => ⟨[arguments], .ok (method api arguments)⟩

/-! ### Lists -/

/-- The list has for every parameter a value that can be assigned to it; it may be longer. -/
inductive Assigned (lib : FloatLib) :
    (types : List NativeType) → List Argument → Arguments types → Prop where
  | nil (args : List Argument) : Assigned lib [] args .nil
  | cons {t : NativeType} {types : List NativeType} {arg : Argument} {args : List Argument}
      {x : t.Val} {xs : Arguments types} (h : assignNativeValue lib t arg = .ok x)
      (hs : Assigned lib types args xs) : Assigned lib (t :: types) (arg :: args) (.cons x xs)

/-- The first entry that cannot be assigned to its parameter is there, and gives an error. -/
inductive Refused (lib : FloatLib) : List NativeType → List Argument → Prop where
  | here {t : NativeType} {types : List NativeType} {arg : Argument} {args : List Argument}
      {message : Text} (h : assignNativeValue lib t arg = .error (.error message)) :
      Refused lib (t :: types) (arg :: args)
  | there {t : NativeType} {types : List NativeType} {arg : Argument} {args : List Argument}
      {x : t.Val} (h : assignNativeValue lib t arg = .ok x) (hs : Refused lib types args) :
      Refused lib (t :: types) (arg :: args)

/-- The parameters denote the values of the list. -/
inductive Denote (denotes : (t : NativeType) → t.Val → RuntimeValue → Prop) :
    (types : List NativeType) → List Argument → Arguments types → Prop where
  | nil (args : List Argument) : Denote denotes [] args .nil
  | cons {t : NativeType} {types : List NativeType} {value : RuntimeValue} {args : List Argument}
      {x : t.Val} {xs : Arguments types} (h : denotes t x value)
      (hs : Denote denotes types args xs) :
      Denote denotes (t :: types) (.value value :: args) (.cons x xs)

/-- With a list that provides for all parameters the method is called once, with parameters that
denote what the list has; with any other it is not called, and the result is an error. -/
def Invoked (lib : FloatLib) (denotes : (t : NativeType) → t.Val → RuntimeValue → Prop)
    {types : List NativeType} {R : Type} (inArgs : List Argument) (i : Invocation types R) : Prop :=
  (∀ arguments, Assigned lib types inArgs arguments →
    i.calls = [arguments] ∧ Denote denotes types inArgs arguments ∧ ∃ r, i.result = .ok r) ∧
  ((¬ ∃ arguments, Assigned lib types inArgs arguments) →
    i.calls = [] ∧ ∃ message, i.result = .error (.failure (.error message)))

variable {lib : FloatLib} {types : List NativeType} {inArgs : List Argument}

theorem assignArgumentValues_ok_iff {arguments : Arguments types} :
    assignArgumentValues lib types inArgs = .ok arguments ↔
      Assigned lib types inArgs arguments := by
  induction types generalizing inArgs with
  | nil =>
      cases arguments
      exact iff_of_true rfl (.nil inArgs)
  | cons t types ih =>
      cases arguments with
      | cons x xs =>
          cases inArgs with
          | nil => exact iff_of_false (fun h => by cases h) (fun h => by cases h)
          | cons arg args =>
              rw [assignArgumentValues]
              constructor
              · intro h
                split at h
                · cases h
                · next y hy =>
                    obtain ⟨ys, hys, heq⟩ := Support.map_eq_ok h
                    cases heq
                    exact .cons hy (ih.1 hys)
              · intro h
                cases h with
                | cons hx hs =>
                    rw [hx, ih.2 hs]
                    rfl

theorem assignArgumentValues_error_iff :
    (∃ message, assignArgumentValues lib types inArgs = .error (.failure (.error message))) ↔
      Refused lib types inArgs := by
  induction types generalizing inArgs with
  | nil => exact iff_of_false (fun ⟨_, h⟩ => by cases h) (fun h => by cases h)
  | cons t types ih =>
      cases inArgs with
      | nil => exact iff_of_false (fun ⟨_, h⟩ => by cases h) (fun h => by cases h)
      | cons arg args =>
          rw [assignArgumentValues]
          cases hassign : assignNativeValue lib t arg with
          | error f =>
              dsimp only
              constructor
              · rintro ⟨message, h⟩
                cases h
                exact .here hassign
              · intro h
                cases h with
                | here h => exact ⟨_, by rw [Except.error.inj (hassign.symm.trans h)]⟩
                | there h _ => cases hassign.symm.trans h
          | ok x =>
              simp only [Support.map_eq_error_iff, ih]
              constructor
              · exact .there hassign
              · intro h
                cases h with
                | here h => cases hassign.symm.trans h
                | there _ hs => exact hs

variable {C R : Type}

/-- **The lists a method deals with**: those that provide for all its parameters, where what is
assigned denotes the arguments, and those whose first entry that does not is there and refused. -/
theorem invoke_iff (lib : FloatLib) (denotes : (t : NativeType) → t.Val → RuntimeValue → Prop)
    (method : C → Arguments types → R) (api : C) (inArgs : List Argument) :
    Invoked lib denotes inArgs (invoke lib method (some api) inArgs) ↔
      (∃ arguments, Assigned lib types inArgs arguments ∧ Denote denotes types inArgs arguments) ∨
        Refused lib types inArgs := by
  rw [invoke]
  cases hassign : assignArgumentValues lib types inArgs with
  | ok arguments =>
      have hassigned := assignArgumentValues_ok_iff.1 hassign
      constructor
      · rintro ⟨hall, -⟩
        exact .inl ⟨arguments, hassigned, (hall arguments hassigned).2.1⟩
      · intro h
        refine ⟨fun arguments' hassigned' => ?_, fun hnone => absurd ⟨_, hassigned⟩ hnone⟩
        have heq : arguments = arguments' :=
          Except.ok.inj (hassign.symm.trans (assignArgumentValues_ok_iff.2 hassigned'))
        subst heq
        refine ⟨rfl, ?_, _, rfl⟩
        rcases h with ⟨arguments', hassigned', hdenote⟩ | hrefused
        · cases hassign.symm.trans (assignArgumentValues_ok_iff.2 hassigned')
          exact hdenote
        · obtain ⟨message, herror⟩ := assignArgumentValues_error_iff.2 hrefused
          cases hassign.symm.trans herror
  | error f =>
      have hnone : ¬ ∃ arguments, Assigned lib types inArgs arguments := by
        rintro ⟨arguments, hassigned⟩
        cases hassign.symm.trans (assignArgumentValues_ok_iff.2 hassigned)
      have hiff : Invoked lib denotes inArgs (⟨[], .error f⟩ : Invocation types R) ↔
          ∃ message, f = .failure (.error message) := by
        constructor
        · rintro ⟨-, hnot⟩
          obtain ⟨-, message, h⟩ := hnot hnone
          exact ⟨message, Except.error.inj h⟩
        · rintro ⟨message, rfl⟩
          exact ⟨fun arguments h => absurd ⟨arguments, h⟩ hnone, fun _ => ⟨rfl, message, rfl⟩⟩
      refine hiff.trans ?_
      rw [or_iff_right fun ⟨arguments, h, _⟩ => hnone ⟨arguments, h⟩,
        ← assignArgumentValues_error_iff, hassign]
      simp only [Except.error.injEq]

/-- A number for a parameter, and one parameter more. -/
theorem not_invoked : ¬ ∀ (types : List NativeType) (method : Unit → Arguments types → Unit)
    (inArgs : List Argument), Invoked .small (fun _ _ _ => True) inArgs
      (invoke .small method (some ()) inArgs) := by
  intro h
  have hinvoked := h [.integer .int32, .boolean] (fun _ _ => ()) [.value (.integer (.int32 1))]
  have hnone : ¬ ∃ arguments, Assigned .small [.integer .int32, .boolean]
      [.value (.integer (.int32 1))] arguments := by
    rintro ⟨_, hassigned⟩
    cases hassigned with
    | cons _ hs => cases hs
  obtain ⟨-, message, hresult⟩ := hinvoked.2 hnone
  cases hresult

end MyEngine.Dispatch
