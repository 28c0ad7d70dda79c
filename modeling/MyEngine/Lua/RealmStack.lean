import MyEngine.Lua.ValueRoots

/-!
# Lua — RealmStack

The Lua stack of a `LuaRealm`: the values that invocation scopes keep on it, of `lua_realm.cpp`,
`lua_interop.cpp` and `lua_runtime_value.cpp`.

* `Kept`: a `ReferenceValue` with a `LuaStackRoot`, that has a place on the stack.
* `step`: scopes that open and close, programs that are executed, functions that are called, fields
  that are read and written.
* `Placed`: what is kept is where it was, until the scope closes that gives the places back.
* `kept_on_stack`: so it is in every run, and a function that is called is the one that was kept.
* `scope_restores`, `stack_grows`: what is on the stack when a scope closes, and until one does.
-/

namespace MyEngine.Lua.RealmStack

open Roots Runs

/-! ### The code -/

structure LuaValue where
  id : ℕ
  type : LuaType
  deriving DecidableEq, Repr

/-- `InvocationGuardImpl` with its `ValueKeeperGuard`; `top` is that of the `StackGuard`. -/
structure Scope where
  id : ℕ
  keepMode : ValueKeepMode
  top : ℕ
  deriving DecidableEq, Repr

/-- `m_key`, and what was there; `within` is the scope that gives the place back. -/
structure Kept where
  key : ℕ
  value : LuaValue
  within : Option ℕ
  deriving DecidableEq, Repr

/-- The top of the stack is the last of its values; the scopes from the current one outwards. -/
structure State where
  stack : List LuaValue := []
  scopes : List Scope := []
  nextScope : ℕ := 0
  kept : List Kept := []
  deriving DecidableEq, Repr

/-- A value that an operation is for: one that is kept on the stack, or by a global reference. -/
inductive Operand where
  | kept (i : ℕ)
  | global (value : LuaValue)
  deriving DecidableEq, Repr

/-- What `pushRuntimeValue` does: a value more, or what it leaves when it fails. -/
inductive Pushed where
  | value (value : LuaValue)
  | failed (left : List LuaValue)
  deriving DecidableEq, Repr

namespace State

variable (s : State)

/-- `ValueKeeperGuard::current`, or the default of `makeValueFromLuaStack`. -/
def keepMode : ValueKeepMode :=
  match s.scopes with
  | []         => .asReference
  | scope :: _ => scope.keepMode

/-- The scope that closes first of those that give the stack back. -/
def within : Option ℕ := (s.scopes.find? fun scope => scope.keepMode = .asReference).map Scope.id

def push (values : List LuaValue) : State := { s with stack := s.stack ++ values }

/-- `lua_settop` to what is not above the top. -/
def settop (top : ℕ) : State := { s with stack := s.stack.take top }

/-- `makeValueFromLuaStack` of the top, and whether the value is to be kept there. -/
def makeValueFromLuaStack : State × Bool :=
  match s.stack.getLast? with
  | none       => (s, false)
  | some value =>
      if s.keepMode = .onStack && isReferenceType value.type then
        ({ s with kept := s.kept ++ [⟨s.stack.length, value, s.within⟩] }, true)
      else (s, false)

/-- A value is made of the top, and the stack cut when it is not kept. -/
def takeValue (top : ℕ) : State :=
  let (s, keepStackValue) := s.makeValueFromLuaStack
  if keepStackValue then s else s.settop top

def openScope (keepMode : ValueKeepMode) : State :=
  { s with
    scopes := ⟨s.nextScope, keepMode, s.stack.length⟩ :: s.scopes
    nextScope := s.nextScope + 1 }

/-- The end of a scope: only one with `AsReference` has a `StackGuard`. -/
def closeScope : Option State :=
  match s.scopes with
  | []              => none
  | scope :: scopes =>
      let s := { s with scopes := scopes }
      some (if scope.keepMode = .asReference && scope.top < s.stack.length then s.settop scope.top
        else s)

/-- `ExecuteImpl`: the call fails, or leaves results on the stack. -/
def executeImpl (call : Option (List LuaValue)) : State :=
  match call with
  | none         => s
  | some results =>
      let top := s.stack.length
      match results with
      | []  => s
      | [_] => (s.push results).takeValue top
      | _   => (s.push results).settop top

/-- `pushSelf`. -/
def self : Operand → Option LuaValue
  | .kept i       => s.kept[i]?.bind fun kept => s.stack[kept.key - 1]?
  | .global value => some value

/-- The arguments up to one that fails. -/
def pushArgs (s : State) : List Pushed → State × Bool
  | []                   => (s, true)
  | .value value :: args => (s.push [value]).pushArgs args
  | .failed left :: _    => (s.push left, false)

/-- `LuaClosureValue::invoke`. -/
def invoke (self : LuaValue) (args : List Pushed) (call : Option (List LuaValue)) : State :=
  let top := s.stack.length
  let (s, pushed) := (s.push [self]).pushArgs args
  if pushed then
    -- the call takes the function and the arguments
    match call with
    | none         => s.settop top
    | some results =>
        let s := (s.settop top).push results
        if s.stack.length = top then s else s.takeValue top
  else s

/-- `makeChildValue`. -/
def makeChildValue (child : LuaValue) : State := (s.push [child]).takeValue s.stack.length

/-- `setField`, by the field that is there; `left` is what `populateTable` leaves, or
`pushRuntimeValue` when it fails. -/
def setField (self key field : LuaValue) (ok : Bool) (left : List LuaValue) : State :=
  let s := s.push [self]
  match field.type with
  | .table    => s.push (field :: left)
  | .function => s.push [field]
  | _         => if ok then s else s.push (key :: left)

end State

inductive Action where
  | openScope (keepMode : ValueKeepMode)
  | closeScope
  | execute (call : Option (List LuaValue))
  | invoke (self : Operand) (args : List Pushed) (call : Option (List LuaValue))
  | getValue (self : Operand) (child : LuaValue)
  | setValue (self : Operand) (key field : LuaValue) (ok : Bool) (left : List LuaValue)
  | release (i : ℕ)
  deriving DecidableEq, Repr

/-- A step; none with a value or a scope that is not there. -/
def step (s : State) : Action → Option State
  | .openScope keepMode               => some (s.openScope keepMode)
  | .closeScope                       => s.closeScope
  | .execute call                     => some (s.executeImpl call)
  | .invoke self args call            => do some (s.invoke (← s.self self) args call)
  | .getValue self child              => do let _ ← s.self self; some (s.makeChildValue child)
  | .setValue self key field ok left  => do some (s.setField (← s.self self) key field ok left)
  | .release i                        => do
      let _ ← s.kept[i]?
      some { s with kept := s.kept.eraseIdx i }

/-! ### What an operation leaves -/

/-- What is on the stack stays; the top may be a value that is kept. -/
structure Grown (s s' : State) : Prop where
  scopes : s'.scopes = s.scopes
  nextScope : s'.nextScope = s.nextScope
  stack : s.stack <+: s'.stack
  kept : s'.kept = s.kept ∨ ∃ value, s'.kept = s.kept ++ [⟨s'.stack.length, value, s.within⟩] ∧
    s'.stack.getLast? = some value ∧ s.stack.length < s'.stack.length

namespace Grown

variable {s s₁ s' : State}

theorem refl (s : State) : Grown s s := ⟨rfl, rfl, List.prefix_rfl, .inl rfl⟩

theorem push (s : State) (values : List LuaValue) : Grown s (s.push values) :=
  ⟨rfl, rfl, List.prefix_append .., .inl rfl⟩

/-- Values on the stack before what is kept. -/
theorem push_left {values : List LuaValue} (h : Grown (s.push values) s') : Grown s s' where
  scopes := h.scopes
  nextScope := h.nextScope
  stack := (List.prefix_append ..).trans h.stack
  kept := by
    refine h.kept.imp_right fun ⟨value, hkept, hlast, hlength⟩ => ⟨value, hkept, hlast, ?_⟩
    refine Nat.lt_of_le_of_lt ?_ hlength
    rw [State.push, List.length_append]
    exact Nat.le_add_right ..

theorem settop_push (s : State) (values : List LuaValue) :
    (s.push values).settop s.stack.length = s := by
  rw [State.settop, State.push, List.take_left' rfl]

theorem takeValue {values : List LuaValue} (hne : values ≠ []) :
    Grown s ((s.push values).takeValue s.stack.length) := by
  have hlast : (s.push values).stack.getLast? = some (values.getLast hne) := by
    rw [State.push, List.getLast?_append_of_ne_nil _ hne, List.getLast?_eq_some_getLast hne]
  rw [State.takeValue, State.makeValueFromLuaStack, hlast]
  dsimp only
  by_cases hkeep : ((s.push values).keepMode = .onStack &&
      isReferenceType (values.getLast hne).type) = true
  · rw [if_pos hkeep]
    refine ⟨rfl, rfl, List.prefix_append .., .inr ⟨values.getLast hne, rfl, hlast, ?_⟩⟩
    have hpos := List.length_pos_of_ne_nil hne
    simp only [State.push, List.length_append, if_true]
    omega
  · rw [if_neg hkeep]
    dsimp only
    rw [if_neg Bool.false_ne_true, settop_push]
    exact refl s

theorem executeImpl (s : State) (call : Option (List LuaValue)) : Grown s (s.executeImpl call) := by
  unfold State.executeImpl
  split
  · exact refl s
  · dsimp only
    split
    · exact refl s
    · exact takeValue (List.cons_ne_nil _ _)
    · rw [settop_push]
      exact refl s

theorem pushArgs (s : State) (args : List Pushed) :
    ∃ values, (s.pushArgs args).1 = s.push values := by
  induction args generalizing s with
  | nil => exact ⟨[], by rw [State.pushArgs, State.push, List.append_nil]⟩
  | cons arg args ih =>
      cases arg with
      | value value =>
          obtain ⟨values, hvalues⟩ := ih (s.push [value])
          refine ⟨value :: values, ?_⟩
          rw [State.pushArgs, hvalues, State.push, State.push, State.push, List.append_assoc]
          rfl
      | failed left => exact ⟨left, rfl⟩

theorem push_push (s : State) (values values' : List LuaValue) :
    (s.push values).push values' = s.push (values ++ values') := by
  rw [State.push, State.push, State.push, List.append_assoc]

theorem invoke (s : State) (self : LuaValue) (args : List Pushed)
    (call : Option (List LuaValue)) : Grown s (s.invoke self args call) := by
  obtain ⟨values, hvalues⟩ := pushArgs (s.push [self]) args
  rw [push_push] at hvalues
  rw [State.invoke]
  dsimp only
  rw [hvalues]
  split
  · split
    · rw [settop_push]
      exact refl s
    · next results =>
      rw [settop_push]
      split
      · exact push s results
      · next hlength =>
        refine takeValue ?_
        rintro rfl
        exact hlength (by rw [State.push, List.append_nil])
  · exact push s _

theorem setField (s : State) (self key field : LuaValue) (ok : Bool) (left : List LuaValue) :
    Grown s (s.setField self key field ok left) := by
  rw [State.setField]
  split
  · exact push_left (push _ _)
  · exact push_left (push _ _)
  · split
    · exact push s [self]
    · exact push_left (push _ _)

end Grown

/-! ### What is kept is where it was -/

/-- The scope that gives the place back has not closed. -/
def State.Live (s : State) (kept : Kept) : Prop :=
  ∀ id ∈ kept.within, ∃ scope ∈ s.scopes, scope.id = id

structure Placed (s : State) : Prop where
  /-- No scope that opens later has the id of one that is open or has closed. -/
  fresh : ∀ scope ∈ s.scopes, scope.id < s.nextScope
  within : ∀ kept ∈ s.kept, ∀ id ∈ kept.within, id < s.nextScope
  inner : s.scopes.Pairwise fun inner outer => outer.id < inner.id ∧ outer.top ≤ inner.top
  top : ∀ scope ∈ s.scopes, scope.top ≤ s.stack.length
  place : ∀ kept ∈ s.kept, s.Live kept → 0 < kept.key ∧ s.stack[kept.key - 1]? = some kept.value
  /-- What closes before the scope that a value is kept within leaves its place on the stack. -/
  under : ∀ kept ∈ s.kept, s.Live kept → ∀ scope ∈ s.scopes, scope.keepMode = .asReference →
    kept.key ≤ scope.top ∨ ∃ id ∈ kept.within, scope.id ≤ id

namespace Placed

variable {s s' : State}

theorem initial : Placed {} where
  fresh := by simp
  within := by simp
  inner := List.Pairwise.nil
  top := by simp
  place := by simp
  under := by simp

theorem key_le {kept : Kept} (hs : Placed s) (hkept : kept ∈ s.kept) (hlive : s.Live kept) :
    kept.key ≤ s.stack.length := by
  have hplace := (hs.place kept hkept hlive).2
  have hlt := (List.getElem?_eq_some_iff.1 hplace).1
  omega

theorem openScope (hs : Placed s) (keepMode : ValueKeepMode) : Placed (s.openScope keepMode) := by
  have hlive : ∀ kept ∈ s.kept, (s.openScope keepMode).Live kept → s.Live kept := by
    intro kept hkept hlive id hid
    obtain ⟨scope, hscope, heq⟩ := hlive id hid
    obtain rfl | hscope := List.mem_cons.1 hscope
    · exact absurd heq (Nat.ne_of_gt (hs.within kept hkept id hid))
    · exact ⟨scope, hscope, heq⟩
  refine ⟨?_, ?_, ?_, ?_, ?_, ?_⟩
  · intro scope hscope
    obtain rfl | hscope := List.mem_cons.1 hscope
    · exact Nat.lt_succ_self _
    · exact Nat.lt_succ_of_lt (hs.fresh scope hscope)
  · exact fun kept hkept id hid => Nat.lt_succ_of_lt (hs.within kept hkept id hid)
  · exact List.pairwise_cons.2
      ⟨fun outer houter => ⟨hs.fresh outer houter, hs.top outer houter⟩, hs.inner⟩
  · intro scope hscope
    obtain rfl | hscope := List.mem_cons.1 hscope
    · exact Nat.le_refl _
    · exact hs.top scope hscope
  · exact fun kept hkept h => hs.place kept hkept (hlive kept hkept h)
  · intro kept hkept h scope hscope hmode
    obtain rfl | hscope := List.mem_cons.1 hscope
    · exact .inl (hs.key_le hkept (hlive kept hkept h))
    · exact hs.under kept hkept (hlive kept hkept h) scope hscope hmode

/-- The stack that the end of a scope leaves. -/
theorem stack_closeScope {scope : Scope} {scopes : List Scope}
    (hscopes : s.scopes = scope :: scopes) (hs : Placed s) :
    s.closeScope = some { s with
      scopes := scopes
      stack := if scope.keepMode = .asReference then s.stack.take scope.top else s.stack } := by
  have htop := hs.top scope (by rw [hscopes]; exact List.mem_cons_self)
  rw [State.closeScope, hscopes]
  dsimp only
  by_cases hmode : scope.keepMode = .asReference
  · by_cases hlt : scope.top < s.stack.length
    · simp [hmode, hlt, State.settop]
    · have hall : s.stack.take scope.top = s.stack := List.take_of_length_le (Nat.le_of_not_lt hlt)
      simp [hmode, hlt, hall]
  · simp [hmode]

theorem closeScope (hs : Placed s) (h : s.closeScope = some s') : Placed s' := by
  cases hscopes : s.scopes with
  | nil =>
      rw [State.closeScope, hscopes] at h
      cases h
  | cons scope scopes =>
      rw [hs.stack_closeScope hscopes] at h
      obtain rfl := Option.some.inj h
      have hmem : scope ∈ s.scopes := by rw [hscopes]; exact List.mem_cons_self
      have hsub : ∀ outer ∈ scopes, outer ∈ s.scopes := by
        intro outer houter
        rw [hscopes]
        exact List.mem_cons_of_mem _ houter
      obtain ⟨hinner, hinners⟩ := List.pairwise_cons.1 (hscopes ▸ hs.inner)
      -- what is live was so, and is not within the scope that closes
      have hlive : ∀ kept, (∀ id ∈ kept.within, ∃ outer ∈ scopes, outer.id = id) → s.Live kept := by
        intro kept hlive id hid
        obtain ⟨outer, houter, heq⟩ := hlive id hid
        exact ⟨outer, hsub outer houter, heq⟩
      have hfresh : ∀ outer ∈ scopes, outer.id < s.nextScope :=
        fun outer houter => hs.fresh outer (hsub outer houter)
      refine ⟨hfresh, hs.within, hinners, ?_, ?_, ?_⟩
      · intro outer houter
        have htop := hs.top outer (hsub outer houter)
        dsimp only
        split
        · rw [List.length_take]
          exact Nat.le_min.2 ⟨(hinner outer houter).2, htop⟩
        · exact htop
      · intro kept hkept h
        obtain ⟨hpos, hplace⟩ := hs.place kept hkept (hlive kept h)
        refine ⟨hpos, ?_⟩
        dsimp only
        split
        · next hmode =>
          obtain hle | ⟨id, hid, hle⟩ := hs.under kept hkept (hlive kept h) scope hmem hmode
          · rw [List.getElem?_take_of_lt (by omega), hplace]
          · obtain ⟨outer, houter, rfl⟩ := h id hid
            exact absurd (hinner outer houter).1 (Nat.not_lt.2 hle)
        · exact hplace
      · exact fun kept hkept h outer houter =>
          hs.under kept hkept (hlive kept h) outer (hsub outer houter)

theorem mem_of_within {id : ℕ} (hid : s.within = some id) : ∃ scope ∈ s.scopes, scope.id = id := by
  obtain ⟨scope, hfind, rfl⟩ := Option.map_eq_some_iff.1 hid
  exact ⟨scope, List.mem_of_find?_eq_some hfind, rfl⟩

/-- No scope that gives the stack back is inside of the first one. -/
theorem le_within (hs : Placed s) {scope : Scope} (hscope : scope ∈ s.scopes)
    (hmode : scope.keepMode = .asReference) : ∃ id ∈ s.within, scope.id ≤ id := by
  cases hfind : s.scopes.find? fun scope => scope.keepMode = .asReference with
  | none => exact absurd hmode (by simpa using List.find?_eq_none.1 hfind scope hscope)
  | some first =>
      refine ⟨first.id, by rw [State.within, hfind]; rfl, ?_⟩
      obtain ⟨-, outside, inside, hscopes, houtside⟩ := List.find?_eq_some_iff_append.1 hfind
      rw [hscopes] at hscope
      obtain h | h := List.mem_append.1 hscope
      · exact absurd hmode (by simpa using houtside scope h)
      · obtain rfl | h := List.mem_cons.1 h
        · exact Nat.le_refl _
        · have hinner := (List.pairwise_append.1 (hscopes ▸ hs.inner)).2.1
          exact Nat.le_of_lt ((List.pairwise_cons.1 hinner).1 scope h).1

theorem grown (hs : Placed s) (h : Grown s s') : Placed s' := by
  have hlive : ∀ kept, s'.Live kept → s.Live kept := by
    intro kept hkept
    rwa [State.Live, h.scopes] at hkept
  have hstays : ∀ {i : ℕ} {value}, s.stack[i]? = some value → s'.stack[i]? = some value := by
    intro i value hvalue
    obtain ⟨values, hstack⟩ := h.stack
    rw [← hstack, List.getElem?_append_left (List.getElem?_eq_some_iff.1 hvalue).1, hvalue]
  have hold : ∀ kept ∈ s.kept, s'.Live kept →
      0 < kept.key ∧ s'.stack[kept.key - 1]? = some kept.value :=
    fun kept hkept hl => (hs.place kept hkept (hlive kept hl)).imp_right hstays
  refine ⟨?_, ?_, ?_, ?_, ?_, ?_⟩
  · rw [h.scopes, h.nextScope]
    exact hs.fresh
  · rw [h.nextScope]
    intro kept hkept id hid
    obtain heq | ⟨value, heq, -⟩ := h.kept
    · exact hs.within kept (heq ▸ hkept) id hid
    · rw [heq, List.mem_append, List.mem_singleton] at hkept
      obtain hkept | rfl := hkept
      · exact hs.within kept hkept id hid
      · obtain ⟨scope, hscope, rfl⟩ := mem_of_within hid
        exact hs.fresh scope hscope
  · rw [h.scopes]
    exact hs.inner
  · rw [h.scopes]
    exact fun scope hscope => Nat.le_trans (hs.top scope hscope) h.stack.length_le
  · intro kept hkept hl
    obtain heq | ⟨value, heq, hlast, hlength⟩ := h.kept
    · exact hold kept (heq ▸ hkept) hl
    · rw [heq, List.mem_append, List.mem_singleton] at hkept
      obtain hkept | rfl := hkept
      · exact hold kept hkept hl
      · exact ⟨Nat.zero_lt_of_lt hlength, by rw [← List.getLast?_eq_getElem?, hlast]⟩
  · intro kept hkept hl scope hscope hmode
    rw [h.scopes] at hscope
    obtain heq | ⟨value, heq, -⟩ := h.kept
    · exact hs.under kept (heq ▸ hkept) (hlive kept hl) scope hscope hmode
    · rw [heq, List.mem_append, List.mem_singleton] at hkept
      obtain hkept | rfl := hkept
      · exact hs.under kept hkept (hlive kept hl) scope hscope hmode
      · exact .inr (hs.le_within hscope hmode)

theorem release (hs : Placed s) (i : ℕ) : Placed { s with kept := s.kept.eraseIdx i } where
  fresh := hs.fresh
  within kept hkept := hs.within kept (List.mem_of_mem_eraseIdx hkept)
  inner := hs.inner
  top := hs.top
  place kept hkept := hs.place kept (List.mem_of_mem_eraseIdx hkept)
  under kept hkept := hs.under kept (List.mem_of_mem_eraseIdx hkept)

end Placed

/-- What a step does: it opens or closes a scope, lets go of a value, or only adds to the stack. -/
theorem step_cases {s s' : State} {action : Action} (h : step s action = some s') :
    (∃ keepMode, action = .openScope keepMode ∧ s' = s.openScope keepMode) ∨
    (action = .closeScope ∧ s.closeScope = some s') ∨
    (∃ i, action = .release i ∧ s' = { s with kept := s.kept.eraseIdx i }) ∨
    (action ≠ .closeScope ∧ Grown s s') := by
  cases action with
  | openScope keepMode => exact .inl ⟨keepMode, rfl, (Option.some.inj h).symm⟩
  | closeScope => exact .inr (.inl ⟨rfl, h⟩)
  | execute call =>
      obtain rfl := Option.some.inj h
      exact .inr (.inr (.inr ⟨nofun, Grown.executeImpl s call⟩))
  | invoke self args call =>
      obtain ⟨value, -, h⟩ := Option.bind_eq_some_iff.1 h
      obtain rfl := Option.some.inj h
      exact .inr (.inr (.inr ⟨nofun, Grown.invoke s value args call⟩))
  | getValue self child =>
      obtain ⟨-, -, h⟩ := Option.bind_eq_some_iff.1 h
      obtain rfl := Option.some.inj h
      exact .inr (.inr (.inr ⟨nofun, Grown.takeValue (List.cons_ne_nil _ _)⟩))
  | setValue self key field ok left =>
      obtain ⟨value, -, h⟩ := Option.bind_eq_some_iff.1 h
      obtain rfl := Option.some.inj h
      exact .inr (.inr (.inr ⟨nofun, Grown.setField s value key field ok left⟩))
  | release i =>
      obtain ⟨-, -, h⟩ := Option.bind_eq_some_iff.1 h
      exact .inr (.inr (.inl ⟨i, rfl, (Option.some.inj h).symm⟩))

theorem placed_step {s s' : State} {action : Action} (hs : Placed s)
    (h : step s action = some s') : Placed s' := by
  obtain ⟨keepMode, -, rfl⟩ | ⟨-, hclose⟩ | ⟨i, -, rfl⟩ | ⟨-, hgrown⟩ := step_cases h
  · exact hs.openScope keepMode
  · exact hs.closeScope hclose
  · exact hs.release i
  · exact hs.grown hgrown

theorem placed_run {s s' : State} {ok : State → Action → Prop} (hs : Placed s)
    (h : Steps step ok s s') : Placed s' :=
  h.invariant (fun hs _ h => placed_step hs h) hs

/-- In every run: a value that is kept on the stack is where it was, and is what `pushSelf` pushes,
until the scope closes that it was kept within; outside of such a scope it stays. -/
theorem kept_on_stack {s : State} (h : Steps step Free {} s) {i : ℕ} {kept : Kept}
    (hkept : s.kept[i]? = some kept) (hlive : s.Live kept) :
    s.stack[kept.key - 1]? = some kept.value ∧ s.self (.kept i) = some kept.value := by
  have hplace := ((placed_run Placed.initial h).place kept (List.mem_of_getElem? hkept) hlive).2
  refine ⟨hplace, ?_⟩
  rw [State.self, hkept]
  exact hplace

/-- A program returns a function, and the function a table. -/
def functionCalled : List Action :=
  [.openScope .onStack, .execute (some [⟨1, .function⟩]),
    .invoke (.kept 0) [] (some [⟨2, .table⟩])]

theorem kept_on_stack_function : ∃ s, exec step {} functionCalled = some s ∧
    s.stack[0]? = some ⟨1, .function⟩ ∧ s.self (.kept 0) = some ⟨1, .function⟩ := by
  obtain ⟨s, hs, hkept⟩ : ∃ s, exec step {} functionCalled = some s ∧
      s.kept[0]? = some ⟨1, ⟨1, .function⟩, none⟩ := ⟨_, rfl, rfl⟩
  exact ⟨s, hs, kept_on_stack (exec_steps (allowed_free _ _) hs) hkept
    fun _ hid => nomatch hid⟩

-- a value kept inside of a scope that gives the stack back is not there when that scope has closed
example : ((exec step {} [.openScope .asReference, .openScope .onStack,
    .execute (some [⟨1, .function⟩]), .closeScope, .closeScope]).bind fun s =>
      s.self (.kept 0)) = none := rfl

/-! ### What is on the stack when a scope closes -/

/-- The scope `id`, that took the top of `s₀`, has closed or has all of that below it. -/
structure Opened (s₀ : State) (id : ℕ) (keepMode : ValueKeepMode) (s : State) : Prop where
  placed : Placed s
  next : id < s.nextScope
  scope : ∀ scope ∈ s.scopes, scope.id = id → scope = ⟨id, keepMode, s₀.stack.length⟩ ∧
    s₀.stack <+: s.stack

namespace Opened

variable {s₀ s s' : State} {id : ℕ} {keepMode : ValueKeepMode}

theorem opened (hs : Placed s₀) (keepMode : ValueKeepMode) :
    Opened s₀ s₀.nextScope keepMode (s₀.openScope keepMode) where
  placed := hs.openScope keepMode
  next := Nat.lt_succ_self _
  scope := by
    intro scope hscope hid
    obtain rfl | hscope := List.mem_cons.1 hscope
    · exact ⟨rfl, List.prefix_rfl⟩
    · exact absurd hid (Nat.ne_of_lt (hs.fresh scope hscope))

theorem openScope (h : Opened s₀ id keepMode s) (mode : ValueKeepMode) :
    Opened s₀ id keepMode (s.openScope mode) where
  placed := h.placed.openScope mode
  next := Nat.lt_succ_of_lt h.next
  scope := by
    intro scope hscope hid
    obtain rfl | hscope := List.mem_cons.1 hscope
    · exact absurd hid (Nat.ne_of_gt h.next)
    · exact h.scope scope hscope hid

theorem closeScope (h : Opened s₀ id keepMode s) (hclose : s.closeScope = some s') :
    Opened s₀ id keepMode s' := by
  have hplaced := h.placed.closeScope hclose
  cases hscopes : s.scopes with
  | nil =>
      rw [State.closeScope, hscopes] at hclose
      cases hclose
  | cons inner scopes =>
      rw [h.placed.stack_closeScope hscopes] at hclose
      obtain rfl := Option.some.inj hclose
      refine ⟨hplaced, h.next, ?_⟩
      intro scope hscope hid
      have hmem : scope ∈ s.scopes := by rw [hscopes]; exact List.mem_cons_of_mem _ hscope
      obtain ⟨heq, hstack⟩ := h.scope scope hmem hid
      refine ⟨heq, ?_⟩
      dsimp only
      split
      · -- the scope that closes is inside, and has its top above
        have htop := ((List.pairwise_cons.1 (hscopes ▸ h.placed.inner)).1 scope hscope).2
        rw [heq] at htop
        exact (List.prefix_take_iff).2 ⟨hstack, htop⟩
      · exact hstack

theorem step (h : Opened s₀ id keepMode s) {action : Action}
    (hstep : RealmStack.step s action = some s') : Opened s₀ id keepMode s' := by
  obtain ⟨mode, -, rfl⟩ | ⟨-, hclose⟩ | ⟨i, -, rfl⟩ | ⟨-, hgrown⟩ := step_cases hstep
  · exact h.openScope mode
  · exact h.closeScope hclose
  · exact ⟨h.placed.release i, h.next, h.scope⟩
  · refine ⟨h.placed.grown hgrown, hgrown.nextScope ▸ h.next, ?_⟩
    intro scope hscope hid
    rw [hgrown.scopes] at hscope
    exact (h.scope scope hscope hid).imp_right fun hstack => hstack.trans hgrown.stack

end Opened

/-- In every run: whatever is done while a scope is open, one that keeps references ends with the
stack that it began with; one that keeps values on the stack ends with all that was left there. -/
theorem scope_restores {s₀ s s' : State} {keepMode : ValueKeepMode} {scope : Scope}
    {scopes : List Scope} (h₀ : Steps step Free {} s₀)
    (h : Steps step Free (s₀.openScope keepMode) s) (hscopes : s.scopes = scope :: scopes)
    (hid : scope.id = s₀.nextScope) (hclose : step s .closeScope = some s') :
    s'.stack = if keepMode = .asReference then s₀.stack else s.stack := by
  have hopened : Opened s₀ s₀.nextScope keepMode s :=
    h.invariant (fun hs _ hstep => hs.step hstep)
      (Opened.opened (placed_run Placed.initial h₀) keepMode)
  obtain ⟨rfl, hstack⟩ := hopened.scope scope (by rw [hscopes]; exact List.mem_cons_self) hid
  rw [step, hopened.placed.stack_closeScope hscopes] at hclose
  obtain rfl := Option.some.inj hclose
  dsimp only
  split
  · exact (List.prefix_iff_eq_take.1 hstack).symm
  · rfl

/-- A field is set while the scope is open. -/
theorem scope_restores_setValue :
    ∃ s s', exec step (({} : State).openScope .asReference)
        [.setValue (.global ⟨1, .table⟩) ⟨2, .string⟩ ⟨3, .nil⟩ true []] = some s ∧
      step s .closeScope = some s' ∧ s.stack = [⟨1, .table⟩] ∧ s'.stack = [] := by
  obtain ⟨s, s', hs, hscopes, hclose, hstack⟩ :
      ∃ s s', exec step (({} : State).openScope .asReference)
          [.setValue (.global ⟨1, .table⟩) ⟨2, .string⟩ ⟨3, .nil⟩ true []] = some s ∧
        s.scopes = [⟨0, .asReference, 0⟩] ∧ step s .closeScope = some s' ∧
        s.stack = [⟨1, .table⟩] := ⟨_, _, rfl, rfl, rfl, rfl⟩
  refine ⟨s, s', hs, hclose, hstack, ?_⟩
  have hrun : Steps step Free (({} : State).openScope .asReference) s :=
    exec_steps (allowed_free _ _) hs
  exact scope_restores (.refl _) hrun hscopes rfl hclose

/-! ### What is left on the stack -/

def Action.isSetValue : Action → Bool
  | .setValue .. => true
  | _            => false

theorem lt_setField (s : State) (self key field : LuaValue) (ok : Bool) (left : List LuaValue) :
    s.stack.length < (s.setField self key field ok left).stack.length := by
  obtain ⟨values, hvalues⟩ : ∃ values, s.setField self key field ok left =
      s.push (self :: values) := by
    rw [State.setField]
    split
    · exact ⟨field :: left, Grown.push_push ..⟩
    · exact ⟨[field], Grown.push_push ..⟩
    · split
      · exact ⟨[], rfl⟩
      · exact ⟨key :: left, Grown.push_push ..⟩
  rw [hvalues, State.push, List.length_append, List.length_cons]
  omega

/-- No scope closes that gives the stack back. -/
def Keeps (s : State) (action : Action) : Prop :=
  action = .closeScope → ∀ scope ∈ s.scopes.head?, scope.keepMode = .onStack

theorem prefix_step {s s' : State} {action : Action} (hs : Placed s) (hkeeps : Keeps s action)
    (h : step s action = some s') : s.stack <+: s'.stack := by
  obtain ⟨keepMode, -, rfl⟩ | ⟨rfl, hclose⟩ | ⟨i, -, rfl⟩ | ⟨-, hgrown⟩ := step_cases h
  · exact List.prefix_rfl
  · cases hscopes : s.scopes with
    | nil =>
        rw [State.closeScope, hscopes] at hclose
        cases hclose
    | cons scope scopes =>
        have hmode : scope.keepMode = .onStack := hkeeps rfl scope (by rw [hscopes]; rfl)
        rw [hs.stack_closeScope hscopes] at hclose
        obtain rfl := Option.some.inj hclose
        rw [hmode]
        exact List.prefix_rfl
  · exact List.prefix_rfl
  · exact hgrown.stack

theorem length_step {s s' : State} {action : Action} (hs : Placed s) (hkeeps : Keeps s action)
    (h : step s action = some s') :
    s.stack.length + [action].countP Action.isSetValue ≤ s'.stack.length := by
  cases action with
  | setValue self key field ok left =>
      obtain ⟨value, -, h⟩ := Option.bind_eq_some_iff.1 h
      obtain rfl := Option.some.inj h
      exact lt_setField s value key field ok left
  | _ => exact (prefix_step hs hkeeps h).length_le

/-- Until a scope closes that keeps references, nothing is taken from below, and each field that is
set has left a place more on the stack, whether it was set or not. -/
theorem stack_grows {s₀ s : State} (h₀ : Steps step Free {} s₀) {actions : List Action}
    (hkeeps : Allowed step Keeps s₀ actions) (h : exec step s₀ actions = some s) :
    s₀.stack <+: s.stack ∧
    s₀.stack.length + actions.countP Action.isSetValue ≤ s.stack.length := by
  have hs := placed_run Placed.initial h₀
  clear h₀
  induction actions generalizing s₀ with
  | nil =>
      obtain rfl := Option.some.inj h
      exact ⟨List.prefix_rfl, Nat.le_refl _⟩
  | cons action actions ih =>
      obtain ⟨s₁, hstep, hexec⟩ := Option.bind_eq_some_iff.1 h
      obtain ⟨hstays, hlength⟩ := ih (hkeeps.2 s₁ hstep) hexec (placed_step hs hstep)
      have hone := length_step hs hkeeps.1 hstep
      refine ⟨(prefix_step hs hkeeps.1 hstep).trans hstays, ?_⟩
      have hcount : (action :: actions).countP Action.isSetValue =
          [action].countP Action.isSetValue + actions.countP Action.isSetValue := by
        rw [← List.countP_append, List.singleton_append]
      omega

/-- A field that is set twice. -/
def setTwice : List Action :=
  [.setValue (.global ⟨1, .table⟩) ⟨2, .string⟩ ⟨3, .nil⟩ true [],
    .setValue (.global ⟨1, .table⟩) ⟨2, .string⟩ ⟨3, .nil⟩ true []]

theorem stack_grows_twice : ∃ s, exec step {} setTwice = some s ∧
    [] <+: s.stack ∧ 0 + 2 ≤ s.stack.length := by
  obtain ⟨s, hs⟩ : ∃ s, exec step {} setTwice = some s := ⟨_, rfl⟩
  have hkeeps : Allowed step Keeps {} setTwice :=
    ⟨nofun, fun _ _ => ⟨nofun, fun _ _ => trivial⟩⟩
  exact ⟨s, hs, stack_grows (.refl _) hkeeps hs⟩

end MyEngine.Lua.RealmStack
