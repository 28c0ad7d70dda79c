import Mathlib.Data.List.Nodup
import MyEngine.Network.HttpParser
import MyEngine.Support.Assoc

/-!
# Lua — NativeClasses

The classes that native objects have in Lua, of `native_object.cpp`: a metatable for each class
name, in the registry of the Lua state.

* `initializeClass`: the metatable is made for the first descriptor of its name.
* `pushObject`, `collect`, `close`: an object comes and goes; a descriptor is referenced.
* `findMethod`: what `class_descriptor.h` finds under a name.
* `Registered`: the metatables are those of the first descriptors of their names.
* `dispatch_iff`: the runs in which a script calls the methods that the descriptors have.
* `balanced`: the references to descriptors that Lua has, and gives up.
-/

namespace MyEngine.Lua.NativeClasses

open Network (icaseEqual)
open Support

abbrev Text := List Char

/-! ### Descriptors -/

inductive MethodCategory where
  | ofInstance
  | ofClass
  deriving DecidableEq, Repr

/-- `IMethodInfo`, by its address. -/
structure MethodInfo where
  id : ℕ
  name : Text
  category : MethodCategory := .ofInstance
  deriving DecidableEq, Repr

/-- `IClassDescriptor`, by its address. -/
structure ClassDescriptor where
  id : ℕ
  className : Text
  interfaces : List (List MethodInfo) := []
  ctor : Option MethodInfo := none
  deriving DecidableEq, Repr

namespace ClassDescriptor

def methods (d : ClassDescriptor) : List MethodInfo := d.interfaces.flatten

/-- `IClassDescriptor::findMethod`: the two loops. -/
def findMethod (d : ClassDescriptor) (methodName : Text) : Option MethodInfo :=
  d.interfaces.findSome? fun api => api.find? fun method => icaseEqual methodName method.name

end ClassDescriptor

/-! ### Metatables -/

inductive Closure where
  | instanceMethod (method : MethodInfo)
  | classMethod
  | classCtor (descriptor : ClassDescriptor)
  deriving DecidableEq, Repr

/-- The closure that is pushed for a method. -/
def closureOf (method : MethodInfo) : Closure :=
  match method.category with
  | .ofInstance => .instanceMethod method
  | .ofClass    => .classMethod

/-- The fields `__index`, `New` and `myClassDescriptor`. -/
structure Metatable where
  index : List (Text × Closure) := []
  new : Option Closure := none
  classDescriptor : ClassDescriptor
  deriving DecidableEq, Repr

/-- The loops over the interfaces and their methods; a field is set again by a later one. -/
def indexTable (d : ClassDescriptor) : List (Text × Closure) :=
  d.interfaces.foldl (fun index api =>
    api.foldl (fun index method => put method.name (closureOf method) index) index) []

def classMethodsCount (d : ClassDescriptor) : ℕ :=
  (d.methods.filter fun method => method.category = .ofClass).length + d.ctor.toList.length

def metatableOf (d : ClassDescriptor) : Metatable where
  index := indexTable d
  new := d.ctor.map fun _ => .classCtor d
  classDescriptor := d

/-! ### The Lua state -/

/-- The metatables in the registry and the globals that are metatables, by name; user data, with
the name of its metatable; `references` are the descriptors that are referenced by somebody, once
for each reference. -/
structure State (O : Type) where
  registry : List (Text × Metatable) := []
  globals : List (Text × Text) := []
  userdata : List (O × Text) := []
  references : List ℕ := []
  deriving DecidableEq, Repr

variable {O : Type}

namespace State

variable (s : State O)

/-- `luaL_newmetatable` gives 0 for a name that has one.  The reference that comes with the
argument is given up to the metatable, or goes with the argument. -/
def initializeClass (d : ClassDescriptor) : State O :=
  if (s.registry.lookup d.className).isSome then { s with references := s.references.erase d.id }
  else { s with
    registry := put d.className (metatableOf d) s.registry
    globals := if classMethodsCount d > 0 then put d.className d.className s.globals
      else s.globals }

def pushObject (object : O) (d : ClassDescriptor) : State O :=
  { s with userdata := s.userdata ++ [(object, d.className)] }.initializeClass d

/-- `__gc` of a user data. -/
def collect (i : ℕ) : State O := { s with userdata := s.userdata.eraseIdx i }

/-- `lua_close`: each metatable releases its descriptor. -/
def close : State O where
  references := s.registry.foldl (fun references entry =>
    references.erase entry.2.classDescriptor.id) s.references

/-- What `object:name(..)` calls, by the name of the metatable. -/
def method (className name : Text) : Option Closure :=
  (s.registry.lookup className).bind fun metatable => metatable.index.lookup name

end State

inductive Action (O : Type) where
  | initializeClass (d : ClassDescriptor)
  | pushObject (object : O) (d : ClassDescriptor)
  | collect (i : ℕ)

/-- A call comes with a reference of its own. -/
def step (s : State O) : Action O → State O
  | .initializeClass d   => { s with references := d.id :: s.references }.initializeClass d
  | .pushObject object d => { s with references := d.id :: s.references }.pushObject object d
  | .collect i           => s.collect i

def run (s : State O) (actions : List (Action O)) : State O := actions.foldl step s

/-- The descriptors that are passed, in their order. -/
def descriptors (actions : List (Action O)) : List ClassDescriptor :=
  actions.filterMap fun action => match action with
    | .initializeClass d | .pushObject _ d => some d
    | .collect _                           => none

/-- The first descriptor of a name. -/
def firstOf (ds : List ClassDescriptor) (className : Text) : Option ClassDescriptor :=
  ds.find? fun d => d.className = className

/-! ### What a table has under a name -/

/-- A field holds what was set last. -/
theorem lookup_foldl_put (methods : List MethodInfo) (index : List (Text × Closure)) (name : Text) :
    (methods.foldl (fun index method => put method.name (closureOf method) index) index).lookup
        name =
      ((methods.reverse.find? fun method => method.name = name).map closureOf).or
        (index.lookup name) := by
  induction methods generalizing index with
  | nil => simp
  | cons method methods ih =>
      rw [List.foldl_cons, ih, List.reverse_cons, List.find?_append]
      by_cases hname : method.name = name
      · subst hname
        cases methods.reverse.find? fun m => m.name = method.name <;> simp
      · have hne : name ≠ method.name := fun h => hname h.symm
        rw [lookup_put_of_ne hne]
        cases methods.reverse.find? fun m => m.name = name <;> simp [hname]

theorem lookup_indexTable (d : ClassDescriptor) (name : Text) :
    (indexTable d).lookup name =
      (d.methods.reverse.find? fun method => method.name = name).map closureOf := by
  have hflat : indexTable d =
      d.methods.foldl (fun index method => put method.name (closureOf method) index) [] := by
    rw [indexTable, ClassDescriptor.methods, List.foldl_flatten]
  rw [hflat, lookup_foldl_put]
  simp

theorem findMethod_eq (d : ClassDescriptor) (name : Text) :
    d.findMethod name = d.methods.find? fun method => icaseEqual name method.name := by
  rw [ClassDescriptor.findMethod, ClassDescriptor.methods, List.find?_flatten]

/-! ### The metatables of a run -/

/-- The metatables are those of the first descriptors. -/
def Registered (s : State O) (ds : List ClassDescriptor) : Prop :=
  ∀ name, s.registry.lookup name = (firstOf ds name).map metatableOf

theorem firstOf_append (ds : List ClassDescriptor) (d : ClassDescriptor) (name : Text) :
    firstOf (ds ++ [d]) name =
      (firstOf ds name).or (if d.className = name then some d else none) := by
  simp only [firstOf, List.find?_append, List.find?_singleton, decide_eq_true_eq]

namespace Registered

variable {s : State O} {ds : List ClassDescriptor} {d : ClassDescriptor}

theorem congr {s' : State O} (h : Registered s ds) (heq : s'.registry = s.registry) :
    Registered s' ds := fun name => (congrArg _ heq).trans (h name)

theorem initializeClass (h : Registered s ds) (d : ClassDescriptor) :
    Registered (s.initializeClass d) (ds ++ [d]) := by
  intro name
  rw [firstOf_append, State.initializeClass]
  by_cases hname : d.className = name
  · subst hname
    cases hfirst : firstOf ds d.className with
    | some d₀ =>
        have hlookup := h d.className
        rw [hfirst, Option.map_some] at hlookup
        rw [hlookup, Option.isSome_some, if_pos rfl, Option.some_or]
        exact hlookup
    | none =>
        have hlookup := h d.className
        rw [hfirst, Option.map_none] at hlookup
        rw [hlookup, Option.isSome_none, if_neg Bool.false_ne_true, Option.none_or, if_pos rfl]
        exact lookup_put_self ..
  · rw [if_neg hname, Option.or_none]
    split
    · exact h name
    · exact (lookup_put_of_ne (fun heq => hname heq.symm) ..).trans (h name)

theorem step (h : Registered s ds) (action : Action O) :
    Registered (step s action) (ds ++ descriptors [action]) := by
  cases action with
  | initializeClass d =>
      have hcall : Registered { s with references := d.id :: s.references } ds := h.congr rfl
      exact hcall.initializeClass d
  | pushObject object d =>
      exact Registered.initializeClass (s := { s with
        references := d.id :: s.references, userdata := s.userdata ++ [(object, d.className)] })
        (h.congr rfl) d
  | collect i =>
      rw [descriptors, List.filterMap_cons_none rfl, List.filterMap_nil, List.append_nil]
      exact h.congr rfl

end Registered

theorem registered_run {s : State O} {ds : List ClassDescriptor} (h : Registered s ds)
    (actions : List (Action O)) : Registered (run s actions) (ds ++ descriptors actions) := by
  induction actions generalizing s ds with
  | nil =>
      rw [descriptors, List.filterMap_nil, List.append_nil]
      exact h
  | cons action actions ih =>
      have hrest := ih (h.step action)
      have hcons : descriptors (action :: actions) =
          descriptors [action] ++ descriptors actions := List.filterMap_append (l := [action])
      rw [hcons, ← List.append_assoc]
      exact hrest

/-- In a run from a new Lua state a method is that of the first descriptor of the class name. -/
theorem method_run (outside : List ℕ) (actions : List (Action O)) (className name : Text) :
    (run { references := outside } actions).method className name =
      (firstOf (descriptors actions) className).bind fun d =>
        (d.methods.reverse.find? fun method => method.name = name).map closureOf := by
  have hnew : Registered ({ references := outside } : State O) [] := fun _ => rfl
  have hrun := registered_run hnew actions className
  rw [List.nil_append] at hrun
  rw [State.method, hrun]
  cases firstOf (descriptors actions) className with
  | none => rfl
  | some d => exact lookup_indexTable d name

/-! ### What a script calls -/

theorem firstOf_some {ds : List ClassDescriptor} {d : ClassDescriptor} (h : d ∈ ds) :
    ∃ d₀ ∈ ds, firstOf ds d.className = some d₀ := by
  have hsome : (firstOf ds d.className).isSome :=
    List.find?_isSome.2 ⟨d, h, decide_eq_true rfl⟩
  obtain ⟨d₀, hd₀⟩ := Option.isSome_iff_exists.1 hsome
  exact ⟨d₀, List.mem_of_find?_eq_some hd₀, hd₀⟩

/-- No two methods of the descriptor have names that differ in case at most. -/
def Distinct (d : ClassDescriptor) : Prop :=
  ∀ m ∈ d.methods, ∀ m' ∈ d.methods, icaseEqual m.name m'.name → m = m'

theorem distinct_iff (d : ClassDescriptor) :
    Distinct d ↔ ∀ m ∈ d.methods, d.findMethod m.name = some m := by
  simp only [findMethod_eq]
  constructor
  · intro h m hm
    have hsome : (d.methods.find? fun method => icaseEqual m.name method.name).isSome :=
      List.find?_isSome.2 ⟨m, hm, decide_eq_true (Network.icaseEqual_refl m.name)⟩
    obtain ⟨m', hm'⟩ := Option.isSome_iff_exists.1 hsome
    have hequal : icaseEqual m.name m'.name := by simpa using List.find?_some hm'
    rw [hm', h m hm m' (List.mem_of_find?_eq_some hm') hequal]
  · intro h m hm m' hm' hequal
    have hfun : (fun method : MethodInfo => decide (icaseEqual m.name method.name)) =
        fun method => decide (icaseEqual m'.name method.name) := by
      funext method
      exact decide_eq_decide.2 ⟨fun heq => (Network.icaseEqual_symm hequal).trans heq,
        fun heq => hequal.trans heq⟩
    have hfind := h m hm
    rw [hfun, h m' hm'] at hfind
    exact (Option.some.inj hfind).symm

/-- **Dispatch.**  Whatever descriptors a run passes, in whatever order: a script that calls a
method of a descriptor by its name gets the method, and `findMethod` finds it, just when no
descriptor has names that differ in case at most, and the first of each class name has the methods
of the others. -/
theorem dispatch_iff (outside : List ℕ) (actions : List (Action O)) :
    (∀ d ∈ descriptors actions, ∀ m ∈ d.methods,
      (run { references := outside } actions).method d.className m.name = some (closureOf m) ∧
      d.findMethod m.name = some m) ↔
    ∀ d ∈ descriptors actions, Distinct d ∧
      ∀ d₀, firstOf (descriptors actions) d.className = some d₀ → ∀ m ∈ d.methods,
        ∃ m₀ ∈ d₀.methods, m₀.name = m.name ∧ closureOf m₀ = closureOf m := by
  simp only [method_run]
  constructor
  · intro h d hd
    refine ⟨(distinct_iff d).2 fun m hm => (h d hd m hm).2, fun d₀ hd₀ m hm => ?_⟩
    have hmethod := (h d hd m hm).1
    rw [hd₀, Option.bind_some] at hmethod
    obtain ⟨m₀, hm₀, hclosure⟩ := Option.map_eq_some_iff.1 hmethod
    have hname : m₀.name = m.name := by simpa using List.find?_some hm₀
    exact ⟨m₀, List.mem_reverse.1 (List.mem_of_find?_eq_some hm₀), hname, hclosure⟩
  · intro h d hd m hm
    refine ⟨?_, (distinct_iff d).1 (h d hd).1 m hm⟩
    obtain ⟨d₀, hmem, hd₀⟩ := firstOf_some hd
    obtain ⟨m₀, hm₀, hname, hclosure⟩ := (h d hd).2 d₀ hd₀ m hm
    have hsome : (d₀.methods.reverse.find? fun method => method.name = m.name).isSome :=
      List.find?_isSome.2 ⟨m₀, List.mem_reverse.2 hm₀, decide_eq_true hname⟩
    obtain ⟨m₁, hm₁⟩ := Option.isSome_iff_exists.1 hsome
    -- the last of the name is the only one
    have hname₁ : m₁.name = m₀.name := by
      rw [hname]
      simpa using List.find?_some hm₁
    have hequal : m₁ = m₀ := by
      refine (h d₀ hmem).1 m₁ (List.mem_reverse.1 (List.mem_of_find?_eq_some hm₁)) m₀ hm₀ ?_
      rw [hname₁]
      exact Network.icaseEqual_refl m₀.name
    rw [hd₀, Option.bind_some, hm₁, Option.map_some, hequal, hclosure]

/-! ### References -/

/-- The descriptors that the metatables are of. -/
def State.registered (s : State O) : List ℕ :=
  s.registry.map fun entry => entry.2.classDescriptor.id

/-- A reference is one from outside or one of a metatable, and a name has one metatable. -/
def Balanced (outside : List ℕ) (s : State O) : Prop :=
  s.references.Perm (s.registered ++ outside) ∧ (s.registry.map Prod.fst).Nodup

namespace Balanced

variable {outside : List ℕ} {s : State O}

theorem initializeClass (h : Balanced outside s) (d : ClassDescriptor) :
    Balanced outside ({ s with references := d.id :: s.references }.initializeClass d) := by
  obtain ⟨hrefs, hnodup⟩ := h
  rw [State.initializeClass]
  split
  · refine ⟨?_, hnodup⟩
    rw [List.erase_cons_head]
    exact hrefs
  · next hnew =>
    have hnone : s.registry.lookup d.className = none := Option.not_isSome_iff_eq_none.1 hnew
    refine ⟨?_, ?_⟩
    · have hregistered : (put d.className (metatableOf d) s.registry).map
          (fun entry => entry.2.classDescriptor.id) = s.registered ++ [d.id] := by
        rw [put_of_lookup_none hnone, List.map_append]
        rfl
      simp only [State.registered, hregistered, List.append_assoc]
      exact (hrefs.cons d.id).trans List.perm_middle.symm
    · rw [put_of_lookup_none hnone, List.map_append]
      refine hnodup.append (List.nodup_singleton _) (List.disjoint_singleton.2 fun hmem => ?_)
      obtain ⟨⟨name, m⟩, hentry, hname⟩ := List.mem_map.1 hmem
      obtain rfl : name = d.className := hname
      obtain ⟨first, hfirst⟩ := exists_lookup hentry
      rw [hnone] at hfirst
      cases hfirst

theorem step (h : Balanced outside s) (action : Action O) : Balanced outside (step s action) := by
  cases action with
  | initializeClass d => exact h.initializeClass d
  | pushObject object d =>
      exact Balanced.initializeClass
        (s := { s with userdata := s.userdata ++ [(object, d.className)] }) h d
  | collect i => exact h

theorem run (h : Balanced outside s) (actions : List (Action O)) :
    Balanced outside (run s actions) := by
  induction actions generalizing s with
  | nil => exact h
  | cons action actions ih => exact ih (h.step action)

end Balanced

theorem foldl_erase_perm (registry : List (Text × Metatable)) {references outside : List ℕ}
    (h : references.Perm ((registry.map fun entry => entry.2.classDescriptor.id) ++ outside)) :
    (registry.foldl (fun references entry => references.erase entry.2.classDescriptor.id)
      references).Perm outside := by
  induction registry generalizing references with
  | nil => exact h
  | cons entry registry ih =>
      refine ih ?_
      have herase := h.erase entry.2.classDescriptor.id
      rwa [List.map_cons, List.cons_append, List.erase_cons_head] at herase

/-- **References.**  In every run Lua holds one reference to the first descriptor of each class name
and none besides, and with the Lua state it gives up these. -/
theorem balanced (outside : List ℕ) (actions : List (Action O)) :
    ((run { references := outside } actions).references.Perm
      ((run ({ references := outside } : State O) actions).registered ++ outside)) ∧
    ((run ({ references := outside } : State O) actions).registry.map Prod.fst).Nodup ∧
    (∀ name, ((run ({ references := outside } : State O) actions).registry.lookup name).map
      (·.classDescriptor) = firstOf (descriptors actions) name) ∧
    (run ({ references := outside } : State O) actions).close.references.Perm outside := by
  have hnew : Balanced outside ({ references := outside } : State O) :=
    ⟨List.Perm.refl _, List.nodup_nil⟩
  obtain ⟨hrefs, hnodup⟩ := hnew.run actions
  refine ⟨hrefs, hnodup, fun name => ?_, foldl_erase_perm _ hrefs⟩
  have hnone : Registered ({ references := outside } : State O) [] := fun _ => rfl
  have hrun := registered_run hnone actions name
  rw [List.nil_append] at hrun
  rw [hrun]
  cases firstOf (descriptors actions) name <;> rfl

end MyEngine.Lua.NativeClasses
