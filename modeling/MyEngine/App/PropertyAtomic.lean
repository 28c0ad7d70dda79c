import MyEngine.App.PropertyWalk

/-!
# App — PropertyAtomic

When a `PropertyContainer::set` that fails has changed the tree.

* `misses`: the walk to the parent comes to a dictionary without the next name.
* `getDictionaryAtPath_misses`: then it succeeds, in a changed tree.
* `set_atomic_iff`: the failing sets that leave the tree as it is.
-/

namespace MyEngine.App

open Serialization Support

/-- The path leads through dictionaries to one that has no member of the next name. -/
def misses : List Text → Members → Bool
  | [], _ => false
  | name :: path, members =>
      match members.lookup name with
      | none                 => true
      | some (.object child) => misses path child
      | some _               => false

section

variable {transformString : Text → Running (Option Text)} {valuePath : Text}
  {use : Members → Members × Except Text Unit}

/-- In a new dictionary the walk always comes to its end. -/
theorem getDictionaryAtPath_new {path : List Text} (hpath : ∀ name ∈ path, name ≠ []) :
    ∃ at' members', getDictionaryAtPath transformString true valuePath use path [] =
      some (members', (use at').2) := by
  induction path with
  | nil => exact ⟨[], (use []).1, rfl⟩
  | cons name path ih =>
      obtain ⟨hname, hpath⟩ := List.forall_mem_cons.1 hpath
      obtain ⟨at', child, hwalk⟩ := ih hpath
      refine ⟨at', put name (.object child) (put name (.object []) []), ?_⟩
      rw [getDictionaryAtPath_create hname rfl, hwalk]
      rfl

/-- A walk that creates comes to its end, and the tree is another one. -/
theorem getDictionaryAtPath_misses {path : List Text} {members : Members}
    (hpath : ∀ name ∈ path, name ≠ []) (h : misses path members = true) :
    ∃ at' members', getDictionaryAtPath transformString true valuePath use path members =
      some (members', (use at').2) ∧ members' ≠ members := by
  induction path generalizing members with
  | nil => cases h
  | cons name path ih =>
      obtain ⟨hname, hpath⟩ := List.forall_mem_cons.1 hpath
      rw [misses] at h
      split at h
      · next hlookup =>
        -- here the name is created, and the rest of the path in it
        obtain ⟨at', child, hwalk⟩ := @getDictionaryAtPath_new transformString valuePath use _ hpath
        refine ⟨at', put name (.object child) (put name (.object []) members), ?_, fun heq => ?_⟩
        · rw [getDictionaryAtPath_create hname hlookup, hwalk]
          rfl
        · rw [← heq, lookup_put_self] at hlookup
          cases hlookup
      · next child hlookup =>
        obtain ⟨at', child', hwalk, hne⟩ := ih hpath h
        refine ⟨at', put name (.object child') members, ?_, fun heq => ?_⟩
        · rw [getDictionaryAtPath_enter hname hlookup, hwalk]
          rfl
        · rw [← heq, lookup_put_self] at hlookup
          exact hne (Json.object.inj (Option.some.inj hlookup))
      · cases h

/-- A walk that creates nothing leaves the tree as it is, if its end does. -/
theorem getDictionaryAtPath_unchanged {path : List Text} {members members' : Members} {e : Text}
    (huse : ∀ members members' e, use members = (members', .error e) → members' = members)
    (hpath : ∀ name ∈ path, name ≠ []) (hmiss : misses path members = false)
    (h : getDictionaryAtPath transformString true valuePath use path members =
      some (members', .error e)) : members' = members := by
  induction path generalizing members members' with
  | nil => exact huse _ _ _ (Option.some.inj h)
  | cons name path ih =>
      obtain ⟨hname, hpath⟩ := List.forall_mem_cons.1 hpath
      rw [misses] at hmiss
      split at hmiss
      · cases hmiss
      · next child hlookup =>
        rw [getDictionaryAtPath_enter hname hlookup] at h
        obtain ⟨⟨child', result⟩, hwalk, heq⟩ := Option.map_eq_some_iff.1 h
        obtain ⟨rfl, rfl⟩ := Prod.mk.inj heq
        rw [ih hpath hmiss hwalk]
        exact put_of_lookup hlookup
      · next j hother hlookup =>
        have hfail := getDictionaryAtPath_fail hname hlookup (fun child heq => hother child heq) h
        exact (Prod.mk.inj hfail).1

end

theorem setValue_error {key e : Text} {value : RuntimeValue} {members members' : Members}
    (h : setValue key value members = (members', .error e)) :
    members' = members ∧ (key = [] ∨ value = .nullptr) := by
  by_cases hvalue : value = .nullptr
  · rw [hvalue] at h
    exact ⟨(Prod.mk.inj h).1.symm, .inr hvalue⟩
  · rw [setValue_eq hvalue] at h
    split at h
    · next hkey => exact ⟨(Prod.mk.inj h).1.symm, .inl hkey⟩
    · cases (Prod.mk.inj h).2

theorem setValue_fails {key : Text} {value : RuntimeValue} (h : key = [] ∨ value = .nullptr)
    (members : Members) : ∃ e, (setValue key value members).2 = .error e := by
  by_cases hvalue : value = .nullptr
  · exact ⟨_, by rw [hvalue]; rfl⟩
  · rw [setValue_eq hvalue, if_pos (h.resolve_right hvalue)]
    exact ⟨_, rfl⟩

/-- A failing `set` leaves the tree as it is, unless the walk to the parent has created a dictionary
and the name of the property is empty or the value null. -/
theorem set_atomic_iff (transformString : Text → Running (Option Text)) (root : Members)
    (path : Text) (value : RuntimeValue) :
    (∀ root' e, set transformString root path value = some (root', .error e) → root' = root) ↔
      ¬ (misses (names (splitPropertyPath path).1) root = true ∧
        ((splitPropertyPath path).2 = [] ∨ value = .nullptr)) := by
  have hpath : ∀ name ∈ names (splitPropertyPath path).1, name ≠ [] :=
    fun name => ne_nil_of_mem_names
  constructor
  · rintro h ⟨hmiss, hfails⟩
    obtain ⟨at', root', hwalk, hne⟩ := getDictionaryAtPath_misses hpath hmiss
    obtain ⟨e, he⟩ := setValue_fails hfails at'
    exact hne (h root' e (he ▸ hwalk))
  · intro h root' e hset
    cases hmiss : misses (names (splitPropertyPath path).1) root with
    | false =>
        exact getDictionaryAtPath_unchanged (fun _ _ _ huse => (setValue_error huse).1) hpath hmiss
          hset
    | true =>
        obtain ⟨at', root'', hwalk, -⟩ := getDictionaryAtPath_misses hpath hmiss
        have heq := Option.some.inj (hwalk.symm.trans hset)
        have herror : (setValue (splitPropertyPath path).2 value at').2 = .error e :=
          (Prod.mk.inj heq).2
        exact absurd ⟨hmiss, (setValue_error (Prod.ext rfl herror)).2⟩ h

/-- The path `a/` names no property, and `a` has been created. -/
theorem set_creates : ∃ root' e, set (fun _ => some none) [] ['a', '/'] (.boolean true) =
    some (root', .error e) ∧ root' = [(['a'], .object [])] ∧ root' ≠ [] :=
  ⟨_, _, rfl, rfl, List.cons_ne_nil _ _⟩

end MyEngine.App
