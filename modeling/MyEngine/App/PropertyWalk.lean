import MyEngine.App.PropertyContainer
import MyEngine.Serialization.JsonMerge

/-!
# App — PropertyWalk

What `PropertyContainer::set` does to the tree.

* `valueAt`: the node at a path.
* `names_eq`: the names on a path are those on the path of its parent, and its last one.
* `getDictionaryAtPath_ok`: behind a `set` that succeeds the value is merged at the path, and
  nothing has changed beside it.
-/

namespace MyEngine.App

open Serialization Support

/-! ### Paths -/

theorem rfind_eq_none {c : Char} {str : Text} (h : rfind c str = none) : c ∉ str := by
  induction str with
  | nil => exact List.not_mem_nil
  | cons d str ih =>
      rw [rfind] at h
      split at h
      · cases h
      · next hstr =>
        split at h
        · cases h
        · next hne =>
          intro hmem
          rcases List.mem_cons.1 hmem with rfl | hmem
          · exact hne rfl
          · exact ih hstr hmem

theorem rfind_eq_some {c : Char} {str : Text} {pos : Nat} (h : rfind c str = some pos) :
    str = str.take pos ++ c :: str.drop (pos + 1) ∧ c ∉ str.drop (pos + 1) := by
  induction str generalizing pos with
  | nil => cases h
  | cons d str ih =>
      rw [rfind] at h
      split at h
      · next i hi =>
        obtain rfl := Option.some.inj h
        obtain ⟨heq, hnot⟩ := ih hi
        rw [List.take_succ_cons, List.drop_succ_cons, List.cons_append]
        exact ⟨congrArg (d :: ·) heq, hnot⟩
      · next hnone =>
        split at h
        · next heq =>
          obtain rfl := Option.some.inj h
          subst heq
          exact ⟨rfl, rfind_eq_none hnone⟩
        · cases h

theorem names_eq_filter (str : Text) : names str = (str.splitOn '/').filter (· ≠ []) := by
  rw [names, split]
  split
  · next h => rw [h]; rfl
  · rfl

theorem names_append_cons (str str' : Text) :
    names (str ++ '/' :: str') = names str ++ names str' := by
  rw [names_eq_filter, names_eq_filter, names_eq_filter, List.splitOn_append_cons_self,
    List.filter_append]

theorem names_of_notMem {str : Text} (h : '/' ∉ str) :
    names str = if str = [] then [] else [str] := by
  rw [names_eq_filter, List.splitOn_eq_singleton h]
  by_cases hstr : str = []
  · rw [if_pos hstr, hstr]
    rfl
  · rw [if_neg hstr]
    exact List.filter_cons_of_pos (decide_eq_true hstr)

/-- The names on a path are those of the parent and the last one, if it is not empty. -/
theorem names_eq (path : Text) : names path = names (splitPropertyPath path).1 ++
    if (splitPropertyPath path).2 = [] then [] else [(splitPropertyPath path).2] := by
  rw [splitPropertyPath]
  cases hpos : rfind '/' path with
  | none => exact names_of_notMem (rfind_eq_none hpos)
  | some pos =>
      obtain ⟨heq, hnot⟩ := rfind_eq_some hpos
      dsimp only
      rw [← names_of_notMem hnot, ← names_append_cons, ← heq]

theorem ne_nil_of_mem_names {path name : Text} (h : name ∈ names path) : name ≠ [] :=
  of_decide_eq_true (List.mem_filter.1 h).2

theorem set_eq (transformString : Text → Running (Option Text)) (root : Members) (path : Text)
    (value : RuntimeValue) : set transformString root path value =
      getDictionaryAtPath transformString true (splitPropertyPath path).1
        (setValue (splitPropertyPath path).2 value) (names (splitPropertyPath path).1) root := rfl

/-! ### The node at a path -/

@[grind =] def valueAt : List Text → Json → Option Json
  | [], j                           => some j
  | name :: path, .object members => (members.lookup name).bind (valueAt path)
  | _ :: _, _                       => none

theorem valueAt_cons {name : Text} {members : Members} {j : Json} (path : List Text)
    (h : members.lookup name = some j) :
    valueAt (name :: path) (.object members) = valueAt path j := by
  rw [valueAt, h, Option.bind_some]

theorem valueAt_cons_of_none {name : Text} {members : Members} (path : List Text)
    (h : members.lookup name = none) : valueAt (name :: path) (.object members) = none := by
  rw [valueAt, h, Option.bind_none]

/-- Beside the first name nothing is seen of a member. -/
theorem valueAt_put_of_ne {name other : Text} (h : other ≠ name) (j : Json) (members : Members)
    (path : List Text) : valueAt (other :: path) (.object (put name j members)) =
      valueAt (other :: path) (.object members) := by
  rw [valueAt, lookup_put_of_ne h, valueAt]

/-! ### A step of the walk -/

theorem setValue_eq {key : Text} {value : RuntimeValue} {members : Members}
    (h : value ≠ .nullptr) : setValue key value members =
      if key = [] then (members, .error "key is empty".toList)
      else (demand key (fun field => setJsonValue field value) members, .ok ()) := by
  cases value with
  | nullptr => exact absurd rfl h
  | _ => rfl

section Walk

variable {transformString : Text → Running (Option Text)} {valuePath : Text}
  {use : Members → Members × Except Text Unit} {name : Text} {path : List Text}

theorem getValue_of_lookup {members : Members} {j : Json} (hname : name ≠ [])
    (h : members.lookup name = some j) :
    getValue transformString members name = (shown transformString j).map some := by
  rw [getValue, if_neg hname, h]

/-- Where the name is missing the walk goes on in a new dictionary. -/
theorem getDictionaryAtPath_create {members : Members} (hname : name ≠ [])
    (h : members.lookup name = none) :
    getDictionaryAtPath transformString true valuePath use (name :: path) members =
      (getDictionaryAtPath transformString true valuePath use path []).map fun r =>
        (put name (.object r.1) (put name (.object []) members), r.2) := by
  have hcreated : (setValue name (.dictionary []) members).1 = put name (.object []) members := by
    have hdictionary : RuntimeValue.dictionary [] ≠ .nullptr := nofun
    rw [setValue_eq hdictionary, if_neg hname, demand, h]
    rfl
  have hvalue : getValue transformString (put name (.object []) members) name = _ :=
    getValue_of_lookup hname (lookup_put_self name (Json.object []) members)
  rw [getDictionaryAtPath, if_neg (by simp), if_pos (by rw [h]; rfl), hcreated]
  dsimp only
  rw [hvalue]
  rfl

/-- Where there is a dictionary of that name it goes on there. -/
theorem getDictionaryAtPath_enter {members child : Members} (hname : name ≠ [])
    (h : members.lookup name = some (.object child)) :
    getDictionaryAtPath transformString true valuePath use (name :: path) members =
      (getDictionaryAtPath transformString true valuePath use path child).map fun r =>
        (put name (.object r.1) members, r.2) := by
  have hvalue : getValue transformString members name = _ := getValue_of_lookup hname h
  rw [getDictionaryAtPath, if_neg (by simp), if_neg (by rw [h]; exact nofun)]
  dsimp only
  rw [hvalue]
  rfl

/-- Where there is something else it fails, or expands a string for ever. -/
theorem getDictionaryAtPath_fail {members : Members} {j : Json} (hname : name ≠ [])
    (h : members.lookup name = some j) (hj : ∀ child, j ≠ .object child)
    {r : Members × Except Text Unit}
    (hr : getDictionaryAtPath transformString true valuePath use (name :: path) members = some r) :
    r = (members, .error (notDictionary valuePath path)) := by
  have hvalue : getValue transformString members name = _ := getValue_of_lookup hname h
  rw [getDictionaryAtPath, if_neg (by simp), if_neg (by rw [h]; exact nofun)] at hr
  dsimp only at hr
  rw [hvalue] at hr
  cases j with
  | object child => exact absurd rfl (hj child)
  | string str =>
      rw [shown] at hr
      cases hstr : transformString str with
      | none => rw [hstr] at hr; cases hr
      | some newString =>
          rw [hstr] at hr
          exact (Option.some.inj hr).symm
  | null | int | uint | real | boolean | array => exact (Option.some.inj hr).symm

end Walk

/-! ### A walk that succeeds -/

section Succeeds

variable {transformString : Text → Running (Option Text)} {valuePath key : Text}
  {value : RuntimeValue}

theorem setValue_ok {members members' : Members}
    (h : setValue key value members = (members', .ok ())) :
    (key ≠ [] ∧ value ≠ .nullptr) ∧
      members' = demand key (fun field => setJsonValue field value) members := by
  by_cases hvalue : value = .nullptr
  · rw [hvalue] at h
    cases h
  · rw [setValue_eq hvalue] at h
    split at h
    · cases h
    · next hkey =>
      obtain rfl := (Prod.mk.inj h).1
      exact ⟨⟨hkey, hvalue⟩, rfl⟩

/-- A walk that succeeds goes on in the dictionary of the next name, which is there or new. -/
theorem getDictionaryAtPath_cons_ok {use : Members → Members × Except Text Unit} {name : Text}
    {path : List Text} {members members' : Members} (hname : name ≠ [])
    (h : getDictionaryAtPath transformString true valuePath use (name :: path) members =
      some (members', .ok ())) :
    ∃ child child' base : Members,
      getDictionaryAtPath transformString true valuePath use path child = some (child', .ok ()) ∧
      members' = put name (.object child') base ∧
      (∀ rest, rest ≠ [] →
        valueAt (name :: rest) (.object members) = valueAt rest (.object child)) ∧
      ∀ other rest, other ≠ name →
        valueAt (other :: rest) (.object base) = valueAt (other :: rest) (.object members) := by
  cases hlookup : members.lookup name with
  | none =>
      rw [getDictionaryAtPath_create hname hlookup] at h
      obtain ⟨⟨child', result⟩, hwalk, heq⟩ := Option.map_eq_some_iff.1 h
      obtain ⟨rfl, rfl⟩ := Prod.mk.inj heq
      refine ⟨[], child', _, hwalk, rfl, fun rest hrest => ?_, fun other rest hother => ?_⟩
      · rw [valueAt_cons_of_none rest hlookup]
        cases rest with
        | nil => exact absurd rfl hrest
        | cons next rest => rfl
      · exact valueAt_put_of_ne hother _ _ _
  | some j =>
      by_cases hj : ∃ child, j = .object child
      · obtain ⟨child, rfl⟩ := hj
        rw [getDictionaryAtPath_enter hname hlookup] at h
        obtain ⟨⟨child', result⟩, hwalk, heq⟩ := Option.map_eq_some_iff.1 h
        obtain ⟨rfl, rfl⟩ := Prod.mk.inj heq
        exact ⟨child, child', members, hwalk, rfl, fun rest _ => valueAt_cons rest hlookup,
          fun _ _ _ => rfl⟩
      · have hfail := getDictionaryAtPath_fail hname hlookup
          (fun child heq => hj ⟨child, heq⟩) h
        cases (Prod.mk.inj hfail).2

/-- The value is merged at the path, and what is read beside it is what was there. -/
theorem getDictionaryAtPath_ok {path : List Text} {members members' : Members}
    (hpath : ∀ name ∈ path, name ≠ [])
    (h : getDictionaryAtPath transformString true valuePath (setValue key value) path members =
      some (members', .ok ())) :
    (key ≠ [] ∧ value ≠ .nullptr) ∧
      valueAt (path ++ [key]) (.object members') =
        some (setJsonValue ((valueAt (path ++ [key]) (.object members)).getD .null) value) ∧
      ∀ other, ¬ other <+: path ++ [key] → ¬ path ++ [key] <+: other →
        valueAt other (.object members') = valueAt other (.object members) := by
  induction path generalizing members members' with
  | nil =>
      obtain ⟨hkey, rfl⟩ := setValue_ok (Option.some.inj h)
      refine ⟨hkey, ?_, fun other hbefore hbehind => ?_⟩
      · rw [List.nil_append, valueAt, demand, lookup_put_self, valueAt]
        cases members.lookup key <;> rfl
      · cases other with
        | nil => exact absurd List.nil_prefix hbefore
        | cons name other =>
            refine valueAt_put_of_ne (fun heq => hbehind ?_) _ _ _
            rw [heq]
            exact List.cons_prefix_cons.2 ⟨rfl, List.nil_prefix⟩
  | cons name path ih =>
      obtain ⟨hname, hpath⟩ := List.forall_mem_cons.1 hpath
      obtain ⟨child, child', base, hwalk, rfl, hinside, hbeside⟩ :=
        getDictionaryAtPath_cons_ok hname h
      obtain ⟨hkey, hvalue, hother⟩ := ih hpath hwalk
      have hne : path ++ [key] ≠ [] := List.append_ne_nil_of_right_ne_nil _ (List.cons_ne_nil _ _)
      refine ⟨hkey, ?_, fun other hbefore hbehind => ?_⟩
      · rw [List.cons_append, valueAt_cons _ (lookup_put_self _ _ _), hvalue, hinside _ hne]
      · cases other with
        | nil => exact absurd List.nil_prefix hbefore
        | cons next other =>
            by_cases hnext : next = name
            · -- the other path leads into the same member, and leaves this one further down
              subst hnext
              have hbefore' : ¬ other <+: path ++ [key] :=
                fun hp => hbefore (List.cons_prefix_cons.2 ⟨rfl, hp⟩)
              have hbehind' : ¬ path ++ [key] <+: other :=
                fun hp => hbehind (List.cons_prefix_cons.2 ⟨rfl, hp⟩)
              have hrest : other ≠ [] := fun heq => hbefore' (heq ▸ List.nil_prefix)
              rw [valueAt_cons _ (lookup_put_self _ _ _), hother other hbefore' hbehind',
                hinside other hrest]
            · rw [valueAt_put_of_ne hnext, hbeside next other hnext]

end Succeeds

end MyEngine.App
