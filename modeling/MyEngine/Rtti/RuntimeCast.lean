import MyEngine.Rtti.TypesRegistry

/-!
# Rtti — RuntimeCast

The casts of an object by a `TypeInfo`, of `rtti_utils.h`: `is` and `as` of a class that has
`MY_IMPLEMENT_RTTI_OBJECT`.

* `Hierarchy`: a class with its `ClassDirectBase`, as far as they are listed.
* `castHelper`: the search of `staticCastHelper` and of `runtimeCastHelper`.
* `allBase`, `distinct`: `ClassAllUniqueBase`, of `class_info.h` and `distinct.h`.
* `castHelper_eq`: a cast goes to the first subobject that is looked for.
* `is_iff_as`: the objects that are of a type just when they are cast to it.
* `cast_sound_iff`: the programs whose casts give a subobject of the class that was asked for.
-/

namespace MyEngine.Rtti.RuntimeCast

open TypesRegistry

/-! ### Classes -/

/-- A class, with the bases that `MY_CLASS_BASE` lists. -/
inductive Hierarchy where
  | mk (cls : RttiClass) (base : List Hierarchy)

namespace Hierarchy

def cls : Hierarchy → RttiClass
  | mk cls _ => cls

/-- `ClassDirectBase`. -/
def base : Hierarchy → List Hierarchy
  | mk _ base => base

/-- The class of the subobject to which `path` leads, base by base. -/
def classAt : List ℕ → Hierarchy → Option RttiClass
  | [], t        => some t.cls
  | i :: path, t => t.base[i]?.bind (classAt path)

mutual
/-- `ClassAllBase`: the bases, then those of each of them. -/
def allBase : Hierarchy → List RttiClass
  | mk _ base => base.map cls ++ allBases base

def allBases : List Hierarchy → List RttiClass
  | []      => []
  | b :: bs => b.allBase ++ allBases bs
end

end Hierarchy

/-- `type_list_detail::distinct`. -/
def distinct : List RttiClass → List RttiClass → List RttiClass
  | [], r     => r
  | h :: t, r => if h ∈ r then distinct t r else distinct t (r ++ [h])

/-- `ClassAllUniqueBase`. -/
def Hierarchy.allUniqueBase (t : Hierarchy) : List RttiClass := distinct t.allBase []

/-- `getTypeInfo` of the classes; `IRttiObject`, `IRefCounted`; `convertible C D` is
`std::is_convertible_v<C*, D*>`, with the bases that are not listed too. -/
structure World where
  typeInfo : RttiClass → TypeInfo
  rttiObject : RttiClass
  refCounted : RttiClass
  convertible : RttiClass → RttiClass → Bool
  convertible_self : ∀ c, convertible c c = true

mutual
/-- The search for a subobject whose class is `found`; the fold over the bases goes to the first. -/
def castHelper (found : RttiClass → Bool) : Hierarchy → Option (List ℕ)
  | .mk cls base => if found cls then some [] else castBases found 0 base

def castBases (found : RttiClass → Bool) (i : ℕ) : List Hierarchy → Option (List ℕ)
  | []      => none
  | b :: bs =>
      match castHelper found b with
      | some path => some (i :: path)
      | none      => castBases found (i + 1) bs
end

namespace World

variable (w : World)

def staticCastHelper (target : RttiClass) (t : Hierarchy) : Option (List ℕ) :=
  castHelper (fun c => w.convertible c target) t

def runtimeCastHelper (targetTypeId : TypeInfo) (t : Hierarchy) : Option (List ℕ) :=
  castHelper (fun c => w.typeInfo c = targetTypeId) t

/-- `staticCast`, to the subobject that converts to the target. -/
def staticCast (target : RttiClass) (t : Hierarchy) : Option (List ℕ) :=
  if t.cls = target then some [] else w.staticCastHelper target t

/-- `runtimeCast`, that is `as`. -/
def runtimeCast (t : Hierarchy) (targetType : TypeInfo) : Option (List ℕ) :=
  if targetType = w.typeInfo w.rttiObject then w.staticCast w.rttiObject t
  else if targetType = w.typeInfo w.refCounted then w.staticCast w.refCounted t
  else w.runtimeCastHelper targetType t

/-- `isConvertibleHelper` over the class and its bases: a pointer to `const T` does not convert to a
pointer to a type that is not const. -/
def isConvertibleHelper (isConst : Bool) (t : Hierarchy) (target : RttiClass) : Bool :=
  (!isConst && w.convertible t.cls target) ||
    t.allUniqueBase.any fun c => w.convertible c target

def runtimeIs (isConst : Bool) (t : Hierarchy) (targetType : TypeInfo) : Bool :=
  if targetType = w.typeInfo w.rttiObject then w.isConvertibleHelper isConst t w.rttiObject
  else if targetType = w.typeInfo w.refCounted then w.isConvertibleHelper isConst t w.refCounted
  else (t.cls :: t.allUniqueBase).any fun c => targetType = w.typeInfo c

/-- `is`: the `decltype(*this)` of a const method is a reference to const. -/
def is (t : Hierarchy) (targetType : TypeInfo) : Bool := w.runtimeIs true t targetType

/-- The base of all objects that a type info stands for. -/
def rootOf (targetType : TypeInfo) : Option RttiClass :=
  if targetType = w.typeInfo w.rttiObject then some w.rttiObject
  else if targetType = w.typeInfo w.refCounted then some w.refCounted
  else none

end World

/-! ### Subobjects -/

mutual
/-- The object and what is in it, with the ways there, in the order of a search. -/
def Hierarchy.subobjects : Hierarchy → List (List ℕ × RttiClass)
  | .mk cls base => ([], cls) :: subobjectsOf 0 base

def subobjectsOf (i : ℕ) : List Hierarchy → List (List ℕ × RttiClass)
  | []      => []
  | b :: bs => b.subobjects.map (fun s => (i :: s.1, s.2)) ++ subobjectsOf (i + 1) bs
end

mutual
theorem castHelper_eq (found : RttiClass → Bool) :
    ∀ t, castHelper found t = (t.subobjects.find? fun s => found s.2).map Prod.fst
  | .mk cls base => by
      rw [castHelper, Hierarchy.subobjects, List.find?_cons, castBases_eq found 0 base]
      cases found cls <;> rfl

theorem castBases_eq (found : RttiClass → Bool) (i : ℕ) :
    ∀ bs, castBases found i bs = ((subobjectsOf i bs).find? fun s => found s.2).map Prod.fst
  | []      => rfl
  | b :: bs => by
      rw [castBases, subobjectsOf, List.find?_append, List.find?_map, castHelper_eq found b,
        castBases_eq found (i + 1) bs]
      simp only [Function.comp_def]
      cases b.subobjects.find? fun s => found s.2 <;> rfl
end

theorem mem_subobjectsOf {bs : List Hierarchy} {i : ℕ} {s : List ℕ × RttiClass}
    (h : s ∈ subobjectsOf i bs) :
    ∃ j b rest, bs[j]? = some b ∧ (rest, s.2) ∈ b.subobjects ∧ s.1 = (i + j) :: rest := by
  induction bs generalizing i with
  | nil => cases h
  | cons b bs ih =>
      rw [subobjectsOf, List.mem_append] at h
      rcases h with h | h
      · obtain ⟨s', hs', rfl⟩ := List.mem_map.1 h
        exact ⟨0, b, s'.1, rfl, hs', rfl⟩
      · obtain ⟨j, b', rest, hb', hrest, hpath⟩ := ih h
        exact ⟨j + 1, b', rest, hb', hrest, by rw [hpath, Nat.add_assoc, Nat.add_comm 1 j]⟩

/-- A way leads to one subobject. -/
theorem classAt_of_mem {t : Hierarchy} {path : List ℕ} {c : RttiClass}
    (h : (path, c) ∈ t.subobjects) : t.classAt path = some c := by
  induction path generalizing t with
  | nil =>
      cases t with
      | mk cls base =>
          rw [Hierarchy.subobjects, List.mem_cons] at h
          rcases h with h | h
          · rw [(Prod.mk.inj h).2]
            rfl
          · obtain ⟨_, _, _, -, -, hpath⟩ := mem_subobjectsOf h
            cases hpath
  | cons i path ih =>
      cases t with
      | mk cls base =>
          rw [Hierarchy.subobjects, List.mem_cons] at h
          rcases h with h | h
          · cases (Prod.mk.inj h).1
          · obtain ⟨j, b, rest, hb, hrest, hpath⟩ := mem_subobjectsOf h
            obtain ⟨rfl, rfl⟩ := List.cons.inj hpath
            rw [Nat.zero_add, Hierarchy.classAt, Hierarchy.base, hb]
            exact ih hrest

mutual
/-- The classes of the subobjects are the class and all its bases. -/
theorem mem_classes (c : RttiClass) :
    ∀ t : Hierarchy, c ∈ t.subobjects.map Prod.snd ↔ c = t.cls ∨ c ∈ t.allBase
  | .mk cls base => by
      rw [Hierarchy.subobjects, List.map_cons, List.mem_cons, mem_classesOf c 0 base,
        Hierarchy.allBase, List.mem_append]
      rfl

theorem mem_classesOf (c : RttiClass) (i : ℕ) :
    ∀ bs : List Hierarchy, c ∈ (subobjectsOf i bs).map Prod.snd ↔
      c ∈ bs.map Hierarchy.cls ∨ c ∈ Hierarchy.allBases bs
  | []      => by simp [subobjectsOf, Hierarchy.allBases]
  | b :: bs => by
      have hb := mem_classes c b
      have hbs := mem_classesOf c (i + 1) bs
      rw [subobjectsOf, List.map_append, List.map_map, List.mem_append, hbs, List.map_cons,
        List.mem_cons, Hierarchy.allBases, List.mem_append]
      have hmap : Prod.snd ∘ (fun s : List ℕ × RttiClass => (i :: s.1, s.2)) = Prod.snd := rfl
      rw [hmap, hb]
      tauto
end

theorem mem_distinct (c : RttiClass) (l r : List RttiClass) : c ∈ distinct l r ↔ c ∈ l ∨ c ∈ r := by
  induction l generalizing r with
  | nil => simp [distinct]
  | cons h t ih =>
      rw [distinct]
      split
      · next hmem =>
        rw [ih, List.mem_cons]
        constructor
        · rintro (ht | hr)
          · exact .inl (.inr ht)
          · exact .inr hr
        · rintro ((rfl | ht) | hr)
          · exact .inr hmem
          · exact .inl ht
          · exact .inr hr
      · rw [ih, List.mem_append, List.mem_singleton, List.mem_cons]
        tauto

theorem mem_allUniqueBase (c : RttiClass) (t : Hierarchy) :
    c ∈ t.allUniqueBase ↔ c ∈ t.allBase := by
  rw [Hierarchy.allUniqueBase, mem_distinct, List.mem_nil_iff, or_false]

/-! ### Casts -/

theorem castHelper_isSome (found : RttiClass → Bool) (t : Hierarchy) :
    (castHelper found t).isSome ↔ ∃ c, (c = t.cls ∨ c ∈ t.allBase) ∧ found c := by
  rw [castHelper_eq, Option.isSome_map, List.find?_isSome]
  constructor
  · rintro ⟨s, hs, hfound⟩
    exact ⟨s.2, (mem_classes s.2 t).1 (List.mem_map_of_mem hs), hfound⟩
  · rintro ⟨c, hc, hfound⟩
    obtain ⟨s, hs, rfl⟩ := List.mem_map.1 ((mem_classes c t).2 hc)
    exact ⟨s, hs, hfound⟩

namespace World

variable (w : World) (t : Hierarchy) (targetType : TypeInfo)

theorem staticCast_isSome (target : RttiClass) :
    (w.staticCast target t).isSome ↔
      w.convertible t.cls target ∨ ∃ c ∈ t.allBase, w.convertible c target := by
  have hhelper : (w.staticCastHelper target t).isSome ↔
      w.convertible t.cls target ∨ ∃ c ∈ t.allBase, w.convertible c target := by
    rw [staticCastHelper, castHelper_isSome]
    simp only [or_and_right, exists_or, exists_eq_left]
  rw [staticCast]
  split
  · next heq =>
    rw [heq]
    exact ⟨fun _ => .inl (w.convertible_self target), fun _ => rfl⟩
  · exact hhelper

theorem runtimeCast_eq :
    w.runtimeCast t targetType = match w.rootOf targetType with
      | some root => w.staticCast root t
      | none      => w.runtimeCastHelper targetType t := by
  rw [runtimeCast, rootOf]
  split
  · rfl
  · split <;> rfl

theorem is_eq :
    w.is t targetType = match w.rootOf targetType with
      | some root => t.allUniqueBase.any fun c => w.convertible c root
      | none      => (t.cls :: t.allUniqueBase).any fun c => targetType = w.typeInfo c := by
  rw [is, runtimeIs, rootOf]
  split
  · rfl
  · split <;> rfl

end World

/-- **`is` and `as`.**  An object is of a type just when it is cast to it, but for a class that
converts to `IRttiObject`, or to `IRefCounted`, and lists no base that does. -/
theorem is_iff_as (w : World) (t : Hierarchy) (targetType : TypeInfo) :
    (w.is t targetType ↔ (w.runtimeCast t targetType).isSome) ↔
      ∀ root, w.rootOf targetType = some root → w.convertible t.cls root →
        ∃ c ∈ t.allBase, w.convertible c root := by
  rw [w.is_eq, w.runtimeCast_eq]
  cases w.rootOf targetType with
  | some root =>
      simp only [w.staticCast_isSome, List.any_eq_true, mem_allUniqueBase, Option.some.injEq,
        forall_eq']
      constructor
      · intro h hcls
        exact h.2 (.inl hcls)
      · intro h
        exact ⟨.inr, fun hcast => hcast.elim h id⟩
  | none =>
      simp only [World.runtimeCastHelper, castHelper_isSome, List.any_eq_true, List.mem_cons,
        mem_allUniqueBase, decide_eq_true_eq, reduceCtorEq, false_implies, implies_true, iff_true]
      constructor <;> rintro ⟨c, hc, heq⟩ <;> exact ⟨c, hc, heq.symm⟩

/-- **What a cast gives.**  When the classes `cs` are registered: a cast to one of them gives a
subobject of it, in whatever hierarchy, just when it shares its hash with none of the others. -/
theorem cast_sound_iff (w : World) (cs : List RttiClass) (hw : w.typeInfo = (run cs).getTypeInfo) :
    (∀ t : Hierarchy, (∀ c, c = t.cls ∨ c ∈ t.allBase → c ∈ cs) →
      ∀ target ∈ cs, w.rootOf (w.typeInfo target) = none →
        ∀ path, w.runtimeCast t (w.typeInfo target) = some path →
          t.classAt path = some target) ↔
    ∀ target ∈ cs, w.rootOf (w.typeInfo target) = none →
      ∀ c ∈ cs, c.hash = target.hash → c = target := by
  have hregistered := registered_run cs
  constructor
  · intro h target htarget hroot c hc hhash
    -- an object of the class `c` alone is cast to the target
    have hover : ∀ c', c' = (Hierarchy.mk c []).cls ∨ c' ∈ (Hierarchy.mk c []).allBase →
        c' ∈ cs := by
      rintro c' (rfl | hmem)
      · exact hc
      · cases hmem
    have hinfo : w.typeInfo c = w.typeInfo target := by
      rw [hw]
      exact (hregistered.getTypeInfo_eq_iff hc htarget).2 hhash
    have hcast : w.runtimeCast (.mk c []) (w.typeInfo target) = some [] := by
      rw [w.runtimeCast_eq, hroot]
      simp only [World.runtimeCastHelper, castHelper, hinfo, decide_true, if_true]
    exact Option.some.inj (h _ hover target htarget hroot [] hcast)
  · intro h t hover target htarget hroot path hcast
    rw [w.runtimeCast_eq, hroot] at hcast
    simp only [World.runtimeCastHelper, castHelper_eq] at hcast
    obtain ⟨s, hs, rfl⟩ := Option.map_eq_some_iff.1 hcast
    have hinfo : w.typeInfo s.2 = w.typeInfo target := by simpa using List.find?_some hs
    have hmem := List.mem_of_find?_eq_some hs
    have hclass : s.2 ∈ cs := hover s.2 ((mem_classes s.2 t).1 (List.mem_map_of_mem hmem))
    rw [hw] at hinfo
    have hhash := (hregistered.getTypeInfo_eq_iff hclass htarget).1 hinfo
    rw [← h target htarget hroot s.2 hclass hhash]
    exact classAt_of_mem hmem

/-- Two classes `A`, with the roots `B` and `C`, of which none has a base. -/
def namesakes : World where
  typeInfo := (run [namesake 0, namesake 1]).getTypeInfo
  rttiObject := { id := 2, name := { text := [0x42#8], noTerminator := by decide } }
  refCounted := { id := 3, name := { text := [0x43#8], noTerminator := by decide } }
  convertible c target := c = target
  convertible_self c := decide_eq_true rfl

theorem cast_sound_namesakes :
    ¬ ∀ t : Hierarchy, (∀ c, c = t.cls ∨ c ∈ t.allBase → c ∈ [namesake 0, namesake 1]) →
      ∀ target ∈ [namesake 0, namesake 1], namesakes.rootOf (namesakes.typeInfo target) = none →
        ∀ path, namesakes.runtimeCast t (namesakes.typeInfo target) = some path →
          t.classAt path = some target := by
  intro h
  have hunique := (cast_sound_iff namesakes [namesake 0, namesake 1] rfl).1 h
  exact absurd (hunique (namesake 0) (by decide) (by decide) (namesake 1) (by decide) rfl)
    (by decide)

end MyEngine.Rtti.RuntimeCast
