import Mathlib.Data.List.DropRight
import MyEngine.Support.Assoc

/-!
# Rtti — TypesRegistry

The types that have a `TypeInfo`, of `type_info.cpp`, `type_info.h` and `string_hash.h`.

* `constHash`: the number of a type, from its name.
* `registerRuntimeTypeInternal`: the entry of a number is that of the first name.
* `fromId`, `fromName`, `getTypeInfo`: the ways to a `TypeInfo`.
* `Registered`: what the registry has after the classes `cs`.
* `typeInfo_identifies`: which classes have one `TypeInfo`, and what it is found by.
* `asserts_hold_iff`: the runs in which no assert of the registry fails.
-/

namespace MyEngine.Rtti.TypesRegistry

open Support

abbrev Text := List (BitVec 8)

abbrev TypeId := BitVec 64

/-- The `#TypeName` of `MY_TYPEID`: no character of it is the terminator. -/
structure TypeName where
  text : Text
  noTerminator : 0 ∉ text
  deriving DecidableEq

/-- A class with `MyRtti_TypeId`. -/
structure RttiClass where
  id : ℕ
  name : TypeName
  deriving DecidableEq

/-- `constHash`; a `char` has a sign. -/
def constHash (input : Text) : TypeId :=
  (input.takeWhile fun c => c ≠ 0).foldl
    (fun hash c => (hash ^^^ c.signExtend 64) * 0x00000100000001b3#64) 0xcbf29ce484222325#64

/-- The hash that the class is registered with. -/
def RttiClass.hash (c : RttiClass) : TypeId := constHash c.name.text

structure TypeInfo where
  typeId : TypeId := 0
  typeName : Text := []
  deriving DecidableEq, Repr

/-- `TypesRegistry::types`, the `MyRtti_TypeId` that are initialized, and how many of the asserts
have failed. -/
structure Program where
  types : List (TypeId × Text) := []
  typeIds : List (RttiClass × TypeId) := []
  failures : ℕ := 0
  deriving DecidableEq

/-- What `MY_DEBUG_ASSERT(condition)` adds to the failures. -/
def assert (condition : Bool) : ℕ := if condition then 0 else 1

namespace Program

variable (p : Program)

/-- `try_emplace`: an entry that exists stays. -/
def tryEmplace (typeHash : TypeId) (typeName : Text) : Program :=
  match p.types.lookup typeHash with
  | none       => { p with types := put typeHash typeName p.types }
  | some name₀ => { p with failures := p.failures + assert (name₀ = typeName) }

def registerRuntimeTypeInternal (typeHash : TypeId) (typeName : Text) : Program × TypeId :=
  if typeHash = 0 ∨ typeName = [] then
    ({ p with failures := p.failures + assert (typeHash ≠ 0) + assert (typeName ≠ []) }, 0)
  else
    let trimmed := typeName.rdropWhile fun c => c = 0
    let p' := { p with failures := p.failures + assert (trimmed ≠ []) }
    (p'.tryEmplace typeHash trimmed, typeHash)

/-- The initialization of `MyRtti_TypeId`; the view of the name has the terminator. -/
def register (c : RttiClass) : Program :=
  let (p', typeId) := p.registerRuntimeTypeInternal c.hash (c.name.text ++ [0])
  { p' with typeIds := put c typeId p'.typeIds }

/-- `TypeInfo::fromId`. -/
def fromId (typeHash : TypeId) : TypeInfo :=
  match p.types.lookup typeHash with
  | some typeName => { typeId := typeHash, typeName }
  | none          => {}

/-- `getTypeInfo`; a `MyRtti_TypeId` is 0 before it is initialized. -/
def getTypeInfo (c : RttiClass) : TypeInfo := p.fromId ((p.typeIds.lookup c).getD 0)

end Program

/-- `TypeInfo::fromName`, with the entries in the order that the map has them in. -/
def fromName (types : List (TypeId × Text)) (name : Option Text) : TypeInfo :=
  match name with
  | none      => {}
  | some name =>
      match types.find? fun entry => entry.2 = name.takeWhile fun c => c ≠ 0 with
      | some entry => { typeId := entry.1, typeName := entry.2 }
      | none       => {}

def run (cs : List RttiClass) : Program := cs.foldl Program.register {}

/-! ### Names -/

theorem TypeName.untilTerminator (name : TypeName) :
    (name.text.takeWhile fun c => c ≠ 0) = name.text := by
  rw [List.takeWhile_eq_self_iff]
  intro c hc
  have hne : c ≠ 0 := fun h => name.noTerminator (h ▸ hc)
  simpa using hne

/-- The characters at the end that are removed are the terminator. -/
theorem TypeName.trimmed (name : TypeName) :
    ((name.text ++ [0]).rdropWhile fun c => c = 0) = name.text := by
  rw [List.rdropWhile_concat_pos (fun c => decide (c = 0)) name.text 0 (decide_eq_true rfl),
    List.rdropWhile_eq_self_iff]
  intro hne hlast
  have hmem := List.getLast_mem hne
  rw [of_decide_eq_true hlast] at hmem
  exact name.noTerminator hmem

/-! ### What is registered -/

/-- The first class of a hash. -/
def firstOf (cs : List RttiClass) (hash : TypeId) : Option RttiClass :=
  cs.find? fun c => c.hash = hash

/-- No two classes of one hash have different names, and none has the hash 0 or the empty name. -/
def NamesAgree (cs : List RttiClass) : Prop :=
  ∀ c ∈ cs, c.hash ≠ 0 ∧ c.name.text ≠ [] ∧ ∀ c' ∈ cs, c'.hash = c.hash → c'.name = c.name

/-- The registry has the first name of each hash, and the classes their hash. -/
structure Registered (p : Program) (cs : List RttiClass) : Prop where
  keys : (p.types.map Prod.fst).Nodup
  entry : ∀ hash, p.types.lookup hash =
    if hash = 0 then none else (firstOf cs hash).map (·.name.text)
  typeIds : ∀ c, p.typeIds.lookup c = if c ∈ cs then some c.hash else none

theorem firstOf_append (cs : List RttiClass) (c : RttiClass) (hash : TypeId) :
    firstOf (cs ++ [c]) hash = (firstOf cs hash).or (if c.hash = hash then some c else none) := by
  simp only [firstOf, List.find?_append, List.find?_singleton, decide_eq_true_eq]

theorem firstOf_hash {cs : List RttiClass} {hash : TypeId} {c : RttiClass}
    (h : firstOf cs hash = some c) :
    c ∈ cs ∧ c.hash = hash :=
  ⟨List.mem_of_find?_eq_some h, by simpa using List.find?_some h⟩

theorem exists_firstOf {cs : List RttiClass} {c : RttiClass} (h : c ∈ cs) :
    ∃ c₀, firstOf cs c.hash = some c₀ :=
  Option.isSome_iff_exists.1 (List.find?_isSome.2 ⟨c, h, decide_eq_true rfl⟩)

theorem register_eq (p : Program) (c : RttiClass) :
    p.register c = if c.hash = 0 then
        { p with typeIds := put c 0 p.typeIds, failures := p.failures + 1 }
      else { ({ p with failures := p.failures + assert (c.name.text ≠ []) }.tryEmplace c.hash
          c.name.text) with typeIds := put c c.hash p.typeIds } := by
  have hne : c.name.text ++ [0] ≠ [] := List.append_ne_nil_of_right_ne_nil _ (List.cons_ne_nil 0 [])
  rw [Program.register, Program.registerRuntimeTypeInternal, c.name.trimmed]
  by_cases hzero : c.hash = 0
  · simp [hzero, assert]
  · have htypeIds : ∀ (q : Program) (hash : TypeId) (name : Text),
        (q.tryEmplace hash name).typeIds = q.typeIds := by
      intro q hash name
      rw [Program.tryEmplace]
      split <;> rfl
    simp only [hzero, hne, or_self, if_false, htypeIds]

namespace Registered

variable {p : Program} {cs : List RttiClass}

theorem tryEmplace_types (p : Program) (hash : TypeId) (name : Text) :
    (p.tryEmplace hash name).types =
      if (p.types.lookup hash).isSome then p.types else put hash name p.types := by
  rw [Program.tryEmplace]
  cases p.types.lookup hash <;> rfl

theorem register (h : Registered p cs) (c : RttiClass) : Registered (p.register c) (cs ++ [c]) := by
  have hids : ∀ c', (put c c.hash p.typeIds).lookup c' =
      if c' ∈ cs ++ [c] then some c'.hash else none := by
    intro c'
    by_cases heq : c' = c
    · rw [heq, lookup_put_self, if_pos (List.mem_append_right _ (List.mem_singleton_self c))]
    · rw [lookup_put_of_ne heq, h.typeIds c']
      simp only [List.mem_append, List.mem_singleton, heq, or_false]
  rw [register_eq]
  by_cases hzero : c.hash = 0
  · rw [if_pos hzero]
    refine ⟨h.keys, fun hash => ?_, fun c' => ?_⟩
    · rw [h.entry hash, firstOf_append]
      by_cases hhash : hash = 0
      · rw [if_pos hhash, if_pos hhash]
      · rw [if_neg hhash, if_neg hhash, if_neg fun heq : c.hash = hash => hhash (heq ▸ hzero),
          Option.or_none]
    · rw [← hids c', hzero]
  · rw [if_neg hzero]
    have hentry := h.entry c.hash
    rw [if_neg hzero] at hentry
    refine ⟨?_, fun hash => ?_, hids⟩
    · rw [tryEmplace_types]
      split
      · exact h.keys
      · next hnew =>
        have hnone := Option.not_isSome_iff_eq_none.1 hnew
        rw [put_of_lookup_none hnone, List.map_append]
        refine h.keys.append (List.nodup_singleton _) (List.disjoint_singleton.2 fun hmem => ?_)
        obtain ⟨⟨key, name⟩, hmem, hkey⟩ := List.mem_map.1 hmem
        obtain rfl : key = c.hash := hkey
        obtain ⟨first, hfirst⟩ := exists_lookup hmem
        rw [hnone] at hfirst
        cases hfirst
    · rw [tryEmplace_types, firstOf_append]
      by_cases hhash : hash = c.hash
      · subst hhash
        rw [if_neg hzero, if_pos rfl]
        cases hfirst : firstOf cs c.hash with
        | none =>
            rw [hfirst, Option.map_none] at hentry
            rw [if_neg (by simp [hentry]), lookup_put_self, Option.none_or, Option.map_some]
        | some c₀ =>
            rw [hfirst, Option.map_some] at hentry
            rw [if_pos (by simp [hentry]), hentry, Option.some_or, Option.map_some]
      · have hrest : (if (p.types.lookup c.hash).isSome then p.types
            else put c.hash c.name.text p.types).lookup hash = p.types.lookup hash := by
          split
          · rfl
          · exact lookup_put_of_ne hhash ..
        rw [if_neg fun heq : c.hash = hash => hhash heq.symm, Option.or_none, ← h.entry hash]
        exact hrest

end Registered

theorem registered_foldl {p : Program} {cs : List RttiClass} (h : Registered p cs)
    (cs' : List RttiClass) :
    Registered (cs'.foldl Program.register p) (cs ++ cs') := by
  induction cs' generalizing p cs with
  | nil =>
      rw [List.append_nil]
      exact h
  | cons c cs' ih =>
      have hrest := ih (h.register c)
      rw [List.append_assoc] at hrest
      exact hrest

theorem registered_nil : Registered {} [] :=
  ⟨List.nodup_nil, fun _ => (ite_self none).symm, fun _ => rfl⟩

theorem registered_run (cs : List RttiClass) : Registered (run cs) cs :=
  registered_foldl registered_nil cs

/-! ### Type infos -/

namespace Registered

variable {p : Program} {cs : List RttiClass}

theorem fromId_eq (h : Registered p cs) {hash : TypeId} {c₀ : RttiClass}
    (hfirst : firstOf cs hash = some c₀) (hne : hash ≠ 0) :
    p.fromId hash = { typeId := hash, typeName := c₀.name.text } := by
  rw [Program.fromId, h.entry hash, if_neg hne, hfirst]
  rfl

theorem fromId_zero (h : Registered p cs) : p.fromId 0 = {} := by
  rw [Program.fromId, h.entry 0, if_pos rfl]

theorem getTypeInfo_of_mem (h : Registered p cs) {c : RttiClass} (hc : c ∈ cs) :
    p.getTypeInfo c = p.fromId c.hash := by
  rw [Program.getTypeInfo, h.typeIds c, if_pos hc, Option.getD_some]

/-- A class that is not registered has the `TypeInfo` of no class. -/
theorem getTypeInfo_of_not_mem (h : Registered p cs) {c : RttiClass} (hc : c ∉ cs) :
    p.getTypeInfo c = {} := by
  rw [Program.getTypeInfo, h.typeIds c, if_neg hc, Option.getD_none, h.fromId_zero]

theorem typeId_eq (h : Registered p cs) {c : RttiClass} (hc : c ∈ cs) :
    (p.getTypeInfo c).typeId = c.hash := by
  rw [h.getTypeInfo_of_mem hc]
  by_cases hzero : c.hash = 0
  · rw [hzero, h.fromId_zero]
  · obtain ⟨c₀, hc₀⟩ := exists_firstOf hc
    rw [h.fromId_eq hc₀ hzero]

theorem getTypeInfo_eq_iff (h : Registered p cs) {c c' : RttiClass} (hc : c ∈ cs) (hc' : c' ∈ cs) :
    p.getTypeInfo c = p.getTypeInfo c' ↔ c.hash = c'.hash := by
  constructor
  · intro heq
    rw [← h.typeId_eq hc, ← h.typeId_eq hc', heq]
  · intro heq
    rw [h.getTypeInfo_of_mem hc, h.getTypeInfo_of_mem hc', heq]

/-- An entry has the hash of its name. -/
theorem of_mem (h : Registered p cs) {entry : TypeId × Text} (hmem : entry ∈ p.types) :
    entry.1 ≠ 0 ∧ ∃ c₀, firstOf cs entry.1 = some c₀ ∧ c₀.name.text = entry.2 := by
  have hlookup := lookup_of_mem h.keys hmem
  rw [h.entry entry.1] at hlookup
  split at hlookup
  · cases hlookup
  · next hne =>
    obtain ⟨c₀, hfirst, hname⟩ := Option.map_eq_some_iff.1 hlookup
    exact ⟨hne, c₀, hfirst, hname⟩

theorem fromName_eq (h : Registered p cs) {types : List (TypeId × Text)}
    (horder : types.Perm p.types) {c : RttiClass} (hc : c ∈ cs) (hne : c.hash ≠ 0) :
    fromName types (some c.name.text) =
      if (firstOf cs c.hash).map (·.name) = some c.name then p.getTypeInfo c else {} := by
  obtain ⟨c₀, hfirst⟩ := exists_firstOf hc
  rw [fromName, c.name.untilTerminator, hfirst, Option.map_some, h.getTypeInfo_of_mem hc,
    h.fromId_eq hfirst hne]
  cases hfind : types.find? fun entry => entry.2 = c.name.text with
  | some entry =>
      have hname : entry.2 = c.name.text := by simpa using List.find?_some hfind
      obtain ⟨-, c₁, hfirst₁, hname₁⟩ :=
        h.of_mem (horder.mem_iff.1 (List.mem_of_find?_eq_some hfind))
      -- the first class of the entry has the name, and so the hash
      have hhash : c.hash = entry.1 := by
        rw [← (firstOf_hash hfirst₁).2, RttiClass.hash, RttiClass.hash, hname₁, hname]
      rw [← hhash, hfirst] at hfirst₁
      obtain rfl : c₀ = c₁ := Option.some.inj hfirst₁
      have hnames : c₀.name = c.name := by
        rw [TypeName.mk.injEq, hname₁, hname]
      rw [if_pos (congrArg some hnames), hname₁, hhash]
  | none =>
      rw [if_neg]
      intro hnames
      have hentry : (c.hash, c.name.text) ∈ p.types := by
        refine mem_of_lookup ?_
        rw [h.entry c.hash, if_neg hne, hfirst, Option.map_some, Option.some.inj hnames]
      have hnone := List.find?_eq_none.1 hfind _ (horder.mem_iff.2 hentry)
      exact hnone (decide_eq_true rfl)

end Registered

/-- **Identity.**  Classes have one `TypeInfo` just when their names have one hash.  It is found by
its number and by its name, in whatever order the map is; and by the name of the class just when
the first class of the hash has the name. -/
theorem typeInfo_identifies (cs : List RttiClass) (types : List (TypeId × Text))
    (horder : types.Perm (run cs).types) {c : RttiClass} (hc : c ∈ cs) (hne : c.hash ≠ 0) :
    (∀ c' ∈ cs, (run cs).getTypeInfo c = (run cs).getTypeInfo c' ↔ c.hash = c'.hash) ∧
    (∀ c', c' ∉ cs → (run cs).getTypeInfo c ≠ (run cs).getTypeInfo c') ∧
    (run cs).fromId ((run cs).getTypeInfo c).typeId = (run cs).getTypeInfo c ∧
    fromName types (some ((run cs).getTypeInfo c).typeName) = (run cs).getTypeInfo c ∧
    (fromName types (some c.name.text) = (run cs).getTypeInfo c ↔
      (firstOf cs c.hash).map (·.name) = some c.name) := by
  have h := registered_run cs
  have hid := h.typeId_eq hc
  have hempty : (run cs).getTypeInfo c ≠ {} := by
    intro heq
    rw [heq] at hid
    exact hne hid.symm
  refine ⟨fun c' hc' => h.getTypeInfo_eq_iff hc hc', fun c' hc' => ?_, ?_, ?_, ?_⟩
  · rw [h.getTypeInfo_of_not_mem hc']
    exact hempty
  · rw [hid, h.getTypeInfo_of_mem hc]
  · obtain ⟨c₀, hfirst⟩ := exists_firstOf hc
    obtain ⟨hmem₀, hhash₀⟩ := firstOf_hash hfirst
    have hname := h.fromName_eq horder hmem₀ (hhash₀ ▸ hne)
    rw [hhash₀, hfirst, Option.map_some, if_pos rfl,
      (h.getTypeInfo_eq_iff hmem₀ hc).2 hhash₀] at hname
    rw [h.getTypeInfo_of_mem hc, h.fromId_eq hfirst hne] at hname ⊢
    exact hname
  · rw [h.fromName_eq horder hc hne]
    constructor
    · intro heq
      by_contra hfirst
      rw [if_neg hfirst] at heq
      exact hempty heq.symm
    · intro hfirst
      rw [if_pos hfirst]

/-- The class of the number `id` in a namespace, under the name `A`. -/
def namesake (id : ℕ) : RttiClass where
  id := id
  name := { text := [0x41#8], noTerminator := by decide }

theorem typeInfo_identifies_namesakes :
    (run [namesake 0, namesake 1]).getTypeInfo (namesake 0) =
      (run [namesake 0, namesake 1]).getTypeInfo (namesake 1) :=
  ((typeInfo_identifies [namesake 0, namesake 1] _ (List.Perm.refl _) (c := namesake 0)
    (by decide) (by decide)).1 (namesake 1) (by decide)).2 rfl

/-! ### Asserts -/

theorem register_failures {p : Program} {cs : List RttiClass} (h : Registered p cs)
    (c : RttiClass) :
    (p.register c).failures = p.failures ↔
      c.hash ≠ 0 ∧ c.name.text ≠ [] ∧ ∀ c₀, firstOf cs c.hash = some c₀ → c₀.name = c.name := by
  rw [register_eq]
  by_cases hzero : c.hash = 0
  · simp [hzero]
  · have hne : c.hash ≠ 0#64 := hzero
    rw [if_neg hzero, Program.tryEmplace]
    simp only [h.entry c.hash, if_neg hzero]
    cases hfirst : firstOf cs c.hash with
    | none => simp [assert, hne]
    | some c₀ =>
        have hname : c₀.name.text = c.name.text ↔ c₀.name = c.name := by
          rw [TypeName.mk.injEq]
        simp only [Option.map_some, assert, hname, Option.some.injEq, forall_eq', decide_eq_true_eq]
        by_cases hagree : c₀.name = c.name <;> by_cases hnil : c.name.text = [] <;>
          simp [hagree, hnil, hne, Nat.add_assoc]

theorem register_failures_le (p : Program) (c : RttiClass) :
    p.failures ≤ (p.register c).failures := by
  rw [register_eq]
  split
  · exact Nat.le_succ _
  · rw [Program.tryEmplace]
    split
    · exact Nat.le_add_right ..
    · exact (Nat.le_add_right ..).trans (Nat.le_add_right ..)

theorem foldl_failures_le (cs : List RttiClass) (p : Program) :
    p.failures ≤ (cs.foldl Program.register p).failures := by
  induction cs generalizing p with
  | nil => exact Nat.le_refl _
  | cons c cs ih => exact (register_failures_le p c).trans (ih (p.register c))

theorem namesAgree_append {cs : List RttiClass} {c : RttiClass} (h : NamesAgree cs) :
    NamesAgree (cs ++ [c]) ↔
      c.hash ≠ 0 ∧ c.name.text ≠ [] ∧ ∀ c₀, firstOf cs c.hash = some c₀ → c₀.name = c.name := by
  constructor
  · intro hall
    obtain ⟨hhash, hname, hagree⟩ := hall c (List.mem_append_right _ (List.mem_singleton_self c))
    refine ⟨hhash, hname, fun c₀ hc₀ => ?_⟩
    obtain ⟨hmem, heq⟩ := firstOf_hash hc₀
    exact hagree c₀ (List.mem_append_left _ hmem) heq
  · rintro ⟨hhash, hname, hfirst⟩
    -- a class of the hash has the name of the first
    have hsame : ∀ c' ∈ cs, c'.hash = c.hash → c'.name = c.name := by
      intro c' hc' heq
      obtain ⟨c₀, hc₀⟩ := exists_firstOf hc'
      obtain ⟨hmem, heq₀⟩ := firstOf_hash hc₀
      rw [← (h c' hc').2.2 c₀ hmem heq₀]
      exact hfirst c₀ (heq ▸ hc₀)
    intro c₁ hc₁
    rcases List.mem_append.1 hc₁ with hmem₁ | hmem₁
    · refine ⟨(h c₁ hmem₁).1, (h c₁ hmem₁).2.1, fun c₂ hc₂ heq => ?_⟩
      rcases List.mem_append.1 hc₂ with hmem₂ | hmem₂
      · exact (h c₁ hmem₁).2.2 c₂ hmem₂ heq
      · obtain rfl := List.mem_singleton.1 hmem₂
        exact (hsame c₁ hmem₁ heq.symm).symm
    · obtain rfl := List.mem_singleton.1 hmem₁
      refine ⟨hhash, hname, fun c₂ hc₂ heq => ?_⟩
      rcases List.mem_append.1 hc₂ with hmem₂ | hmem₂
      · exact hsame c₂ hmem₂ heq
      · rw [List.mem_singleton.1 hmem₂]

theorem foldl_failures_iff {p : Program} {cs : List RttiClass} (h : Registered p cs)
    (hagree : NamesAgree cs) (cs' : List RttiClass) :
    (cs'.foldl Program.register p).failures = p.failures ↔ NamesAgree (cs ++ cs') := by
  induction cs' generalizing p cs with
  | nil => simp [hagree]
  | cons c cs' ih =>
      have hsplit : cs ++ c :: cs' = cs ++ [c] ++ cs' := by simp
      rw [List.foldl_cons, hsplit]
      have hstep := (register_failures h c).trans (namesAgree_append hagree).symm
      constructor
      · intro heq
        have hle := foldl_failures_le cs' (p.register c)
        have hsame : (p.register c).failures = p.failures :=
          Nat.le_antisymm (heq ▸ hle) (register_failures_le p c)
        exact (ih (h.register c) (hstep.1 hsame)).1 (heq.trans hsame.symm)
      · intro hall
        have hcs : NamesAgree (cs ++ [c]) := by
          intro c₁ hc₁
          obtain ⟨hhash, hname, hrest⟩ := hall c₁ (List.mem_append_left _ hc₁)
          exact ⟨hhash, hname, fun c₂ hc₂ => hrest c₂ (List.mem_append_left _ hc₂)⟩
        exact ((ih (h.register c) hcs).2 hall).trans (hstep.2 hcs)

/-- **The asserts.**  They all hold just when classes of one hash have one name: two classes of one
name, from two namespaces, have one `TypeInfo` and no assert says so. -/
theorem asserts_hold_iff (cs : List RttiClass) : (run cs).failures = 0 ↔ NamesAgree cs :=
  foldl_failures_iff registered_nil (fun _ hc => nomatch hc) cs

end MyEngine.Rtti.TypesRegistry
