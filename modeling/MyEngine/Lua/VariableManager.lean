import Mathlib.Algebra.Group.Nat.Defs
import Mathlib.Data.List.Perm.Basic
import Mathlib.Logic.Relation
import MyEngine.Serialization.Json
import MyEngine.Support.Keyed

/-!
# Lua — VariableManager

The variables a debugger shows, of `lua_variable_manager.cpp`: a list of entries, each with the id
of its parent.

* `CompoundVariable.asRefStorage`: what `as<RefStorageVariable*>` takes for a reference storage.
* `Move`: one entry goes to those that are removed; `sweep_moves`, `removeChildren_moves`: the loops
  of `RemoveVariableAndChildren` are moves.
* `Removing.move`, `mem_removed_iff`: what a move keeps, and what is removed when none is left.
* `removes_iff`: the entries that are removed with calls of `Unref` for reference storages only.
-/

namespace MyEngine.Lua.Variables

open Serialization (Text)
open Support

/-! ### Entries -/

def invalidLuaIndex : ℤ := -2 ^ 31

structure ChildVariableKey where
  index : ℤ := invalidLuaIndex
  name : Text := []
  deriving DecidableEq, Repr

def ChildVariableKey.isIndexed (key : ChildVariableKey) : Bool := key.index ≠ invalidLuaIndex

/-- The classes of the variables that are registered, with what they remember. -/
inductive CompoundVariable where
  | table (indexedKeys : List ℤ) (namedKeys : List Text)
  | function
  | refStorage
  | stackLocals (frame : ℕ)
  | stackUpValues (frame : ℕ)
  deriving DecidableEq, Repr

namespace CompoundVariable

/-- The names under which a class and its bases are registered, from the class on. -/
def typeNames : CompoundVariable → List String
  | .table _ _       =>
      ["my::lua::TableVariable", "my::lua::TableVariableBase", "my::lua::CompoundVariable"]
  | .function        =>
      ["my::lua::FunctionVariable", "my::lua::ClosureVariableBase", "my::lua::CompoundVariable"]
  | .refStorage      =>
      ["my::lua::RefStorageVariableImpl", "my::lua::TableVariableBase",
        "my::lua::CompoundVariable"]
  | .stackLocals _   => ["my::lua::CompoundVariable"]
  | .stackUpValues _ => ["my::lua::StackTraceProvider::StackUpValuesVariable"]

/-- The name in the `MY_INTERFACE` of `RefStorageVariable`. -/
def refStorageVariable : String := "my::lua::TableVariableBase"

/-- `as<RefStorageVariable*>` is not null. -/
def asRefStorage (v : CompoundVariable) : Bool := v.typeNames.contains refStorageVariable

def isRefStorage : CompoundVariable → Bool
  | .refStorage => true
  | _           => false

def isTable : CompoundVariable → Bool
  | .table _ _ => true
  | _          => false

/-- A table is taken for a reference storage, too. -/
theorem asRefStorage_eq (v : CompoundVariable) :
    v.asRefStorage = (v.isRefStorage || v.isTable) := by
  cases v <;> rfl

theorem isTable_of_isRefStorage {v : CompoundVariable} (h : v.isRefStorage) :
    v.isTable = false := by
  cases v with
  | table => cases h
  | function | refStorage | stackLocals | stackUpValues => rfl

end CompoundVariable

/-- `dap::Variable`. -/
structure Variable where
  name : Text := []
  value : Text := []
  type : Text := []
  variablesReference : ℕ := 0
  namedVariables : Option ℕ := none
  indexedVariables : Option ℕ := none
  deriving DecidableEq, Repr

structure CompoundVariableEntry where
  id : ℕ
  parentId : ℕ := 0
  key : ChildVariableKey := {}
  compoundVariable : CompoundVariable
  children : Option (List (ChildVariableKey × Variable)) := none
  deriving DecidableEq, Repr

abbrev Entry := CompoundVariableEntry

/-- `FindCompoundVariableEntry`. -/
def find (entries : List Entry) (id : ℕ) : Option Entry := entries.find? (·.id = id)

/-! ### Removal -/

/-- The lists of `RemoveVariableAndChildren`, and the calls of `Unref`: whose, and with which
index. -/
structure Removal where
  compoundVariables : List Entry
  removedVariables : List Entry := []
  unrefs : List (ℕ × ℤ) := []
  deriving DecidableEq, Repr

def unrefIfNeeded (parent : Entry) (key : ChildVariableKey) : List (ℕ × ℤ) :=
  if parent.compoundVariable.asRefStorage then [(parent.id, key.index)] else []

/-- The body of the loop: one pass over the entries, and `anyRemoved`. -/
def sweep : List Entry → List Entry → Removal × Bool
  | [], removed            => (⟨[], removed, []⟩, false)
  | entry :: rest, removed =>
      match find removed entry.parentId with
      | some parent =>
          let r := (sweep rest (entry :: removed)).1
          ({ r with unrefs := unrefIfNeeded parent entry.key ++ r.unrefs }, true)
      | none        =>
          let (r, anyRemoved) := sweep rest removed
          ({ r with compoundVariables := entry :: r.compoundVariables }, anyRemoved)

theorem length_sweep (entries : List Entry) : ∀ (removed : List Entry),
    (sweep entries removed).1.compoundVariables.length ≤ entries.length ∧
      ((sweep entries removed).2 →
        (sweep entries removed).1.compoundVariables.length < entries.length) := by
  induction entries with
  | nil => exact fun removed => ⟨Nat.le_refl _, fun h => nomatch h⟩
  | cons entry rest ih =>
      intro removed
      simp only [sweep]
      split
      · have hle := (ih (entry :: removed)).1
        exact ⟨Nat.le_succ_of_le hle, fun _ => Nat.lt_succ_of_le hle⟩
      · obtain ⟨hle, hlt⟩ := ih removed
        exact ⟨Nat.succ_le_succ hle, fun h => Nat.succ_lt_succ (hlt h)⟩

/-- The loop. -/
def removeChildren (entries removed : List Entry) : Removal :=
  let r := sweep entries removed
  if _h : r.2 then
    let r' := removeChildren r.1.compoundVariables r.1.removedVariables
    { r' with unrefs := r.1.unrefs ++ r'.unrefs }
  else
    r.1
  termination_by entries.length
  decreasing_by exact (length_sweep entries removed).2 _h

/-- `RemoveVariableAndChildren`. -/
def removeVariableAndChildren (entries : List Entry) (variableId : ℕ) : Removal :=
  match find entries variableId with
  | none     => { compoundVariables := entries }
  | some var =>
      let rest := entries.eraseP (·.id = variableId)
      let parent := if var.parentId ≠ 0 then find rest var.parentId else none
      let r := removeChildren rest [var]
      { r with unrefs := parent.elim [] (unrefIfNeeded · var.key) ++ r.unrefs }

/-! ### Forests -/

/-- A root, or an entry whose parent leads to one. -/
inductive Rooted (entries : List Entry) : Entry → Prop where
  | root {e : Entry} (he : e ∈ entries) (hroot : e.parentId = 0) : Rooted entries e
  | child {p e : Entry} (hp : Rooted entries p) (he : e ∈ entries) (hparent : e.parentId = p.id) :
      Rooted entries e

structure Forest (entries : List Entry) : Prop where
  ids : (entries.map (·.id)).Nodup
  ne_zero : ∀ e ∈ entries, e.id ≠ 0
  rooted : ∀ e ∈ entries, Rooted entries e

/-- The entry with the id, and its descendants. -/
inductive Below (entries : List Entry) (id : ℕ) : Entry → Prop where
  | self {e : Entry} (he : e ∈ entries) (hid : e.id = id) : Below entries id e
  | child {p e : Entry} (hp : Below entries id p) (he : e ∈ entries)
      (hparent : e.parentId = p.id) : Below entries id e

/-- The parent of the entry has the property. -/
def ParentIs (entries : List Entry) (f : CompoundVariable → Bool) (e : Entry) : Bool :=
  (find entries e.parentId).any fun p => f p.compoundVariable

/-- What is to be removed with an id: its entry and the descendants of that, with one call of
`Unref` for each of them whose parent is a reference storage. -/
structure Removes (entries : List Entry) (id : ℕ) (r : Removal) : Prop where
  perm : (r.compoundVariables ++ r.removedVariables).Perm entries
  order : r.compoundVariables.Sublist entries
  removed : ∀ e ∈ entries, e ∈ r.removedVariables ↔ Below entries id e
  parents : ∀ e ∈ r.compoundVariables, e.parentId ≠ 0 →
    ∃ p ∈ r.compoundVariables, p.id = e.parentId
  unrefs : r.unrefs.Perm
    ((r.removedVariables.filter (ParentIs entries CompoundVariable.isRefStorage)).map
      fun e => (e.parentId, e.key.index))
  unknown : (∀ e ∈ entries, e.id ≠ id) → r = { compoundVariables := entries }

section Forest
variable {entries : List Entry} {e p : Entry} {id : ℕ}

theorem Rooted.mem (h : Rooted entries e) : e ∈ entries := by
  cases h with
  | root he _ => exact he
  | child _ he _ => exact he

theorem Below.mem (h : Below entries id e) : e ∈ entries := by
  cases h with
  | self he _ => exact he
  | child _ he _ => exact he

theorem find_eq_some (h : (entries.map (·.id)).Nodup) (hp : p ∈ entries) :
    find entries p.id = some p :=
  find?_key h hp

/-- No entry is its own parent. -/
theorem Forest.parentId_ne (h : Forest entries) (he : e ∈ entries) : e.parentId ≠ e.id := by
  induction h.rooted e he with
  | root he hroot => exact hroot ▸ (h.ne_zero _ he).symm
  | @child p e hp he hparent ih =>
      intro heq
      obtain rfl : e = p := key_inj h.ids he hp.mem (heq.symm.trans hparent)
      exact ih hp.mem heq

theorem Forest.exists_parent (h : Forest entries) (he : e ∈ entries) (hne : e.parentId ≠ 0) :
    ∃ p ∈ entries, p.id = e.parentId := by
  cases h.rooted e he with
  | root _ hroot => exact absurd hroot hne
  | child hp _ hparent => exact ⟨_, hp.mem, hparent.symm⟩

end Forest

/-! ### Moves -/

/-- An entry whose parent is among those that are removed goes to them. -/
inductive Move : Removal → Removal → Prop where
  | mk {before after removed : List Entry} {entry parent : Entry} {unrefs : List (ℕ × ℤ)}
      (hparent : find removed entry.parentId = some parent) :
      Move ⟨before ++ entry :: after, removed, unrefs⟩
        ⟨before ++ after, entry :: removed, unrefs ++ unrefIfNeeded parent entry.key⟩

abbrev Moves : Removal → Removal → Prop := Relation.ReflTransGen Move

/-- One pass over the entries. -/
theorem sweep_moves (entries : List Entry) : ∀ (before removed : List Entry)
    (unrefs : List (ℕ × ℤ)) {r : Removal × Bool}, sweep entries removed = r →
      Moves ⟨before ++ entries, removed, unrefs⟩
        ⟨before ++ r.1.compoundVariables, r.1.removedVariables, unrefs ++ r.1.unrefs⟩ := by
  induction entries with
  | nil =>
      rintro before removed unrefs _ rfl
      simp only [sweep, List.append_nil]
      exact .refl
  | cons entry rest ih =>
      rintro before removed unrefs _ rfl
      simp only [sweep]
      split
      · next parent hparent =>
          have hrest := ih before (entry :: removed) (unrefs ++ unrefIfNeeded parent entry.key) rfl
          rw [List.append_assoc] at hrest
          exact .head (.mk hparent) hrest
      · have hrest := ih (before ++ [entry]) removed unrefs rfl
        simpa only [List.append_assoc, List.singleton_append] using hrest

/-- A pass that has removed nothing has found no parent. -/
theorem sweep_none (entries : List Entry) : ∀ {removed : List Entry},
    (sweep entries removed).2 = false →
      sweep entries removed = (⟨entries, removed, []⟩, false) ∧
        ∀ e ∈ entries, find removed e.parentId = none := by
  induction entries with
  | nil => exact fun _ => ⟨rfl, fun e he => absurd he List.not_mem_nil⟩
  | cons entry rest ih =>
      intro removed
      simp only [sweep]
      split
      · exact fun h => nomatch h
      · next hparent =>
          intro h
          obtain ⟨heq, hnone⟩ := ih h
          refine ⟨by rw [heq], ?_⟩
          rintro e (_ | ⟨_, he⟩)
          · exact hparent
          · exact hnone e he

/-- The loop: moves until there is none. -/
theorem removeChildren_moves (entries removed : List Entry) (unrefs : List (ℕ × ℤ)) :
    Moves ⟨entries, removed, unrefs⟩
        { removeChildren entries removed with
          unrefs := unrefs ++ (removeChildren entries removed).unrefs } ∧
      ∀ e ∈ (removeChildren entries removed).compoundVariables,
        find (removeChildren entries removed).removedVariables e.parentId = none := by
  induction entries, removed using removeChildren.induct generalizing unrefs with
  | case1 entries removed r hany ih =>
      have hsweep := sweep_moves entries [] removed unrefs rfl
      obtain ⟨hmoves, hnone⟩ := ih (unrefs ++ r.1.unrefs)
      rw [removeChildren, dif_pos hany]
      refine ⟨hsweep.trans ?_, hnone⟩
      simpa only [List.append_assoc, List.nil_append] using hmoves
  | case2 entries removed r hany =>
      obtain ⟨heq, hnone⟩ := sweep_none entries (Bool.not_eq_true _ ▸ hany)
      rw [removeChildren, dif_neg hany, heq]
      simp only [List.append_nil]
      exact ⟨.refl, hnone⟩

/-- What the moves keep: the calls of `Unref` are those for the parents that are taken for reference
storages. -/
structure Removing (entries : List Entry) (id : ℕ) (r : Removal) : Prop where
  perm : (r.compoundVariables ++ r.removedVariables).Perm entries
  order : r.compoundVariables.Sublist entries
  below : ∀ e ∈ r.removedVariables, Below entries id e
  self : ∀ e ∈ entries, e.id = id → e ∈ r.removedVariables
  unrefs : r.unrefs.Perm
    ((r.removedVariables.filter (ParentIs entries CompoundVariable.asRefStorage)).map
      fun e => (e.parentId, e.key.index))

section Removal
variable {entries removed : List Entry} {e p : Entry} {id : ℕ} {r r' : Removal}

/-- The call for an entry is the one its parent is asked for. -/
theorem unrefIfNeeded_eq (h : (entries.map (·.id)).Nodup) (hp : p ∈ entries)
    (hparent : p.id = e.parentId) :
    unrefIfNeeded p e.key =
      ([e].filter (ParentIs entries CompoundVariable.asRefStorage)).map
        fun e => (e.parentId, e.key.index) := by
  have hfind : find entries e.parentId = some p := hparent ▸ find_eq_some h hp
  have hiff : ParentIs entries CompoundVariable.asRefStorage e =
      p.compoundVariable.asRefStorage := by
    rw [ParentIs, hfind, Option.any_some]
  rw [unrefIfNeeded, List.filter_singleton, hiff, hparent]
  cases p.compoundVariable.asRefStorage <;> rfl

theorem Removing.move (hids : (entries.map (·.id)).Nodup) (h : Removing entries id r)
    (hmove : Move r r') : Removing entries id r' := by
  obtain ⟨hparent⟩ := hmove
  rename_i before after removed entry parent unrefs
  obtain ⟨hremoved, hid⟩ := find?_key_some hparent
  have hmem : ∀ x ∈ removed, x ∈ entries := fun x hx => (h.below x hx).mem
  have hentry : entry ∈ entries := h.order.subset (List.mem_append_cons_self)
  constructor
  case perm =>
    refine List.Perm.trans ?_ h.perm
    exact List.perm_middle.trans (List.perm_middle.symm.append_right removed)
  case order => exact ((List.sublist_cons_self _ _).append_left before).trans h.order
  case below =>
    rintro x (_ | ⟨_, hx⟩)
    · exact .child (h.below parent hremoved) hentry hid.symm
    · exact h.below x hx
  case self => exact fun x hx hxid => List.mem_cons_of_mem _ (h.self x hx hxid)
  case unrefs =>
    rw [unrefIfNeeded_eq hids (hmem _ hremoved) hid, ← List.singleton_append, List.filter_append,
      List.map_append]
    exact List.perm_append_comm.trans (h.unrefs.append_left _)

theorem Removing.moves (hids : (entries.map (·.id)).Nodup) (h : Removing entries id r)
    (hmoves : Moves r r') : Removing entries id r' := by
  induction hmoves with
  | refl => exact h
  | tail _ hmove ih => exact ih.move hids hmove

/-- The entry with the id has been taken out, and its parent is looked for among the others. -/
theorem Removing.init (h : Forest entries) (he : e ∈ entries) :
    Removing entries e.id ⟨entries.eraseP (·.id = e.id), [e],
      (if e.parentId ≠ 0 then find (entries.eraseP (·.id = e.id)) e.parentId else none).elim []
        (unrefIfNeeded · e.key)⟩ := by
  have hfirst : ∀ x ∈ entries, x.id = e.id → x = e := fun x hx hid => key_inj h.ids hx he hid
  obtain ⟨x, before, after, hnone, hx, heq, herase⟩ :=
    List.exists_of_eraseP (p := fun x : Entry => x.id = e.id) he (decide_eq_true rfl)
  obtain rfl : x = e := hfirst x (heq ▸ List.mem_append_cons_self) (of_decide_eq_true hx)
  rw [herase]
  constructor
  case perm =>
    rw [heq]
    exact (List.perm_append_singleton _ _).trans List.perm_middle.symm
  case order => exact heq ▸ (List.sublist_cons_self _ _).append_left before
  case below =>
    intro y hy
    obtain rfl := List.mem_singleton.1 hy
    exact .self he rfl
  case self => exact fun y hy hid => List.mem_singleton.2 (hfirst y hy hid)
  case unrefs =>
    refine List.Perm.of_eq ?_
    by_cases hroot : x.parentId = 0
    · have hnone : find entries x.parentId = none :=
        find?_key_none.2 fun hmem => by
          obtain ⟨y, hy, hid⟩ := List.mem_map.1 hmem
          exact h.ne_zero y hy (hid.trans hroot)
      rw [if_neg (not_not.2 hroot), List.filter_singleton, ParentIs, hnone]
      rfl
    · obtain ⟨p, hp, hid⟩ := h.exists_parent he hroot
      have hrest : (before ++ after).Sublist entries :=
        heq ▸ (List.sublist_cons_self _ _).append_left before
      have hmem : p ∈ before ++ after := by
        rcases List.mem_append.1 (heq ▸ hp) with hp | hp
        · exact List.mem_append_left _ hp
        · rcases List.mem_cons.1 hp with rfl | hp
          · exact absurd hid.symm (h.parentId_ne he)
          · exact List.mem_append_right _ hp
      have hfind : find (before ++ after) x.parentId = some p :=
        hid ▸ find_eq_some (h.ids.sublist (hrest.map _)) hmem
      rw [if_pos hroot, hfind, Option.elim_some]
      exact unrefIfNeeded_eq h.ids hp hid

/-- When no parent of an entry is among those that are removed, all the descendants are. -/
theorem Removing.mem_removed_iff (h : Removing entries id r)
    (hnone : ∀ e ∈ r.compoundVariables, find r.removedVariables e.parentId = none)
    (he : e ∈ entries) : e ∈ r.removedVariables ↔ Below entries id e := by
  refine ⟨h.below e, fun hbelow => ?_⟩
  induction hbelow with
  | self he hid => exact h.self _ he hid
  | @child p e hp _ hparent ih =>
      rcases List.mem_append.1 (h.perm.mem_iff.2 he) with hkept | hremoved
      · exact absurd (List.mem_map_of_mem (ih hp.mem))
          (hparent ▸ find?_key_none.1 (hnone e hkept))
      · exact hremoved

/-- What is done for an id of the forest. -/
theorem removing_of_find (h : Forest entries) (hfind : find entries id = some e) :
    Removing entries id (removeVariableAndChildren entries id) ∧
      ∀ x ∈ (removeVariableAndChildren entries id).compoundVariables,
        find (removeVariableAndChildren entries id).removedVariables x.parentId = none := by
  obtain ⟨he, rfl⟩ := find?_key_some hfind
  simp only [removeVariableAndChildren, hfind]
  obtain ⟨hmoves, hnone⟩ := removeChildren_moves (entries.eraseP (·.id = e.id)) [e] _
  exact ⟨(Removing.init h he).moves h.ids hmoves, hnone⟩

/-- No entry that stays has lost its parent. -/
theorem Removing.exists_parent (h : Removing entries id r) (hforest : Forest entries)
    (hnone : ∀ e ∈ r.compoundVariables, find r.removedVariables e.parentId = none)
    (he : e ∈ r.compoundVariables) (hne : e.parentId ≠ 0) :
    ∃ p ∈ r.compoundVariables, p.id = e.parentId := by
  obtain ⟨p, hp, hid⟩ := hforest.exists_parent (h.order.subset he) hne
  refine ⟨p, ?_, hid⟩
  rcases List.mem_append.1 (h.perm.mem_iff.2 hp) with hkept | hremoved
  · exact hkept
  · exact absurd (List.mem_map_of_mem hremoved) (hid ▸ find?_key_none.1 (hnone e he))

theorem parentIs_asRefStorage : ParentIs entries CompoundVariable.asRefStorage e =
    (ParentIs entries CompoundVariable.isRefStorage e ||
      ParentIs entries CompoundVariable.isTable e) := by
  simp only [ParentIs]
  cases find entries e.parentId with
  | none => rfl
  | some p => exact p.compoundVariable.asRefStorage_eq

theorem not_parentIs_isTable (h : ParentIs entries CompoundVariable.isRefStorage e) :
    ¬ ParentIs entries CompoundVariable.isTable e := by
  cases hfind : find entries e.parentId with
  | none =>
      rw [ParentIs, hfind] at h
      cases h
  | some p =>
      rw [ParentIs, hfind, Option.any_some] at h ⊢
      rw [CompoundVariable.isTable_of_isRefStorage h]
      exact Bool.false_ne_true

/-- The calls of `Unref` are those for the reference storages when no table has been taken for
one. -/
theorem Removing.unrefs_iff (h : Removing entries id r) :
    r.unrefs.Perm ((r.removedVariables.filter (ParentIs entries CompoundVariable.isRefStorage)).map
        fun e => (e.parentId, e.key.index)) ↔
      ∀ e ∈ r.removedVariables, ¬ ParentIs entries CompoundVariable.isTable e := by
  constructor
  · intro hperm e he htable
    have hlength := (h.unrefs.symm.trans hperm).length_eq
    have hfilter : r.removedVariables.filter (ParentIs entries CompoundVariable.isRefStorage) =
        (r.removedVariables.filter (ParentIs entries CompoundVariable.asRefStorage)).filter
          (ParentIs entries CompoundVariable.isRefStorage) := by
      rw [List.filter_filter]
      refine List.filter_congr fun x _ => ?_
      rw [parentIs_asRefStorage]
      cases ParentIs entries CompoundVariable.isRefStorage x <;> rfl
    rw [List.length_map, List.length_map, hfilter] at hlength
    have hcalled : e ∈ r.removedVariables.filter (ParentIs entries CompoundVariable.asRefStorage) :=
      List.mem_filter.2 ⟨he, by rw [parentIs_asRefStorage, htable, Bool.or_true]⟩
    exact not_parentIs_isTable (List.length_filter_eq_length_iff.1 hlength.symm e hcalled) htable
  · intro hall
    have hcongr : r.removedVariables.filter (ParentIs entries CompoundVariable.asRefStorage) =
        r.removedVariables.filter (ParentIs entries CompoundVariable.isRefStorage) := by
      refine List.filter_congr fun e he => ?_
      rw [parentIs_asRefStorage, Bool.eq_false_iff.2 (hall e he), Bool.or_false]
    exact hcongr ▸ h.unrefs

theorem removing_unknown (h : find entries id = none) :
    Removing entries id (removeVariableAndChildren entries id) ∧
      removeVariableAndChildren entries id = { compoundVariables := entries } := by
  have heq : removeVariableAndChildren entries id = { compoundVariables := entries } := by
    simp only [removeVariableAndChildren, h]
  rw [heq]
  refine ⟨⟨?_, List.Sublist.refl _, ?_, ?_, List.Perm.refl _⟩, rfl⟩
  · exact List.Perm.of_eq (List.append_nil _)
  · exact fun e he => absurd he List.not_mem_nil
  · exact fun e he hid => absurd (List.mem_map_of_mem he) (hid ▸ find?_key_none.1 h)

/-- **The removal of a variable** takes its entry and the descendants, and gives back what the
reference storages keep for them, when none of them is the child of a table, and in no other
case. -/
theorem removes_iff (h : Forest entries) (id : ℕ) :
    Removes entries id (removeVariableAndChildren entries id) ↔
      ∀ e, Below entries id e → ¬ ParentIs entries CompoundVariable.isTable e := by
  have hremoving : Removing entries id (removeVariableAndChildren entries id) ∧
      ∀ e ∈ (removeVariableAndChildren entries id).compoundVariables,
        find (removeVariableAndChildren entries id).removedVariables e.parentId = none := by
    cases hfind : find entries id with
    | some e => exact removing_of_find h hfind
    | none =>
        obtain ⟨hremoving, heq⟩ := removing_unknown hfind
        refine ⟨hremoving, fun e _ => ?_⟩
        rw [heq]
        rfl
  obtain ⟨hremoving, hnone⟩ := hremoving
  have hunrefs := hremoving.unrefs_iff
  constructor
  · intro hremoves e hbelow
    exact hunrefs.1 hremoves.unrefs e ((hremoves.removed e hbelow.mem).2 hbelow)
  · intro htables
    constructor
    case perm => exact hremoving.perm
    case order => exact hremoving.order
    case removed => exact fun e he => hremoving.mem_removed_iff hnone he
    case parents => exact fun e he hne => hremoving.exists_parent h hnone he hne
    case unrefs => exact hunrefs.2 fun e he => htables e (hremoving.below e he)
    case unknown =>
      intro hunknown
      refine (removing_unknown (find?_key_none.2 fun hmem => ?_)).2
      obtain ⟨e, he, hid⟩ := List.mem_map.1 hmem
      exact hunknown e he hid

end Removal

/-- A reference storage with a function in it, and an upvalue of that, which is a function, too. -/
def watched : List Entry :=
  [⟨3, 2, ⟨1, []⟩, .function, none⟩, ⟨1, 0, {}, .refStorage, none⟩,
    ⟨2, 1, ⟨7, []⟩, .function, none⟩, ⟨4, 0, {}, .stackLocals 0, none⟩]

theorem forest_watched : Forest watched := by
  have hroot : Rooted watched ⟨1, 0, {}, .refStorage, none⟩ := .root (by decide) rfl
  have hchild : Rooted watched ⟨2, 1, ⟨7, []⟩, .function, none⟩ := .child hroot (by decide) rfl
  refine ⟨by decide, by decide, ?_⟩
  intro e he
  simp only [watched, List.mem_cons, List.not_mem_nil, or_false] at he
  rcases he with rfl | rfl | rfl | rfl
  · exact .child hchild (by decide) rfl
  · exact hroot
  · exact hchild
  · exact .root (by decide) rfl

/-- What a watched expression leads to is removed, and its reference is given back. -/
theorem removes_watched : Removes watched 2 (removeVariableAndChildren watched 2) := by
  refine (removes_iff forest_watched 2).2 fun e hbelow => ?_
  have hall : ∀ e ∈ watched, ¬ ParentIs watched CompoundVariable.isTable e := by decide
  exact hall e hbelow.mem

/-- The entry of a field of a table. -/
def fields : List Entry :=
  [⟨1, 0, {}, .stackLocals 0, none⟩, ⟨2, 1, ⟨1, []⟩, .table [] ["f".toList], none⟩,
    ⟨3, 2, ⟨invalidLuaIndex, "f".toList⟩, .function, none⟩]

theorem forest_fields : Forest fields := by
  have hroot : Rooted fields ⟨1, 0, {}, .stackLocals 0, none⟩ := .root (by decide) rfl
  have hchild : Rooted fields ⟨2, 1, ⟨1, []⟩, .table [] ["f".toList], none⟩ :=
    .child hroot (by decide) rfl
  refine ⟨by decide, by decide, ?_⟩
  intro e he
  simp only [fields, List.mem_cons, List.not_mem_nil, or_false] at he
  rcases he with rfl | rfl | rfl
  · exact hroot
  · exact hchild
  · exact .child hchild (by decide) rfl

/-- `Unref` of a reference storage is called for a table. -/
theorem not_removes_field : Forest fields ∧
    (removeVariableAndChildren fields 3).unrefs = [(2, invalidLuaIndex)] ∧
      ¬ Removes fields 3 (removeVariableAndChildren fields 3) := by
  have heq : removeVariableAndChildren fields 3 = ⟨fields.take 2, fields.drop 2,
      [(2, invalidLuaIndex)]⟩ := by
    have hfind : find fields 3 =
        some ⟨3, 2, ⟨invalidLuaIndex, "f".toList⟩, .function, none⟩ := rfl
    rw [removeVariableAndChildren, hfind]
    simp only
    rw [removeChildren, dif_neg (by decide)]
    rfl
  refine ⟨forest_fields, by rw [heq], fun hremoves => ?_⟩
  rw [heq] at hremoves
  exact absurd hremoves.unrefs.length_eq (by decide)

end MyEngine.Lua.Variables
