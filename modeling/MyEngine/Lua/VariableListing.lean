import Mathlib.Data.List.Forall2
import Mathlib.Data.List.Induction
import Mathlib.Data.List.Nodup
import MyEngine.Lua.VariableManager

/-!
# Lua — VariableListing

`GetVariables` of `lua_variable_manager.cpp`: the value of an entry is brought to the top of the Lua
stack from the root of the entry on, and its children become variables.

* `climb_eq`, `pushPath_spec`: the entries on the way from the root, and the value they lead to.
* `createAll_spec`: the variables of the children, and the entries of those that have children
  themselves.
* `createAll_none`: a table of which one has.
* `lists_iff`: the entries whose children are listed.
-/

namespace MyEngine.Lua.Variables

open Serialization (Text)
open Support

/-! ### Lua -/

/-- Tables and functions are told apart by where they are; a number is what `std::to_string` makes
of it. -/
inductive Value where
  | nil
  | boolean (value : Bool)
  | lightUserdata
  | number (text : Text)
  | string (value : Text)
  | table (ref : ℕ)
  | function (ref : ℕ)
  | userdata
  | thread
  deriving DecidableEq, Repr

inductive LuaKey where
  | integer (value : ℤ)
  | string (value : Text)
  deriving DecidableEq, Repr

/-- The fields are in the order of `lua_next`. -/
structure LuaTable where
  fields : List (LuaKey × Value)
  distinct : (fields.map Prod.fst).Nodup
  range : ∀ i value, (LuaKey.integer i, value) ∈ fields → -2 ^ 31 ≤ i ∧ i < 2 ^ 31

structure LuaFunction where
  what : Text
  upValues : List (Text × Value)
  deriving DecidableEq, Repr

/-- `locals` and `callee` are those of the frames, `refs` what `DebuggerState` keeps. -/
structure LuaState where
  tables : ℕ → LuaTable
  functions : ℕ → LuaFunction
  locals : ℕ → List (Text × Value)
  callee : ℕ → ℕ
  refs : ℤ → Value
  keepReference : Value → ℤ

/-- `lua_getupvalue` and `lua_getlocal`, which count from 1. -/
def getNth (values : List (Text × Value)) (n : ℤ) : Option (Text × Value) :=
  if n ≤ 0 then none else values[(n - 1).toNat]?

namespace LuaTable

variable (t : LuaTable)

/-- `lua_gettable`, for a field of the table itself. -/
def gettable (key : LuaKey) : Value := (t.fields.find? (·.1 = key)).elim .nil Prod.snd

/-- `static_cast<int>`. -/
def toInt (i : ℤ) : ℤ := i.bmod (2 ^ 32)

/-- `_indexedKeys` and `_namedKeys` of `TableVariableBase`. -/
def indexedKeys : List ℤ :=
  t.fields.filterMap fun
    | (.integer i, _) => some (toInt i)
    | (.string _, _)  => none

def namedKeys : List Text :=
  t.fields.filterMap fun
    | (.integer _, _) => none
    | (.string s, _)  => some s

end LuaTable

namespace ChildVariableKey

variable (key : ChildVariableKey)

/-- `operator bool`. -/
def isKey : Bool := key.isIndexed || key.name ≠ []

def asString : Text :=
  if !key.isKey then [] else if key.isIndexed then (toString key.index).toList else key.name

def push : LuaKey := if key.isIndexed then .integer key.index else .string key.name

end ChildVariableKey

/-! ### The variables of the children -/

/-- The texts of a variable. -/
def describe (lua : LuaState) : Value → Variable
  | .nil            => { value := "nil".toList, type := "nil".toList }
  | .boolean value  =>
      { value := (if value then "True" else "False").toList, type := "boolean".toList }
  | .lightUserdata  => { value := "[USER_POINTER]".toList, type := "pointer".toList }
  | .number text    => { value := text, type := "number".toList }
  | .string value   => { value, type := "string".toList }
  | .table ref      =>
      let named := (lua.tables ref).namedKeys.length
      let indexed := (lua.tables ref).indexedKeys.length
      if 0 < named || 0 < indexed then
        { value := "{}".toList
          type := (if 0 < named then "table" else "array").toList
          namedVariables := some named
          indexedVariables := some indexed }
      else
        { value := "{}".toList, type := "table".toList }
  | .function ref   =>
      let f := lua.functions ref
      if f.what = "Lua".toList then
        if 0 < f.upValues.length then
          { value := "(), [".toList ++ (toString f.upValues.length).toList ++ "]".toList
            type := "closure".toList }
        else
          { value := "()".toList, type := "function".toList }
      else if f.what = "C".toList then
        { value := "() c/c++".toList, type := "cfunction".toList }
      else
        { value := "()".toList, type := "function".toList }
  | .userdata       => { value := "[USERDATA]".toList, type := "pointer".toList }
  | .thread         => { value := "[THREAD]".toList, type := "thread".toList }

/-- The variable that is registered for a value that has children. -/
def compound (lua : LuaState) : Value → Option CompoundVariable
  | .table ref    =>
      let t := lua.tables ref
      if 0 < t.namedKeys.length || 0 < t.indexedKeys.length then
        some (.table t.indexedKeys t.namedKeys)
      else
        none
  | .function ref =>
      let f := lua.functions ref
      if f.what = "Lua".toList && 0 < f.upValues.length then some .function else none
  | _             => none

structure VariableManager where
  compoundVariables : List Entry := []
  nextVariableId : ℕ := 0
  deriving DecidableEq, Repr

/-- `_compoundVariables.emplace_back`, with the next id. -/
def VariableManager.emplaceBack (m : VariableManager) (parentId : ℕ) (key : ChildVariableKey)
    (value : CompoundVariable) : ℕ × VariableManager :=
  let id := (m.nextVariableId + 1) % 2 ^ 32
  (id, ⟨m.compoundVariables ++ [⟨id, parentId, key, value, none⟩], id⟩)

/-- A child of a variable, as it is given to `CreateVariableFromLuaStack`. -/
structure Child where
  key : ChildVariableKey
  overrideVariableName : Text := []
  value : Value
  deriving DecidableEq, Repr

/-- The key of an entry: what `Ref` returns if the parent is a reference storage.  Nothing is to be
expected from the `Ref` of a variable that is taken for one. -/
def getChildKey (lua : LuaState) (parent : Entry) (child : Child) : Option ChildVariableKey :=
  if parent.compoundVariable.asRefStorage then
    if parent.compoundVariable.isRefStorage then some ⟨lua.keepReference child.value, []⟩ else none
  else
    some child.key

def variableName (overrideVariableName : Text) (key : ChildVariableKey) : Text :=
  if overrideVariableName ≠ [] then overrideVariableName
  else if key.isKey then key.asString
  else []

/-- `CreateVariableFromLuaStack`. -/
def createVariable (lua : LuaState) (parent : Entry) (child : Child) (m : VariableManager) :
    Option ((ChildVariableKey × Variable) × VariableManager) :=
  let name := variableName child.overrideVariableName child.key
  match compound lua child.value with
  | none          => some ((child.key, { describe lua child.value with name }), m)
  | some registered =>
      (getChildKey lua parent child).map fun key =>
        let (id, m') := m.emplaceBack parent.id key registered
        ((key,
          { describe lua child.value with
            name := if name = [] then variableName child.overrideVariableName key else name
            variablesReference := id }), m')

/-- The loops of `GetChildVariables`. -/
def createAll (lua : LuaState) (parent : Entry) :
    List Child → VariableManager → Option (List (ChildVariableKey × Variable) × VariableManager)
  | [], m                => some ([], m)
  | child :: children, m => do
      let (kv, m) ← createVariable lua parent child m
      let (kvs, m) ← createAll lua parent children m
      return (kv :: kvs, m)

/-- The upvalues of a function, as they are enumerated. -/
def upValueChildren (f : LuaFunction) : List Child :=
  (f.upValues.zipIdx 1).map fun (upValue, i) => ⟨⟨i, []⟩, upValue.1, upValue.2⟩

/-- The locals of a frame, but for those of Lua itself. -/
def localChildren (locals : List (Text × Value)) : List Child :=
  ((locals.zipIdx 1).filter fun (l, _) => !"(*".toList.isPrefixOf l.1).map fun (l, i) =>
    ⟨⟨i, []⟩, l.1, l.2⟩

/-- What the loop of `GetChildVariables` goes over, with the top of the stack that it looks at; with
another value there is nothing to be expected of Lua. -/
def enumerate (lua : LuaState) (stack : List Value) : CompoundVariable → Option (List Child)
  | .table indexedKeys namedKeys =>
      match stack with
      | .table ref :: _ =>
          let t := lua.tables ref
          some ((indexedKeys.map fun i => ⟨⟨i, []⟩, [], t.gettable (.integer i)⟩) ++
            namedKeys.map fun s => ⟨⟨invalidLuaIndex, s⟩, [], t.gettable (.string s)⟩)
      | _               => none
  | .function                    =>
      match stack with
      | .function ref :: _ => some (upValueChildren (lua.functions ref))
      | _                  => none
  | .refStorage                  => some []
  | .stackLocals frame           => some (localChildren (lua.locals frame))
  | .stackUpValues frame         => some (upValueChildren (lua.functions (lua.callee frame)))

/-! ### The way to a value -/

/-- `PushChildOnStack`. -/
def pushChildOnStack (lua : LuaState) (key : ChildVariableKey) (stack : List Value) :
    CompoundVariable → Option (List Value)
  | .table _ _           =>
      match stack with
      | .table ref :: rest => some ((lua.tables ref).gettable key.push :: rest)
      | _                  => none
  | .function            =>
      match stack with
      | .function ref :: _ =>
          some ((getNth (lua.functions ref).upValues key.index).elim stack (·.2 :: stack))
      | _                  => none
  | .refStorage          =>
      let value := lua.refs key.index
      some (if value = .nil then stack else value :: stack)
  | .stackLocals frame   => some ((getNth (lua.locals frame) key.index).elim stack (·.2 :: stack))
  | .stackUpValues frame =>
      let stack := .function (lua.callee frame) :: stack
      some ((getNth (lua.functions (lua.callee frame)).upValues key.index).elim stack
        (·.2 :: stack))

/-- The loop of `FindNextWithParent`, which may find nothing; `none` when it has not ended. -/
def climb (entries : List Entry) (parentId : ℕ) : ℕ → Entry → Option (Option Entry)
  | 0, _            => none
  | fuel + 1, entry =>
      if entry.parentId = parentId then some (some entry)
      else if entry.parentId = 0 then some none
      else
        match find entries entry.parentId with
        | none        => some none
        | some parent => climb entries parentId fuel parent

/-- The loop of `GetVariables`, from a parent on.  Its condition is the one it begins with. -/
def pushFrom (lua : LuaState) (entries : List Entry) (varEntry : Entry) :
    ℕ → Entry → List Value → Option (List Value)
  | 0, _, _                 => none
  | fuel + 1, parent, stack =>
      if parent.id = varEntry.id then
        some stack
      else do
        let field ← (← climb entries parent.id (fuel + 1) varEntry)
        let stack ← pushChildOnStack lua field.key stack parent.compoundVariable
        pushFrom lua entries varEntry fuel field stack

/-- From the root on. -/
def pushPath (lua : LuaState) (entries : List Entry) (fuel : ℕ) (varEntry : Entry)
    (stack : List Value) : Option (List Value) := do
  let root ← (← climb entries 0 fuel varEntry)
  pushFrom lua entries varEntry fuel root stack

/-- `varEntry->children`, for the first entry with the id. -/
def setChildren (id : ℕ) (children : List (ChildVariableKey × Variable)) : List Entry → List Entry
  | []              => []
  | entry :: rest =>
      if entry.id = id then { entry with children := some children } :: rest
      else entry :: setChildren id children rest

structure VariablesArguments where
  variablesReference : ℕ
  filter : Text := []
  deriving DecidableEq, Repr

/-- What the end of `GetVariables` takes from the children. -/
def VariablesArguments.select (args : VariablesArguments)
    (children : List (ChildVariableKey × Variable)) : List Variable :=
  if args.filter = [] then children.map Prod.snd
  else
    (children.filter fun kv => (args.filter = "indexed".toList : Bool) = kv.1.isIndexed).map
      Prod.snd

/-- `GetVariables`; `none` when a loop has not ended, or where there is nothing to be expected. -/
def VariableManager.getVariables (lua : LuaState) (fuel : ℕ) (args : VariablesArguments)
    (stack : List Value) (m : VariableManager) : Option (List Variable × VariableManager) :=
  match find m.compoundVariables args.variablesReference with
  | none          => some ([], m)
  | some varEntry =>
      match varEntry.children with
      | some children => some (args.select children, m)
      | none          => do
          let stack ← pushPath lua m.compoundVariables fuel varEntry stack
          let children ← enumerate lua stack varEntry.compoundVariable
          let (kvs, m') ← createAll lua varEntry children m
          return (args.select kvs,
            { m' with compoundVariables := setChildren varEntry.id kvs m'.compoundVariables })

/-! ### What is to be listed -/

/-- The fields of a table, those with a number first. -/
def fieldChildren (t : LuaTable) : List Child :=
  (t.fields.filterMap fun
    | (.integer i, value) => some ⟨⟨i, []⟩, [], value⟩
    | (.string _, _)      => none) ++
  t.fields.filterMap fun
    | (.integer _, _)     => none
    | (.string s, value)  => some ⟨⟨invalidLuaIndex, s⟩, [], value⟩

/-- The children of the value of a variable; a root has no value. -/
def childrenOf (lua : LuaState) : CompoundVariable → Option Value → List Child
  | .table _ _, some (.table ref)     => fieldChildren (lua.tables ref)
  | .function, some (.function ref)   => upValueChildren (lua.functions ref)
  | .stackLocals frame, none          => localChildren (lua.locals frame)
  | .stackUpValues frame, none        => upValueChildren (lua.functions (lua.callee frame))
  | _, _                              => []

/-- Where a key leads to. -/
def follow (lua : LuaState) (key : ChildVariableKey) :
    CompoundVariable → Option Value → Option Value
  | .table _ _, some (.table ref)     =>
      ((lua.tables ref).fields.find? (·.1 = key.push)).map Prod.snd
  | .function, some (.function ref)   =>
      (getNth (lua.functions ref).upValues key.index).map Prod.snd
  | .refStorage, none                 =>
      if lua.refs key.index = .nil then none else some (lua.refs key.index)
  | .stackLocals frame, none          => (getNth (lua.locals frame) key.index).map Prod.snd
  | .stackUpValues frame, none        =>
      (getNth (lua.functions (lua.callee frame)).upValues key.index).map Prod.snd
  | _, _                              => none

/-- The value that is reached from the root of an entry by the keys of its ancestors. -/
inductive Reaches (lua : LuaState) (entries : List Entry) : Entry → Option Value → Prop where
  | root {e : Entry} (he : e ∈ entries) (hroot : e.parentId = 0) : Reaches lua entries e none
  | child {p e : Entry} {v : Option Value} {w : Value} (hp : Reaches lua entries p v)
      (he : e ∈ entries) (hparent : e.parentId = p.id)
      (hfollow : follow lua e.key p.compoundVariable v = some w) : Reaches lua entries e (some w)

/-- The variable is that of the value, with the keys of a table. -/
def Fits (lua : LuaState) : CompoundVariable → Option Value → Prop
  | .table indexedKeys namedKeys, some (.table ref) =>
      indexedKeys = (lua.tables ref).indexedKeys ∧ namedKeys = (lua.tables ref).namedKeys
  | .function, some (.function _)                   => True
  | .refStorage, none                               => True
  | .stackLocals _, none                            => True
  | .stackUpValues _, none                          => True
  | _, _                                            => False

/-- The variable is that of the child, and what it refers to is an entry of it. -/
structure Shows (lua : LuaState) (entries : List Entry) (parent : Entry) (child : Child)
    (v : Variable) : Prop where
  texts : v = { describe lua child.value with
    name := variableName child.overrideVariableName child.key
    variablesReference := v.variablesReference }
  simple : compound lua child.value = none → v.variablesReference = 0
  compound : ∀ registered, compound lua child.value = some registered → ∃ x ∈ entries,
    x.id = v.variablesReference ∧ x.parentId = parent.id ∧ x.key = child.key ∧
      x.compoundVariable = registered

/-- The children of a value that have children themselves. -/
def compoundOf (lua : LuaState) (children : List Child) : List Child :=
  children.filter fun child => (compound lua child.value).isSome

/-- The entry is that of the child. -/
structure Registers (lua : LuaState) (parent : Entry) (child : Child) (x : Entry) : Prop where
  parentId : x.parentId = parent.id
  key : x.key = child.key
  registered : compound lua child.value = some x.compoundVariable

/-- The entries lead to values of Lua, and what has been listed is there. -/
structure Represents (lua : LuaState) (m : VariableManager) : Prop where
  forest : Forest m.compoundVariables
  value : ∀ e ∈ m.compoundVariables, ∃ v, Reaches lua m.compoundVariables e v ∧
    Fits lua e.compoundVariable v
  listed : ∀ e ∈ m.compoundVariables, ∀ kvs ∈ e.children, ∀ v,
    Reaches lua m.compoundVariables e v →
      List.Forall₂ (Shows lua m.compoundVariables e) (childrenOf lua e.compoundVariable v)
        (kvs.map Prod.snd)

/-- The value is at the top. -/
def TopIs (stack : List Value) (value : Option Value) : Prop := ∀ v ∈ value, stack.head? = some v

/-- The children of the entry are asked for with its value at the top, one variable is returned for
each of them and an entry made for each of those that have children themselves; they are returned
again without another entry. -/
structure Listing (lua : LuaState) (m : VariableManager) (e : Entry) (stack : List Value)
    (v : Option Value) (listed : List Variable) (m' : VariableManager) : Prop where
  reaches : Reaches lua m.compoundVariables e v
  returns : ∀ fuel ≥ m.compoundVariables.length,
    m.getVariables lua fuel ⟨e.id, []⟩ stack = some (listed, m')
  shows : List.Forall₂ (Shows lua m'.compoundVariables e) (childrenOf lua e.compoundVariable v)
    listed
  asked : e.children = none → ∃ stack',
    pushPath lua m.compoundVariables m.compoundVariables.length e stack = some stack' ∧
      TopIs stack' v
  created : if e.children.isSome then m' = m else ∃ kvs new,
    m'.compoundVariables = setChildren e.id kvs m.compoundVariables ++ new ∧
      List.Forall₂ (Registers lua e) (compoundOf lua (childrenOf lua e.compoundVariable v)) new
  again : ∀ fuel stack, m'.getVariables lua fuel ⟨e.id, []⟩ stack = some (listed, m')

def Lists (lua : LuaState) (m : VariableManager) (e : Entry) (stack : List Value) : Prop :=
  ∃ v listed m', Listing lua m e stack v listed m'

/-- The entry has been listed, or it is no table, or one none of whose fields has children. -/
def Plain (lua : LuaState) (m : VariableManager) (e : Entry) : Prop :=
  e.children.isSome ∨ ¬ e.compoundVariable.isTable ∨ ∀ v, Reaches lua m.compoundVariables e v →
    ∀ child ∈ childrenOf lua e.compoundVariable v, compound lua child.value = none

/-! ### Keys and children -/

section Children
variable {lua : LuaState} {cv : CompoundVariable} {value : Option Value} {stack : List Value}
  {key : ChildVariableKey} {w : Value} {t : LuaTable} {i : ℤ}

theorem toInt_eq (h : -2 ^ 31 ≤ i ∧ i < 2 ^ 31) : LuaTable.toInt i = i :=
  Int.bmod_eq_of_le (by omega) (by omega)

theorem gettable_eq {k : LuaKey} (h : (k, w) ∈ t.fields) : t.gettable k = w := by
  have hfind : t.fields.find? (fun f => f.1 = k) = some (k, w) := find?_key t.distinct h
  rw [LuaTable.gettable, hfind, Option.elim_some]

/-- The loops over the keys of a table go over its fields. -/
theorem enumerate_table {ref : ℕ} {rest : List Value} :
    enumerate lua (.table ref :: rest)
        (.table (lua.tables ref).indexedKeys (lua.tables ref).namedKeys) =
      some (fieldChildren (lua.tables ref)) := by
  simp only [enumerate, fieldChildren, LuaTable.indexedKeys, LuaTable.namedKeys,
    List.map_filterMap]
  congr 2
  · refine List.filterMap_congr fun f hf => ?_
    obtain ⟨k, w⟩ := f
    cases k with
    | integer i =>
        rw [Option.map_some, toInt_eq ((lua.tables ref).range i w hf), gettable_eq hf]
    | string s => rfl
  · refine List.filterMap_congr fun f hf => ?_
    obtain ⟨k, w⟩ := f
    cases k with
    | integer i => rfl
    | string s => rw [Option.map_some, gettable_eq hf]

/-- What is enumerated are the children of the value at the top. -/
theorem enumerate_eq (h : Fits lua cv value) (htop : TopIs stack value) :
    enumerate lua stack cv = some (childrenOf lua cv value) := by
  cases cv with
  | table indexedKeys namedKeys =>
      cases value with
      | none => exact h.elim
      | some v =>
          cases v with
          | table ref =>
              obtain ⟨rfl, rfl⟩ := h
              obtain ⟨rest, rfl⟩ := List.head?_eq_some_iff.1 (htop _ rfl)
              exact enumerate_table
          | _ => exact h.elim
  | function =>
      cases value with
      | none => exact h.elim
      | some v =>
          cases v with
          | function ref =>
              obtain ⟨rest, rfl⟩ := List.head?_eq_some_iff.1 (htop _ rfl)
              rfl
          | _ => exact h.elim
  | refStorage | stackLocals | stackUpValues =>
      cases value with
      | none => rfl
      | some v => exact h.elim

theorem topIs_cons {rest : List Value} : TopIs (w :: rest) (some w) := fun _ hv =>
  congrArg some (Option.some.inj hv)

theorem getNth_spec {values : List (Text × Value)} {n : ℤ}
    (h : (getNth values n).map Prod.snd = some w) :
    TopIs ((getNth values n).elim stack (·.2 :: stack)) (some w) := by
  obtain ⟨nv, hnv, rfl⟩ := Option.map_eq_some_iff.1 h
  rw [hnv, Option.elim_some]
  exact topIs_cons

/-- Each variable pushes its children. -/
theorem pushChildOnStack_spec (htop : TopIs stack value) (h : follow lua key cv value = some w) :
    ∃ stack', pushChildOnStack lua key stack cv = some stack' ∧ TopIs stack' (some w) := by
  cases cv with
  | table indexedKeys namedKeys =>
      cases value with
      | none => cases h
      | some v =>
          cases v with
          | table ref =>
              obtain ⟨rest, rfl⟩ := List.head?_eq_some_iff.1 (htop _ rfl)
              obtain ⟨f, hfind, rfl⟩ := Option.map_eq_some_iff.1 h
              refine ⟨_, rfl, ?_⟩
              rw [LuaTable.gettable, hfind, Option.elim_some]
              exact topIs_cons
          | _ => cases h
  | function =>
      cases value with
      | none => cases h
      | some v =>
          cases v with
          | function ref =>
              obtain ⟨rest, rfl⟩ := List.head?_eq_some_iff.1 (htop _ rfl)
              exact ⟨_, rfl, getNth_spec h⟩
          | _ => cases h
  | refStorage =>
      cases value with
      | some v => cases h
      | none =>
          simp only [follow] at h
          split at h
          · cases h
          · next hnil =>
              obtain rfl := Option.some.inj h
              refine ⟨_, rfl, ?_⟩
              rw [if_neg hnil]
              exact topIs_cons
  | stackLocals frame | stackUpValues frame =>
      cases value with
      | some v => cases h
      | none => exact ⟨_, rfl, getNth_spec h⟩

end Children

/-! ### Paths -/

/-- An entry and its ancestors, to the root. -/
inductive Path (entries : List Entry) : List Entry → Prop where
  | root {e : Entry} (he : e ∈ entries) (hroot : e.parentId = 0) : Path entries [e]
  | child {e p : Entry} {rest : List Entry} (hp : Path entries (p :: rest)) (he : e ∈ entries)
      (hparent : e.parentId = p.id) : Path entries (e :: p :: rest)

section Path
variable {entries before rest rest' path : List Entry} {e p x y : Entry}

theorem Rooted.exists_path (h : Rooted entries e) : ∃ rest, Path entries (e :: rest) := by
  induction h with
  | root he hroot => exact ⟨[], .root he hroot⟩
  | child _ he hparent ih =>
      obtain ⟨rest, hpath⟩ := ih
      exact ⟨_, .child hpath he hparent⟩

namespace Path

theorem subset (h : Path entries path) : path ⊆ entries := by
  induction h with
  | root he _ => exact List.cons_subset.2 ⟨he, List.nil_subset _⟩
  | child _ he _ ih => exact List.cons_subset.2 ⟨he, ih⟩

theorem suffix (h : Path entries (before ++ x :: rest)) : Path entries (x :: rest) := by
  induction before with
  | nil => exact h
  | cons y before ih =>
      refine ih ?_
      cases before with
      | nil =>
          cases h with
          | child hp _ _ => exact hp
      | cons z before =>
          cases h with
          | child hp _ _ => exact hp

/-- The ancestors of an entry are known. -/
theorem unique (hforest : Forest entries) (h : Path entries (e :: rest))
    (h' : Path entries (e :: rest')) : rest = rest' := by
  generalize hpath : e :: rest = path at h
  induction h generalizing e rest rest' with
  | root he hroot =>
      obtain ⟨rfl, rfl⟩ := List.cons.inj hpath
      cases h' with
      | root _ _ => rfl
      | child hp _ hparent =>
          exact absurd (hparent.symm.trans hroot) (hforest.ne_zero _ (hp.subset List.mem_cons_self))
  | @child e' p rest hp he hparent ih =>
      obtain ⟨rfl, rfl⟩ := List.cons.inj hpath
      cases h' with
      | root _ hroot =>
          exact absurd (hparent.symm.trans hroot) (hforest.ne_zero _ (hp.subset List.mem_cons_self))
      | @child _ p' rest' hp' _ hparent' =>
          obtain rfl : p = p' := key_inj hforest.ids (hp.subset List.mem_cons_self)
            (hp'.subset List.mem_cons_self) (hparent.symm.trans hparent')
          rw [ih hp' rfl]

/-- No entry is its own ancestor. -/
theorem nodup (hforest : Forest entries) (h : Path entries path) : path.Nodup := by
  induction h with
  | root he _ => exact List.nodup_singleton _
  | @child e p rest hp he hparent ih =>
      refine List.nodup_cons.2 ⟨fun hmem => ?_, ih⟩
      obtain ⟨before, after, heq⟩ := List.append_of_mem hmem
      have hagain : after = p :: rest :=
        unique hforest (suffix (heq ▸ hp)) (.child hp he hparent)
      have hlength := congrArg List.length heq
      simp only [hagain, List.length_append, List.length_cons] at hlength
      omega

theorem length_le (hforest : Forest entries) (h : Path entries path) :
    path.length ≤ entries.length :=
  (List.subperm_of_subset (h.nodup hforest) h.subset).length_le

/-- Behind an entry of a path is its parent. -/
theorem next (h : Path entries (before ++ x :: rest)) (hy : y ∈ before) :
    ∃ z ∈ before ++ [x], y.parentId = z.id := by
  induction before with
  | nil => cases hy
  | cons y' before ih =>
      have hparent : ∃ z ∈ before ++ [x], y'.parentId = z.id := by
        cases before with
        | nil =>
            cases h with
            | child _ _ hparent => exact ⟨x, List.mem_cons_self, hparent⟩
        | cons z before =>
            cases h with
            | child _ _ hparent => exact ⟨z, List.mem_cons_self, hparent⟩
      have hcons : ∀ z ∈ before ++ [x], z ∈ y' :: before ++ [x] := fun z hz =>
        List.mem_cons_of_mem _ hz
      rcases List.mem_cons.1 hy with rfl | hy
      · obtain ⟨z, hz, hid⟩ := hparent
        exact ⟨z, hcons z hz, hid⟩
      · have htail : Path entries (before ++ x :: rest) := by
          cases before with
          | nil => cases hy
          | cons z before =>
              cases h with
              | child hp _ _ => exact hp
        obtain ⟨z, hz, hid⟩ := ih htail hy
        exact ⟨z, hcons z hz, hid⟩

theorem exists_root (h : Path entries path) :
    ∃ before r, path = before ++ [r] ∧ r.parentId = 0 := by
  induction h with
  | root _ hroot => exact ⟨[], _, rfl, hroot⟩
  | @child e _ _ _ _ _ ih =>
      obtain ⟨before, r, heq, hroot⟩ := ih
      exact ⟨e :: before, r, congrArg (e :: ·) heq, hroot⟩

end Path

/-- The search ends at the first entry of the path whose parent is the one that is looked for. -/
theorem climb_eq (hforest : Forest entries) {id : ℕ} {before : List Entry} :
    ∀ {fuel : ℕ} {e : Entry} {tail : List Entry}, e :: tail = before ++ x :: rest →
      Path entries (e :: tail) → x.parentId = id → (∀ y ∈ before, y.parentId ≠ id) →
      before.length < fuel → climb entries id fuel e = some (some x) := by
  induction before with
  | nil =>
      intro fuel e tail heq _ hid _ hfuel
      obtain ⟨rfl, rfl⟩ := List.cons.inj heq
      obtain ⟨fuel, rfl⟩ := Nat.exists_eq_succ_of_ne_zero hfuel.ne'
      rw [climb, if_pos hid]
  | cons y before ih =>
      intro fuel e tail heq hpath hid hne hfuel
      obtain ⟨rfl, htail⟩ := List.cons.inj heq
      obtain ⟨fuel, rfl⟩ := Nat.exists_eq_succ_of_ne_zero (Nat.zero_lt_of_lt hfuel).ne'
      cases hpath with
      | root => simp at htail
      | @child _ p rest' hp he hparent =>
          have hp' := hp.subset List.mem_cons_self
          have hzero : e.parentId ≠ 0 := hparent ▸ hforest.ne_zero p hp'
          have hfind : find entries e.parentId = some p := hparent ▸ find_eq_some hforest.ids hp'
          rw [climb, if_neg (hne e List.mem_cons_self), if_neg hzero, hfind]
          exact ih htail hp hid (fun z hz => hne z (List.mem_cons_of_mem _ hz))
            (Nat.lt_of_succ_lt_succ hfuel)

end Path

/-! ### The value of an entry -/

section Values
variable {lua : LuaState} {entries before rest tail : List Entry} {m : VariableManager}
  {e p x a : Entry} {v v' : Option Value} {w : Value} {stack : List Value} {fuel : ℕ}

theorem Reaches.mem (h : Reaches lua entries e v) : e ∈ entries := by
  cases h with
  | root he _ => exact he
  | child _ he _ _ => exact he

/-- The value of an entry is that of its parent and of its key. -/
theorem Reaches.parent (hforest : Forest entries) (h : Reaches lua entries e v) (hp : p ∈ entries)
    (hparent : e.parentId = p.id) : ∃ v' w, Reaches lua entries p v' ∧
      follow lua e.key p.compoundVariable v' = some w ∧ v = some w := by
  cases h with
  | root _ hroot => exact absurd (hparent.symm.trans hroot) (hforest.ne_zero p hp)
  | @child p' _ v' w hp' _ hparent' hfollow =>
      obtain rfl : p' = p := key_inj hforest.ids hp'.mem hp (hparent'.symm.trans hparent)
      exact ⟨v', w, hp', hfollow, rfl⟩

theorem Reaches.unique (hforest : Forest entries) (h : Reaches lua entries e v)
    (h' : Reaches lua entries e v') : v = v' := by
  induction h generalizing v' with
  | root he hroot =>
      cases h' with
      | root _ _ => rfl
      | child hp _ hparent _ =>
          exact absurd (hparent.symm.trans hroot) (hforest.ne_zero _ hp.mem)
  | child hp _ hparent hfollow ih =>
      obtain ⟨u, w, hu, hfollow', rfl⟩ := h'.parent hforest hp.mem hparent
      rw [ih hu] at hfollow
      exact hfollow.symm.trans hfollow'

/-- The loop brings the value of the entry to the top, from that of an ancestor on. -/
theorem pushFrom_spec (h : Represents lua m) {before : List Entry} :
    ∀ {fuel : ℕ} {a : Entry} {rest : List Entry} {v : Option Value} {stack : List Value},
      e :: tail = before ++ a :: rest → Path m.compoundVariables (e :: tail) →
      Reaches lua m.compoundVariables a v → TopIs stack v → before.length < fuel →
      ∃ stack' v', pushFrom lua m.compoundVariables e fuel a stack = some stack' ∧
        Reaches lua m.compoundVariables e v' ∧ TopIs stack' v' := by
  induction before using List.reverseRecOn with
  | nil =>
      intro fuel a rest v stack heq _ hreaches htop hfuel
      obtain ⟨rfl, rfl⟩ := List.cons.inj heq
      obtain ⟨fuel, rfl⟩ := Nat.exists_eq_succ_of_ne_zero hfuel.ne'
      exact ⟨stack, v, by rw [pushFrom, if_pos rfl], hreaches, htop⟩
  | append_singleton before x ih =>
      intro fuel a rest v stack heq hpath hreaches htop hfuel
      rw [List.length_append, List.length_singleton] at hfuel
      obtain ⟨fuel, rfl⟩ := Nat.exists_eq_succ_of_ne_zero (Nat.zero_lt_of_lt hfuel).ne'
      have hforest := h.forest
      have hnodup : (before ++ [x] ++ a :: rest).Nodup := heq ▸ hpath.nodup hforest
      have heq' : e :: tail = before ++ x :: a :: rest := by
        rw [heq, List.append_assoc, List.singleton_append]
      have hsub : ∀ y ∈ before ++ [x], y ∈ m.compoundVariables := fun y hy =>
        hpath.subset (heq ▸ List.mem_append_left _ hy)
      have hid : ∀ y ∈ before ++ [x], y.id ≠ a.id := fun y hy hid => by
        obtain rfl := key_inj hforest.ids (hsub y hy) hreaches.mem hid
        exact (List.nodup_append.1 hnodup).2.2 y hy y List.mem_cons_self rfl
      -- the entry is not the ancestor, and the next one on the way to it is the first found
      have hmem : e ∈ before ++ [x] := by
        cases before with
        | nil =>
            obtain ⟨rfl, -⟩ := List.cons.inj heq
            exact List.mem_cons_self
        | cons y before =>
            obtain ⟨rfl, -⟩ := List.cons.inj heq
            exact List.mem_cons_self
      have hparent : x.parentId = a.id := by
        cases Path.suffix (heq' ▸ hpath) with
        | child _ _ hparent => exact hparent
      have hclimb : climb m.compoundVariables a.id (fuel + 1) e = some (some x) := by
        refine climb_eq hforest heq' hpath hparent (fun y hy => ?_) (Nat.lt_of_succ_lt hfuel)
        obtain ⟨z, hz, hnext⟩ := Path.next (heq' ▸ hpath) hy
        exact hnext ▸ hid z hz
      obtain ⟨u, hu, -⟩ := h.value x (hsub x (List.mem_append_right _ List.mem_cons_self))
      obtain ⟨va, w, hva, hfollow, rfl⟩ := hu.parent hforest hreaches.mem hparent
      obtain rfl := hreaches.unique hforest hva
      obtain ⟨stack', hpush, htop'⟩ := pushChildOnStack_spec htop hfollow
      obtain ⟨stack'', v', hrest, hend⟩ := ih heq' hpath hu htop' (Nat.lt_of_succ_lt_succ hfuel)
      refine ⟨stack'', v', ?_, hend⟩
      rw [pushFrom, if_neg fun heq => hid e hmem heq.symm, hclimb]
      simp only [Option.bind_eq_bind, Option.bind_some, hpush, hrest]

/-- The value of an entry comes to the top. -/
theorem pushPath_spec (h : Represents lua m) (he : e ∈ m.compoundVariables)
    (hfuel : m.compoundVariables.length ≤ fuel) (stack : List Value) :
    ∃ stack' v, pushPath lua m.compoundVariables fuel e stack = some stack' ∧
      Reaches lua m.compoundVariables e v ∧ TopIs stack' v := by
  obtain ⟨tail, hpath⟩ := (h.forest.rooted e he).exists_path
  obtain ⟨before, r, heq, hroot⟩ := hpath.exists_root
  have hlength := hpath.length_le h.forest
  rw [heq, List.length_append, List.length_singleton] at hlength
  have hlt : before.length < fuel := Nat.lt_of_lt_of_le hlength hfuel
  have hr : r ∈ m.compoundVariables :=
    hpath.subset (heq ▸ List.mem_append_right _ List.mem_cons_self)
  have hclimb : climb m.compoundVariables 0 fuel e = some (some r) := by
    refine climb_eq h.forest heq hpath hroot (fun y hy => ?_) hlt
    obtain ⟨z, hz, hnext⟩ := Path.next (heq ▸ hpath) hy
    exact hnext ▸ h.forest.ne_zero z (hpath.subset (heq ▸ hz))
  have htop : TopIs stack none := fun _ hv => nomatch hv
  obtain ⟨stack', v, hpush, hend⟩ := pushFrom_spec h heq hpath (.root hr hroot) htop hlt
  refine ⟨stack', v, ?_, hend⟩
  rw [pushPath, hclimb]
  exact hpush

end Values

/-! ### The variables that are made -/

section Creation
variable {lua : LuaState} {entries entries' new : List Entry} {m : VariableManager}
  {e parent : Entry} {child : Child} {children : List Child} {v : Variable} {id : ℕ}
  {kvs : List (ChildVariableKey × Variable)}

theorem describe_variablesReference (lua : LuaState) (value : Value) :
    (describe lua value).variablesReference = 0 := by
  cases value with
  | table ref =>
      simp only [describe]
      split <;> rfl
  | function ref =>
      simp only [describe]
      split_ifs <;> rfl
  | nil | boolean | lightUserdata | number | string | userdata | thread => rfl

theorem Shows.mono (h : Shows lua entries parent child v) (hsub : entries ⊆ entries') :
    Shows lua entries' parent child v := by
  refine ⟨h.texts, h.simple, fun registered hsome => ?_⟩
  obtain ⟨x, hx, hrest⟩ := h.compound registered hsome
  exact ⟨x, hsub hx, hrest⟩

/-- A child is shown, and registered if it has children. -/
theorem createVariable_spec
    (h : (compound lua child.value).isSome → parent.compoundVariable.asRefStorage = false) :
    ∃ kv m' new, createVariable lua parent child m = some (kv, m') ∧
      m'.compoundVariables = m.compoundVariables ++ new ∧ Shows lua new parent child kv.2 ∧
      List.Forall₂ (Registers lua parent) (compoundOf lua [child]) new := by
  cases hcompound : compound lua child.value with
  | none =>
      have hcreate : createVariable lua parent child m = some ((child.key,
          { describe lua child.value with
            name := variableName child.overrideVariableName child.key }), m) := by
        simp only [createVariable, hcompound]
      refine ⟨_, m, [], hcreate, (List.append_nil _).symm, ?_, ?_⟩
      · exact ⟨rfl, fun _ => describe_variablesReference lua child.value,
          fun registered hsome => nomatch hcompound.symm.trans hsome⟩
      · simp only [compoundOf, List.filter_singleton, hcompound, Option.isSome_none]
        exact .nil
  | some registered =>
      have hkey : getChildKey lua parent child = some child.key := by
        rw [getChildKey, h (hcompound ▸ rfl), if_neg Bool.false_ne_true]
      have hcreate : createVariable lua parent child m = some ((child.key,
          { describe lua child.value with
            name := variableName child.overrideVariableName child.key
            variablesReference := (m.emplaceBack parent.id child.key registered).1 }),
          (m.emplaceBack parent.id child.key registered).2) := by
        simp only [createVariable, hcompound, hkey, Option.map_some, ite_self]
      refine ⟨_, _, _, hcreate, rfl, ?_, ?_⟩
      · refine ⟨rfl, fun hnone => absurd (hcompound.symm.trans hnone) (Option.some_ne_none _),
        fun registered' hsome => ?_⟩
        obtain rfl := Option.some.inj (hcompound.symm.trans hsome)
        exact ⟨_, List.mem_cons_self, rfl, rfl, rfl, rfl⟩
      · simp only [compoundOf, List.filter_singleton, hcompound, Option.isSome_some]
        exact .cons ⟨rfl, rfl, hcompound⟩ .nil

/-- The children are shown, and those that have children are registered. -/
theorem createAll_spec : ∀ {children : List Child} {m : VariableManager},
    (∀ child ∈ children, (compound lua child.value).isSome →
      parent.compoundVariable.asRefStorage = false) →
    ∃ kvs m' new, createAll lua parent children m = some (kvs, m') ∧
      m'.compoundVariables = m.compoundVariables ++ new ∧
      List.Forall₂ (Shows lua new parent) children (kvs.map Prod.snd) ∧
      List.Forall₂ (Registers lua parent) (compoundOf lua children) new
  | [], m, _ => ⟨[], m, [], rfl, (List.append_nil _).symm, .nil, .nil⟩
  | child :: children, m, h => by
      obtain ⟨kv, m₁, new₁, hcreate, hentries₁, hshows, hregisters₁⟩ :=
        createVariable_spec (m := m) (h child List.mem_cons_self)
      obtain ⟨kvs, m₂, new₂, hall, hentries₂, hshows₂, hregisters₂⟩ :=
        createAll_spec (m := m₁) fun c hc => h c (List.mem_cons_of_mem _ hc)
      refine ⟨kv :: kvs, m₂, new₁ ++ new₂, ?_, ?_, ?_, ?_⟩
      · simp only [createAll, hcreate, hall, Option.bind_eq_bind, Option.bind_some]
        rfl
      · rw [hentries₂, hentries₁, List.append_assoc]
      · refine .cons (hshows.mono (List.subset_append_left _ _)) ?_
        exact hshows₂.imp fun c v hv => hv.mono (List.subset_append_right _ _)
      · rw [compoundOf, ← List.singleton_append, List.filter_append]
        exact List.rel_append hregisters₁ hregisters₂

/-- Among the children of a table there is to be none with children. -/
theorem createAll_none (hparent : parent.compoundVariable.isTable) :
    ∀ {children : List Child} {m : VariableManager},
      (∃ child ∈ children, (compound lua child.value).isSome) →
        createAll lua parent children m = none
  | [], _, h => by
      obtain ⟨_, hc, -⟩ := h
      cases hc
  | child :: children, m, h => by
      cases hcompound : compound lua child.value with
      | some registered =>
          have has : parent.compoundVariable.asRefStorage = true := by
            rw [parent.compoundVariable.asRefStorage_eq, hparent, Bool.or_true]
          have href : ¬ parent.compoundVariable.isRefStorage := fun href => by
            rw [CompoundVariable.isTable_of_isRefStorage href] at hparent
            cases hparent
          simp only [createAll, createVariable, hcompound, getChildKey, has, if_neg href]
          rfl
      | none =>
          obtain ⟨c, hc, hsome⟩ := h
          have htail : ∃ c ∈ children, (compound lua c.value).isSome := by
            rcases List.mem_cons.1 hc with rfl | hc
            · rw [hcompound] at hsome
              cases hsome
            · exact ⟨c, hc, hsome⟩
          simp only [createAll, createVariable, hcompound]
          rw [Option.bind_eq_bind, Option.bind_some, createAll_none hparent htail]
          rfl

theorem find_setChildren : find (setChildren id kvs entries) id =
    (find entries id).map fun e => { e with children := some kvs } := by
  induction entries with
  | nil => rfl
  | cons x rest ih =>
      by_cases hx : x.id = id
      · simp only [setChildren, find, hx, if_true, List.find?_cons, decide_true, Option.map_some]
      · simp only [setChildren, find, hx, if_false, List.find?_cons, decide_false]
        exact ih

theorem setChildren_append (h : ∃ e ∈ entries, e.id = id) :
    setChildren id kvs (entries ++ new) = setChildren id kvs entries ++ new := by
  induction entries with
  | nil =>
      obtain ⟨e, he, -⟩ := h
      cases he
  | cons x rest ih =>
      by_cases hx : x.id = id
      · simp only [List.cons_append, setChildren, hx, if_true]
      · have htail : ∃ e ∈ rest, e.id = id := by
          obtain ⟨e, he, hid⟩ := h
          rcases List.mem_cons.1 he with rfl | he
          · exact absurd hid hx
          · exact ⟨e, he, hid⟩
        simp only [List.cons_append, setChildren, hx, if_false, ih htail]

theorem select_all : (⟨id, []⟩ : VariablesArguments).select kvs = kvs.map Prod.snd := if_pos rfl

end Creation

/-! ### The entries that are listed -/

section Listing
variable {lua : LuaState} {m : VariableManager} {e : Entry} {stack : List Value} {fuel : ℕ}
  {v : Option Value}

/-- What has been listed is returned. -/
theorem getVariables_listed {entries : List Entry} {next : ℕ} {id : ℕ}
    {kvs : List (ChildVariableKey × Variable)}
    (h : find entries id = some e) (hkvs : e.children = some kvs) :
    (⟨entries, next⟩ : VariableManager).getVariables lua fuel ⟨id, []⟩ stack =
      some (kvs.map Prod.snd, ⟨entries, next⟩) := by
  simp only [VariableManager.getVariables, h, hkvs, select_all]

/-- The children are asked for with the value of the entry at the top. -/
theorem getVariables_asked (h : Represents lua m) (he : e ∈ m.compoundVariables)
    (hkvs : e.children = none) (hv : Reaches lua m.compoundVariables e v)
    (hfuel : m.compoundVariables.length ≤ fuel) :
    m.getVariables lua fuel ⟨e.id, []⟩ stack =
      (createAll lua e (childrenOf lua e.compoundVariable v) m).map fun r =>
        (r.1.map Prod.snd, ⟨setChildren e.id r.1 r.2.compoundVariables, r.2.nextVariableId⟩) := by
  obtain ⟨stack', v', hpush, hv', htop⟩ := pushPath_spec h he hfuel stack
  obtain rfl := hv.unique h.forest hv'
  obtain ⟨v', hv', hfits⟩ := h.value e he
  obtain rfl := hv.unique h.forest hv'
  have hfind : find m.compoundVariables e.id = some e := find_eq_some h.forest.ids he
  simp only [VariableManager.getVariables, hfind, hkvs, hpush, Option.bind_eq_bind,
    Option.bind_some, enumerate_eq hfits htop]
  cases createAll lua e (childrenOf lua e.compoundVariable v) m <;> rfl

/-- No child with children is given to a variable that is taken for a reference storage. -/
theorem asRefStorage_of_plain (h : Represents lua m) (he : e ∈ m.compoundVariables)
    (hkvs : e.children = none) (hplain : Plain lua m e)
    (hv : Reaches lua m.compoundVariables e v) :
    ∀ child ∈ childrenOf lua e.compoundVariable v, (compound lua child.value).isSome →
      e.compoundVariable.asRefStorage = false := by
  intro child hchild hsome
  rcases hplain with hlisted | htable | hnone
  · rw [hkvs] at hlisted
    cases hlisted
  · obtain ⟨v', hv', hfits⟩ := h.value e he
    obtain rfl := hv.unique h.forest hv'
    generalize e.compoundVariable = cv at *
    cases cv with
    | table => exact absurd rfl htable
    | refStorage => cases v <;> cases hchild
    | function | stackLocals | stackUpValues => rfl
  · rw [hnone v hv child hchild] at hsome
    cases hsome

theorem lists_of_listed (h : Represents lua m) (he : e ∈ m.compoundVariables)
    {kvs : List (ChildVariableKey × Variable)} (hkvs : e.children = some kvs) :
    Lists lua m e stack := by
  obtain ⟨v, hv, -⟩ := h.value e he
  have hfind : find m.compoundVariables e.id = some e := find_eq_some h.forest.ids he
  refine ⟨v, kvs.map Prod.snd, m, hv, fun fuel _ => getVariables_listed hfind hkvs,
    h.listed e he kvs hkvs v hv, fun hnone => ?_, ?_, fun fuel stack =>
      getVariables_listed hfind hkvs⟩
  · rw [hkvs] at hnone
    cases hnone
  · rw [hkvs, Option.isSome_some, if_pos rfl]

theorem lists_of_plain (h : Represents lua m) (he : e ∈ m.compoundVariables)
    (hkvs : e.children = none) (hplain : Plain lua m e) : Lists lua m e stack := by
  obtain ⟨stack', v, hpush, hv, htop⟩ := pushPath_spec h he (Nat.le_refl _) stack
  obtain ⟨kvs, m', new, hall, hentries, hshows, hregisters⟩ :=
    createAll_spec (asRefStorage_of_plain h he hkvs hplain hv)
  have hfind : find m.compoundVariables e.id = some e := find_eq_some h.forest.ids he
  have happend : setChildren e.id kvs m'.compoundVariables =
      setChildren e.id kvs m.compoundVariables ++ new := by
    rw [hentries, setChildren_append ⟨e, he, rfl⟩]
  refine ⟨v, kvs.map Prod.snd, ⟨setChildren e.id kvs m'.compoundVariables, m'.nextVariableId⟩, hv,
    fun fuel hfuel => ?_, ?_, fun _ => ⟨stack', hpush, htop⟩, ?_, fun fuel stack => ?_⟩
  · rw [getVariables_asked h he hkvs hv hfuel, hall, Option.map_some]
  · refine hshows.imp fun child v hv => hv.mono ?_
    rw [happend]
    exact List.subset_append_right _ _
  · rw [hkvs, Option.isSome_none, if_neg Bool.false_ne_true]
    exact ⟨kvs, new, happend, hregisters⟩
  · have hfind' : find m'.compoundVariables e.id = some e := by
      rw [find] at hfind ⊢
      rw [hentries, List.find?_append, hfind, Option.some_or]
    refine getVariables_listed (e := { e with children := some kvs }) ?_ rfl
    rw [find_setChildren, hfind', Option.map_some]

/-- **The children of a variable** are listed, from the value that the keys of its ancestors lead
to, when it is not a table one of whose fields has children itself, and in no other case. -/
theorem lists_iff (h : Represents lua m) (he : e ∈ m.compoundVariables) (stack : List Value) :
    Lists lua m e stack ↔ Plain lua m e := by
  cases hkvs : e.children with
  | some kvs => exact iff_of_true (lists_of_listed h he hkvs) (.inl (by rw [hkvs]; rfl))
  | none =>
      refine ⟨?_, lists_of_plain h he hkvs⟩
      rintro ⟨v, listed, m', hlisting⟩
      by_cases htable : e.compoundVariable.isTable
      · refine .inr (.inr fun v' hv' child hchild => ?_)
        by_contra hsome
        have hreturns := hlisting.returns _ (Nat.le_refl _)
        rw [getVariables_asked h he hkvs hv' (Nat.le_refl _),
          createAll_none htable ⟨child, hchild, Option.isSome_iff_ne_none.2 hsome⟩] at hreturns
        cases hreturns
      · exact .inr (.inl htable)

end Listing

/-! ### Two forests -/

def point : LuaTable where
  fields := [(.integer 1, .number "1.000000".toList), (.string "x".toList, .boolean true)]
  distinct := by decide
  range := by
    intro i value hmem
    simp only [List.mem_cons, Prod.mk.injEq, LuaKey.integer.injEq, reduceCtorEq, false_and,
      List.not_mem_nil, or_false] at hmem
    rw [hmem.1]
    decide

def methods : LuaTable where
  fields := [(.string "f".toList, .function 0)]
  distinct := by decide
  range := by
    intro i value hmem
    simp at hmem

/-- A frame with a function `f`, whose upvalues are a number and a table, and a table that has the
function in a field. -/
def stoppedLua : LuaState where
  tables ref := if ref = 0 then point else methods
  functions _ :=
    ⟨"Lua".toList, [("n".toList, .number "2.000000".toList), ("p".toList, .table 0)]⟩
  locals _ := [("f".toList, .function 0), ("m".toList, .table 1)]
  callee _ := 0
  refs _ := .nil
  keepReference _ := 1

def rootEntry : Entry := ⟨1, 0, {}, .stackLocals 0, none⟩

def functionEntry : Entry := ⟨2, 1, ⟨1, []⟩, .function, none⟩

def methodsEntry : Entry := ⟨3, 1, ⟨2, []⟩, .table [] ["f".toList], none⟩

def stopped : VariableManager := ⟨[functionEntry, rootEntry, methodsEntry], 3⟩

theorem represents_stopped : Represents stoppedLua stopped := by
  have hroot : Rooted stopped.compoundVariables rootEntry := .root (by decide) rfl
  have hreaches : Reaches stoppedLua stopped.compoundVariables rootEntry none :=
    .root (by decide) rfl
  have hcases : ∀ e ∈ stopped.compoundVariables, e = functionEntry ∨ e = rootEntry ∨
      e = methodsEntry := by
    intro e he
    simpa [stopped] using he
  refine ⟨⟨by decide, by decide, fun e he => ?_⟩, fun e he => ?_, fun e he kvs hkvs => ?_⟩
  · rcases hcases e he with rfl | rfl | rfl
    · exact .child hroot (by decide) rfl
    · exact hroot
    · exact .child hroot (by decide) rfl
  · rcases hcases e he with rfl | rfl | rfl
    · exact ⟨some (.function 0), .child hreaches (by decide) rfl rfl, trivial⟩
    · exact ⟨none, hreaches, trivial⟩
    · exact ⟨some (.table 1), .child hreaches (by decide) rfl rfl, rfl, rfl⟩
  · rcases hcases e he with rfl | rfl | rfl <;> cases hkvs

/-- The upvalues of the function, one of which is a table with fields. -/
theorem lists_functionEntry : Lists stoppedLua stopped functionEntry [.nil] :=
  (lists_iff represents_stopped (by decide) [.nil]).2 (.inr (.inl (by decide)))

/-- The field of the table is a function with upvalues. -/
theorem not_lists_methodsEntry : Represents stoppedLua stopped ∧
    methodsEntry ∈ stopped.compoundVariables ∧
      Reaches stoppedLua stopped.compoundVariables methodsEntry (some (.table 1)) ∧
        stopped.getVariables stoppedLua 3 ⟨3, []⟩ [] = none ∧
          ¬ Lists stoppedLua stopped methodsEntry [] := by
  have hnone : stopped.getVariables stoppedLua 3 ⟨3, []⟩ [] = none := rfl
  refine ⟨represents_stopped, by decide, ?_, hnone, ?_⟩
  · exact .child (.root (by decide : rootEntry ∈ _) rfl) (by decide) rfl rfl
  · rintro ⟨v, listed, m', h⟩
    cases hnone.symm.trans (h.returns 3 (by decide))

end MyEngine.Lua.Variables
