import Mathlib.Data.Int.Notation
import Mathlib.Data.List.Nodup
import MyEngine.Support.Assoc
import MyEngine.Support.Links
import MyEngine.Support.Runs

/-!
# Lua — References

The values a debugger keeps in the table `refs` of its state in Lua, of `lua_debugger_state.cpp`,
under the numbers of Lua's `lauxlib.c`.

* `luaLRef`, `luaLUnref`: a number is given out, and goes to a list of free ones that is threaded
  through the table itself.
* `State.keepReference`, `State.getReference`, `State.releaseReference`: with the stack of Lua.
* `Kept`: the table is that of the values that are kept, and of a list of free numbers.
* `references_kept`: what is kept is read back for as long as it is not released.
* `released_twice_iff`: the numbers that a release leaves to be given out once.
-/

namespace MyEngine.Lua.References

open MyEngine.Links MyEngine.Runs Support

variable {V : Type}

/-! ### Tables -/

/-- `debuggerState` is the table in the global `__my_DebugSession`, `refs` the one in its field. -/
inductive LuaValue (V : Type) where
  | nil
  | integer (n : ℤ)
  | debuggerState
  | refs
  | other (v : V)
  deriving DecidableEq, Repr

namespace LuaValue

def isNil : LuaValue V → Bool
  | .nil => true
  | _    => false

/-- `lua_tointeger`: 0 for what is no integer. -/
def tointeger : LuaValue V → ℤ
  | .integer n => n
  | _          => 0

@[simp] theorem isNil_iff {v : LuaValue V} : v.isNil = true ↔ v = .nil := by
  cases v <;> simp [isNil]

end LuaValue

/-- The integer keys of a table. -/
abbrev Table (V : Type) := List (ℤ × LuaValue V)

def rawgeti (t : Table V) (n : ℤ) : LuaValue V := (t.lookup n).getD .nil

def rawseti (t : Table V) (n : ℤ) (v : LuaValue V) : Table V := put n v t

@[simp] theorem rawgeti_rawseti_self (t : Table V) (n : ℤ) (v : LuaValue V) :
    rawgeti (rawseti t n v) n = v := by
  simp only [rawgeti, rawseti, lookup_put_self, Option.getD_some]

theorem rawgeti_rawseti_of_ne {n m : ℤ} (h : m ≠ n) (t : Table V) (v : LuaValue V) :
    rawgeti (rawseti t n v) m = rawgeti t m := by
  simp only [rawgeti, rawseti, lookup_put_of_ne h]

/-- What `lua_rawlen` may answer: any border, as the manual of Lua calls it. -/
def Border (t : Table V) (n : ℕ) : Prop :=
  (n = 0 ∨ rawgeti t n ≠ .nil) ∧ rawgeti t (n + 1) = .nil

/-- No key is larger. -/
def bound : Table V → ℕ
  | []         => 0
  | entry :: t => max entry.1.toNat (bound t)

theorem rawgeti_of_bound_lt {t : Table V} {n : ℤ} (h : bound t < n) : rawgeti t n = .nil := by
  induction t with
  | nil => rfl
  | cons entry t ih =>
      rw [bound] at h
      have hne : n ≠ entry.1 := by omega
      rw [rawgeti, lookup_cons_of_ne hne entry.2]
      exact ih (by omega)

/-- The least border. -/
def firstBorder (t : Table V) : ℕ :=
  ((List.range (bound t + 1)).find? fun (n : ℕ) => (rawgeti t (n + 1)).isNil).getD 0

theorem border_firstBorder (t : Table V) : Border t (firstBorder t) := by
  have hsome : ((List.range (bound t + 1)).find? fun (n : ℕ) =>
      (rawgeti t (n + 1)).isNil).isSome := by
    refine List.find?_isSome.2 ⟨bound t, List.mem_range.2 (Nat.lt_succ_self _), ?_⟩
    exact LuaValue.isNil_iff.2 (rawgeti_of_bound_lt (by omega))
  obtain ⟨n, hn⟩ := Option.isSome_iff_exists.1 hsome
  obtain ⟨hnil, -, hleast⟩ := List.find?_range_eq_some.1 hn
  rw [firstBorder, hn, Option.getD_some]
  refine ⟨?_, LuaValue.isNil_iff.1 hnil⟩
  cases n with
  | zero => exact .inl rfl
  | succ n =>
      refine .inr fun hcontra => ?_
      have hn := hleast n (Nat.lt_succ_self n)
      rw [LuaValue.isNil_iff.2 (by exact_mod_cast hcontra)] at hn
      cases hn

/-! ### `lauxlib.c` -/

/-- `LUA_RIDX_LAST + 1`. -/
def freelist : ℤ := 3

def refNil : ℤ := -1

/-- `luaL_ref`, of a value that it takes off the stack. -/
def luaLRef (rawlen : Table V → ℕ) (t : Table V) (value : LuaValue V) : ℤ × Table V :=
  if value.isNil then (refNil, t)
  else
    let ref := (rawgeti t freelist).tointeger
    let t := if (rawgeti t freelist).isNil then rawseti t freelist (.integer 0) else t
    if ref ≠ 0 then (ref, rawseti (rawseti t freelist (rawgeti t ref)) ref value)
    else (rawlen t + 1, rawseti t (rawlen t + 1) value)

def luaLUnref (t : Table V) (ref : ℤ) : Table V :=
  if 0 ≤ ref then rawseti (rawseti t ref (rawgeti t freelist)) freelist (.integer ref) else t

/-! ### The state of the debugger -/

/-- The stack, its top first, and the table `refs`. -/
structure State (V : Type) where
  stack : List (LuaValue V) := []
  refs : Table V := []
  deriving DecidableEq, Repr

namespace State

def push (s : State V) (v : LuaValue V) : State V := { s with stack := v :: s.stack }

def pop (s : State V) (n : ℕ) : State V := { s with stack := s.stack.drop n }

/-- What stands at an index, that counts from the bottom or, if it is negative, from the top. -/
def value (s : State V) (index : ℤ) : LuaValue V :=
  if 0 < index then (s.stack.reverse[(index - 1).toNat]?).getD .nil
  else (s.stack[(-index - 1).toNat]?).getD .nil

/-- `lua_remove(l, -2)`. -/
def removeSecond (s : State V) : State V := { s with stack := s.stack.take 1 ++ s.stack.drop 2 }

def keepReference (rawlen : Table V → ℕ) (s : State V) : ℤ × State V :=
  let s := (s.push .debuggerState).push .refs
  let s := s.push (s.value (-3))
  let (refId, refs) := luaLRef rawlen s.refs (s.value (-1))
  -- the value that `luaL_ref` takes; then `refs`, the state and the value itself
  (refId, ({ s with refs := refs }.pop 1).pop 3)

def getReference (s : State V) (refId : ℤ) : State V :=
  let s := (s.push .debuggerState).push .refs
  let s := s.push (rawgeti s.refs refId)
  s.removeSecond.removeSecond

def releaseReference (s : State V) (refId : ℤ) : State V :=
  let top := s.stack
  let s := (s.push .debuggerState).push .refs
  { s with refs := luaLUnref s.refs refId, stack := top }

/-- `RefStorageVariableImpl::Ref`. -/
def ref (rawlen : Table V → ℕ) (s : State V) (stackIndex : ℤ) : ℤ × State V :=
  (s.push (s.value stackIndex)).keepReference rawlen

/-- `RefStorageVariableImpl::Unref`. -/
def unref (s : State V) (refId : ℤ) : State V := s.releaseReference refId

/-- `RefStorageVariableImpl::PushChildOnStack`. -/
def pushChildOnStack (s : State V) (key : ℤ) : Bool × State V :=
  let s := s.getReference key
  if (s.value (-1)).isNil then (false, s.pop 1) else (true, s)

variable (s : State V)

theorem ref_eq (rawlen : Table V → ℕ) (stackIndex : ℤ) :
    s.ref rawlen stackIndex = ((luaLRef rawlen s.refs (s.value stackIndex)).1,
      { s with refs := (luaLRef rawlen s.refs (s.value stackIndex)).2 }) := rfl

theorem unref_eq (refId : ℤ) : s.unref refId = { s with refs := luaLUnref s.refs refId } := rfl

theorem pushChildOnStack_eq (key : ℤ) :
    s.pushChildOnStack key = if (rawgeti s.refs key).isNil then (false, s)
      else (true, s.push (rawgeti s.refs key)) := rfl

end State

/-! ### The list of free numbers -/

/-- The number that comes behind `r` in the list of the free ones. -/
def link (t : Table V) (r : ℤ) : Option ℤ :=
  if (rawgeti t r).tointeger = 0 then none else some (rawgeti t r).tointeger

theorem link_congr {t t' : Table V} {r r' : ℤ} (h : rawgeti t' r' = rawgeti t r) :
    link t' r' = link t r := by
  simp only [link, h]

theorem link_some {t : Table V} {r n : ℤ} (h : link t r = some n) :
    (rawgeti t r).tointeger = n ∧ n ≠ 0 := by
  unfold link at h
  split at h
  · cases h
  · next hne => exact ⟨Option.some.inj h, Option.some.inj h ▸ hne⟩

theorem link_none {t : Table V} {r : ℤ} (h : link t r = none) : (rawgeti t r).tointeger = 0 := by
  unfold link at h
  split at h
  · assumption
  · cases h

/-- The table is that of the values that are kept, with the numbers of `free` to be given out. -/
structure Kept (t : Table V) (held : List (ℤ × LuaValue V)) (free : List ℤ) : Prop where
  read : ∀ {r v}, (r, v) ∈ held → rawgeti t r = v ∧ v ≠ .nil
  chain : Seg (link t) (link t freelist) free none
  filled : ∀ r ∈ free, rawgeti t r ≠ .nil
  nodup : (held.map Prod.fst ++ free).Nodup
  range : ∀ r ∈ held.map Prod.fst ++ free, 0 < r ∧ r ≠ freelist

namespace Kept

variable {t : Table V} {held : List (ℤ × LuaValue V)} {free : List ℤ} {v : LuaValue V} {r : ℤ}

theorem nil : Kept ([] : Table V) [] [] where
  read h := absurd h List.not_mem_nil
  chain := rfl
  filled _ h := absurd h List.not_mem_nil
  nodup := List.nodup_nil
  range _ h := absurd h List.not_mem_nil

theorem key_mem (h : (r, v) ∈ held) : r ∈ held.map Prod.fst := List.mem_map_of_mem h

theorem mem_left (h : r ∈ held.map Prod.fst) : r ∈ held.map Prod.fst ++ free :=
  List.mem_append_left _ h

theorem mem_right (h : r ∈ free) : r ∈ held.map Prod.fst ++ free := List.mem_append_right _ h

/-- The free list is not where a value is kept. -/
theorem notMem_free (h : Kept t held free) (hr : r ∈ held.map Prod.fst) : r ∉ free :=
  fun hfree => (List.nodup_append.1 h.nodup).2.2 r hr r hfree rfl

/-- The table may change outside the numbers it is about. -/
theorem congr {t' : Table V} (h : Kept t held free)
    (hhead : link t' freelist = link t freelist)
    (hsame : ∀ r ∈ held.map Prod.fst ++ free, rawgeti t' r = rawgeti t r) : Kept t' held free where
  read hmem := by
    rw [hsame _ (mem_left (key_mem hmem))]
    exact h.read hmem
  chain := by
    rw [hhead]
    exact h.chain.congr fun r hr => link_congr (hsame r (mem_right hr))
  filled r hr := by
    rw [hsame r (mem_right hr)]
    exact h.filled r hr
  nodup := h.nodup
  range := h.range

/-- A number that nothing is under is taken for a value. -/
theorem add (h : Kept t held []) (hv : v ≠ .nil) (hnil : rawgeti t r = .nil) (hr : 0 < r)
    (hne : r ≠ freelist) : Kept (rawseti t r v) (held ++ [(r, v)]) [] := by
  have hnew : r ∉ held.map Prod.fst := by
    intro hmem
    obtain ⟨⟨r, w⟩, hw, rfl⟩ := List.mem_map.1 hmem
    exact (h.read hw).2 ((h.read hw).1.symm.trans hnil)
  have hkeys : (held ++ [(r, v)]).map Prod.fst = held.map Prod.fst ++ [r] := List.map_append
  have hnodup := List.append_nil (held.map Prod.fst) ▸ h.nodup
  refine ⟨fun {r' w} hmem => ?_, ?_, fun r hr => absurd hr List.not_mem_nil, ?_, fun r' hr' => ?_⟩
  · rcases List.mem_append.1 hmem with hmem | hmem
    · have hne' : r' ≠ r := fun heq => hnew (heq ▸ key_mem hmem)
      rw [rawgeti_rawseti_of_ne hne']
      exact h.read hmem
    · obtain ⟨rfl, rfl⟩ := Prod.mk.inj (List.mem_singleton.1 hmem)
      exact ⟨rawgeti_rawseti_self t r' w, hv⟩
  · exact (link_congr (rawgeti_rawseti_of_ne hne.symm t v)).trans h.chain
  · rw [List.append_nil, hkeys]
    exact hnodup.append (List.nodup_singleton r) (List.disjoint_singleton.2 hnew)
  · rw [List.append_nil, hkeys, List.mem_append, List.mem_singleton] at hr'
    rcases hr' with hr' | rfl
    · exact h.range r' (mem_left hr')
    · exact ⟨hr, hne⟩

/-- The first of the free numbers is taken for a value. -/
theorem reuse (h : Kept t held (r :: free)) (hv : v ≠ .nil) :
    Kept (rawseti (rawseti t freelist (rawgeti t r)) r v) (held ++ [(r, v)]) free := by
  have hkeys : (held ++ [(r, v)]).map Prod.fst = held.map Prod.fst ++ [r] := List.map_append
  have hne : r ≠ freelist := (h.range r (mem_right List.mem_cons_self)).2
  have hold : ∀ r' ∈ held.map Prod.fst ++ free, r' ≠ r := by
    rintro r' hr' rfl
    exact (List.nodup_middle.1 h.nodup).notMem hr'
  have hsame : ∀ r' ∈ held.map Prod.fst ++ free,
      rawgeti (rawseti (rawseti t freelist (rawgeti t r)) r v) r' = rawgeti t r' := by
    intro r' hr'
    have hrange : r' ≠ freelist := by
      refine (h.range r' ?_).2
      rcases List.mem_append.1 hr' with hr' | hr'
      · exact mem_left hr'
      · exact mem_right (List.mem_cons_of_mem _ hr')
    rw [rawgeti_rawseti_of_ne (hold r' hr'), rawgeti_rawseti_of_ne hrange]
  have hhead : link (rawseti (rawseti t freelist (rawgeti t r)) r v) freelist = link t r :=
    link_congr (by rw [rawgeti_rawseti_of_ne hne.symm, rawgeti_rawseti_self])
  refine ⟨fun {r' w} hmem => ?_, ?_, fun r' hr' => ?_, ?_, fun r' hr' => ?_⟩
  · rcases List.mem_append.1 hmem with hmem | hmem
    · rw [hsame r' (mem_left (key_mem hmem))]
      exact h.read hmem
    · obtain ⟨rfl, rfl⟩ := Prod.mk.inj (List.mem_singleton.1 hmem)
      exact ⟨rawgeti_rawseti_self _ r' w, hv⟩
  · rw [hhead]
    exact h.chain.2.congr fun r' hr' => link_congr (hsame r' (mem_right hr'))
  · rw [hsame r' (mem_right hr')]
    exact h.filled r' (List.mem_cons_of_mem _ hr')
  · rw [hkeys, List.append_assoc]
    exact h.nodup
  · rw [hkeys, List.append_assoc] at hr'
    exact h.range r' hr'

/-- A value is given up, and its number is the first of the free ones. -/
theorem unref (h : Kept t held free) (hr : r ∈ held.map Prod.fst)
    (hinit : rawgeti t freelist ≠ .nil) :
    Kept (luaLUnref t r) (held.filter fun entry => entry.1 ≠ r) (r :: free) := by
  obtain ⟨hpos, hne⟩ := h.range r (mem_left hr)
  have hsub : (held.filter fun entry => entry.1 ≠ r).map Prod.fst ⊆ held.map Prod.fst :=
    List.map_subset _ (List.filter_subset_self _)
  have hout : r ∉ (held.filter fun entry => entry.1 ≠ r).map Prod.fst := by
    intro hmem
    obtain ⟨entry, hentry, hkey⟩ := List.mem_map.1 hmem
    exact of_decide_eq_true (List.mem_filter.1 hentry).2 hkey
  have heq : luaLUnref t r = rawseti (rawseti t r (rawgeti t freelist)) freelist (.integer r) :=
    if_pos (Int.le_of_lt hpos)
  have hself : rawgeti (luaLUnref t r) r = rawgeti t freelist := by
    rw [heq, rawgeti_rawseti_of_ne hne, rawgeti_rawseti_self]
  have hsame : ∀ r' ∈ held.map Prod.fst ++ free, r' ≠ r →
      rawgeti (luaLUnref t r) r' = rawgeti t r' := by
    intro r' hr' hr'r
    rw [heq, rawgeti_rawseti_of_ne (h.range r' hr').2, rawgeti_rawseti_of_ne hr'r]
  have hfree : ∀ r' ∈ free, r' ≠ r := fun r' hr' hr'r => h.notMem_free hr (hr'r ▸ hr')
  refine ⟨fun {r' w} hmem => ?_, ⟨?_, ?_⟩, fun r' hr' => ?_, ?_, fun r' hr' => ?_⟩
  · obtain ⟨hmem, hr'⟩ := List.mem_filter.1 hmem
    rw [hsame r' (mem_left (key_mem hmem)) (of_decide_eq_true hr')]
    exact h.read hmem
  · have hlist : (rawgeti (luaLUnref t r) freelist).tointeger = r := by
      rw [heq, rawgeti_rawseti_self]
      rfl
    rw [link, hlist, if_neg (Int.ne_of_gt hpos)]
  · rw [link_congr hself]
    exact h.chain.congr fun r' hr' => link_congr (hsame r' (mem_right hr') (hfree r' hr'))
  · rcases List.mem_cons.1 hr' with rfl | hr'
    · rw [hself]
      exact hinit
    · rw [hsame r' (mem_right hr') (hfree r' hr')]
      exact h.filled r' hr'
  · refine List.nodup_middle.2 (List.nodup_cons.2 ⟨?_, ?_⟩)
    · rw [List.mem_append]
      rintro (hmem | hmem)
      · exact hout hmem
      · exact hfree r hmem rfl
    · exact h.nodup.sublist ((List.filter_sublist.map _).append_right free)
  · rcases List.mem_append.1 hr' with hr' | hr'
    · exact h.range r' (mem_left (hsub hr'))
    · rcases List.mem_cons.1 hr' with rfl | hr'
      · exact ⟨hpos, hne⟩
      · exact h.range r' (mem_right hr')

/-- `luaL_ref` takes the first free number, or one that nothing is under. -/
theorem ref {rawlen : Table V → ℕ} (hrawlen : ∀ t, Border t (rawlen t)) (h : Kept t held free)
    (hv : v ≠ .nil) : ∃ r free', (luaLRef rawlen t v).1 = r ∧
      Kept (luaLRef rawlen t v).2 (held ++ [(r, v)]) free' ∧
      rawgeti (luaLRef rawlen t v).2 freelist ≠ .nil ∧
      (free = r :: free' ∨ free = [] ∧ free' = [] ∧ rawgeti t r = .nil) := by
  have hnil : ¬ v.isNil = true := fun hnil => hv (LuaValue.isNil_iff.1 hnil)
  -- the table with a list, that may be an empty one
  have hinit : ∃ t₁, t₁ = (if (rawgeti t freelist).isNil then rawseti t freelist (.integer 0)
      else t) ∧ Kept t₁ held free ∧ rawgeti t₁ freelist ≠ .nil ∧
      (rawgeti t₁ freelist).tointeger = (rawgeti t freelist).tointeger ∧
      ∀ r, r ≠ freelist → rawgeti t₁ r = rawgeti t r := by
    refine ⟨_, rfl, ?_⟩
    split
    · next hfirst =>
      have hzero : (rawgeti t freelist).tointeger = 0 := by rw [LuaValue.isNil_iff.1 hfirst]; rfl
      refine ⟨h.congr ?_ fun r hr => rawgeti_rawseti_of_ne (h.range r hr).2 .., ?_, ?_,
        fun r hr => rawgeti_rawseti_of_ne hr ..⟩
      · rw [link, link, hzero, rawgeti_rawseti_self]
        rfl
      · rw [rawgeti_rawseti_self]
        intro hcontra
        cases hcontra
      · rw [hzero, rawgeti_rawseti_self]
        rfl
    · next hfirst =>
      exact ⟨h, fun hnil => hfirst (LuaValue.isNil_iff.2 hnil), rfl, fun _ _ => rfl⟩
  obtain ⟨t₁, ht₁, h₁, hset, hhead, hsame⟩ := hinit
  simp only [luaLRef, if_neg hnil, ← ht₁]
  split
  case isTrue hne =>
      -- the head of the list is a free number
      have hlink : link t₁ freelist = some (rawgeti t freelist).tointeger := by
        rw [link, hhead, if_neg hne]
      cases hfree : free with
      | nil =>
          have hchain := h₁.chain
          rw [hfree, hlink] at hchain
          cases hchain
      | cons r free' =>
          rw [hfree] at h₁
          obtain rfl := Option.some.inj (hlink.symm.trans h₁.chain.1)
          have hr := h₁.range _ (mem_right List.mem_cons_self)
          refine ⟨_, free', rfl, h₁.reuse hv, ?_, .inl rfl⟩
          rw [rawgeti_rawseti_of_ne hr.2.symm, rawgeti_rawseti_self]
          exact h₁.filled _ List.mem_cons_self
  case isFalse hzero =>
      have hlink : link t₁ freelist = none := by
        rw [link, hhead, if_pos (not_not.1 hzero)]
      cases hfree : free with
      | cons r free' =>
          have hchain := h₁.chain
          rw [hfree, hlink] at hchain
          cases hchain.1
      | nil =>
          rw [hfree] at h₁
          have hborder := (hrawlen t₁).2
          have hne : (rawlen t₁ + 1 : ℤ) ≠ freelist := by
            intro heq
            exact hset (heq ▸ hborder)
          refine ⟨_, [], rfl, h₁.add hv hborder (by omega) hne, ?_,
            .inr ⟨rfl, rfl, (hsame _ hne).symm.trans hborder⟩⟩
          rw [rawgeti_rawseti_of_ne hne.symm]
          exact hset

end Kept

/-! ### Runs -/

/-- What is asked of the storage, and what Lua does with its stack between. -/
inductive Call (V : Type) where
  | push (v : LuaValue V)
  | pop (n : ℕ)
  | ref (stackIndex : ℤ)
  | unref (refId : ℤ)
  | pushChildOnStack (key : ℤ)
  deriving DecidableEq, Repr

/-- The state, with the numbers that are held, for what, and those that were ever given out. -/
structure History (V : Type) where
  state : State V := {}
  held : List (ℤ × LuaValue V) := []
  given : List ℤ := []
  deriving DecidableEq, Repr

/-- `KeepReference` is not to be called for nothing. -/
def step (rawlen : Table V → ℕ) (h : History V) : Call V → Option (History V)
  | .push v               => some { h with state := h.state.push v }
  | .pop n                => some { h with state := h.state.pop n }
  | .ref stackIndex       =>
      if (h.state.value stackIndex).isNil then none
      else
        let (refId, state) := h.state.ref rawlen stackIndex
        some {
          state := state
          held := h.held ++ [(refId, h.state.value stackIndex)]
          given := refId :: h.given }
  | .unref refId          => some { h with
      state := h.state.unref refId
      held := h.held.filter fun entry => entry.1 ≠ refId }
  | .pushChildOnStack key => some { h with state := (h.state.pushChildOnStack key).2 }

theorem step_ref {rawlen : Table V → ℕ} {h h' : History V} {stackIndex : ℤ}
    (hs : step rawlen h (.ref stackIndex) = some h') :
    h.state.value stackIndex ≠ .nil ∧
      h' = {
        state := (h.state.ref rawlen stackIndex).2
        held := h.held ++ [((h.state.ref rawlen stackIndex).1, h.state.value stackIndex)]
        given := (h.state.ref rawlen stackIndex).1 :: h.given } := by
  rw [step] at hs
  split at hs
  · cases hs
  · next hnil => exact ⟨fun hv => hnil (LuaValue.isNil_iff.2 hv), (Option.some.inj hs).symm⟩

/-- A reference that is given up is held. -/
def Owned (h : History V) : Call V → Prop
  | .unref refId => refId ∈ h.held.map Prod.fst
  | _            => True

instance : DecidablePred (fun call : Call V => Owned h call) :=
  fun call => match call with
    | .unref _ => inferInstanceAs (Decidable (_ ∈ _))
    | .push _ | .pop _ | .ref _ | .pushChildOnStack _ => inferInstanceAs (Decidable True)

/-- A number that was given out is held or free. -/
def Tracked (h : History V) : Prop :=
  ∃ free, Kept h.state.refs h.held free ∧
    (rawgeti h.state.refs freelist = .nil → h.held = []) ∧
    ∀ id ∈ h.given, id ∈ h.held.map Prod.fst ++ free

theorem tracked_init : Tracked ({} : History V) :=
  ⟨[], Kept.nil, fun _ => rfl, fun _ h => absurd h List.not_mem_nil⟩

theorem Tracked.step {rawlen : Table V → ℕ} (hrawlen : ∀ t, Border t (rawlen t))
    {h h' : History V} {call : Call V} (ht : Tracked h) (hok : Owned h call)
    (hs : step rawlen h call = some h') : Tracked h' := by
  obtain ⟨free, hkept, hinit, hgiven⟩ := ht
  cases call with
  | push v =>
      cases hs
      exact ⟨free, hkept, hinit, hgiven⟩
  | pop n =>
      cases hs
      exact ⟨free, hkept, hinit, hgiven⟩
  | pushChildOnStack key =>
      cases hs
      rw [State.pushChildOnStack_eq]
      split
      all_goals exact ⟨free, hkept, hinit, hgiven⟩
  | ref stackIndex =>
      obtain ⟨hv, rfl⟩ := step_ref hs
      obtain ⟨r, free', hr, hkept', hset, hfree⟩ := hkept.ref hrawlen hv
      rw [State.ref_eq, hr]
      refine ⟨free', hkept', fun hcontra => absurd hcontra hset, fun id hid => ?_⟩
      rw [List.map_append, List.append_assoc, List.mem_append]
      rcases List.mem_cons.1 hid with rfl | hid
      · exact .inr List.mem_cons_self
      · refine (List.mem_append.1 (hgiven id hid)).imp_right fun hid => ?_
        rcases hfree with rfl | ⟨rfl, -⟩
        · exact hid
        · exact absurd hid List.not_mem_nil
  | unref refId =>
      cases hs
      have hset : rawgeti h.state.refs freelist ≠ .nil := by
        intro hnil
        rw [Owned, hinit hnil] at hok
        exact absurd hok List.not_mem_nil
      refine ⟨refId :: free, hkept.unref hok hset, fun hnil => ?_, fun id hid => ?_⟩
      · have hpos := (hkept.range refId (Kept.mem_left hok)).1
        rw [State.unref_eq, luaLUnref, if_pos (Int.le_of_lt hpos), rawgeti_rawseti_self] at hnil
        cases hnil
      · rw [List.mem_append, List.mem_cons]
        by_cases hne : id = refId
        · exact .inr (.inl hne)
        · rcases List.mem_append.1 (hgiven id hid) with hid | hid
          · obtain ⟨entry, hentry, rfl⟩ := List.mem_map.1 hid
            refine .inl (List.mem_map_of_mem (List.mem_filter.2 ⟨hentry, ?_⟩))
            exact decide_eq_true hne
          · exact .inr (.inr hid)

theorem tracked {rawlen : Table V → ℕ} (hrawlen : ∀ t, Border t (rawlen t)) {calls : List (Call V)}
    {h : History V} (hok : Allowed (step rawlen) Owned {} calls)
    (hrun : exec (step rawlen) {} calls = some h) : Tracked h :=
  (exec_steps hok hrun).invariant (fun ht ha hs => ht.step hrawlen ha hs) tracked_init

/-- **References.**  At any time, what is held is read back, and what is kept next gets a number
that is not held, with the stack left as it was; as long as only what is held is released. -/
theorem references_kept {rawlen : Table V → ℕ} (hrawlen : ∀ t, Border t (rawlen t))
    {calls : List (Call V)} {h : History V} (hok : Allowed (step rawlen) Owned {} calls)
    (hrun : exec (step rawlen) {} calls = some h) :
    (h.held.map Prod.fst).Nodup ∧
    (∀ id v, (id, v) ∈ h.held → h.state.pushChildOnStack id = (true, h.state.push v)) ∧
    ∀ stackIndex, h.state.value stackIndex ≠ .nil →
      (h.state.ref rawlen stackIndex).1 ∉ h.held.map Prod.fst ∧
      (h.state.ref rawlen stackIndex).2.stack = h.state.stack := by
  obtain ⟨free, hkept, -, -⟩ := tracked hrawlen hok hrun
  refine ⟨(List.nodup_append.1 hkept.nodup).1, fun id v hmem => ?_, fun stackIndex hv => ?_⟩
  · obtain ⟨hread, hv⟩ := hkept.read hmem
    rw [State.pushChildOnStack_eq, hread, if_neg (fun hnil => hv (LuaValue.isNil_iff.1 hnil))]
  · obtain ⟨r, free', hr, hkept', -⟩ := hkept.ref hrawlen hv
    rw [State.ref_eq, hr]
    refine ⟨fun hmem => ?_, rfl⟩
    have hnodup := (List.nodup_append.1 hkept'.nodup).1
    rw [List.map_append] at hnodup
    exact (List.nodup_append.1 hnodup).2.2 r hmem r List.mem_cons_self rfl

/-- Two values are kept and released, and a third one that gets a number of theirs. -/
def kept₁ : List (Call ℕ) :=
  [.push (.other 7), .ref (-1), .ref 1, .unref 2, .unref 1, .push (.other 8), .ref (-1)]

def history₁ : History ℕ where
  state := ⟨[.other 8, .other 7], [(3, .integer 2), (1, .other 8), (2, .integer 0)]⟩
  held := [(1, .other 8)]
  given := [1, 2, 1]

theorem kept₁_allowed : Allowed (step firstBorder) Owned {} kept₁ := by decide

theorem kept₁_run : exec (step firstBorder) {} kept₁ = some history₁ := by decide

theorem references_kept_again :
    history₁.state.pushChildOnStack 1 = (true, history₁.state.push (.other 8)) :=
  (references_kept border_firstBorder kept₁_allowed kept₁_run).2.1 1 (.other 8) (by decide)

/-! ### A number that is released twice -/

/-- The numbers that values get which are kept one after the other. -/
def keepAll (rawlen : Table V → ℕ) (t : Table V) : List (LuaValue V) → List ℤ
  | []      => []
  | v :: vs => (luaLRef rawlen t v).1 :: keepAll rawlen (luaLRef rawlen t v).2 vs

theorem Kept.keepAll {rawlen : Table V → ℕ} (hrawlen : ∀ t, Border t (rawlen t)) {t : Table V}
    {held : List (ℤ × LuaValue V)} {free : List ℤ} (h : Kept t held free)
    (vs : List (LuaValue V)) (hvs : .nil ∉ vs) :
    (held.map Prod.fst ++ References.keepAll rawlen t vs).Nodup := by
  induction vs generalizing t held free with
  | nil =>
      rw [References.keepAll, List.append_nil]
      exact (List.nodup_append.1 h.nodup).1
  | cons v vs ih =>
      obtain ⟨r, free', hr, hkept, -⟩ := h.ref hrawlen fun hv => hvs (hv ▸ List.mem_cons_self)
      have hrest := ih hkept fun hmem => hvs (List.mem_cons_of_mem _ hmem)
      rw [List.map_append, List.append_assoc] at hrest
      rw [References.keepAll, hr]
      exact hrest

/-- Where the list is not empty its first number is taken. -/
theorem luaLRef_of_link (rawlen : Table V → ℕ) {t : Table V} {n : ℤ} {v : LuaValue V}
    (hv : v ≠ .nil) (hn : link t freelist = some n) :
    luaLRef rawlen t v = (n, rawseti (rawseti t freelist (rawgeti t n)) n v) := by
  have hnil : ¬ v.isNil = true := fun hnil => hv (LuaValue.isNil_iff.1 hnil)
  obtain ⟨rfl, hne⟩ := link_some hn
  have hset : ¬ (rawgeti t freelist).isNil = true := by
    intro hset
    rw [LuaValue.isNil_iff.1 hset] at hne
    exact hne rfl
  simp only [luaLRef, if_neg hnil, if_neg hset, if_pos hne]

/-- The list of the free numbers comes to `r`, and goes on from there or not. -/
theorem mem_keepAll (rawlen : Table V → ℕ) {t : Table V} {pre : List ℤ} {r : ℤ}
    (hchain : Seg (link t) (link t freelist) pre (some r)) (hnodup : pre.Nodup)
    (hlist : freelist ∉ pre) {v : LuaValue V} (hv : v ≠ .nil) :
    r ∈ keepAll rawlen t (List.replicate (pre.length + 1) v) := by
  induction pre generalizing t with
  | nil =>
      rw [List.length_nil, List.replicate_succ, keepAll, luaLRef_of_link rawlen hv hchain]
      exact List.mem_cons_self
  | cons n pre ih =>
      obtain ⟨hout, hnodup⟩ := List.nodup_cons.1 hnodup
      have hne : freelist ≠ n := fun h => hlist (h ▸ List.mem_cons_self)
      rw [List.length_cons, List.replicate_succ, keepAll, luaLRef_of_link rawlen hv hchain.1]
      refine List.mem_cons_of_mem _ (ih ?_ hnodup fun h => hlist (List.mem_cons_of_mem _ h))
      have hhead : link (rawseti (rawseti t freelist (rawgeti t n)) n v) freelist = link t n :=
        link_congr (by rw [rawgeti_rawseti_of_ne hne, rawgeti_rawseti_self])
      rw [hhead]
      refine hchain.2.congr fun r' hr' => link_congr ?_
      have hr'n : r' ≠ n := fun h => hout (h ▸ hr')
      have hr'list : r' ≠ freelist := fun h => hlist (h ▸ List.mem_cons_of_mem _ hr')
      rw [rawgeti_rawseti_of_ne hr'n, rawgeti_rawseti_of_ne hr'list]

/-- **Released twice.**  A number that was given out may be released just when it is held: then
what is kept behind gets numbers that differ, whatever it is; and otherwise some does not. -/
theorem released_twice_iff {rawlen : Table V → ℕ} (hrawlen : ∀ t, Border t (rawlen t))
    {calls : List (Call V)} {h : History V} (hok : Allowed (step rawlen) Owned {} calls)
    (hrun : exec (step rawlen) {} calls = some h) {id : ℤ} (hid : id ∈ h.given) :
    id ∈ h.held.map Prod.fst ↔
      ∀ vs : List (LuaValue V), .nil ∉ vs →
        (keepAll rawlen (h.state.unref id).refs vs).Nodup := by
  obtain ⟨free, hkept, hinit, hgiven⟩ := tracked hrawlen hok hrun
  constructor
  · intro hheld vs hvs
    have hset : rawgeti h.state.refs freelist ≠ .nil := by
      intro hnil
      rw [hinit hnil] at hheld
      exact absurd hheld List.not_mem_nil
    exact (List.nodup_append.1 ((hkept.unref hheld hset).keepAll hrawlen vs hvs)).2.1
  · intro hall
    rcases List.mem_append.1 (hgiven id hid) with hheld | hfree
    · exact hheld
    -- `id` is in the list, and is put in front of it
    obtain ⟨pre, post, rfl⟩ := List.append_of_mem hfree
    have hfreeNodup := (List.nodup_append.1 hkept.nodup).2.1
    obtain ⟨hpos, hne⟩ := hkept.range id (Kept.mem_right hfree)
    have hout : id ∉ pre := by
      intro hmem
      exact (List.nodup_append.1 hfreeNodup).2.2 id hmem id List.mem_cons_self rfl
    have hlist : freelist ∉ pre := by
      intro hmem
      exact (hkept.range freelist (Kept.mem_right (List.mem_append_left _ hmem))).2 rfl
    set t := (h.state.unref id).refs with ht
    have heq : t = rawseti (rawseti h.state.refs id (rawgeti h.state.refs freelist)) freelist
        (.integer id) := if_pos (Int.le_of_lt hpos)
    have hself : rawgeti t id = rawgeti h.state.refs freelist := by
      rw [heq, rawgeti_rawseti_of_ne hne, rawgeti_rawseti_self]
    have hhead : link t freelist = some id := by
      rw [link, heq, rawgeti_rawseti_self]
      exact if_neg (Int.ne_of_gt hpos)
    have hv : (.integer 0 : LuaValue V) ≠ .nil := by
      intro hcontra
      cases hcontra
    set t' := rawseti (rawseti t freelist (rawgeti t id)) id (.integer 0) with ht'
    have hchain : Seg (link t') (link t' freelist) pre (some id) := by
      have hhead' : link t' freelist = link h.state.refs freelist := by
        refine link_congr ?_
        rw [ht', rawgeti_rawseti_of_ne hne.symm, rawgeti_rawseti_self, hself]
      rw [hhead']
      refine (Seg.append_cons_iff.1 hkept.chain).1.congr fun r hr => link_congr ?_
      have hr₁ : r ≠ id := fun h => hout (h ▸ hr)
      have hr₂ : r ≠ freelist := fun h => hlist (h ▸ hr)
      rw [ht', rawgeti_rawseti_of_ne hr₁, rawgeti_rawseti_of_ne hr₂, heq,
        rawgeti_rawseti_of_ne hr₂, rawgeti_rawseti_of_ne hr₁]
    -- the first value gets `id`, and the last one of as many as come before it gets it again
    have hbad := hall (List.replicate (pre.length + 2) (.integer 0))
      fun hmem => hv (List.eq_of_mem_replicate hmem).symm
    rw [List.replicate_succ, keepAll, luaLRef_of_link rawlen hv hhead, ← ht'] at hbad
    exact absurd (mem_keepAll rawlen hchain (List.nodup_append.1 hfreeNodup).1 hlist hv)
      (List.nodup_cons.1 hbad).1

/-- The second of the numbers is free already. -/
theorem released_twice_second : ¬ ∀ vs : List (LuaValue ℕ), .nil ∉ vs →
    (keepAll firstBorder (history₁.state.unref 2).refs vs).Nodup := fun h =>
  absurd ((released_twice_iff border_firstBorder kept₁_allowed kept₁_run
    (by decide : 2 ∈ history₁.given)).2 h) (by decide)

end MyEngine.Lua.References
