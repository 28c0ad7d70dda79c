import Mathlib.Data.List.Nodup
import MyEngine.Support.Replace
import MyEngine.Support.Runs

/-!
# Lua — ValueRoots

`value_roots.cpp`: the tables and functions that are kept as global Lua references, each with a key
of a table that the Lua states of one machine share.

* `Value`, `State`: the values that are alive, and the table.
* `makeValueFromLuaStack`, `release`: a value is made, and a `Ptr` to it goes.
* `Held`: the references in the table are those of the values that are alive.
* `none_left`: with no such value there is no reference.
* `references_iff`: the runs that keep no others.
-/

namespace MyEngine.Lua.Roots

open MyEngine.Runs

/-- The types of the Lua values that have a representation. -/
inductive LuaType where
  | nil
  | number
  | string
  | boolean
  | function
  | table
  deriving DecidableEq, Repr

def isReferenceType (type : LuaType) : Bool := type = .function || type = .table

inductive ValueKeepMode where
  | onStack
  | asReference
  deriving DecidableEq, Repr

/-- What `luaL_ref` has taken: the table, in the order in which they were made, and the key. -/
structure Reference where
  table : ℕ
  key : ℕ
  deriving DecidableEq, Repr

/-- `__My_GlobalRefs`. -/
structure GlobalRefs where
  id : ℕ
  keys : List ℕ := []
  deriving DecidableEq, Repr

-- Lua states, each with the native thread that uses it
variable {L : Type} [DecidableEq L]

/-- What a `ReferenceValue` has of its root: a place on the stack, or a key. -/
inductive Root (L : Type) where
  | stack (l : L)
  | global (l : L) (reference : Reference)
  deriving DecidableEq, Repr

/-- A value that is alive; numbers, strings and the like have no root.  `copies` are the `Ptr`s to
it besides the one. -/
structure Value (L : Type) where
  root : Option (Root L)
  copies : ℕ := 0
  deriving DecidableEq, Repr

namespace Value

/-- One that is kept as a global reference. -/
def global (l : L) (reference : Reference) : Value L := { root := some (.global l reference) }

def reference (v : Value L) : Option Reference :=
  match v.root with
  | some (.global _ reference) => some reference
  | _                          => none

/-- The value has the `LuaGlobalRefRoot` of a Lua state. -/
def isOn (l : L) (v : Value L) : Bool :=
  match v.root with
  | some (.global l' _) => l' = l
  | _                   => false

end Value

/-- A root is there as long as a value has it. -/
structure State (L : Type) where
  created : ℕ := 0
  globalRefs : Option GlobalRefs := none
  values : List (Value L) := []
  deriving DecidableEq, Repr

namespace State

/-- `LuaGlobalRefRoot::instance`: the root of the Lua state, or one that makes a table. -/
def rootInstance (s : State L) (l : L) : State L :=
  if s.values.any (Value.isOn l) then s
  else { s with created := s.created + 1, globalRefs := some { id := s.created } }

/-- `LuaGlobalRefRoot::ref`; `luaL_ref` takes a key that is not in use. -/
def ref (s : State L) (l : L) (key : ℕ) : Option (State L) :=
  match s.globalRefs with
  | some t =>
      if key ∈ t.keys then none
      else some { s with
        globalRefs := some { t with keys := t.keys ++ [key] }
        values := s.values ++ [.global l ⟨t.id, key⟩] }
  | none   => none

def makeValueFromLuaStack (s : State L) (l : L) (type : LuaType) (keepMode : ValueKeepMode)
    (key : ℕ) : Option (State L) :=
  if isReferenceType type then
    match keepMode with
    | .onStack     => some { s with values := s.values ++ [{ root := some (.stack l) }] }
    | .asReference => (s.rootInstance l).ref l key
  else some { s with values := s.values ++ [{ root := none }] }

/-- `LuaGlobalRefRoot::unref`. -/
def unref (globalRefs : Option GlobalRefs) (_key : ℕ) : Option GlobalRefs := globalRefs

/-- `~ReferenceValue`, and `~LuaGlobalRefRoot` where it was the last value of its root. -/
def destroy (s : State L) (i : ℕ) (v : Value L) : State L :=
  let values := s.values.eraseIdx i
  match v.root with
  | some (.global l reference) =>
      let globalRefs := unref s.globalRefs reference.key
      { s with
        values := values
        globalRefs := if values.any (Value.isOn l) then globalRefs else none }
  | _ => { s with values := values }

def release (s : State L) (i : ℕ) (v : Value L) : State L :=
  match v.copies with
  | 0          => s.destroy i v
  | copies + 1 => { s with values := s.values.set i { v with copies := copies } }

end State

inductive Action (L : Type) where
  | make (l : L) (type : LuaType) (keepMode : ValueKeepMode) (key : ℕ)
  | copy (value : ℕ)
  | release (value : ℕ)

def step (s : State L) : Action L → Option (State L)
  | .make l type keepMode key => s.makeValueFromLuaStack l type keepMode key
  | .copy i                   =>
      s.values[i]?.map fun v =>
        { s with values := s.values.set i { v with copies := v.copies + 1 } }
  | .release i                => s.values[i]?.map (s.release i)

/-! ### References -/

/-- The references that the root holds. -/
def State.held (s : State L) : List Reference :=
  match s.globalRefs with
  | some t => t.keys.map (Reference.mk t.id)
  | none   => []

/-- Those of the values. -/
def State.references (s : State L) : List Reference := s.values.filterMap Value.reference

def Held (s : State L) : Prop := ∀ r, r ∈ s.held ↔ r ∈ s.references

def Keeps (s : State L) (a : Action L) : Prop := ∀ s', step s a = some s' → Held s'

/-- A reference is taken where its Lua state has some or nobody has any, and a value that is
destroyed has the only one. -/
def Alone (s : State L) : Action L → Prop
  | .make l type keepMode _ =>
      isReferenceType type → keepMode = .asReference →
        s.values.any (Value.isOn l) ∨ s.references = []
  | .copy _                 => True
  | .release i              =>
      ∀ v, s.values[i]? = some v → v.copies = 0 →
        v.reference = none ∨ s.references.length = 1

/-- The references are distinct, and from tables that have been made. -/
structure Inv (s : State L) : Prop where
  held : Held s
  nodup : s.references.Nodup
  created : ∀ r ∈ s.references, r.table < s.created

variable {s s' : State L} {a : Action L} {l : L} {i key : ℕ} {v : Value L} {r : Reference}

theorem isOn_iff : v.isOn l = true ↔ ∃ r, v.root = some (.global l r) := by
  unfold Value.isOn
  split
  next l' r h =>
    rw [decide_eq_true_eq, h]
    constructor
    · rintro rfl
      exact ⟨r, rfl⟩
    · rintro ⟨r', h'⟩
      cases h'
      rfl
  next hnot => exact iff_of_false (fun h => by cases h) (fun ⟨r, h⟩ => hnot l r h)

/-- Somebody has a reference on the Lua state. -/
theorem exists_reference (h : s.values.any (Value.isOn l) = true) : ∃ r, r ∈ s.references := by
  obtain ⟨v, hv, hon⟩ := List.any_eq_true.1 h
  obtain ⟨r, hr⟩ := isOn_iff.1 hon
  exact ⟨r, List.mem_filterMap.2 ⟨v, hv, by rw [Value.reference, hr]⟩⟩

omit [DecidableEq L] in
/-- The table of a reference that is held. -/
theorem table_of_held (h : r ∈ s.held) : ∃ t, s.globalRefs = some t ∧ r.table = t.id := by
  unfold State.held at h
  split at h
  next t ht =>
    obtain ⟨key, -, rfl⟩ := List.mem_map.1 h
    exact ⟨t, ht, rfl⟩
  next => cases h

omit [DecidableEq L] in
theorem references_append (s : State L) (v : Value L) :
    (s.values ++ [v]).filterMap Value.reference = s.references ++ v.reference.toList := by
  rw [List.filterMap_append, State.references, List.filterMap_cons]
  cases v.reference <;> rfl

/-! ### Taking -/

omit [DecidableEq L] in
/-- A reference is taken in the table there is. -/
theorem inv_ref {t : GlobalRefs} (hs : Inv s) (ht : s.globalRefs = some t) (hid : t.id < s.created)
    (h : s.ref l key = some s') : Inv s' := by
  simp only [State.ref, ht] at h
  split at h
  next => cases h
  next hfresh =>
    obtain rfl := Option.some.inj h
    have hheld : s.held = t.keys.map (Reference.mk t.id) := by rw [State.held, ht]
    have hnew : (⟨t.id, key⟩ : Reference) ∉ s.references := by
      rw [← hs.held, hheld]
      intro hmem
      obtain ⟨key', hkey, heq⟩ := List.mem_map.1 hmem
      cases heq
      exact hfresh hkey
    have hreferences := references_append s (.global l ⟨t.id, key⟩)
    refine ⟨fun r => ?_, ?_, ?_⟩
    · rw [State.references, hreferences, State.held]
      dsimp only
      rw [List.map_append, List.mem_append, List.mem_append, ← hheld, hs.held]
      rfl
    · rw [State.references, hreferences, List.nodup_append]
      refine ⟨hs.nodup, List.nodup_singleton _, fun r hr r' hr' => ?_⟩
      obtain rfl := List.mem_singleton.1 hr'
      rintro rfl
      exact hnew hr
    · rw [State.references, hreferences]
      intro r hr
      rcases List.mem_append.1 hr with hr | hr
      · exact hs.created r hr
      · obtain rfl := List.mem_singleton.1 hr
        exact hid

/-- The first reference of a Lua state is taken in a table of its own. -/
theorem ref_first (hnone : s.values.any (Value.isOn l) = false) :
    (s.rootInstance l).ref l key = some {
      created := s.created + 1
      globalRefs := some { id := s.created, keys := [key] }
      values := s.values ++ [.global l ⟨s.created, key⟩] } := by
  simp [State.rootInstance, hnone, State.ref]

omit [DecidableEq L] in
/-- What has no reference comes and goes. -/
theorem inv_values {values : List (Value L)} (hs : Inv s)
    (h : values.filterMap Value.reference = s.references) : Inv { s with values := values } where
  held := by
    intro r
    rw [State.references, h]
    exact hs.held r
  nodup := by
    rw [State.references, h]
    exact hs.nodup
  created := by
    rw [State.references, h]
    exact hs.created

theorem inv_make {type : LuaType} {keepMode : ValueKeepMode} (hs : Inv s)
    (halone : Alone s (.make l type keepMode key))
    (h : s.makeValueFromLuaStack l type keepMode key = some s') : Inv s' := by
  unfold State.makeValueFromLuaStack at h
  split at h
  next htype =>
    split at h
    next =>
      obtain rfl := Option.some.inj h
      exact inv_values hs (by rw [references_append]; exact List.append_nil _)
    next =>
      cases hany : s.values.any (Value.isOn l) with
      | true =>
          obtain ⟨r, hr⟩ := exists_reference hany
          obtain ⟨t, ht, hid⟩ := table_of_held ((hs.held r).2 hr)
          rw [State.rootInstance, if_pos hany] at h
          exact inv_ref hs ht (hid ▸ hs.created r hr) h
      | false =>
          have hnone : s.references = [] :=
            (halone htype rfl).resolve_left (by rw [hany]; exact Bool.false_ne_true)
          rw [ref_first hany] at h
          obtain rfl := Option.some.inj h
          have hreferences := references_append s (.global l ⟨s.created, key⟩)
          rw [hnone, List.nil_append] at hreferences
          refine ⟨fun r => ?_, ?_, ?_⟩
          · rw [State.references, hreferences]
            exact Iff.rfl
          · rw [State.references, hreferences]
            exact List.nodup_singleton _
          · rw [State.references, hreferences]
            intro r hr
            obtain rfl := List.mem_singleton.1 hr
            exact Nat.lt_succ_self _
  next =>
    obtain rfl := Option.some.inj h
    exact inv_values hs (by rw [references_append]; exact List.append_nil _)

/-- A table that is made anew has only the one reference. -/
theorem alone_of_make {type : LuaType} {keepMode : ValueKeepMode} (hs : Inv s)
    (hkeeps : Keeps s (.make l type keepMode key)) : Alone s (.make l type keepMode key) := by
  intro htype hmode
  subst hmode
  cases hany : s.values.any (Value.isOn l) with
  | true => exact .inl rfl
  | false =>
      right
      have hstep : step s (.make l type .asReference key) = (s.rootInstance l).ref l key := by
        rw [step, State.makeValueFromLuaStack, if_pos htype]
      have hheld := hkeeps _ (hstep.trans (ref_first hany))
      refine List.eq_nil_iff_forall_not_mem.2 fun r hr => ?_
      have hmem : r ∈
          (s.values ++ [Value.global l ⟨s.created, key⟩]).filterMap Value.reference := by
        rw [references_append]
        exact List.mem_append_left _ hr
      have hin := (hheld r).2 hmem
      obtain rfl : r = ⟨s.created, key⟩ := by simpa [State.held] using hin
      exact Nat.lt_irrefl _ (hs.created _ hr)

/-! ### Letting go -/

omit [DecidableEq L] in
/-- A value that has no reference goes. -/
theorem references_eraseIdx (hv : s.values[i]? = some v) (hnone : v.reference = none) :
    (s.values.eraseIdx i).filterMap Value.reference = s.references := by
  obtain ⟨l₁, l₂, hvalues, herase, -⟩ := exists_split hv
  rw [State.references, herase, hvalues, List.filterMap_append, List.filterMap_append,
    List.filterMap_cons_none hnone]

omit [DecidableEq L] in
/-- One goes that has. -/
theorem references_perm (hv : s.values[i]? = some v) (hreference : v.reference = some r) :
    s.references.Perm (r :: (s.values.eraseIdx i).filterMap Value.reference) := by
  obtain ⟨l₁, l₂, hvalues, herase, -⟩ := exists_split hv
  rw [State.references, herase, hvalues, List.filterMap_append, List.filterMap_append,
    List.filterMap_cons_some hreference]
  exact List.perm_middle

omit [DecidableEq L] in
theorem references_set {v' : Value L} (hv : s.values[i]? = some v) (hsame : v'.root = v.root) :
    (s.values.set i v').filterMap Value.reference = s.references := by
  obtain ⟨l₁, l₂, hvalues, -, hset⟩ := exists_split hv
  have hreference : v'.reference = v.reference := by rw [Value.reference, hsame]; rfl
  rw [State.references, hset, hvalues, List.filterMap_append, List.filterMap_append,
    List.filterMap_cons, List.filterMap_cons, hreference]

/-- A value without a root of the global references is destroyed. -/
theorem destroy_none (h : v.reference = none) :
    s.destroy i v = { s with values := s.values.eraseIdx i } := by
  unfold State.destroy
  split
  next l r hroot =>
    rw [Value.reference, hroot] at h
    cases h
  next => rfl

/-- One that has a reference: it stays in the table, and the table goes with its root. -/
theorem destroy_some (h : v.reference = some r) :
    ∃ l, s.destroy i v = { s with
      values := s.values.eraseIdx i
      globalRefs := if (s.values.eraseIdx i).any (Value.isOn l) then s.globalRefs else none } := by
  unfold State.destroy
  split
  next l r' hroot => exact ⟨l, rfl⟩
  next hnot =>
    unfold Value.reference at h
    split at h
    next l r' hroot => exact absurd hroot (hnot l r')
    next => cases h

/-- The references that are held when a value with one has been destroyed are those of the values
if and only if no other value had one. -/
theorem held_destroy_iff (hs : Inv s) (hv : s.values[i]? = some v) (hr : v.reference = some r) :
    Held (s.destroy i v) ↔ s.references.length = 1 := by
  obtain ⟨l, hdestroy⟩ := @destroy_some L _ s i v r hr
  have hperm := references_perm hv hr
  rw [hdestroy, hperm.length_eq, List.length_cons, Nat.add_eq_right, List.length_eq_zero_iff]
  constructor
  · intro hheld
    cases hany : (s.values.eraseIdx i).any (Value.isOn l) with
    | true =>
        -- the reference is still in the table
        have hmem := (hheld r).1 (by
          rw [State.held, if_pos hany]
          exact (hs.held r).2 (hperm.mem_iff.2 List.mem_cons_self))
        exact absurd hmem (List.nodup_cons.1 (hperm.nodup_iff.1 hs.nodup)).1
    | false =>
        refine List.eq_nil_iff_forall_not_mem.2 fun r' hr' => ?_
        have hin := (hheld r').2 hr'
        rw [State.held, hany] at hin
        cases hin
  · intro hnil r'
    have hnone : (s.values.eraseIdx i).any (Value.isOn l) = false := by
      refine Bool.eq_false_iff.2 fun hany => ?_
      obtain ⟨r'', hr''⟩ := @exists_reference L _ { s with values := s.values.eraseIdx i } l hany
      rw [State.references, hnil] at hr''
      cases hr''
    rw [State.references, hnil, State.held, hnone]
    exact Iff.rfl

theorem inv_destroy (hs : Inv s) (hv : s.values[i]? = some v)
    (halone : v.reference = none ∨ s.references.length = 1) : Inv (s.destroy i v) := by
  cases hr : v.reference with
  | none =>
      rw [destroy_none hr]
      exact inv_values hs (references_eraseIdx hv hr)
  | some r =>
      have hlength := halone.resolve_left (by rw [hr]; exact Option.some_ne_none r)
      have hnil : (s.destroy i v).references = [] := by
        obtain ⟨l, hdestroy⟩ := @destroy_some L _ s i v r hr
        rw [(references_perm hv hr).length_eq, List.length_cons, Nat.add_eq_right,
          List.length_eq_zero_iff] at hlength
        rw [hdestroy]
        exact hlength
      refine ⟨(held_destroy_iff hs hv hr).2 hlength, ?_, ?_⟩
      · rw [hnil]
        exact List.nodup_nil
      · rw [hnil]
        intro r' hr'
        cases hr'

theorem inv_step (hs : Inv s) (halone : Alone s a) (h : step s a = some s') : Inv s' := by
  cases a with
  | make l type keepMode key => exact inv_make hs halone h
  | copy i =>
      obtain ⟨v, hv, rfl⟩ := Option.map_eq_some_iff.1 h
      exact inv_values hs (references_set hv rfl)
  | release i =>
      obtain ⟨v, hv, rfl⟩ := Option.map_eq_some_iff.1 h
      unfold State.release
      split
      next hlast => exact inv_destroy hs hv (halone v hv hlast)
      next => exact inv_values hs (references_set hv rfl)

theorem alone_of_keeps (hs : Inv s) (hkeeps : Keeps s a) : Alone s a := by
  cases a with
  | make l type keepMode key => exact alone_of_make hs hkeeps
  | copy i => trivial
  | release i =>
      intro v hv hlast
      cases hr : v.reference with
      | none => exact .inl rfl
      | some r =>
          have hstep : step s (.release i) = some (s.destroy i v) := by
            rw [step, hv, Option.map_some, State.release, hlast]
          exact .inr ((held_destroy_iff hs hv hr).1 (hkeeps _ hstep))

/-- **The references that are held are those of the values that are alive**, at every step of a
run, if and only if each value with a reference that is destroyed is the only one, and no Lua state
takes its first one while others have some. -/
theorem references_iff (actions : List (Action L)) :
    Allowed step Keeps {} actions ↔ Allowed step Alone {} actions := by
  refine allowed_congr (P := Inv) ?_ ?_ actions ?_ (allowed_free actions _)
  · intro s a s' hs _ hkeeps h
    exact inv_step hs (alone_of_keeps hs hkeeps) h
  · intro s a hs _
    refine ⟨alone_of_keeps hs, fun halone s' h => ?_⟩
    exact (inv_step hs halone h).held
  · exact ⟨fun r => Iff.rfl, List.nodup_nil, fun r hr => by cases hr⟩

/-- Two tables come to the Lua state, and the first goes. -/
theorem not_unreferenced : ¬ Allowed step Keeps ({} : State ℕ)
    [.make 0 .table .asReference 1, .make 0 .table .asReference 2, .release 0] := by
  intro h
  obtain ⟨-, h⟩ := h
  obtain ⟨-, h⟩ := h _ rfl
  obtain ⟨h, -⟩ := h _ rfl
  have hmem := (h _ rfl ⟨0, 1⟩).1 (by decide)
  exact absurd hmem (by decide)

/-! ### When all are gone -/

/-- There is a table only as long as somebody has a reference. -/
def Rooted (s : State L) : Prop := s.references = [] → s.globalRefs = none

omit [DecidableEq L] in
theorem rooted_values {values : List (Value L)} (hs : Rooted s)
    (h : values.filterMap Value.reference = s.references) :
    Rooted { s with values := values } := by
  intro hnil
  rw [State.references, h] at hnil
  exact hs hnil

omit [DecidableEq L] in
theorem rooted_ref (h : s.ref l key = some s') : Rooted s' := by
  intro hnil
  unfold State.ref at h
  split at h
  next =>
    split at h
    next => cases h
    next =>
      obtain rfl := Option.some.inj h
      rw [State.references, references_append] at hnil
      cases (List.append_eq_nil_iff.1 hnil).2
  next => cases h

theorem rooted_destroy (hs : Rooted s) (hv : s.values[i]? = some v) :
    Rooted (s.destroy i v) := by
  cases hr : v.reference with
  | none =>
      rw [destroy_none hr]
      exact rooted_values hs (references_eraseIdx hv hr)
  | some r =>
      obtain ⟨l, hdestroy⟩ := @destroy_some L _ s i v r hr
      rw [hdestroy]
      intro hnil
      refine if_neg fun hany => ?_
      obtain ⟨r', hr'⟩ := @exists_reference L _ { s with values := s.values.eraseIdx i } l hany
      rw [State.references] at hnil hr'
      rw [hnil] at hr'
      cases hr'

theorem rooted_step (hs : Rooted s) (h : step s a = some s') : Rooted s' := by
  cases a with
  | make l type keepMode key =>
      simp only [step, State.makeValueFromLuaStack] at h
      split at h
      next =>
        split at h
        next =>
          obtain rfl := Option.some.inj h
          exact rooted_values hs (by rw [references_append]; exact List.append_nil _)
        next => exact rooted_ref h
      next =>
        obtain rfl := Option.some.inj h
        exact rooted_values hs (by rw [references_append]; exact List.append_nil _)
  | copy i =>
      obtain ⟨v, hv, rfl⟩ := Option.map_eq_some_iff.1 h
      exact rooted_values hs (references_set hv rfl)
  | release i =>
      obtain ⟨v, hv, rfl⟩ := Option.map_eq_some_iff.1 h
      unfold State.release
      split
      next => exact rooted_destroy hs hv
      next => exact rooted_values hs (references_set hv rfl)

/-- When all values with references have been destroyed, no reference is held. -/
theorem none_left (h : Steps step Free ({} : State L) s) (hnil : s.references = []) :
    s.held = [] := by
  have hrooted : Rooted s := h.invariant (fun hs _ hstep => rooted_step hs hstep) fun _ => rfl
  rw [State.held, hrooted hnil]

end MyEngine.Lua.Roots
