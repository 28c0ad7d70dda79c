import Mathlib.Data.List.Perm.Basic
import Mathlib.Logic.Function.Basic
import MyEngine.Support.Replace

/-!
# Threading — ThreadLocalValue

`ThreadLocalValue`, of `thread_local_value.h`: the values of the threads, by the indices that
`liveThreadIndex` gives, in lines of slots.

* `ThreadLocalValue`: the lines; a slot has a value when its `Status` is valid.
* `step`: what threads do with the variables of a program, one after the other.
* `Variable`: a variable that is a map from threads to values.
* `thread_local_refines`: the lines are the maps, in every run.
* `destroyed_once_iff`: the runs in which every value is destroyed once.
-/

namespace MyEngine.Threading.ThreadLocal

open Function (update)

/-! ### Lines -/

/-- A `Type`, by its number, and whether `m_construct` was called with it. -/
structure Object where
  id : ℕ
  constructed : Bool
  deriving DecidableEq, Repr

/-- A `Status` with its value: neither when the slot is not valid. -/
abbrev Slot := Option Object

/-- `m_numLines` is the length of the block; `construct` is whether there is an `m_construct`. -/
structure ThreadLocalValue where
  lineSize : ℕ
  memBlock : List (List Slot) := []
  construct : Bool := false
  deriving DecidableEq, Repr

namespace ThreadLocalValue

variable (t : ThreadLocalValue)

/-- `resizeLines`; lines that were there stay where they are. -/
def resizeLines (sizeReq : ℕ) : ThreadLocalValue :=
  if sizeReq ≥ t.memBlock.length then
    { t with memBlock := t.memBlock ++
        List.replicate (sizeReq + 1 - t.memBlock.length) (List.replicate t.lineSize none) }
  else t

/-- The constructor. -/
def new (hardwareConcurrency : ℕ) (construct : Bool) : ThreadLocalValue :=
  resizeLines { lineSize := hardwareConcurrency, construct } 0

/-- `getData`. -/
def getData (line offset : ℕ) : Option Slot := t.memBlock[line]?.bind (·[offset]?)

def setData (line offset : ℕ) (slot : Slot) : ThreadLocalValue :=
  { t with memBlock := t.memBlock.set line ((t.memBlock.getD line []).set offset slot) }

/-- The objects that the two loops over the lines find. -/
def objects : List Object := t.memBlock.flatMap fun line => line.flatMap Option.toList

/-- No slot is valid. -/
def invalidated : ThreadLocalValue :=
  { t with memBlock := t.memBlock.map fun line => line.map fun _ => none }

/-- The value of a thread. -/
def valueOf (index : ℕ) : Slot := (t.getData (index / t.lineSize) (index % t.lineSize)).join

end ThreadLocalValue

/-! ### Programs -/

/-- The variables, by their numbers, of which none is there that was deleted; the number of objects
made so far, and the objects that were destroyed. -/
structure State where
  vars : List (Option ThreadLocalValue) := []
  next : ℕ := 0
  destroyed : List ℕ := []
  deriving DecidableEq, Repr

inductive Action where
  | construct (construct : Bool)
  | value (v index : ℕ)
  | destroy (v index : ℕ)
  | destroyAll (v : ℕ)
  | moveConstruct (other : ℕ)
  | moveAssign (v other : ℕ)
  | delete (v : ℕ)
  deriving DecidableEq, Repr

namespace State

variable (s : State)

def var (v : ℕ) : Option ThreadLocalValue := s.vars[v]?.join

def setVar (v : ℕ) (t : Option ThreadLocalValue) : State := { s with vars := s.vars.set v t }

/-- `value`, with the object that the reference is to. -/
def value (v index : ℕ) (t : ThreadLocalValue) : Option (State × Option Object) :=
  let line := index / t.lineSize
  let offset := index % t.lineSize
  let t := t.resizeLines line
  match t.getData line offset with
  | none            => none
  | some (some val) => some (s.setVar v t, some val)
  | some none       =>
      let val : Object := ⟨s.next, t.construct⟩
      some ({ s with next := s.next + 1 }.setVar v (t.setData line offset val), some val)

/-- `destroy`. -/
def destroy (v index : ℕ) (t : ThreadLocalValue) : State :=
  match t.getData (index / t.lineSize) (index % t.lineSize) with
  | some (some val) =>
      { s with destroyed := s.destroyed ++ [val.id] }.setVar v
        (t.setData (index / t.lineSize) (index % t.lineSize) none)
  | _ => s

/-- The move assignment: the lines that the variable had are in no variable any more. -/
def moveAssign (v other : ℕ) (t val : ThreadLocalValue) : State :=
  let s := s.setVar v (some { t with lineSize := val.lineSize, memBlock := val.memBlock })
  s.setVar other ((s.var other).map fun val => { val with memBlock := [] })

end State

/-- A step, with the object of which a reference is given; none with a variable that is not there.
`hardwareConcurrency` is what `std::thread::hardware_concurrency` gives. -/
def step (hardwareConcurrency : ℕ) (s : State) : Action → Option (State × Option Object)
  | .construct construct =>
      some ({ s with vars := s.vars ++ [some (.new hardwareConcurrency construct)] }, none)
  | .value v index   => do s.value v index (← s.var v)
  | .destroy v index => do some (s.destroy v index (← s.var v), none)
  | .destroyAll v    => do
      let t ← s.var v
      some ({ s with destroyed := s.destroyed ++ t.objects.map Object.id }.setVar v
        (some t.invalidated), none)
  | .moveConstruct other => do
      let val ← s.var other
      let s := s.setVar other (some { val with memBlock := [] })
      some ({ s with vars := s.vars ++ [some { val with construct := false }] }, none)
  | .moveAssign v other => do
      let t ← s.var v
      let val ← s.var other
      some (s.moveAssign v other t val, none)
  | .delete v => do
      let t ← s.var v
      some ({ s with destroyed := s.destroyed ++ t.objects.map Object.id }.setVar v none, none)

/-- A run, with the references that it gives. -/
def run {σ : Type} (step : σ → Action → Option (σ × Option Object)) (s : σ) :
    List Action → Option (σ × List (Option Object))
  | []      => some (s, [])
  | a :: as => do
      let (s, answer) ← step s a
      let (s, answers) ← run step s as
      some (s, answer :: answers)

/-! ### Maps -/

/-- What a thread-local variable is for: each thread has a value of its own. -/
structure Variable where
  construct : Bool
  value : ℕ → Slot

/-- A program with such variables. -/
structure Maps where
  vars : List (Option Variable) := []
  next : ℕ := 0

namespace Maps

variable (m : Maps)

def var (v : ℕ) : Option Variable := m.vars[v]?.join

def setVar (v : ℕ) (x : Option Variable) : Maps := { m with vars := m.vars.set v x }

def step : Action → Option (Maps × Option Object)
  | .construct construct =>
      some ({ m with vars := m.vars ++ [some ⟨construct, fun _ => none⟩] }, none)
  | .value v index   => do
      let x ← m.var v
      match x.value index with
      | some val => some (m, some val)
      | none     =>
          let val : Object := ⟨m.next, x.construct⟩
          some ({ m with next := m.next + 1 }.setVar v
            (some { x with value := update x.value index (some val) }), some val)
  | .destroy v index => do
      let x ← m.var v
      some (m.setVar v (some { x with value := update x.value index none }), none)
  | .destroyAll v    => do
      let x ← m.var v
      some (m.setVar v (some { x with value := fun _ => none }), none)
  | .moveConstruct other => do
      let val ← m.var other
      let m := m.setVar other (some { val with value := fun _ => none })
      some ({ m with vars := m.vars ++ [some { val with construct := false }] }, none)
  | .moveAssign v other => do
      let x ← m.var v
      let val ← m.var other
      let m := m.setVar v (some { x with value := val.value })
      some (m.setVar other ((m.var other).map fun val => { val with value := fun _ => none }), none)
  | .delete v => do
      let _ ← m.var v
      some (m.setVar v none, none)

end Maps

/-- The map that a variable is. -/
def ThreadLocalValue.toVariable (t : ThreadLocalValue) : Variable := ⟨t.construct, t.valueOf⟩

def State.toMaps (s : State) : Maps where
  vars := s.vars.map (Option.map ThreadLocalValue.toVariable)
  next := s.next

/-! ### Slots -/

/-- Every line has a slot for each of `n` threads. -/
structure Shaped (n : ℕ) (t : ThreadLocalValue) : Prop where
  lineSize : t.lineSize = n
  line : ∀ line ∈ t.memBlock, line.length = n

namespace ThreadLocalValue

variable {t : ThreadLocalValue} {n : ℕ}

theorem getData_resizeLines (sizeReq line offset : ℕ) :
    ((t.resizeLines sizeReq).getData line offset).join = (t.getData line offset).join := by
  rw [resizeLines]
  split
  · simp only [getData]
    rcases Nat.lt_or_ge line t.memBlock.length with hline | hline
    · rw [List.getElem?_append_left hline]
    · rw [List.getElem?_append_right hline, List.getElem?_eq_none hline, List.getElem?_replicate]
      split
      · rw [Option.bind_some, List.getElem?_replicate]
        split <;> rfl
      · rfl
  · rfl

theorem valueOf_resizeLines (sizeReq : ℕ) : (t.resizeLines sizeReq).valueOf = t.valueOf := by
  have hsize : (t.resizeLines sizeReq).lineSize = t.lineSize := by
    rw [resizeLines]
    split <;> rfl
  funext index
  rw [ThreadLocalValue.valueOf, hsize, getData_resizeLines]
  rfl

/-- There is a slot for a thread after the lines are resized for it. -/
theorem getData_isSome (h : Shaped n t) (hn : 0 < n) (index : ℕ) :
    ∃ slot, (t.resizeLines (index / n)).getData (index / n) (index % n) = some slot := by
  have hoffset := Nat.mod_lt index hn
  rw [resizeLines, h.lineSize]
  split
  · next hge =>
    refine ⟨none, ?_⟩
    simp only [getData]
    have hlt : index / n - t.memBlock.length < index / n + 1 - t.memBlock.length := by omega
    rw [List.getElem?_append_right hge, List.getElem?_replicate, if_pos hlt, Option.bind_some,
      List.getElem?_replicate, if_pos hoffset]
  · next hlt =>
    have hget := List.getElem?_eq_getElem (Nat.lt_of_not_ge hlt)
    have hlen := h.line _ (List.mem_of_getElem? hget)
    have hslot : index % n < (t.memBlock[index / n]).length := by rwa [hlen]
    exact ⟨_, by rw [getData, hget, Option.bind_some, List.getElem?_eq_getElem hslot]⟩

theorem getD_of_getData {line offset : ℕ} {old : Slot} (h : t.getData line offset = some old) :
    ∃ l, t.memBlock[line]? = some l ∧ t.memBlock.getD line [] = l ∧ l[offset]? = some old := by
  obtain ⟨l, hl, hslot⟩ := Option.bind_eq_some_iff.1 h
  exact ⟨l, hl, by rw [List.getD_eq_getElem?_getD, hl]; rfl, hslot⟩

theorem getData_setData {line offset : ℕ} {old : Slot} (h : t.getData line offset = some old)
    (slot : Slot) (line' offset' : ℕ) :
    (t.setData line offset slot).getData line' offset' =
      if line = line' ∧ offset = offset' then some slot else t.getData line' offset' := by
  obtain ⟨l, hl, hget, hslot⟩ := getD_of_getData h
  simp only [setData, getData, hget]
  by_cases hline : line = line'
  · subst hline
    rw [getElem?_replaced hl, hl, Option.bind_some, Option.bind_some]
    by_cases hoffset : offset = offset'
    · subst hoffset
      rw [getElem?_replaced hslot, if_pos ⟨rfl, rfl⟩]
    · rw [List.getElem?_set_ne hoffset, if_neg fun h => hoffset h.2]
  · rw [List.getElem?_set_ne hline, if_neg fun h => hline h.1]

theorem valueOf_setData {index : ℕ} {old : Slot} (slot : Slot)
    (h : t.getData (index / t.lineSize) (index % t.lineSize) = some old) :
    (t.setData (index / t.lineSize) (index % t.lineSize) slot).valueOf =
      update t.valueOf index slot := by
  funext index'
  have hsize : ∀ line offset, (t.setData line offset slot).lineSize = t.lineSize := fun _ _ => rfl
  rw [ThreadLocalValue.valueOf, hsize, getData_setData h, Function.update_apply]
  by_cases hindex : index' = index
  · subst hindex
    rw [if_pos ⟨rfl, rfl⟩, if_pos rfl]
    rfl
  · -- two threads have two slots
    have hne : ¬ (index / t.lineSize = index' / t.lineSize ∧
        index % t.lineSize = index' % t.lineSize) := by
      rintro ⟨hdiv, hmod⟩
      apply hindex
      rw [← Nat.div_add_mod index' t.lineSize, ← hdiv, ← hmod, Nat.div_add_mod]
    rw [if_neg hne, if_neg hindex]
    rfl

theorem valueOf_of_empty (h : t.memBlock = []) : t.valueOf = fun _ => none := by
  funext index
  rw [ThreadLocalValue.valueOf, getData, h]
  rfl

theorem valueOf_invalidated : t.invalidated.valueOf = fun _ => none := by
  funext index
  have hsize : t.invalidated.lineSize = t.lineSize := rfl
  rw [ThreadLocalValue.valueOf, hsize]
  simp only [invalidated, getData, List.getElem?_map]
  cases t.memBlock[index / t.lineSize]? with
  | none => rfl
  | some slots =>
      rw [Option.map_some, Option.bind_some, List.getElem?_map]
      cases slots[index % t.lineSize]? <;> rfl

end ThreadLocalValue

namespace Shaped

variable {t : ThreadLocalValue} {n : ℕ}

theorem resizeLines (h : Shaped n t) (sizeReq : ℕ) : Shaped n (t.resizeLines sizeReq) := by
  rw [ThreadLocalValue.resizeLines]
  split
  · refine ⟨h.lineSize, fun line hline => ?_⟩
    rcases List.mem_append.1 hline with hline | hline
    · exact h.line line hline
    · rw [List.eq_of_mem_replicate hline, List.length_replicate, h.lineSize]
  · exact h

theorem setData (h : Shaped n t) {line offset : ℕ} {old : Slot}
    (hold : t.getData line offset = some old) (slot : Slot) :
    Shaped n (t.setData line offset slot) := by
  obtain ⟨l, hl, -⟩ := Option.bind_eq_some_iff.1 hold
  refine ⟨h.lineSize, forall_mem_set h.line ?_⟩
  rw [List.length_set, List.getD_eq_getElem?_getD, hl]
  exact h.line l (List.mem_of_getElem? hl)

theorem invalidated (h : Shaped n t) : Shaped n t.invalidated := by
  refine ⟨h.lineSize, fun line hline => ?_⟩
  obtain ⟨l, hl, rfl⟩ := List.mem_map.1 hline
  rw [List.length_map]
  exact h.line l hl

theorem empty (h : t.lineSize = n) (hempty : t.memBlock = []) : Shaped n t :=
  ⟨h, fun line hline => nomatch hempty ▸ hline⟩

theorem new (n : ℕ) (construct : Bool) : Shaped n (.new n construct) := by
  have hstart : Shaped n { lineSize := n, construct } := .empty rfl rfl
  exact hstart.resizeLines 0

end Shaped

/-! ### Variables -/

namespace Maps

variable {m : Maps} {v : ℕ}

theorem setVar_self {x : Variable} (h : m.var v = some x) : m.setVar v (some x) = m := by
  have hget : m.vars[v]? = some (some x) := Option.join_eq_some_iff.1 h
  obtain ⟨hlt, hget⟩ := List.getElem?_eq_some_iff.1 hget
  rw [setVar, ← hget, List.set_getElem_self]

end Maps

namespace State

variable {s : State} {v w n : ℕ} {t : ThreadLocalValue}

theorem var_eq_some_iff : s.var v = some t ↔ s.vars[v]? = some (some t) :=
  Option.join_eq_some_iff

theorem var_setVar_self (h : s.var v = some t) (t' : Option ThreadLocalValue) :
    (s.setVar v t').var v = t' := by
  rw [var, setVar, getElem?_replaced (var_eq_some_iff.1 h), Option.join_some]

theorem var_setVar_of_ne (h : v ≠ w) (t' : Option ThreadLocalValue) :
    (s.setVar v t').var w = s.var w := by
  rw [var, setVar, List.getElem?_set_ne h]
  rfl

theorem var_toMaps : s.toMaps.var v = (s.var v).map ThreadLocalValue.toVariable := by
  rw [Maps.var, State.toMaps, List.getElem?_map, State.var]
  cases s.vars[v]? <;> rfl

theorem toMaps_setVar (t' : Option ThreadLocalValue) :
    (s.setVar v t').toMaps = s.toMaps.setVar v (t'.map ThreadLocalValue.toVariable) := by
  simp only [State.toMaps, State.setVar, Maps.setVar, List.map_set]

@[simp] theorem toMaps_next : s.toMaps.next = s.next := rfl

@[simp] theorem toMaps_vars : s.toMaps.vars = s.vars.map (Option.map ThreadLocalValue.toVariable) :=
  rfl

theorem toMaps_concat : { s with vars := s.vars ++ [some t] }.toMaps =
    { s.toMaps with vars := s.toMaps.vars ++ [some t.toVariable] } := by
  simp [State.toMaps]

/-- The variables are of one shape. -/
def AllShaped (n : ℕ) (s : State) : Prop := ∀ v t, s.var v = some t → Shaped n t

theorem AllShaped.setVar (h : AllShaped n s) {t' : Option ThreadLocalValue}
    (ht' : ∀ t, t' = some t → Shaped n t) : AllShaped n (s.setVar v t') := by
  intro w t hw
  rcases getElem?_set_cases (var_eq_some_iff.1 hw) with ⟨-, heq⟩ | ⟨-, hold⟩
  · exact ht' t heq
  · exact h w t (var_eq_some_iff.2 hold)

theorem AllShaped.concat (h : AllShaped n s) (ht : Shaped n t) :
    AllShaped n { s with vars := s.vars ++ [some t] } := by
  intro w t' hw
  rcases getElem?_concat_cases (var_eq_some_iff.1 hw) with hold | ⟨-, heq⟩
  · exact h w t' (var_eq_some_iff.2 hold)
  · rwa [← Option.some.inj heq]

end State

open State ThreadLocalValue

/-! ### Steps -/

section Steps

variable {s s' : State} {v index n : ℕ} {t : ThreadLocalValue} {a : Action} {answer : Option Object}

@[simp] theorem resizeLines_lineSize (sizeReq : ℕ) :
    (t.resizeLines sizeReq).lineSize = t.lineSize := by
  rw [ThreadLocalValue.resizeLines]
  split <;> rfl

@[simp] theorem resizeLines_construct (sizeReq : ℕ) :
    (t.resizeLines sizeReq).construct = t.construct := by
  rw [ThreadLocalValue.resizeLines]
  split <;> rfl

/-- What `value` gives: the value that is there, or a new one. -/
theorem value_eq (h : Shaped n t) (hn : 0 < n) (hv : s.var v = some t) (index : ℕ) :
    ∃ t', Shaped n t' ∧ t'.construct = t.construct ∧
      ((∃ val, t.valueOf index = some val ∧ t'.valueOf = t.valueOf ∧
          s.value v index t = some (s.setVar v t', some val)) ∨
        t.valueOf index = none ∧
          t'.valueOf = update t.valueOf index (some ⟨s.next, t.construct⟩) ∧
          s.value v index t =
            some ({ s with next := s.next + 1 }.setVar v t', some ⟨s.next, t.construct⟩)) := by
  obtain ⟨slot, hslot⟩ := t.getData_isSome h hn index
  rw [← h.lineSize] at hslot
  have hvalue : t.valueOf index = slot := by
    rw [ThreadLocalValue.valueOf, ← ThreadLocalValue.getData_resizeLines (index / t.lineSize),
      hslot]
    rfl
  have hshaped := h.resizeLines (index / t.lineSize)
  rw [State.value]
  cases slot with
  | some val =>
      refine ⟨t.resizeLines (index / t.lineSize), hshaped, resizeLines_construct _,
        .inl ⟨val, hvalue, ThreadLocalValue.valueOf_resizeLines _, ?_⟩⟩
      simp only [hslot]
  | none =>
      refine ⟨_, hshaped.setData hslot (some ⟨s.next, t.construct⟩), resizeLines_construct _,
        .inr ⟨hvalue, ?_, ?_⟩⟩
      · have hset := ThreadLocalValue.valueOf_setData
          (t := t.resizeLines (index / t.lineSize)) (some ⟨s.next, t.construct⟩)
          (by simpa using hslot)
        rw [resizeLines_lineSize, ThreadLocalValue.valueOf_resizeLines] at hset
        exact hset
      · simp only [hslot, resizeLines_construct]

theorem toVariable_eq (t : ThreadLocalValue) : t.toVariable = ⟨t.construct, t.valueOf⟩ := rfl

/-- After `destroy` a thread has no value, if it had one or not. -/
theorem destroy_toMaps (hv : s.var v = some t) (index : ℕ) :
    (s.destroy v index t).toMaps =
      s.toMaps.setVar v (some ⟨t.construct, update t.valueOf index none⟩) := by
  have hself : t.valueOf index = none → (s.toMaps =
      s.toMaps.setVar v (some ⟨t.construct, update t.valueOf index none⟩)) := by
    intro hnone
    rw [Function.update_eq_self_iff.2 hnone.symm]
    exact (Maps.setVar_self (by rw [var_toMaps, hv]; rfl)).symm
  rw [State.destroy]
  split
  · next val hval =>
    rw [toMaps_setVar, Option.map_some, toVariable_eq, valueOf_setData _ hval]
    rfl
  · next hother =>
    refine hself ?_
    rw [valueOf]
    cases hslot : t.getData (index / t.lineSize) (index % t.lineSize) with
    | none => rfl
    | some slot =>
        cases slot with
        | none => rfl
        | some val => exact absurd hslot (hother val)

/-- A step on the lines is the step on the maps. -/
theorem step_toMaps (h : AllShaped n s) (hn : 0 < n) (a : Action) :
    (step n s a).map (fun r => (r.1.toMaps, r.2)) = s.toMaps.step a := by
  cases a with
  | construct construct =>
      have hnew : (ThreadLocalValue.new n construct).toVariable = ⟨construct, fun _ => none⟩ := by
        rw [toVariable_eq, ThreadLocalValue.new, ThreadLocalValue.valueOf_resizeLines,
          ThreadLocalValue.valueOf_of_empty rfl, resizeLines_construct]
      simp [step, Maps.step, State.toMaps, hnew]
  | value v index =>
      simp only [step, Maps.step, var_toMaps]
      cases hv : s.var v with
      | none => rfl
      | some t =>
          obtain ⟨t', -, hconstruct, ⟨val, hval, hsame, heq⟩ | ⟨hnone, hnew, heq⟩⟩ :=
            value_eq (h v t hv) hn hv index
          · have hvar : t'.toVariable = t.toVariable := by
              rw [toVariable_eq, hconstruct, hsame]
              rfl
            have hself : s.toMaps.setVar v (some t.toVariable) = s.toMaps :=
              Maps.setVar_self (by rw [var_toMaps, hv]; rfl)
            have hvalue : t.toVariable.value index = some val := hval
            simp only [Option.bind_eq_bind, Option.bind_some, Option.map_some, heq, hvalue,
              toMaps_setVar, hvar, hself]
          · have hvalue : t.toVariable.value index = none := hnone
            have hvar : t'.toVariable =
                ⟨t.construct, update t.valueOf index (some ⟨s.next, t.construct⟩)⟩ := by
              rw [toVariable_eq, hconstruct, hnew]
            simp only [Option.bind_eq_bind, Option.bind_some, Option.map_some, heq, hvalue,
              toMaps_setVar, hvar]
            rfl
  | destroy v index =>
      simp only [step, Maps.step, var_toMaps]
      cases hv : s.var v with
      | none => rfl
      | some t =>
          simp only [Option.bind_eq_bind, Option.bind_some, Option.map_some, destroy_toMaps hv]
          rfl
  | destroyAll v =>
      simp only [step, Maps.step, var_toMaps]
      cases hv : s.var v with
      | none => rfl
      | some t =>
          have hvar : t.invalidated.toVariable = ⟨t.construct, fun _ => none⟩ := by
            rw [toVariable_eq, ThreadLocalValue.valueOf_invalidated]
            rfl
          simp only [Option.bind_eq_bind, Option.bind_some, Option.map_some, toMaps_setVar, hvar]
          rfl
  | moveConstruct other =>
      simp only [step, Maps.step, var_toMaps]
      cases hval : s.var other with
      | none => rfl
      | some val =>
          have hmoved : toVariable { val with memBlock := [] } =
              ⟨val.construct, fun _ => none⟩ := by
            rw [toVariable_eq, valueOf_of_empty rfl]
          simp only [Option.bind_eq_bind, Option.bind_some, Option.map_some, toMaps_concat,
            toMaps_setVar, hmoved]
          rfl
  | moveAssign v other =>
      simp only [step, Maps.step, var_toMaps]
      cases hv : s.var v with
      | none => rfl
      | some t =>
          cases hval : s.var other with
          | none => rfl
          | some val =>
              have hassigned :
                  s.toMaps.setVar v (some { t.toVariable with value := val.toVariable.value }) =
                    (s.setVar v (some { t with
                      lineSize := val.lineSize, memBlock := val.memBlock })).toMaps := by
                rw [toMaps_setVar]
                rfl
              have hmoved : ∀ val : ThreadLocalValue, toVariable { val with memBlock := [] } =
                  { val.toVariable with value := fun _ => none } := by
                intro val
                rw [toVariable_eq, valueOf_of_empty rfl]
                rfl
              simp only [Option.bind_eq_bind, Option.bind_some, Option.map_some, hassigned,
                State.moveAssign, var_toMaps, Option.map_map, Function.comp_def,
                toMaps_setVar (v := other), hmoved]
  | delete v =>
      simp only [step, Maps.step, var_toMaps]
      cases hv : s.var v with
      | none => rfl
      | some t =>
          simp only [Option.bind_eq_bind, Option.bind_some, Option.map_some, toMaps_setVar]
          rfl

theorem State.AllShaped.step (h : AllShaped n s) (hn : 0 < n)
    (hstep : step n s a = some (s', answer)) : AllShaped n s' := by
  cases a with
  | construct construct =>
      obtain ⟨rfl, -⟩ := Prod.mk.inj (Option.some.inj hstep)
      exact h.concat (.new n construct)
  | value v index =>
      obtain ⟨t, hv, hvalue⟩ := Option.bind_eq_some_iff.1 hstep
      obtain ⟨t', ht', -, ⟨val, -, -, heq⟩ | ⟨-, -, heq⟩⟩ := value_eq (h v t hv) hn hv index
      · rw [heq] at hvalue
        obtain ⟨rfl, -⟩ := Prod.mk.inj (Option.some.inj hvalue)
        exact h.setVar fun t ht => Option.some.inj ht ▸ ht'
      · rw [heq] at hvalue
        obtain ⟨rfl, -⟩ := Prod.mk.inj (Option.some.inj hvalue)
        exact AllShaped.setVar (s := { s with next := s.next + 1 }) h
          fun t ht => Option.some.inj ht ▸ ht'
  | destroy v index =>
      obtain ⟨t, hv, hdestroy⟩ := Option.bind_eq_some_iff.1 hstep
      obtain ⟨rfl, -⟩ := Prod.mk.inj (Option.some.inj hdestroy)
      rw [State.destroy]
      split
      · next val hval =>
        exact AllShaped.setVar (s := { s with destroyed := s.destroyed ++ [val.id] }) h
          fun t' ht' => Option.some.inj ht' ▸ (h v t hv).setData hval none
      · exact h
  | destroyAll v =>
      obtain ⟨t, hv, hdestroy⟩ := Option.bind_eq_some_iff.1 hstep
      obtain ⟨rfl, -⟩ := Prod.mk.inj (Option.some.inj hdestroy)
      exact AllShaped.setVar (s := { s with destroyed := s.destroyed ++ t.objects.map Object.id }) h
        fun t' ht' => Option.some.inj ht' ▸ (h v t hv).invalidated
  | moveConstruct other =>
      obtain ⟨val, hval, hmove⟩ := Option.bind_eq_some_iff.1 hstep
      obtain ⟨rfl, -⟩ := Prod.mk.inj (Option.some.inj hmove)
      have hmoved := h other val hval
      refine AllShaped.concat (h.setVar fun t ht => ?_) ⟨hmoved.lineSize, hmoved.line⟩
      rw [← Option.some.inj ht]
      exact .empty hmoved.lineSize rfl
  | moveAssign v other =>
      obtain ⟨t, hv, hstep⟩ := Option.bind_eq_some_iff.1 hstep
      obtain ⟨val, hval, hmove⟩ := Option.bind_eq_some_iff.1 hstep
      obtain ⟨rfl, -⟩ := Prod.mk.inj (Option.some.inj hmove)
      have hmoved := h other val hval
      have hassigned : AllShaped n (s.setVar v
          (some { t with lineSize := val.lineSize, memBlock := val.memBlock })) :=
        h.setVar fun t' ht' => Option.some.inj ht' ▸ ⟨hmoved.lineSize, hmoved.line⟩
      refine hassigned.setVar fun t' ht' => ?_
      obtain ⟨val', hval', rfl⟩ := Option.map_eq_some_iff.1 ht'
      exact .empty (hassigned other val' hval').lineSize rfl
  | delete v =>
      obtain ⟨t, hv, hdelete⟩ := Option.bind_eq_some_iff.1 hstep
      obtain ⟨rfl, -⟩ := Prod.mk.inj (Option.some.inj hdelete)
      exact AllShaped.setVar (s := { s with destroyed := s.destroyed ++ t.objects.map Object.id }) h
        fun t' ht' => nomatch ht'

theorem run_toMaps (h : AllShaped n s) (hn : 0 < n) (actions : List Action) :
    (run (step n) s actions).map (fun r => (r.1.toMaps, r.2)) =
      run Maps.step s.toMaps actions := by
  induction actions generalizing s with
  | nil => rfl
  | cons a actions ih =>
      rw [run, run, ← step_toMaps h hn a]
      cases hstep : step n s a with
      | none => rfl
      | some r =>
          have hrest := ih (h.step hn hstep)
          simp only [Option.bind_eq_bind, Option.map_some, Option.bind_some, ← hrest]
          cases run (step n) r.1 actions <;> rfl

end Steps

theorem allShaped_new (n : ℕ) : AllShaped n {} := fun _ _ h => nomatch h

/-- **Thread-local values.**  Whatever the threads of a program do with its variables, each of them
gets the values it would get from maps: a thread has the value that it made, and finds it again,
until it is destroyed, and not the value of another thread. -/
theorem thread_local_refines {n : ℕ} (hn : 0 < n) (actions : List Action) :
    (run (step n) {} actions).map (fun r => (r.1.toMaps, r.2)) = run Maps.step {} actions :=
  run_toMaps (allShaped_new n) hn actions

/-- Two threads, of which the second is in another line. -/
theorem thread_local_refines_two :
    (run (step 1) {} [.construct true, .value 0 0, .value 0 1, .value 0 0]).map (·.2) =
      some [none, some ⟨0, true⟩, some ⟨1, true⟩, some ⟨0, true⟩] := by
  have h := congrArg (Option.map Prod.snd) (thread_local_refines Nat.one_pos
    [.construct true, .value 0 0, .value 0 1, .value 0 0])
  rw [Option.map_map] at h
  exact h.trans rfl

/-! ### Objects -/

namespace ThreadLocalValue

def slotIds (slot : Slot) : List ℕ := slot.toList.map Object.id

/-- The objects of the lines. -/
def ids (t : ThreadLocalValue) : List ℕ := t.memBlock.flatMap fun line => line.flatMap slotIds

variable {t : ThreadLocalValue}

theorem ids_eq : t.objects.map Object.id = t.ids := by
  simp only [objects, ids, List.map_flatMap]
  rfl

theorem ids_invalidated : t.invalidated.ids = [] := by
  rw [ids, List.flatMap_eq_nil_iff]
  intro line hline
  obtain ⟨l, -, rfl⟩ := List.mem_map.1 hline
  rw [List.flatMap_eq_nil_iff]
  intro slot hslot
  obtain ⟨_, -, rfl⟩ := List.mem_map.1 hslot
  rfl

theorem ids_resizeLines (sizeReq : ℕ) : (t.resizeLines sizeReq).ids = t.ids := by
  rw [resizeLines]
  split
  · have hnone : ∀ line ∈ List.replicate (sizeReq + 1 - t.memBlock.length)
        (List.replicate t.lineSize (none : Slot)), line.flatMap slotIds = [] := by
      intro line hline
      rw [List.eq_of_mem_replicate hline, List.flatMap_eq_nil_iff]
      intro slot hslot
      rw [List.eq_of_mem_replicate hslot]
      rfl
    simp only [ids, List.flatMap_append, List.flatMap_eq_nil_iff.2 hnone, List.append_nil]
  · rfl

/-- A slot that gets an object. -/
theorem ids_setData {line offset : ℕ} (h : t.getData line offset = some none) (val : Object) :
    (t.setData line offset (some val)).ids.Perm ([val.id] ++ t.ids) := by
  obtain ⟨l, hl, hget, hslot⟩ := getD_of_getData h
  simp only [ids, setData, hget]
  exact flatMap_set_perm hl (flatMap_set_perm hslot (List.Perm.refl _))

/-- A slot that had an object. -/
theorem ids_of_setData {line offset : ℕ} {val : Object}
    (h : t.getData line offset = some (some val)) :
    t.ids.Perm ([val.id] ++ (t.setData line offset none).ids) := by
  obtain ⟨l, hl, hget, hslot⟩ := getD_of_getData h
  simp only [ids, setData, hget]
  exact perm_flatMap_set hl (perm_flatMap_set hslot (List.Perm.refl _))

end ThreadLocalValue

namespace State

def varIds (t : Option ThreadLocalValue) : List ℕ := t.toList.flatMap ThreadLocalValue.ids

/-- The objects of the variables. -/
def ids (s : State) : List ℕ := s.vars.flatMap varIds

variable {s : State} {v n : ℕ} {t : ThreadLocalValue}

theorem ids_setVar {t' : Option ThreadLocalValue} {extra : List ℕ} (hv : s.var v = some t)
    (h : (varIds t').Perm (extra ++ t.ids)) : (s.setVar v t').ids.Perm (extra ++ s.ids) := by
  refine flatMap_set_perm (var_eq_some_iff.1 hv) ?_
  simpa [varIds] using h

/-- What a variable does not have any more. -/
theorem ids_of_setVar {t' : Option ThreadLocalValue} {extra : List ℕ} (hv : s.var v = some t)
    (h : t.ids.Perm (extra ++ varIds t')) : s.ids.Perm (extra ++ (s.setVar v t').ids) := by
  refine perm_flatMap_set (var_eq_some_iff.1 hv) ?_
  simpa [varIds] using h

end State

/-- The objects that a step leaves in no variable, and does not destroy. -/
def lostBy (s : State) : Action → List ℕ
  | .moveAssign v other => if (s.var other).isSome then varIds (s.var v) else []
  | _                   => []

/-- No variable that has a value is assigned to. -/
def Kept (n : ℕ) : State → List Action → Prop
  | _, []      => True
  | s, a :: as => lostBy s a = [] ∧ ∀ r, step n s a = some r → Kept n r.1 as

/-- Every object made is in a variable, was destroyed, or was lost, and only one of these. -/
def Owned (s : State) (lost : List ℕ) : Prop :=
  (s.ids ++ (s.destroyed ++ lost)).Perm (List.range s.next)

section Ownership

variable {s s' : State} {n v other : ℕ} {t val : ThreadLocalValue} {a : Action}
  {answer : Option Object} {lost : List ℕ}

/-- The objects that go from a variable are destroyed, or lost. -/
theorem Owned.perm (h : Owned s lost) {ids : List ℕ} {rest : List ℕ}
    (hids : s.ids.Perm (ids ++ rest)) :
    (rest ++ (s.destroyed ++ ids ++ lost)).Perm (List.range s.next) := by
  refine List.Perm.trans ?_ h
  refine List.Perm.trans ?_ (hids.append_right _).symm
  rw [List.append_assoc, List.append_assoc]
  refine ((List.perm_append_comm_assoc ..).append_left rest).trans ?_
  exact List.perm_append_comm_assoc ..

theorem varIds_some (t : ThreadLocalValue) : varIds (some t) = t.ids := by
  simp [varIds]

/-- The lines of a variable go to another one. -/
theorem ids_moveAssign (hv : s.var v = some t) (hval : s.var other = some val) :
    s.ids.Perm (t.ids ++ (s.moveAssign v other t val).ids) := by
  by_cases hsame : v = other
  · -- a variable that is assigned to itself loses its lines
    subst hsame
    obtain rfl : t = val := Option.some.inj (hv.symm.trans hval)
    have hself : s.setVar v (some t) = s := by
      obtain ⟨hlt, hget⟩ := List.getElem?_eq_some_iff.1 (var_eq_some_iff.1 hv)
      simp only [State.setVar, ← hget, List.set_getElem_self]
    have hassign : s.moveAssign v v t t = s.setVar v (some { t with memBlock := [] }) := by
      have hstart : s.moveAssign v v t t = (s.setVar v (some t)).setVar v
          (((s.setVar v (some t)).var v).map fun val => { val with memBlock := [] }) := rfl
      rw [hstart, hself, hv, Option.map_some]
    rw [hassign]
    exact ids_of_setVar hv (by simp [varIds, ThreadLocalValue.ids])
  · -- without the lines of either variable, as many are left before as afterwards
    have hempty : ∀ u : ThreadLocalValue, varIds (some { u with memBlock := [] }) = [] := by
      intro u
      simp [varIds, ThreadLocalValue.ids]
    have hold : s.ids.Perm (t.ids ++ (s.setVar v (some { t with memBlock := [] })).ids) :=
      ids_of_setVar hv (by rw [hempty, List.append_nil])
    have hassigned : (((s.setVar v (some { t with memBlock := [] })).setVar v (some { t with
        lineSize := val.lineSize, memBlock := val.memBlock })).ids).Perm
          (val.ids ++ (s.setVar v (some { t with memBlock := [] })).ids) :=
      ids_setVar (var_setVar_self hv (some { t with memBlock := [] }))
        (by simp [varIds, ThreadLocalValue.ids])
    have hset : (s.setVar v (some { t with memBlock := [] })).setVar v
        (some { t with lineSize := val.lineSize, memBlock := val.memBlock }) =
          s.setVar v (some { t with lineSize := val.lineSize, memBlock := val.memBlock }) := by
      simp only [State.setVar, List.set_set]
    rw [hset] at hassigned
    have hother := (var_setVar_of_ne hsame (some { t with
      lineSize := val.lineSize, memBlock := val.memBlock })).trans hval
    have hmoved : ∀ {u : State}, u.var other = some val →
        u.ids.Perm (val.ids ++ (u.setVar other (some { val with memBlock := [] })).ids) :=
      fun hu => ids_of_setVar hu (by rw [hempty, List.append_nil])
    rw [State.moveAssign, hother]
    have hleft := (List.perm_append_left_iff val.ids).1 (hassigned.symm.trans (hmoved hother))
    exact hold.trans (hleft.append_left t.ids)

theorem Owned.value (h : Owned s lost) (hv : s.var v = some t) {index : ℕ}
    (hvalue : s.value v index t = some (s', answer)) : Owned s' lost := by
  rw [State.value] at hvalue
  dsimp only at hvalue
  split at hvalue
  · cases hvalue
  · next val hslot =>
    obtain ⟨rfl, -⟩ := Prod.mk.inj (Option.some.inj hvalue)
    have hids : (s.setVar v (some (t.resizeLines (index / t.lineSize)))).ids.Perm ([] ++ s.ids) :=
      ids_setVar hv (by rw [varIds_some, ids_resizeLines]; exact List.Perm.refl _)
    exact (hids.append_right _).trans h
  · next hslot =>
    obtain ⟨rfl, -⟩ := Prod.mk.inj (Option.some.inj hvalue)
    have hset := ids_setData hslot ⟨s.next, (t.resizeLines (index / t.lineSize)).construct⟩
    rw [ids_resizeLines] at hset
    have hids : (State.setVar { s with next := s.next + 1 } v (some ((t.resizeLines
        (index / t.lineSize)).setData (index / t.lineSize) (index % t.lineSize)
          (some ⟨s.next, (t.resizeLines (index / t.lineSize)).construct⟩)))).ids.Perm
        ([s.next] ++ s.ids) := ids_setVar hv (by rw [varIds_some]; exact hset)
    refine (hids.append_right _).trans ?_
    have hrange : (List.range s.next ++ [s.next]).Perm (List.range (s.next + 1)) := by
      rw [List.range_succ]
    exact ((List.Perm.cons s.next h).trans (List.perm_append_singleton _ _).symm).trans hrange

theorem Owned.destroy (h : Owned s lost) (hv : s.var v = some t) (index : ℕ) :
    Owned (s.destroy v index t) lost := by
  rw [State.destroy]
  split
  · next val hslot =>
    exact h.perm (ids_of_setVar hv (by rw [varIds_some]; exact ids_of_setData hslot))
  · exact h

/-- The objects of a variable are destroyed. -/
theorem Owned.destroyed (h : Owned s lost) (hv : s.var v = some t) {t' : Option ThreadLocalValue}
    (ht' : varIds t' = []) :
    Owned ({ s with destroyed := s.destroyed ++ t.objects.map Object.id }.setVar v t') lost := by
  rw [ids_eq]
  exact h.perm (ids_of_setVar hv (by rw [ht', List.append_nil]))

theorem Owned.step (h : Owned s lost) (hstep : step n s a = some (s', answer)) :
    Owned s' (lostBy s a ++ lost) := by
  cases a with
  | construct construct =>
      obtain ⟨rfl, -⟩ := Prod.mk.inj (Option.some.inj hstep)
      have hnew : varIds (some (ThreadLocalValue.new n construct)) = [] := by
        rw [varIds_some, ThreadLocalValue.new, ids_resizeLines]
        rfl
      have hids : State.ids { s with vars := s.vars ++ [some (.new n construct)] } = s.ids := by
        simp [State.ids, hnew]
      rw [Owned, hids]
      exact h
  | value v index =>
      obtain ⟨t, hv, hvalue⟩ := Option.bind_eq_some_iff.1 hstep
      exact h.value hv hvalue
  | destroy v index =>
      obtain ⟨t, hv, hdestroy⟩ := Option.bind_eq_some_iff.1 hstep
      obtain ⟨rfl, -⟩ := Prod.mk.inj (Option.some.inj hdestroy)
      exact h.destroy hv index
  | destroyAll v =>
      obtain ⟨t, hv, hdestroy⟩ := Option.bind_eq_some_iff.1 hstep
      obtain ⟨rfl, -⟩ := Prod.mk.inj (Option.some.inj hdestroy)
      exact h.destroyed hv (by rw [varIds_some, ids_invalidated])
  | moveConstruct other =>
      obtain ⟨val, hval, hmove⟩ := Option.bind_eq_some_iff.1 hstep
      obtain ⟨rfl, -⟩ := Prod.mk.inj (Option.some.inj hmove)
      have hmoved : s.ids.Perm (val.ids ++
          (s.setVar other (some { val with memBlock := [] })).ids) :=
        ids_of_setVar hval (by simp [varIds, ThreadLocalValue.ids])
      have hids : (State.ids { s with vars := (s.setVar other (some { val with
          memBlock := [] })).vars ++ [some { val with construct := false }] }).Perm s.ids := by
        have hlast : varIds (some { val with construct := false }) = val.ids := varIds_some _
        simp only [State.ids, List.flatMap_append, List.flatMap_cons, hlast, List.flatMap_nil,
          List.append_nil]
        exact List.perm_append_comm.trans hmoved.symm
      exact (hids.append_right _).trans h
  | moveAssign v other =>
      obtain ⟨t, hv, hstep⟩ := Option.bind_eq_some_iff.1 hstep
      obtain ⟨val, hval, hmove⟩ := Option.bind_eq_some_iff.1 hstep
      obtain ⟨rfl, -⟩ := Prod.mk.inj (Option.some.inj hmove)
      have hlost : lostBy s (.moveAssign v other) = t.ids := by
        rw [lostBy, hval, Option.isSome_some, if_pos rfl, hv, varIds_some]
      rw [hlost]
      have hperm := h.perm (ids_moveAssign hv hval)
      rw [List.append_assoc] at hperm
      exact hperm
  | delete v =>
      obtain ⟨t, hv, hdelete⟩ := Option.bind_eq_some_iff.1 hstep
      obtain ⟨rfl, -⟩ := Prod.mk.inj (Option.some.inj hdelete)
      exact h.destroyed hv rfl

theorem Owned.run {actions : List Action} {answers : List (Option Object)} (h : Owned s lost)
    (hrun : ThreadLocal.run (ThreadLocal.step n) s actions = some (s', answers)) :
    ∃ lost', Owned s' lost' ∧ (lost' = [] ↔ lost = [] ∧ Kept n s actions) := by
  induction actions generalizing s lost answers with
  | nil =>
      obtain ⟨rfl, -⟩ := Prod.mk.inj (Option.some.inj hrun)
      exact ⟨lost, h, by simp [Kept]⟩
  | cons a actions ih =>
      obtain ⟨⟨s₁, answer⟩, hstep, hrun⟩ := Option.bind_eq_some_iff.1 hrun
      obtain ⟨⟨s₂, answers'⟩, hrest, heq⟩ := Option.bind_eq_some_iff.1 hrun
      obtain ⟨rfl, -⟩ := Prod.mk.inj (Option.some.inj heq)
      obtain ⟨lost', hlost', hiff⟩ := ih (h.step hstep) hrest
      refine ⟨lost', hlost', ?_⟩
      rw [hiff, List.append_eq_nil_iff, Kept, hstep]
      simp only [Option.some.injEq, forall_eq']
      tauto

end Ownership

/-- **Objects.**  In no run is a value destroyed twice.  When all variables are deleted, every value
was destroyed just when no variable that had one was assigned to, be it from itself. -/
theorem destroyed_once_iff (n : ℕ) {actions : List Action} {s : State}
    {answers : List (Option Object)} (hrun : run (step n) {} actions = some (s, answers)) :
    s.destroyed.Nodup ∧ ((∀ v, s.var v = none) →
      (s.destroyed.Perm (List.range s.next) ↔ Kept n {} actions)) := by
  have hnew : Owned {} [] := List.Perm.refl []
  obtain ⟨lost, howned, hiff⟩ := hnew.run hrun
  have hnodup := howned.nodup_iff.2 List.nodup_range
  refine ⟨(List.nodup_append.1 (List.nodup_append.1 hnodup).2.1).1, fun hdeleted => ?_⟩
  have hids : s.ids = [] := by
    rw [State.ids, List.flatMap_eq_nil_iff]
    intro t ht
    obtain ⟨v, hv⟩ := List.getElem?_of_mem ht
    have hnone := hdeleted v
    rw [State.var, hv, Option.join_some] at hnone
    rw [hnone]
    rfl
  rw [Owned, hids, List.nil_append] at howned
  have hkept : lost = [] ↔ Kept n {} actions := by
    rw [hiff, and_iff_right rfl]
  rw [← hkept]
  constructor
  · intro hall
    have hlength := (howned.trans hall.symm).length_eq
    rw [List.length_append] at hlength
    exact List.eq_nil_of_length_eq_zero (Nat.add_eq_left.1 hlength)
  · rintro rfl
    rwa [List.append_nil] at howned

/-- A variable with a value that another one is assigned to. -/
theorem destroyed_once_assigned : ¬ Kept 1 {} [.construct false, .value 0 0, .construct false,
    .moveAssign 0 1, .delete 0, .delete 1] := by
  intro hkept
  have hrun : run (step 1) {} [.construct false, .value 0 0, .construct false, .moveAssign 0 1,
      .delete 0, .delete 1] = some ({ vars := [none, none], next := 1 },
        [none, some ⟨0, false⟩, none, none, none, none]) := rfl
  have hall := ((destroyed_once_iff 1 hrun).2 fun v => match v with
    | 0 | 1 | _ + 2 => rfl).2 hkept
  exact absurd hall.length_eq (by decide)

end MyEngine.Threading.ThreadLocal
