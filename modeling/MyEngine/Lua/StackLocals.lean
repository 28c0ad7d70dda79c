import MyEngine.Serialization.Json
import MyEngine.Support.Assoc

/-!
# Lua — StackLocals

The function `GetStackLocal` that a debug expression calls, of `lua_debugger_state.cpp`, with the
enumerators of `lua_utils.cpp` that it goes through a frame with.

* `State.enumerateLocals`, `State.enumerateUpValues`: the loops; the value they stand at is on the
  stack of Lua.
* `State.searchLevels`: the loop over the frames.
* `getStackLocal_iff`: a name is resolved to what the frame has under it first.
* `getStackLocal_visible`: that is what the code of the frame sees where no name is declared twice.
-/

namespace MyEngine.Lua.StackLocals

open Serialization (Text)
open Support

variable {V : Type}

/-! ### The Lua state -/

/-- The names of a function that is running, each list in the order of Lua's indices. -/
structure Frame (V : Type) where
  locals : List (Text × V) := []
  upvalues : List (Text × V) := []
  deriving DecidableEq, Repr

/-- What is on the stack of Lua: a value, or the function that runs at a level. -/
inductive Slot (V : Type) where
  | value (v : V)
  | function (level : ℕ)
  deriving DecidableEq, Repr

/-- The frames, the running one first, and the stack, its top first. -/
structure State (V : Type) where
  frames : List (Frame V)
  stack : List (Slot V) := []
  deriving DecidableEq, Repr

namespace State

variable (l : State V)

def push (slot : Slot V) : State V := { l with stack := slot :: l.stack }

def pop : State V := { l with stack := l.stack.tail }

/-- `lua_getlocal`: the name of a local of the frame at `level`, with its value on the stack. -/
def getlocal (level n : ℕ) : Option (Text × State V) :=
  match l.frames[level]? with
  | some frame =>
      if n = 0 then none
      else (frame.locals[n - 1]?).map fun (name, v) => (name, l.push (.value v))
  | none       => none

/-- `lua_getupvalue` of the function on the top of the stack. -/
def getupvalue (n : ℕ) : Option (Text × State V) :=
  match l.stack.head? with
  | some (.function level) =>
      match l.frames[level]? with
      | some frame =>
          if n = 0 then none
          else (frame.upvalues[n - 1]?).map fun (name, v) => (name, l.push (.value v))
      | none       => none
  | _                      => none

/-! ### `StackLocalsEnumerator` and `UpValuesEnumerator` -/

/-- The loop over an enumerator, up to the name that is looked for; `next` is `lua_getlocal` or
`lua_getupvalue`. -/
def enumerate (next : State V → ℕ → Option (Text × State V)) (targetName : Text) :
    (fuel : ℕ) → State V → (index : ℕ) → Option (Bool × State V)
  | 0, _, _            => none
  | fuel + 1, l, index =>
      match next l index with
      | none           => some (false, l)
      | some (name, l) =>
          if targetName = name then some (true, l)
          else enumerate next targetName fuel l.pop (index + 1)

def enumerateLocals (fuel level : ℕ) (targetName : Text) : Option (Bool × State V) :=
  enumerate (fun l n => l.getlocal level n) targetName fuel l 1

def enumerateUpValues (fuel : ℕ) (targetName : Text) : Option (Bool × State V) :=
  enumerate getupvalue targetName fuel l 1

/-! ### `GetStackLocal` -/

/-- The loop over the levels; `targetFrameLevel` is negative where all of them are searched. -/
def searchLevels (namesFuel : ℕ) (targetFrameLevel : ℤ) (targetName : Text) :
    (fuel : ℕ) → State V → (level : ℕ) → Option (Bool × State V)
  | 0, _, _            => none
  | fuel + 1, l, level =>
      if level < l.frames.length then do
        let (found, l) ← l.enumerateLocals namesFuel level targetName
        if found then some (true, l)
        else
          -- `lua_getinfo` with "f"
          let (found, l) ← (l.push (.function level)).enumerateUpValues namesFuel targetName
          if found then some (true, l)
          else if level = targetFrameLevel then some (false, l)
          else searchLevels namesFuel targetFrameLevel targetName fuel l (level + 1)
      else some (false, l)

end State

def stackFrameOffset : ℕ := 2

/-- Enough for the names of every frame. -/
def namesFuel (frames : List (Frame V)) : ℕ :=
  frames.foldr (fun frame fuel => frame.locals.length + frame.upvalues.length + fuel) 1

def unresolved (targetName : Text) : Text := "Local (".toList ++ targetName ++ ") unresolved".toList

/-- What is returned behind the loop: the value on the top of the stack, or an error. -/
def finish (targetName : Text) (found : Bool) (l : State V) : Except Text (Slot V) :=
  match found, l.stack.head? with
  | true, some slot => .ok slot
  | _, _            => .error (unresolved targetName)

/-- The function of the field `GetStackLocal`: nothing where a loop has not enough fuel; an error,
or the value that is returned.  `active` tells whether the callback gives an activation record. -/
def getStackLocal (active : Bool) (frames : List (Frame V)) (requestedFrame : ℤ)
    (targetName : Text) : Option (Except Text (Slot V)) :=
  if active then do
    let targetFrameLevel := if requestedFrame ≥ 0 then requestedFrame + stackFrameOffset else -1
    let level := if targetFrameLevel < 0 then stackFrameOffset else targetFrameLevel.toNat
    let (found, l) ← State.searchLevels (namesFuel frames) targetFrameLevel targetName
      (frames.length + 1) ⟨frames, []⟩ level
    some (finish targetName found l)
  else some (.error "No active stack trace".toList)

/-! ### What a frame has under a name -/

namespace Frame

/-- The first local of the name, or the first upvalue. -/
def resolve (frame : Frame V) (name : Text) : Option V :=
  (frame.locals.lookup name).or (frame.upvalues.lookup name)

/-- What the code of the frame sees: a local hides those that were declared before. -/
def visible (frame : Frame V) (name : Text) : Option V :=
  (frame.locals.reverse.lookup name).or (frame.upvalues.lookup name)

end Frame

/-! ### The loops -/

namespace State

variable {l : State V} {next : State V → ℕ → Option (Text × State V)} {names : List (Text × V)}
  {targetName : Text}

/-- `next` goes through the names and leaves the state apart from what is on the top of the stack.
-/
def Lists (next : State V → ℕ → Option (Text × State V)) (l : State V)
    (names : List (Text × V)) : Prop :=
  ∀ n, next l (n + 1) = (names[n]?).map fun (name, v) => (name, l.push (.value v))

theorem lists_getlocal {frame : Frame V} {level : ℕ} (h : l.frames[level]? = some frame) :
    Lists (fun l n => l.getlocal level n) l frame.locals := by
  intro n
  simp only [getlocal, h, Nat.add_one_ne_zero, if_false, Nat.add_sub_cancel]

theorem lists_getupvalue {frame : Frame V} {level : ℕ} (h : l.frames[level]? = some frame) :
    Lists getupvalue (l.push (.function level)) frame.upvalues := by
  intro n
  simp only [getupvalue, push, List.head?_cons, h, Nat.add_one_ne_zero, if_false,
    Nat.add_sub_cancel]

/-- The loop stops at the first of the name with its value on the stack, or leaves the stack. -/
theorem enumerate_eq (h : Lists next l names) {fuel n : ℕ} (hfuel : names.length - n < fuel) :
    enumerate next targetName fuel l (n + 1) =
      match (names.drop n).lookup targetName with
      | some v => some (true, l.push (.value v))
      | none   => some (false, l) := by
  induction fuel generalizing n with
  | zero => exact absurd hfuel (Nat.not_lt_zero _)
  | succ fuel ih =>
      rw [enumerate, h n]
      cases hn : names[n]? with
      | none =>
          rw [List.drop_eq_nil_of_le (List.getElem?_eq_none_iff.1 hn)]
          rfl
      | some entry =>
          obtain ⟨name, v⟩ := entry
          obtain ⟨hlt, hget⟩ := List.getElem?_eq_some_iff.1 hn
          rw [List.drop_eq_getElem_cons hlt, hget]
          simp only [Option.map_some, List.lookup_cons]
          split
          · next heq =>
            subst heq
            simp
          · next hne =>
            have hpop : (l.push (.value v)).pop = l := rfl
            rw [hpop, ih (by omega), beq_false_of_ne hne]

/-! ### One level, and all of them -/

variable {fuel level namesFuel : ℕ} {targetFrameLevel : ℤ} {frame : Frame V}

/-- At a frame that has the name the loop ends with its value on the stack. -/
theorem searchLevels_found (h : l.frames[level]? = some frame)
    (hfuel : frame.locals.length + frame.upvalues.length < namesFuel) {v : V}
    (hv : frame.resolve targetName = some v) :
    ∃ stack, searchLevels namesFuel targetFrameLevel targetName (fuel + 1) l level =
      some (true, ⟨l.frames, .value v :: stack⟩) := by
  have hlt := (List.getElem?_eq_some_iff.1 h).1
  rw [searchLevels, if_pos hlt, enumerateLocals,
    enumerate_eq (lists_getlocal h) (by omega), List.drop_zero]
  cases hlocal : frame.locals.lookup targetName with
  | some w =>
      rw [Frame.resolve, hlocal, Option.some_or] at hv
      obtain rfl := Option.some.inj hv
      exact ⟨_, rfl⟩
  | none =>
      rw [Frame.resolve, hlocal, Option.none_or] at hv
      refine ⟨.function level :: l.stack, ?_⟩
      simp only [Option.bind_eq_bind, Option.bind_some, Bool.false_eq_true, if_false,
        enumerateUpValues]
      rw [enumerate_eq (lists_getupvalue h) (by omega), List.drop_zero, hv]
      rfl

/-- At another one it goes on, unless it is the one that was asked for. -/
theorem searchLevels_next (h : l.frames[level]? = some frame)
    (hfuel : frame.locals.length + frame.upvalues.length < namesFuel)
    (hnone : frame.resolve targetName = none) :
    searchLevels namesFuel targetFrameLevel targetName (fuel + 1) l level =
      if level = targetFrameLevel then some (false, l.push (.function level))
      else searchLevels namesFuel targetFrameLevel targetName fuel (l.push (.function level))
        (level + 1) := by
  have hlt := (List.getElem?_eq_some_iff.1 h).1
  obtain ⟨hlocal, hupvalue⟩ := Option.or_eq_none_iff.1 hnone
  rw [searchLevels, if_pos hlt, enumerateLocals,
    enumerate_eq (lists_getlocal h) (by omega), List.drop_zero, hlocal]
  simp only [Option.bind_eq_bind, Option.bind_some, Bool.false_eq_true, if_false,
    enumerateUpValues]
  rw [enumerate_eq (lists_getupvalue h) (by omega), List.drop_zero, hupvalue]
  rfl

/-- What the loop ends with. -/
def Found (frames : List (Frame V)) (answer : Option V) (result : Option (Bool × State V)) : Prop :=
  match answer with
  | some v => ∃ stack, result = some (true, ⟨frames, .value v :: stack⟩)
  | none   => ∃ stack, result = some (false, ⟨frames, stack⟩)

/-- One level is asked for. -/
theorem searchLevels_one (targetName : Text) (fuel level : ℕ)
    (hfuel : ∀ frame ∈ l.frames, frame.locals.length + frame.upvalues.length < namesFuel) :
    Found l.frames ((l.frames[level]?).bind (·.resolve targetName))
      (searchLevels namesFuel level targetName (fuel + 1) l level) := by
  cases h : l.frames[level]? with
  | none =>
      rw [searchLevels, if_neg (Nat.not_lt_of_le (List.getElem?_eq_none_iff.1 h))]
      exact ⟨_, rfl⟩
  | some frame =>
      have hnames := hfuel frame (List.mem_of_getElem? h)
      rw [Option.bind_some]
      cases hv : frame.resolve targetName with
      | some v => exact searchLevels_found h hnames hv
      | none =>
          rw [searchLevels_next h hnames hv, if_pos rfl]
          exact ⟨_, rfl⟩

/-- All of them are, from one on. -/
theorem searchLevels_all (targetName : Text)
    (hfuel : ∀ frame ∈ l.frames, frame.locals.length + frame.upvalues.length < namesFuel)
    (hlevels : l.frames.length - level < fuel) :
    Found l.frames ((l.frames.drop level).findSome? (·.resolve targetName))
      (searchLevels namesFuel (-1) targetName fuel l level) := by
  induction fuel generalizing l level with
  | zero => exact absurd hlevels (Nat.not_lt_zero _)
  | succ fuel ih =>
      cases h : l.frames[level]? with
      | none =>
          have hle := List.getElem?_eq_none_iff.1 h
          rw [searchLevels, if_neg (Nat.not_lt_of_le hle), List.drop_eq_nil_of_le hle]
          exact ⟨_, rfl⟩
      | some frame =>
          obtain ⟨hlt, hget⟩ := List.getElem?_eq_some_iff.1 h
          have hnames := hfuel frame (List.mem_of_getElem? h)
          rw [List.drop_eq_getElem_cons hlt, hget, List.findSome?_cons]
          cases hv : frame.resolve targetName with
          | some v => exact searchLevels_found h hnames hv
          | none =>
              rw [searchLevels_next h hnames hv, if_neg (by omega)]
              have hrest : l.frames.length - (level + 1) < fuel := by omega
              exact ih (l := l.push (.function level)) hfuel hrest

end State

/-! ### What a name is resolved to -/

theorem namesFuel_pos (frames : List (Frame V)) : 0 < namesFuel frames := by
  induction frames with
  | nil => exact Nat.one_pos
  | cons frame frames ih => exact Nat.lt_of_lt_of_le ih (Nat.le_add_left _ _)

theorem lt_namesFuel {frames : List (Frame V)} {frame : Frame V} (h : frame ∈ frames) :
    frame.locals.length + frame.upvalues.length < namesFuel frames := by
  induction frames with
  | nil => cases h
  | cons head frames ih =>
      rcases List.mem_cons.1 h with rfl | h
      · exact Nat.lt_add_of_pos_right (namesFuel_pos frames)
      · exact Nat.lt_of_lt_of_le (ih h) (Nat.le_add_left _ _)

/-- The frame that is asked for, or the first one, has the name. -/
def resolveStackLocal (frames : List (Frame V)) (requestedFrame : ℤ) (name : Text) : Option V :=
  if requestedFrame ≥ 0 then (frames[requestedFrame.toNat]?).bind (·.resolve name)
  else frames.findSome? (·.resolve name)

def returned (targetName : Text) : Option V → Except Text (Slot V)
  | some v => .ok (.value v)
  | none   => .error (unresolved targetName)

/-- What the loop ends with is what is returned. -/
theorem finish_found {frames : List (Frame V)} {answer : Option V}
    {result : Option (Bool × State V)} (h : State.Found frames answer result) (targetName : Text) :
    (result >>= fun (found, l) => some (finish targetName found l)) =
      some (returned targetName answer) := by
  cases answer with
  | some v =>
      obtain ⟨stack, rfl⟩ := h
      rfl
  | none =>
      obtain ⟨stack, rfl⟩ := h
      rfl

/-- **Locals.**  `GetStackLocal` returns, below its own frame and that of the expression, what the
frame that is asked for has under the name, and fails where it has nothing; for a negative number
it is the first frame that has something. -/
theorem getStackLocal_eq (own chunk : Frame V) (frames : List (Frame V)) (requestedFrame : ℤ)
    (targetName : Text) :
    getStackLocal true (own :: chunk :: frames) requestedFrame targetName =
      some (returned targetName (resolveStackLocal frames requestedFrame targetName)) := by
  set all := own :: chunk :: frames with hall
  have hnames : ∀ frame ∈ (⟨all, []⟩ : State V).frames,
      frame.locals.length + frame.upvalues.length < namesFuel all := fun _ h => lt_namesFuel h
  have hdrop : all.drop stackFrameOffset = frames := rfl
  simp only [getStackLocal, if_true, resolveStackLocal]
  by_cases hrequested : requestedFrame ≥ 0
  · obtain ⟨level, rfl⟩ := Int.eq_ofNat_of_zero_le hrequested
    have htarget : (level + stackFrameOffset : ℤ) = ((level + 2 : ℕ) : ℤ) := rfl
    have hget : all[level + 2]? = frames[level]? := rfl
    have hfound := State.searchLevels_one targetName all.length (level + 2) hnames
    rw [hget] at hfound
    rw [if_pos hrequested, if_pos hrequested, htarget,
      if_neg (Int.not_lt.2 (Int.natCast_nonneg _)), Int.toNat_natCast, Int.toNat_natCast]
    exact finish_found hfound targetName
  · have hlevels : all.length - stackFrameOffset < all.length + 1 := by omega
    have hfound := State.searchLevels_all targetName hnames hlevels
    rw [hdrop] at hfound
    rw [if_neg hrequested, if_neg hrequested, if_pos (by decide)]
    exact finish_found hfound targetName

/-- A frame that declares no name twice: what is resolved is what its code sees. -/
theorem getStackLocal_visible (own chunk : Frame V) {frames : List (Frame V)} {level : ℕ}
    {frame : Frame V} (h : frames[level]? = some frame)
    (hnodup : (frame.locals.map Prod.fst).Nodup) (targetName : Text) :
    getStackLocal true (own :: chunk :: frames) level targetName =
      some (returned targetName (frame.visible targetName)) := by
  have hlookup := lookup_reverse hnodup targetName
  rw [getStackLocal_eq, resolveStackLocal, if_pos (Int.natCast_nonneg level), Int.toNat_natCast, h,
    Option.bind_some, Frame.visible, hlookup, Frame.resolve]

end MyEngine.Lua.StackLocals
