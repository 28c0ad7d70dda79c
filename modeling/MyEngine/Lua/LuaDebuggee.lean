import Mathlib.Algebra.Group.Nat.Defs
import Mathlib.Data.List.Nodup
import Mathlib.Data.List.Range
import MyEngine.Network.HttpParser
import MyEngine.Serialization.Json
import MyEngine.Support.Runs

/-!
# Lua — LuaDebuggee

The breakpoints of `lua_debuggee_impl.cpp`, and what tells sources apart: `operator==` where they
are stored, `Source::EqualFast` where a breakpoint is hit.

* `Debuggee.setBreakpoints`, `Debuggee.setFunctionBreakpoints`: the two requests.
* `setBreakpoints_eq`: what is stored behind a request, and what it answers.
* `answered_iff`: the runs in which each response lists what is asked for, with ids of its own.
-/

namespace MyEngine.Lua

open Network (icaseEqual)
open Runs
open Serialization (Text)

/-! ### Sources -/

/-- `dap::Source`, which is told from others by its path. -/
structure Source where
  path : Text
  deriving DecidableEq, Repr

namespace Source

/-- `operator==` of a source and a path. -/
def equals (left : Source) (path : Text) : Bool :=
  if left.path = [] && path = [] then true
  else if left.path = [] || path = [] then false
  else icaseEqual left.path path

/-- The characters are the same but for their case, or they are slashes of the two kinds. -/
def equalChars (ch1 ch2 : Char) : Bool :=
  if ch1.toLower ≠ ch2.toLower then ch1 = '\\' && ch2 = '/' || ch1 = '/' && ch2 = '\\' else true

/-- The loop of `EqualFast`. -/
@[grind =] def equalFastLoop : Text → Text → Bool
  | ch1 :: rest1, ch2 :: rest2 =>
      if equalChars ch1 ch2 then equalFastLoop rest1 rest2 else false
  | _, _                       => true

/-- `EqualFast` of a source and a path. -/
def equalFast (source : Source) (path : Text) : Bool :=
  if source.path.length ≠ path.length then false else equalFastLoop source.path path

end Source

/-! ### Breakpoints -/

/-- `dap::SourceBreakpoint`. -/
structure SourceBreakpoint where
  line : ℕ
  column : Option ℕ := none
  condition : Text := []
  hitCondition : Text := []
  logMessage : Text := []
  deriving DecidableEq, Repr

/-- `dap::FunctionBreakpoint`. -/
structure FunctionBreakpoint where
  name : Text
  condition : Text := []
  hitCondition : Text := []
  deriving DecidableEq, Repr

/-- `dap::Breakpoint`, with the fields that are set. -/
structure Breakpoint where
  id : Option ℕ := none
  verified : Bool := false
  line : Option ℕ := none
  deriving DecidableEq, Repr

structure SourceBp where
  id : ℕ
  sourceId : ℕ
  bp : SourceBreakpoint
  deriving DecidableEq, Repr

structure FunctionBp where
  id : ℕ
  bp : FunctionBreakpoint
  deriving DecidableEq, Repr

structure SourceEntry where
  id : ℕ
  source : Source
  deriving DecidableEq, Repr

structure SetBreakpointsArguments where
  source : Source
  breakpoints : List SourceBreakpoint
  deriving DecidableEq, Repr

structure SetFunctionBreakpointsArguments where
  breakpoints : List FunctionBreakpoint
  deriving DecidableEq, Repr

/-- What `LuaDebuggeeImpl` keeps of its breakpoints; the counters are of type `unsigned`. -/
structure Debuggee where
  nextBpId : ℕ := 0
  nextSourceId : ℕ := 0
  sourceBreakpoints : List SourceBp := []
  functionBreakpoints : List FunctionBp := []
  sources : List SourceEntry := []
  deriving DecidableEq, Repr

/-- `++` of an `unsigned`. -/
def increment (n : ℕ) : ℕ := (n + 1) % 2 ^ 32

namespace Debuggee

section Code
variable (s : Debuggee)

/-- The first of `m_sources` that is equal. -/
def findSource (source : Source) : Option SourceEntry :=
  s.sources.find? fun entry => entry.source.equals source.path

/-- `StoreSource`. -/
def storeSource (source : Source) : ℕ × Debuggee :=
  match s.findSource source with
  | some existingSource => (existingSource.id, s)
  | none =>
      let id := increment s.nextSourceId
      (id, { s with nextSourceId := id, sources := s.sources ++ [⟨id, source⟩] })

/-- `GetSource`; without an entry the end of the list is read. -/
def getSource (sourceId : ℕ) : Option Source :=
  (s.sources.find? fun entry => entry.id = sourceId).map SourceEntry.source

/-- The loops that answer a request: each breakpoint is numbered and stored. -/
@[grind =]
def addBreakpoints {P : Type} (answer : ℕ → P → Breakpoint) (store : ℕ → P → Debuggee → Debuggee) :
    List P → Debuggee → List Breakpoint × Debuggee
  | [], s           => ([], s)
  | inBp :: rest, s =>
      let id := increment s.nextBpId
      let r := addBreakpoints answer store rest (store id inBp { s with nextBpId := id })
      (answer id inBp :: r.1, r.2)

/-- All breakpoints of the source are removed. -/
def removeBreakpoints (sourceId : ℕ) : Debuggee :=
  { s with sourceBreakpoints := s.sourceBreakpoints.filter (·.sourceId ≠ sourceId) }

def setBreakpoints (arg : SetBreakpointsArguments) : List Breakpoint × Debuggee :=
  let (sourceId, s) := s.storeSource arg.source
  addBreakpoints (fun id inBp => ⟨some id, true, some inBp.line⟩)
    (fun id inBp s =>
      { s with sourceBreakpoints := s.sourceBreakpoints ++ [⟨id, sourceId, inBp⟩] })
    arg.breakpoints (s.removeBreakpoints sourceId)

def setFunctionBreakpoints (arg : SetFunctionBreakpointsArguments) : List Breakpoint × Debuggee :=
  let r := addBreakpoints (fun id _ => ⟨some id, true, none⟩)
    (fun id inBp s => { s with functionBreakpoints := s.functionBreakpoints ++ [⟨id, inBp⟩] })
    arg.breakpoints { s with functionBreakpoints := [] }
  -- The list of answers is left behind, and an empty one is returned.
  ([], r.2)

end Code

end Debuggee

inductive Request where
  | setBreakpoints (arg : SetBreakpointsArguments)
  | setFunctionBreakpoints (arg : SetFunctionBreakpointsArguments)
  deriving DecidableEq, Repr

namespace Debuggee

/-- The response, and the breakpoints that are stored then. -/
def handle (s : Debuggee) : Request → List Breakpoint × Debuggee
  | .setBreakpoints arg         => s.setBreakpoints arg
  | .setFunctionBreakpoints arg => s.setFunctionBreakpoints arg

def step (s : Debuggee) (request : Request) : Option Debuggee := some (s.handle request).2

end Debuggee

/-! ### Ids -/

/-- The ids that the counter goes on to. -/
def nextIds : ℕ → ℕ → List ℕ
  | _, 0     => []
  | n, k + 1 => increment n :: nextIds (increment n) k

section Ids
variable {n k : ℕ}

@[simp] theorem length_nextIds (n k : ℕ) : (nextIds n k).length = k := by
  induction k generalizing n with
  | zero => rfl
  | succ k ih => rw [nextIds, List.length_cons, ih]

/-- What the ids alone decide. -/
theorem zipWith_nextIds {P γ : Type} (f : ℕ → γ) (n : ℕ) (bps : List P) :
    List.zipWith (fun id _ => f id) (nextIds n bps.length) bps =
      (nextIds n bps.length).map f := by
  induction bps generalizing n with
  | nil => rfl
  | cons bp bps ih => rw [List.length_cons, nextIds, List.zipWith_cons_cons, ih, List.map_cons]

theorem nextIds_eq (n k : ℕ) :
    nextIds n k = (List.range k).map fun i => (n + 1 + i) % 2 ^ 32 := by
  induction k generalizing n with
  | zero => rfl
  | succ k ih =>
      rw [nextIds, ih, List.range_succ_eq_map, List.map_cons, List.map_map]
      refine congrArg _ (List.map_congr_left fun i _ => ?_)
      simp only [increment, Function.comp_apply]
      omega

/-- The counter comes back to an id after all the other ones. -/
theorem nodup_nextIds : (nextIds n k).Nodup ↔ k ≤ 2 ^ 32 := by
  rw [nextIds_eq, List.nodup_map_iff_inj_on List.nodup_range]
  constructor
  · intro hinj
    by_contra hlt
    have hzero : 0 ∈ List.range k := List.mem_range.2 (by omega)
    have hlast : 2 ^ 32 ∈ List.range k := List.mem_range.2 (by omega)
    have heq := hinj 0 hzero (2 ^ 32) hlast (by omega)
    omega
  · intro hle i hi j hj heq
    rw [List.mem_range] at hi hj
    omega

end Ids

/-! ### What the loops store -/

namespace Debuggee

variable {s t : Debuggee} {arg : SetBreakpointsArguments} {request : Request}

/-- The counter after `k` breakpoints. -/
def lastId (n k : ℕ) : ℕ := (nextIds n k).getLastD n

theorem lastId_succ (n k : ℕ) : lastId n (k + 1) = lastId (increment n) k := by
  rw [lastId, nextIds, lastId, List.getLastD_cons]

/-- What is stored is behind what was there, under the ids that are returned. -/
theorem addBreakpoints_source (sourceId : ℕ) (bps : List SourceBreakpoint) (s : Debuggee) :
    addBreakpoints (fun id inBp => ⟨some id, true, some inBp.line⟩)
      (fun id inBp s =>
        { s with sourceBreakpoints := s.sourceBreakpoints ++ [⟨id, sourceId, inBp⟩] }) bps s =
      (List.zipWith (fun id inBp => ⟨some id, true, some inBp.line⟩)
          (nextIds s.nextBpId bps.length) bps,
        { s with
          nextBpId := lastId s.nextBpId bps.length
          sourceBreakpoints := s.sourceBreakpoints ++
            List.zipWith (fun id inBp => ⟨id, sourceId, inBp⟩)
              (nextIds s.nextBpId bps.length) bps }) := by
  induction bps generalizing s with
  | nil => simp [addBreakpoints, nextIds, lastId]
  | cons bp bps ih =>
      rw [addBreakpoints]
      simp only [ih, List.length_cons, lastId_succ, nextIds, List.zipWith_cons_cons,
        List.append_assoc, List.singleton_append]

theorem addBreakpoints_function (bps : List FunctionBreakpoint) (s : Debuggee) :
    addBreakpoints (fun id _ => ⟨some id, true, none⟩)
      (fun id inBp s => { s with functionBreakpoints := s.functionBreakpoints ++ [⟨id, inBp⟩] })
      bps s =
      (List.zipWith (fun id _ => ⟨some id, true, none⟩) (nextIds s.nextBpId bps.length) bps,
        { s with
          nextBpId := lastId s.nextBpId bps.length
          functionBreakpoints := s.functionBreakpoints ++
            List.zipWith FunctionBp.mk (nextIds s.nextBpId bps.length) bps }) := by
  induction bps generalizing s with
  | nil => simp [addBreakpoints, nextIds, lastId]
  | cons bp bps ih =>
      rw [addBreakpoints]
      simp only [ih, List.length_cons, lastId_succ, nextIds, List.zipWith_cons_cons,
        List.append_assoc, List.singleton_append]

/-- What is stored when the breakpoints of the source are removed. -/
def kept (s : Debuggee) (source : Source) : Debuggee :=
  (s.storeSource source).2.removeBreakpoints (s.storeSource source).1

@[simp] theorem storeSource_nextBpId (source : Source) :
    (s.storeSource source).2.nextBpId = s.nextBpId := by
  rw [storeSource]
  split <;> rfl

@[simp] theorem storeSource_sourceBreakpoints (source : Source) :
    (s.storeSource source).2.sourceBreakpoints = s.sourceBreakpoints := by
  rw [storeSource]
  split <;> rfl

@[simp] theorem storeSource_functionBreakpoints (source : Source) :
    (s.storeSource source).2.functionBreakpoints = s.functionBreakpoints := by
  rw [storeSource]
  split <;> rfl

/-- The breakpoints of a request, as they are stored. -/
def requested (s : Debuggee) (arg : SetBreakpointsArguments) : List SourceBp :=
  List.zipWith (fun id inBp => ⟨id, (s.storeSource arg.source).1, inBp⟩)
    (nextIds s.nextBpId arg.breakpoints.length) arg.breakpoints

theorem setBreakpoints_eq (s : Debuggee) (arg : SetBreakpointsArguments) :
    s.setBreakpoints arg =
      (List.zipWith (fun id inBp => ⟨some id, true, some inBp.line⟩)
          (nextIds s.nextBpId arg.breakpoints.length) arg.breakpoints,
        { s.kept arg.source with
          nextBpId := lastId s.nextBpId arg.breakpoints.length
          sourceBreakpoints := (s.kept arg.source).sourceBreakpoints ++ s.requested arg }) := by
  have hnext : (s.kept arg.source).nextBpId = s.nextBpId := storeSource_nextBpId arg.source
  rw [setBreakpoints]
  dsimp only
  rw [← kept, addBreakpoints_source, hnext, requested]

theorem setFunctionBreakpoints_eq (s : Debuggee) (arg : SetFunctionBreakpointsArguments) :
    s.setFunctionBreakpoints arg =
      ([], { s with
        nextBpId := lastId s.nextBpId arg.breakpoints.length
        functionBreakpoints :=
          List.zipWith FunctionBp.mk (nextIds s.nextBpId arg.breakpoints.length)
            arg.breakpoints }) := by
  rw [setFunctionBreakpoints, addBreakpoints_function]
  rfl

/-! ### The responses -/

/-- The ids of the breakpoints of both kinds. -/
def ids (s : Debuggee) : List ℕ :=
  s.sourceBreakpoints.map SourceBp.id ++ s.functionBreakpoints.map FunctionBp.id

/-- The response has one breakpoint for each that is requested, in their order, with the id under
which it is stored. -/
def Answers {P : Type} (requested : List P) (stored : List (ℕ × P)) (response : List Breakpoint) :
    Prop :=
  ∃ ids : List ℕ, ids.length = requested.length ∧ response.map Breakpoint.id = ids.map some ∧
    ids.zip requested <:+ stored

/-- The request is answered, and no two breakpoints share an id. -/
def Answered (s : Debuggee) (request : Request) : Prop :=
  let r := s.handle request
  (match request with
    | .setBreakpoints arg         =>
        Answers arg.breakpoints (r.2.sourceBreakpoints.map fun bp => (bp.id, bp.bp)) r.1
    | .setFunctionBreakpoints arg =>
        Answers arg.breakpoints (r.2.functionBreakpoints.map fun bp => (bp.id, bp.bp)) r.1) ∧
    r.2.ids.Nodup

/-- The counter does not come to an id that is in use, and no function breakpoint is asked for. -/
def Numbered (s : Debuggee) : Request → Prop
  | .setBreakpoints arg         =>
      arg.breakpoints.length ≤ 2 ^ 32 ∧
        ∀ id ∈ nextIds s.nextBpId arg.breakpoints.length, id ∉ (s.kept arg.source).ids
  | .setFunctionBreakpoints arg => arg.breakpoints = []

instance (s : Debuggee) : ∀ request, Decidable (s.Numbered request)
  | .setBreakpoints _         => inferInstanceAs (Decidable (_ ∧ _))
  | .setFunctionBreakpoints _ => inferInstanceAs (Decidable (_ = _))

theorem map_id_requested (s : Debuggee) (arg : SetBreakpointsArguments) :
    (s.requested arg).map SourceBp.id = nextIds s.nextBpId arg.breakpoints.length := by
  rw [requested, List.map_zipWith, zipWith_nextIds (fun id => id), List.map_id']

theorem answers_setBreakpoints (s : Debuggee) (arg : SetBreakpointsArguments) :
    Answers arg.breakpoints
      ((s.setBreakpoints arg).2.sourceBreakpoints.map fun bp => (bp.id, bp.bp))
      (s.setBreakpoints arg).1 := by
  refine ⟨nextIds s.nextBpId arg.breakpoints.length, length_nextIds _ _, ?_, ?_⟩
  · rw [setBreakpoints_eq, List.map_zipWith, zipWith_nextIds some]
  · rw [setBreakpoints_eq, List.map_append, requested, List.map_zipWith]
    exact List.suffix_append _ _

theorem ids_setBreakpoints (s : Debuggee) (arg : SetBreakpointsArguments) :
    (s.setBreakpoints arg).2.ids.Perm
      (nextIds s.nextBpId arg.breakpoints.length ++ (s.kept arg.source).ids) := by
  rw [setBreakpoints_eq, ids, List.map_append, map_id_requested, List.append_assoc]
  exact List.perm_append_comm_assoc _ _ _

theorem ids_kept (s : Debuggee) (source : Source) : (s.kept source).ids.Sublist s.ids := by
  have hsource : (s.kept source).sourceBreakpoints.Sublist s.sourceBreakpoints := by
    rw [kept, removeBreakpoints, storeSource_sourceBreakpoints]
    exact List.filter_sublist
  have hfunction : (s.kept source).functionBreakpoints = s.functionBreakpoints :=
    storeSource_functionBreakpoints source
  rw [ids, ids, hfunction]
  exact (hsource.map _).append (List.Sublist.refl _)

theorem answered_iff_numbered (h : s.ids.Nodup) (request : Request) :
    s.Answered request ↔ s.Numbered request := by
  cases request with
  | setBreakpoints arg =>
      have hkept := h.sublist (s.ids_kept arg.source)
      have hnodup : (s.setBreakpoints arg).2.ids.Nodup ↔ s.Numbered (.setBreakpoints arg) := by
        rw [(s.ids_setBreakpoints arg).nodup_iff, List.nodup_append', nodup_nextIds]
        exact and_congr_right fun _ => and_iff_right hkept
      exact (and_iff_right (s.answers_setBreakpoints arg)).trans hnodup
  | setFunctionBreakpoints arg =>
      constructor
      · rintro ⟨⟨ids, hlength, hresponse, -⟩, -⟩
        have hids : ids = [] := List.map_eq_nil_iff.1 hresponse.symm
        exact List.length_eq_zero_iff.1 (hlength.symm.trans (congrArg _ hids))
      · intro hnone
        obtain ⟨breakpoints⟩ := arg
        obtain rfl : breakpoints = [] := hnone
        refine ⟨⟨[], rfl, rfl, List.nil_suffix⟩, ?_⟩
        have hids : (s.setFunctionBreakpoints ⟨[]⟩).2.ids.Sublist s.ids :=
          (List.Sublist.refl _).append (List.nil_sublist _)
        exact h.sublist hids

/-- **The responses**, in any sequence of requests, list what is asked for, and the ids of the
breakpoints are distinct, when each request is numbered, and in no other case. -/
theorem answered_iff (requests : List Request) :
    Allowed step Answered {} requests ↔ Allowed step Numbered {} requests := by
  refine allowed_congr (P := fun s => s.ids.Nodup) ?_ (fun request h _ => ?_) requests
    List.nodup_nil (allowed_free requests _)
  · intro s request t h _ hanswered hstep
    obtain rfl := Option.some.inj hstep
    exact hanswered.2
  · exact answered_iff_numbered h request

/-- A breakpoint is set on a function, and the response is empty. -/
theorem not_answered_function :
    ¬ Allowed step Answered {} [.setFunctionBreakpoints ⟨[⟨"f".toList, [], []⟩]⟩] := by
  rintro ⟨⟨⟨ids, hlength, hresponse, -⟩, -⟩, -⟩
  have hids : ids = [] := List.map_eq_nil_iff.1 hresponse.symm
  rw [hids] at hlength
  cases hlength

end Debuggee

end MyEngine.Lua
