import MyEngine.Lua.BreakpointSources
import MyEngine.Lua.RuntimeValue

/-!
# Lua — BreakpointHits

`CheckPauseOnBreakpoint` of `lua_debuggee_impl.cpp`, which the hook of a Lua state asks whether to
stop.

* `checkPauseOnBreakpoint`: the events of the hook.
* `Pauses`: what is to be answered to an event.
* `resolved_run`: the sources of the breakpoints are there after any requests.
* `pauses_iff`: the events that are answered like that.
-/

namespace MyEngine.Lua

open Runs
open Serialization (Text)
open Support

inductive HookEvent where
  | call
  | ret
  | line
  | count
  | tailCall
  deriving DecidableEq, Repr

/-- `lua_Debug`, with the fields that are read.  The hook is called with what is in `source`
then. -/
structure LuaDebug where
  event : HookEvent
  source : Option Text := none
  currentline : ℤ := -1
  name : Option Text := none
  what : Text := []
  deriving DecidableEq, Repr

/-- What Lua knows of the function that is active. -/
structure Activation where
  source : Text
  currentline : ℤ
  name : Option Text
  what : Text
  deriving DecidableEq, Repr

/-- `lua_getinfo`, asked for the name, and for the source and the line, too, if `line` is set. -/
def getinfo (active : Activation) (line : Bool) (ar : LuaDebug) : LuaDebug :=
  { ar with
    source := some active.source
    name := active.name
    what := active.what
    currentline := if line then active.currentline else ar.currentline }

/-- `dap::StoppedEventBody`, with the fields that are set. -/
structure StoppedEventBody where
  reason : Text
  description : Text
  hitBreakpointIds : List ℕ := []
  deriving DecidableEq, Repr

def StoppedEventBody.setBreakpoint (body : StoppedEventBody) (id : ℕ) : StoppedEventBody :=
  { body with hitBreakpointIds := body.hitBreakpointIds ++ [id] }

/-- An element is read behind the end of the breakpoints, or of the sources. -/
inductive ReadsPastEnd where
  | breakpoints
  | sources
  deriving DecidableEq, Repr

/-- What the iterator of a search refers to. -/
def derefIterator {A : Type} (iter : Option A) : Except ReadsPastEnd A :=
  match iter with
  | none   => .error .breakpoints
  | some a => .ok a

namespace Debuggee

section Code
variable (s : Debuggee) (evaluate : Text → Option LuaValue) (active : Activation)

/-- `EvaluateCondition`: an expression with an error, or that is not boolean, is no condition. -/
def evaluateCondition (expression : Text) : Bool :=
  if expression = [] then true
  else
    match evaluate expression with
    | some (.boolean b) => b
    | _                 => true

/-- `static_cast<unsigned>` of a line. -/
def toUnsigned (currentline : ℤ) : ℕ := (currentline % 2 ^ 32).toNat

/-- The search of a breakpoint; the source of each one that is looked at is looked for. -/
def findHit (chunk : Text) (currentline : ℤ) : List SourceBp → Except ReadsPastEnd (Option SourceBp)
  | []        => .ok none
  | bp :: bps =>
      match s.getSource bp.sourceId with
      | none        => .error .sources
      | some source =>
          if source.equalFast chunk && bp.bp.line = toUnsigned currentline then .ok (some bp)
          else findHit chunk currentline bps

/-- The branch of a line. -/
def checkLine (ar : LuaDebug) : Except ReadsPastEnd (Option StoppedEventBody) := do
  let ar := getinfo active true ar
  let bp ← s.findHit (ar.source.getD []) ar.currentline s.sourceBreakpoints
  if bp.isSome then return none
  let bp ← derefIterator bp
  if bp.bp.logMessage ≠ [] then return none
  return some ((StoppedEventBody.mk "breakpoint".toList "Hit breakpoint".toList []).setBreakpoint
    bp.id)

/-- The branch of a call. -/
def checkCall (ar : LuaDebug) : Except ReadsPastEnd (Option StoppedEventBody) :=
  let ar := getinfo active false ar
  match ar.name with
  | none      => .ok none
  | some name =>
      if ar.what ≠ "Lua".toList then .ok none
      else
        match s.functionBreakpoints.find? fun bp => bp.bp.name = name with
        | none    => .ok none
        | some bp =>
            if !evaluateCondition evaluate bp.bp.condition then .ok none
            else .ok (some ((StoppedEventBody.mk "function breakpoint".toList
              ("Hitting function (".toList ++ bp.bp.name ++ ")".toList) []).setBreakpoint bp.id))

def checkPauseOnBreakpoint (ar : LuaDebug) : Except ReadsPastEnd (Option StoppedEventBody) :=
  if ar.event = .line && ar.source.isSome && 0 < ar.currentline && !s.sourceBreakpoints.isEmpty then
    s.checkLine active ar
  else if ar.event = .call && !s.functionBreakpoints.isEmpty then s.checkCall evaluate active ar
  else .ok none

end Code

/-! ### The answers -/

variable {s : Debuggee} {evaluate : Text → Option LuaValue} {active : Activation} {ar : LuaDebug}

/-- The source of each breakpoint is stored. -/
def Resolved (s : Debuggee) : Prop :=
  ∀ bp ∈ s.sourceBreakpoints, (s.getSource bp.sourceId).isSome

instance (s : Debuggee) : Decidable s.Resolved := inferInstanceAs (Decidable (∀ _ ∈ _, _))

/-- The first breakpoint of the line. -/
def firstHit (s : Debuggee) (active : Activation) : Option SourceBp :=
  (s.hitBy active.source).find? fun bp => bp.bp.line = toUnsigned active.currentline

/-- The breakpoints of the function, if it is one of Lua. -/
def namedBy (s : Debuggee) (active : Activation) : List FunctionBp :=
  s.functionBreakpoints.filter fun bp =>
    active.what = "Lua".toList && active.name = some bp.bp.name

/-- A stop at one of the breakpoints whose condition holds, if there is one. -/
def StopsAt (evaluate : Text → Option LuaValue) (named : List FunctionBp) :
    Option StoppedEventBody → Prop
  | none      => ∀ bp ∈ named, evaluateCondition evaluate bp.bp.condition = false
  | some body =>
      ∃ bp ∈ named, evaluateCondition evaluate bp.bp.condition ∧ body.hitBreakpointIds = [bp.id]

/-- What is to be answered.  On a line it is a stop at the first breakpoint of the line unless that
one has a message to log, on a call a stop at a breakpoint of the function whose condition holds, if
there is one, and otherwise nothing. -/
def Pauses (s : Debuggee) (evaluate : Text → Option LuaValue) (active : Activation)
    (ar : LuaDebug) : Prop :=
  ∃ answer, s.checkPauseOnBreakpoint evaluate active ar = .ok answer ∧
    match ar.event with
    | .line =>
        answer.map StoppedEventBody.hitBreakpointIds =
          ((s.firstHit active).filter fun bp => bp.bp.logMessage = []).map fun bp => [bp.id]
    | .call => StopsAt evaluate (s.namedBy active) answer
    | _     => answer = none

/-- On a line the first breakpoint has a message to log or, without one, there is no search; on a
call the first breakpoint of the function is the one whose condition holds, if there is one. -/
def Handled (s : Debuggee) (evaluate : Text → Option LuaValue) (active : Activation)
    (ar : LuaDebug) : Prop :=
  match ar.event with
  | .line =>
      match s.firstHit active with
      | some bp => bp.bp.logMessage ≠ []
      | none    => ar.source = none ∨ ar.currentline ≤ 0 ∨ s.sourceBreakpoints = []
  | .call =>
      (∃ bp ∈ s.namedBy active, evaluateCondition evaluate bp.bp.condition) →
        ∀ bp ∈ (s.namedBy active).head?, evaluateCondition evaluate bp.bp.condition
  | _     => True

theorem getSource_isSome {sourceId : ℕ} :
    (s.getSource sourceId).isSome ↔ sourceId ∈ s.sources.map SourceEntry.id := by
  rw [getSource, Option.isSome_map, Option.isSome_iff_ne_none, ne_eq, find?_key_none, not_not]

/-- The source of a request is stored, and those that were there are kept. -/
theorem mem_sources_storeSource (source : Source) :
    (s.storeSource source).1 ∈ (s.storeSource source).2.sources.map SourceEntry.id ∧
      s.sources ⊆ (s.storeSource source).2.sources := by
  rw [storeSource]
  cases hfind : s.findSource source with
  | some existingSource =>
      exact ⟨List.mem_map_of_mem (List.mem_of_find?_eq_some hfind), List.Subset.refl _⟩
  | none =>
      refine ⟨?_, List.subset_append_left _ _⟩
      exact List.mem_map_of_mem (List.mem_append_right s.sources List.mem_cons_self)

theorem Resolved.setBreakpoints (h : s.Resolved) (arg : SetBreakpointsArguments) :
    (s.setBreakpoints arg).2.Resolved := by
  obtain ⟨hid, hsources⟩ := s.mem_sources_storeSource arg.source
  rw [setBreakpoints_eq]
  intro bp hbp
  refine getSource_isSome.2 ?_
  rcases List.mem_append.1 hbp with hbp | hbp
  · have hmem : bp ∈ s.sourceBreakpoints :=
      storeSource_sourceBreakpoints (s := s) arg.source ▸ List.mem_of_mem_filter hbp
    exact List.map_subset _ hsources (getSource_isSome.1 (h bp hmem))
  · exact sourceId_requested hbp ▸ hid

/-- The sources of the breakpoints are there, whatever the requests have been. -/
theorem resolved_run (h : Steps step Free {} s) : s.Resolved := by
  refine h.invariant (fun {s request t} hs _ hstep => ?_) fun _ hbp => nomatch hbp
  obtain rfl := Option.some.inj hstep
  cases request with
  | setBreakpoints arg => exact hs.setBreakpoints arg
  | setFunctionBreakpoints arg =>
      rw [handle, setFunctionBreakpoints_eq]
      exact hs

theorem findHit_eq {chunk : Text} {currentline : ℤ} {bps : List SourceBp}
    (h : ∀ bp ∈ bps, (s.getSource bp.sourceId).isSome) :
    s.findHit chunk currentline bps =
      .ok ((bps.filter fun bp => (s.getSource bp.sourceId).any (·.equalFast chunk)).find?
        fun bp => bp.bp.line = toUnsigned currentline) := by
  induction bps with
  | nil => rfl
  | cons bp bps ih =>
      obtain ⟨source, hsource⟩ := Option.isSome_iff_exists.1 (h bp List.mem_cons_self)
      have hrest := ih fun bp hbp => h bp (List.mem_cons_of_mem _ hbp)
      rw [findHit, hsource, List.filter_cons, hsource, Option.any_some]
      dsimp only
      cases source.equalFast chunk with
      | false => exact hrest
      | true =>
          rw [if_pos rfl, List.find?_cons, Bool.true_and]
          cases decide (bp.bp.line = toUnsigned currentline) with
          | false => exact hrest
          | true => rfl

/-- With a breakpoint on the line the answer is nothing, and without one the end is read. -/
theorem checkLine_eq (h : s.Resolved) (ar : LuaDebug) :
    s.checkLine active ar =
      if (s.firstHit active).isSome then .ok none else .error .breakpoints := by
  have hfind : s.findHit active.source active.currentline s.sourceBreakpoints =
      .ok (s.firstHit active) := findHit_eq h
  have hline : s.checkLine active ar = (do
      let bp ← s.findHit active.source active.currentline s.sourceBreakpoints
      if bp.isSome then return none
      let bp ← derefIterator bp
      if bp.bp.logMessage ≠ [] then return none
      return some ((StoppedEventBody.mk "breakpoint".toList "Hit breakpoint".toList
        []).setBreakpoint bp.id)) := rfl
  rw [hline, hfind]
  cases s.firstHit active <;> rfl

/-- The first breakpoint of the function, in the words of the branch. -/
theorem head?_namedBy : (s.namedBy active).head? =
    match active.name with
    | none      => none
    | some name =>
        if active.what ≠ "Lua".toList then none
        else s.functionBreakpoints.find? fun bp => bp.bp.name = name := by
  rw [namedBy, List.head?_filter]
  cases hname : active.name with
  | none => exact List.find?_eq_none.2 fun bp _ => by simp
  | some name =>
      dsimp only
      split
      · next hwhat =>
          refine List.find?_eq_none.2 fun bp _ => ?_
          rw [decide_eq_false hwhat, Bool.false_and]
          exact Bool.false_ne_true
      · next hwhat =>
          rw [not_not.1 hwhat]
          refine congrArg (List.find? · _) (funext fun bp => ?_)
          simp [eq_comm]

/-- The answer to a call is that of the first breakpoint of the function. -/
theorem checkCall_eq (ar : LuaDebug) : ∃ answer, s.checkCall evaluate active ar = .ok answer ∧
    answer.map StoppedEventBody.hitBreakpointIds =
      ((s.namedBy active).head?.filter fun bp =>
        evaluateCondition evaluate bp.bp.condition).map fun bp => [bp.id] := by
  rw [head?_namedBy, checkCall]
  dsimp only [getinfo]
  cases active.name with
  | none => exact ⟨none, rfl, rfl⟩
  | some name =>
      dsimp only
      by_cases hwhat : active.what ≠ "Lua".toList
      · exact ⟨none, if_pos hwhat, by rw [if_pos hwhat]; rfl⟩
      · rw [if_neg hwhat]
        cases s.functionBreakpoints.find? fun bp => bp.bp.name = name with
        | none => exact ⟨none, if_neg hwhat, rfl⟩
        | some bp =>
            rw [Option.filter_some]
            dsimp only
            cases evaluateCondition evaluate bp.bp.condition with
            | false => exact ⟨none, if_neg hwhat, rfl⟩
            | true => exact ⟨_, if_neg hwhat, rfl⟩

/-- Without function breakpoints there is none of the function. -/
theorem namedBy_eq_nil (h : s.functionBreakpoints = []) : s.namedBy active = [] := by
  rw [namedBy, h, List.filter_nil]

theorem pauses_line (h : s.Resolved) (hevent : ar.event = .line) :
    s.Pauses evaluate active ar ↔ s.Handled evaluate active ar := by
  have hcheck : s.checkPauseOnBreakpoint evaluate active ar =
      if ar.source = none ∨ ar.currentline ≤ 0 ∨ s.sourceBreakpoints = [] then .ok none
      else if (s.firstHit active).isSome then .ok none else .error .breakpoints := by
    rw [checkPauseOnBreakpoint, checkLine_eq h, hevent]
    split
    · next hguard =>
        simp only [Bool.and_eq_true, decide_eq_true_eq, Bool.not_eq_true',
          List.isEmpty_eq_false_iff, Option.isSome_iff_ne_none] at hguard
        refine (if_neg ?_).symm
        rintro (hsource | hcurrentline | hnone)
        · exact hguard.1.1.2 hsource
        · omega
        · exact hguard.2 hnone
    · next hguard =>
        rw [if_neg (by simp)]
        refine (if_pos ?_).symm
        by_contra hno
        simp only [not_or, Int.not_le] at hno
        refine hguard ?_
        simp [Option.isSome_iff_ne_none, hno.1, hno.2.1, hno.2.2]
  rw [Pauses, hcheck, hevent, Handled, hevent]
  dsimp only
  cases hfirst : s.firstHit active with
  | none =>
      split
      · next hguard => exact iff_of_true ⟨none, rfl, rfl⟩ hguard
      · next hguard => exact iff_of_false (fun ⟨_, herror, _⟩ => nomatch herror) hguard
  | some bp =>
      rw [Option.isSome_some, if_pos rfl, ite_self, Option.filter_some]
      constructor
      · rintro ⟨answer, hanswer, hids⟩ hlog
        obtain rfl := Except.ok.inj hanswer
        rw [if_pos (decide_eq_true hlog)] at hids
        cases hids
      · intro hlog
        refine ⟨none, rfl, ?_⟩
        rw [if_neg (by simpa using hlog)]
        rfl

theorem pauses_call (hevent : ar.event = .call) :
    s.Pauses evaluate active ar ↔ s.Handled evaluate active ar := by
  obtain ⟨answer, hcheck, hids⟩ : ∃ answer,
      s.checkPauseOnBreakpoint evaluate active ar = .ok answer ∧
        answer.map StoppedEventBody.hitBreakpointIds =
          ((s.namedBy active).head?.filter fun bp =>
            evaluateCondition evaluate bp.bp.condition).map fun bp => [bp.id] := by
    rw [checkPauseOnBreakpoint, hevent, if_neg (by simp)]
    split
    · exact checkCall_eq ar
    · next hguard =>
        have hnone : s.functionBreakpoints = [] := by simpa using hguard
        exact ⟨none, rfl, by rw [namedBy_eq_nil hnone]; rfl⟩
  have hpauses : s.Pauses evaluate active ar ↔ StopsAt evaluate (s.namedBy active) answer := by
    rw [Pauses, hcheck, hevent]
    constructor
    · rintro ⟨answer', hanswer, hrest⟩
      obtain rfl := Except.ok.inj hanswer
      exact hrest
    · exact fun hrest => ⟨answer, rfl, hrest⟩
  rw [hpauses, Handled, hevent]
  dsimp only
  cases hnamed : s.namedBy active with
  | nil =>
      rw [hnamed] at hids
      cases answer with
      | none => exact iff_of_true (fun bp hbp => nomatch hbp) fun _ bp hbp => nomatch hbp
      | some body => cases hids
  | cons bp bps =>
      rw [hnamed, List.head?_cons, Option.filter_some] at hids
      cases hcondition : evaluateCondition evaluate bp.bp.condition with
      | true =>
          rw [hcondition, if_pos rfl] at hids
          obtain ⟨body, rfl, hbody⟩ := Option.map_eq_some_iff.1 hids
          refine iff_of_true ⟨bp, List.mem_cons_self, hcondition, hbody⟩ fun _ bp' hbp' => ?_
          obtain rfl := Option.some.inj hbp'
          exact hcondition
      | false =>
          rw [hcondition, if_neg Bool.false_ne_true] at hids
          obtain rfl := Option.map_eq_none_iff.1 hids
          constructor
          · rintro hall ⟨bp', hbp', htrue⟩
            exact absurd htrue (ne_true_of_eq_false (hall bp' hbp'))
          · intro hsome bp' hbp'
            by_contra htrue
            have hfirst := hsome ⟨bp', hbp', (Bool.not_eq_false _).mp htrue⟩ bp rfl
            exact Bool.false_ne_true (hcondition.symm.trans hfirst)

/-- **The answer to an event of the hook**, with any breakpoints, is what is to be answered when the
event is handled, and in no other case. -/
theorem pauses_iff (h : s.Resolved) (evaluate : Text → Option LuaValue) (active : Activation)
    (ar : LuaDebug) : s.Pauses evaluate active ar ↔ s.Handled evaluate active ar := by
  cases hevent : ar.event with
  | line => exact pauses_line h hevent
  | call => exact pauses_call hevent
  | ret | count | tailCall =>
      rw [Pauses, Handled, checkPauseOnBreakpoint, hevent]
      exact iff_of_true ⟨none, rfl, rfl⟩ trivial

/-- A breakpoint, a message to log and a breakpoint of a function. -/
def stored : Debuggee where
  nextBpId := 3
  nextSourceId := 1
  sourceBreakpoints :=
    [⟨1, 1, ⟨3, none, [], [], []⟩⟩, ⟨2, 1, ⟨4, none, [], [], "here".toList⟩⟩]
  functionBreakpoints := [⟨3, ⟨"f".toList, "x > 1".toList, []⟩⟩]
  sources := [⟨1, ⟨"@main.lua".toList⟩⟩]

/-- The hook of a line of the file. -/
def onLine (line : ℕ) : LuaDebug :=
  { event := .line, source := some "@main.lua".toList, currentline := line }

def inMain (line : ℕ) : Activation := ⟨"@Main.lua".toList, line, none, "main".toList⟩

/-- A message to log, and a function whose condition cannot be evaluated. -/
theorem pauses_stored :
    stored.Pauses (fun _ => none) (inMain 4) (onLine 4) ∧
      stored.Pauses (fun _ => none) ⟨"@main.lua".toList, -1, some "f".toList, "Lua".toList⟩
        { event := .call } := by
  have hresolved : stored.Resolved := by decide
  refine ⟨(pauses_iff hresolved _ _ _).2 ?_, (pauses_iff hresolved _ _ _).2 ?_⟩
  · have hfirst : stored.firstHit (inMain 4) =
        some ⟨2, 1, ⟨4, none, [], [], "here".toList⟩⟩ := by decide
    simp only [Handled, onLine, hfirst]
    decide
  · intro _ bp hbp
    obtain rfl : ⟨3, ⟨"f".toList, "x > 1".toList, []⟩⟩ = bp := Option.some.inj hbp
    rfl

/-- A line with a breakpoint is not stopped at, and on a line without one the end of the breakpoints
is read. -/
theorem not_pauses_stored :
    exec step {} [.setBreakpoints ⟨⟨"@main.lua".toList⟩,
        [⟨3, none, [], [], []⟩, ⟨4, none, [], [], "here".toList⟩]⟩,
      .setFunctionBreakpoints ⟨[⟨"f".toList, "x > 1".toList, []⟩]⟩] = some stored ∧
      ¬ stored.Pauses (fun _ => none) (inMain 3) (onLine 3) ∧
      stored.checkPauseOnBreakpoint (fun _ => none) (inMain 5) (onLine 5) =
        .error .breakpoints := by
  refine ⟨by decide, ?_, by rfl⟩
  rintro ⟨answer, hanswer, hids⟩
  obtain rfl : none = answer := Except.ok.inj hanswer
  have hall : none = ((stored.firstHit (inMain 3)).filter fun bp => bp.bp.logMessage = []).map
      fun bp => [bp.id] := hids
  revert hall
  decide

end Debuggee

end MyEngine.Lua
