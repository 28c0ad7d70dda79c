import Mathlib.Algebra.Ring.Nat
import Mathlib.Data.List.Flatten
import Mathlib.Data.List.Nodup
import Mathlib.Data.List.Perm.Basic
import MyEngine.Network.HttpParser
import MyEngine.Support.Runs

/-!
# Debug — DebuggerHostRunner

`debugger_host_runner.cpp`, `dap.cpp`: a debug session reads the client's requests one after
another; some it answers itself before it reads on, for the others it starts tasks.

* `Coroutine.resume`: `requestCall` and the senders, from one suspension to the next.
* `DebuggerState.step`: a request is received, or the session, one of its tasks or the debuggee
  goes on.
* `session_sound`: a session with no `source` request, whose host starts it and that does not run
  out of ids, answers every request once and gives no id twice.
-/

namespace MyEngine.Debug

open Network Runs

/-! ### Messages -/

def kCommand_Initialize : String := "initialize"

def kCommand_Attach : String := "attach"

def kCommand_ConfigurationDone : String := "configurationDone"

def kCommand_SetBreakpoints : String := "setBreakpoints"

def kEvent_Initialized : String := "initialized"

def kEvent_Stopped : String := "stopped"

/-- The `seq` of a message that was given none. -/
def InvalidSeq : UInt32 := UInt32.ofNat (2 ^ 32 - 1)

structure ProtocolMessage where
  seq : UInt32 := InvalidSeq
  type : String := ""
  deriving DecidableEq, Repr

structure RequestMessage (A : Type) extends ProtocolMessage where
  command : String
  arguments : A
  deriving DecidableEq, Repr

/-- `EventMessage`, and with a body `GenericEventMessage`. -/
structure EventMessage (B : Type) extends ProtocolMessage where
  eventType : String
  body : Option B := none
  deriving DecidableEq, Repr

/-- `ResponseMessage`, and with a body `GenericResponseMessage`. -/
structure ResponseMessage (B : Type) extends ProtocolMessage where
  request_seq : UInt32 := InvalidSeq
  success : Bool := true
  command : String := ""
  message : Option String := none
  body : Option B := none
  deriving DecidableEq, Repr

/-- What is written to the stream. -/
inductive Message (B : Type) where
  | response (message : ResponseMessage B)
  | event (message : EventMessage B)
  deriving DecidableEq, Repr

def EventMessage.ofSeq {B : Type} (messageSeq : UInt32) (eventType : String) : EventMessage B where
  seq := messageSeq
  type := "event"
  eventType := eventType

def InitializedEvent {B : Type} (messageSeq : UInt32) : EventMessage B :=
  .ofSeq messageSeq kEvent_Initialized

namespace ResponseMessage

variable {A B : Type}

def ofRequest (messageSeq : UInt32) (request : RequestMessage A) : ResponseMessage B where
  seq := messageSeq
  type := "response"
  request_seq := request.seq
  command := request.command

def setError (response : ResponseMessage B) (errorMessage : String) : ResponseMessage B :=
  { response with
    success := false
    message := if errorMessage ≠ "" then some errorMessage else response.message }

end ResponseMessage

/-! ### The coroutines -/

/-- A coroutine of the session, by what it awaits. -/
inductive Coroutine (A B : Type) where
  /-- `requestCall`, before the handler: it may switch to the debuggee's executor. -/
  | requestCall (request : RequestMessage A)
  | sendResponse (message : ResponseMessage B)
  /-- Behind `attach`: the delay before the `initialized` event. -/
  | sendInitialized
  | sendEvent (message : EventMessage B)
  deriving DecidableEq

/-- What a coroutine has done when it suspends again, or ends. -/
structure Turn (A B : Type) where
  m_nextSeqId : ℕ
  rest : Option (Coroutine A B) := none
  written : Option (Message B) := none

/-- From a suspension to the next; `result` is the handler's, its error by its message.  The counter
is kept unbounded here, and `UInt32.ofNat` is what the 32 bits of it show. -/
def Coroutine.resume {A B : Type} (m_nextSeqId : ℕ) (result : Except String (Option B)) :
    Coroutine A B → Turn A B
  | .requestCall request =>
      let nextSeqId := m_nextSeqId + 1
      match result with
      | .error error =>
          let errorResponse : ResponseMessage B := .ofRequest (UInt32.ofNat nextSeqId) request
          { m_nextSeqId := nextSeqId, rest := some (.sendResponse (errorResponse.setError error)) }
      | .ok body =>
          let response : ResponseMessage B := .ofRequest (UInt32.ofNat nextSeqId) request
          { m_nextSeqId := nextSeqId, rest := some (.sendResponse { response with body := body }) }
  | .sendResponse message =>
      { m_nextSeqId := m_nextSeqId, written := some (.response message) }
  | .sendInitialized =>
      let nextSeqId := m_nextSeqId + 1
      { m_nextSeqId := nextSeqId
        rest := some (.sendEvent (InitializedEvent (UInt32.ofNat nextSeqId))) }
  | .sendEvent message => { m_nextSeqId := m_nextSeqId, written := some (.event message) }

/-! ### The session -/

/-- Where the loop of `initAndRunDebugSession` is. -/
inductive Place (A B : Type) where
  | reading
  | startDebugSession (response : ResponseMessage B)
  /-- It awaits a coroutine; `attach` is the branch that starts the `initialized` task behind it. -/
  | awaiting (coroutine : Coroutine A B) (attach : Bool)
  | ended
  deriving DecidableEq

/-- `DebuggerState`, with the loop and the tasks of its session, the requests that were received and
the messages that were written. -/
structure DebuggerState (A B : Type) where
  m_nextSeqId : ℕ := 1
  m_debuggee : Bool := false
  place : Place A B := .reading
  tasks : List (Coroutine A B) := []
  received : List (RequestMessage A) := []
  sent : List (Message B) := []
  deriving DecidableEq

/-- `resumed` is the loop that goes on, `resumedTask` one of the tasks; `pause` is the debuggee's
call of `Pause`. -/
inductive Action (A B : Type) where
  | receive (request : RequestMessage A)
  | started (result : Except String B)
  | resumed (result : Except String (Option B))
  | resumedTask (task : Coroutine A B) (result : Except String (Option B))
  | pause (eventData : B)

/-- `request->command` is this command. -/
def RequestMessage.Is {A : Type} (request : RequestMessage A) (command : String) : Prop :=
  icaseEqual request.command.toList command.toList

instance {A : Type} (request : RequestMessage A) (command : String) :
    Decidable (request.Is command) :=
  inferInstanceAs (Decidable (icaseEqual _ _))

/-- `requestHandlers` has an entry for the request. -/
def RequestMessage.Handled {A : Type} (request : RequestMessage A) : Prop :=
  request.Is kCommand_ConfigurationDone ∨ request.Is kCommand_SetBreakpoints

instance {A : Type} (request : RequestMessage A) : Decidable request.Handled :=
  inferInstanceAs (Decidable (_ ∨ _))

namespace DebuggerState

variable {A B : Type} (runtimeValueApply : A → Except String Unit)

/-- The branches of the loop.  Without a debuggee `requestCall` is not defined. -/
def receive (s : DebuggerState A B) (request : RequestMessage A) : Option (DebuggerState A B) :=
  let s := { s with received := s.received ++ [request] }
  let nextSeqId := s.m_nextSeqId + 1
  if request.Is kCommand_Initialize then
    match runtimeValueApply request.arguments with
    | .error _ => some { s with place := .ended }
    | .ok _    =>
        some { s with
          m_nextSeqId := nextSeqId
          place := .startDebugSession (.ofRequest (UInt32.ofNat nextSeqId) request) }
  else if request.Is kCommand_Attach then
    if s.m_debuggee then some { s with place := .awaiting (.requestCall request) true } else none
  else if request.Is "source" then
    let err := ({} : ResponseMessage B).setError "Invalid sorce ref"
    some { s with place := .awaiting (.sendResponse err) false }
  else if request.Handled then
    if s.m_debuggee then some { s with tasks := .requestCall request :: s.tasks } else none
  else
    some { s with
      m_nextSeqId := nextSeqId
      place := .awaiting (.sendResponse (.ofRequest (UInt32.ofNat nextSeqId) request)) false }

variable [DecidableEq A] [DecidableEq B]

/-- The tasks refer to the session, and go no further when the loop has ended. -/
def step (s : DebuggerState A B) : Action A B → Option (DebuggerState A B)
  | .receive request => if s.place = .reading then s.receive runtimeValueApply request else none
  | .started result =>
      match s.place with
      | .startDebugSession response =>
          match result with
          | .error _ => some { s with place := .ended }
          | .ok body =>
              some { s with
                m_debuggee := true
                place := .awaiting (.sendResponse { response with body := some body }) false }
      | _ => none
  | .resumed result =>
      match s.place with
      | .awaiting coroutine attach =>
          let turn := coroutine.resume s.m_nextSeqId result
          let s := { s with
            m_nextSeqId := turn.m_nextSeqId
            sent := s.sent ++ turn.written.toList }
          match turn.rest with
          | some coroutine => some { s with place := .awaiting coroutine attach }
          | none           =>
              some { s with
                place := .reading
                tasks := if attach then .sendInitialized :: s.tasks else s.tasks }
      | _ => none
  | .resumedTask task result =>
      if task ∈ s.tasks ∧ s.place ≠ .ended then
        let turn := task.resume s.m_nextSeqId result
        some { s with
          m_nextSeqId := turn.m_nextSeqId
          sent := s.sent ++ turn.written.toList
          tasks := turn.rest.toList ++ s.tasks.erase task }
      else none
  | .pause eventData =>
      if s.received ≠ [] ∧ s.place ≠ .ended then
        let nextSeqId := s.m_nextSeqId + 1
        let event : EventMessage B := .ofSeq (UInt32.ofNat nextSeqId) kEvent_Stopped
        some { s with
          m_nextSeqId := nextSeqId
          tasks := .sendEvent { event with body := some eventData } :: s.tasks }
      else none

end DebuggerState

/-! ### What is owed -/

section

variable {A B : Type}

/-- The `seq` of a message. -/
def Message.seq : Message B → UInt32
  | .response message => message.seq
  | .event message    => message.seq

/-- What correlates a response with its request. -/
abbrev Key := UInt32 × String

/-- The request a message answers. -/
def Message.answers : Message B → List Key
  | .response message => [(message.request_seq, message.command)]
  | .event _          => []

def RequestMessage.key (request : RequestMessage A) : Key := (request.seq, request.command)

/-- The request that a coroutine has still to answer. -/
def Coroutine.owes : Coroutine A B → List Key
  | .requestCall request  => [request.key]
  | .sendResponse message => [(message.request_seq, message.command)]
  | .sendInitialized      => []
  | .sendEvent _          => []

/-- The id of the message a coroutine has built. -/
def Coroutine.seqs : Coroutine A B → List UInt32
  | .sendResponse message => [message.seq]
  | .sendEvent message    => [message.seq]
  | .requestCall _        => []
  | .sendInitialized      => []

/-- How often a coroutine is still to be resumed. -/
def Coroutine.work : Coroutine A B → ℕ
  | .requestCall _ | .sendInitialized => 2
  | .sendResponse _ | .sendEvent _    => 1

namespace Place

def owes : Place A B → List Key
  | .startDebugSession response => [(response.request_seq, response.command)]
  | .awaiting coroutine _       => coroutine.owes
  | .reading                    => []
  | .ended                      => []

def seqs : Place A B → List UInt32
  | .startDebugSession response => [response.seq]
  | .awaiting coroutine _       => coroutine.seqs
  | .reading                    => []
  | .ended                      => []

def work : Place A B → ℕ
  | .startDebugSession _          => 2
  | .awaiting coroutine attach    => coroutine.work + if attach then 2 else 0
  | .reading                      => 0
  | .ended                        => 0

end Place

namespace DebuggerState

variable (runtimeValueApply : A → Except String Unit)

/-- The requests that have an answer coming, by their keys: all but an `initialize` whose arguments
are not valid. -/
def asked (requests : List (RequestMessage A)) : List Key :=
  (requests.filter fun request =>
    ¬ (request.Is kCommand_Initialize ∧ runtimeValueApply request.arguments ≠ .ok ())).map
      RequestMessage.key

def answers (s : DebuggerState A B) : List Key := s.sent.flatMap Message.answers

def owed (s : DebuggerState A B) : List Key := s.place.owes ++ s.tasks.flatMap Coroutine.owes

/-- The ids of the messages that are about to be written. -/
def building (s : DebuggerState A B) : List UInt32 :=
  s.place.seqs ++ s.tasks.flatMap Coroutine.seqs

/-- The ids of the messages that were built. -/
def seqs (s : DebuggerState A B) : List UInt32 := s.sent.map Message.seq ++ s.building

def work (s : DebuggerState A B) : ℕ := s.place.work + (s.tasks.map Coroutine.work).sum

end DebuggerState

end

/-! ### The ids -/

/-- The ids that were given are `unsigned` values of the counter, behind its start. -/
structure Given (m_nextSeqId : ℕ) (seqs : List UInt32) : Prop where
  nodup : seqs.Nodup
  counted : ∀ seq ∈ seqs, ∃ k, 2 ≤ k ∧ k ≤ m_nextSeqId ∧ seq = UInt32.ofNat k
  bound : 1 ≤ m_nextSeqId ∧ m_nextSeqId ≤ 2 ^ 32 + 1

namespace Given

variable {n : ℕ} {seqs seqs' : List UInt32}

theorem perm (h : Given n seqs) (hp : seqs'.Perm seqs) : Given n seqs' where
  nodup := hp.nodup_iff.2 h.nodup
  counted seq hseq := h.counted seq (hp.mem_iff.1 hseq)
  bound := h.bound

/-- The counter's next value is none that was given, as long as it has not come around. -/
theorem next (h : Given n seqs) (hn : n ≤ 2 ^ 32) :
    Given (n + 1) (UInt32.ofNat (n + 1) :: seqs) where
  nodup := by
    refine List.nodup_cons.2 ⟨fun hmem => ?_, h.nodup⟩
    obtain ⟨k, hk, hle, he⟩ := h.counted _ hmem
    have hmod := congrArg UInt32.toNat he
    simp only [UInt32.toNat_ofNat'] at hmod
    omega
  counted seq hseq := by
    rcases List.mem_cons.1 hseq with rfl | hseq
    · exact ⟨n + 1, Nat.succ_le_succ h.bound.1, Nat.le_refl _, rfl⟩
    · obtain ⟨k, hk, hle, he⟩ := h.counted seq hseq
      exact ⟨k, hk, Nat.le_succ_of_le hle, he⟩
  bound := ⟨Nat.le_add_left 1 n, Nat.succ_le_succ hn⟩

end Given

namespace Coroutine

variable {A B : Type} (c : Coroutine A B) (n : ℕ) (result : Except String (Option B))

/-- The next turn builds a message. -/
def takesId : Coroutine A B → Bool
  | .requestCall _ | .sendInitialized => true
  | .sendResponse _ | .sendEvent _    => false

/-- What a turn answers, and what is left to answer. -/
theorem resume_owes :
    (c.resume n result).written.toList.flatMap Message.answers ++
      (c.resume n result).rest.toList.flatMap owes = c.owes := by
  cases c with
  | requestCall request =>
      cases result with
      | error error => rfl
      | ok body => rfl
  | sendResponse message => rfl
  | sendInitialized => rfl
  | sendEvent message => rfl

/-- A turn takes the next id for a message it builds, or none. -/
theorem resume_seqs :
    (c.resume n result).m_nextSeqId = n + c.takesId.toNat ∧
      (c.resume n result).written.toList.map Message.seq ++
        (c.resume n result).rest.toList.flatMap seqs =
          (if c.takesId then [UInt32.ofNat (n + 1)] else []) ++ c.seqs := by
  cases c with
  | requestCall request =>
      cases result with
      | error error => exact ⟨rfl, rfl⟩
      | ok body => exact ⟨rfl, rfl⟩
  | sendResponse message => exact ⟨rfl, rfl⟩
  | sendInitialized => exact ⟨rfl, rfl⟩
  | sendEvent message => exact ⟨rfl, rfl⟩

theorem resume_work : ((c.resume n result).rest.toList.map work).sum < c.work := by
  cases c with
  | requestCall request =>
      cases result with
      | error error => exact Nat.lt_succ_self 1
      | ok body => exact Nat.lt_succ_self 1
  | sendResponse message => exact Nat.zero_lt_one
  | sendInitialized => exact Nat.lt_succ_self 1
  | sendEvent message => exact Nat.zero_lt_one

end Coroutine

/-! ### The runs -/

namespace DebuggerState

variable {A B : Type} (runtimeValueApply : A → Except String Unit)

/-- The step takes an id. -/
def takesId (s : DebuggerState A B) : Action A B → Bool
  | .receive request =>
      if request.Is kCommand_Initialize then decide (runtimeValueApply request.arguments = .ok ())
      else !decide (request.Is kCommand_Attach ∨ request.Handled)
  | .started _          => false
  | .resumed _          =>
      match s.place with
      | .awaiting coroutine _ => coroutine.takesId
      | _                     => false
  | .resumedTask task _ => task.takesId
  | .pause _            => true

/-- The request is none for a `source`, and none that ends the session while answers are to come;
and the host starts the session it is asked for. -/
def served (s : DebuggerState A B) : Action A B → Bool
  | .receive request    =>
      !decide (request.Is "source") && (decide (s.owed = []) ||
        decide (request.Is kCommand_Initialize → runtimeValueApply request.arguments = .ok ()))
  | .started (.error _) => false
  | _                   => true

/-- The first request is `initialize`. -/
def initializeFirst (s : DebuggerState A B) : Action A B → Bool
  | .receive request => decide (s.received = [] → request.Is kCommand_Initialize)
  | _                => true

/-- The step is served, and there is an id left where it takes one. -/
def Meets (s : DebuggerState A B) (a : Action A B) : Prop :=
  initializeFirst s a = true ∧ s.served runtimeValueApply a = true ∧
    (s.takesId runtimeValueApply a = true → s.m_nextSeqId ≤ 2 ^ 32)

instance (s : DebuggerState A B) (a : Action A B) : Decidable (s.Meets runtimeValueApply a) :=
  inferInstanceAs (Decidable (_ ∧ _ ∧ (_ → _)))

/-- A step of the loop or of a task. -/
def own : Action A B → Bool
  | .receive _ | .pause _ => false
  | _                     => true

variable [DecidableEq A] [DecidableEq B]

/-- The responses that were written and those still to come are, up to their order, one for each
request, and no two messages have the same id.  As long as an answer is to come the session can go
on, and its own steps come to an end. -/
structure Sound (s : DebuggerState A B) : Prop where
  responses : (s.answers ++ s.owed).Perm (asked runtimeValueApply s.received)
  seqs : (s.sent.map Message.seq).Nodup
  goesOn : s.owed ≠ [] → ∃ a, own a = true ∧ s.served runtimeValueApply a = true ∧
    (step runtimeValueApply s a).isSome
  ends : ∀ a s', own a = true → step runtimeValueApply s a = some s' → s'.work < s.work

/-- What a step does to the keys and to the ids. -/
structure Advanced (s : DebuggerState A B) (a : Action A B) (s' : DebuggerState A B) : Prop where
  keys : ∃ requests, s'.received = s.received ++ requests ∧
    (s'.answers ++ s'.owed).Perm (s.answers ++ s.owed ++ asked runtimeValueApply requests)
  nextSeqId : s'.m_nextSeqId = s.m_nextSeqId + (s.takesId runtimeValueApply a).toNat
  seqs : s'.seqs.Perm ((if s.takesId runtimeValueApply a then
    [UInt32.ofNat (s.m_nextSeqId + 1)] else []) ++ s.seqs)

/-- What a run keeps. -/
structure Inv (s : DebuggerState A B) : Prop where
  responses : (s.answers ++ s.owed).Perm (asked runtimeValueApply s.received)
  given : Given s.m_nextSeqId s.seqs
  ended : s.place = .ended → s.owed = []

variable {runtimeValueApply} {s s' : DebuggerState A B} {a : Action A B}

/-- A task counts in what a list collects of each task, beside the others. -/
theorem count_tasks {γ : Type} [BEq γ] [LawfulBEq γ]
    (f : Coroutine A B → List γ) {task : Coroutine A B} {tasks : List (Coroutine A B)}
    (h : task ∈ tasks) (x : γ) :
    (tasks.flatMap f).count x = (f task).count x + ((tasks.erase task).flatMap f).count x := by
  rw [← List.count_append, ← List.flatMap_cons]
  exact ((List.perm_cons_erase h).flatMap_right f).count_eq x

omit [DecidableEq A] [DecidableEq B] in
theorem asked_append (requests more : List (RequestMessage A)) :
    asked runtimeValueApply (requests ++ more) =
      asked runtimeValueApply requests ++ asked runtimeValueApply more := by
  rw [asked, List.filter_append, List.map_append]
  rfl

omit [DecidableEq A] [DecidableEq B] in
theorem asked_one {request : RequestMessage A}
    (h : ¬ (request.Is kCommand_Initialize ∧ runtimeValueApply request.arguments ≠ .ok ())) :
    asked runtimeValueApply [request] = [request.key] := by
  rw [asked, List.filter_eq_self.2 fun r hr => by
    rw [List.mem_singleton.1 hr]
    exact decide_eq_true h]
  rfl

omit [DecidableEq A] [DecidableEq B] in
/-- A step by what it writes, and by what it leaves to be answered and to be written. -/
theorem Advanced.of {requests : List (RequestMessage A)} {written : List (Message B)}
    (hr : s'.received = s.received ++ requests) (hw : s'.sent = s.sent ++ written)
    (hid : s'.m_nextSeqId = s.m_nextSeqId + (s.takesId runtimeValueApply a).toNat)
    (hkeys : (written.flatMap Message.answers ++ s'.owed).Perm
      (s.owed ++ asked runtimeValueApply requests))
    (hseqs : (written.map Message.seq ++ s'.building).Perm
      ((if s.takesId runtimeValueApply a then [UInt32.ofNat (s.m_nextSeqId + 1)] else []) ++
        s.building)) :
    Advanced runtimeValueApply s a s' where
  keys := by
    refine ⟨requests, hr, ?_⟩
    rw [answers, hw, List.flatMap_append, List.append_assoc, List.append_assoc]
    exact hkeys.append_left _
  nextSeqId := hid
  seqs := by
    rw [DebuggerState.seqs, DebuggerState.seqs, hw, List.map_append, List.append_assoc]
    exact (hseqs.append_left _).trans (by
      rw [← List.append_assoc, ← List.append_assoc]
      exact List.perm_append_comm.append_right _)

omit [DecidableEq A] [DecidableEq B] in
/-- A request that is to be answered: it is owed behind the step. -/
theorem Advanced.request {request : RequestMessage A} {id : Bool}
    (h : ¬ (request.Is kCommand_Initialize ∧ runtimeValueApply request.arguments ≠ .ok ()))
    (hr : s'.received = s.received ++ [request]) (hw : s'.sent = s.sent)
    (hid : s.takesId runtimeValueApply a = id)
    (hn : s'.m_nextSeqId = s.m_nextSeqId + id.toNat) (howed : s'.owed = request.key :: s.owed)
    (hb : s'.building =
      (if id then [UInt32.ofNat (s.m_nextSeqId + 1)] else []) ++ s.building) :
    Advanced runtimeValueApply s a s' := by
  subst hid
  have hnone : s'.sent = s.sent ++ [] := hw.trans (List.append_nil _).symm
  refine .of hr hnone hn ?_ (.of_eq hb)
  rw [asked_one h, howed]
  exact (List.perm_append_singleton _ _).symm

omit [DecidableEq A] [DecidableEq B] in
/-- The branches of the loop, on a request that is none for a `source`. -/
theorem advanced_receive {request : RequestMessage A} (hp : s.place = .reading)
    (hserved : ¬ request.Is "source") (hs : s.receive runtimeValueApply request = some s') :
    Advanced runtimeValueApply s (.receive request) s' := by
  have howed : s.owed = s.tasks.flatMap Coroutine.owes := by rw [owed, hp]; rfl
  have hbuilding : s.building = s.tasks.flatMap Coroutine.seqs := by rw [building, hp]; rfl
  simp only [receive] at hs
  by_cases hinit : request.Is kCommand_Initialize
  · rw [if_pos hinit] at hs
    split at hs
    next error herror =>
      obtain rfl := Option.some.inj hs
      have hid : s.takesId runtimeValueApply (.receive request) = false := by
        simp [takesId, hinit, herror]
      have hnone : asked runtimeValueApply [request] = [] := by
        simp [asked, hinit, herror]
      have hsent : s.sent = s.sent ++ [] := (List.append_nil _).symm
      refine .of rfl hsent (by rw [hid]; rfl) ?_ ?_
      · rw [hnone, howed, List.append_nil]
        exact .refl _
      · rw [hid, hbuilding]
        exact .refl _
    next hok =>
      obtain rfl := Option.some.inj hs
      have hid : s.takesId runtimeValueApply (.receive request) = true := by
        simp [takesId, hinit, hok]
      exact .request (fun h => h.2 hok) rfl rfl hid rfl (by rw [howed]; rfl)
        (by rw [hbuilding]; rfl)
  · rw [if_neg hinit] at hs
    have hvalid : ¬ (request.Is kCommand_Initialize ∧
      runtimeValueApply request.arguments ≠ .ok ()) := fun h => hinit h.1
    by_cases hattach : request.Is kCommand_Attach
    · rw [if_pos hattach] at hs
      split at hs
      next =>
        obtain rfl := Option.some.inj hs
        have hid : s.takesId runtimeValueApply (.receive request) = false := by
          simp [takesId, hinit, hattach]
        exact .request hvalid rfl rfl hid rfl (by rw [howed]; rfl) (by rw [hbuilding]; rfl)
      next => cases hs
    · rw [if_neg hattach, if_neg hserved] at hs
      by_cases hhandled : request.Handled
      · rw [if_pos hhandled] at hs
        split at hs
        next =>
          obtain rfl := Option.some.inj hs
          have hid : s.takesId runtimeValueApply (.receive request) = false := by
            simp [takesId, hinit, hhandled]
          exact .request hvalid rfl rfl hid rfl (by rw [howed, owed, hp]; rfl)
            (by rw [hbuilding, building, hp]; rfl)
        next => cases hs
      · rw [if_neg hhandled] at hs
        obtain rfl := Option.some.inj hs
        have hid : s.takesId runtimeValueApply (.receive request) = true := by
          simp [takesId, hinit, hattach, hhandled]
        exact .request hvalid rfl rfl hid rfl (by rw [howed]; rfl) (by rw [hbuilding]; rfl)

/-- The loop goes on. -/
theorem advanced_resumed {result : Except String (Option B)}
    (hs : s.step runtimeValueApply (.resumed result) = some s') :
    Advanced runtimeValueApply s (.resumed result) s' := by
  simp only [step] at hs
  split at hs
  next coroutine attach hp =>
    have hid : s.takesId runtimeValueApply (.resumed result) = coroutine.takesId := by
      rw [takesId, hp]
    have howed : s.owed = coroutine.owes ++ s.tasks.flatMap Coroutine.owes := by rw [owed, hp]; rfl
    have hbuilding : s.building = coroutine.seqs ++ s.tasks.flatMap Coroutine.seqs := by
      rw [building, hp]; rfl
    have howes := coroutine.resume_owes s.m_nextSeqId result
    obtain ⟨hn, hseqs⟩ := coroutine.resume_seqs s.m_nextSeqId result
    have hr : s.received = s.received ++ [] := (List.append_nil _).symm
    split at hs
    next next hrest =>
      obtain rfl := Option.some.inj hs
      rw [hrest] at howes hseqs
      refine .of hr rfl (hn.trans (by rw [hid])) (.of_eq ?_) (.of_eq ?_)
      · rw [howed, ← howes]
        simp [owed, Place.owes, asked]
      · rw [hid, hbuilding, ← List.append_assoc _ coroutine.seqs, ← hseqs]
        simp [building, Place.seqs]
    next hrest =>
      obtain rfl := Option.some.inj hs
      rw [hrest] at howes hseqs
      refine .of hr rfl (hn.trans (by rw [hid])) (.of_eq ?_) (.of_eq ?_)
      · rw [howed, ← howes]
        cases attach <;> simp [owed, Place.owes, asked, Coroutine.owes]
      · rw [hid, hbuilding, ← List.append_assoc _ coroutine.seqs, ← hseqs]
        cases attach <;> simp [building, Place.seqs, Coroutine.seqs]
  next => cases hs

/-- A task goes on. -/
theorem advanced_resumedTask {task : Coroutine A B} {result : Except String (Option B)}
    (hs : s.step runtimeValueApply (.resumedTask task result) = some s') :
    Advanced runtimeValueApply s (.resumedTask task result) s' := by
  simp only [step] at hs
  split at hs
  next htask =>
    obtain rfl := Option.some.inj hs
    have howes := task.resume_owes s.m_nextSeqId result
    obtain ⟨hn, hseqs⟩ := task.resume_seqs s.m_nextSeqId result
    refine .of (List.append_nil _).symm rfl hn (List.perm_iff_count.2 fun key => ?_)
      (List.perm_iff_count.2 fun seq => ?_)
    · have hcount := congrArg (List.count key) howes
      have htasks := count_tasks Coroutine.owes htask.1 key
      have hnone : asked runtimeValueApply ([] : List (RequestMessage A)) = [] := rfl
      simp only [owed, hnone, List.flatMap_append, List.count_append, List.count_nil] at hcount ⊢
      omega
    · have hcount := congrArg (List.count seq) hseqs
      have htasks := count_tasks Coroutine.seqs htask.1 seq
      have hid : s.takesId runtimeValueApply (.resumedTask task result) = task.takesId := rfl
      simp only [building, hid, List.flatMap_append, List.count_append] at hcount ⊢
      omega
  next => cases hs

/-- What a step that is served does. -/
theorem advanced (hserved : s.served runtimeValueApply a = true)
    (hs : s.step runtimeValueApply a = some s') :
    Advanced runtimeValueApply s a s' := by
  cases a with
  | receive request =>
      simp only [step] at hs
      split at hs
      next hp =>
        simp only [served, Bool.and_eq_true, Bool.not_eq_true', decide_eq_false_iff_not] at hserved
        exact advanced_receive hp hserved.1 hs
      next => cases hs
  | started result =>
      simp only [step] at hs
      split at hs
      next response hp =>
        cases result with
        | error error => cases hserved
        | ok body =>
            obtain rfl := Option.some.inj hs
            refine .of (List.append_nil _).symm (List.append_nil _).symm rfl (.of_eq ?_) (.of_eq ?_)
            · rw [owed, owed, hp]
              exact (List.append_nil _).symm
            · rw [building, building, hp]
              rfl
      next => cases hs
  | resumed result => exact advanced_resumed hs
  | resumedTask task result => exact advanced_resumedTask hs
  | pause eventData =>
      simp only [step] at hs
      split at hs
      next =>
        obtain rfl := Option.some.inj hs
        refine .of (List.append_nil _).symm (List.append_nil _).symm rfl (.of_eq ?_) ?_
        · exact (List.append_nil _).symm
        · exact List.perm_middle
      next => cases hs

/-- The loop ends on an `initialize` alone. -/
theorem ended_step (hserved : s.served runtimeValueApply a = true)
    (hs : s.step runtimeValueApply a = some s') (he : s'.place = .ended) : s'.owed = [] := by
  cases a with
  | receive request =>
      simp only [step, receive] at hs
      split at hs
      next hp =>
        split at hs
        next hinit =>
          split at hs
          next error herror =>
            obtain rfl := Option.some.inj hs
            have hnone : s.owed = [] := by
              by_contra hne
              simp [served, hne, hinit, herror] at hserved
            rw [owed, hp] at hnone
            exact hnone
          next =>
            obtain rfl := Option.some.inj hs
            cases he
        next =>
          split at hs
          · split at hs
            · obtain rfl := Option.some.inj hs
              cases he
            · cases hs
          · split at hs
            · obtain rfl := Option.some.inj hs
              cases he
            · split at hs
              · split at hs
                · obtain rfl := Option.some.inj hs
                  cases hp.symm.trans he
                · cases hs
              · obtain rfl := Option.some.inj hs
                cases he
      next => cases hs
  | started result =>
      simp only [step] at hs
      split at hs
      next =>
        cases result with
        | error error => cases hserved
        | ok body =>
            obtain rfl := Option.some.inj hs
            cases he
      next => cases hs
  | resumed result =>
      simp only [step] at hs
      split at hs
      next =>
        split at hs
        all_goals
          obtain rfl := Option.some.inj hs
          cases he
      next => cases hs
  | resumedTask task result =>
      simp only [step] at hs
      split at hs
      next htask =>
        obtain rfl := Option.some.inj hs
        exact absurd he htask.2
      next => cases hs
  | pause eventData =>
      simp only [step] at hs
      split at hs
      next hpause =>
        obtain rfl := Option.some.inj hs
        exact absurd he hpause.2
      next => cases hs

theorem Inv.step (h : Inv runtimeValueApply s)
    (hm : s.Meets runtimeValueApply a) (hs : s.step runtimeValueApply a = some s') :
    Inv runtimeValueApply s' where
  responses := by
    obtain ⟨requests, hr, hkeys⟩ := (advanced hm.2.1 hs).keys
    rw [hr, asked_append]
    exact hkeys.trans (h.responses.append_right _)
  given := by
    have hadv := advanced hm.2.1 hs
    have hseqs := hadv.seqs
    rw [hadv.nextSeqId]
    cases hid : s.takesId runtimeValueApply a with
    | false =>
        rw [hid] at hseqs
        exact h.given.perm hseqs
    | true =>
        rw [hid] at hseqs
        exact (h.given.next (hm.2.2 hid)).perm hseqs
  ended := ended_step hm.2.1 hs

/-- A coroutine that owes an answer is resumed, or the session is started. -/
theorem goesOn [Inhabited B] (hended : s.place = .ended → s.owed = []) (h : s.owed ≠ []) :
    ∃ a, own a = true ∧ s.served runtimeValueApply a = true ∧
      (s.step runtimeValueApply a).isSome := by
  cases hp : s.place with
  | ended => exact absurd (hended hp) h
  | startDebugSession response =>
      refine ⟨.started (.ok default), rfl, rfl, ?_⟩
      simp only [DebuggerState.step, hp, Option.isSome_some]
  | awaiting coroutine attach =>
      refine ⟨.resumed (.ok none), rfl, rfl, ?_⟩
      simp only [DebuggerState.step, hp]
      split
      all_goals rfl
  | reading =>
      rw [owed, hp] at h
      obtain ⟨task, htask⟩ := List.exists_mem_of_ne_nil s.tasks fun hnil => h (by rw [hnil]; rfl)
      refine ⟨.resumedTask task (.ok none), rfl, rfl, ?_⟩
      rw [DebuggerState.step, if_pos ⟨htask, by rw [hp]; nofun⟩]
      rfl

/-- The loop and the tasks come to an end, unless the client or the debuggee goes on. -/
theorem work_step (ha : own a = true) (hs : s.step runtimeValueApply a = some s') :
    s'.work < s.work := by
  cases a with
  | receive request => cases ha
  | pause eventData => cases ha
  | started result =>
      simp only [DebuggerState.step] at hs
      split at hs
      next response hp =>
        have hwork : s.work = 2 + (s.tasks.map Coroutine.work).sum := by rw [work, hp]; rfl
        cases result with
        | error error =>
            obtain rfl := Option.some.inj hs
            simp only [work, Place.work] at hwork ⊢
            omega
        | ok body =>
            obtain rfl := Option.some.inj hs
            simp only [work, Place.work, Coroutine.work, Bool.false_eq_true, if_false] at hwork ⊢
            omega
      next => cases hs
  | resumed result =>
      simp only [DebuggerState.step] at hs
      split at hs
      next coroutine attach hp =>
        have hturn := coroutine.resume_work s.m_nextSeqId result
        have hwork : s.work = coroutine.work + (if attach then 2 else 0) +
          (s.tasks.map Coroutine.work).sum := by rw [work, hp]; rfl
        split at hs
        next next hrest =>
          obtain rfl := Option.some.inj hs
          rw [hrest] at hturn
          simp only [work, Place.work, Option.toList_some, List.map_singleton, List.sum_singleton]
            at hwork hturn ⊢
          omega
        next hrest =>
          obtain rfl := Option.some.inj hs
          rw [hrest] at hturn
          simp only [work, Place.work, Option.toList_none, List.map_nil, List.sum_nil]
            at hwork hturn ⊢
          cases attach with
          | false =>
              simp only [Bool.false_eq_true, if_false] at hwork ⊢
              omega
          | true =>
              have hlater : (Coroutine.sendInitialized : Coroutine A B).work = 2 := rfl
              simp only [if_true, List.map_cons, List.sum_cons, hlater] at hwork ⊢
              omega
      next => cases hs
  | resumedTask task result =>
      simp only [DebuggerState.step] at hs
      split at hs
      next htask =>
        obtain rfl := Option.some.inj hs
        have hturn := task.resume_work s.m_nextSeqId result
        have htasks := ((List.perm_cons_erase htask.1).map Coroutine.work).sum_nat
        simp only [work, List.map_append, List.map_cons, List.sum_append, List.sum_cons]
          at htasks ⊢
        omega
      next => cases hs

/-- **The answers of a session.**  In every run in which `initialize` is the client's first
request, no request is one for a `source`, the host starts the session, no answers are to come when
the client ends the session, and not all the ids are taken: the responses are, up to order, one for
each request, with its `seq` and its command, and no two messages of the session share an id. -/
theorem session_sound [Inhabited B] (h : Steps (step runtimeValueApply)
    (Meets runtimeValueApply) ({} : DebuggerState A B) s) :
    Sound runtimeValueApply s := by
  have hinv : Inv runtimeValueApply s := by
    have hgiven : Given 1 [] := ⟨List.nodup_nil, nofun, Nat.le_refl 1, Nat.le_add_left 1 _⟩
    exact h.invariant (P := Inv runtimeValueApply) Inv.step ⟨.refl _, hgiven, fun hp => nomatch hp⟩
  exact ⟨hinv.responses, hinv.given.nodup.of_append_left, goesOn hinv.ended, fun a s' => work_step⟩

/-! ### Two runs -/

/-- The client's `initialize`, up to its response; the arguments and the bodies are numbers here,
and `0` stands for arguments that are not valid. -/
def initialized : List (Action ℕ ℕ) :=
  [.receive { seq := 1, command := "initialize", arguments := 1 }, .started (.ok 7),
    .resumed (.ok none)]

def numbers (arguments : ℕ) : Except String Unit :=
  if arguments = 0 then .error "Not valid" else .ok ()

/-- Requests of all kinds; a handler fails, and an event overtakes the response behind it. -/
def attached : List (Action ℕ ℕ) :=
  initialized ++
    [.receive { seq := 2, command := "Attach", arguments := 5 }, .resumed (.ok none),
      .resumed (.ok none),
      .receive { seq := 3, command := "setBreakpoints", arguments := 6 },
      .pause 9, .resumedTask .sendInitialized (.ok none),
      .resumedTask (.requestCall { seq := 3, command := "setBreakpoints", arguments := 6 })
        (.error "No source"),
      .receive { seq := 4, command := "threads", arguments := 8 }, .resumed (.ok none)]

theorem session_sound_attached : ∃ s : DebuggerState ℕ ℕ,
    exec (step numbers) {} attached = some s ∧ s.answers = [(1, "initialize"), (2, "Attach"),
      (4, "threads")] ∧ s.owed = [(3, "setBreakpoints")] ∧ Sound numbers s := by
  have hmeets : Allowed (step numbers) (Meets numbers) ({} : DebuggerState ℕ ℕ) attached := by
    decide
  exact ⟨_, rfl, rfl, rfl, session_sound (exec_steps hmeets rfl)⟩

/-- A request for a source, and the loop's answer. -/
def source (seq : UInt32) : List (Action ℕ ℕ) :=
  [.receive { seq := seq, command := "source", arguments := 3 }, .resumed (.ok none)]

def sources : List (Action ℕ ℕ) := initialized ++ source 2 ++ source 3

/-- The host does not start the session. -/
def refused : List (Action ℕ ℕ) := initialized.take 1 ++ [.started (.error "No session")]

/-- The answer to a `source` request names no request, and two of them have one id; and where the
host does not start the session, `initialize` has no answer. -/
theorem session_unsound :
    (∃ s, Steps (step numbers) (fun s a => initializeFirst s a = true)
        ({} : DebuggerState ℕ ℕ) s ∧ s.owed = [] ∧ asked numbers s.received =
          [(1, "initialize"), (2, "source"), (3, "source")] ∧
      s.answers = [(1, "initialize"), (InvalidSeq, ""), (InvalidSeq, "")] ∧
      s.sent.map Message.seq = [2, InvalidSeq, InvalidSeq] ∧ ¬ Sound numbers s) ∧
    ∃ s, Steps (step numbers) (fun s a => initializeFirst s a = true)
        ({} : DebuggerState ℕ ℕ) s ∧ s.owed = [] ∧
      asked numbers s.received = [(1, "initialize")] ∧ s.sent = [] ∧ ¬ Sound numbers s := by
  constructor
  · have hfirst : Allowed (step numbers) (fun s a => initializeFirst s a = true)
        ({} : DebuggerState ℕ ℕ) sources := by decide
    refine ⟨_, exec_steps hfirst rfl, rfl, rfl, rfl, rfl, fun h => ?_⟩
    have hnodup := h.seqs
    revert hnodup
    decide
  · have hfirst : Allowed (step numbers) (fun s a => initializeFirst s a = true)
        ({} : DebuggerState ℕ ℕ) refused := by decide
    refine ⟨_, exec_steps hfirst rfl, rfl, rfl, rfl, fun h => ?_⟩
    cases h.responses.length_eq

end DebuggerState

end MyEngine.Debug
