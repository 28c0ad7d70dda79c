import MyEngine.Network.StreamSocket

/-!
# Network — the bytes of a StreamSocket

What the reads of a socket return, where no read is called before the last one has returned.

* `Ledger`: what has been returned, what is pending, and what has been delivered.
* `Sound`: no byte is lost, repeated or moved, and an empty buffer is the end of the stream.
* `bytes_sound_iff`: when exactly a run is sound.
-/

namespace MyEngine.Network.Streaming

open MyEngine.Runs

variable {B E : Type}

@[simp]
def ReadCall.isReturned : ReadCall B E → Bool
  | .switching  => false
  | .waiting _  => false
  | .resolved _ => false
  | .returned _ => true

/-- The bytes of the buffer the call has returned. -/
@[simp]
def ReadCall.returnedBytes : ReadCall B E → List B
  | .switching            => []
  | .waiting _            => []
  | .resolved _           => []
  | .returned (.ok b)     => bytes b
  | .returned (.error _)  => []

/-- How many bytes have come before the call waited. -/
@[simp]
def ReadCall.since? : ReadCall B E → Option ℕ
  | .switching      => none
  | .waiting since  => some since
  | .resolved since => some since
  | .returned _     => none

/-- At most one read at a time. -/
def OneRead (s : StreamSocket B E) : Action B E → Prop
  | .callRead => ∀ read ∈ s.reads, read.isReturned = true
  | _         => True

/-- The bytes and the reads. -/
structure Ledger (s : StreamSocket B E) : Prop where
  ledger : s.reads.flatMap ReadCall.returnedBytes ++ bytes s.pendingBuffer = s.delivered
  last : ∀ call read, s.reads[call]? = some read → read.isReturned = false →
    call + 1 = s.reads.length
  /-- What is pending has come since the read waits. -/
  since : ∀ read ∈ s.reads, ∀ since, read.since? = some since →
    since ≤ s.delivered.length ∧ bytes s.pendingBuffer = s.delivered.drop since

section Steps

variable {s s' : StreamSocket B E} {a : Action B E} {call : ℕ} {old new : ReadCall B E}

theorem set_last {α : Type} {l : List α} {i : ℕ} {x : α} (h : l[i]? = some x)
    (hi : i + 1 = l.length) (y : α) : l = l.dropLast ++ [x] ∧ l.set i y = l.dropLast ++ [y] := by
  obtain ⟨hlt, hget⟩ := List.getElem?_eq_some_iff.1 h
  have hdrop : l.drop (i + 1) = [] := List.drop_eq_nil_of_le (by omega)
  have htake : l.take i = l.dropLast := by rw [List.dropLast_eq_take, ← hi, Nat.add_sub_cancel]
  constructor
  · conv_lhs => rw [← List.take_append_drop i l, List.drop_eq_getElem_cons hlt, hget, hdrop, htake]
  · rw [List.set_eq_take_append_cons_drop, if_pos hlt, hdrop, htake]

/-- The read that has not returned moves on, and takes bytes with it or not. -/
theorem Ledger.set (hs : Ledger s) (hcall : s.reads[call]? = some old)
    (hold : old.isReturned = false) (hreads : s'.reads = s.reads.set call new)
    (hdelivered : s'.delivered = s.delivered)
    (hbytes : new.returnedBytes ++ bytes s'.pendingBuffer = bytes s.pendingBuffer)
    (hsince : ∀ since, new.since? = some since →
      since ≤ s.delivered.length ∧ bytes s'.pendingBuffer = s.delivered.drop since) :
    Ledger s' := by
  have hlast := hs.last call old hcall hold
  obtain ⟨hinit, hset⟩ := set_last hcall hlast new
  have hnothing : old.returnedBytes = [] := by
    cases old with
    | switching | waiting | resolved => rfl
    | returned => cases hold
  have hothers : ∀ other ∈ s.reads.dropLast, other.isReturned = true := by
    intro other hmem
    obtain ⟨index, hindex⟩ := List.getElem?_of_mem hmem
    obtain ⟨hlt, -⟩ := List.getElem?_eq_some_iff.1 hindex
    by_contra hnot
    rw [List.getElem?_dropLast] at hindex
    split at hindex
    next =>
      have hother := hs.last index other hindex (Bool.not_eq_true _ ▸ hnot)
      rw [List.length_dropLast] at hlt
      omega
    next => cases hindex
  refine ⟨?_, fun other got hget hgot => ?_, fun got hmem since hgot => ?_⟩
  · have hledger := hs.ledger
    rw [hinit, List.flatMap_append, List.flatMap_singleton, hnothing, List.append_nil] at hledger
    rw [hreads, hdelivered, hset, List.flatMap_append, List.flatMap_singleton, List.append_assoc,
      hbytes, hledger]
  · rw [hreads, List.length_set]
    rw [hreads] at hget
    rcases getElem?_set_cases hget with ⟨rfl, -⟩ | ⟨-, hget⟩
    · exact hlast
    · exact hs.last other got hget hgot
  · rw [hreads, hset, List.mem_append, List.mem_singleton] at hmem
    rw [hdelivered]
    rcases hmem with hmem | rfl
    · have hreturned := hothers got hmem
      cases got with
      | switching | waiting | resolved => cases hreturned
      | returned => cases hgot
    · exact hsince since hgot

/-- The reads, the pending bytes and the delivered ones are the same. -/
theorem Ledger.of_same (hs : Ledger s) (hreads : s'.reads = s.reads)
    (hpending : bytes s'.pendingBuffer = bytes s.pendingBuffer)
    (hdelivered : s'.delivered = s.delivered) : Ledger s' := by
  obtain ⟨hledger, hlast, hsince⟩ := hs
  rw [← hreads, ← hpending, ← hdelivered] at hledger
  rw [← hreads] at hlast
  rw [← hreads, ← hpending, ← hdelivered] at hsince
  exact ⟨hledger, hlast, hsince⟩

/-- More bytes come. -/
theorem Ledger.received (hs : Ledger s) (data : List B) (hreads : s'.reads = s.reads)
    (hpending : bytes s'.pendingBuffer = bytes s.pendingBuffer ++ data)
    (hdelivered : s'.delivered = s.delivered ++ data) : Ledger s' := by
  refine ⟨?_, ?_, fun read hread since h => ?_⟩
  · rw [hreads, hpending, hdelivered, ← List.append_assoc, hs.ledger]
  · rw [hreads]
    exact hs.last
  · rw [hreads] at hread
    obtain ⟨hle, hdrop⟩ := hs.since read hread since h
    rw [hpending, hdelivered, List.length_append, List.drop_append_of_le_length hle, hdrop]
    exact ⟨Nat.le_trans hle (Nat.le_add_right _ _), rfl⟩

theorem Ledger.resolve (hs : Ledger s) : Ledger (s.resolve call) := by
  unfold StreamSocket.resolve
  split
  next since hcall =>
    refine hs.set hcall rfl rfl rfl rfl fun since' h => ?_
    exact hs.since _ (List.mem_of_getElem? hcall) since' h
  next => exact hs

theorem Ledger.notifyReadAwaiter (hs : Ledger s) : Ledger s.notifyReadAwaiter := by
  unfold StreamSocket.notifyReadAwaiter
  split
  next => exact Ledger.resolve (hs.of_same rfl rfl rfl)
  next => exact hs

theorem Ledger.callRead (hs : Ledger s) (hone : ∀ read ∈ s.reads, read.isReturned = true) :
    Ledger s.callRead := by
  have hnew : ∀ read : ReadCall B E,
      read = (if s.isDisposed then .returned (.error .disposed) else .switching) →
      read.returnedBytes = [] ∧ read.since? = none := by
    rintro read rfl
    split <;> exact ⟨rfl, rfl⟩
  refine ⟨?_, fun call read hcall hread => ?_, fun read hmem since h => ?_⟩
  · rw [StreamSocket.callRead, List.flatMap_append, List.flatMap_singleton, (hnew _ rfl).1,
      List.append_nil]
    exact hs.ledger
  · rcases getElem?_concat_cases hcall with hcall | ⟨rfl, -⟩
    · cases hread.symm.trans (hone read (List.mem_of_getElem? hcall))
    · rw [StreamSocket.callRead, List.length_append, List.length_singleton]
  · rcases List.mem_append.1 hmem with hmem | hmem
    · have hreturned := hone read hmem
      cases read with
      | switching | waiting | resolved => cases hreturned
      | returned => cases h
    · rw [(hnew read (List.mem_singleton.1 hmem)).2] at h
      cases h

/-- A read returns with an error. -/
theorem Ledger.fail (hs : Ledger s) (hcall : s.reads[call]? = some old)
    (hold : old.isReturned = false) (error : ReadError E) :
    Ledger (s.setRead call (.returned (.error error))) :=
  hs.set hcall hold rfl rfl rfl fun since h => by cases h

/-- A read returns with what is pending. -/
theorem Ledger.take (hs : Ledger s) (hcall : s.reads[call]? = some old)
    (hold : old.isReturned = false) :
    Ledger ({ s with pendingBuffer := none }.setRead call (.returned (.ok s.pendingBuffer))) :=
  hs.set hcall hold rfl rfl (List.append_nil _) fun since h => by cases h

theorem Ledger.read (hs : Ledger s) (hcall : s.reads[call]? = some .switching)
    (h : Read s call s') : Ledger s' := by
  -- the read waits for what comes from now on
  have hwait : ∀ hpending : bytes s.pendingBuffer = [], ∀ since,
      ReadCall.since? (.waiting s.delivered.length : ReadCall B E) = some since →
        since ≤ s.delivered.length ∧ bytes s.pendingBuffer = s.delivered.drop since := by
    intro hpending since hsince
    obtain rfl := Option.some.inj hsince
    exact ⟨Nat.le_refl _, by rw [List.drop_length]; exact hpending⟩
  cases h with
  | pending => exact hs.take hcall rfl
  | notReadable | alreadyInProgress | failed => exact hs.fail hcall rfl _
  | waits _ hpending | starts _ hpending => exact hs.set hcall rfl rfl rfl rfl (hwait hpending)

theorem bytes_resize [Inhabited B] {buffer : Option (List B)} {size : ℕ}
    (h : size ≤ (bytes buffer).length) : bytes (resize buffer size) = (bytes buffer).take size := by
  rw [resize, Nat.sub_eq_zero_of_le h, List.replicate_zero, List.append_nil]
  rfl

/-- The callbacks put what has come behind what is pending. -/
theorem Ledger.readCallback [Inhabited B] (hs : Ledger s) (requestSize : ℕ) (data : List B) :
    Ledger (((s.allocateCallback requestSize).fill data).readCallback data.length) := by
  have htake : ∀ rest : List B, (data ++ rest).take data.length = data := fun rest =>
    List.take_left
  unfold StreamSocket.readCallback
  refine Ledger.notifyReadAwaiter ?_
  split
  next hpending =>
    refine hs.received data rfl ?_ rfl
    rw [show s.pendingBuffer = none from hpending]
    dsimp only
    rw [bytes_resize (by simp [StreamSocket.fill])]
    exact htake _
  next pending hpending =>
    refine hs.received data rfl ?_ rfl
    rw [show s.pendingBuffer = some pending from hpending]
    exact congrArg (pending ++ ·) (htake _)

theorem Ledger.step [Inhabited B] (hs : Ledger s) (hone : OneRead s a) (h : Stepped s a s') :
    Ledger s' := by
  cases h with
  | callRead => exact hs.callRead hone
  | read hcall hread => exact hs.read hcall hread
  | resume hcall => exact hs.take hcall rfl
  | received => exact hs.readCallback _ _
  | readFailed | closeStream => exact Ledger.notifyReadAwaiter (hs.of_same rfl rfl rfl)
  | callWrite | write | writeCallback | dispose => exact hs.of_same rfl rfl rfl
  | disposeAgain => exact hs

/-! ### Empty buffers -/

/-- Every read that has returned an empty buffer had done so before. -/
def NoneEmpty (s s' : StreamSocket B E) : Prop :=
  ∀ (call : ℕ) (buffer : Option (List B)), s'.reads[call]? = some (.returned (.ok buffer)) →
    bytes buffer = [] → s.reads[call]? = some (.returned (.ok buffer))

theorem noneEmpty_of_reads (h : s'.reads = s.reads) : NoneEmpty s s' := by
  intro call buffer hcall _
  rwa [h] at hcall

theorem noneEmpty_of_set (h : s'.reads = s.reads.set call new)
    (hnew : ∀ buffer, new = .returned (.ok buffer) → bytes buffer ≠ []) : NoneEmpty s s' := by
  intro other buffer hother hempty
  rw [h] at hother
  rcases getElem?_set_cases hother with ⟨-, hnew'⟩ | ⟨-, hother⟩
  · exact absurd hempty (hnew buffer hnew')
  · exact hother

theorem noneEmpty_notifyReadAwaiter (s : StreamSocket B E) : NoneEmpty s s.notifyReadAwaiter := by
  unfold StreamSocket.notifyReadAwaiter StreamSocket.resolve
  split
  next =>
    split
    next => exact noneEmpty_of_set rfl fun buffer h => by cases h
    next => exact noneEmpty_of_reads rfl
  next => exact noneEmpty_of_reads rfl

theorem NoneEmpty.of_reads {s₁ : StreamSocket B E} (h : NoneEmpty s₁ s')
    (hreads : s₁.reads = s.reads) : NoneEmpty s s' := by
  intro call buffer hcall hempty
  rw [← hreads]
  exact h call buffer hcall hempty

theorem noneEmpty_callRead (s : StreamSocket B E) : NoneEmpty s s.callRead := by
  intro call buffer hcall _
  rcases getElem?_concat_cases hcall with hcall | ⟨-, hnew⟩
  · exact hcall
  · split at hnew <;> cases hnew

/-- On the runtime thread only what is not empty is returned. -/
theorem noneEmpty_read (h : Read s call s') : NoneEmpty s s' := by
  cases h with
  | pending hpending =>
      refine noneEmpty_of_set rfl fun buffer h => ?_
      obtain rfl := Except.ok.inj (ReadCall.returned.inj h)
      exact hpending
  | notReadable | alreadyInProgress | failed | waits | starts =>
      exact noneEmpty_of_set rfl fun buffer h => by cases h

/-- Only a read that has waited can return an empty buffer. -/
theorem noneEmpty_step [Inhabited B] (h : Stepped s a s') (ha : ∀ call, a ≠ .resume call) :
    NoneEmpty s s' := by
  cases h with
  | callRead => exact noneEmpty_callRead s
  | read hcall hread => exact noneEmpty_read hread
  | resume => exact absurd rfl (ha _)
  | received =>
      unfold StreamSocket.readCallback
      refine (noneEmpty_notifyReadAwaiter _).of_reads ?_
      split <;> rfl
  | readFailed | closeStream => exact (noneEmpty_notifyReadAwaiter _).of_reads rfl
  | callWrite | write | writeCallback | disposeAgain | dispose => exact noneEmpty_of_reads rfl

/-- After a step the bytes are those delivered, and a read that has just returned an empty buffer
had no open stream. -/
def Sound [Inhabited B] (s : StreamSocket B E) (a : Action B E) : Prop :=
  ∀ s', step s a = some s' →
    s'.reads.flatMap ReadCall.returnedBytes ++ bytes s'.pendingBuffer = s'.delivered ∧
    ∀ (call : ℕ) (buffer : Option (List B)), s'.reads[call]? = some (.returned (.ok buffer)) →
      bytes buffer = [] → s.reads[call]? = some (.returned (.ok buffer)) ∨ s.stream = false ∨
        s.isDisposed = true

/-- A read that returns from an open stream has got some byte since it waited. -/
def SomeByte (s : StreamSocket B E) : Action B E → Prop
  | .resume call => ∀ since, s.reads[call]? = some (.resolved since) → s.stream = true →
      s.isDisposed = false → since < s.delivered.length
  | _            => True

/-- A read that returns now takes what has come since it waited. -/
theorem sound_resume [Inhabited B] (hs : Ledger s) {since : ℕ}
    (hcall : s.reads[call]? = some (.resolved since)) :
    Sound s (.resume call) ↔
      (s.stream = true → s.isDisposed = false → since < s.delivered.length) := by
  have hstep : step s (.resume call) = some (s.resume call) := by simp only [step, hcall]
  have hsince := (hs.since _ (List.mem_of_getElem? hcall) since rfl).2
  have hempty : bytes s.pendingBuffer = [] ↔ ¬ since < s.delivered.length := by
    rw [hsince, List.drop_eq_nil_iff, Nat.not_lt]
  constructor
  · intro h hstream hdisposed
    by_contra hnot
    have hreturned : (s.resume call).reads[call]? = some (.returned (.ok s.pendingBuffer)) :=
      getElem?_replaced hcall _
    rcases (h _ hstep).2 call _ hreturned (hempty.2 hnot) with h | h | h
    · cases hcall.symm.trans h
    · cases hstream.symm.trans h
    · cases hdisposed.symm.trans h
  · intro h s' hs'
    obtain rfl := Option.some.inj (hstep.symm.trans hs')
    refine ⟨(hs.take hcall rfl).ledger, fun other buffer hother hbuffer => ?_⟩
    rcases getElem?_set_cases hother with ⟨-, hbuffer'⟩ | ⟨-, hother⟩
    · obtain rfl := Except.ok.inj (ReadCall.returned.inj hbuffer')
      by_contra hopen
      rw [not_or, not_or, Bool.not_eq_false, Bool.not_eq_true] at hopen
      exact hempty.1 hbuffer (h hopen.2.1 hopen.2.2)
    · exact .inl hother

theorem sound_iff [Inhabited B] (hs : Ledger s) (hone : OneRead s a) :
    Sound s a ↔ SomeByte s a := by
  by_cases ha : ∀ call, a ≠ .resume call
  · have hbyte : SomeByte s a := by
      cases a with
      | resume call => exact absurd rfl (ha call)
      | callRead | read | received | readFailed | callWrite | write | writeCallback | dispose |
        closeStream => trivial
    refine iff_of_true (fun s' h => ?_) hbyte
    have hstepped := stepped_of_step h
    refine ⟨(hs.step hone hstepped).ledger, fun call buffer hcall hempty => ?_⟩
    exact .inl (noneEmpty_step hstepped ha call buffer hcall hempty)
  · rw [not_forall_not] at ha
    obtain ⟨call, rfl⟩ := ha
    by_cases hresolved : ∃ since, s.reads[call]? = some (.resolved since)
    · obtain ⟨since, hcall⟩ := hresolved
      rw [sound_resume hs hcall]
      refine ⟨fun h since' hcall' => ?_, fun h => h since hcall⟩
      obtain rfl := ReadCall.resolved.inj (Option.some.inj (hcall.symm.trans hcall'))
      exact h
    · refine iff_of_true (fun s' h => ?_) fun since hcall => absurd ⟨since, hcall⟩ hresolved
      cases stepped_of_step h with
      | resume hcall => exact absurd ⟨_, hcall⟩ hresolved

end Steps

theorem ledger_start : Ledger ({} : StreamSocket B E) :=
  ⟨rfl, fun _ _ h => (by cases h), fun _ h => (by cases h)⟩

/-- **Reads return the bytes that have been delivered, and an empty buffer only at the end**, if and
only if no read returns from an open stream without a byte since it waited. -/
theorem bytes_sound_iff [Inhabited B] {actions : List (Action B E)}
    (hone : Allowed step OneRead {} actions) :
    Allowed step Sound {} actions ↔ Allowed step SomeByte {} actions := by
  refine allowed_congr (P := Ledger) ?_ (fun _ hs hone => sound_iff hs hone) actions ledger_start
    hone
  intro s a s' hs hone _ h
  exact hs.step hone (stepped_of_step h)

/-- A read that waits for two bytes, with one more that comes before it returns. -/
def threeBytes : List (Action ℕ ℕ) :=
  [.callRead, .read 0 none, .received 10 [1, 2], .received 10 [3], .resume 0]

theorem bytes_sound_iff_threeBytes : Allowed step Sound {} threeBytes := by
  have hone : Allowed step OneRead {} threeBytes := by
    refine ⟨fun _ h => (by cases h), ?_⟩
    rintro _ ⟨⟩
    refine ⟨trivial, ?_⟩
    rintro _ ⟨⟩
    refine ⟨trivial, ?_⟩
    rintro _ ⟨⟩
    refine ⟨trivial, ?_⟩
    rintro _ ⟨⟩
    exact ⟨trivial, fun _ _ => trivial⟩
  refine (bytes_sound_iff hone).2 ⟨trivial, ?_⟩
  rintro _ ⟨⟩
  refine ⟨trivial, ?_⟩
  rintro _ ⟨⟩
  refine ⟨trivial, ?_⟩
  rintro _ ⟨⟩
  refine ⟨trivial, ?_⟩
  rintro _ ⟨⟩
  refine ⟨fun since hcall _ _ => ?_, fun _ _ => trivial⟩
  obtain rfl := ReadCall.resolved.inj (Option.some.inj hcall)
  exact (by decide : 0 < 3)

/-- libuv calls back with no bytes, and the read returns from an open stream. -/
def noByte : List (Action ℕ ℕ) := [.callRead, .read 0 none, .received 10 [], .resume 0]

theorem empty_from_open : Allowed step OneRead {} noByte ∧ ¬ Allowed step Sound {} noByte := by
  refine ⟨⟨fun _ h => (by cases h), ?_⟩, fun h => ?_⟩
  · rintro _ ⟨⟩
    refine ⟨trivial, ?_⟩
    rintro _ ⟨⟩
    refine ⟨trivial, ?_⟩
    rintro _ ⟨⟩
    exact ⟨trivial, fun _ _ => trivial⟩
  · obtain ⟨-, h⟩ := h
    obtain ⟨-, h⟩ := h _ rfl
    obtain ⟨-, h⟩ := h _ rfl
    obtain ⟨h, -⟩ := h _ rfl
    rcases (h _ rfl).2 0 _ rfl rfl with h | h | h <;> cases h

end MyEngine.Network.Streaming
