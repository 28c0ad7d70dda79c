import MyEngine.Memory.BufferBytes
import MyEngine.Memory.BufferHeader
import MyEngine.Support.Results

/-!
# Memory — BufferContents

Buffers that are made, resized, appended to and joined, against the lists of bytes their users see.

* `Buffers.step`: the operations, each with what a storage holds that is made for it.
* `Bytes.Step`: what is asked of them.
* `room_iff`: a storage keeps its bytes unless it is above 2 ^ 32 - 16 bytes and shrinks.
* `buffers_refine_iff`: the runs that do what is asked are those without such a shrinking.
-/

namespace MyEngine.Memory

open Support Runs

variable {B : Type*}

/-- `concat`.  Of the pair the second is what the other buffer is afterwards. -/
def Buffer.concat (junk : ℕ → B) (buffer other : Buffer B) :
    Except BytesFault (Buffer B × Buffer B) :=
  match buffer.storage with
  | none   => .ok (other, {})
  | some _ =>
      match buffer.append junk other.size with
      | .error e            => .error e
      | .ok (buffer', ptr) =>
          match other.memcpyFrom 0 other.size with
          | .error e   => .error e
          | .ok bytes => (buffer'.memcpyTo ptr bytes).map fun buffer' => (buffer', {})

/-! ### Operations -/

/-- `write` is what a user writes behind `data()`. -/
inductive BufferOp (B : Type*) where
  | construct
  | constructSize (size : ℕ)
  | moveConstruct (i : ℕ)
  | resize (i newSize : ℕ)
  | append (i count : ℕ)
  | concat (i j : ℕ)
  | write (i offset : ℕ) (bytes : List B)
  deriving DecidableEq, Repr

/-- The buffers, and the places that `append` has returned. -/
structure Buffers (B : Type*) where
  buffers : List (Buffer B) := []
  places : List ℕ := []
  deriving DecidableEq, Repr

namespace Buffers

/-- An operation, and what a storage holds that is made for it.  The other buffer of `concat` is
another one. -/
def step (t : Buffers B) : BufferOp B × (ℕ → B) → Option (Buffers B)
  | (.construct, _)             => some { t with buffers := t.buffers ++ [{}] }
  | (.constructSize size, junk) =>
      some { t with buffers := t.buffers ++ [⟨some (allocate junk size)⟩] }
  | (.moveConstruct i, _)       =>
      t.buffers[i]?.map fun buffer => { t with buffers := t.buffers.set i {} ++ [buffer] }
  | (.resize i newSize, junk)   =>
      t.buffers[i]?.bind fun buffer => (buffer.resize junk newSize).toOption.map fun buffer' =>
        { t with buffers := t.buffers.set i buffer' }
  | (.append i count, junk)     =>
      t.buffers[i]?.bind fun buffer => (buffer.append junk count).toOption.map fun r =>
        ⟨t.buffers.set i r.1, t.places ++ [r.2]⟩
  | (.concat i j, junk)         =>
      if i = j then none
      else
        t.buffers[i]?.bind fun buffer => t.buffers[j]?.bind fun other =>
          (buffer.concat junk other).toOption.map fun r =>
            { t with buffers := (t.buffers.set i r.1).set j r.2 }
  | (.write i offset bytes, _)  =>
      t.buffers[i]?.bind fun buffer => (buffer.memcpyTo offset bytes).toOption.map fun buffer' =>
        { t with buffers := t.buffers.set i buffer' }

def size (t : Buffers B) (i : ℕ) : ℕ := t.buffers[i]?.elim 0 Buffer.size

/-- The operation is for buffers that there are, and no size reaches 4 GiB. -/
def Below (t : Buffers B) : BufferOp B × (ℕ → B) → Prop
  | (.construct, _)            => True
  | (.constructSize size, _)   => size < 2 ^ 32
  | (.moveConstruct i, _)      => i < t.buffers.length
  | (.resize i newSize, _)     => i < t.buffers.length ∧ newSize < 2 ^ 32
  | (.append i count, _)       => i < t.buffers.length ∧ t.size i + count < 2 ^ 32
  | (.concat i j, _)           =>
      i ≠ j ∧ i < t.buffers.length ∧ j < t.buffers.length ∧ t.size i + t.size j < 2 ^ 32
  | (.write i offset bytes, _) => i < t.buffers.length ∧ offset + bytes.length ≤ t.size i

instance (t : Buffers B) : ∀ call, Decidable (t.Below call)
  | (.construct, _)       => inferInstanceAs (Decidable True)
  | (.constructSize _, _) => inferInstanceAs (Decidable (_ < _))
  | (.moveConstruct _, _) => inferInstanceAs (Decidable (_ < _))
  | (.resize _ _, _)      => inferInstanceAs (Decidable (_ ∧ _))
  | (.append _ _, _)      => inferInstanceAs (Decidable (_ ∧ _))
  | (.concat _ _, _)      => inferInstanceAs (Decidable (_ ≠ _ ∧ _))
  | (.write _ _ _, _)     => inferInstanceAs (Decidable (_ ∧ _))

/-- No storage above 2 ^ 32 - 16 bytes is made smaller than that and larger than 1008 bytes. -/
def Roomy (t : Buffers B) : BufferOp B × (ℕ → B) → Prop
  | (.resize i newSize, _) =>
      ¬ (2 ^ 32 - 16 < t.size i ∧ 1008 < newSize ∧ newSize ≤ 2 ^ 32 - 16)
  | _                      => True

instance (t : Buffers B) : ∀ call, Decidable (t.Roomy call)
  | (.resize _ _, _)      => inferInstanceAs (Decidable (¬ _))
  | (.construct, _)       => inferInstanceAs (Decidable True)
  | (.constructSize _, _) => inferInstanceAs (Decidable True)
  | (.moveConstruct _, _) => inferInstanceAs (Decidable True)
  | (.append _ _, _)      => inferInstanceAs (Decidable True)
  | (.concat _ _, _)      => inferInstanceAs (Decidable True)
  | (.write _ _ _, _)     => inferInstanceAs (Decidable True)

end Buffers

/-! ### The lists of bytes -/

structure Bytes (B : Type*) where
  bytes : List (List B) := []
  places : List ℕ := []

namespace Bytes

/-- What is asked of an operation; the bytes that come with a size are any. -/
inductive Step : Bytes B → BufferOp B → Bytes B → Prop where
  | construct (r : Bytes B) : Step r .construct { r with bytes := r.bytes ++ [[]] }
  | constructSize (r : Bytes B) (new : List B) :
      Step r (.constructSize new.length) { r with bytes := r.bytes ++ [new] }
  | moveConstruct {r : Bytes B} {i : ℕ} {old : List B} (h : r.bytes[i]? = some old) :
      Step r (.moveConstruct i) { r with bytes := r.bytes.set i [] ++ [old] }
  | resize {r : Bytes B} {i newSize : ℕ} {old : List B} (h : r.bytes[i]? = some old)
      (tail : List B) (htail : tail.length = newSize - old.length) :
      Step r (.resize i newSize) { r with bytes := r.bytes.set i (old.take newSize ++ tail) }
  | append {r : Bytes B} {i : ℕ} {old : List B} (h : r.bytes[i]? = some old) (tail : List B) :
      Step r (.append i tail.length) ⟨r.bytes.set i (old ++ tail), r.places ++ [old.length]⟩
  | concat {r : Bytes B} {i j : ℕ} {a b : List B} (hne : i ≠ j) (hi : r.bytes[i]? = some a)
      (hj : r.bytes[j]? = some b) :
      Step r (.concat i j) { r with bytes := (r.bytes.set i (a ++ b)).set j [] }
  | write {r : Bytes B} {i offset : ℕ} {old new : List B} (h : r.bytes[i]? = some old)
      (hle : offset + new.length ≤ old.length) :
      Step r (.write i offset new) { r with bytes := r.bytes.set i (overwrite old offset new) }

inductive Run : Bytes B → List (BufferOp B) → Bytes B → Prop where
  | nil (r : Bytes B) : Run r [] r
  | cons {r r₁ r' : Bytes B} {op : BufferOp B} {ops : List (BufferOp B)} (h : Step r op r₁)
      (t : Run r₁ ops r') : Run r (op :: ops) r'

end Bytes

/-! ### One buffer -/

/-- The capacity holds the size, or is what 32 bits leave of one above 2 ^ 32. -/
def Block.Fit (header : Block B) : Prop :=
  header.capacity ≤ 2 ^ 32 - 16 ∧
    (header.size ≤ header.capacity ∨ 2 ^ 32 - 16 < header.size ∧ header.capacity = 1008)

theorem length_memory_allocate (junk : ℕ → B) (n : ℕ) :
    (allocate junk n).memory.length = storageSize n - headerSize := by
  simp only [allocate, List.length_map, List.length_range]

theorem allocate_fit (junk : ℕ → B) {n : ℕ} (hn : n < 2 ^ 32) : (allocate junk n).Fit := by
  have hsize := allocate_size junk hn
  have hcapacity : (allocate junk n).capacity = (allocateHeader n).capacity :=
    capacity_eq (hn.trans (by decide))
  have hbounds := storageSize_bounds (n := n) (hn.trans (by decide))
  have hbig := storageSize_big (n := n)
  simp only [Block.Fit, hsize, hcapacity]
  by_cases hle : n ≤ 2 ^ 32 - headerSize
  · have heq := capacity_of_le hle
    simp only [headerSize] at hle hbounds heq
    omega
  · rw [Nat.not_le] at hle
    rw [capacity_of_gt hle hn]
    exact ⟨by decide, .inr ⟨hle, rfl⟩⟩

/-- A storage is resized where it is, or a new one has room for its bytes: this depends on the two
sizes alone. -/
theorem room_iff (junk : ℕ → B) {header : Block B} (h : header.Fit) (hsize : header.size < 2 ^ 32)
    {n : ℕ} (hn : n < 2 ^ 32) :
    n ≤ header.capacity ∨ header.size ≤ (allocate junk n).memory.length ↔
      ¬ (2 ^ 32 - 16 < header.size ∧ 1008 < n ∧ n ≤ 2 ^ 32 - 16) := by
  obtain ⟨hcapacity, hfit⟩ := h
  have hbounds := storageSize_bounds (n := n) (hn.trans (by decide))
  have hbig := storageSize_big (n := n)
  rw [length_memory_allocate]
  simp only [headerSize] at hbounds ⊢
  omega

namespace Buffer
variable {junk : ℕ → B} {buffer buffer' other : Buffer B} {n offset count : ℕ} {bytes : List B}

/-- Its storage is sound and fit. -/
structure Valid (buffer : Buffer B) : Prop where
  sound : buffer.Sound
  fit : ∀ header ∈ buffer.storage, header.Fit

theorem valid_none : Valid ({} : Buffer B) where
  sound := fun header hheader => by cases hheader
  fit := fun header hheader => by cases hheader

theorem valid_allocate (junk : ℕ → B) (hn : n < 2 ^ 32) : Valid ⟨some (allocate junk n)⟩ where
  sound := by
    rintro _ ⟨⟩
    exact (allocate_sound junk (hn.trans (by decide))).1
  fit := by
    rintro _ ⟨⟩
    exact allocate_fit junk hn

/-- Storing does not change the header. -/
theorem memcpyTo_fit (h : ∀ header ∈ buffer.storage, header.Fit)
    (hto : buffer.memcpyTo offset bytes = .ok buffer') :
    ∀ header ∈ buffer'.storage, header.Fit := by
  rw [memcpyTo] at hto
  split at hto
  · cases hto
  · split at hto
    · obtain rfl := Except.ok.inj hto
      exact h
    · cases hto
  · split at hto
    · obtain rfl := Except.ok.inj hto
      rcases buffer with ⟨_ | header⟩
      · exact h
      · rintro _ ⟨⟩
        exact h header rfl
    · cases hto

theorem resize_fit (h : ∀ header ∈ buffer.storage, header.Fit) (hn : n < 2 ^ 32)
    (hresize : buffer.resize junk n = .ok buffer') : ∀ header ∈ buffer'.storage, header.Fit := by
  have hnew : ∀ header ∈ (⟨some (allocate junk n)⟩ : Buffer B).storage, header.Fit :=
    (valid_allocate junk hn).fit
  rcases buffer with ⟨_ | header⟩
  · obtain rfl := Except.ok.inj hresize
    exact hnew
  · simp only [resize, reallocate] at hresize
    split at hresize
    · cases hresize
    · split at hresize
      · next hle =>
          obtain rfl := Except.ok.inj hresize
          rintro _ ⟨⟩
          exact ⟨(h header rfl).1, .inl ((Nat.mod_le n _).trans hle)⟩
      · split at hresize
        · cases hresize
        · exact memcpyTo_fit hnew hresize

/-- **Resizing** works for the sizes there is room for, and then keeps what is below both sizes. -/
theorem resize_valid (junk : ℕ → B) (h : buffer.Valid) (hn : n < 2 ^ 32)
    (hroom : ¬ (2 ^ 32 - 16 < buffer.size ∧ 1008 < n ∧ n ≤ 2 ^ 32 - 16)) :
    ∃ buffer' tail, buffer.resize junk n = .ok buffer' ∧ buffer'.Valid ∧
      buffer'.contents = buffer.contents.take n ++ tail ∧
      tail.length = n - buffer.contents.length := by
  have hroom' : ∀ header ∈ buffer.storage,
      n ≤ header.capacity ∨ header.size ≤ (allocate junk n).memory.length := by
    rcases buffer with ⟨_ | header⟩
    · intro header hheader
      cases hheader
    · rintro _ ⟨⟩
      exact (room_iff junk (h.fit header rfl) (h.sound header rfl).size_lt hn).2 hroom
  obtain ⟨buffer', tail, hresize, hsound, hsize, hcontents⟩ := resize_spec junk h.sound hn hroom'
  refine ⟨buffer', tail, hresize, ⟨hsound, resize_fit h.fit hn hresize⟩, hcontents, ?_⟩
  have hlen := congrArg List.length hcontents
  rw [length_contents hsound, hsize, List.length_append, List.length_take] at hlen
  omega

/-- Where there is no room the bytes go past the new storage. -/
theorem resize_fails (junk : ℕ → B) (h : buffer.Valid) (hn : n < 2 ^ 32)
    (hroom : 2 ^ 32 - 16 < buffer.size ∧ 1008 < n ∧ n ≤ 2 ^ 32 - 16) :
    buffer.resize junk n = .error .badAccess := by
  rcases buffer with ⟨_ | header⟩
  · exact absurd hroom.1 (Nat.not_lt_zero _)
  · have hsound := h.sound header rfl
    have hno := mt (room_iff junk (h.fit header rfl) hsound.size_lt hn).1 (not_not_intro hroom)
    rw [not_or] at hno
    have hcapacity := Nat.ne_of_gt hsound.capacity_pos
    have hfrom := memcpyFrom_spec h.sound (Nat.le_of_eq (Nat.zero_add header.size))
    have hlen : ((contents ⟨some header⟩).drop 0 |>.take header.size).length = header.size := by
      rw [List.drop_zero, List.length_take, length_contents h.sound]
      exact Nat.min_self _
    obtain ⟨hnew, -⟩ := allocate_sound junk (hn.trans (by decide))
    have hsize : (allocate junk n).size ≠ 0 := by
      rw [allocate_size junk hn]
      omega
    have hpast : ¬ 0 + header.size ≤ (allocate junk n).memory.length := by
      rw [Nat.zero_add]
      exact hno.2
    simp only [resize, reallocate, hcapacity, if_false, hno.1, hfrom, memcpyTo,
      data_of_sound hnew, hsize, hlen, hpast]

theorem append_valid (junk : ℕ → B) (h : buffer.Valid) (hn : buffer.size + count < 2 ^ 32) :
    ∃ buffer' tail, buffer.append junk count = .ok (buffer', buffer.contents.length) ∧
      buffer'.Valid ∧ buffer'.contents = buffer.contents ++ tail ∧ tail.length = count := by
  obtain ⟨buffer', tail, happend, hsound, hcontents, hlen⟩ := append_spec junk h.sound hn
  refine ⟨buffer', tail, ?_, ⟨hsound, ?_⟩, hcontents, hlen⟩
  · rw [happend, length_contents h.sound]
  · rw [append] at happend
    split at happend
    · cases happend
    · next hresize =>
        split at happend
        · cases happend
        · obtain ⟨rfl, -⟩ := Prod.mk.inj (Except.ok.inj happend)
          exact resize_fit h.fit hn hresize

theorem memcpyTo_valid (h : buffer.Valid) (hle : offset + bytes.length ≤ buffer.contents.length) :
    ∃ buffer', buffer.memcpyTo offset bytes = .ok buffer' ∧ buffer'.Valid ∧
      buffer'.contents = overwrite buffer.contents offset bytes := by
  rw [length_contents h.sound] at hle
  obtain ⟨buffer', hto, hsound, hcontents⟩ := memcpyTo_spec h.sound hle
  exact ⟨buffer', hto, ⟨hsound, memcpyTo_fit h.fit hto⟩, hcontents⟩

/-- **Joining**: all bytes of both, in one of them. -/
theorem concat_valid (junk : ℕ → B) (h : buffer.Valid) (hother : other.Valid)
    (hn : buffer.size + other.size < 2 ^ 32) :
    ∃ buffer', buffer.concat junk other = .ok (buffer', {}) ∧ buffer'.Valid ∧
      buffer'.contents = buffer.contents ++ other.contents := by
  rcases buffer with ⟨_ | header⟩
  · exact ⟨other, rfl, hother, rfl⟩
  · obtain ⟨buffer₁, tail, happend, hvalid, htail, hlen⟩ := append_valid junk h hn
    have hfrom := memcpyFrom_spec hother.sound (Nat.le_of_eq (Nat.zero_add other.size))
    rw [List.drop_zero, List.take_of_length_le (Nat.le_of_eq (length_contents hother.sound))]
      at hfrom
    have hotherLen := length_contents hother.sound
    have hle : (contents ⟨some header⟩).length + other.contents.length ≤
        buffer₁.contents.length := by
      rw [htail, List.length_append]
      omega
    obtain ⟨buffer', hto, hvalid', hcontents⟩ := memcpyTo_valid hvalid hle
    refine ⟨buffer', ?_, hvalid', ?_⟩
    · simp only [concat, happend, hfrom, hto]
      rfl
    · rw [hcontents, htail, overwrite_append (Nat.le_refl _) (by omega), overwrite_length]

end Buffer

/-! ### The steps -/

/-- The buffers hold these bytes. -/
structure Refines (t : Buffers B) (r : Bytes B) : Prop where
  valid : ∀ buffer ∈ t.buffers, buffer.Valid
  bytes : t.buffers.map Buffer.contents = r.bytes
  places : t.places = r.places

section Steps
variable {t t' : Buffers B} {r : Bytes B} {call : BufferOp B × (ℕ → B)} {i : ℕ}

theorem Refines.init : Refines ({} : Buffers B) {} := ⟨List.forall_mem_nil _, rfl, rfl⟩

theorem Refines.get (h : Refines t r) {buffer : Buffer B} (hi : t.buffers[i]? = some buffer) :
    buffer.Valid ∧ r.bytes[i]? = some buffer.contents := by
  refine ⟨h.valid buffer (List.mem_of_getElem? hi), ?_⟩
  rw [← h.bytes, List.getElem?_map, hi, Option.map_some]

theorem size_eq {buffer : Buffer B} (hi : t.buffers[i]? = some buffer) :
    t.size i = buffer.size := by
  rw [Buffers.size, hi, Option.elim_some]

/-- One buffer changes. -/
theorem Refines.set (h : Refines t r) (i : ℕ) {buffer : Buffer B} (hvalid : buffer.Valid)
    {places : List ℕ} (hplaces : t.places = places) :
    Refines { t with buffers := t.buffers.set i buffer }
      ⟨r.bytes.set i buffer.contents, places⟩ where
  valid := by
    intro b hb
    rcases List.mem_or_eq_of_mem_set hb with hb | rfl
    · exact h.valid b hb
    · exact hvalid
  bytes := by rw [List.map_set, h.bytes]
  places := hplaces

/-- One buffer more. -/
theorem Refines.push (h : Refines t r) {buffer : Buffer B} (hvalid : buffer.Valid) :
    Refines { t with buffers := t.buffers ++ [buffer] }
      { r with bytes := r.bytes ++ [buffer.contents] } where
  valid := by
    intro b hb
    rcases List.mem_append.1 hb with hb | hb
    · exact h.valid b hb
    · rw [List.mem_singleton.1 hb]
      exact hvalid
  bytes := by
    rw [List.map_append, h.bytes]
    rfl
  places := h.places

/-- **One step** with room for it does what is asked. -/
theorem step_refines (h : Refines t r) (hbelow : t.Below call) (hroomy : t.Roomy call) :
    ∃ t' r', t.step call = some t' ∧ Bytes.Step r call.1 r' ∧ Refines t' r' := by
  obtain ⟨op, junk⟩ := call
  cases op with
  | construct => exact ⟨_, _, rfl, .construct r, h.push Buffer.valid_none⟩
  | constructSize size =>
      have hvalid := Buffer.valid_allocate junk (n := size) hbelow
      have hsize : (Buffer.contents ⟨some (allocate junk size)⟩).length = size :=
        (Buffer.length_contents hvalid.sound).trans (allocate_size junk hbelow)
      have hstep := Bytes.Step.constructSize r (Buffer.contents ⟨some (allocate junk size)⟩)
      rw [hsize] at hstep
      exact ⟨_, _, rfl, hstep, h.push hvalid⟩
  | moveConstruct i =>
      have hi := List.getElem?_eq_getElem (l := t.buffers) hbelow
      obtain ⟨hvalid, hbytes⟩ := h.get hi
      refine ⟨_, _, by rw [Buffers.step, hi]; rfl, .moveConstruct hbytes, ?_⟩
      exact (h.set i Buffer.valid_none h.places).push hvalid
  | resize i newSize =>
      have hi := List.getElem?_eq_getElem (l := t.buffers) hbelow.1
      obtain ⟨hvalid, hbytes⟩ := h.get hi
      rw [Buffers.Roomy, size_eq hi] at hroomy
      obtain ⟨buffer', tail, hresize, hvalid', hcontents, hlen⟩ :=
        Buffer.resize_valid junk hvalid hbelow.2 hroomy
      refine ⟨_, _, by rw [Buffers.step, hi, Option.bind_some, hresize]; rfl,
        .resize hbytes tail hlen, ?_⟩
      rw [← hcontents]
      exact h.set i hvalid' h.places
  | append i count =>
      have hi := List.getElem?_eq_getElem (l := t.buffers) hbelow.1
      obtain ⟨hvalid, hbytes⟩ := h.get hi
      have hcount := hbelow.2
      rw [size_eq hi] at hcount
      obtain ⟨buffer', tail, happend, hvalid', hcontents, rfl⟩ :=
        Buffer.append_valid junk hvalid hcount
      refine ⟨_, _, by rw [Buffers.step, hi, Option.bind_some, happend]; rfl,
        .append hbytes tail, ?_⟩
      rw [← hcontents]
      have hset := h.set i hvalid' h.places
      exact ⟨hset.valid, hset.bytes, congrArg (· ++ _) h.places⟩
  | concat i j =>
      obtain ⟨hne, hi, hj, hsum⟩ := hbelow
      have hi := List.getElem?_eq_getElem (l := t.buffers) hi
      have hj := List.getElem?_eq_getElem (l := t.buffers) hj
      obtain ⟨hvalid, hbytes⟩ := h.get hi
      obtain ⟨hother, hotherBytes⟩ := h.get hj
      rw [size_eq hi, size_eq hj] at hsum
      obtain ⟨buffer', hconcat, hvalid', hcontents⟩ := Buffer.concat_valid junk hvalid hother hsum
      -- the other buffer is moved from, and so is empty afterwards
      refine ⟨{ t with buffers := (t.buffers.set i buffer').set j {} }, _, ?_,
        .concat hne hbytes hotherBytes, ?_⟩
      · rw [Buffers.step, if_neg hne, hi, hj, Option.bind_some, Option.bind_some, hconcat]
        rfl
      · rw [← hcontents]
        exact (h.set i hvalid' h.places).set j Buffer.valid_none h.places
  | write i offset bytes =>
      have hi := List.getElem?_eq_getElem (l := t.buffers) hbelow.1
      obtain ⟨hvalid, hbytes⟩ := h.get hi
      have hle := hbelow.2
      rw [size_eq hi, ← Buffer.length_contents hvalid.sound] at hle
      obtain ⟨buffer', hto, hvalid', hcontents⟩ := Buffer.memcpyTo_valid hvalid hle
      refine ⟨_, _, by rw [Buffers.step, hi, Option.bind_some, hto]; rfl, .write hbytes hle, ?_⟩
      rw [← hcontents]
      exact h.set i hvalid' h.places

/-- A step without room is an error. -/
theorem step_fails (h : Refines t r) (hbelow : t.Below call) (hroomy : ¬ t.Roomy call) :
    t.step call = none := by
  obtain ⟨op, junk⟩ := call
  cases op with
  | resize i newSize =>
      have hi := List.getElem?_eq_getElem (l := t.buffers) hbelow.1
      rw [Buffers.Roomy, not_not, size_eq hi] at hroomy
      rw [Buffers.step, hi, Option.bind_some,
        Buffer.resize_fails junk (h.get hi).1 hbelow.2 hroomy]
      rfl
  | construct | constructSize _ | moveConstruct _ | append _ _ | concat _ _ | write _ _ _ =>
      exact absurd trivial hroomy

end Steps

/-! ### The runs -/

/-- **A run** with room for every step does what is asked. -/
theorem run_refines {t : Buffers B} {r : Bytes B} (h : Refines t r)
    {calls : List (BufferOp B × (ℕ → B))} (hbelow : Allowed Buffers.step Buffers.Below t calls)
    (hroomy : Allowed Buffers.step Buffers.Roomy t calls) :
    ∃ t' r', exec Buffers.step t calls = some t' ∧ Bytes.Run r (calls.map Prod.fst) r' ∧
      Refines t' r' := by
  induction calls generalizing t r with
  | nil => exact ⟨t, r, rfl, .nil r, h⟩
  | cons call calls ih =>
      obtain ⟨t₁, r₁, hstep, hasked, href⟩ := step_refines h hbelow.1 hroomy.1
      obtain ⟨t', r', hexec, hrun, href'⟩ := ih href (hbelow.2 t₁ hstep) (hroomy.2 t₁ hstep)
      exact ⟨t', r', by rw [exec, hstep, Option.bind_some, hexec], .cons hasked hrun, href'⟩

/-- A run that comes to its end has had room for every step. -/
theorem roomy_of_exec {t t' : Buffers B} {r : Bytes B} (h : Refines t r)
    {calls : List (BufferOp B × (ℕ → B))} (hbelow : Allowed Buffers.step Buffers.Below t calls)
    (hexec : exec Buffers.step t calls = some t') : Allowed Buffers.step Buffers.Roomy t calls := by
  induction calls generalizing t r with
  | nil => trivial
  | cons call calls ih =>
      obtain ⟨t₁, hstep, hexec⟩ := Option.bind_eq_some_iff.1 hexec
      have hroomy : t.Roomy call := by
        by_contra hno
        rw [step_fails h hbelow.1 hno] at hstep
        cases hstep
      obtain ⟨t₂, r₁, hstep', -, href⟩ := step_refines h hbelow.1 hroomy
      obtain rfl := Option.some.inj (hstep.symm.trans hstep')
      refine ⟨hroomy, fun t₂ hstep₂ => ?_⟩
      obtain rfl := Option.some.inj (hstep.symm.trans hstep₂)
      exact ih href (hbelow.2 t₁ hstep) hexec

/-- The calls are taken, and the buffers hold the bytes that are asked for. -/
def Refining (calls : List (BufferOp B × (ℕ → B))) : Prop :=
  ∃ t r, exec Buffers.step {} calls = some t ∧ Bytes.Run {} (calls.map Prod.fst) r ∧ Refines t r

/-- Calls that never ask for 4 GiB. -/
theorem buffers_refine_iff {calls : List (BufferOp B × (ℕ → B))}
    (hbelow : Allowed Buffers.step Buffers.Below {} calls) :
    Refining calls ↔ Allowed Buffers.step Buffers.Roomy {} calls := by
  constructor
  · rintro ⟨t, r, hexec, -⟩
    exact roomy_of_exec .init hbelow hexec
  · exact run_refines .init hbelow

/-- Bytes are appended and joined with others, and some are cut off. -/
def joined : List (BufferOp ℕ × (ℕ → ℕ)) :=
  [.constructSize 2, .write 0 0 [1, 2], .construct, .append 1 1, .concat 0 1, .resize 0 1].map
    fun op => (op, fun _ => 0)

theorem joined_refine_iff :
    Refining joined ↔ Allowed Buffers.step Buffers.Roomy ({} : Buffers ℕ) joined :=
  buffers_refine_iff (by decide +kernel)

/-- A buffer of the largest size shrinks. -/
def shrunk : List (BufferOp ℕ × (ℕ → ℕ)) :=
  [(.constructSize (2 ^ 32 - 1), fun _ => 0), (.resize 0 1009, fun _ => 0)]

theorem not_refining_shrunk :
    Allowed Buffers.step Buffers.Below ({} : Buffers ℕ) shrunk ∧ ¬ Refining shrunk := by
  have hbelow : Allowed Buffers.step Buffers.Below ({} : Buffers ℕ) shrunk := by
    refine ⟨by decide, ?_⟩
    rintro _ ⟨⟩
    exact ⟨⟨Nat.one_pos, by decide⟩, fun _ _ => trivial⟩
  refine ⟨hbelow, ?_⟩
  rintro ⟨t, r, hexec, -⟩
  obtain ⟨-, hrest⟩ := roomy_of_exec .init hbelow hexec
  exact (hrest _ rfl).1 ⟨by decide, by decide, by decide⟩

end MyEngine.Memory
