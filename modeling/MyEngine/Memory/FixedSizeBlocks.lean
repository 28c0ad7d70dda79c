import MyEngine.Memory.HostMemory
import MyEngine.Support.Links

/-!
# Memory — FixedSizeBlocks

`fixed_size_block_allocator.cpp`: blocks of one size are cut off ranges of pages, and those that are
freed are linked by the pointer each one begins with.

* `Inv`: the blocks that are handed out and those on the free list are different blocks of what has
  been cut off, and their users write to the former only.
* `Inv.step`: every call keeps it.
* `blocks_sound`: what is handed out is apart, in the pages, aligned and long enough; what is freed
  is handed out next.
-/

namespace MyEngine.Memory.FixedSize

open Support Runs

/-- `sizeof(void*)`. -/
def pointerSize : ℕ := 8

/-! ### The pool -/

/-- `Pool::BlockAlignment`. -/
def blockAlignment : ℕ := 16

/-- `PreAllocateBlockCount`. -/
def preAllocateBlockCount : ℕ := 10

structure MemRegionEntry where
  pages : MemRegion
  offset : ℕ := 0
  deriving DecidableEq, Repr

/-- What is left of the region, as sizes are subtracted. -/
def MemRegionEntry.availSize (region : MemRegionEntry) : ℕ :=
  (region.pages.size + 2 ^ 64 - region.offset) % 2 ^ 64

/-- The pages are listed from the last one on. -/
structure Pool where
  blockSize : ℕ
  pages : List MemRegionEntry
  freeBlocksBegin : Option ℕ := none
  deriving DecidableEq, Repr

namespace Pool

/-- The size the constructor asks the host for. -/
def preAllocateSize (blockSize : ℕ) : ℕ := blockSize * preAllocateBlockCount % 2 ^ 64

/-- The constructor, with what the host answers. -/
def create (blockSize : ℕ) (answer : MemRegion) : Pool where
  blockSize := blockSize
  pages := [⟨answer, 0⟩]

/-- The end of `allocateNewBlock`. -/
def cut (asserts : Bool) (pool : Pool) : Option (Option ℕ × Pool) :=
  match pool.pages with
  | []                => none
  | region :: earlier =>
      if asserts && region.pages.size < pool.blockSize then none
      else
        some (some (region.pages.base + region.offset), { pool with
          pages := { region with offset := (region.offset + pool.blockSize) % 2 ^ 64 } :: earlier })

/-- `allocateNewBlock`, with what the host answers if it is asked.  A build with assertions stops
where there are no more pages. -/
def allocateNewBlock (asserts : Bool) (answer : MemRegion) (pool : Pool) :
    Option (Option ℕ × Pool) :=
  match pool.pages with
  | []          => none
  | region :: _ =>
      if region.availSize < pool.blockSize then
        if answer.base = 0 then
          if asserts then none else some (none, pool)
        else
          { pool with pages := ⟨answer, 0⟩ :: pool.pages }.cut asserts
      else
        pool.cut asserts

/-- `allocate`, without the filling.  The memory has a pointer at every address that one can be
at. -/
def take (asserts : Bool) (answer : MemRegion) (memory : ℕ → Option ℕ) (pool : Pool) :
    Option (Option ℕ × Pool) :=
  match pool.freeBlocksBegin with
  | none       => pool.allocateNewBlock asserts answer
  | some block => some (some block, { pool with freeBlocksBegin := memory block })

end Pool

/-! ### The allocator -/

/-- The pool and the memory; `live` remembers the blocks that have been handed out and not freed. -/
structure State where
  pool : Pool
  memory : ℕ → Option ℕ
  live : List ℕ := []

namespace State

variable (asserts fills : Bool) (answer : MemRegion) (s : State)

/-- The addresses of the block at `ptr`. -/
def block (ptr : ℕ) : Span := ⟨ptr, s.pool.blockSize⟩

/-- What a build without `NDEBUG` does to a block. -/
def memset (ptr : ℕ) : State :=
  { s with
    memory := fun address =>
      if ptr ≤ address ∧ address < ptr + s.pool.blockSize then none else s.memory address }

/-- `Pool::allocate`. -/
def allocate : Option (Option ℕ × State) :=
  (s.pool.take asserts answer s.memory).map fun r =>
    match r.1 with
    | none     => (none, { s with pool := r.2 })
    | some ptr =>
        let s' := { s with pool := r.2, live := ptr :: s.live }
        (some ptr, if fills then s'.memset ptr else s')

/-- The assertions at the beginning of a call. -/
def checks (size align : ℕ) : Bool :=
  size ≤ s.pool.blockSize && checkAllocAlignment align blockAlignment

/-- `FixedSizeBlockAllocator::alloc`. -/
def alloc (size align : ℕ) : Option (Option ℕ × State) :=
  if asserts && !s.checks size align then none else s.allocate asserts fills answer

/-- `FixedSizeBlockAllocator::realloc`. -/
def realloc (oldPtr : Option ℕ) (size align : ℕ) : Option (Option ℕ × State) :=
  if asserts && !s.checks size align then none
  else
    match oldPtr with
    | some ptr => some (some ptr, s)
    | none     => s.allocate asserts fills answer

/-- `Pool::free`. -/
def push (ptr : ℕ) : State where
  pool := { s.pool with freeBlocksBegin := some ptr }
  memory := Function.update s.memory ptr s.pool.freeBlocksBegin
  live := s.live.erase ptr

/-- `FixedSizeBlockAllocator::free`. -/
def free (ptr : Option ℕ) (size align : ℕ) : Option State :=
  if asserts && !((size = unspecifiedValue || size ≤ s.pool.blockSize) &&
      checkAllocAlignment align blockAlignment) then none
  else
    match ptr with
    | none     => some s
    | some ptr => some (s.push ptr)

end State

/-- `createFixedSizeBlockAllocator`. -/
def createFixedSizeBlockAllocator (blockSize : ℕ) (answer : MemRegion) (memory : ℕ → Option ℕ) :
    State where
  pool := .create (alignedSize blockSize blockAlignment) answer
  memory := memory

/-! ### Calls -/

/-- A call, with what the host answers; `write` is what a user does with a block. -/
inductive Action where
  | alloc (size align : ℕ) (answer : MemRegion)
  | realloc (oldPtr : Option ℕ) (size align : ℕ) (answer : MemRegion)
  | free (ptr : Option ℕ) (size align : ℕ)
  | write (address : ℕ) (value : Option ℕ)
  deriving DecidableEq, Repr

def step (asserts fills : Bool) (s : State) : Action → Option State
  | .alloc size align answer          => (s.alloc asserts fills answer size align).map Prod.snd
  | .realloc oldPtr size align answer =>
      (s.realloc asserts fills answer oldPtr size align).map Prod.snd
  | .free ptr size align              => s.free asserts ptr size align
  | .write address value              =>
      some { s with memory := Function.update s.memory address value }

/-- What the host answers: nothing, or pages it has not given before, of the size it is asked
for. -/
def Granted (pages : List MemRegionEntry) (size : ℕ) (answer : MemRegion) : Prop :=
  answer = noMemory ∨ answer.IsPages ∧ size ≤ answer.size ∧
    ∀ region ∈ pages, region.pages.Apart answer

instance {pages : List MemRegionEntry} {size : ℕ} {answer : MemRegion} :
    Decidable (Granted pages size answer) := inferInstanceAs (Decidable (_ ∨ _))

/-- What is freed is live, and what is written is a pointer in a live block. -/
def Called (s : State) : Action → Prop
  | .alloc _ _ answer          => Granted s.pool.pages s.pool.blockSize answer
  | .realloc oldPtr _ _ answer =>
      (∀ p ∈ oldPtr, p ∈ s.live) ∧ Granted s.pool.pages s.pool.blockSize answer
  | .free ptr _ _              => ∀ p ∈ ptr, p ∈ s.live
  | .write address _           =>
      pointerSize ∣ address ∧ ∃ p ∈ s.live, Span.Within ⟨address, pointerSize⟩ (s.block p)

instance (s : State) : ∀ a, Decidable (Called s a)
  | .alloc _ _ answer          =>
      inferInstanceAs (Decidable (Granted s.pool.pages s.pool.blockSize answer))
  | .realloc oldPtr _ _ answer =>
      inferInstanceAs (Decidable ((∀ p ∈ oldPtr, p ∈ s.live) ∧
        Granted s.pool.pages s.pool.blockSize answer))
  | .free ptr _ _              => inferInstanceAs (Decidable (∀ p ∈ ptr, p ∈ s.live))
  | .write address _           =>
      inferInstanceAs (Decidable (pointerSize ∣ address ∧
        ∃ p ∈ s.live, Span.Within ⟨address, pointerSize⟩ (s.block p)))

/-! ### The blocks of a pool -/

namespace Pool

variable {asserts : Bool} {answer : MemRegion} {pool pool' : Pool} {ptr ptr' : ℕ}

/-- `ptr` has been cut off. -/
def IsBlock (pool : Pool) (ptr : ℕ) : Prop :=
  ∃ region ∈ pool.pages, ∃ k, ptr = region.pages.base + k * pool.blockSize ∧
    (k + 1) * pool.blockSize ≤ region.offset

structure EntryInv (blockSize : ℕ) (region : MemRegionEntry) : Prop where
  aligned : blockAlignment ∣ region.pages.base
  size_lt : region.pages.size < 2 ^ 64
  offset : blockSize ∣ region.offset
  offset_le : region.offset ≤ region.pages.size

structure Inv (pool : Pool) : Prop where
  pos : 0 < pool.blockSize
  aligned : blockAlignment ∣ pool.blockSize
  entry : ∀ region ∈ pool.pages, EntryInv pool.blockSize region
  apart : pool.pages.Pairwise fun r r' => r.pages.Apart r'.pages

theorem EntryInv.availSize_eq {blockSize : ℕ} {region : MemRegionEntry}
    (h : EntryInv blockSize region) : region.availSize = region.pages.size - region.offset := by
  have hlt : region.pages.size - region.offset < 2 ^ 64 :=
    Nat.lt_of_le_of_lt (Nat.sub_le _ _) h.size_lt
  rw [MemRegionEntry.availSize, Nat.sub_add_comm h.offset_le, Nat.add_mod_right,
    Nat.mod_eq_of_lt hlt]

/-- Pages off which nothing has been cut. -/
theorem EntryInv.of_pages {blockSize : ℕ} (h : answer.IsPages) :
    EntryInv blockSize ⟨answer, 0⟩ where
  aligned := Nat.dvd_trans ⟨8, rfl⟩ h.2.1
  size_lt := h.size_lt
  offset := Nat.dvd_zero _
  offset_le := Nat.zero_le _

theorem IsBlock.within (hi : pool.Inv) (h : pool.IsBlock ptr) :
    ∃ region ∈ pool.pages, Span.Within ⟨ptr, pool.blockSize⟩ region.pages := by
  obtain ⟨region, hr, k, rfl, hk⟩ := h
  rw [Nat.succ_mul] at hk
  exact ⟨region, hr, Span.within_of_le (hk.trans (hi.entry region hr).offset_le)⟩

theorem IsBlock.aligned (hi : pool.Inv) (h : pool.IsBlock ptr) : blockAlignment ∣ ptr := by
  obtain ⟨region, hr, k, rfl, -⟩ := h
  exact Nat.dvd_add (hi.entry region hr).aligned (Nat.dvd_mul_left_of_dvd hi.aligned k)

/-- A block is apart from what has been cut off of another region. -/
theorem IsBlock.apart_region (hi : pool.Inv) {region : MemRegionEntry} {a : Span}
    (h : pool.IsBlock ptr) (hr : region ∈ pool.pages) (ha : a.Within region.pages) :
    Span.Apart ⟨ptr, pool.blockSize⟩ a ∨
      ∃ k, ptr = region.pages.base + k * pool.blockSize ∧
        (k + 1) * pool.blockSize ≤ region.offset := by
  obtain ⟨region', hr', k, rfl, hk⟩ := h
  by_cases hne : region' = region
  · subst hne
    exact .inr ⟨k, rfl, hk⟩
  · rw [Nat.succ_mul] at hk
    have hin := Span.within_of_le (hk.trans (hi.entry region' hr').offset_le)
    have hapart := Span.Apart.of_pairwise hi.apart hr' hr hne
    exact .inl (hapart.mono hin ha)

/-- Two blocks are apart: those of one region by their numbers. -/
theorem IsBlock.apart (hi : pool.Inv) (h : pool.IsBlock ptr) (h' : pool.IsBlock ptr')
    (hne : ptr ≠ ptr') : Span.Apart ⟨ptr, pool.blockSize⟩ ⟨ptr', pool.blockSize⟩ := by
  obtain ⟨region, hr, k', rfl, hk'⟩ := h'
  rw [Nat.succ_mul] at hk'
  have hin := Span.within_of_le (hk'.trans (hi.entry region hr).offset_le)
  rcases h.apart_region hi hr hin with happ | ⟨k, rfl, -⟩
  · exact happ
  · refine Span.apart_blocks fun hkk => hne ?_
    rw [hkk]

/-- A block is cut off. -/
structure Cut (pool pool' : Pool) (ptr : ℕ) : Prop where
  inv : pool'.Inv
  fresh : ¬ pool.IsBlock ptr
  block : pool'.IsBlock ptr
  kept : ∀ {p}, pool.IsBlock p → pool'.IsBlock p
  blockSize : pool'.blockSize = pool.blockSize
  begins : pool'.freeBlocksBegin = pool.freeBlocksBegin

/-- The last region with one block more. -/
theorem Inv.cut (hi : pool.Inv) {region : MemRegionEntry} {earlier : List MemRegionEntry}
    (hpages : pool.pages = region :: earlier)
    (hroom : region.offset + pool.blockSize ≤ region.pages.size) :
    Cut pool { pool with
      pages := { region with offset := region.offset + pool.blockSize } :: earlier }
      (region.pages.base + region.offset) := by
  have hr : region ∈ pool.pages := by simp [hpages]
  have he := hi.entry region hr
  obtain ⟨k, hk⟩ := he.offset
  have hapart := hi.apart
  rw [hpages] at hapart
  refine ⟨⟨hi.pos, hi.aligned, ?_, ?_⟩, ?_, ?_, ?_, rfl, rfl⟩
  · rintro entry (_ | ⟨_, hmem⟩)
    · exact { he with offset := Nat.dvd_add he.offset (Nat.dvd_refl _), offset_le := hroom }
    · exact hi.entry entry (hpages ▸ List.mem_cons_of_mem _ hmem)
  · exact List.pairwise_cons.2 (List.pairwise_cons.1 hapart)
  · intro h
    -- the block would be apart from itself, or one of those before the offset
    rcases h.apart_region hi hr (Span.within_of_le hroom) with happ | ⟨k', hk', hle⟩
    · exact happ _ (Span.base_mem hi.pos) (Span.base_mem hi.pos)
    · rw [Nat.add_left_cancel hk', Nat.succ_mul] at hle
      exact absurd hle (Nat.not_le_of_lt (Nat.lt_add_of_pos_right hi.pos))
  · refine ⟨_, List.mem_cons_self, k, ?_, ?_⟩
    · rw [hk, Nat.mul_comm]
    · rw [hk, Nat.succ_mul, Nat.mul_comm]
  · rintro p ⟨entry, hmem, k', hp, hle⟩
    rw [hpages] at hmem
    rcases List.mem_cons.1 hmem with rfl | hmem
    · exact ⟨_, List.mem_cons_self, k', hp, hle.trans (Nat.le_add_right _ _)⟩
    · exact ⟨entry, List.mem_cons_of_mem _ hmem, k', hp, hle⟩

theorem cut_spec {r : Option ℕ × Pool} (hi : pool.Inv) {region : MemRegionEntry}
    {earlier : List MemRegionEntry} (hpages : pool.pages = region :: earlier)
    (hroom : region.offset + pool.blockSize ≤ region.pages.size)
    (h : pool.cut asserts = some r) : ∃ p, r.1 = some p ∧ Cut pool r.2 p := by
  have he := hi.entry region (by simp [hpages])
  have hlt := Nat.lt_of_le_of_lt hroom he.size_lt
  simp only [Pool.cut, hpages, Nat.mod_eq_of_lt hlt] at h
  split at h
  · cases h
  · obtain rfl := Option.some.inj h
    exact ⟨_, rfl, hi.cut hpages hroom⟩

/-- New pages are apart from the other ones. -/
theorem Inv.grow (hi : pool.Inv) (hpages : answer.IsPages)
    (happ : ∀ region ∈ pool.pages, region.pages.Apart answer) :
    Inv { pool with pages := ⟨answer, 0⟩ :: pool.pages } := by
  refine ⟨hi.pos, hi.aligned, ?_, ?_⟩
  · rintro entry (_ | ⟨_, hmem⟩)
    · exact .of_pages hpages
    · exact hi.entry entry hmem
  · exact List.pairwise_cons.2 ⟨fun region hr => (happ region hr).symm, hi.apart⟩

theorem allocateNewBlock_spec {r : Option ℕ × Pool} (hi : pool.Inv)
    (ha : Granted pool.pages pool.blockSize answer)
    (h : pool.allocateNewBlock asserts answer = some r) :
    r = (none, pool) ∨ ∃ p, r.1 = some p ∧ Cut pool r.2 p := by
  unfold Pool.allocateNewBlock at h
  split at h
  · cases h
  · next region earlier hpages =>
      have he := hi.entry region (by simp [hpages])
      rw [he.availSize_eq] at h
      split_ifs at h with hroom hnull
      · exact .inl (Option.some.inj h).symm
      · rcases ha with rfl | ⟨hanswer, hsize, happ⟩
        · exact absurd rfl hnull
        · have hi' := hi.grow hanswer happ
          obtain ⟨p, hp, hcut⟩ := cut_spec hi' rfl (by simpa using hsize) h
          have hkept : ∀ {q}, pool.IsBlock q →
              IsBlock { pool with pages := ⟨answer, 0⟩ :: pool.pages } q := by
            rintro q ⟨entry, hmem, hq⟩
            exact ⟨entry, List.mem_cons_of_mem _ hmem, hq⟩
          exact .inr ⟨p, hp, { hcut with
            fresh := fun hb => hcut.fresh (hkept hb)
            kept := fun hb => hcut.kept (hkept hb) }⟩
      · refine .inr (cut_spec hi hpages ?_ h)
        have hle := he.offset_le
        omega

end Pool

/-! ### The invariant -/

/-- The blocks of `free` are linked; they and the live ones are different blocks of the pool. -/
structure Holds (s : State) (free : List ℕ) : Prop where
  pool : s.pool.Inv
  links : Links.Seg s.memory s.pool.freeBlocksBegin free none
  nodup : (s.live ++ free).Nodup
  block : ∀ p ∈ s.live ++ free, s.pool.IsBlock p

def Inv (s : State) : Prop := ∃ free, Holds s free

section Steps
variable {asserts fills : Bool} {answer : MemRegion} {s s' : State} {free : List ℕ} {p : ℕ}

theorem Holds.live_apart (h : Holds s free) :
    s.live.Pairwise fun p q => (s.block p).Apart (s.block q) := by
  refine (List.nodup_append.1 h.nodup).1.imp_of_mem fun hp hq hne => ?_
  exact (h.block _ (List.mem_append_left _ hp)).apart h.pool
    (h.block _ (List.mem_append_left _ hq)) hne

/-- A free block is no part of a live one. -/
theorem Holds.notMem_block (h : Holds s free) (hp : p ∈ s.live) {q : ℕ} (hq : q ∈ free) :
    q ∉ s.block p := by
  intro hmem
  have hne := (List.nodup_append.1 h.nodup).2.2 p hp q hq
  have happ := (h.block p (List.mem_append_left _ hp)).apart h.pool
    (h.block q (List.mem_append_right _ hq)) hne
  exact happ q hmem (Span.base_mem h.pool.pos)

/-- What is written to live blocks does not reach the links. -/
theorem Holds.write (h : Holds s free) {memory : ℕ → Option ℕ}
    (hmem : ∀ a, (∀ p ∈ s.live, a ∉ s.block p) → memory a = s.memory a) :
    Holds { s with memory := memory } free :=
  { h with links := h.links.congr fun q hq => hmem q fun _ hp => h.notMem_block hp hq }

theorem Holds.memset (h : Holds s free) (hp : p ∈ s.live) : Holds (s.memset p) free :=
  h.write fun _ ha => if_neg (ha p hp)

/-- A block of the pool that is neither live nor free is handed out. -/
theorem Holds.cut {pool : Pool} (h : Holds s []) (hcut : Pool.Cut s.pool pool p) :
    Holds { s with pool := pool, live := p :: s.live } [] := by
  refine ⟨hcut.inv, ?_, ?_, ?_⟩
  · exact hcut.begins ▸ h.links
  · refine List.nodup_cons.2 ⟨fun hp => hcut.fresh (h.block p hp), h.nodup⟩
  · rintro q (_ | ⟨_, hq⟩)
    · exact hcut.block
    · exact hcut.kept (h.block q hq)

/-- The first free block is handed out. -/
theorem Holds.pop (h : Holds s (p :: free)) :
    Holds { s with
      pool := { s.pool with freeBlocksBegin := s.memory p }
      live := p :: s.live } free where
  pool := { h.pool with }
  links := h.links.2
  nodup := List.perm_middle.nodup_iff.1 h.nodup
  block q hq := h.block q (List.perm_middle.mem_iff.2 hq)

theorem take_spec {r : Option ℕ × Pool} (h : Holds s free)
    (ha : Granted s.pool.pages s.pool.blockSize answer)
    (hr : s.pool.take asserts answer s.memory = some r) :
    r = (none, s.pool) ∨ ∃ p free', r.1 = some p ∧ p ∉ s.live ∧
      r.2.blockSize = s.pool.blockSize ∧
      Holds { s with pool := r.2, live := p :: s.live } free' := by
  unfold Pool.take at hr
  split at hr
  · next hbegin =>
      obtain rfl : free = [] := List.head?_eq_none_iff.1 (h.links.eq_head?.symm.trans hbegin)
      refine (Pool.allocateNewBlock_spec h.pool ha hr).imp_right ?_
      rintro ⟨p, hp, hcut⟩
      have hfresh : p ∉ s.live := fun hmem => hcut.fresh (h.block p (List.mem_append_left _ hmem))
      exact ⟨p, [], hp, hfresh, hcut.blockSize, h.cut hcut⟩
  · next block hbegin =>
      obtain rfl := Option.some.inj hr
      obtain ⟨rest, rfl⟩ := List.head?_eq_some_iff.1 (h.links.eq_head?.symm.trans hbegin)
      have hfresh : block ∉ s.live := fun hmem =>
        (List.nodup_append.1 h.nodup).2.2 block hmem block List.mem_cons_self rfl
      exact .inr ⟨block, rest, rfl, hfresh, rfl, h.pop⟩

/-- `allocate` hands out nothing and leaves all as it is, or a block that is not live. -/
theorem allocate_spec {r : Option ℕ × State} (h : Inv s)
    (ha : Granted s.pool.pages s.pool.blockSize answer)
    (hr : s.allocate asserts fills answer = some r) :
    Inv r.2 ∧ r.2.pool.blockSize = s.pool.blockSize ∧
      ∀ p, r.1 = some p → p ∉ s.live ∧ r.2.live = p :: s.live := by
  obtain ⟨free, h⟩ := h
  obtain ⟨⟨ptr, pool⟩, htake, rfl⟩ := Option.map_eq_some_iff.1 hr
  rcases take_spec h ha htake with heq | ⟨p, free', hp, hfresh, hsize, hh⟩
  · obtain ⟨rfl, rfl⟩ := Prod.mk.inj heq
    exact ⟨⟨free, h⟩, rfl, fun p hp => nomatch hp⟩
  · obtain rfl : ptr = some p := hp
    cases fills with
    | false => exact ⟨⟨free', hh⟩, hsize, fun q hq => by cases hq; exact ⟨hfresh, rfl⟩⟩
    | true =>
        refine ⟨⟨free', hh.memset List.mem_cons_self⟩, hsize, fun q hq => ?_⟩
        cases hq
        exact ⟨hfresh, rfl⟩

theorem push_perm (hp : p ∈ s.live) :
    ((s.push p).live ++ p :: free).Perm (s.live ++ free) :=
  List.perm_middle.trans ((List.perm_cons_erase hp).symm.append_right free)

theorem Holds.push (h : Holds s free) (hp : p ∈ s.live) : Holds (s.push p) (p :: free) where
  pool := { h.pool with }
  links := by
    have hnext : (s.push p).memory p = s.pool.freeBlocksBegin := Function.update_self ..
    refine Links.Seg.cons ?_
    rw [hnext]
    refine h.links.congr fun q hq => Function.update_of_ne ?_ _ _
    exact ((List.nodup_append.1 h.nodup).2.2 p hp q hq).symm
  nodup := (push_perm hp).nodup_iff.2 h.nodup
  block q hq := h.block q ((push_perm hp).mem_iff.1 hq)

/-- A call without a block is one of `alloc`. -/
theorem realloc_none {size align : ℕ} :
    s.realloc asserts fills answer none size align = s.alloc asserts fills answer size align := rfl

theorem alloc_eq_some {size align : ℕ} {r : Option ℕ × State}
    (h : s.alloc asserts fills answer size align = some r) :
    s.allocate asserts fills answer = some r := by
  unfold State.alloc at h
  split at h
  · cases h
  · exact h

theorem free_eq_some {ptr : Option ℕ} {size align : ℕ}
    (h : s.free asserts ptr size align = some s') :
    s' = ptr.elim s s.push := by
  unfold State.free at h
  split at h
  · cases h
  · cases ptr with
    | none | some => exact (Option.some.inj h).symm

theorem Inv.alloc {size align : ℕ} {r : Option ℕ × State} (h : Inv s)
    (ha : Granted s.pool.pages s.pool.blockSize answer)
    (hr : s.alloc asserts fills answer size align = some r) :
    Inv r.2 ∧ r.2.pool.blockSize = s.pool.blockSize := by
  obtain ⟨hi, hsize, -⟩ := allocate_spec h ha (alloc_eq_some hr)
  exact ⟨hi, hsize⟩

theorem Inv.step {a : Action} (h : Inv s) (hc : Called s a)
    (hs : step asserts fills s a = some s') :
    Inv s' ∧ s'.pool.blockSize = s.pool.blockSize := by
  cases a with
  | alloc size align answer =>
      obtain ⟨r, hr, rfl⟩ := Option.map_eq_some_iff.1 hs
      exact h.alloc hc hr
  | realloc oldPtr size align answer =>
      obtain ⟨r, hr, rfl⟩ := Option.map_eq_some_iff.1 hs
      cases oldPtr with
      | none =>
          rw [realloc_none] at hr
          exact h.alloc hc.2 hr
      | some ptr =>
          unfold State.realloc at hr
          split at hr
          · cases hr
          · obtain rfl := Option.some.inj hr
            exact ⟨h, rfl⟩
  | free ptr size align =>
      obtain rfl := free_eq_some hs
      cases ptr with
      | none => exact ⟨h, rfl⟩
      | some p =>
          obtain ⟨free, h⟩ := h
          exact ⟨⟨p :: free, h.push (hc p rfl)⟩, rfl⟩
  | write address value =>
      obtain rfl := Option.some.inj hs
      obtain ⟨free, h⟩ := h
      obtain ⟨-, p, hp, hin⟩ := hc
      refine ⟨⟨free, h.write fun a ha => Function.update_of_ne ?_ _ _⟩, rfl⟩
      rintro rfl
      have hlt : a < a + pointerSize := Nat.lt_add_of_pos_right (by decide)
      exact ha p hp ⟨hin.1, Nat.lt_of_lt_of_le hlt hin.2⟩

/-- The block that has been freed is the next one. -/
theorem allocate_push : ∃ t, (s.push p).allocate asserts fills answer = some (some p, t) := by
  cases fills with
  | false | true => exact ⟨_, rfl⟩

end Steps

/-! ### Runs -/

section Runs
variable {asserts fills : Bool} {blockSize : ℕ} {answer : MemRegion} {memory : ℕ → Option ℕ}
  {s : State}

theorem inv_create (hpos : 0 < blockSize) (hmax : blockSize ≤ 2 ^ 64 - blockAlignment)
    (ha : Granted [] (Pool.preAllocateSize (alignedSize blockSize blockAlignment)) answer) :
    Inv (createFixedSizeBlockAllocator blockSize answer memory) := by
  have heq : alignedSize blockSize blockAlignment = _ := alignedSize_eq hmax
  refine ⟨[], ⟨?_, ?_, ?_, ?_⟩, rfl, .nil, fun p hp => nomatch hp⟩
  · change 0 < alignedSize blockSize blockAlignment
    omega
  · exact dvd_alignedSize blockSize
  · intro region hr
    obtain rfl := List.mem_singleton.1 hr
    rcases ha with rfl | ⟨hpages, -⟩
    · exact ⟨Nat.dvd_zero _, by decide, Nat.dvd_zero _, Nat.le_refl _⟩
    · exact .of_pages hpages
  · exact List.pairwise_singleton _ _

/-- What the allocator promises for blocks of `blockSize`. -/
structure Sound (asserts fills : Bool) (blockSize : ℕ) (s : State) : Prop where
  apart : s.live.Pairwise fun p q => (s.block p).Apart (s.block q)
  within : ∀ p ∈ s.live, ∃ region ∈ s.pool.pages, (s.block p).Within region.pages
  length : ∀ p ∈ s.live, blockSize ≤ (s.block p).size
  aligned : ∀ p ∈ s.live, blockAlignment ∣ p
  fresh : ∀ {size align : ℕ} {answer : MemRegion} {p : ℕ} {t : State},
    Granted s.pool.pages s.pool.blockSize answer →
    s.alloc asserts fills answer size align = some (some p, t) → p ∉ s.live ∧ p ∈ t.live
  again : ∀ {size align : ℕ} {p : ℕ} {t : State}, p ∈ s.live →
    s.free asserts (some p) size align = some t →
    ∀ {answer : MemRegion} {size align : ℕ}, (asserts = true → t.checks size align) →
      ∃ u, t.alloc asserts fills answer size align = some (some p, u)

theorem Inv.sound (h : Inv s) (hsize : blockSize ≤ s.pool.blockSize) :
    Sound asserts fills blockSize s where
  apart := by
    obtain ⟨free, h⟩ := h
    exact h.live_apart
  within p hp := by
    obtain ⟨free, h⟩ := h
    exact (h.block p (List.mem_append_left _ hp)).within h.pool
  length p _ := hsize
  aligned p hp := by
    obtain ⟨free, h⟩ := h
    exact (h.block p (List.mem_append_left _ hp)).aligned h.pool
  fresh ha hr := by
    obtain ⟨-, -, hfresh⟩ := allocate_spec h ha (alloc_eq_some hr)
    obtain ⟨hp, hlive⟩ := hfresh _ rfl
    exact ⟨hp, hlive ▸ List.mem_cons_self⟩
  again hp hfree := by
    obtain rfl := free_eq_some hfree
    intro answer size align hchecks
    obtain ⟨u, hu⟩ := @allocate_push asserts fills answer s _
    refine ⟨u, ?_⟩
    rw [State.alloc, if_neg, Option.elim_some, hu]
    cases asserts with
    | false => exact Bool.false_ne_true
    | true =>
        have hc : (s.push _).checks size align = true := hchecks rfl
        simp [hc]

/-- **The blocks of a fixed-size allocator.**  In every run in which what is freed is live, and in
every build: the live blocks are apart, in the pages, long enough and aligned; no block that is live
is handed out, and what is freed is handed out again. -/
theorem blocks_sound (hpos : 0 < blockSize) (hmax : blockSize ≤ 2 ^ 64 - blockAlignment)
    (ha : Granted [] (Pool.preAllocateSize (alignedSize blockSize blockAlignment)) answer)
    (h : Steps (step asserts fills) Called
      (createFixedSizeBlockAllocator blockSize answer memory) s) :
    Sound asserts fills blockSize s := by
  have hstep : ∀ {s a s'}, Inv s ∧ s.pool.blockSize = alignedSize blockSize blockAlignment →
      Called s a → step asserts fills s a = some s' →
      Inv s' ∧ s'.pool.blockSize = alignedSize blockSize blockAlignment := by
    intro s a s' hs hc hstep
    obtain ⟨hi, hsize⟩ := hs.1.step hc hstep
    exact ⟨hi, hsize.trans hs.2⟩
  have hinv := h.invariant hstep ⟨inv_create hpos hmax ha, rfl⟩
  refine hinv.1.sound ?_
  have heq : alignedSize blockSize blockAlignment = _ := alignedSize_eq hmax
  rw [hinv.2, heq]
  omega

/-- Two blocks of 24 bytes, the first of which is freed, written over by the user of the second one,
and handed out again. -/
def reuse : List Action :=
  [.alloc 24 16 noMemory, .alloc 20 8 noMemory, .write 4136 (some 4096), .free (some 4096) 24 16,
    .alloc 24 16 noMemory]

theorem blocks_sound_reuse :
    ∃ s, exec (step true true) (createFixedSizeBlockAllocator 24 ⟨4096, 4096⟩ fun _ => none) reuse =
        some s ∧ s.live = [4096, 4128] ∧ Sound true true 24 s := by
  have hanswer : Granted [] (Pool.preAllocateSize (alignedSize 24 blockAlignment))
      ⟨4096, 4096⟩ := by decide
  have hcalled : Allowed (step true true) Called
      (createFixedSizeBlockAllocator 24 ⟨4096, 4096⟩ fun _ => none) reuse := by decide
  refine ⟨_, rfl, rfl, ?_⟩
  exact blocks_sound (by decide) (by decide) hanswer (exec_steps hcalled rfl)

end Runs

end MyEngine.Memory.FixedSize
