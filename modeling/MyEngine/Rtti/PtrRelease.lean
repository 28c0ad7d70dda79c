import Mathlib.Data.Finset.Card
import MyEngine.Rtti.Ptr
import MyEngine.Support.Replace

/-!
# Rtti — PtrRelease

What goes with the last reference of an object: the objects that its members, and theirs, were the
last to refer to.

* `Inv`: the counters, with the references that are on their way.
* `Keeps`: a set of objects whose references are not among those that go.
* `Released`: what a release does to the other handles.
* `releaseRef_spec`: one reference goes, and nothing is touched that has gone before.
-/

namespace MyEngine.Rtti.Handles

/-- The handle has a reference of the object. -/
def Ptr.holds (x : ℕ) (ptr : Ptr) : ℕ :=
  if ptr.alive ∧ ptr.instancePtr = some x then 1 else 0

open Classical in
/-- It has one, and is a variable or a member of an object of `K`. -/
noncomputable def Ptr.keeps (K : Set ℕ) (x : ℕ) (ptr : Ptr) : ℕ :=
  if ptr.alive ∧ ptr.instancePtr = some x ∧ ∀ o ∈ ptr.owner, o ∈ K then 1 else 0

theorem Ptr.keeps_le (K : Set ℕ) (x : ℕ) (ptr : Ptr) : ptr.keeps K x ≤ ptr.holds x := by
  unfold keeps holds
  split
  · next h => rw [if_pos ⟨h.1, h.2.1⟩]
  · exact Nat.zero_le _

theorem Ptr.holds_dead {x : ℕ} {ptr : Ptr} (h : ptr.alive = false) : ptr.holds x = 0 :=
  if_neg fun hholds => Bool.false_ne_true (h.symm.trans hholds.1)

theorem Ptr.keeps_dead {K : Set ℕ} {x : ℕ} {ptr : Ptr} (h : ptr.alive = false) :
    ptr.keeps K x = 0 :=
  Nat.le_zero.1 ((ptr.keeps_le K x).trans_eq (holds_dead h))

theorem Ptr.keeps_member {K : Set ℕ} {x o : ℕ} {ptr : Ptr} (howner : ptr.owner = some o)
    (ho : o ∉ K) : ptr.keeps K x = 0 :=
  if_neg fun hkeeps => ho (hkeeps.2.2 o howner)

namespace State

def refs (s : State) (x : ℕ) : ℕ := tally (Ptr.holds x) s.ptrs

noncomputable def kept (s : State) (K : Set ℕ) (x : ℕ) : ℕ := tally (Ptr.keeps K x) s.ptrs

/-- The reference that the handle `p` is for. -/
def held (s : State) (p x : ℕ) : ℕ := (s.ptrs[p]?.map (Ptr.holds x)).getD 0

/-- The objects that are there. -/
def live (s : State) : Finset ℕ := (Finset.range s.objects.length).filter fun x => !s.isDestroyed x

theorem mem_live {s : State} {x : ℕ} :
    x ∈ s.live ↔ x < s.objects.length ∧ s.isDestroyed x = false := by
  simp [live]

theorem held_le_refs (s : State) (p x : ℕ) : s.held p x ≤ s.refs x := by
  unfold held
  cases hp : s.ptrs[p]? with
  | none => exact Nat.zero_le _
  | some ptr => exact le_tally (Ptr.holds x) hp

theorem kept_le_refs (s : State) (K : Set ℕ) (x : ℕ) : s.kept K x ≤ s.refs x :=
  tally_le_tally fun ptr _ => ptr.keeps_le K x

end State

/-- A reference more is on its way. -/
def plus (pending : ℕ → ℤ) (x : ℕ) : ℕ → ℤ := fun y => pending y + if y = x then 1 else 0

/-- The counters are what the handles have and what is on its way between them. -/
structure Inv (pending : ℕ → ℤ) (s : State) : Prop where
  untouched : s.touched = false
  counter_eq : ∀ {x : ℕ} {o : Object}, s.objects[x]? = some o →
    (o.counter : ℤ) = s.refs x + pending x
  counter_lt : ∀ {x : ℕ} {o : Object}, s.objects[x]? = some o → o.counter < counterSize
  destroyed_eq : ∀ {x : ℕ} {o : Object}, s.objects[x]? = some o →
    o.destroyed = if o.counter = 0 then 1 else 0
  instance_lt : ∀ {p x : ℕ} {ptr : Ptr}, s.ptrs[p]? = some ptr → ptr.alive →
    ptr.instancePtr = some x → x < s.objects.length

/-- `K` has references enough of its own, and `p` is not a member of another object; what is owed is
owed for `p`. -/
structure Keeps (K : Set ℕ) (p : ℕ) (pending : ℕ → ℤ) (s : State) : Prop where
  owner : ∀ o ∈ s.owner p, o ∈ K
  owed : ∀ y, 0 ≤ pending y + s.held p y
  kept : ∀ y ∈ K, 0 < pending y + s.kept K y

/-- What is left as it is by a release: handles other than those of `D` and the members of what
goes. -/
structure Released (D : Set ℕ) (s s' : State) : Prop where
  objects : s'.objects.length = s.objects.length
  ptrs : s'.ptrs.length = s.ptrs.length
  destroyed : ∀ {x : ℕ}, s.isDestroyed x → s'.isDestroyed x
  ptr : ∀ {p : ℕ} {ptr : Ptr}, s.ptrs[p]? = some ptr → s'.ptrs[p]? = some ptr ∨
    s'.ptrs[p]? = some { ptr with alive := false } ∧
      (p ∈ D ∨ ∃ o ∈ ptr.owner, s.isDestroyed o = false ∧ s'.isDestroyed o)
  member : ∀ {p o : ℕ} {ptr : Ptr}, s'.ptrs[p]? = some ptr → ptr.alive → o ∈ ptr.owner →
    s'.isDestroyed o → s.isDestroyed o

section Release

variable {pending : ℕ → ℤ} {K D D' : Set ℕ} {s s' s'' : State} {p x y z : ℕ} {ptr ptr' : Ptr}
  {o : Object}

theorem Released.refl (D : Set ℕ) (s : State) : Released D s s where
  objects := rfl
  ptrs := rfl
  destroyed := id
  ptr := .inl
  member := fun _ _ _ h => h

theorem Released.trans (h : Released D s s') (h' : Released D' s' s'') :
    Released (D ∪ D') s s'' where
  objects := h'.objects.trans h.objects
  ptrs := h'.ptrs.trans h.ptrs
  destroyed := fun hx => h'.destroyed (h.destroyed hx)
  ptr := by
    intro p ptr hp
    rcases h.ptr hp with hsame | ⟨hdead, hwhy⟩
    · rcases h'.ptr hsame with hsame' | ⟨hdead', hwhy'⟩
      · exact .inl hsame'
      · refine .inr ⟨hdead', ?_⟩
        rcases hwhy' with hD' | ⟨o, ho, hbefore, hafter⟩
        · exact .inl (.inr hD')
        · refine .inr ⟨o, ho, ?_, hafter⟩
          by_contra hgone
          rw [h.destroyed (Bool.not_eq_false _ ▸ hgone)] at hbefore
          cases hbefore
    · refine .inr ⟨?_, ?_⟩
      · rcases h'.ptr hdead with hsame' | ⟨hdead', -⟩
        · exact hsame'
        · exact hdead'
      · rcases hwhy with hD | ⟨o, ho, hbefore, hafter⟩
        · exact .inl (.inl hD)
        · exact .inr ⟨o, ho, hbefore, h'.destroyed hafter⟩
  member := by
    intro p ptr o hp halive ho hgone
    have hgone' := h'.member hp halive ho hgone
    have hlt : p < s'.ptrs.length := h'.ptrs ▸ (List.getElem?_eq_some_iff.1 hp).1
    -- a handle that is alive has been left as it is
    rcases h'.ptr (List.getElem?_eq_getElem hlt) with hsame | ⟨hdead, -⟩
    · cases hp.symm.trans hsame
      exact h.member (List.getElem?_eq_getElem hlt) halive ho hgone'
    · cases hp.symm.trans hdead
      cases halive

theorem Released.mono (h : Released D s s') (hle : D ⊆ D') : Released D' s s' where
  objects := h.objects
  ptrs := h.ptrs
  destroyed := h.destroyed
  ptr := fun hp => (h.ptr hp).imp_right fun hdead => ⟨hdead.1, hdead.2.imp_left fun hD => hle hD⟩
  member := h.member

theorem Released.dead (h : Released D s s') (hp : s.ptrs[p]? = some ptr)
    (hdead : ptr.alive = false) : s'.isAlive p = false := by
  rcases h.ptr hp with hp' | ⟨hp', -⟩
  · rw [State.isAlive, hp', Option.any_some, hdead]
  · rw [State.isAlive, hp', Option.any_some]

/-- No handle gets a reference. -/
theorem Released.refs_le (h : Released D s s') (x : ℕ) : s'.refs x ≤ s.refs x := by
  refine tally_le_of_forall₂ (Ptr.holds x) ?_
  refine List.forall₂_iff_get.2 ⟨h.ptrs.symm, fun p hp hp' => ?_⟩
  simp only [List.get_eq_getElem]
  rcases h.ptr (List.getElem?_eq_getElem hp) with hsame | ⟨hdead, -⟩
  · rw [(List.getElem?_eq_some_iff.1 hsame).2]
  · rw [(List.getElem?_eq_some_iff.1 hdead).2, Ptr.holds_dead rfl]
    exact Nat.zero_le _

theorem Released.live_subset (h : Released D s s') : s'.live ⊆ s.live := by
  intro x hx
  rw [State.mem_live] at hx ⊢
  refine ⟨h.objects ▸ hx.1, ?_⟩
  by_contra hgone
  rw [h.destroyed (Bool.not_eq_false _ ▸ hgone)] at hx
  exact Bool.false_ne_true hx.2.symm

/-! ### One handle, one object -/

@[simp] theorem refs_setObject : (s.setObject x o).refs y = s.refs y := rfl

theorem touch_false : s.touch false = s := by
  simp [State.touch]

theorem setObject_self (ho : x < s.objects.length) :
    (s.setObject x o).objects[x]? = some o :=
  List.getElem?_set_self ho

theorem setObject_ne (h : x ≠ y) : (s.setObject x o).objects[y]? = s.objects[y]? :=
  List.getElem?_set_ne h

theorem setPtr_self (hp : s.ptrs[p]? = some ptr') : (s.setPtr p ptr).ptrs[p]? = some ptr :=
  getElem?_replaced hp ptr

theorem setPtr_ne (h : p ≠ x) : (s.setPtr p ptr).ptrs[x]? = s.ptrs[x]? :=
  List.getElem?_set_ne h

theorem refs_setPtr (hp : s.ptrs[p]? = some ptr) (ptr' : Ptr) (y : ℕ) :
    (s.setPtr p ptr').refs y + ptr.holds y = s.refs y + ptr'.holds y :=
  tally_set (Ptr.holds y) hp ptr'

theorem kept_setPtr (hp : s.ptrs[p]? = some ptr) (ptr' : Ptr) (K : Set ℕ) (y : ℕ) :
    (s.setPtr p ptr').kept K y + ptr.keeps K y = s.kept K y + ptr'.keeps K y :=
  tally_set (Ptr.keeps K y) hp ptr'

theorem held_eq (hp : s.ptrs[p]? = some ptr) (y : ℕ) : s.held p y = ptr.holds y := by
  rw [State.held, hp]
  rfl

theorem isDestroyed_iff (hs : Inv pending s) (ho : s.objects[x]? = some o) :
    s.isDestroyed x ↔ o.counter = 0 := by
  rw [State.isDestroyed, ho, Option.any_some, hs.destroyed_eq ho]
  split
  · next h => simp [h]
  · next h => simp [h]

theorem isDestroyed_eq_false (hs : Inv pending s) (ho : s.objects[x]? = some o)
    (hpos : 0 < o.counter) : s.isDestroyed x = false := by
  by_contra hgone
  exact absurd ((isDestroyed_iff hs ho).1 (Bool.not_eq_false _ ▸ hgone)) hpos.ne'

/-- A handle is changed, and the references with it. -/
theorem Inv.setPtr {pending' : ℕ → ℤ} (hs : Inv pending s) (hp : s.ptrs[p]? = some ptr)
    (hpending : ∀ y, pending' y + ptr'.holds y = pending y + ptr.holds y)
    (hlt : ∀ x, ptr'.alive → ptr'.instancePtr = some x → x < s.objects.length) :
    Inv pending' (s.setPtr p ptr') where
  untouched := hs.untouched
  counter_eq := by
    intro x o ho
    have heq := hs.counter_eq ho
    have hrefs := refs_setPtr hp ptr' x
    have hx := hpending x
    omega
  counter_lt := hs.counter_lt
  destroyed_eq := hs.destroyed_eq
  instance_lt := by
    intro q x ptr'' hq halive hinstance
    rcases getElem?_set_cases hq with ⟨-, rfl⟩ | ⟨-, hq⟩
    · exact hlt x halive hinstance
    · exact hs.instance_lt hq halive hinstance

/-- A reference less, or one more. -/
theorem Inv.setObject {pending' : ℕ → ℤ} {o' : Object} (hs : Inv pending s)
    (ho : s.objects[x]? = some o) (hself : (o'.counter : ℤ) - pending' x = o.counter - pending x)
    (hne : ∀ y, y ≠ x → pending' y = pending y) (hlt : o'.counter < counterSize)
    (hdestroyed : o'.destroyed = if o'.counter = 0 then 1 else 0) :
    Inv pending' (s.setObject x o') where
  untouched := hs.untouched
  counter_eq := by
    intro y o'' hy
    rcases getElem?_set_cases hy with ⟨rfl, rfl⟩ | ⟨hxy, hy⟩
    · have heq := hs.counter_eq ho
      rw [refs_setObject]
      omega
    · rw [hne y hxy.symm]
      exact hs.counter_eq hy
  counter_lt := by
    intro y o'' hy
    rcases getElem?_set_cases hy with ⟨-, rfl⟩ | ⟨-, hy⟩
    · exact hlt
    · exact hs.counter_lt hy
  destroyed_eq := by
    intro y o'' hy
    rcases getElem?_set_cases hy with ⟨-, rfl⟩ | ⟨-, hy⟩
    · exact hdestroyed
    · exact hs.destroyed_eq hy
  instance_lt := by
    intro q x' ptr hq halive hinstance
    rw [State.setObject, List.length_set]
    exact hs.instance_lt hq halive hinstance

/-! ### What stays -/

theorem Keeps.setObject (h : Keeps K p pending s) : Keeps K p pending (s.setObject x o) :=
  ⟨h.owner, h.owed, h.kept⟩

/-- A member of what goes is not among what keeps `K`. -/
theorem Keeps.setPtr (h : Keeps K p pending s) (hx : s.ptrs[x]? = some ptr)
    (howner : ptr.owner = some z) (hz : z ∉ K) (hdead : ptr'.alive = false) :
    Keeps K p pending (s.setPtr x ptr') := by
  have hne : x ≠ p := by
    rintro rfl
    refine hz (h.owner z ?_)
    rw [State.owner, hx]
    exact howner
  refine ⟨?_, ?_, fun y hy => ?_⟩
  · rw [State.owner, setPtr_ne hne]
    exact h.owner
  · intro y
    rw [State.held, setPtr_ne hne]
    exact h.owed y
  · have hkept := kept_setPtr hx ptr' K y
    rw [Ptr.keeps_member howner hz, Ptr.keeps_dead hdead] at hkept
    have hpos := h.kept y hy
    omega

/-- What has references enough is there. -/
theorem Keeps.not_destroyed (h : Keeps K p pending s) (hs : Inv pending s) (hy : y ∈ K) :
    s.isDestroyed y = false := by
  cases ho : s.objects[y]? with
  | none => rw [State.isDestroyed, ho]; rfl
  | some o =>
      have hcounter := hs.counter_eq ho
      have hpos := h.kept y hy
      have hle := s.kept_le_refs K y
      exact isDestroyed_eq_false hs ho (by omega)

/-! ### The release -/

/-- One reference, or more of them, has gone: that of the handles of `D`. -/
structure Goes (pending : ℕ → ℤ) (K : Set ℕ) (p : ℕ) (D : Set ℕ) (s s' : State) : Prop where
  inv : Inv pending s'
  keeps : Keeps K p pending s'
  released : Released D s s'

/-- What a release has to do, as long as there are no more objects than `fuel`. -/
def Releases (pending : ℕ → ℤ) (K : Set ℕ) (p fuel : ℕ) (release : State → ℕ → State) : Prop :=
  ∀ {s : State} {x : ℕ}, Inv (plus pending x) s → Keeps K p pending s → x < s.objects.length →
    s.live.card ≤ fuel → Goes pending K p ∅ s (release s x)

variable {release : State → ℕ → State} {fuel : ℕ}

theorem released_setPtr (hx : s.ptrs[x]? = some ptr) :
    Released {x} s (s.setPtr x { ptr with alive := false }) where
  objects := rfl
  ptrs := List.length_set
  destroyed := id
  ptr := by
    intro q ptr' hq
    by_cases hxq : x = q
    · subst hxq
      cases hx.symm.trans hq
      exact .inr ⟨setPtr_self hx, .inl rfl⟩
    · exact .inl ((setPtr_ne hxq).trans hq)
  member := fun _ _ _ hgone => hgone

theorem destroyPtr_null (hx : s.ptrs[x]? = some ptr) (hinstance : ptr.instancePtr = none) :
    s.destroyPtr release x = s.setPtr x { ptr with alive := false } := by
  simp only [State.destroyPtr, hx, hinstance]

theorem destroyPtr_instance (hx : s.ptrs[x]? = some ptr) (hinstance : ptr.instancePtr = some z) :
    s.destroyPtr release x = release (s.setPtr x { ptr with alive := false }) z := by
  simp only [State.destroyPtr, hx, hinstance]

/-- `~Ptr` gives its reference to the release. -/
theorem destroyPtr_spec (hrelease : Releases pending K p fuel release) (hs : Inv pending s)
    (hx : s.ptrs[x]? = some ptr) (halive : ptr.alive)
    (hkeeps : Keeps K p pending (s.setPtr x { ptr with alive := false }))
    (hfuel : s.live.card ≤ fuel) :
    Goes pending K p {x} s (s.destroyPtr release x) ∧
      (s.destroyPtr release x).isAlive x = false := by
  have hreleased := released_setPtr hx
  have hself : (s.setPtr x { ptr with alive := false }).ptrs[x]? = _ := setPtr_self hx
  have hdead : ∀ y, ({ ptr with alive := false } : Ptr).holds y = 0 := fun y => Ptr.holds_dead rfl
  cases hinstance : ptr.instancePtr with
  | none =>
      rw [destroyPtr_null hx hinstance]
      have hinv : Inv pending (s.setPtr x { ptr with alive := false }) := by
        refine hs.setPtr hx (fun y => ?_) fun _ h => absurd h Bool.false_ne_true
        rw [hdead y, Ptr.holds, hinstance, if_neg fun h => Option.some_ne_none y h.2.symm]
      exact ⟨⟨hinv, hkeeps, hreleased⟩, (Released.refl ∅ _).dead hself rfl⟩
  | some z =>
      have hinv : Inv (plus pending z) (s.setPtr x { ptr with alive := false }) := by
        refine hs.setPtr hx (fun y => ?_) fun _ h => absurd h Bool.false_ne_true
        rw [hdead y, Ptr.holds, plus, hinstance]
        simp only [halive, true_and, Option.some.injEq, eq_comm]
        split <;> simp
      rw [destroyPtr_instance hx hinstance]
      have hgoes := hrelease hinv hkeeps (hs.instance_lt hx halive hinstance) hfuel
      refine ⟨⟨hgoes.inv, hgoes.keeps, ?_⟩, hgoes.released.dead hself rfl⟩
      exact (hreleased.trans hgoes.released).mono (Set.union_subset (Set.Subset.refl _)
        (Set.empty_subset _))

/-- The destructors of the members, one after the other. -/
theorem members_spec (hrelease : Releases pending K p fuel release) :
    ∀ (l : List ℕ) (s : State), Inv pending s → Keeps K p pending s → s.live.card ≤ fuel →
      s.isDestroyed z → l.Nodup →
      (∀ x ∈ l, ∃ ptr, s.ptrs[x]? = some ptr ∧ ptr.alive ∧ ptr.owner = some z) →
      Goes pending K p {x | x ∈ l} s (l.foldl (State.destroyPtr release) s) ∧
        ∀ x ∈ l, (l.foldl (State.destroyPtr release) s).isAlive x = false
  | [], s, hs, hkeeps, _, _, _, _ => ⟨⟨hs, hkeeps, .refl _ s⟩, fun _ h => absurd h (by simp)⟩
  | x :: l, s, hs, hkeeps, hfuel, hz, hnodup, hmembers => by
      obtain ⟨ptr, hx, halive, howner⟩ := hmembers x List.mem_cons_self
      have hK : z ∉ K := fun hzK =>
        Bool.false_ne_true ((hkeeps.not_destroyed hs hzK).symm.trans hz)
      obtain ⟨hgoes, hdead⟩ := destroyPtr_spec hrelease hs hx halive
        (hkeeps.setPtr hx howner hK rfl) hfuel
      have hrest : ∀ y ∈ l, ∃ ptr, (s.destroyPtr release x).ptrs[y]? = some ptr ∧ ptr.alive ∧
          ptr.owner = some z := by
        intro y hy
        obtain ⟨ptr', hptr', halive', howner'⟩ := hmembers y (List.mem_cons_of_mem _ hy)
        -- the other members have an owner that has gone before
        rcases hgoes.released.ptr hptr' with hsame | ⟨-, rfl | ⟨o, ho, hthere, -⟩⟩
        · exact ⟨ptr', hsame, halive', howner'⟩
        · exact absurd hy (List.nodup_cons.1 hnodup).1
        · cases howner'.symm.trans ho
          exact absurd (hthere.symm.trans hz) Bool.false_ne_true
      obtain ⟨hgoes', hdead'⟩ := members_spec hrelease l _ hgoes.inv hgoes.keeps
        ((Finset.card_le_card hgoes.released.live_subset).trans hfuel)
        (hgoes.released.destroyed hz) (List.nodup_cons.1 hnodup).2 hrest
      refine ⟨⟨hgoes'.inv, hgoes'.keeps, ?_⟩, ?_⟩
      · refine (hgoes.released.trans hgoes'.released).mono ?_
        rintro y (rfl | hy)
        · exact List.mem_cons_self
        · exact List.mem_cons_of_mem _ hy
      · intro y hy
        rcases List.mem_cons.1 hy with rfl | hy
        · obtain ⟨ptr', hptr'⟩ : ∃ ptr', (s.destroyPtr release y).ptrs[y]? = some ptr' := by
            refine ⟨_, List.getElem?_eq_getElem ?_⟩
            exact hgoes.released.ptrs ▸ (List.getElem?_eq_some_iff.1 hx).1
          rw [State.isAlive, hptr', Option.any_some] at hdead
          exact hgoes'.released.dead hptr' hdead
        · exact hdead' y hy

theorem mem_members_iff : y ∈ s.members x ↔
    ∃ ptr, s.ptrs[y]? = some ptr ∧ ptr.alive ∧ ptr.owner = some x := by
  simp only [State.members, List.mem_reverse, List.mem_filter, List.mem_range, Bool.and_eq_true,
    State.isAlive, State.owner, Option.any_eq_true, beq_iff_eq, Option.bind_eq_some_iff]
  constructor
  · rintro ⟨-, ⟨ptr, hptr, halive⟩, ptr', hptr', howner⟩
    cases hptr.symm.trans hptr'
    exact ⟨ptr, hptr, halive, howner⟩
  · rintro ⟨ptr, hptr, halive, howner⟩
    exact ⟨(List.getElem?_eq_some_iff.1 hptr).1, ⟨ptr, hptr, halive⟩, ptr, hptr, howner⟩

theorem isDestroyed_setObject_self (hx : x < s.objects.length) :
    (s.setObject x o).isDestroyed x = (o.destroyed ≠ 0 : Bool) := by
  rw [State.isDestroyed, setObject_self hx, Option.any_some]

theorem isDestroyed_setObject_ne (h : x ≠ y) :
    (s.setObject x o).isDestroyed y = s.isDestroyed y := by
  rw [State.isDestroyed, setObject_ne h]
  rfl

theorem isDestroyed_counter (ho : s.objects[x]? = some o) (counter y : ℕ) :
    (s.setObject x { o with counter }).isDestroyed y = s.isDestroyed y := by
  by_cases hxy : x = y
  · subst hxy
    rw [isDestroyed_setObject_self (List.getElem?_eq_some_iff.1 ho).1, State.isDestroyed, ho,
      Option.any_some]
  · exact isDestroyed_setObject_ne hxy

theorem live_setObject (hx : x < s.objects.length) (hthere : s.isDestroyed x = false)
    (ho : o.destroyed ≠ 0) : (s.setObject x o).live.card < s.live.card := by
  have hself : x ∉ (s.setObject x o).live := by
    rw [State.mem_live, isDestroyed_setObject_self hx]
    rintro ⟨-, hfalse⟩
    exact ho (by simpa using hfalse)
  have hsub : (s.setObject x o).live ⊆ s.live := by
    intro y hy
    have hne : x ≠ y := by
      rintro rfl
      exact hself hy
    rw [State.mem_live, isDestroyed_setObject_ne hne, State.setObject, List.length_set] at hy
    exact State.mem_live.2 hy
  exact Finset.card_lt_card
    ((Finset.ssubset_iff_of_subset hsub).2 ⟨x, State.mem_live.2 ⟨hx, hthere⟩, hself⟩)

/-- The object goes, and its members after it. -/
theorem released_of_members {o' : Object} {t : State} (hx : x < s.objects.length)
    (hthere : s.isDestroyed x = false) (ho' : o'.destroyed ≠ 0)
    (hgone : Released {y | y ∈ s.members x} (s.setObject x o') t)
    (hdead : ∀ y ∈ s.members x, t.isAlive y = false) : Released ∅ s t := by
  have hself : (s.setObject x o').isDestroyed x := by
    rw [isDestroyed_setObject_self hx]
    exact decide_eq_true ho'
  have hne : ∀ y, y ≠ x → (s.setObject x o').isDestroyed y = s.isDestroyed y := fun y hy =>
    isDestroyed_setObject_ne (Ne.symm hy)
  constructor
  case objects => exact hgone.objects.trans List.length_set
  case ptrs => exact hgone.ptrs
  case destroyed =>
    intro y hy
    refine hgone.destroyed ?_
    by_cases hyx : y = x
    · exact hyx ▸ hself
    · exact (hne y hyx).trans hy
  case ptr =>
    intro y ptr hy
    refine (hgone.ptr hy).imp_right fun ⟨hptr, hwhy⟩ => ⟨hptr, .inr ?_⟩
    rcases hwhy with hmember | ⟨z, hz, hbefore, hafter⟩
    · obtain ⟨ptr', hptr', -, howner⟩ := mem_members_iff.1 hmember
      cases hy.symm.trans hptr'
      exact ⟨x, howner, hthere, hgone.destroyed hself⟩
    · refine ⟨z, hz, ?_, hafter⟩
      rw [← hbefore, hne z]
      rintro rfl
      exact Bool.false_ne_true (hbefore.symm.trans hself)
  case member =>
    intro y z ptr hy halive hz hafter
    have hbefore := hgone.member hy halive hz hafter
    have hzx : z ≠ x := by
      rintro rfl
      have hlt : y < s.ptrs.length := hgone.ptrs ▸ (List.getElem?_eq_some_iff.1 hy).1
      -- a member of the object would have been destroyed with it
      rcases hgone.ptr (List.getElem?_eq_getElem hlt) with hsame | ⟨hptr, -⟩
      · cases hy.symm.trans hsame
        have hmember := mem_members_iff.2 ⟨_, List.getElem?_eq_getElem hlt, halive, hz⟩
        have hfalse := hdead y hmember
        rw [State.isAlive, hy, Option.any_some, halive] at hfalse
        cases hfalse
      · cases hy.symm.trans hptr
        cases halive
    exact (hne z hzx).symm.trans hbefore

theorem plus_self : plus pending x x = pending x + 1 := by
  rw [plus, if_pos rfl]

theorem plus_ne (h : y ≠ x) : plus pending x y = pending y := by
  rw [plus, if_neg h, add_zero]

/-- What is to be released has a reference. -/
theorem counter_pos (hs : Inv (plus pending x) s) (hkeeps : Keeps K p pending s)
    (ho : s.objects[x]? = some o) : 0 < o.counter := by
  have hcounter := hs.counter_eq ho
  rw [plus_self] at hcounter
  have howed := hkeeps.owed x
  have hle := s.held_le_refs p x
  omega

/-- A reference that is not the last one. -/
theorem releaseRef_more (hs : Inv (plus pending x) s) (hkeeps : Keeps K p pending s)
    (ho : s.objects[x]? = some o) (hmore : 1 < o.counter) :
    Goes pending K p ∅ s (s.setObject x { o with counter := fetchSub o.counter }) := by
  have hx := (List.getElem?_eq_some_iff.1 ho).1
  have hlt := hs.counter_lt ho
  have hsub : fetchSub o.counter = o.counter - 1 := if_neg (by omega)
  have hzero := hs.destroyed_eq ho
  rw [if_neg (by omega)] at hzero
  refine ⟨?_, hkeeps.setObject, ?_⟩
  · refine hs.setObject ho ?_ (fun y hy => (plus_ne hy).symm) ?_ ?_
    · rw [plus_self, hsub]
      dsimp only
      omega
    · exact hsub ▸ (Nat.sub_le _ _).trans_lt hlt
    · rw [hsub]
      exact hzero.trans (if_neg (Nat.sub_ne_zero_of_lt hmore)).symm
  · have hsame := isDestroyed_counter ho (fetchSub o.counter)
    exact ⟨List.length_set, rfl, fun hy => (hsame _).trans hy, .inl,
      fun _ _ _ hgone => (hsame _).symm.trans hgone⟩

/-- **The release of one reference** among those that are counted. -/
theorem releaseRef_spec (fuel : ℕ) : Releases pending K p fuel (State.releaseRef fuel) := by
  induction fuel with
  | zero =>
      intro s x hs hkeeps hx hfuel
      have ho := List.getElem?_eq_getElem hx
      have hthere := isDestroyed_eq_false hs ho (counter_pos hs hkeeps ho)
      -- there is an object, and there is none
      have hlive : x ∈ s.live := State.mem_live.2 ⟨hx, hthere⟩
      rw [Finset.card_eq_zero.1 (Nat.le_zero.1 hfuel)] at hlive
      exact absurd hlive (Finset.notMem_empty x)
  | succ fuel ih =>
      intro s x hs hkeeps hx hfuel
      have ho := List.getElem?_eq_getElem hx
      obtain ⟨o, hoeq⟩ : ∃ o, s.objects[x]? = some o := ⟨_, ho⟩
      have hpos := counter_pos hs hkeeps hoeq
      have hthere := isDestroyed_eq_false hs hoeq hpos
      rw [State.releaseRef, hoeq, hthere, touch_false]
      dsimp only
      split
      · next hlast =>
          have hzero := hs.destroyed_eq hoeq
          rw [if_neg hpos.ne'] at hzero
          have hset : (s.setObject x { o with counter := fetchSub o.counter }).setObject x
              { o with counter := fetchSub o.counter, destroyed := o.destroyed + 1 } =
                s.setObject x ⟨0, 1⟩ := by
            simp [State.setObject, hlast, hzero, fetchSub]
          rw [hset]
          have hinv : Inv pending (s.setObject x ⟨0, 1⟩) := by
            refine hs.setObject hoeq ?_ (fun y hy => (plus_ne hy).symm) (by decide) rfl
            rw [plus_self, hlast]
            dsimp only
            omega
          have hself : (s.setObject x ⟨0, 1⟩).isDestroyed x := by
            rw [isDestroyed_setObject_self hx]
            rfl
          have hfuel' : (s.setObject x ⟨0, 1⟩).live.card ≤ fuel :=
            Nat.lt_succ_iff.1 ((live_setObject hx hthere Nat.one_ne_zero).trans_le hfuel)
          have hnodup : (s.members x).Nodup :=
            List.nodup_reverse.2 (List.nodup_range.filter _)
          obtain ⟨hgoes, hdead⟩ := members_spec ih (s.members x) _ hinv hkeeps.setObject hfuel'
            hself hnodup fun y hy => mem_members_iff.1 hy
          exact ⟨hgoes.inv, hgoes.keeps,
            released_of_members hx hthere Nat.one_ne_zero hgoes.released hdead⟩
      · next hmore => exact releaseRef_more hs hkeeps hoeq (by omega)

/-- The handle that the references are owed for is left as it is. -/
theorem Goes.ptr_self (h : Goes pending K p ∅ s s') (hkeeps : Keeps K p pending s)
    (hp : s.ptrs[p]? = some ptr) : s'.ptrs[p]? = some ptr := by
  rcases h.released.ptr hp with hsame | ⟨-, hD | ⟨o, ho, -, hgone⟩⟩
  · exact hsame
  · exact absurd hD (Set.notMem_empty p)
  · have hK : o ∈ K := hkeeps.owner o (by rwa [State.owner, hp])
    exact absurd ((h.keeps.not_destroyed h.inv hK).symm.trans hgone) Bool.false_ne_true

end Release

end MyEngine.Rtti.Handles
