import MyEngine.Rtti.PtrRelease
import MyEngine.Support.Runs

/-!
# Rtti — PtrAssign

The handles of a run, in which no assignment lets go of what it is about to refer to.

* `Outlives`: what is there after a handle has let go of its object.
* `exchange_spec`, `acquire_spec`, `moveAcquire_spec`: the assignments of a handle that outlives
  what it referred to.
* `ptrs_sound`: objects are destroyed with their last handle, and assignments assign.
-/

namespace MyEngine.Rtti.Handles

open Runs

/-! ### What is to be assumed -/

/-- The objects of `K` stay when `p` lets go of its object: each is in hand, or has another handle,
one that is a variable or a member of an object of `K`. -/
def State.Stays (s : State) (p : ℕ) (held : Option ℕ) (K : Set ℕ) : Prop :=
  ∀ y ∈ K, held = some y ∨ ∃ (q : ℕ) (ptr : Ptr), q ≠ p ∧ s.ptrs[q]? = some ptr ∧ ptr.alive ∧
    ptr.instancePtr = some y ∧ ∀ o ∈ ptr.owner, o ∈ K

/-- The object `stay` and that of which `p` is a member do not go with what `p` lets go of. -/
def State.Outlives (s : State) (p : ℕ) (held stay : Option ℕ) : Prop :=
  ∃ K, s.Stays p held K ∧ (∀ o ∈ s.owner p, o ∈ K) ∧ ∀ x ∈ stay, x ∈ K

/-- The counter of the object is not at its end; `p` may be one of its handles. -/
def State.Room (s : State) (p : ℕ) (x : Option ℕ) : Prop :=
  ∀ y ∈ x, s.instancePtr p = some y ∨ s.refs y + 1 < counterSize

/-- What an action needs to keep the references in order. -/
def Safe (s : State) : Action → Prop
  | .constructRaw _ x => s.Room s.ptrs.length (some x)
  | .constructCopy _ other _ => s.Room s.ptrs.length (s.instancePtr other)
  | .assign p other _ =>
      s.Outlives p none (s.instancePtr other) ∧ s.Room p (s.instancePtr other)
  | .moveAssign p other _ => s.Outlives p (s.instancePtr other) none
  | .reset p ptr => s.Outlives p none ptr ∧ s.Room p ptr
  | .createInstance _ | .construct _ | .constructMove _ _ _ | .destroy _ => True

/-! ### What is promised -/

/-- No destroyed object is called, and those are destroyed, once, that no handle refers to. -/
structure Sound (s : State) : Prop where
  untouched : s.touched = false
  destroyed : ∀ {x : ℕ} {o : Object}, s.objects[x]? = some o →
    o.destroyed = if s.refs x = 0 then 1 else 0

/-- After an assignment, the handle refers to what the other one referred to. -/
def Assigned (s : State) (a : Action) (t : State) : Prop :=
  match a with
  | .assign p other _ | .moveAssign p other _ =>
      t.isAlive p ∧ t.instancePtr p = s.instancePtr other
  | .reset p ptr => t.isAlive p ∧ t.instancePtr p = ptr
  | _ => True

/-- No member is left of what has gone. -/
def Clean (s : State) : Prop :=
  ∀ (p o : ℕ) (ptr : Ptr), s.ptrs[p]? = some ptr → ptr.alive → o ∈ ptr.owner →
    s.isDestroyed o = false

/-- What holds between the actions: nothing is on its way. -/
structure Good (s : State) : Prop where
  inv : Inv (fun _ => 0) s
  clean : Clean s

theorem Good.sound {s : State} (h : Good s) : Sound s := by
  refine ⟨h.inv.untouched, fun ho => ?_⟩
  rw [h.inv.destroyed_eq ho]
  have hcounter := h.inv.counter_eq ho
  split <;> split <;> first | rfl | omega

section Assign

variable {pending pending' : ℕ → ℤ} {K : Set ℕ} {s t : State} {p q x y : ℕ} {ptr ptr' : Ptr}
  {o : Object} {held value stay : Option ℕ}

/-- `1` for the object, and `0` for the others. -/
def unit (value : Option ℕ) (y : ℕ) : ℤ := if value = some y then 1 else 0

theorem holds_eq_unit (halive : ptr.alive) (y : ℕ) :
    (ptr.holds y : ℤ) = unit ptr.instancePtr y := by
  simp only [Ptr.holds, unit, halive, true_and]
  split <;> rfl

theorem holds_with (halive : ptr.alive) (value : Option ℕ) (y : ℕ) :
    (({ ptr with instancePtr := value } : Ptr).holds y : ℤ) = unit value y :=
  @holds_eq_unit { ptr with instancePtr := value } halive y

theorem plus_eq_unit : plus pending x y = pending y + unit (some x) y := by
  simp only [plus, unit, Option.some.injEq, eq_comm]

/-! ### The steps of an assignment -/

/-- What stays is what the release is to keep, when `p` refers to its new object. -/
theorem keeps_of_stays (hstays : s.Stays p held K) (hp : t.ptrs[p]? = some ptr)
    (halive : ptr.alive) (howner : ∀ o ∈ ptr.owner, o ∈ K)
    (hpending : ∀ y, pending y + ptr.holds y = unit held y)
    (hothers : ∀ {q : ℕ} {ptr' : Ptr}, q ≠ p → s.ptrs[q]? = some ptr' → ptr'.instancePtr ≠ held →
      t.ptrs[q]? = some ptr') : Keeps K p pending t where
  owner := by
    rw [State.owner, hp]
    exact howner
  owed := by
    intro y
    rw [held_eq hp, hpending, unit]
    split <;> decide
  kept := by
    intro y hy
    have heq := hpending y
    have hself : ptr.keeps K y = ptr.holds y := by
      unfold Ptr.keeps Ptr.holds
      by_cases hinstance : ptr.instancePtr = some y
      · rw [if_pos ⟨halive, hinstance, howner⟩, if_pos ⟨halive, hinstance⟩]
      · rw [if_neg fun h => hinstance h.2.1, if_neg fun h => hinstance h.2]
    rcases hstays y hy with rfl | ⟨q, ptr', hne, hq, halive', hinstance', howner'⟩
    · have hle : ptr.keeps K y ≤ t.kept K y := le_tally (Ptr.keeps K y) hp
      rw [unit, if_pos rfl] at heq
      omega
    · by_cases hheld : ptr'.instancePtr = held
      · have hle : ptr.keeps K y ≤ t.kept K y := le_tally (Ptr.keeps K y) hp
        rw [unit, if_pos (hheld.symm.trans hinstance')] at heq
        omega
      · have hle : ptr.keeps K y + ptr'.keeps K y ≤ t.kept K y :=
          add_le_tally (Ptr.keeps K y) hne.symm hp (hothers hne hq hheld)
        have hone : ptr'.keeps K y = 1 := if_pos ⟨halive', hinstance', howner'⟩
        rw [unit, if_neg fun h => hheld (hinstance'.trans h.symm)] at heq
        omega

/-- `m_instance` is exchanged, and what was there is released. -/
theorem exchange_spec (hs : Inv pending s) (hp : s.ptrs[p]? = some ptr) (halive : ptr.alive)
    (hpending : ∀ y, pending' y + unit value y = pending y)
    (hlt : ∀ x ∈ value, x < s.objects.length)
    (hkeeps : Keeps K p pending' (s.setPtr p { ptr with instancePtr := value })) :
    Goes pending' K p ∅ (s.setPtr p { ptr with instancePtr := value }) (s.exchange p value) := by
  have hunit := holds_with halive value
  have hlt' : ∀ x, ptr.alive → value = some x → x < s.objects.length := fun x _ hx => hlt x hx
  cases hinstance : ptr.instancePtr with
  | none =>
      have hexchange : s.exchange p value = s.setPtr p { ptr with instancePtr := value } := by
        simp only [State.exchange, hp, hinstance]
      rw [hexchange]
      refine ⟨hs.setPtr hp (fun y => ?_) hlt', hkeeps, .refl _ _⟩
      rw [hunit, holds_eq_unit halive, hinstance, hpending]
      exact (add_zero _).symm
  | some x =>
      have hexchange : s.exchange p value =
          State.releaseRef s.objects.length (s.setPtr p { ptr with instancePtr := value }) x := by
        simp only [State.exchange, hp, hinstance]
      rw [hexchange]
      refine releaseRef_spec _ (hs.setPtr hp (fun y => ?_) hlt') hkeeps
        (hs.instance_lt hp halive hinstance) ?_
      · rw [hunit, holds_eq_unit halive, hinstance, plus_eq_unit, ← hpending y]
        exact add_right_comm _ _ _
      · exact (Finset.card_filter_le _ _).trans_eq (Finset.card_range _)

theorem Clean.setPtr (h : Clean s) (hp : s.ptrs[p]? = some ptr) (halive : ptr.alive)
    (ptr' : Ptr) (howner : ptr'.owner = ptr.owner) : Clean (s.setPtr p ptr') := by
  intro q o ptr'' hq halive'' ho
  rcases getElem?_set_cases hq with ⟨-, rfl⟩ | ⟨-, hq⟩
  · exact h p o ptr hp halive (howner ▸ ho)
  · exact h q o ptr'' hq halive'' ho

theorem Clean.released (h : Clean s) {D : Set ℕ} (hreleased : Released D s t) : Clean t := by
  intro q o ptr hq halive ho
  by_contra hgone
  have hbefore := hreleased.member hq halive ho (Bool.not_eq_false _ ▸ hgone)
  have hlt : q < s.ptrs.length := hreleased.ptrs ▸ (List.getElem?_eq_some_iff.1 hq).1
  rcases hreleased.ptr (List.getElem?_eq_getElem hlt) with hsame | ⟨hdead, -⟩
  · cases hq.symm.trans hsame
    exact Bool.false_ne_true ((h q o _ (List.getElem?_eq_getElem hlt) halive ho).symm.trans hbefore)
  · cases hq.symm.trans hdead
    cases halive

theorem Clean.setObject {counter : ℕ} (h : Clean s) (ho : s.objects[x]? = some o) :
    Clean (s.setObject x { o with counter }) :=
  fun q z ptr hq halive hz => (isDestroyed_counter ho counter z).trans (h q z ptr hq halive hz)

theorem addRef_eq (ho : s.objects[x]? = some o) (hthere : s.isDestroyed x = false)
    (hlt : o.counter + 1 < counterSize) :
    s.addRef x = s.setObject x { o with counter := o.counter + 1 } := by
  simp only [State.addRef, ho, hthere, touch_false, fetchAdd, Nat.mod_eq_of_lt hlt]

/-- A reference that is owed is added. -/
theorem addRef_spec (hs : Inv (fun y => -unit (some x) y) s) (hclean : Clean s)
    (hx : x < s.objects.length) (hthere : s.isDestroyed x = false)
    (hroom : s.refs x < counterSize) : Good (s.addRef x) ∧ (s.addRef x).ptrs = s.ptrs := by
  have ho := List.getElem?_eq_getElem hx
  have hcounter := hs.counter_eq ho
  have hone : unit (some x) x = 1 := if_pos rfl
  have hdestroyed := hs.destroyed_eq ho
  have hpos : s.objects[x].counter ≠ 0 := fun hzero =>
    Bool.false_ne_true (hthere.symm.trans ((isDestroyed_iff hs ho).2 hzero))
  rw [if_neg hpos] at hdestroyed
  rw [addRef_eq ho hthere (by omega)]
  refine ⟨⟨?_, hclean.setObject ho⟩, rfl⟩
  refine hs.setObject ho ?_ (fun y hy => ?_) (by dsimp only; omega) ?_
  · dsimp only
    omega
  · rw [unit, if_neg fun h => hy (Option.some.inj h).symm, neg_zero]
  · exact hdestroyed.trans (if_neg (Nat.succ_ne_zero _)).symm

/-! ### The assignments -/

theorem unit_none : unit none = fun _ => 0 := rfl

theorem isAlive_of_get (hp : s.ptrs[p]? = some ptr) (halive : ptr.alive) : s.isAlive p = true := by
  rw [State.isAlive, hp, Option.any_some, halive]

theorem instancePtr_of_get (hp : s.ptrs[p]? = some ptr) : s.instancePtr p = ptr.instancePtr := by
  rw [State.instancePtr, hp, Option.bind_some]

theorem holds_le_one (ptr : Ptr) (x : ℕ) : ptr.holds x ≤ 1 := by
  unfold Ptr.holds
  split <;> decide

/-- What an exchange leaves, with what the caller has in hand. -/
structure Exchanged (held value : Option ℕ) (K : Set ℕ) (p : ℕ) (ptr : Ptr) (s s' : State) :
    Prop where
  inv : Inv (fun y => unit held y - unit value y) s'
  clean : Clean s'
  self : s'.ptrs[p]? = some { ptr with instancePtr := value }
  objects : s'.objects.length = s.objects.length
  stays : ∀ x ∈ K, s'.isDestroyed x = false
  refs_le : ∀ x, s'.refs x ≤ (s.setPtr p { ptr with instancePtr := value }).refs x

/-- A handle that outlives what it lets go of. -/
theorem exchange_outlives {s₀ : State} (hs : Inv (unit held) s) (hclean : Clean s)
    (hp : s.ptrs[p]? = some ptr) (halive : ptr.alive) (hstays : s₀.Stays p held K)
    (howner : ∀ o ∈ ptr.owner, o ∈ K) (hvalue : ∀ x ∈ value, x < s.objects.length)
    (hothers : ∀ {q : ℕ} {ptr' : Ptr}, q ≠ p → s₀.ptrs[q]? = some ptr' → ptr'.instancePtr ≠ held →
      s.ptrs[q]? = some ptr') : Exchanged held value K p ptr s (s.exchange p value) := by
  have hkeeps : Keeps K p (fun y => unit held y - unit value y)
      (s.setPtr p { ptr with instancePtr := value }) := by
    refine keeps_of_stays hstays (setPtr_self hp) halive howner (fun y => ?_) ?_
    · rw [holds_with halive]
      exact sub_add_cancel _ _
    · exact fun hne hq hheld => (setPtr_ne hne.symm).trans (hothers hne hq hheld)
  have hgoes := exchange_spec hs hp halive (fun y => sub_add_cancel _ _) hvalue hkeeps
  exact {
    inv := hgoes.inv
    clean := (hclean.setPtr hp halive { ptr with instancePtr := value } rfl).released
      hgoes.released
    self := hgoes.ptr_self hkeeps (setPtr_self hp)
    objects := hgoes.released.objects
    stays := fun x hx => hgoes.keeps.not_destroyed hgoes.inv hx
    refs_le := hgoes.released.refs_le }

/-- The references of an object, when `p` has been given one of them. -/
theorem refs_lt_of_room (hs : Inv (fun _ => 0) s) (hp : s.ptrs[p]? = some ptr)
    (halive : ptr.alive) (hroom : s.Room p (some x)) (hx : x < s.objects.length) (ptr' : Ptr) :
    (s.setPtr p ptr').refs x < counterSize := by
  have hrefs := refs_setPtr hp ptr' x
  have hone := holds_le_one ptr' x
  rcases hroom x rfl with hself | hlt
  · rw [instancePtr_of_get hp] at hself
    have hholds : ptr.holds x = 1 := if_pos ⟨halive, hself⟩
    have hcounter := hs.counter_eq (List.getElem?_eq_getElem hx)
    have hlt := hs.counter_lt (List.getElem?_eq_getElem hx)
    omega
  · omega

theorem setInstance_eq (hp : s.ptrs[p]? = some ptr) (halive : ptr.alive) (value : Option ℕ) :
    s.setInstance p value = s.setPtr p { ptr with instancePtr := value } := by
  simp only [State.setInstance, hp, halive, Bool.not_true, touch_false]

/-- `m_instance` is assigned, and so much is on its way more, or less. -/
theorem setInstance_inv (hs : Inv pending s) (hp : s.ptrs[p]? = some ptr) (halive : ptr.alive)
    (hvalue : ∀ x ∈ value, x < s.objects.length)
    (hpending : ∀ y, pending' y + unit value y = pending y + unit ptr.instancePtr y) :
    Inv pending' (s.setInstance p value) := by
  rw [setInstance_eq hp halive]
  refine hs.setPtr hp (fun y => ?_) fun x _ hx => hvalue x hx
  rw [holds_with halive value, holds_eq_unit halive, hpending]

theorem setInstance_clean (hclean : Clean s) (hp : s.ptrs[p]? = some ptr) (halive : ptr.alive) :
    Clean (s.setInstance p value) := by
  rw [setInstance_eq hp halive]
  exact hclean.setPtr hp halive _ rfl

theorem setInstance_self (hp : s.ptrs[p]? = some ptr) (halive : ptr.alive) :
    (s.setInstance p value).ptrs[p]? = some { ptr with instancePtr := value } := by
  rw [setInstance_eq hp halive]
  exact setPtr_self hp

theorem setInstance_isDestroyed : (s.setInstance p value).isDestroyed x = s.isDestroyed x := by
  unfold State.setInstance
  split <;> rfl

/-- The handle is there, and refers to what it has been assigned. -/
structure Refers (p : ℕ) (value : Option ℕ) (t : State) : Prop where
  good : Good t
  alive : t.isAlive p
  instancePtr : t.instancePtr p = value

theorem refers_of_get (ht : Good t) (hp : t.ptrs[p]? = some { ptr with instancePtr := value })
    (halive : ptr.alive) : Refers p value t :=
  ⟨ht, isAlive_of_get hp halive, instancePtr_of_get hp⟩

theorem acquire_spec (hs : Good s) (hp : s.ptrs[p]? = some ptr) (halive : ptr.alive)
    (hnew : ∀ x ∈ value, x < s.objects.length) (houtlives : s.Outlives p none value)
    (hroom : s.Room p value) : Refers p value (s.acquire p value) := by
  obtain ⟨K, hstays, howner, hstay⟩ := houtlives
  rw [State.owner, hp] at howner
  have hafter : Exchanged none value K p ptr s (s.exchange p value) :=
    exchange_outlives hs.inv hs.clean hp halive hstays howner hnew fun _ hq _ => hq
  -- the handle is there to be read again
  simp only [State.acquire, isAlive_of_get hafter.self halive, Bool.not_true, touch_false,
    instancePtr_of_get hafter.self]
  cases value with
  | none => exact refers_of_get ⟨hafter.inv, hafter.clean⟩ hafter.self halive
  | some x =>
      have hlt := (hafter.refs_le x).trans_lt
        (refs_lt_of_room hs.inv hp halive hroom (hnew x rfl) _)
      have hinv : Inv (fun y => -unit (some x) y) (s.exchange p (some x)) := by
        simpa [unit_none] using hafter.inv
      obtain ⟨hgood, hptrs⟩ := addRef_spec hinv hafter.clean (hafter.objects ▸ hnew x rfl)
        (hafter.stays x (hstay x rfl)) hlt
      exact refers_of_get hgood (hptrs ▸ hafter.self) halive

theorem acquireFrom_spec (hs : Good s) (hp : s.ptrs[p]? = some ptr) (halive : ptr.alive)
    (hnew : ∀ x ∈ value, x < s.objects.length) (houtlives : s.Outlives p none value)
    (hroom : s.Room p value) : Refers p value (s.acquireFrom p value) := by
  obtain ⟨K, hstays, howner, hstay⟩ := houtlives
  rw [State.owner, hp] at howner
  have hafter : Exchanged none none K p ptr s (s.exchange p none) :=
    exchange_outlives hs.inv hs.clean hp halive hstays howner
      (fun x hx => absurd hx (Option.not_mem_none x)) fun _ hq _ => hq
  unfold State.acquireFrom
  cases value with
  | none => exact refers_of_get ⟨hafter.inv, hafter.clean⟩ hafter.self halive
  | some x =>
      have hx : x < (s.exchange p none).objects.length := hafter.objects ▸ hnew x rfl
      have hthere := hafter.stays x (hstay x rfl)
      have hvalue : ∀ y ∈ some x, y < (s.exchange p none).objects.length := fun y hy =>
        Option.some.inj hy ▸ hx
      dsimp only
      rw [hthere, touch_false]
      have hinv : Inv (fun y => -unit (some x) y) ((s.exchange p none).setInstance p (some x)) :=
        setInstance_inv hafter.inv hafter.self halive hvalue fun y => by
          simp only [unit_none, sub_self, add_zero, neg_add_cancel]
      have hrefs : ((s.exchange p none).setInstance p (some x)).refs x < counterSize := by
        refine Nat.lt_of_le_of_lt ?_
          (refs_lt_of_room hs.inv hp halive hroom (hnew x rfl) { ptr with instancePtr := some x })
        have hle := hafter.refs_le x
        have hbefore := refs_setPtr hp { ptr with instancePtr := none } x
        have hnone := refs_setPtr hp { ptr with instancePtr := some x } x
        have hsome := refs_setPtr hafter.self { ptr with instancePtr := some x } x
        rw [setInstance_eq hafter.self halive]
        dsimp only at hsome ⊢
        omega
      obtain ⟨hgood, hptrs⟩ := addRef_spec hinv (setInstance_clean hafter.clean hafter.self halive)
        (by rw [setInstance_eq hafter.self halive]; exact hx)
        (setInstance_isDestroyed.trans hthere) hrefs
      refine refers_of_get hgood (?_ : _ = some { ptr with instancePtr := some x }) halive
      rw [hptrs, setInstance_self hafter.self halive]

/-- A handle that gives its reference up for one that outlives what it lets go of. -/
theorem giveUp_exchange (hs : Good s) (hp : s.ptrs[p]? = some ptr) (halive : ptr.alive)
    (hq : s.ptrs[q]? = some ptr') (halive' : ptr'.alive)
    (houtlives : s.Outlives p ptr'.instancePtr none)
    (hvalue : ∀ x ∈ value, x < s.objects.length) :
    ∃ K ptr₁, ptr₁.alive ∧ ptr₁.owner = ptr.owner ∧
      Exchanged ptr'.instancePtr value K p ptr₁ (s.giveUp q) ((s.giveUp q).exchange p value) := by
  obtain ⟨K, hstays, howner, -⟩ := houtlives
  rw [State.owner, hp] at howner
  have hinv : Inv (unit ptr'.instancePtr) (s.giveUp q) :=
    setInstance_inv hs.inv hq halive' (fun x hx => absurd hx (Option.not_mem_none x)) fun y => by
      rw [unit_none, add_zero, zero_add]
  have hgive : s.giveUp q = s.setPtr q { ptr' with instancePtr := none } :=
    setInstance_eq hq halive' none
  have hclean : Clean (s.giveUp q) := setInstance_clean hs.clean hq halive'
  have hlength : (s.giveUp q).objects.length = s.objects.length := by rw [hgive]; rfl
  have hothers : ∀ {q' : ℕ} {ptr'' : Ptr}, q' ≠ p → s.ptrs[q']? = some ptr'' →
      ptr''.instancePtr ≠ ptr'.instancePtr → (s.giveUp q).ptrs[q']? = some ptr'' := by
    intro q' ptr'' _ hq' hne
    have hqq' : q ≠ q' := by
      rintro rfl
      cases hq.symm.trans hq'
      exact hne rfl
    rw [hgive, setPtr_ne hqq', hq']
  by_cases hqp : q = p
  · subst hqp
    cases hp.symm.trans hq
    refine ⟨K, { ptr with instancePtr := none }, halive, rfl, ?_⟩
    exact exchange_outlives hinv hclean (setInstance_self hp halive) halive hstays howner
      (hlength ▸ hvalue) hothers
  · refine ⟨K, ptr, halive, rfl, ?_⟩
    exact exchange_outlives hinv hclean (by rw [hgive, setPtr_ne hqp, hp]) halive hstays howner
      (hlength ▸ hvalue) hothers

theorem moveAcquire_spec (hs : Good s) (hp : s.ptrs[p]? = some ptr) (halive : ptr.alive)
    (hq : s.ptrs[q]? = some ptr') (halive' : ptr'.alive)
    (houtlives : s.Outlives p ptr'.instancePtr none) :
    Refers p ptr'.instancePtr ((s.giveUp q).moveAcquire p ptr'.instancePtr) := by
  obtain ⟨K, ptr₁, halive₁, -, hafter⟩ := giveUp_exchange hs hp halive hq halive' houtlives
    fun x hx => hs.inv.instance_lt hq halive' hx
  have hinv : Inv (fun _ => 0) ((s.giveUp q).exchange p ptr'.instancePtr) := by
    simpa only [sub_self] using hafter.inv
  exact refers_of_get ⟨hinv, hafter.clean⟩ hafter.self halive₁

theorem moveAcquireFrom_spec (hs : Good s) (hp : s.ptrs[p]? = some ptr) (halive : ptr.alive)
    (hq : s.ptrs[q]? = some ptr') (halive' : ptr'.alive)
    (houtlives : s.Outlives p ptr'.instancePtr none) :
    Refers p ptr'.instancePtr ((s.giveUp q).moveAcquireFrom p ptr'.instancePtr) := by
  obtain ⟨K, ptr₁, halive₁, -, hafter⟩ := giveUp_exchange hs hp halive hq halive' houtlives
    fun x hx => absurd hx (Option.not_mem_none x)
  have hinv : Inv (unit ptr'.instancePtr) ((s.giveUp q).exchange p none) := by
    simpa only [unit_none, sub_zero] using hafter.inv
  unfold State.moveAcquireFrom
  cases hinstance : ptr'.instancePtr with
  | none =>
      rw [hinstance] at hinv
      exact refers_of_get ⟨hinv, hafter.clean⟩ hafter.self halive₁
  | some x =>
      rw [hinstance] at hinv
      have hx : x < ((s.giveUp q).exchange p none).objects.length := by
        rw [hafter.objects, State.giveUp, setInstance_eq hq halive']
        exact hs.inv.instance_lt hq halive' hinstance
      -- the reference in hand keeps the object
      have hthere : ((s.giveUp q).exchange p none).isDestroyed x = false := by
        have ho := List.getElem?_eq_getElem hx
        have hcounter := hinv.counter_eq ho
        have hone : unit (some x) x = 1 := if_pos rfl
        by_contra hgone
        have hzero := (isDestroyed_iff hinv ho).1 (Bool.not_eq_false _ ▸ hgone)
        omega
      dsimp only
      rw [hthere, touch_false]
      have hself : (((s.giveUp q).exchange p none).setInstance p (some x)).ptrs[p]? =
          some { ptr₁ with instancePtr := some x } := by
        rw [setInstance_self hafter.self halive₁]
      refine refers_of_get ⟨?_, setInstance_clean hafter.clean hafter.self halive₁⟩ hself halive₁
      refine setInstance_inv hinv hafter.self halive₁ ?_ fun y => ?_
      · exact fun y hy => Option.some.inj hy ▸ hx
      · simp only [unit_none, zero_add, add_zero]

/-! ### The other actions -/

theorem Inv.push (hs : Inv pending s) (halive : ptr.alive)
    (hvalue : ∀ x ∈ ptr.instancePtr, x < s.objects.length)
    (hpending : ∀ y, pending' y + unit ptr.instancePtr y = pending y) :
    Inv pending' (s.push ptr) where
  untouched := hs.untouched
  counter_eq := by
    intro x o ho
    have hrefs : (s.push ptr).refs x = s.refs x + ptr.holds x := by
      simp [State.refs, State.push]
    have hunit := holds_eq_unit halive x
    have heq := hs.counter_eq ho
    have hx := hpending x
    omega
  counter_lt := hs.counter_lt
  destroyed_eq := hs.destroyed_eq
  instance_lt := by
    intro q x ptr'' hq halive'' hinstance
    rcases getElem?_concat_cases hq with hq | ⟨-, rfl⟩
    · exact hs.instance_lt hq halive'' hinstance
    · exact hvalue x hinstance

theorem Clean.push (h : Clean s) (howner : ∀ o ∈ ptr.owner, s.isDestroyed o = false) :
    Clean (s.push ptr) := by
  intro q o ptr' hq halive ho
  rcases getElem?_concat_cases hq with hq | ⟨-, rfl⟩
  · exact h q o ptr' hq halive ho
  · exact howner o ho

/-- An object with a reference that is in hand. -/
theorem Inv.object (hs : Inv (fun _ => 0) s) :
    Inv (unit (some s.objects.length)) { s with objects := s.objects ++ [{}] } where
  untouched := hs.untouched
  counter_eq := by
    intro x o ho
    have hrefs : ({ s with objects := s.objects ++ [{}] } : State).refs x = s.refs x := rfl
    rw [hrefs]
    rcases getElem?_concat_cases ho with ho | ⟨rfl, rfl⟩
    · have hne : s.objects.length ≠ x := (List.getElem?_eq_some_iff.1 ho).1.ne'
      rw [unit, if_neg fun h => hne (Option.some.inj h)]
      exact hs.counter_eq ho
    · have hnone : s.refs s.objects.length = 0 := by
        refine tally_eq_zero.2 fun ptr hptr => if_neg fun hholds => ?_
        obtain ⟨p, hp⟩ := List.getElem?_of_mem hptr
        exact absurd (hs.instance_lt hp hholds.1 hholds.2) (Nat.lt_irrefl _)
      rw [hnone, unit, if_pos rfl]
      rfl
  counter_lt := by
    intro x o ho
    rcases getElem?_concat_cases ho with ho | ⟨-, rfl⟩
    · exact hs.counter_lt ho
    · decide
  destroyed_eq := by
    intro x o ho
    rcases getElem?_concat_cases ho with ho | ⟨-, rfl⟩
    · exact hs.destroyed_eq ho
    · rfl
  instance_lt := by
    intro p x ptr hp halive hinstance
    rw [List.length_append]
    exact (hs.instance_lt hp halive hinstance).trans_le (Nat.le_add_right _ _)

theorem Clean.object (h : Clean s) : Clean { s with objects := s.objects ++ [{}] } := by
  intro q o ptr hq halive ho
  have hsame := h q o ptr hq halive ho
  unfold State.isDestroyed at hsame ⊢
  rw [List.getElem?_append]
  split
  · exact hsame
  · cases o - s.objects.length <;> rfl

theorem isThere_iff : s.isThere x ↔ x < s.objects.length ∧ s.isDestroyed x = false := by
  unfold State.isThere State.isDestroyed
  cases ho : s.objects[x]? with
  | none => simpa using ho
  | some o => simp [(List.getElem?_eq_some_iff.1 ho).1]

theorem refs_push (halive : ptr.alive) (x : ℕ) :
    ((s.push ptr).refs x : ℤ) = s.refs x + unit ptr.instancePtr x := by
  have hrefs : (s.push ptr).refs x = s.refs x + ptr.holds x := by
    simp [State.refs, State.push]
  rw [hrefs, ← holds_eq_unit halive, Int.natCast_add]

/-- A handle is made, and a reference added for it. -/
theorem construct_spec (hs : Good s) {owner : Option ℕ}
    (howner : ∀ o ∈ owner, s.isThere o) (hx : s.isThere x)
    (hroom : s.Room s.ptrs.length (some x)) :
    Good ((s.push { owner, instancePtr := some x }).addRef x) := by
  have hlt : s.refs x + 1 < counterSize := by
    rcases hroom x rfl with hself | hlt
    · rw [State.instancePtr, List.getElem?_eq_none (Nat.le_refl _)] at hself
      cases hself
    · exact hlt
  obtain ⟨hx, hthere⟩ := isThere_iff.1 hx
  have hrefs := @refs_push s ⟨owner, some x, true⟩ rfl x
  have hone : unit (some x) x = 1 := if_pos rfl
  refine (addRef_spec ?_ (hs.clean.push ?_) hx hthere ?_).1
  · exact hs.inv.push rfl (fun y hy => Option.some.inj hy ▸ hx) fun y => neg_add_cancel _
  · exact fun o ho => (isThere_iff.1 (howner o ho)).2
  · dsimp only at hrefs
    omega

theorem get_push : (s.push ptr).ptrs[s.ptrs.length]? = some ptr := List.getElem?_concat_length

theorem setPtr_push : (s.push ptr).setPtr s.ptrs.length ptr' = s.push ptr' := by
  simp [State.push, State.setPtr]

theorem setInstance_new {owner : Option ℕ} :
    (s.push { owner }).setInstance s.ptrs.length value =
      s.push { owner, instancePtr := value } := by
  have hnew : (s.push { owner }).ptrs[s.ptrs.length]? = some { owner } := get_push
  rw [setInstance_eq hnew rfl, setPtr_push]

theorem exchange_new {owner : Option ℕ} :
    (s.push { owner }).exchange s.ptrs.length none = s.push { owner } := by
  simp only [State.exchange, get_push, setPtr_push]

/-- `acquire<U>` of a handle that has no object. -/
theorem acquireFrom_new {owner : Option ℕ} (hthere : s.isDestroyed x = false) :
    (s.push { owner }).acquireFrom s.ptrs.length (some x) =
      (s.push { owner, instancePtr := some x }).addRef x := by
  have hthere' : (s.push { owner }).isDestroyed x = false := hthere
  simp only [State.acquireFrom, exchange_new, hthere', touch_false, setInstance_new]

/-- `moveAcquire<U>` of a handle that has no object. -/
theorem moveAcquireFrom_new {owner : Option ℕ} (hthere : ∀ x ∈ value, s.isDestroyed x = false) :
    (s.push { owner }).moveAcquireFrom s.ptrs.length value =
      s.push { owner, instancePtr := value } := by
  cases value with
  | none => exact exchange_new
  | some x =>
      have hthere' : (s.push { owner }).isDestroyed x = false := hthere x rfl
      simp only [State.moveAcquireFrom, exchange_new, hthere', touch_false,
        setInstance_new]

/-- What a handle refers to is there. -/
theorem Good.instance_there (hs : Good s) (hp : s.ptrs[p]? = some ptr) (halive : ptr.alive)
    (hinstance : ptr.instancePtr = some x) : s.isThere x := by
  have hx := hs.inv.instance_lt hp halive hinstance
  refine isThere_iff.2 ⟨hx, ?_⟩
  have ho := List.getElem?_eq_getElem hx
  have hcounter := hs.inv.counter_eq ho
  have hone : ptr.holds x = 1 := if_pos ⟨halive, hinstance⟩
  have hle : ptr.holds x ≤ s.refs x := le_tally (Ptr.holds x) hp
  by_contra hgone
  have hzero := (isDestroyed_iff hs.inv ho).1 (Bool.not_eq_false _ ▸ hgone)
  omega

theorem giveUp_push (hq : s.ptrs[q]? = some ptr) (halive : ptr.alive) (ptr' : Ptr) :
    (s.push ptr').giveUp q = (s.giveUp q).push ptr' := by
  have hlt := (List.getElem?_eq_some_iff.1 hq).1
  have hq' : (s.push ptr').ptrs[q]? = some ptr := getElem?_concat_of_some hq ptr'
  rw [State.giveUp, State.giveUp, setInstance_eq hq' halive, setInstance_eq hq halive]
  simp only [State.push, State.setPtr, List.set_append_left _ _ hlt]

theorem constructMove_spec (hs : Good s) {owner : Option ℕ} (howner : ∀ o ∈ owner, s.isThere o)
    (hq : s.ptrs[q]? = some ptr) (halive : ptr.alive) (converts : Bool) :
    Good (s.run (.constructMove owner q converts)) := by
  have hgive : s.giveUp q = s.setPtr q { ptr with instancePtr := none } :=
    setInstance_eq hq halive none
  have hgood : Good ((s.giveUp q).push { owner, instancePtr := ptr.instancePtr }) := by
    have hinv : Inv (unit ptr.instancePtr) (s.giveUp q) :=
      setInstance_inv hs.inv hq halive (fun x hx => absurd hx (Option.not_mem_none x)) fun y => by
        rw [unit_none, add_zero, zero_add]
    have hclean : Clean (s.giveUp q) := setInstance_clean hs.clean hq halive
    refine ⟨hinv.push rfl (fun x hx => ?_) fun y => zero_add _, hclean.push fun o ho => ?_⟩
    · rw [hgive]
      exact hs.inv.instance_lt hq halive hx
    · rw [hgive]
      exact (isThere_iff.1 (howner o ho)).2
  simp only [State.run, instancePtr_of_get hq]
  cases converts with
  | false => exact hgood
  | true =>
      have hlength : s.ptrs.length = (s.giveUp q).ptrs.length := by
        rw [hgive]
        exact List.length_set.symm
      rw [if_pos rfl, giveUp_push hq halive, hlength, moveAcquireFrom_new]
      · exact hgood
      · intro x hx
        rw [hgive]
        exact (isThere_iff.1 (hs.instance_there hq halive hx)).2

theorem destroy_spec (hs : Good s) (hp : s.ptrs[p]? = some ptr) (halive : ptr.alive) :
    Good (s.run (.destroy p)) := by
  have hout : s.ptrs[s.ptrs.length]? = none := List.getElem?_eq_none (Nat.le_refl _)
  have hne : p ≠ s.ptrs.length := (List.getElem?_eq_some_iff.1 hp).1.ne
  -- nothing is owed, so it does not matter for whom
  have hkeeps : Keeps ∅ s.ptrs.length (fun _ => 0) (s.setPtr p { ptr with alive := false }) := by
    refine ⟨fun o ho => ?_, fun y => ?_, fun y hy => absurd hy (Set.notMem_empty y)⟩
    · rw [State.owner, setPtr_ne hne, hout] at ho
      cases ho
    · exact (zero_add (_ : ℤ)).symm ▸ Int.natCast_nonneg _
  have hlive : s.live.card ≤ s.objects.length :=
    (Finset.card_filter_le _ _).trans_eq (Finset.card_range _)
  obtain ⟨hgoes, -⟩ := destroyPtr_spec (releaseRef_spec s.objects.length) hs.inv hp halive hkeeps
    hlive
  exact ⟨hgoes.inv, hs.clean.released hgoes.released⟩

/-! ### The runs -/

theorem get_of_isAlive (h : s.isAlive p) : ∃ ptr, s.ptrs[p]? = some ptr ∧ ptr.alive :=
  (Option.any_eq_true _ _).1 h

theorem createInstance_spec (hs : Good s) {owner : Option ℕ} (howner : ∀ o ∈ owner, s.isThere o) :
    Good (s.run (.createInstance owner)) := by
  have hinv : Inv (fun _ => 0) (s.run (.createInstance owner)) := by
    refine hs.inv.object.push rfl (fun x hx => ?_) fun y => zero_add _
    rw [← Option.some.inj hx, List.length_append]
    exact Nat.lt_succ_self _
  refine ⟨hinv, hs.clean.object.push fun o ho => ?_⟩
  obtain ⟨hlt, hthere⟩ := isThere_iff.1 (howner o ho)
  rw [State.isDestroyed, List.getElem?_append_left hlt]
  exact hthere

theorem construct_good (hs : Good s) {owner : Option ℕ} (howner : ∀ o ∈ owner, s.isThere o) :
    Good (s.push { owner }) :=
  ⟨hs.inv.push rfl (fun x hx => absurd hx (Option.not_mem_none x)) fun _ => zero_add _,
    hs.clean.push fun o ho => (isThere_iff.1 (howner o ho)).2⟩

theorem constructCopy_spec (hs : Good s) {owner : Option ℕ} (howner : ∀ o ∈ owner, s.isThere o)
    (hq : s.ptrs[q]? = some ptr) (halive : ptr.alive) (converts : Bool)
    (hroom : s.Room s.ptrs.length ptr.instancePtr) :
    Good (s.run (.constructCopy owner q converts)) := by
  simp only [State.run, instancePtr_of_get hq]
  cases hinstance : ptr.instancePtr with
  | none =>
      cases converts with
      | true =>
          simp only [State.acquireFrom, exchange_new, if_true]
          exact construct_good hs howner
      | false => exact construct_good hs howner
  | some x =>
      have hthere := hs.instance_there hq halive hinstance
      rw [hinstance] at hroom
      cases converts with
      | true =>
          simp only [acquireFrom_new (isThere_iff.1 hthere).2, if_true]
          exact construct_spec hs howner hthere hroom
      | false => exact construct_spec hs howner hthere hroom

/-- Every action that is safe keeps the references in order, and assigns what it assigns. -/
theorem run_good (hs : Good s) {a : Action} (hvalid : s.Valid a) (hsafe : Safe s a) :
    Good (s.run a) ∧ Assigned s a (s.run a) := by
  cases a with
  | createInstance owner => exact ⟨createInstance_spec hs hvalid, trivial⟩
  | construct owner => exact ⟨construct_good hs hvalid, trivial⟩
  | constructRaw owner x => exact ⟨construct_spec hs hvalid.1 hvalid.2 hsafe, trivial⟩
  | constructCopy owner other converts =>
      obtain ⟨ptr, hq, halive⟩ := get_of_isAlive hvalid.2
      refine ⟨constructCopy_spec hs hvalid.1 hq halive converts ?_, trivial⟩
      exact instancePtr_of_get hq ▸ hsafe
  | constructMove owner other converts =>
      obtain ⟨ptr, hq, halive⟩ := get_of_isAlive hvalid.2
      exact ⟨constructMove_spec hs hvalid.1 hq halive converts, trivial⟩
  | assign p other converts =>
      obtain ⟨ptr, hp, halive⟩ := get_of_isAlive hvalid.1
      obtain ⟨ptr', hq, halive'⟩ := get_of_isAlive hvalid.2
      have hnew : ∀ x ∈ s.instancePtr other, x < s.objects.length := fun x hx =>
        hs.inv.instance_lt hq halive' (instancePtr_of_get hq ▸ hx)
      have hrefers : Refers p (s.instancePtr other) (s.run (.assign p other converts)) := by
        cases converts with
        | true => exact acquireFrom_spec hs hp halive hnew hsafe.1 hsafe.2
        | false => exact acquire_spec hs hp halive hnew hsafe.1 hsafe.2
      exact ⟨hrefers.good, hrefers.alive, hrefers.instancePtr⟩
  | moveAssign p other converts =>
      obtain ⟨ptr, hp, halive⟩ := get_of_isAlive hvalid.1
      obtain ⟨ptr', hq, halive'⟩ := get_of_isAlive hvalid.2
      have hinstance := instancePtr_of_get hq
      have hrefers : Refers p ptr'.instancePtr (s.run (.moveAssign p other converts)) := by
        rw [Safe, hinstance] at hsafe
        simp only [State.run, hinstance]
        cases converts with
        | true => exact moveAcquireFrom_spec hs hp halive hq halive' hsafe
        | false => exact moveAcquire_spec hs hp halive hq halive' hsafe
      exact ⟨hrefers.good, hrefers.alive, hrefers.instancePtr.trans hinstance.symm⟩
  | reset p ptr =>
      obtain ⟨ptr', hp, halive⟩ := get_of_isAlive hvalid.1
      have hrefers := acquire_spec hs hp halive (fun x hx => (isThere_iff.1 (hvalid.2 x hx)).1)
        hsafe.1 hsafe.2
      exact ⟨hrefers.good, hrefers.alive, hrefers.instancePtr⟩
  | destroy p =>
      obtain ⟨ptr, hp, halive⟩ := get_of_isAlive hvalid
      exact ⟨destroy_spec hs hp halive, trivial⟩

theorem step_good (hs : Good s) {a : Action} (hsafe : Safe s a) (h : s.step a = some t) :
    Good t ∧ Assigned s a t := by
  obtain ⟨⟨-, hvalid⟩, rfl⟩ : (s.touched = false ∧ s.Valid a) ∧ s.run a = t := by
    simpa [State.step] using h
  exact run_good hs hvalid hsafe

theorem good_init : Good {} where
  inv := by
    refine ⟨rfl, ?_, ?_, ?_, ?_⟩ <;> intros <;> simp_all
  clean := by
    intro p o ptr hp
    cases hp

end Assign

/-- **The handles of a run** without an assignment to what it lets go of: what is destroyed is what
has no handle any more, and an assignment assigns. -/
theorem ptrs_sound {s : State} (h : Steps State.step Safe {} s) :
    Sound s ∧ ∀ a t, Safe s a → s.step a = some t → Sound t ∧ Assigned s a t := by
  have hs : Good s := h.invariant (fun hs hsafe hstep => (step_good hs hsafe hstep).1) good_init
  refine ⟨hs.sound, fun a t hsafe hstep => ?_⟩
  obtain ⟨ht, hassigned⟩ := step_good hs hsafe hstep
  exact ⟨ht.sound, hassigned⟩

/-- An object has a member for the next one.  A variable goes from the first one to the second,
which another variable has, too. -/
def sharedNext : List Action :=
  [.createInstance none, .createInstance (some 0), .constructCopy none 1 false, .assign 0 2 false]

def afterSharedNext : State where
  ptrs := [⟨none, some 1, true⟩, ⟨some 0, some 1, false⟩, ⟨none, some 1, true⟩]
  objects := [⟨0, 1⟩, ⟨2, 0⟩]

theorem ptrs_sound_sharedNext :
    exec State.step {} sharedNext = some afterSharedNext ∧ Sound afterSharedNext := by
  refine ⟨rfl, (ptrs_sound (@exec_steps _ _ _ _ sharedNext _ _ ?_ rfl)).1⟩
  refine ⟨trivial, fun s₁ h₁ => ⟨trivial, fun s₂ h₂ => ⟨?_, fun s₃ h₃ => ⟨?_, fun _ _ => trivial⟩⟩⟩⟩
  all_goals obtain rfl := Option.some.inj h₁
  all_goals obtain rfl := Option.some.inj h₂
  · intro y hy
    obtain rfl := Option.some.inj hy
    exact .inr (by decide)
  · obtain rfl := Option.some.inj h₃
    refine ⟨⟨{1}, ?_, ?_, ?_⟩, ?_⟩
    · rintro y rfl
      exact .inr ⟨2, ⟨none, some 1, true⟩, by decide, rfl, rfl, rfl, nofun⟩
    · exact nofun
    · intro x hx
      exact (Option.some.inj hx).symm
    · intro y hy
      obtain rfl := Option.some.inj hy
      exact .inr (by decide)

/-- The same without the other variable: the second object goes with the first one, before the
variable gets to it. -/
theorem not_sound_next : ∃ t, exec State.step {}
    [.createInstance none, .createInstance (some 0), .assign 0 1 false] = some t ∧ ¬ Sound t := by
  refine ⟨⟨[⟨none, some 1, true⟩, ⟨some 0, some 1, false⟩], [⟨0, 1⟩, ⟨1, 1⟩], true⟩, rfl, ?_⟩
  intro hsound
  have hdestroyed := @Sound.destroyed _ hsound 1 ⟨1, 1⟩ rfl
  exact absurd hdestroyed (by decide)

end MyEngine.Rtti.Handles
