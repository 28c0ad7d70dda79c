import Mathlib.Algebra.Group.Nat.Defs
import MyEngine.Serialization.ChangesScope
import MyEngine.Support.Keyed
import MyEngine.Support.Replace
import MyEngine.Support.Runs

/-!
# Serialization — ValueEvents

`RuntimeValueEventsBase` over a tree of native values: the subscriptions of the wrappers, and what
is called when a client changes one of them.

* `Operation`, `perform`: the methods of a wrapper that change its value.
* `Handle`: a wrapper, with the chain of its parents; `get` and `put` reach the value behind it.
* `State`, `step`: children are obtained, handlers subscribed and released, values changed.
* `Sound`: the entries of a wrapper are those of the subscriptions that are held.
* `announced_iff`: which changes every handler on the way up hears of.
-/

namespace MyEngine.Serialization.Events

open Network (icaseEqual)
open Support (eraseP_key key_inj)

/-! ### Operations -/

inductive Operation where
  | setBool (value : Bool)
  | setInt64 (value : Int64)
  | setUint64 (value : UInt64)
  | setDouble (value : Double)
  | setSingle (value : Double)
  | setString (str : Text)
  | setOptional (value : RuntimeValue)
  | setRef (value : RuntimeValue)
  | setValue (key : Text) (value : RuntimeValue)
  | setAt (index : ℕ) (value : RuntimeValue)
  | append (value : RuntimeValue)
  | clear
  | assign (src : RuntimeValue) (option : ValueAssignOption)

/-- What `as` gives for the interface of the method is called, if it is there. -/
def perform {S : Type} (lib : FloatLib) (dst : Destination S) (s : S) :
    Operation → Option (Effect S)
  | .setBool value       => dst.boolean.map fun f => (f s value, .ok ())
  | .setInt64 value      => dst.integer.map fun f => (f.setInt64 s value, .ok ())
  | .setUint64 value     => dst.integer.map fun f => (f.setUint64 s value, .ok ())
  | .setDouble value     => dst.float.map fun f => (f.setDouble s value, .ok ())
  | .setSingle value     => dst.float.map fun f => (f.setSingle s value, .ok ())
  | .setString str       => dst.string.map fun f => f s str
  | .setOptional value   => dst.optional.map fun f => f s value
  | .setRef value        => dst.valueRef.map fun f => (f.setValue s value, .ok ())
  | .setValue key value  => dst.dictionary.map fun f => f.setValue s key value
  | .setAt index value   => dst.readonlyCollection.map fun f => f.setAt s index value
  | .append value        => dst.collection.map fun f => f.append s value
  | .clear               =>
      match dst.collection with
      | some f => some (f.clear s, .ok ())
      | none   => (dst.dictionary.bind DictionaryItf.clear).map fun f => (f s, .ok ())
  | .assign src option   => some (Serialization.assign lib dst s src option)

/-- Whether the last thing that a successful call does is a change or a notification. -/
def Operation.lastMoment (t : NativeType) : Operation → Option Moment
  | .setAt index value =>
      match t with
      | @NativeType.tuple n types =>
          if h : index < n then Events.lastMoment (types ⟨index, h⟩) value {} else none
      | _ => some .changed
  | .setRef _ => some .changed
  | .assign src option => Events.lastMoment t src option
  | _ => some .notified

/-! ### Handles -/

/-- How an element, a value or a field is reached. -/
inductive Access where
  | getAt (index : ℕ)
  | getValue (key : Text)
  | value

/-- What a value of the second type is in one of the first. -/
inductive Child : NativeType → NativeType → Type where
  | optional {t : NativeType} : Child (.optional t) t
  | vector {t : NativeType} (index : ℕ) : Child (.vector t) t
  | list {t : NativeType} (index : ℕ) : Child (.list t) t
  | set {t : NativeType} (index : ℕ) : Child (.set t) t
  | map {t : NativeType} (key : Text) : Child (.map t) t
  | tuple {n : ℕ} {types : Fin n → NativeType} (i : Fin n) : Child (.tuple types) (types i)
  | uniformTuple {n : ℕ} {t : NativeType} (i : Fin n) : Child (.uniformTuple n t) t
  | object {n : ℕ} {keys : Fin n → Text} {types : Fin n → NativeType} (i : Fin n) :
      Child (.object keys types) (types i)

/-- `getAt` and `getValue` of the containers. -/
def childOf : (p : NativeType) → Access → Option (Σ t, Child p t)
  | .optional t, .value                   => some ⟨t, .optional⟩
  | .vector t, .getAt index               => some ⟨t, .vector index⟩
  | .list t, .getAt index                 => some ⟨t, .list index⟩
  | .set t, .getAt index                  => some ⟨t, .set index⟩
  | .map t, .getValue key                 => some ⟨t, .map key⟩
  | @NativeType.tuple n types, .getAt index =>
      if h : index < n then some ⟨types ⟨index, h⟩, .tuple ⟨index, h⟩⟩ else none
  | .uniformTuple n t, .getAt index       =>
      if h : index < n then some ⟨t, .uniformTuple ⟨index, h⟩⟩ else none
  | @NativeType.object n keys types, .getValue key =>
      ((List.finRange n).find? fun i => icaseEqual (keys i) key).map fun i => ⟨types i, .object i⟩
  | _, _                                  => none

def elementAt {E : Type} (s : List E) (index : ℕ) : Option E := s[index]?

def valueAt {E : Type} (s : List (Text × E)) (key : Text) : Option E := s.lookup key

namespace Child

def get : {p t : NativeType} → Child p t → p.Val → Option t.Val
  | _, _, optional, v       => v
  | _, _, vector index, v   => elementAt v index
  | _, _, list index, v     => elementAt v index
  | _, _, set index, v      => elementAt v index
  | _, _, map key, v        => valueAt v key
  | _, _, tuple i, v        => some (v i)
  | _, _, uniformTuple i, v => some (v i)
  | _, _, object i, v       => some (v i)

def put : {p t : NativeType} → Child p t → p.Val → t.Val → p.Val
  | _, _, optional, _, x       => some x
  | _, t, vector index, v, x   => (v : List t.Val).set index x
  | _, t, list index, v, x     => (v : List t.Val).set index x
  | _, t, set index, v, x      => (v : List t.Val).set index x
  | _, t, map key, v, x        => Support.put key x (v : List (Text × t.Val))
  | _, _, tuple i, v, x        => Function.update v i x
  | _, _, uniformTuple i, v, x => Function.update v i x
  | _, _, object i, v, x       => Function.update v i x

/-- The elements of a set are constant. -/
def isMutable {p t : NativeType} : Child p t → Bool
  | set _ => false
  | _     => true

end Child

/-- A wrapper of a value in a `root`: its number, and its parent. -/
inductive Handle (root : NativeType) : NativeType → Type where
  | value (id : ℕ) (isMutable : Bool) : Handle root root
  | child (id : ℕ) {p t : NativeType} (parent : Handle root p) (link : Child p t) : Handle root t

namespace Handle

variable {root : NativeType}

/-- The wrapper and all its parents, as `notifyChanged` calls them. -/
def chain : {t : NativeType} → Handle root t → List ℕ
  | _, value id _        => [id]
  | _, child id parent _ => id :: parent.chain

def isMutable : {t : NativeType} → Handle root t → Bool
  | _, value _ isMutable   => isMutable
  | _, child _ parent link => parent.isMutable && link.isMutable

def get : {t : NativeType} → Handle root t → root.Val → Option t.Val
  | _, value _ _, data           => some data
  | _, child _ parent link, data => (parent.get data).bind link.get

def put : {t : NativeType} → Handle root t → root.Val → t.Val → root.Val
  | _, value _ _, _, x              => x
  | _, child _ parent link, data, x =>
      match parent.get data with
      | some v => parent.put data (link.put v x)
      | none   => data

end Handle

/-! ### The tree -/

/-- A wrapper with its handlers: an entry is the subscription and the id it has got. -/
structure NativeValue (root : NativeType) where
  type : NativeType
  handle : Handle root type
  changeHandlers : List (ℕ × UInt32) := []
  id : UInt32 := 0

/-- A `SubscriptionHandle` that has not been reset. -/
structure SubscriptionHandle where
  subscription : ℕ
  value : ℕ
  uid : UInt32
  deriving DecidableEq, Repr

structure State (root : NativeType) where
  data : root.Val
  values : List (NativeValue root)
  subscriptions : List SubscriptionHandle := []
  subscribed : ℕ := 0

inductive Event where
  | changed
  | called (subscription : ℕ)
  deriving DecidableEq, Repr

inductive Action where
  | get (value : ℕ) (access : Access)
  | subscribeOnChanges (value : ℕ)
  | unsubscribe (subscription : ℕ)
  | perform (value : ℕ) (op : Operation)

variable {root : NativeType}

def initial (data : root.Val) (isMutable : Bool) : State root where
  data := data
  values := [⟨root, .value 0 isMutable, [], 0⟩]

namespace State

def handlers (s : State root) (value : ℕ) : List (ℕ × UInt32) :=
  (s.values[value]?.map NativeValue.changeHandlers).getD []

/-- `notifyChanged`: the handlers of the value, and then those of its parents. -/
def notified (s : State root) (chain : List ℕ) : List Event :=
  chain.flatMap fun value => (s.handlers value).map fun entry => .called entry.1

def events (s : State root) (chain : List ℕ) (moments : List Moment) : List Event :=
  moments.flatMap fun
    | .changed  => [.changed]
    | .notified => s.notified chain

/-- A method of a wrapper is called; what cannot be changed is not. -/
def perform (lib : FloatLib) (s : State root) (v : NativeValue root) (op : Operation) :
    Option (State root × List Event × Outcome Unit) :=
  if v.handle.isMutable then
    (v.handle.get s.data).bind fun x =>
      (Events.perform lib (wrapper lib v.type) ⟨x, []⟩ op).map fun e =>
        ({ s with data := v.handle.put s.data e.1.value }, s.events v.handle.chain e.1.moments, e.2)
  else none

/-- `getAt` and `getValue`; there has to be an element. -/
def getChild (s : State root) (v : NativeValue root) (access : Access) : Option (State root) :=
  (childOf v.type access).bind fun link =>
    ((v.handle.get s.data).bind link.2.get).map fun _ =>
      { s with values := s.values ++ [⟨link.1, .child s.values.length v.handle link.2, [], 0⟩] }

/-- A reference has no events. -/
def subscribe (s : State root) (value : ℕ) (v : NativeValue root) : Option (State root) :=
  match v.type with
  | .pointer => none
  | _ =>
      let id := v.id + 1
      some { s with
        values := s.values.set value
          { v with changeHandlers := v.changeHandlers ++ [(s.subscribed, id)], id := id }
        subscriptions := s.subscriptions ++ [⟨s.subscribed, value, id⟩]
        subscribed := s.subscribed + 1 }

/-- `SubscriptionHandle::reset`: the first entry with the id is erased. -/
def reset (s : State root) (h : SubscriptionHandle) : State root :=
  { s with
    values :=
      if h.uid = 0 then s.values
      else s.values.modify h.value fun v =>
        { v with changeHandlers := v.changeHandlers.eraseP fun entry => entry.2 = h.uid }
    subscriptions := s.subscriptions.erase h }

end State

def step (lib : FloatLib) (s : State root) : Action → Option (State root)
  | .get value access         => s.values[value]?.bind fun v => s.getChild v access
  | .subscribeOnChanges value => s.values[value]?.bind fun v => s.subscribe value v
  | .unsubscribe subscription =>
      (s.subscriptions.find? fun h => h.subscription = subscription).map s.reset
  | .perform value op         =>
      s.values[value]?.bind fun v => (s.perform lib v op).map Prod.fst

/-- A value gets fewer than `2 ^ 32` subscriptions. -/
def Few (s : State root) : Action → Prop
  | .subscribeOnChanges value => ∀ v ∈ s.values[value]?, v.id.toNat + 1 < 2 ^ 32
  | _ => True

/-! ### Changes -/

/-- Every handler on the way up is called after the last change. -/
def Announced (s : State root) (v : NativeValue root) (log : List Event) : Prop :=
  .changed ∈ log → ∀ h ∈ s.subscriptions, h.value ∈ v.handle.chain →
    ∃ before after, log = before ++ .called h.subscription :: after ∧ .changed ∉ after

/-- Only handlers whose subscription is held are called. -/
def Quiet (s : State root) (log : List Event) : Prop :=
  ∀ subscription, .called subscription ∈ log →
    ∃ h ∈ s.subscriptions, h.subscription = subscription

theorem perform_ends {lib : FloatLib} {t : NativeType} {op : Operation} {w w' : Watched t.Val}
    (h : perform lib (wrapper lib t) w op = some (w', .ok ())) : Ends w w' (op.lastMoment t) := by
  have hdst := wrapper_announces lib t
  cases op with
  | setBool value =>
      obtain ⟨f, hf, heq⟩ := Option.map_eq_some_iff.1 h
      exact (Prod.mk.inj heq).1 ▸ hdst.boolean f hf w value
  | setInt64 value =>
      obtain ⟨f, hf, heq⟩ := Option.map_eq_some_iff.1 h
      exact (Prod.mk.inj heq).1 ▸ (hdst.integer f hf w).1 value
  | setUint64 value =>
      obtain ⟨f, hf, heq⟩ := Option.map_eq_some_iff.1 h
      exact (Prod.mk.inj heq).1 ▸ (hdst.integer f hf w).2 value
  | setDouble value =>
      obtain ⟨f, hf, heq⟩ := Option.map_eq_some_iff.1 h
      exact (Prod.mk.inj heq).1 ▸ (hdst.float f hf w value).1
  | setSingle value =>
      obtain ⟨f, hf, heq⟩ := Option.map_eq_some_iff.1 h
      exact (Prod.mk.inj heq).1 ▸ (hdst.float f hf w value).2
  | setString str =>
      obtain ⟨f, hf, heq⟩ := Option.map_eq_some_iff.1 h
      exact hdst.string f hf w str w' heq
  | setOptional value =>
      obtain ⟨f, hf, heq⟩ := Option.map_eq_some_iff.1 h
      have hends := hdst.optional f hf w value
      rwa [heq] at hends
  | setRef value =>
      obtain ⟨f, hf, heq⟩ := Option.map_eq_some_iff.1 h
      cases t with
      | pointer =>
          obtain rfl := Option.some.inj hf
          exact (Prod.mk.inj heq).1 ▸ Ends.write w value
      | _ => cases hf
  | setValue key value =>
      obtain ⟨f, hf, heq⟩ := Option.map_eq_some_iff.1 h
      have hends := (hdst.dictionary f hf w).1 key value
      rwa [heq] at hends
  | setAt index value =>
      obtain ⟨f, hf, heq⟩ := Option.map_eq_some_iff.1 h
      cases t with
      | vector t | list t | uniformTuple n t =>
          obtain rfl := Option.some.inj hf
          exact (Prod.mk.inj heq).1 ▸ Ends.write w _
      | set t =>
          obtain rfl := Option.some.inj hf
          cases heq
      | tuple types =>
          obtain rfl := Option.some.inj hf
          exact setTupleAt_last (fun i value _ _ => assign_ends) heq
      | _ => cases hf
  | append value =>
      obtain ⟨f, hf, heq⟩ := Option.map_eq_some_iff.1 h
      have hends := (hdst.collection f hf w).2.2 value
      rwa [heq] at hends
  | clear =>
      rw [perform] at h
      split at h
      · next f hf => exact (Prod.mk.inj (Option.some.inj h)).1 ▸ (hdst.collection f hf w).1
      · obtain ⟨clear, hclear, heq⟩ := Option.map_eq_some_iff.1 h
        obtain ⟨f, hf, hclear⟩ := Option.bind_eq_some_iff.1 hclear
        exact (Prod.mk.inj heq).1 ▸ (hdst.dictionary f hf w).2 clear hclear
  | assign src option => exact assign_ends (Option.some.inj h)

/-! ### Subscriptions -/

/-- The ids of the handlers are different, and were given out before. -/
def NativeValue.Distinct (v : NativeValue root) : Prop :=
  (v.changeHandlers.map Prod.snd).Nodup ∧
    ∀ entry ∈ v.changeHandlers, 0 < entry.2.toNat ∧ entry.2.toNat ≤ v.id.toNat

/-- The entries of the values are those of the subscriptions that are held. -/
structure Sound (s : State root) : Prop where
  entry : ∀ value subscription uid, (subscription, uid) ∈ s.handlers value ↔
    ⟨subscription, value, uid⟩ ∈ s.subscriptions
  ids : ∀ v ∈ s.values, v.Distinct
  nodup : (s.subscriptions.map SubscriptionHandle.subscription).Nodup
  subscribed : ∀ h ∈ s.subscriptions, h.subscription < s.subscribed

variable {lib : FloatLib} {s s' : State root} {v w : NativeValue root} {value : ℕ}

theorem handlers_eq (hv : s.values[value]? = some v) : s.handlers value = v.changeHandlers := by
  rw [State.handlers, hv]
  rfl

theorem distinct_nil (hv : v.changeHandlers = []) : v.Distinct := by
  rw [NativeValue.Distinct, hv]
  exact ⟨List.nodup_nil, fun entry he => absurd he List.not_mem_nil⟩

theorem sound_initial (data : root.Val) (isMutable : Bool) : Sound (initial data isMutable) where
  entry value subscription uid := by
    refine iff_of_false ?_ List.not_mem_nil
    cases value with
    | zero => exact List.not_mem_nil
    | succ value => exact List.not_mem_nil
  ids v hv := by
    obtain rfl := List.mem_singleton.1 hv
    exact distinct_nil rfl
  nodup := List.nodup_nil
  subscribed h hh := absurd hh List.not_mem_nil

/-- A new value has no handlers. -/
theorem handlers_append (s : State root) (hw : w.changeHandlers = []) (value : ℕ) :
    State.handlers { s with values := s.values ++ [w] } value = s.handlers value := by
  rw [State.handlers, State.handlers, List.getElem?_append]
  split
  · rfl
  · next hle =>
      rw [List.getElem?_eq_none (Nat.le_of_not_lt hle), List.getElem?_singleton]
      split
      · exact hw
      · rfl

theorem Sound.getChild {access : Access} (hs : Sound s) (h : s.getChild v access = some s') :
    Sound s' := by
  obtain ⟨link, -, h⟩ := Option.bind_eq_some_iff.1 h
  obtain ⟨x, -, rfl⟩ := Option.map_eq_some_iff.1 h
  refine ⟨fun value subscription uid => ?_, fun w hw => ?_, hs.nodup, hs.subscribed⟩
  · rw [handlers_append s rfl]
    exact hs.entry value subscription uid
  · rcases List.mem_append.1 hw with hw | hw
    · exact hs.ids w hw
    · obtain rfl := List.mem_singleton.1 hw
      exact distinct_nil rfl

/-- The handlers of one value change. -/
theorem handlers_modify {f : NativeValue root → NativeValue root} {subscriptions subscribed}
    (hv : s.values[value]? = some v) (i : ℕ) :
    State.handlers ⟨s.data, s.values.modify value f, subscriptions, subscribed⟩ i =
      if i = value then (f v).changeHandlers else s.handlers i := by
  rw [State.handlers, List.getElem?_modify]
  split
  · next heq =>
      subst heq
      rw [hv, if_pos rfl]
      rfl
  · next hne =>
      rw [if_neg (Ne.symm hne), id_map']
      rfl

theorem toNat_succ {id : UInt32} (h : id.toNat + 1 < 2 ^ 32) : (id + 1).toNat = id.toNat + 1 := by
  rw [UInt32.toNat_add]
  exact Nat.mod_eq_of_lt h

/-- The new id is larger than those of the entries. -/
theorem NativeValue.Distinct.subscribe (hv : v.Distinct) (hfew : v.id.toNat + 1 < 2 ^ 32)
    (subscription : ℕ) :
    NativeValue.Distinct { v with
      changeHandlers := v.changeHandlers ++ [(subscription, v.id + 1)], id := v.id + 1 } := by
  have hid := toNat_succ hfew
  constructor
  · rw [List.map_append, List.map_singleton, List.nodup_append_comm, List.singleton_append,
      List.nodup_cons]
    refine ⟨fun hmem => ?_, hv.1⟩
    obtain ⟨entry, hentry, heq⟩ := List.mem_map.1 hmem
    have hle := (hv.2 entry hentry).2
    rw [heq, hid] at hle
    exact Nat.not_succ_le_self _ hle
  · intro entry hentry
    change 0 < entry.2.toNat ∧ entry.2.toNat ≤ (v.id + 1).toNat
    rw [hid]
    rcases List.mem_append.1 hentry with hentry | hentry
    · obtain ⟨hpos, hle⟩ := hv.2 entry hentry
      exact ⟨hpos, Nat.le_succ_of_le hle⟩
    · obtain rfl := List.mem_singleton.1 hentry
      rw [hid]
      exact ⟨Nat.succ_pos _, Nat.le_refl _⟩

theorem subscribe_eq (h : s.subscribe value v = some s') :
    s' = { s with
      values := s.values.modify value fun _ => { v with
        changeHandlers := v.changeHandlers ++ [(s.subscribed, v.id + 1)], id := v.id + 1 }
      subscriptions := s.subscriptions ++ [⟨s.subscribed, value, v.id + 1⟩]
      subscribed := s.subscribed + 1 } := by
  rw [State.subscribe] at h
  split at h
  · cases h
  · rw [← Option.some.inj h, List.set_eq_modify]

theorem Sound.subscribe (hs : Sound s) (hv : s.values[value]? = some v)
    (hfew : v.id.toNat + 1 < 2 ^ 32) (h : s.subscribe value v = some s') : Sound s' := by
  obtain rfl := subscribe_eq h
  constructor
  case entry =>
    intro i subscription uid
    have hentry := hs.entry i subscription uid
    rw [handlers_modify hv, List.mem_append, List.mem_singleton, SubscriptionHandle.mk.injEq]
    split
    · next heq =>
        subst heq
        rw [handlers_eq hv] at hentry
        rw [List.mem_append, List.mem_singleton, hentry, Prod.mk.injEq, eq_self, true_and]
    · next hne => simp only [hentry, hne, false_and, and_false, or_false]
  case ids =>
    exact forall_mem_modify hs.ids fun w _ =>
      (hs.ids v (List.mem_of_getElem? hv)).subscribe hfew s.subscribed
  case nodup =>
    rw [List.map_append, List.map_singleton, List.nodup_append_comm, List.singleton_append,
      List.nodup_cons]
    refine ⟨fun hmem => ?_, hs.nodup⟩
    obtain ⟨handle, hhandle, heq⟩ := List.mem_map.1 hmem
    exact Nat.lt_irrefl _ (heq ▸ hs.subscribed handle hhandle)
  case subscribed =>
    intro handle hhandle
    rcases List.mem_append.1 hhandle with hhandle | hhandle
    · exact Nat.lt_succ_of_lt (hs.subscribed handle hhandle)
    · obtain rfl := List.mem_singleton.1 hhandle
      exact Nat.lt_succ_self _

/-- The entry of a subscription is the only one with its id. -/
theorem Sound.of_uid {handle : SubscriptionHandle} (hs : Sound s) (hh : handle ∈ s.subscriptions)
    (hv : s.values[handle.value]? = some v) {subscription : ℕ}
    (hentry : (subscription, handle.uid) ∈ v.changeHandlers) :
    subscription = handle.subscription := by
  have hown := (hs.entry handle.value handle.subscription handle.uid).2 hh
  rw [handlers_eq hv] at hown
  have hids := (hs.ids v (List.mem_of_getElem? hv)).1
  exact congrArg Prod.fst (key_inj hids hentry hown rfl)

/-- The entry that is erased is that of the subscription. -/
theorem Sound.mem_reset {handle : SubscriptionHandle} (hs : Sound s) (hh : handle ∈ s.subscriptions)
    (i subscription : ℕ) (uid : UInt32) : (subscription, uid) ∈ (s.reset handle).handlers i ↔
      (subscription, uid) ∈ s.handlers i ∧ ⟨subscription, i, uid⟩ ≠ handle := by
  have hown := (hs.entry handle.value handle.subscription handle.uid).2 hh
  cases hv : s.values[handle.value]? with
  | none =>
      rw [State.handlers, hv] at hown
      cases hown
  | some v =>
      rw [handlers_eq hv] at hown
      obtain ⟨hids, hbound⟩ := hs.ids v (List.mem_of_getElem? hv)
      have hpos : handle.uid ≠ 0 := fun hzero =>
        absurd (hbound _ hown).1 (by rw [hzero]; exact Nat.lt_irrefl 0)
      rw [State.reset, if_neg hpos, handlers_modify hv]
      split
      · next heq =>
          subst heq
          rw [handlers_eq hv, eraseP_key hids, List.mem_filter]
          refine and_congr_right fun hentry => ?_
          rw [decide_eq_true_iff]
          constructor
          · intro hne heq
            exact hne (congrArg SubscriptionHandle.uid heq)
          · rintro hne rfl
            exact hne (by rw [hs.of_uid hh hv hentry])
      · next hne =>
          refine (and_iff_left ?_).symm
          rintro rfl
          exact hne rfl

theorem Sound.reset {handle : SubscriptionHandle} (hs : Sound s) (hh : handle ∈ s.subscriptions) :
    Sound (s.reset handle) := by
  have hnodup : s.subscriptions.Nodup := hs.nodup.of_map _
  constructor
  case entry =>
    intro i subscription uid
    rw [hs.mem_reset hh, hs.entry]
    exact (and_comm.trans hnodup.mem_erase_iff.symm)
  case ids =>
    change ∀ w ∈ (if handle.uid = 0 then s.values else _), w.Distinct
    split
    · exact hs.ids
    · refine forall_mem_modify hs.ids fun w hw => ?_
      obtain ⟨hids, hbound⟩ := hs.ids w (List.mem_of_getElem? hw)
      exact ⟨hids.sublist (List.eraseP_sublist.map _),
        fun entry he => hbound entry (List.mem_of_mem_eraseP he)⟩
  case nodup => exact hs.nodup.sublist (List.erase_sublist.map _)
  case subscribed => exact fun h hmem => hs.subscribed h (List.mem_of_mem_erase hmem)

theorem Sound.perform {op : Operation} {log : List Event} {outcome : Outcome Unit} (hs : Sound s)
    (h : s.perform lib v op = some (s', log, outcome)) : Sound s' := by
  rw [State.perform] at h
  split at h
  · obtain ⟨x, -, h⟩ := Option.bind_eq_some_iff.1 h
    obtain ⟨e, -, heq⟩ := Option.map_eq_some_iff.1 h
    obtain rfl := (Prod.mk.inj heq).1
    exact ⟨hs.entry, hs.ids, hs.nodup, hs.subscribed⟩
  · cases h

theorem sound_step {a : Action} (hs : Sound s) (hfew : Few s a) (h : step lib s a = some s') :
    Sound s' := by
  cases a with
  | get value access =>
      obtain ⟨v, -, h⟩ := Option.bind_eq_some_iff.1 h
      exact hs.getChild h
  | subscribeOnChanges value =>
      obtain ⟨v, hv, h⟩ := Option.bind_eq_some_iff.1 h
      exact hs.subscribe hv (hfew v hv) h
  | unsubscribe subscription =>
      obtain ⟨handle, hfind, rfl⟩ := Option.map_eq_some_iff.1 h
      exact hs.reset (List.mem_of_find?_eq_some hfind)
  | perform value op =>
      obtain ⟨v, -, h⟩ := Option.bind_eq_some_iff.1 h
      obtain ⟨⟨s₁, log, outcome⟩, hperform, rfl⟩ := Option.map_eq_some_iff.1 h
      exact hs.perform hperform

theorem sound_steps {data : root.Val} {isMutable : Bool}
    (h : Runs.Steps (step lib) Few (initial data isMutable) s) : Sound s :=
  h.invariant (fun hs hfew hstep => sound_step hs hfew hstep) (sound_initial data isMutable)

/-! ### What is called -/

theorem called_mem_notified (hs : Sound s) {chain : List ℕ} {subscription : ℕ} :
    .called subscription ∈ s.notified chain ↔
      ∃ h ∈ s.subscriptions, h.value ∈ chain ∧ h.subscription = subscription := by
  simp only [State.notified, List.mem_flatMap, List.mem_map, Event.called.injEq]
  constructor
  · rintro ⟨value, hvalue, ⟨subscription, uid⟩, hentry, rfl⟩
    exact ⟨_, (hs.entry value subscription uid).1 hentry, hvalue, rfl⟩
  · rintro ⟨h, hh, hvalue, rfl⟩
    exact ⟨h.value, hvalue, _, (hs.entry _ h.subscription h.uid).2 hh, rfl⟩

theorem changed_not_mem_notified (s : State root) (chain : List ℕ) :
    .changed ∉ s.notified chain := by
  intro hmem
  obtain ⟨value, -, hmem⟩ := List.mem_flatMap.1 hmem
  obtain ⟨entry, -, heq⟩ := List.mem_map.1 hmem
  cases heq

theorem mem_of_concat_eq {α : Type} {l before after : List α} {a x : α}
    (h : l ++ [a] = before ++ x :: after) : a ∈ x :: after := by
  have hlast := congrArg List.getLast? h
  rw [List.getLast?_concat, List.getLast?_append, List.getLast?_cons] at hlast
  exact List.mem_of_getLast? (List.getLast?_cons.trans hlast.symm)

theorem events_concat (s : State root) (chain : List ℕ) (moments : List Moment) (m : Moment) :
    s.events chain (moments ++ [m]) = s.events chain moments ++ s.events chain [m] :=
  List.flatMap_append

theorem events_quiet (hs : Sound s) (chain : List ℕ) (moments : List Moment) :
    Quiet s (s.events chain moments) := by
  intro subscription hmem
  obtain ⟨m, -, hmem⟩ := List.mem_flatMap.1 hmem
  cases m with
  | changed => cases List.mem_singleton.1 hmem
  | notified =>
      obtain ⟨h, hh, -, heq⟩ := (called_mem_notified hs).1 hmem
      exact ⟨h, hh, heq⟩

/-- A notification at the end reaches all, and a change at the end nobody. -/
theorem events_announced_iff (hs : Sound s) {moments : List Moment} :
    Announced s v (s.events v.handle.chain moments) ↔ moments.getLast? ≠ some .changed ∨
      ∀ h ∈ s.subscriptions, h.value ∉ v.handle.chain := by
  rcases List.eq_nil_or_concat' moments with rfl | ⟨moments, m, rfl⟩
  · exact iff_of_true (fun hmem => absurd hmem List.not_mem_nil) (.inl nofun)
  · rw [events_concat, List.getLast?_concat]
    cases m with
    | notified =>
        refine iff_of_true (fun _ h hh hvalue => ?_) (.inl nofun)
        have hmem : .called h.subscription ∈ s.notified v.handle.chain :=
          (called_mem_notified hs).2 ⟨h, hh, hvalue, rfl⟩
        obtain ⟨before, after, heq⟩ := List.append_of_mem hmem
        refine ⟨s.events v.handle.chain moments ++ before, after, ?_, fun hchanged => ?_⟩
        · rw [List.append_assoc, ← heq]
          exact congrArg _ (List.append_nil _)
        · refine changed_not_mem_notified s v.handle.chain ?_
          rw [heq]
          exact List.mem_append_right before (List.mem_cons_of_mem _ hchanged)
    | changed =>
        rw [or_iff_right (fun hne => hne rfl)]
        constructor
        · intro hannounced h hh hvalue
          obtain ⟨before, after, heq, hafter⟩ :=
            hannounced (List.mem_append_right _ (List.mem_singleton.2 rfl)) h hh hvalue
          -- the change is the last of the events
          rcases List.mem_cons.1 (mem_of_concat_eq heq) with heq | hmem
          · cases heq
          · exact hafter hmem
        · intro hnone _ h hh hvalue
          exact absurd hvalue (hnone h hh)

/-- **Whom a change reaches.**  No handler is called whose subscription has been released, and all
of the value and of its parents are called after a change that succeeds, unless nothing is notified
at its end and there is somebody to hear of it. -/
theorem announced_iff (lib : FloatLib) {data : root.Val} {isMutable : Bool}
    (h : Runs.Steps (step lib) Few (initial data isMutable) s) (v : NativeValue root)
    (op : Operation) {log : List Event} {outcome : Outcome Unit}
    (hperform : s.perform lib v op = some (s', log, outcome)) :
    Quiet s log ∧ (outcome = .ok () → (Announced s v log ↔
      op.lastMoment v.type ≠ some .changed ∨ ∀ h ∈ s.subscriptions, h.value ∉ v.handle.chain)) := by
  have hs := sound_steps h
  rw [State.perform] at hperform
  split at hperform
  · obtain ⟨x, -, hperform⟩ := Option.bind_eq_some_iff.1 hperform
    obtain ⟨⟨w, o⟩, he, heq⟩ := Option.map_eq_some_iff.1 hperform
    obtain ⟨-, hlog, rfl⟩ : _ ∧ s.events v.handle.chain w.moments = log ∧ o = outcome := by
      simpa using heq
    rw [← hlog]
    refine ⟨events_quiet hs _ _, ?_⟩
    rintro rfl
    obtain ⟨moments, hmoments, hlast⟩ := perform_ends he
    rw [events_announced_iff hs, ← hlast, hmoments, List.nil_append]
  · cases hperform

/-- The wrapper of a value, with one handler. -/
def watched (root : NativeType) : NativeValue root := ⟨root, .value 0 true, [(0, 1)], 1⟩

def watchedState (root : NativeType) (data : root.Val) : State root where
  data := data
  values := [watched root]
  subscriptions := [⟨0, 0, 1⟩]
  subscribed := 1

theorem steps_watched {data : root.Val}
    (h : step .small (initial data true) (.subscribeOnChanges 0) = some (watchedState root data)) :
    Runs.Steps (step .small) Few (initial data true) (watchedState root data) := by
  have hfew : Few (initial data true) (.subscribeOnChanges 0) := by
    intro v hv
    obtain rfl := Option.some.inj hv
    exact (by decide : 0 + 1 < 2 ^ 32)
  exact .more hfew h (.refl _)

/-- A number is set, and the handler is called. -/
theorem announced_iff_setInt64 : Announced (watchedState (.integer .int32) (IntegerValue.int32 1))
    (watched (.integer .int32)) [.changed, .called 0] :=
  ((announced_iff .small (steps_watched rfl) (watched (.integer .int32)) (.setInt64 5) rfl).2
    rfl).2 (.inl (by rintro ⟨⟩))

/-- An element of a vector is set by `setAt`. -/
theorem not_announced : ¬ ∀ (root : NativeType) (data : root.Val) (s s' : State root)
    (v : NativeValue root) (op : Operation) (log : List Event),
    Runs.Steps (step .small) Few (initial data true) s → v ∈ s.values →
      s.perform .small v op = some (s', log, .ok ()) → Announced s v log := by
  intro h
  have hannounced := h (.vector (.integer .int32)) [IntegerValue.int32 1] (watchedState _ _)
    _ (watched _) (.setAt 0 (.integer (.int32 5))) [.changed] (steps_watched rfl)
    (List.mem_singleton.2 rfl) rfl (List.mem_singleton.2 rfl) ⟨0, 0, 1⟩ (List.mem_singleton.2 rfl)
    (List.mem_singleton.2 rfl)
  obtain ⟨before, after, heq, -⟩ := hannounced
  have hmem : Event.called 0 ∈ [Event.changed] := heq ▸ List.mem_append_cons_self
  cases List.mem_singleton.1 hmem

end MyEngine.Serialization.Events
