import Mathlib.Data.List.Basic
import MyEngine.Serialization.NativeContainer

/-!
# Serialization — ChangesScope

The native wrappers with their notifications: which of their methods are in a `value_changes_scope`,
and which of the elements they assign to have them as a parent.

* `Watched`: a value with the changes and the notifications of its wrapper, in order.
* `wrapper`: `makeValueRef` of a type, with the methods that notify.
* `lastMoment`: what the type and the source say about the end of an `assign`.
* `assign_ends`: an `assign` that succeeds ends so.
-/

namespace MyEngine.Serialization.Events

open Network (icaseEqual)

/-! ### Notifications -/

inductive Moment where
  | changed
  | notified
  deriving DecidableEq, Repr

/-- The value behind a wrapper, with what has happened: it was changed, or `notifyChanged` of the
wrapper was called. -/
structure Watched (V : Type) where
  value : V
  moments : List Moment := []

namespace Watched

variable {V E : Type}

def write (w : Watched V) (value : V) : Watched V := ⟨value, w.moments ++ [.changed]⟩

def notifyChanged (w : Watched V) : Watched V := ⟨w.value, w.moments ++ [.notified]⟩

/-- What is done to the value by way of wrappers that have no parent. -/
def silently (f : V → Effect V) (w : Watched V) : Effect (Watched V) :=
  (w.write (f w.value).1, (f w.value).2)

/-- `value_changes_scope`, which is left with every result. -/
def scope (f : Watched V → Effect (Watched V)) (w : Watched V) : Effect (Watched V) :=
  ((f w).1.notifyChanged, (f w).2)

/-- What is done by way of a new child, whose notifications reach the parent. -/
def ofChild (get : V → E) (put : V → E → V) (f : Watched E → Effect (Watched E)) (w : Watched V) :
    Effect (Watched V) :=
  let e := f ⟨get w.value, []⟩
  (⟨put w.value e.1.value, w.moments ++ e.1.moments⟩, e.2)

/-- A setter with a `value_changes_scope`. -/
def set (f : V → V) (w : Watched V) : Watched V := (w.write (f w.value)).notifyChanged

end Watched

open Watched

/-! ### Wrappers -/

section Wrappers

variable {E : Type} (lib : FloatLib) (element : Destination E) (initial : E)

/-- `setString` of a `NativeStringParsableValue`, which notifies when the text was parsed. -/
def setParsed (parse : Text → Text → Effect Text) (w : Watched Text) (str : Text) :
    Effect (Watched Text) :=
  match parse str w.value with
  | (s, .ok _)    => ((w.write s).notifyChanged, .ok ())
  | (s, .error e) => (w.write s, .error e)

/-- The elements that `setAt` and `append` assign to have no parent. -/
def collection (append : List E → RuntimeValue → Effect (List E)) :
    Destination (Watched (List E)) where
  collection := some
    ⟨set fun _ => [], fun w _ => w, fun w value => w.scope (silently fun s => append s value)⟩
  readonlyCollection := some
    ⟨fun w => w.value.length, fun w index value => w.silently fun s =>
      setAt lib element s index value⟩

variable {n : ℕ} {F : Fin n → Type} (elements : ∀ i, Destination (Watched (F i)))

/-- An element of a tuple or a field, which has the tuple or the object as its parent. -/
def assignField (w : Watched (∀ i, F i)) (i : Fin n) (value : RuntimeValue) :
    Effect (Watched (∀ i, F i)) :=
  w.ofChild (fun s => s i) (fun s x => Function.update s i x)
    fun child => assign lib (elements i) child value

/-- `setAt` of a `NativeTuple`. -/
def setTupleAt (w : Watched (∀ i, F i)) (index : ℕ) (value : RuntimeValue) :
    Effect (Watched (∀ i, F i)) :=
  if h : index < n then assignField lib elements w ⟨index, h⟩ value
  else (w, .error (.fatal "Bad element index"))

/-- `RuntimeObjectState::setFieldValue`. -/
def setFieldValue (keys : Fin n → Text) (w : Watched (∀ i, F i)) (key : Text)
    (value : RuntimeValue) : Effect (Watched (∀ i, F i)) :=
  match (List.finRange n).find? fun i => icaseEqual (keys i) key with
  | some i => assignField lib elements w i value
  | none =>
      (w, .error (.error ("Class does not contains field:(".toList ++ key ++ ")".toList)))

end Wrappers

/-- `makeValueRef` of a value that can be changed.  The elements of a set are constant: its `setAt`
asserts that they are not. -/
def wrapper (lib : FloatLib) : (t : NativeType) → Destination (Watched t.Val)
  | .integer _         =>
      { integer := some
          ⟨fun w => w.value.isSigned, fun w value => w.set fun i => i.setInt64 value,
            fun w value => w.set fun i => i.setUint64 value⟩ }
  | .boolean           => { boolean := some fun w value => w.set fun _ => value }
  | .float isDouble    =>
      { float := some
          ⟨fun _ => if isDouble then 8 else 4,
            fun w value => w.set fun _ => if isDouble then value else lib.toSingle value,
            fun w value => w.set fun _ => value⟩ }
  | .string            => { string := some fun w str => w.scope (silently fun _ => (str, .ok ())) }
  | .parsable parse _  => { string := some (setParsed parse) }
  | .pointer           =>
      { valueRef := some ⟨fun w => w.value, fun w value => w.write value, fun _ _ => rfl⟩ }
  | .optional t        =>
      { optional := some fun w value =>
          w.scope (silently fun s => setOptional lib (t.destination lib) t.initial s value) }
  | .vector t | .list t =>
      collection lib (t.destination lib) (appendBack lib (t.destination lib) t.initial)
  | .set t             =>
      { collection :=
          (collection lib (t.destination lib)
            (appendUnique lib (t.destination lib) t.initial t.same)).collection
        readonlyCollection := some
          ⟨fun w => w.value.length, fun w _ _ => (w, .error (.fatal "dst->isMutable()"))⟩ }
  | .map t             =>
      { dictionary := some
          ⟨fun w key value =>
              w.scope (silently fun s => setMapValue lib (t.destination lib) t.initial s key value),
            some (set fun _ => ([] : List _))⟩ }
  | @NativeType.tuple n types    =>
      { readonlyCollection := some
          ⟨fun _ => n, setTupleAt lib fun i => wrapper lib (types i)⟩ }
  -- The elements of an array get no parent.
  | .uniformTuple n t  =>
      { readonlyCollection := some
          ⟨fun _ => n, fun w index value => w.silently fun s =>
            Serialization.setTupleAt lib (fun _ => t.destination lib) s index value⟩ }
  | @NativeType.object n keys types =>
      { object := some
          ⟨fun _ => n, fun _ i => if h : i < n then keys ⟨i, h⟩ else [], fun w key value =>
            w.scope fun w => setFieldValue lib (fun i => wrapper lib (types i)) keys w key value⟩
        dictionary := some
          ⟨fun w key value =>
            w.scope fun w => setFieldValue lib (fun i => wrapper lib (types i)) keys w key value,
            none⟩ }

/-! ### The end of an `assign` -/

/-- The end of what `clearDst` does. -/
def clearedMoment : NativeType → Option Moment
  | .optional _ | .string | .parsable _ _ | .vector _ | .list _ | .set _ | .map _ => some .notified
  | .integer _ | .boolean | .float _ | .pointer | .tuple _ | .uniformTuple _ _ | .object _ _ => none

/-- `assign` goes through the references and the optionals around the source. -/
def unwrapped (cleared : Option Moment)
    (plain : RuntimeValue → ValueAssignOption → Option Moment) :
    RuntimeValue → ValueAssignOption → Option Moment
  | .ref value, _      => if value.isNull then cleared else unwrapped cleared plain value {}
  | .optional value, _ => if value.isNull then cleared else unwrapped cleared plain value {}
  | .nullptr, option   => plain .nullptr option
  | .integer i, option => plain (.integer i) option
  | .float x, option   => plain (.float x) option
  | .boolean b, option => plain (.boolean b) option
  | .string str, option         => plain (.string str) option
  | .collection elements, option => plain (.collection elements) option
  | .dictionary fields, option  => plain (.dictionary fields) option

/-- A container that is neither cleared nor added to is left alone. -/
def mergedMoment (isEmpty : Bool) (option : ValueAssignOption) : Option Moment :=
  if option.mergeCollection && isEmpty then none else some .notified

/-- A field is assigned to when the source has a value for it. -/
def fieldMoment (fields : List (Text × RuntimeValue)) (key : Text) : Option Moment :=
  match fields.lookup key with
  | some value => if value.isNull then none else some .notified
  | none       => none

/-- Whether the last thing that an `assign` of the source does to a value of the type is a change or
a notification. -/
def lastMoment : NativeType → RuntimeValue → ValueAssignOption → Option Moment
  | .pointer => fun _ _ => some .changed
  | .integer _ => unwrapped none fun _ _ => some .notified
  | .boolean => unwrapped none fun _ _ => some .notified
  | .float _ => unwrapped none fun _ _ => some .notified
  | .string => unwrapped (some .notified) fun _ _ => some .notified
  | .parsable _ _ => unwrapped (some .notified) fun _ _ => some .notified
  | .optional _ => unwrapped (some .notified) fun _ _ => some .notified
  | .vector _ | .list _ | .set _ =>
      unwrapped (some .notified) fun src option =>
        mergedMoment ((src.asCollection.getD []).isEmpty) option
  | .map _ =>
      unwrapped (some .notified) fun src option =>
        mergedMoment ((src.asDictionary.getD []).isEmpty) option
  | @NativeType.tuple n types =>
      unwrapped none fun src _ =>
        ((List.range n).filterMap fun i =>
          (src.asCollection.getD [])[i]?.bind fun value =>
            if h : i < n then lastMoment (types ⟨i, h⟩) value {} else none).getLast?
  | .uniformTuple n _ =>
      unwrapped none fun src _ =>
        ((List.range n).filterMap fun i =>
          (src.asCollection.getD [])[i]?.bind fun _ => some Moment.changed).getLast?
  | @NativeType.object n keys _ =>
      unwrapped none fun src _ =>
        ((List.range n).filterMap fun i =>
          fieldMoment (src.asDictionary.getD []) (if h : i < n then keys ⟨i, h⟩ else [])).getLast?

variable {V E α : Type} {w w₁ w' : Watched V} {a b : Option Moment}

/-- What is done from `w` to `w'` ends with the moment, if there is any. -/
def Ends (w w' : Watched V) (last : Option Moment) : Prop :=
  ∃ moments, w'.moments = w.moments ++ moments ∧ moments.getLast? = last

namespace Ends

theorem refl (w : Watched V) : Ends w w none := ⟨[], by simp, rfl⟩

theorem write (w : Watched V) (value : V) : Ends w (w.write value) (some .changed) :=
  ⟨[.changed], rfl, rfl⟩

theorem trans (h : Ends w w₁ a) (h' : Ends w₁ w' b) : Ends w w' (b.or a) := by
  obtain ⟨moments, heq, hlast⟩ := h
  obtain ⟨moments', heq', hlast'⟩ := h'
  refine ⟨moments ++ moments', by rw [heq', heq, List.append_assoc], ?_⟩
  rw [List.getLast?_append, hlast, hlast']

theorem notifyChanged (h : Ends w w' a) : Ends w w'.notifyChanged (some .notified) := by
  obtain ⟨moments, heq, -⟩ := h
  refine ⟨moments ++ [.notified], ?_, List.getLast?_concat⟩
  rw [Watched.notifyChanged, heq, List.append_assoc]

theorem set (f : V → V) (w : Watched V) : Ends w (w.set f) (some .notified) :=
  (Ends.write w _).notifyChanged

theorem scope_silently (f : V → Effect V) (w : Watched V) :
    Ends w (w.scope (silently f)).1 (some .notified) :=
  (Ends.write w _).notifyChanged

end Ends

/-- A loop whose calls end so. -/
theorem forEach_ends {f : Watched V → α → Effect (Watched V)} {last : α → Option Moment}
    (hf : ∀ w a w', f w a = (w', .ok ()) → Ends w w' (last a)) :
    ∀ {as : List α} {w w'}, forEach f w as = (w', .ok ()) →
      Ends w w' (as.filterMap last).getLast?
  | [], w, w', h => by
      obtain rfl : w = w' := (Prod.mk.inj h).1
      exact .refl w
  | a :: as, w, w', h => by
      rw [forEach] at h
      split at h
      · next w₁ _ hstep =>
          have hends := (hf w a w₁ hstep).trans (forEach_ends hf h)
          rw [List.filterMap_cons]
          cases hlast : last a with
          | none =>
              rw [hlast, Option.or_none] at hends
              exact hends
          | some m =>
              rw [hlast] at hends
              rwa [show some m = [m].getLast? from rfl, ← List.getLast?_append,
                List.singleton_append] at hends
      · cases h

/-- A loop whose calls all notify. -/
theorem forEach_notified {f : Watched V → α → Effect (Watched V)}
    (hf : ∀ w a w', f w a = (w', .ok ()) → Ends w w' (some .notified)) {as : List α}
    (h : forEach f w as = (w', .ok ())) :
    Ends w w' (if as.isEmpty then none else some .notified) := by
  have hends := forEach_ends hf h
  rw [List.filterMap_eq_map', List.map_const', List.getLast?_replicate] at hends
  cases as with
  | nil => exact hends
  | cons a as => exact hends

/-! ### The methods that notify -/

/-- All methods but `setAt` and those of a reference notify when they are done; that of an interface
that a wrapper does not have is nothing to show. -/
structure Announces (dst : Destination (Watched V)) : Prop where
  optional : ∀ f ∈ dst.optional, ∀ w value, Ends w (f w value).1 (some .notified) := by
    rintro _ ⟨⟩
  string : ∀ f ∈ dst.string, ∀ w str w', f w str = (w', .ok ()) → Ends w w' (some .notified) := by
    rintro _ ⟨⟩
  boolean : ∀ f ∈ dst.boolean, ∀ w value, Ends w (f w value) (some .notified) := by
    rintro _ ⟨⟩
  float : ∀ f ∈ dst.float, ∀ w value, Ends w (f.setDouble w value) (some .notified) ∧
    Ends w (f.setSingle w value) (some .notified) := by
    rintro _ ⟨⟩
  integer : ∀ f ∈ dst.integer, ∀ w, (∀ value, Ends w (f.setInt64 w value) (some .notified)) ∧
    ∀ value, Ends w (f.setUint64 w value) (some .notified) := by
    rintro _ ⟨⟩
  collection : ∀ f ∈ dst.collection, ∀ w, Ends w (f.clear w) (some .notified) ∧
    (∀ size, f.reserve w size = w) ∧
      ∀ value, Ends w (f.append w value).1 (some .notified) := by
    rintro _ ⟨⟩
  object : ∀ f ∈ dst.object, ∀ w key value,
    Ends w (f.setFieldValue w key value).1 (some .notified) := by
    rintro _ ⟨⟩
  dictionary : ∀ f ∈ dst.dictionary, ∀ w,
    (∀ key value, Ends w (f.setValue w key value).1 (some .notified)) ∧
      ∀ clear ∈ f.clear, Ends w (clear w) (some .notified) := by
    rintro _ ⟨⟩

theorem ofChild_ends {get : V → E} {put : V → E → V} {f : Watched E → Effect (Watched E)}
    (h : Ends ⟨get w.value, []⟩ (f ⟨get w.value, []⟩).1 a) : Ends w (w.ofChild get put f).1 a := by
  obtain ⟨moments, heq, hlast⟩ := h
  exact ⟨moments, by rw [ofChild, heq, List.nil_append], hlast⟩

theorem scope_ends {f : Watched V → Effect (Watched V)} (h : Ends w (f w).1 a) :
    Ends w (w.scope f).1 (some .notified) :=
  h.notifyChanged

section Fields

variable {lib : FloatLib} {n : ℕ} {F : Fin n → Type} {elements : ∀ i, Destination (Watched (F i))}

theorem assignField_ends (w : Watched (∀ i, F i)) (i : Fin n) (value : RuntimeValue) :
    ∃ last, Ends w (assignField lib elements w i value).1 last :=
  ⟨_, _, rfl, rfl⟩

/-- The field ends as the assignment to it, the moments of a new child being those of the parent. -/
theorem assignField_last {i : Fin n} {value : RuntimeValue} {w w' : Watched (∀ i, F i)}
    (hassign : ∀ {child child'}, assign lib (elements i) child value = (child', .ok ()) →
      Ends child child' a) (h : assignField lib elements w i value = (w', .ok ())) :
    Ends w w' a := by
  have hends : Ends w (assignField lib elements w i value).1 a :=
    ofChild_ends (hassign (Prod.ext rfl (Prod.mk.inj h).2))
  rwa [h] at hends

theorem setTupleAt_last {last : Fin n → RuntimeValue → Option Moment}
    (hassign : ∀ i value child child', assign lib (elements i) child value = (child', .ok ()) →
      Ends child child' (last i value)) {index : ℕ} {value : RuntimeValue}
    {w w' : Watched (∀ i, F i)} (h : setTupleAt lib elements w index value = (w', .ok ())) :
    Ends w w' (if hi : index < n then last ⟨index, hi⟩ value else none) := by
  rw [setTupleAt] at h
  split at h
  · next hi =>
      rw [dif_pos hi]
      exact assignField_last (hassign _ _ _ _) h
  · cases h

theorem setFieldValue_ends (keys : Fin n → Text) (w : Watched (∀ i, F i)) (key : Text)
    (value : RuntimeValue) :
    ∃ last, Ends w (setFieldValue lib elements keys w key value).1 last := by
  rw [setFieldValue]
  split
  · exact assignField_ends w _ value
  · exact ⟨none, .refl w⟩

end Fields

theorem collection_announces (lib : FloatLib) (element : Destination E)
    (append : List E → RuntimeValue → Effect (List E)) :
    Announces (collection lib element append) where
  collection := by
    rintro f ⟨⟩ w
    exact ⟨.set _ w, fun _ => rfl, fun value => .scope_silently _ w⟩

theorem setParsed_ends (parse : Text → Text → Effect Text) {w w' : Watched Text} {str : Text}
    (h : setParsed parse w str = (w', .ok ())) : Ends w w' (some .notified) := by
  rw [setParsed] at h
  split at h
  · obtain rfl := (Prod.mk.inj h).1
    exact (Ends.write w _).notifyChanged
  · cases h

theorem wrapper_announces (lib : FloatLib) : ∀ t : NativeType, Announces (wrapper lib t)
  | .integer _ => { integer := by rintro f ⟨⟩ w; exact ⟨fun _ => .set _ w, fun _ => .set _ w⟩ }
  | .boolean => { boolean := by rintro f ⟨⟩ w value; exact .set _ w }
  | .float _ => { float := by rintro f ⟨⟩ w value; exact ⟨.set _ w, .set _ w⟩ }
  | .string =>
      { string := by
          rintro f ⟨⟩ w str w' h
          obtain rfl := (Prod.mk.inj h).1
          exact .scope_silently _ w }
  | .parsable parse _ => { string := by rintro f ⟨⟩ w str w' h; exact setParsed_ends parse h }
  | .pointer => {}
  | .optional _ => { optional := by rintro f ⟨⟩ w value; exact .scope_silently _ w }
  | .vector t => collection_announces lib (t.destination lib) _
  | .list t => collection_announces lib (t.destination lib) _
  | .set t => { collection := (collection_announces lib (t.destination lib) _).collection }
  | .map _ =>
      { dictionary := by
          rintro f ⟨⟩ w
          refine ⟨fun key value => .scope_silently _ w, ?_⟩
          rintro clear ⟨⟩
          exact .set _ w }
  | .tuple _ => {}
  | .uniformTuple _ _ => {}
  | .object keys _ =>
      { object := by
          rintro f ⟨⟩ w key value
          exact scope_ends (setFieldValue_ends keys w key value).choose_spec
        dictionary := by
          rintro f ⟨⟩ w
          refine ⟨fun key value => ?_, by rintro _ ⟨⟩⟩
          exact scope_ends (setFieldValue_ends keys w key value).choose_spec }

/-! ### `assign` -/

section Assign

variable {lib : FloatLib} {dst : Destination (Watched V)} {src : RuntimeValue}
  {option : ValueAssignOption}

theorem lexicalCastTo_ends (hdst : Announces dst) {str : Text}
    (h : lexicalCastTo lib dst w str = some w') : Ends w w' (some .notified) := by
  rw [lexicalCastTo] at h
  split at h
  · next f hf =>
      obtain rfl := Option.some.inj h
      exact (hdst.integer f hf w).1 _
  · split at h
    · next f hf =>
        obtain rfl := Option.some.inj h
        exact (hdst.float f hf w _).1
    · split at h
      · next f hf =>
          obtain rfl := Option.some.inj h
          exact hdst.boolean f hf w _
      · cases h

theorem implicitCast_ends (hdst : Announces dst) {typeCoercion : TypeCoercion} {message : String}
    (h : implicitCast lib dst w src typeCoercion message = (w', .ok ())) :
    Ends w w' (some .notified) := by
  rw [implicitCast] at h
  split at h
  · split at h
    · next hcast =>
        obtain rfl := (Prod.mk.inj h).1
        exact lexicalCastTo_ends hdst hcast
    · cases h
  · cases h

theorem assignPrimitiveValue_ends (hdst : Announces dst) {typeCoercion : TypeCoercion}
    (h : assignPrimitiveValue lib dst w src typeCoercion = (w', .ok ())) :
    Ends w w' (some .notified) := by
  rw [assignPrimitiveValue] at h
  split at h
  · next f hf =>
      unfold assignStringValue at h
      split at h
      · exact hdst.string f hf w _ w' h
      · split at h
        · exact hdst.string f hf w _ w' h
        · cases h
  · split at h
    · next f hf =>
        split at h
        · obtain rfl := (Prod.mk.inj h).1
          exact hdst.boolean f hf w _
        · exact implicitCast_ends hdst h
    · split at h
      · next f hf =>
          split at h
          · obtain rfl := (Prod.mk.inj h).1
            exact (hdst.float f hf w _).1
          · split at h
            · obtain rfl := (Prod.mk.inj h).1
              exact (hdst.float f hf w _).1
            · obtain rfl := (Prod.mk.inj h).1
              exact (hdst.float f hf w _).2
          · exact implicitCast_ends hdst h
      · split at h
        · next f hf =>
            split at h
            · split at h
              · obtain rfl := (Prod.mk.inj h).1
                exact (hdst.integer f hf w).1 _
              · obtain rfl := (Prod.mk.inj h).1
                exact (hdst.integer f hf w).2 _
            · dsimp only at h
              split at h
              · obtain rfl := (Prod.mk.inj h).1
                exact (hdst.integer f hf w).1 _
              · obtain rfl := (Prod.mk.inj h).1
                exact (hdst.integer f hf w).2 _
            · exact implicitCast_ends hdst h
        · cases h

/-- Primitive values. -/
theorem assignPlain_primitive (hdst : Announces dst) (hoptional : dst.optional = none)
    (hprimitive : dst.isPrimitive = true) (h : assignPlain lib dst w src option = (w', .ok ())) :
    Ends w w' (some .notified) := by
  rw [assignPlain, hoptional] at h
  dsimp only at h
  rw [if_pos hprimitive] at h
  split at h
  · exact assignPrimitiveValue_ends hdst h
  · cases h

/-- A container that is cleared, if it is not merged, and added to. -/
theorem assignItems_ends {add : Watched V → α → Effect (Watched V)} {clear : Watched V → Watched V}
    (hclear : ∀ w, Ends w (clear w) (some .notified))
    (hadd : ∀ w a, Ends w (add w a).1 (some .notified)) {items : List α}
    (h : forEach add (if option.mergeCollection then w else clear w) items = (w', .ok ())) :
    Ends w w' (mergedMoment items.isEmpty option) := by
  have hitems := forEach_notified (fun w a w' hstep => by
    have hends := hadd w a
    rwa [hstep] at hends) h
  rw [mergedMoment]
  cases hmerge : option.mergeCollection with
  | true =>
      rw [hmerge] at hitems
      exact hitems
  | false =>
      rw [hmerge] at hitems
      have hends := (hclear w).trans hitems
      cases hempty : items.isEmpty with
      | true => rwa [hempty] at hends
      | false => rwa [hempty] at hends

theorem assignPlain_collection (hdst : Announces dst) (hoptional : dst.optional = none)
    (hprimitive : dst.isPrimitive = false) {f : CollectionItf (Watched V)}
    (hf : dst.collection = some f) (h : assignPlain lib dst w src option = (w', .ok ())) :
    Ends w w' (mergedMoment (src.asCollection.getD []).isEmpty option) := by
  rw [assignPlain, hoptional] at h
  simp only [hprimitive, Bool.false_eq_true, if_false, hf] at h
  split at h
  · next g elements hg hsrc =>
      obtain rfl := Option.some.inj hg
      rw [hsrc, Option.getD_some]
      refine assignItems_ends (fun w => (hdst.collection f hf w).1)
        (fun w => (hdst.collection f hf w).2.2) ?_
      rw [assignCollection] at h
      simp only [(hdst.collection f hf _).2.1] at h
      cases elements with
      | nil => exact h
      | cons value elements => exact h
  · cases h
  · next hnone => cases hnone

theorem assignPlain_dictionary (hdst : Announces dst) (hoptional : dst.optional = none)
    (hprimitive : dst.isPrimitive = false) (hcollection : dst.collection = none)
    (hreadonly : dst.readonlyCollection = none) (hobject : dst.object = none)
    {f : DictionaryItf (Watched V)} (hf : dst.dictionary = some f)
    {clear : Watched V → Watched V} (hclear : f.clear = some clear)
    (h : assignPlain lib dst w src option = (w', .ok ())) :
    Ends w w' (mergedMoment (src.asDictionary.getD []).isEmpty option) := by
  rw [assignPlain, hoptional] at h
  simp only [hprimitive, Bool.false_eq_true, if_false, hcollection, hreadonly, hobject, hf] at h
  split at h
  · next fields hsrc =>
      rw [hsrc, Option.getD_some]
      rw [assignDictionary, hclear] at h
      exact assignItems_ends (fun w => (hdst.dictionary f hf w).2 clear hclear)
        (fun w field => (hdst.dictionary f hf w).1 field.1 field.2) h
  · cases h

/-- Tuples, whose elements are assigned to in order. -/
theorem assignPlain_elements (hoptional : dst.optional = none)
    (hprimitive : dst.isPrimitive = false) (hcollection : dst.collection = none)
    (hobject : dst.object = none) (hdictionary : dst.dictionary = none) {n : ℕ}
    {f : ReadonlyCollectionItf (Watched V)} (hf : dst.readonlyCollection = some f)
    (hsize : ∀ w, f.getSize w = n) {last : ℕ → RuntimeValue → Option Moment}
    (hlast : ∀ w i value w', f.setAt w i value = (w', .ok ()) → Ends w w' (last i value))
    (h : assignPlain lib dst w src option = (w', .ok ())) :
    Ends w w' ((List.range n).filterMap fun i =>
      (src.asCollection.getD [])[i]?.bind (last i)).getLast? := by
  rw [assignPlain, hoptional] at h
  simp only [hprimitive, Bool.false_eq_true, if_false, hcollection, hobject, hdictionary, hf] at h
  split at h
  · next g elements hg hsrc =>
      obtain rfl := Option.some.inj hg
      rw [hsrc, Option.getD_some]
      rw [assignElements, hsize] at h
      refine forEach_ends (fun w i w' hstep => ?_) h
      split at hstep
      · next value hvalue =>
          rw [hvalue]
          exact hlast w i value w' hstep
      · next hvalue =>
          rw [hvalue]
          obtain rfl := (Prod.mk.inj hstep).1
          exact .refl w
  · cases h

/-- Objects, whose fields are assigned to in order, where the source has a value. -/
theorem assignPlain_object (hdst : Announces dst) (hoptional : dst.optional = none)
    (hprimitive : dst.isPrimitive = false) (hcollection : dst.collection = none)
    (hreadonly : dst.readonlyCollection = none) {n : ℕ} {key : ℕ → Text}
    {f : ObjectItf (Watched V)} (hf : dst.object = some f) (hsize : ∀ w, f.getSize w = n)
    (hkey : ∀ w i, f.getKey w i = key i) (h : assignPlain lib dst w src option = (w', .ok ())) :
    Ends w w' ((List.range n).filterMap fun i =>
      fieldMoment (src.asDictionary.getD []) (key i)).getLast? := by
  rw [assignPlain, hoptional] at h
  simp only [hprimitive, Bool.false_eq_true, if_false, hcollection, hreadonly, hf] at h
  split at h
  · next fields hsrc =>
      rw [hsrc, Option.getD_some]
      rw [assignObject, hsize] at h
      refine forEach_ends (fun w i w' hstep => ?_) h
      rw [fieldMoment]
      cases hlookup : fields.lookup (key i) with
      | some value =>
          simp only [hkey, hlookup] at hstep
          dsimp only
          split at hstep
          · next hnull =>
              rw [if_pos hnull]
              obtain rfl := (Prod.mk.inj hstep).1
              exact .refl w
          · next hnull =>
              rw [if_neg hnull]
              have hends := hdst.object f hf w (key i) value
              rwa [hstep] at hends
      | none =>
          simp only [hkey, hlookup] at hstep
          obtain rfl := (Prod.mk.inj hstep).1
          exact .refl w
  · cases h

/-- The references and the optionals around a source. -/
theorem assign_unwrapped {cleared : Option Moment}
    {plain : RuntimeValue → ValueAssignOption → Option Moment} (hdst : dst.valueRef = none)
    (hclear : ∀ {w w'}, clearDst dst w = (w', .ok ()) → Ends w w' cleared)
    (hplain : ∀ {src option w w'}, assignPlain lib dst w src option = (w', .ok ()) →
      Ends w w' (plain src option)) (h : assign lib dst w src option = (w', .ok ())) :
    Ends w w' (unwrapped cleared plain src option) := by
  rw [assign, hdst] at h
  dsimp only at h
  induction src using RuntimeValue.induct generalizing option with
  | nullptr => cases h
  | optional value ih | ref value ih =>
      rw [assignValue] at h
      rw [unwrapped]
      split at h
      · next hnull =>
          rw [if_pos hnull]
          exact hclear h
      · next hnull =>
          rw [if_neg hnull]
          exact ih h
  | _ => exact hplain h

theorem assignPlain_optional (hdst : Announces dst)
    {f : Watched V → RuntimeValue → Effect (Watched V)} (hf : dst.optional = some f)
    (h : assignPlain lib dst w src option = (w', .ok ())) : Ends w w' (some .notified) := by
  rw [assignPlain, hf] at h
  have hends := hdst.optional f hf w src
  dsimp only at h
  rwa [h] at hends

theorem clearDst_ends {t : NativeType} {w w' : Watched t.Val}
    (h : clearDst (wrapper lib t) w = (w', .ok ())) : Ends w w' (clearedMoment t) := by
  have hdst := wrapper_announces lib t
  cases t with
  | integer _ | boolean | float _ | pointer | tuple _ | uniformTuple _ _ | object _ _ =>
      obtain rfl := (Prod.mk.inj h).1
      exact .refl w
  | optional t =>
      obtain rfl := (Prod.mk.inj h).1
      exact hdst.optional _ rfl w _
  | string => exact hdst.string _ rfl w _ w' h
  | parsable parse _ => exact hdst.string _ rfl w _ w' h
  | vector t | list t | set t =>
      obtain rfl := (Prod.mk.inj h).1
      exact (hdst.collection _ rfl w).1
  | map t =>
      obtain rfl := (Prod.mk.inj h).1
      exact (hdst.dictionary _ rfl w).2 _ rfl

/-- **The end of an `assign`** that succeeds is the one that the type and the source say. -/
theorem assign_ends : ∀ {t : NativeType} {src : RuntimeValue} {option : ValueAssignOption}
    {w w' : Watched t.Val}, assign lib (wrapper lib t) w src option = (w', .ok ()) →
      Ends w w' (lastMoment t src option)
  | .pointer, src, option, w, w', h => by
      obtain rfl := (Prod.mk.inj h).1
      exact .write w src
  | .integer _, _, _, _, _, h =>
      assign_unwrapped rfl clearDst_ends
        (assignPlain_primitive (wrapper_announces lib _) rfl rfl) h
  | .boolean, _, _, _, _, h =>
      assign_unwrapped rfl clearDst_ends
        (assignPlain_primitive (wrapper_announces lib _) rfl rfl) h
  | .float _, _, _, _, _, h =>
      assign_unwrapped rfl clearDst_ends
        (assignPlain_primitive (wrapper_announces lib _) rfl rfl) h
  | .string, _, _, _, _, h =>
      assign_unwrapped rfl clearDst_ends
        (assignPlain_primitive (wrapper_announces lib _) rfl rfl) h
  | .parsable _ _, _, _, _, _, h =>
      assign_unwrapped rfl clearDst_ends
        (assignPlain_primitive (wrapper_announces lib _) rfl rfl) h
  | .optional _, _, _, _, _, h =>
      assign_unwrapped rfl clearDst_ends (assignPlain_optional (wrapper_announces lib _) rfl) h
  | .vector _, _, _, _, _, h =>
      assign_unwrapped rfl clearDst_ends
        (assignPlain_collection (wrapper_announces lib _) rfl rfl rfl) h
  | .list _, _, _, _, _, h =>
      assign_unwrapped rfl clearDst_ends
        (assignPlain_collection (wrapper_announces lib _) rfl rfl rfl) h
  | .set _, _, _, _, _, h =>
      assign_unwrapped rfl clearDst_ends
        (assignPlain_collection (wrapper_announces lib _) rfl rfl rfl) h
  | .map _, _, _, _, _, h =>
      assign_unwrapped rfl clearDst_ends
        (assignPlain_dictionary (wrapper_announces lib _) rfl rfl rfl rfl rfl rfl rfl) h
  | @NativeType.tuple n types, _, _, _, _, h => by
      have hlast : ∀ w i value w', setTupleAt lib (fun i => wrapper lib (types i)) w i value =
          (w', .ok ()) →
            Ends w w' (if h : i < n then lastMoment (types ⟨i, h⟩) value {} else none) :=
        fun w i value w' hset =>
          setTupleAt_last (fun _ _ _ _ => assign_ends) hset
      refine assign_unwrapped rfl clearDst_ends
        (assignPlain_elements rfl rfl rfl rfl rfl rfl (fun _ => rfl) ?_) h
      exact hlast
  | .uniformTuple _ _, _, _, _, _, h => by
      refine assign_unwrapped rfl clearDst_ends (assignPlain_elements rfl rfl rfl rfl rfl rfl
        (fun _ => rfl) (fun w i value w' hset => ?_)) h
      obtain rfl := (Prod.mk.inj hset).1
      exact .write w _
  | .object keys _, _, _, _, _, h =>
      assign_unwrapped rfl clearDst_ends
        (assignPlain_object (wrapper_announces lib _) rfl rfl rfl rfl rfl (fun _ => rfl)
          (fun _ _ => rfl)) h

end Assign

end MyEngine.Serialization.Events
