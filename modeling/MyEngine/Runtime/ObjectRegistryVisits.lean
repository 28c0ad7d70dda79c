import MyEngine.Runtime.ObjectRegistry
import MyEngine.Support.Keyed
import MyEngine.Support.Replace
import MyEngine.Support.Tally

/-!
# Runtime — ObjectRegistryVisits

What the visits of the registry report, hold and remove, over whole runs.

* `Visit.Reports`: what a visit has when it has gone through the entries.
* `Visit.Spares`: a removal that does not hide an entry from a visit that collects.
* `Inv`: the entries a visit has passed are reported as it owes them, and no others.
* `registry_sound`: the runs in which nothing is hidden from a visit.
-/

namespace MyEngine.Runtime.Registry

open Runs

variable {O Ty : Type} [DecidableEq O]

/-- The visit is in its loop. -/
def Visit.collects (v : Visit O Ty) : Bool :=
  match v.phase with
  | .collecting | .examining _ | .destroying => true
  | .reporting | .releasing                   => false

/-- How many entries the visit has passed. -/
def Visit.seen (v : Visit O Ty) : ℕ :=
  match v.phase with
  | .destroying => v.index + 1
  | _           => v.index

/-- The references to an object that the visit has to give back. -/
def Visit.holds (v : Visit O Ty) (o : O) : ℕ :=
  match v.phase with
  | .examining locked => v.instances.count o + if locked = o then 1 else 0
  | _                 => v.instances.count o

def State.held (objects : Objects O Ty) (s : State O Ty) (o : O) : ℕ :=
  if objects.refCounted o then tally (fun v => v.holds o) s.visits else 0

/-- The entry is one of the object. -/
def ObjectEntry.isOf (o : O) (e : ObjectEntry O) : Bool := e.object = o

/-- The visit owes the object a report for the entry. -/
def Visit.owes (v : Visit O Ty) (o : O) (e : ObjectEntry O) : Bool :=
  e.object = o && decide (e.objectId ∈ v.due)

/-! ### What is claimed of the registry -/

/-- Only registered objects of the type are reported; an object that is owed a report is reported
once for its registration.  One with several registrations is reported as often as it is owed, and
no more often than it is registered. -/
structure Visit.Reports (objects : Objects O Ty) (entries : List (ObjectEntry O))
    (v : Visit O Ty) : Prop where
  matching : ∀ o ∈ v.instances, objects.matches v.type o = true
  registered : ∀ o ∈ v.instances, ∃ e ∈ entries, e.object = o
  once : ∀ e ∈ entries, e.objectId ∈ v.due → entries.countP (ObjectEntry.isOf e.object) = 1 →
    v.instances.count e.object = 1
  least : ∀ o, entries.countP (v.owes o) ≤ v.instances.count o
  most : ∀ o, v.instances.count o ≤ entries.countP (ObjectEntry.isOf o)

/-- Ids tell the entries apart, each registration knows its own, references are an owner's or a
visit's, and a visit that has gone through the entries reports what it should. -/
structure State.Sound (objects : Objects O Ty) (s : State O Ty) : Prop where
  ids : (s.entries.map (·.objectId)).Nodup
  known : ∀ r ∈ s.registrations, ∀ e ∈ s.entries, e.objectId = r.objectId → e.object = r.object
  balanced : ∀ o, s.refs o = s.outside o + s.held objects o
  reports : ∀ v ∈ s.visits, v.phase = .collecting → s.entries.length ≤ v.index →
    v.Reports objects s.entries

/-- A visit that still collects loses nothing when the entry at `j` goes: it has not passed it, or
it does not hold its object and has passed the last entry, too, or owes it no report. -/
def Visit.Spares (v : Visit O Ty) (entries : List (ObjectEntry O)) (j : ℕ) : Prop :=
  v.collects = true → j < v.seen →
    (∀ e ∈ entries[j]?, e.object ∉ v.instances) ∧
      (v.seen < entries.length → ∀ e ∈ entries.getLast?, e.objectId ∉ v.due)

instance (v : Visit O Ty) (entries : List (ObjectEntry O)) (j : ℕ) :
    Decidable (v.Spares entries j) :=
  inferInstanceAs (Decidable (_ → _ → _ ∧ (_ → _)))

/-- The next id is one, and nothing has it. -/
def State.Fresh (s : State O Ty) : Prop :=
  s.objectId + 1 ≠ 0 ∧ (∀ e ∈ s.entries, e.objectId ≠ s.objectId + 1) ∧
    ∀ r ∈ s.registrations, r.objectId ≠ s.objectId + 1

instance (s : State O Ty) : Decidable s.Fresh := inferInstanceAs (Decidable (_ ∧ _ ∧ _))

/-- The visit that runs is not before an expired entry that the visits around it would miss. -/
def State.NextSpares (s : State O Ty) : List (Visit O Ty) → Prop
  | []         => True
  | v :: outer =>
      v.phase = .collecting → ∀ e ∈ s.entries[v.index]?, e.isWeak = true ∧ s.refs e.object = 0 →
        ∀ v' ∈ outer, v'.Spares s.entries v.index

instance (s : State O Ty) (visits : List (Visit O Ty)) : Decidable (s.NextSpares visits) :=
  match visits with
  | []         => inferInstanceAs (Decidable True)
  | v :: outer => inferInstanceAs (Decidable (v.phase = .collecting → ∀ e ∈ s.entries[v.index]?,
      e.isWeak = true ∧ s.refs e.object = 0 → ∀ v' ∈ outer, v'.Spares s.entries v.index))

/-- The ids do not come back, and no removal hides an entry from a visit: neither that of a
registration nor that of an expired entry by a visit within. -/
def Fits (s : State O Ty) : Action O Ty → Prop
  | .register _ _ => s.Fresh
  | .reset k      =>
      ∀ r ∈ s.registrations[k]?, r.objectId ≠ 0 →
        ∀ j ∈ s.entries.findIdx? fun e => e.objectId = r.objectId,
          ∀ v ∈ s.visits, v.Spares s.entries j
  | .next         => s.NextSpares s.visits
  | .take _ | .drop _ | .setAutoRemove _ | .visit _ => True

instance (s : State O Ty) (a : Action O Ty) : Decidable (Fits s a) :=
  match a with
  | .register _ _ => inferInstanceAs (Decidable s.Fresh)
  | .reset k      =>
      inferInstanceAs (Decidable (∀ r ∈ s.registrations[k]?, r.objectId ≠ 0 →
        ∀ j ∈ s.entries.findIdx? fun e => e.objectId = r.objectId,
          ∀ v ∈ s.visits, v.Spares s.entries j))
  | .next         => inferInstanceAs (Decidable (s.NextSpares s.visits))
  | .take _ | .drop _ | .setAutoRemove _ | .visit _ => inferInstanceAs (Decidable True)

/-! ### A visit and the entries -/

/-- What a visit has collected is what it owes for the entries it has passed, and none of it is of
others. -/
structure Visit.Collects (objects : Objects O Ty) (entries : List (ObjectEntry O))
    (v : Visit O Ty) : Prop where
  matching : ∀ o ∈ v.instances, objects.matches v.type o = true
  dueMatches : ∀ e ∈ entries, e.objectId ∈ v.due → objects.matches v.type e.object = true
  least : ∀ o, (entries.take v.seen).countP (v.owes o) ≤ v.instances.count o
  most : ∀ o, v.instances.count o ≤ (entries.take v.seen).countP (ObjectEntry.isOf o)
  examined : ∀ o, v.phase = .examining o → ∃ e, entries[v.index]? = some e ∧ e.object = o

section Entries
variable {objects : Objects O Ty} {entries : List (ObjectEntry O)} {v : Visit O Ty} {j : ℕ}

theorem Visit.Collects.reports (h : v.Collects objects entries) (hphase : v.phase = .collecting)
    (hle : entries.length ≤ v.index) : v.Reports objects entries := by
  have hseen : entries.take v.seen = entries := by
    rw [Visit.seen, hphase]
    exact List.take_of_length_le hle
  have hleast : ∀ o, entries.countP (v.owes o) ≤ v.instances.count o := fun o => hseen ▸ h.least o
  have hmost : ∀ o, v.instances.count o ≤ entries.countP (ObjectEntry.isOf o) := fun o =>
    hseen ▸ h.most o
  refine ⟨h.matching, fun o ho => ?_, fun e he hdue hone => ?_, hleast, hmost⟩
  · have hpos := Nat.lt_of_lt_of_le (List.count_pos_iff.2 ho) (hmost o)
    obtain ⟨e, he, hof⟩ := List.countP_pos_iff.1 hpos
    exact ⟨e, he, of_decide_eq_true hof⟩
  · have howes : v.owes e.object e = true := by
      rw [Visit.owes, decide_eq_true rfl, decide_eq_true hdue]
      rfl
    have hpos := Nat.lt_of_lt_of_le (List.countP_pos_iff.2 ⟨e, he, howes⟩) (hleast e.object)
    have hle := hmost e.object
    omega

/-- Less is owed. -/
theorem Visit.Collects.owe (h : v.Collects objects entries) {due : List UInt64}
    (hdue : ∀ id ∈ due, id ∈ v.due) : { v with due := due }.Collects objects entries where
  matching := h.matching
  dueMatches e he hid := h.dueMatches e he (hdue _ hid)
  least o := by
    refine Nat.le_trans (List.countP_mono_left fun e _ howes => ?_) (h.least o)
    simp only [Visit.owes, Bool.and_eq_true, decide_eq_true_eq] at howes ⊢
    exact ⟨howes.1, hdue _ howes.2⟩
  most := h.most
  examined := h.examined

/-- An entry goes. -/
theorem Visit.Collects.remove (h : v.Collects objects entries)
    (hphase : ∀ o, v.phase ≠ .examining o) {e : ObjectEntry O} (he : entries[j]? = some e)
    (hspares : j < v.seen → e.object ∉ v.instances ∧
      (v.seen < entries.length → ∀ e ∈ entries.getLast?, e.objectId ∉ v.due)) :
    v.Collects objects (fastRemoveObjectAt entries j) where
  matching := h.matching
  dueMatches e' he' hid := by
    refine h.dueMatches e' ?_ hid
    exact (perm_fastRemoveObjectAt he).subset (List.mem_cons_of_mem _ he')
  least o := by
    by_cases hj : j < v.seen
    -- what comes to the front is not owed
    · refine Nat.le_trans (countP_take_ge he fun hlt e' he' => ?_) (h.least o)
      simp only [Visit.owes, (hspares hj).2 hlt e' he', decide_false, Bool.and_false]
    · rw [take_fastRemoveObjectAt he (Nat.le_of_not_lt hj)]
      exact h.least o
  most o := by
    by_cases hj : j < v.seen
    · by_cases heq : e.object = o
      · -- the object is not held
        rw [List.count_eq_zero_of_not_mem (heq ▸ (hspares hj).1)]
        exact Nat.zero_le _
      · refine Nat.le_trans (h.most o) (countP_take_le he ?_ _)
        simp only [ObjectEntry.isOf, heq, decide_false]
    · rw [take_fastRemoveObjectAt he (Nat.le_of_not_lt hj)]
      exact h.most o
  examined o ho := absurd ho (hphase o)

/-- An entry comes that is not owed. -/
theorem Visit.Collects.append (h : v.Collects objects entries) {e : ObjectEntry O}
    (hid : e.objectId ∉ v.due) : v.Collects objects (entries ++ [e]) where
  matching := h.matching
  dueMatches e' he' hdue := by
    rcases List.mem_append.1 he' with he' | he'
    · exact h.dueMatches e' he' hdue
    · obtain rfl := List.mem_singleton.1 he'
      exact absurd hdue hid
  least o := by
    rw [List.take_append, List.countP_append]
    have hnone : ([e].take (v.seen - entries.length)).countP (v.owes o) = 0 := by
      rw [List.countP_eq_zero]
      intro e' he'
      rw [List.mem_singleton.1 (List.mem_of_mem_take he')]
      simp only [Visit.owes, hid, decide_false, Bool.and_false, Bool.false_eq_true,
        not_false_eq_true]
    rw [hnone]
    exact h.least o
  most o := by
    rw [List.take_append, List.countP_append]
    exact Nat.le_trans (h.most o) (Nat.le_add_right _ _)
  examined o ho := by
    obtain ⟨e', he', rfl⟩ := h.examined o ho
    exact ⟨e', getElem?_concat_of_some he' e, rfl⟩

/-- The entries up to and with the one that is examined. -/
theorem Visit.Collects.take_succ (h : v.Collects objects entries) {o : O}
    (hphase : v.phase = .examining o) :
    ∃ e ∈ entries, e.object = o ∧ v.seen = v.index ∧
      entries.take (v.index + 1) = entries.take v.index ++ [e] := by
  obtain ⟨e, he, heq⟩ := h.examined o hphase
  refine ⟨e, List.mem_of_getElem? he, heq, by rw [Visit.seen, hphase], ?_⟩
  rw [List.take_succ, he, Option.toList_some]

/-- The visit keeps the instance. -/
theorem Visit.Collects.push (h : v.Collects objects entries) {o : O}
    (hphase : v.phase = .examining o) (hmatches : objects.matches v.type o = true) :
    { v with
      instances := v.instances ++ [o]
      index := v.index + 1
      phase := .collecting }.Collects objects entries := by
  obtain ⟨e, -, rfl, hseen, htake⟩ := h.take_succ hphase
  have hleast := h.least
  have hmost := h.most
  rw [hseen] at hleast hmost
  constructor
  case matching =>
    intro o ho
    rcases List.mem_append.1 ho with ho | ho
    · exact h.matching o ho
    · rwa [List.mem_singleton.1 ho]
  case dueMatches => exact h.dueMatches
  case least =>
    intro o
    change (entries.take (v.index + 1)).countP (v.owes o) ≤ (v.instances ++ [e.object]).count o
    rw [htake, List.countP_append, List.count_append]
    refine Nat.add_le_add (hleast o) ?_
    rw [List.countP_singleton, List.count_singleton]
    by_cases heq : e.object = o
    · simp only [heq, beq_self_eq_true, if_true]
      split <;> omega
    · simp only [Visit.owes, heq, decide_false, Bool.false_and, Bool.false_eq_true, if_false,
        Nat.zero_le]
  case most =>
    intro o
    change (v.instances ++ [e.object]).count o ≤
      (entries.take (v.index + 1)).countP (ObjectEntry.isOf o)
    rw [htake, List.countP_append, List.count_append]
    refine Nat.add_le_add (hmost o) ?_
    rw [List.countP_singleton, List.count_singleton, ObjectEntry.isOf]
    by_cases heq : e.object = o
    · simp only [heq, beq_self_eq_true, decide_true, if_true, Nat.le_refl]
    · simp only [beq_iff_eq, heq, decide_false, Bool.false_eq_true, if_false, Nat.le_refl]
  case examined =>
    intro o ho
    cases ho

/-- The visit has passed an entry of another type: nothing is owed for it. -/
theorem Visit.Collects.pass (h : v.Collects objects entries) {o : O}
    (hphase : v.phase = .examining o) (hmatches : objects.matches v.type o ≠ true) :
    { v with index := v.index + 1, phase := .collecting }.Collects objects entries ∧
      { v with phase := .destroying }.Collects objects entries := by
  obtain ⟨e, he, rfl, hseen, htake⟩ := h.take_succ hphase
  have hleast : ∀ o, (entries.take (v.index + 1)).countP (v.owes o) ≤ v.instances.count o := by
    intro o
    have hnot : v.owes o e = false := by
      rw [Visit.owes, Bool.and_eq_false_imp]
      intro _
      exact decide_eq_false fun hdue => hmatches (h.dueMatches e he hdue)
    rw [htake, List.countP_append, List.countP_singleton, hnot, ← hseen]
    exact h.least o
  have hmost : ∀ o, v.instances.count o ≤
      (entries.take (v.index + 1)).countP (ObjectEntry.isOf o) := by
    intro o
    rw [htake, List.countP_append, ← hseen]
    exact Nat.le_trans (h.most o) (Nat.le_add_right _ _)
  exact ⟨⟨h.matching, h.dueMatches, hleast, hmost, fun o ho => by cases ho⟩,
    ⟨h.matching, h.dueMatches, hleast, hmost, fun o ho => by cases ho⟩⟩

/-- The destructor is done. -/
theorem Visit.Collects.advance (h : v.Collects objects entries) (hphase : v.phase = .destroying) :
    { v with index := v.index + 1, phase := .collecting }.Collects objects entries := by
  have hseen : v.seen = v.index + 1 := by rw [Visit.seen, hphase]
  refine ⟨h.matching, h.dueMatches, fun o => ?_, fun o => ?_, fun o ho => by cases ho⟩
  · exact hseen ▸ h.least o
  · exact hseen ▸ h.most o

/-- The instance of an entry is locked. -/
theorem Visit.Collects.lock (h : v.Collects objects entries) (hphase : v.phase = .collecting)
    {e : ObjectEntry O} (he : entries[v.index]? = some e) :
    { v with phase := .examining e.object }.Collects objects entries := by
  have hseen : v.seen = v.index := by rw [Visit.seen, hphase]
  refine ⟨h.matching, h.dueMatches, fun o => ?_, fun o => ?_, fun o ho => ?_⟩
  · exact hseen ▸ h.least o
  · exact hseen ▸ h.most o
  · cases ho
    exact ⟨e, he, rfl⟩

end Entries

/-! ### The invariant -/

structure Inv (objects : Objects O Ty) (s : State O Ty) : Prop where
  ids : (s.entries.map (·.objectId)).Nodup
  numbered : ∀ e ∈ s.entries, e.objectId ≠ 0
  known : ∀ r ∈ s.registrations, ∀ e ∈ s.entries, e.objectId = r.objectId → e.object = r.object
  balanced : ∀ o, s.refs o = s.outside o + s.held objects o
  collects : ∀ v ∈ s.visits, v.collects = true → v.Collects objects s.entries
  outer : ∀ v ∈ s.visits.tail, v.calling = true

/-- A report is owed for entries only. -/
def State.Owed (s : State O Ty) : Prop :=
  ∀ v ∈ s.visits, ∀ id ∈ v.due, ∃ e ∈ s.entries, e.objectId = id

theorem inv_initial (objects : Objects O Ty) (outside : O → ℕ) :
    Inv objects (initial outside : State O Ty) where
  ids := .nil
  numbered e he := by cases he
  known r hr := by cases hr
  balanced o := by simp [initial, State.held]
  collects v hv := by cases hv
  outer v hv := by cases hv

theorem calling_not_examining {v : Visit O Ty} (h : v.calling = true) (o : O) :
    v.phase ≠ .examining o := by
  intro hphase
  rw [Visit.calling, hphase] at h
  cases h

section Steps
variable {objects : Objects O Ty} {s s' : State O Ty} {v : Visit O Ty} {outer : List (Visit O Ty)}

/-- After each step a visit owes what it has owed as far as it is registered and alive. -/
theorem mem_prune {v' : Visit O Ty} (h : v' ∈ s.prune.visits) :
    ∃ v ∈ s.visits, v' = { v with due := v'.due } ∧
      ∀ id, id ∈ v'.due ↔ id ∈ v.due ∧ ∃ e ∈ s.entries, e.objectId = id ∧ 0 < s.refs e.object := by
  obtain ⟨v, hv, rfl⟩ := List.mem_map.1 h
  refine ⟨v, hv, rfl, fun id => ?_⟩
  simp only [List.mem_filter, List.any_eq_true, Bool.and_eq_true, decide_eq_true_eq]

theorem owed_prune (s : State O Ty) : s.prune.Owed := by
  intro v' hv' id hid
  obtain ⟨v, -, -, hdue⟩ := mem_prune hv'
  obtain ⟨-, e, he, heq, -⟩ := (hdue id).1 hid
  exact ⟨e, he, heq⟩

theorem held_prune (s : State O Ty) (o : O) : s.prune.held objects o = s.held objects o := by
  simp only [State.held, State.prune, tally, List.map_map]
  rfl

theorem Inv.prune (h : Inv objects s) : Inv objects s.prune where
  ids := h.ids
  numbered := h.numbered
  known := h.known
  balanced o := by
    rw [held_prune]
    exact h.balanced o
  collects v' hv' hcollects := by
    obtain ⟨v, hv, heq, hdue⟩ := mem_prune hv'
    rw [heq] at hcollects ⊢
    exact (h.collects v hv hcollects).owe fun id hid => ((hdue id).1 hid).1
  outer v hv := by
    rw [State.prune, ← List.map_tail] at hv
    obtain ⟨v, hmem, rfl⟩ := List.mem_map.1 hv
    exact h.outer v hmem

/-- No visit is before an entry or holding its instance when the registry is entered. -/
theorem Inv.calling (h : Inv objects s) (hentered : s.entered = true) :
    ∀ v ∈ s.visits, v.calling = true := by
  intro v hv
  cases hvisits : s.visits with
  | nil =>
      rw [hvisits] at hv
      cases hv
  | cons top outer =>
      rw [State.entered, hvisits] at hentered
      rw [hvisits] at hv
      rcases List.mem_cons.1 hv with rfl | hv
      · exact hentered
      · exact h.outer v (by rwa [hvisits])

/-- A new id. -/
theorem Inv.addObject (h : Inv objects s) (howed : s.Owed) (hfresh : s.Fresh) (o : O)
    (isWeak : Bool) : Inv objects (s.addObject o isWeak) where
  ids := by
    rw [State.addObject, List.map_append, List.nodup_append]
    refine ⟨h.ids, List.nodup_singleton _, fun id hid id' hid' => ?_⟩
    obtain ⟨e, he, rfl⟩ := List.mem_map.1 hid
    rw [List.mem_singleton.1 hid']
    exact hfresh.2.1 e he
  numbered e he := by
    rcases List.mem_append.1 he with he | he
    · exact h.numbered e he
    · rw [List.mem_singleton.1 he]
      exact hfresh.1
  known r hr e he hid := by
    rcases List.mem_append.1 hr with hr | hr
    · rcases List.mem_append.1 he with he | he
      · exact h.known r hr e he hid
      · rw [List.mem_singleton.1 he] at hid
        exact absurd hid.symm (hfresh.2.2 r hr)
    · rw [List.mem_singleton.1 hr] at hid ⊢
      rcases List.mem_append.1 he with he | he
      · exact absurd hid (hfresh.2.1 e he)
      · rw [List.mem_singleton.1 he]
  balanced := h.balanced
  collects v hv hcollects := by
    refine (h.collects v hv hcollects).append fun hdue => ?_
    -- an id that is owed is in use
    obtain ⟨e, he, hid⟩ := howed v hv _ hdue
    exact hfresh.2.1 e he hid
  outer := h.outer

/-- An entry goes that no visit misses. -/
theorem Inv.remove (h : Inv objects s) {j : ℕ} {e : ObjectEntry O} (he : s.entries[j]? = some e)
    (hphase : ∀ v ∈ s.visits, ∀ o, v.phase ≠ .examining o)
    (hspares : ∀ v ∈ s.visits, v.Spares s.entries j) :
    Inv objects { s with entries := fastRemoveObjectAt s.entries j } := by
  have hperm := perm_fastRemoveObjectAt he
  have hsub : ∀ e' ∈ fastRemoveObjectAt s.entries j, e' ∈ s.entries := fun e' he' =>
    hperm.subset (List.mem_cons_of_mem _ he')
  exact {
    ids := ((hperm.map (·.objectId)).nodup_iff.2 h.ids).of_cons
    numbered := fun e' he' => h.numbered e' (hsub e' he')
    known := fun r hr e' he' => h.known r hr e' (hsub e' he')
    balanced := h.balanced
    collects := fun v hv hcollects => by
      refine (h.collects v hv hcollects).remove (hphase v hv) he fun hlt => ?_
      obtain ⟨hheld, hlast⟩ := hspares v hv hcollects hlt
      exact ⟨hheld e he, hlast⟩
    outer := h.outer }

/-- A registration lets go of its id. -/
theorem Inv.forget (h : Inv objects s) (k : ℕ) (r : Registration O) :
    Inv objects (s.forget k r) :=
  { h with
    known := fun r' hr' e he hid => by
      rcases List.mem_or_eq_of_mem_set hr' with hr' | rfl
      · exact h.known r' hr' e he hid
      · exact absurd hid (h.numbered e he) }

omit [DecidableEq O] in
theorem getElem?_findIdx? {id : UInt64} {j : ℕ}
    (h : s.entries.findIdx? (fun e => e.objectId = id) = some j) :
    ∃ e, s.entries[j]? = some e ∧ e.objectId = id := by
  obtain ⟨hlt, hid, -⟩ := List.findIdx?_eq_some_iff_getElem.1 h
  exact ⟨_, List.getElem?_eq_getElem hlt, by simpa using hid⟩

theorem Inv.reset (h : Inv objects s) (hentered : s.entered = true) {k : ℕ} {r : Registration O}
    (hr : s.registrations[k]? = some r) (hfits : Fits s (.reset k : Action O Ty)) :
    Inv objects (s.reset k r) := by
  rw [State.reset]
  split
  · exact h
  · next hid =>
      rw [State.removeObject]
      split
      · next j hj =>
          obtain ⟨e, he, -⟩ := getElem?_findIdx? (s := s.forget k r) hj
          refine (h.forget k r).remove he (fun v hv => ?_) fun v hv => hfits r hr hid j hj v hv
          exact calling_not_examining (h.calling hentered v hv)
      · exact h.forget k r

/-- A visit that begins has passed nothing. -/
theorem Inv.visitObjects (h : Inv objects s) (hentered : s.entered = true) (type : Option Ty) :
    Inv objects (s.visitObjects objects type) := by
  rw [State.visitObjects]
  split
  · exact h
  · refine { h with balanced := fun o => ?_, collects := fun v hv hcollects => ?_, outer := ?_ }
    · simp only [State.held, tally_cons, Visit.holds, List.count_nil, Nat.zero_add]
      exact h.balanced o
    · rcases List.mem_cons.1 hv with rfl | hv
      · refine ⟨by simp, fun e he hid => ?_, fun o => Nat.zero_le _, fun o => Nat.zero_le _, ?_⟩
        · obtain ⟨e', he', hid'⟩ := List.mem_map.1 hid
          obtain ⟨hmem, hdue⟩ := List.mem_filter.1 he'
          obtain rfl := Support.key_inj h.ids hmem he hid'
          exact (Bool.and_eq_true_iff.1 hdue).1
        · intro o ho
          cases ho
      · exact h.collects v hv hcollects
    · exact h.calling hentered

/-- The visit that runs moves, with the references it has taken or given back. -/
theorem Inv.move (h : Inv objects s) (hvisits : s.visits = v :: outer) (v' : Visit O Ty)
    (refs : O → ℕ)
    (hrefs : ∀ o, refs o + (if objects.refCounted o then v.holds o else 0) =
      s.refs o + if objects.refCounted o then v'.holds o else 0)
    (hcollects : v'.collects = true → v'.Collects objects s.entries) :
    Inv objects { s with refs := refs, visits := v' :: outer } where
  ids := h.ids
  numbered := h.numbered
  known := h.known
  balanced o := by
    have hbalanced := h.balanced o
    have hmoved := hrefs o
    simp only [State.held, hvisits, tally_cons] at hbalanced ⊢
    by_cases hcounted : objects.refCounted o = true
    · simp only [hcounted, if_true] at hbalanced hmoved ⊢
      omega
    · simp only [hcounted, Bool.false_eq_true, if_false] at hbalanced hmoved ⊢
      omega
  collects w hw := by
    rcases List.mem_cons.1 hw with rfl | hw
    · exact hcollects
    · exact h.collects w (by rw [hvisits]; exact List.mem_cons_of_mem _ hw)
  outer w hw := h.outer w (by rwa [hvisits])

theorem refs_addRef (o o' : O) : (s.addRef objects o).refs o' =
    s.refs o' + if objects.refCounted o = true ∧ o' = o then 1 else 0 := by
  by_cases hcounted : objects.refCounted o
  · by_cases heq : o' = o
    · subst heq
      simp [State.addRef, hcounted]
    · simp [State.addRef, hcounted, heq]
  · simp [State.addRef, hcounted]

theorem refs_releaseRef (o o' : O) : (s.releaseRef objects o).refs o' =
    s.refs o' - if objects.refCounted o = true ∧ o' = o then 1 else 0 := by
  by_cases hcounted : objects.refCounted o
  · by_cases heq : o' = o
    · subst heq
      simp [State.releaseRef, hcounted]
    · simp [State.releaseRef, hcounted, heq]
  · simp [State.releaseRef, hcounted]

theorem addRef_goto (o : O) (v : Visit O Ty) (outer : List (Visit O Ty)) :
    (s.addRef objects o).goto v outer =
      { s with refs := (s.addRef objects o).refs, visits := v :: outer } := by
  rw [State.addRef]
  split <;> rfl

theorem releaseRef_goto (o : O) (v : Visit O Ty) (outer : List (Visit O Ty)) :
    (s.releaseRef objects o).goto v outer =
      { s with refs := (s.releaseRef objects o).refs, visits := v :: outer } := by
  rw [State.releaseRef]
  split <;> rfl

/-- The visit goes on with the references that it has. -/
theorem Inv.goto (h : Inv objects s) (hvisits : s.visits = v :: outer) {v' : Visit O Ty}
    (hholds : ∀ o, v'.holds o = v.holds o)
    (hcollects : v'.collects = true → v'.Collects objects s.entries) :
    Inv objects (s.goto v' outer) :=
  h.move hvisits v' s.refs (fun o => by rw [hholds o]) hcollects

/-- A visit has all the references that it has to give back. -/
theorem Inv.holds_le (h : Inv objects s) (hvisits : s.visits = v :: outer) {o : O}
    (hcounted : objects.refCounted o = true) : v.holds o ≤ s.refs o := by
  have hbalanced := h.balanced o
  simp only [State.held, hvisits, tally_cons, hcounted, if_true] at hbalanced
  omega

/-- The visit gives a reference back. -/
theorem Inv.release (h : Inv objects s) (hvisits : s.visits = v :: outer) {v' : Visit O Ty} {o : O}
    (hholds : ∀ o', v.holds o' = v'.holds o' + if o = o' then 1 else 0)
    (hcollects : v'.collects = true → v'.Collects objects s.entries) :
    Inv objects ((s.releaseRef objects o).goto v' outer) := by
  rw [releaseRef_goto]
  refine h.move hvisits v' _ (fun o' => ?_) hcollects
  rw [refs_releaseRef, hholds o']
  by_cases hcounted : objects.refCounted o' = true
  · have hle := h.holds_le hvisits hcounted
    rw [hholds o'] at hle
    by_cases heq : o' = o
    · subst heq
      simp only [hcounted, and_self, if_true] at hle ⊢
      omega
    · simp only [hcounted, heq, and_false, if_true, if_false, Ne.symm heq]
      omega
  · have hnot : ¬ (objects.refCounted o = true ∧ o' = o) := by
      rintro ⟨hcounted', rfl⟩
      exact hcounted hcounted'
    simp only [hcounted, hnot, if_false, Nat.sub_zero, Bool.false_eq_true]

/-- One operation of the visit that runs. -/
theorem Inv.next (h : Inv objects s) (hvisits : s.visits = v :: outer)
    (hfits : Fits s (.next : Action O Ty)) : Inv objects (s.next objects v outer) := by
  have hmem : v ∈ s.visits := by
    rw [hvisits]
    exact List.mem_cons_self
  have hthis := h.collects v hmem
  cases hphase : v.phase with
  | collecting =>
      have hcollects : v.Collects objects s.entries := hthis (by rw [Visit.collects, hphase])
      simp only [State.next, hphase]
      cases he : s.entries[v.index]? with
      | none =>
          have hholds : ∀ o, v.holds o = v.instances.count o := by
            intro o
            rw [Visit.holds, hphase]
          by_cases hnil : v.instances = []
          · simp only [if_pos hnil]
            exact h.goto hvisits (fun o => (hholds o).symm) fun hcol => by cases hcol
          · simp only [if_neg hnil]
            exact h.goto hvisits (fun o => (hholds o).symm) fun hcol => by cases hcol
      | some e =>
          by_cases hexpired : e.isWeak = true ∧ s.refs e.object = 0
          · simp only [if_pos hexpired]
            refine h.remove he (fun w hw o => ?_) fun w hw hcol hlt => ?_
            · rw [hvisits] at hw
              rcases List.mem_cons.1 hw with rfl | hw
              · rw [hphase]
                simp
              · exact calling_not_examining (h.outer w (by rwa [hvisits])) o
            · rw [hvisits] at hw
              rcases List.mem_cons.1 hw with rfl | hw
              -- the visit itself has not passed the entry, and stays where it is
              · rw [Visit.seen, hphase] at hlt
                exact absurd hlt (Nat.lt_irrefl _)
              · rw [Fits, hvisits] at hfits
                exact hfits hphase e he hexpired w hw hcol hlt
          · simp only [if_neg hexpired]
            rw [addRef_goto]
            refine h.move hvisits _ _ (fun o => ?_) fun _ => hcollects.lock hphase he
            rw [refs_addRef]
            simp only [Visit.holds, hphase]
            by_cases heq : e.object = o
            · subst heq
              by_cases hcounted : objects.refCounted e.object = true
              · simp only [hcounted, and_self, if_true]
                omega
              · simp only [hcounted, and_true, Bool.false_eq_true, if_false]
            · simp only [heq, Ne.symm heq, and_false, if_false, Nat.add_zero]
  | examining o =>
      have hcollects : v.Collects objects s.entries := hthis (by rw [Visit.collects, hphase])
      simp only [State.next, hphase]
      by_cases hmatches : objects.matches v.type o = true
      · simp only [if_pos hmatches]
        refine h.goto hvisits (fun o' => ?_) fun _ => hcollects.push hphase hmatches
        simp only [Visit.holds, hphase, List.count_append, List.count_singleton, beq_iff_eq]
      · simp only [if_neg hmatches]
        have hholds : ∀ o', v.holds o' = v.instances.count o' + if o = o' then 1 else 0 := by
          intro o'
          rw [Visit.holds, hphase]
        split
        · exact h.release hvisits hholds fun _ => (hcollects.pass hphase hmatches).2
        · exact h.release hvisits hholds fun _ => (hcollects.pass hphase hmatches).1
  | destroying =>
      have hcollects : v.Collects objects s.entries := hthis (by rw [Visit.collects, hphase])
      simp only [State.next, hphase]
      refine h.goto hvisits (fun o => ?_) fun _ => hcollects.advance hphase
      rw [Visit.holds, Visit.holds, hphase]
  | reporting =>
      simp only [State.next, hphase]
      refine h.goto hvisits (fun o => ?_) fun hcol => ?_
      · rw [Visit.holds, Visit.holds, hphase]
      · cases hcol
  | releasing =>
      simp only [State.next, hphase]
      cases hinstances : v.instances with
      | nil =>
          -- nothing is left to give back when the visit ends
          have hnone : ∀ o, v.holds o = 0 := by
            intro o
            rw [Visit.holds, hphase, hinstances]
            rfl
          refine { h with balanced := fun o => ?_, collects := fun w hw => ?_, outer := ?_ }
          · have hbalanced := h.balanced o
            simp only [State.held, hvisits, tally_cons, hnone, Nat.zero_add] at hbalanced ⊢
            exact hbalanced
          · exact h.collects w (by rw [hvisits]; exact List.mem_cons_of_mem _ hw)
          · exact fun w hw => h.outer w (by rw [hvisits]; exact List.mem_of_mem_tail hw)
      | cons o instances =>
          refine h.release hvisits (fun o' => ?_) fun hcol => ?_
          · simp only [Visit.holds, hphase, hinstances, List.count_cons, beq_iff_eq]
          · cases hcol

theorem Inv.act {a : Action O Ty} (h : Inv objects s) (howed : s.Owed) (hfits : Fits s a)
    (hs : act objects s a = some s') : Inv objects s' := by
  cases a with
  | take o =>
      obtain ⟨⟨hcounted, -⟩, hs⟩ := Option.ite_none_right_eq_some.1 hs
      obtain rfl := Option.some.inj hs
      rw [State.addRef, if_pos hcounted]
      refine { h with balanced := fun o' => ?_ }
      have hbalanced := h.balanced o'
      simp only [State.held] at hbalanced ⊢
      split
      · next heq =>
          subst heq
          omega
      · exact hbalanced
  | drop o =>
      obtain ⟨hpos, hs⟩ := Option.ite_none_right_eq_some.1 hs
      obtain rfl := Option.some.inj hs
      refine { h with balanced := fun o' => ?_ }
      have hbalanced := h.balanced o'
      simp only [State.held] at hbalanced ⊢
      split
      · next heq =>
          subst heq
          omega
      · exact hbalanced
  | register o isWeak =>
      obtain ⟨-, hs⟩ := Option.ite_none_right_eq_some.1 hs
      obtain rfl := Option.some.inj hs
      exact h.addObject howed hfits o isWeak
  | reset k =>
      obtain ⟨hentered, hs⟩ := Option.ite_none_right_eq_some.1 hs
      obtain ⟨r, hr, rfl⟩ := Option.map_eq_some_iff.1 hs
      exact h.reset hentered hr hfits
  | setAutoRemove k =>
      obtain ⟨-, hs⟩ := Option.ite_none_right_eq_some.1 hs
      obtain ⟨r, -, rfl⟩ := Option.map_eq_some_iff.1 hs
      rw [State.setAutoRemove]
      split
      · exact h.forget k r
      · exact h
  | visit type =>
      obtain ⟨hentered, hs⟩ := Option.ite_none_right_eq_some.1 hs
      obtain rfl := Option.some.inj hs
      exact h.visitObjects hentered type
  | next =>
      cases hvisits : s.visits with
      | nil => simp only [Registry.act, hvisits, reduceCtorEq] at hs
      | cons v outer =>
          simp only [Registry.act, hvisits, Option.some.injEq] at hs
          exact hs ▸ h.next hvisits hfits

/-- Every step keeps the invariant. -/
theorem Inv.step {a : Action O Ty} (h : Inv objects s ∧ s.Owed) (hfits : Fits s a)
    (hs : step objects s a = some s') : Inv objects s' ∧ s'.Owed := by
  obtain ⟨s₁, hact, rfl⟩ := Option.map_eq_some_iff.1 hs
  exact ⟨(h.1.act h.2 hfits hact).prune, owed_prune s₁⟩

theorem Inv.sound (h : Inv objects s) : s.Sound objects where
  ids := h.ids
  known := h.known
  balanced := h.balanced
  reports v hv hphase hle :=
    (h.collects v hv (by rw [Visit.collects, hphase])).reports hphase hle

/-- A reset removes the entry of its registration, and no other. -/
theorem Inv.entries_reset (h : Inv objects s) (k : ℕ) (r : Registration O) :
    (s.reset k r).entries.Perm (s.entries.filter fun e => e.objectId ≠ r.objectId) := by
  have hall : (∀ e ∈ s.entries, e.objectId ≠ r.objectId) →
      s.entries.filter (fun e => e.objectId ≠ r.objectId) = s.entries := by
    intro hne
    exact List.filter_eq_self.2 fun e he => decide_eq_true (hne e he)
  rw [State.reset]
  split
  · next hid => rw [hall fun e he => hid ▸ h.numbered e he]
  · rw [State.removeObject]
    split
    · next j hj =>
        obtain ⟨e, he, hid⟩ := getElem?_findIdx? (s := s.forget k r) hj
        have hperm := perm_fastRemoveObjectAt (l := s.entries) he
        have hids := (hperm.map (·.objectId)).nodup_iff.2 h.ids
        rw [List.map_cons, List.nodup_cons] at hids
        refine .trans ?_ (hperm.filter _)
        have hothers : ∀ e' ∈ fastRemoveObjectAt s.entries j, e'.objectId ≠ r.objectId := by
          intro e' he' heq
          refine hids.1 ?_
          rw [hid, ← heq]
          exact List.mem_map_of_mem he'
        rw [List.filter_cons_of_neg (by simp [hid]),
          List.filter_eq_self.2 fun e' he' => decide_eq_true (hothers e' he')]
        exact .refl _
    · next hnone =>
        rw [hall fun e he heq => ?_]
        · exact .refl _
        · have hfalse := List.findIdx?_eq_none_iff.1 hnone e he
          rw [heq] at hfalse
          simp at hfalse

/-- A visit removes nothing but an expired entry. -/
theorem entries_next (s : State O Ty) (v : Visit O Ty) (outer : List (Visit O Ty)) :
    (∀ e ∈ (s.next objects v outer).entries, e ∈ s.entries) ∧
      ∀ e ∈ s.entries, e ∈ (s.next objects v outer).entries ∨
        e.isWeak = true ∧ s.refs e.object = 0 := by
  have hsame : ∀ s' : State O Ty, s'.entries = s.entries → (∀ e ∈ s'.entries, e ∈ s.entries) ∧
      ∀ e ∈ s.entries, e ∈ s'.entries ∨ e.isWeak = true ∧ s.refs e.object = 0 := by
    intro s' hentries
    rw [hentries]
    exact ⟨fun e he => he, fun e he => .inl he⟩
  cases hphase : v.phase with
  | collecting =>
      simp only [State.next, hphase]
      cases he : s.entries[v.index]? with
      | none => exact hsame _ rfl
      | some e =>
          by_cases hexpired : e.isWeak = true ∧ s.refs e.object = 0
          · simp only [if_pos hexpired]
            have hperm := perm_fastRemoveObjectAt he
            refine ⟨fun e' he' => hperm.subset (List.mem_cons_of_mem _ he'), fun e' he' => ?_⟩
            rcases List.mem_cons.1 (hperm.symm.subset he') with rfl | he'
            · exact .inr hexpired
            · exact .inl he'
          · simp only [if_neg hexpired]
            exact hsame _ (by rw [addRef_goto])
  | examining o =>
      simp only [State.next, hphase]
      split
      · exact hsame _ rfl
      · split
        · exact hsame _ (by rw [releaseRef_goto])
        · exact hsame _ (by rw [releaseRef_goto])
  | destroying | reporting =>
      simp only [State.next, hphase]
      exact hsame _ rfl
  | releasing =>
      simp only [State.next, hphase]
      split
      · exact hsame _ rfl
      · exact hsame _ (by rw [releaseRef_goto])

end Steps

/-- **The registry.**  In every run in which no id comes back and no removal hides an entry from a
visit that collects, the registry is sound; a reset removes the entry of its registration and no
other; and a visit removes nothing but expired entries. -/
theorem registry_sound (objects : Objects O Ty) (outside : O → ℕ) {s : State O Ty}
    (h : Steps (step objects) Fits (initial outside) s) :
    s.Sound objects ∧
      (∀ k r s', s.registrations[k]? = some r → step objects s (.reset k) = some s' →
        s'.entries.Perm (s.entries.filter fun e => e.objectId ≠ r.objectId)) ∧
      ∀ s', step objects s .next = some s' →
        (∀ e ∈ s'.entries, e ∈ s.entries) ∧
          ∀ e ∈ s.entries, e ∈ s'.entries ∨ e.isWeak = true ∧ s.refs e.object = 0 := by
  have hinv : Inv objects s ∧ s.Owed :=
    h.invariant (P := fun s => Inv objects s ∧ s.Owed) Inv.step
      ⟨inv_initial objects outside, fun v hv => by cases hv⟩
  refine ⟨hinv.1.sound, fun k r s' hr hs => ?_, fun s' hs => ?_⟩
  · obtain ⟨s₁, hact, rfl⟩ := Option.map_eq_some_iff.1 hs
    obtain ⟨-, hact⟩ := Option.ite_none_right_eq_some.1 hact
    rw [hr] at hact
    obtain rfl := Option.some.inj hact
    exact hinv.1.entries_reset k r
  · obtain ⟨s₁, hact, rfl⟩ := Option.map_eq_some_iff.1 hs
    cases hvisits : s.visits with
    | nil => simp only [act, hvisits, reduceCtorEq] at hact
    | cons v outer =>
        simp only [act, hvisits, Option.some.injEq] at hact
        subst hact
        exact entries_next s v outer

/-- Two objects, ref-counted, of which one is of the type. -/
def two : Objects Bool Unit where
  refCounted _ := true
  is o _ := o

/-- The object that is not of the type is registered last; the visit destroys it. -/
def destroyedLast : List (Action Bool Unit) :=
  [.register true true, .register false false, .visit (some ()), .next, .next, .next, .drop false,
    .next, .reset 1, .next]

theorem registry_sound_destroyedLast :
    ∃ s, exec (step two) (initial fun _ => 1) destroyedLast = some s ∧ s.Sound two ∧
      s.visits.map (·.instances) = [[true]] := by
  have hfits : Allowed (step two) Fits (initial fun _ => 1) destroyedLast := by decide
  exact ⟨_, rfl, (registry_sound two (fun _ => 1) (exec_steps hfits rfl)).1, rfl⟩

/-- It is registered first, and its destructor ends its registration. -/
def destroyedFirst : List (Action Bool Unit) :=
  [.register false false, .register true true, .visit (some ()), .next, .drop false, .next,
    .reset 0, .next]

/-- The other one takes its place, and the visit goes on behind it. -/
theorem registry_not_sound :
    ∃ s, Steps (step two) Free (initial fun _ => 1) s ∧ ¬ s.Sound two := by
  refine ⟨_, exec_steps (allowed_free destroyedFirst _) rfl, fun h => ?_⟩
  have hreports := h.reports _ List.mem_cons_self rfl (by decide)
  have honce := hreports.once _ List.mem_cons_self (by decide) (by decide)
  exact absurd honce (by decide)

end MyEngine.Runtime.Registry
