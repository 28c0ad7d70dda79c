import MyEngine.Lua.LuaDebuggee
import MyEngine.Support.Keyed

/-!
# Lua — BreakpointSources

The sources of the breakpoints of `lua_debuggee_impl.cpp`: a request finds the one it replaces with
`operator==`, a chunk hits the ones it is equal to by `EqualFast`.

* `Source.equalFast_iff`: `EqualFast` compares what is left of the paths without their case and the
  kind of their slashes.
* `Sourced`: the sources that are stored are distinct, and so are their ids.
* `hitBy_setBreakpoints`: what can be hit after a request.
* `replaced_iff`: the runs in which a request replaces the breakpoints its source can hit, and no
  other ones.
-/

namespace MyEngine.Lua

open Network (icaseEqual)
open Runs
open Serialization (Text)
open Support

/-! ### The two comparisons -/

namespace Source

/-- Neither the case of a character nor the kind of a slash is left. -/
def fold (ch : Char) : Char := if ch.toLower = '\\' then '/' else ch.toLower

variable {source : Source} {path path' : Text} {ch ch' : Char}

/-- A letter in lower case is no slash. -/
theorem toLower_eq {c : Char} (h : ch.toLower = c) (hc : c.toNat < 97) : ch = c := by
  by_cases hupper : ch.val ≥ 'A'.val ∧ ch.val ≤ 'Z'.val
  · have hlo : 65 ≤ ch.val.toNat := hupper.1
    have hhi : ch.val.toNat ≤ 90 := hupper.2
    have hlower : ch.toLower.val = ch.val + 32 := congrArg Char.val (dif_pos hupper)
    have hval : c.val.toNat = ch.val.toNat + 32 := by
      have h32 : (32 : UInt32).toNat = 32 := rfl
      rw [← h, hlower, UInt32.toNat_add, h32]
      exact Nat.mod_eq_of_lt (by omega)
    have hlt : c.val.toNat < 97 := hc
    omega
  · have hlower : ch.toLower = ch := dif_neg hupper
    exact hlower.symm.trans h

theorem equalChars_iff : equalChars ch ch' ↔ fold ch = fold ch' := by
  by_cases hlower : ch.toLower = ch'.toLower
  · simp [equalChars, fold, hlower]
  · simp only [equalChars, if_pos hlower, ne_eq, Bool.or_eq_true, Bool.and_eq_true,
      decide_eq_true_eq]
    constructor
    · rintro (⟨rfl, rfl⟩ | ⟨rfl, rfl⟩) <;> rfl
    · intro hfold
      rw [fold, fold] at hfold
      split at hfold
      · next hch =>
          split at hfold
          · next hch' => exact absurd (hch.trans hch'.symm) hlower
          · exact .inl ⟨toLower_eq hch (by decide), toLower_eq hfold.symm (by decide)⟩
      · split at hfold
        · next hch' => exact .inr ⟨toLower_eq hfold (by decide), toLower_eq hch' (by decide)⟩
        · exact absurd hfold hlower

theorem equalFastLoop_iff (h : path.length = path'.length) :
    equalFastLoop path path' ↔ path.map fold = path'.map fold := by
  induction path generalizing path' with
  | nil =>
      obtain rfl := List.length_eq_zero_iff.1 h.symm
      exact iff_of_true rfl rfl
  | cons ch path ih =>
      obtain ⟨ch', path', rfl⟩ := List.exists_cons_of_length_eq_add_one h.symm
      rw [equalFastLoop, List.map_cons, List.map_cons, List.cons.injEq, ← equalChars_iff,
        ← ih (Nat.succ.inj h)]
      cases equalChars ch ch' <;> simp

/-- `EqualFast` compares the folded paths. -/
theorem equalFast_iff : source.equalFast path ↔ source.path.map fold = path.map fold := by
  rw [equalFast]
  split
  · next hlength =>
      refine iff_of_false Bool.false_ne_true fun hmap => hlength ?_
      simpa using congrArg List.length hmap
  · next hlength => exact equalFastLoop_iff (not_not.1 hlength)

theorem equals_iff : source.equals path ↔ icaseEqual source.path path := by
  rw [equals]
  split
  · next h =>
      simp only [Bool.and_eq_true, decide_eq_true_eq] at h
      exact iff_of_true rfl (h.1.trans h.2.symm ▸ Network.icaseEqual_refl _)
  · next h =>
      split
      · next hone =>
          refine iff_of_false Bool.false_ne_true fun hicase => h ?_
          simp only [Bool.or_eq_true, Bool.and_eq_true, decide_eq_true_eq] at hone ⊢
          rcases hone with hpath | hpath
          · rw [hpath] at hicase
            exact ⟨hpath, Network.icaseEqual_nil_iff.1 (Network.icaseEqual_symm hicase)⟩
          · rw [hpath] at hicase
            exact ⟨Network.icaseEqual_nil_iff.1 hicase, hpath⟩
      · exact decide_eq_true_iff

/-- Paths that differ in nothing but their case are the same to `EqualFast`. -/
theorem map_fold_of_icaseEqual (h : icaseEqual path path') : path.map fold = path'.map fold := by
  have hfold : fold = (fun ch => if ch = '\\' then '/' else ch) ∘ Char.toLower := rfl
  rw [hfold, ← List.map_map, ← List.map_map, h]

end Source

/-! ### What is stored -/

namespace Debuggee

variable {s t : Debuggee} {arg : SetBreakpointsArguments} {source : Source} {chunk : Text}
  {bp : SourceBp} {entry : SourceEntry}

/-- The breakpoints that a chunk can hit. -/
def hitBy (s : Debuggee) (chunk : Text) : List SourceBp :=
  s.sourceBreakpoints.filter fun bp =>
    (s.getSource bp.sourceId).any fun source => source.equalFast chunk

/-- No two of the sources are equal, no two share an id, and those of the breakpoints are there. -/
structure Sourced (s : Debuggee) : Prop where
  distinct : s.sources.Pairwise fun entry entry' =>
    ¬ icaseEqual entry.source.path entry'.source.path
  ids : (s.sources.map SourceEntry.id).Nodup
  stored : ∀ bp ∈ s.sourceBreakpoints, ∃ entry ∈ s.sources, entry.id = bp.sourceId

theorem Sourced.getSource (h : Sourced s) (hentry : entry ∈ s.sources) :
    s.getSource entry.id = some entry.source := by
  rw [Debuggee.getSource, find?_key h.ids hentry, Option.map_some]

/-- Equal sources are one. -/
theorem Sourced.eq_of_icaseEqual (h : Sourced s) {entry' : SourceEntry} (hentry : entry ∈ s.sources)
    (hentry' : entry' ∈ s.sources) (heq : icaseEqual entry.source.path entry'.source.path) :
    entry = entry' := by
  by_contra hne
  have hsymm : Std.Symm fun e e' : SourceEntry => ¬ icaseEqual e.source.path e'.source.path :=
    ⟨fun _ _ hnot hicase => hnot (Network.icaseEqual_symm hicase)⟩
  exact h.distinct.forall hentry hentry' hne heq

theorem Sourced.init : Sourced {} := ⟨.nil, .nil, fun _ h => nomatch h⟩

theorem equals_of_findSource (h : s.findSource source = some entry) :
    entry.source.equals source.path := by
  have heq := List.find?_some h
  exact heq

theorem not_icaseEqual_of_findSource (h : s.findSource source = none) (hentry : entry ∈ s.sources) :
    ¬ icaseEqual entry.source.path source.path := by
  intro heq
  exact List.find?_eq_none.1 h entry hentry (Source.equals_iff.2 heq)

/-- What is left behind when a source is looked for: it is there, under the id that is returned, and
the sources that were there keep theirs. -/
structure Stores (s : Debuggee) (source : Source) (r : ℕ × Debuggee) : Prop where
  sourced : Sourced r.2
  id : ∃ entry ∈ r.2.sources, entry.id = r.1 ∧ icaseEqual entry.source.path source.path
  sources : s.sources <+: r.2.sources
  id_iff : ∀ entry ∈ s.sources, entry.id = r.1 ↔ icaseEqual entry.source.path source.path

theorem storeSource_spec (h : Sourced s)
    (hfresh : s.findSource source = none →
      increment s.nextSourceId ∉ s.sources.map SourceEntry.id) :
    Stores s source (s.storeSource source) := by
  rw [storeSource]
  cases hfind : s.findSource source with
  | some existingSource =>
      have hmem := List.mem_of_find?_eq_some hfind
      have heq : icaseEqual existingSource.source.path source.path :=
        Source.equals_iff.1 (equals_of_findSource hfind)
      refine ⟨h, ⟨existingSource, hmem, rfl, heq⟩, List.prefix_refl _, fun entry hentry => ?_⟩
      constructor
      · intro hid
        rw [key_inj h.ids hentry hmem hid]
        exact heq
      · intro hicase
        have htrans : icaseEqual entry.source.path existingSource.source.path :=
          hicase.trans (Network.icaseEqual_symm heq)
        rw [h.eq_of_icaseEqual hentry hmem htrans]
  | none =>
      have hnone : ∀ entry ∈ s.sources, ¬ icaseEqual entry.source.path source.path :=
        fun _ hentry => not_icaseEqual_of_findSource hfind hentry
      have hid := hfresh hfind
      refine ⟨⟨?_, ?_, fun bp hbp => ?_⟩, ⟨_, List.mem_append_right _ List.mem_cons_self, rfl, ?_⟩,
        List.prefix_append _ _, fun entry hentry => ?_⟩
      · refine List.pairwise_append.2 ⟨h.distinct, List.pairwise_singleton _ _, ?_⟩
        intro entry hentry entry' hentry'
        obtain rfl := List.mem_singleton.1 hentry'
        exact hnone entry hentry
      · rw [List.map_append]
        refine List.nodup_append'.2 ⟨h.ids, List.nodup_singleton _, ?_⟩
        intro id hmem hnew
        obtain rfl := List.mem_singleton.1 hnew
        exact hid hmem
      · obtain ⟨entry, hentry, hbp⟩ := h.stored bp hbp
        exact ⟨entry, List.mem_append_left _ hentry, hbp⟩
      · exact Network.icaseEqual_refl _
      · refine iff_of_false (fun heq : entry.id = increment s.nextSourceId => hid ?_)
          (hnone entry hentry)
        exact heq ▸ List.mem_map_of_mem hentry

theorem Stores.getSource {r : ℕ × Debuggee} (hr : Stores s source r) (hentry : entry ∈ s.sources) :
    r.2.getSource entry.id = some entry.source :=
  hr.sourced.getSource (hr.sources.subset hentry)

/-! ### What can be hit -/

theorem sourceId_requested (hbp : bp ∈ s.requested arg) :
    bp.sourceId = (s.storeSource arg.source).1 := by
  have hmap : (s.requested arg).map SourceBp.sourceId =
      (nextIds s.nextBpId arg.breakpoints.length).map fun _ => (s.storeSource arg.source).1 := by
    rw [requested, List.map_zipWith]
    exact zipWith_nextIds (fun _ => (s.storeSource arg.source).1) _ _
  have hmem := List.mem_map_of_mem (f := SourceBp.sourceId) hbp
  rw [hmap] at hmem
  obtain ⟨-, -, heq⟩ := List.mem_map.1 hmem
  exact heq.symm

theorem map_bp_requested (s : Debuggee) (arg : SetBreakpointsArguments) :
    (s.requested arg).map SourceBp.bp = arg.breakpoints := by
  rw [requested, List.map_zipWith]
  generalize s.nextBpId = n
  induction arg.breakpoints generalizing n with
  | nil => rfl
  | cons bp bps ih =>
      rw [List.length_cons, nextIds, List.zipWith_cons_cons]
      exact congrArg (bp :: ·) (ih (increment n))

/-- After a request a chunk can hit the breakpoints it could hit before, but for those of the
source, and those of the request if the source is the chunk's. -/
theorem hitBy_setBreakpoints (h : Sourced s)
    (hr : Stores s arg.source (s.storeSource arg.source)) (chunk : Text) :
    (s.setBreakpoints arg).2.hitBy chunk =
      (s.hitBy chunk).filter (·.sourceId ≠ (s.storeSource arg.source).1) ++
        if arg.source.equalFast chunk then s.requested arg else [] := by
  have hold : ∀ bp ∈ s.sourceBreakpoints,
      (s.storeSource arg.source).2.getSource bp.sourceId = s.getSource bp.sourceId := by
    intro bp hbp
    obtain ⟨entry, hentry, hid⟩ := h.stored bp hbp
    rw [← hid, hr.getSource hentry, h.getSource hentry]
  have hnew : ∀ bp ∈ s.requested arg,
      ((s.storeSource arg.source).2.getSource bp.sourceId).any (·.equalFast chunk) =
        arg.source.equalFast chunk := by
    intro bp hbp
    obtain ⟨entry, hentry, hid, hicase⟩ := hr.id
    rw [sourceId_requested hbp, ← hid, hr.sourced.getSource hentry, Option.any_some,
      Bool.eq_iff_iff, Source.equalFast_iff, Source.equalFast_iff,
      Source.map_fold_of_icaseEqual hicase]
  rw [setBreakpoints_eq, hitBy, List.filter_append]
  congr 1
  · change List.filter _ (List.filter _ (s.storeSource arg.source).2.sourceBreakpoints) = _
    rw [storeSource_sourceBreakpoints, List.filter_comm, hitBy]
    refine congrArg _ (List.filter_congr fun bp hbp => ?_)
    exact congrArg (Option.any _) (hold bp hbp)
  · split
    · next heq => exact List.filter_eq_self.2 fun bp hbp => (hnew bp hbp).trans heq
    · next hne => exact List.filter_eq_nil_iff.2 fun bp hbp => hne ∘ (hnew bp hbp).symm.trans

theorem Sourced.setBreakpoints (h : Sourced s)
    (hr : Stores s arg.source (s.storeSource arg.source)) : Sourced (s.setBreakpoints arg).2 := by
  rw [setBreakpoints_eq]
  refine ⟨hr.sourced.distinct, hr.sourced.ids, fun bp hbp => ?_⟩
  rcases List.mem_append.1 hbp with hbp | hbp
  · have hmem : bp ∈ s.sourceBreakpoints :=
      storeSource_sourceBreakpoints (s := s) arg.source ▸ List.mem_of_mem_filter hbp
    obtain ⟨entry, hentry, hid⟩ := h.stored bp hmem
    exact ⟨entry, hr.sources.subset hentry, hid⟩
  · obtain ⟨entry, hentry, hid, -⟩ := hr.id
    exact ⟨entry, hentry, hid.trans (sourceId_requested hbp).symm⟩

/-! ### The requests -/

/-- The breakpoints that a chunk of the source can hit are those of the request, and any other
chunk can hit what it could hit before. -/
def Replaced (s : Debuggee) : Request → Prop
  | .setBreakpoints arg         =>
      (∀ chunk, arg.source.equalFast chunk →
        ((s.setBreakpoints arg).2.hitBy chunk).map SourceBp.bp = arg.breakpoints) ∧
      ∀ chunk, ¬ arg.source.equalFast chunk → (s.setBreakpoints arg).2.hitBy chunk = s.hitBy chunk
  | .setFunctionBreakpoints arg =>
      ∀ chunk, (s.setFunctionBreakpoints arg).2.hitBy chunk = s.hitBy chunk

/-- A source that is not stored gets an id that is not in use. -/
def Fresh (s : Debuggee) : Request → Prop
  | .setBreakpoints arg       =>
      s.findSource arg.source = none → increment s.nextSourceId ∉ s.sources.map SourceEntry.id
  | .setFunctionBreakpoints _ => True

/-- The breakpoints whose source is the requested one to `EqualFast` are those whose source is equal
to it. -/
def Spelled (s : Debuggee) : Request → Prop
  | .setBreakpoints arg       =>
      ∀ bp ∈ s.hitBy arg.source.path, ∀ source ∈ s.getSource bp.sourceId,
        source.equals arg.source.path
  | .setFunctionBreakpoints _ => True

instance (s : Debuggee) : ∀ request, Decidable (s.Fresh request)
  | .setBreakpoints _         => inferInstanceAs (Decidable (_ → _))
  | .setFunctionBreakpoints _ => inferInstanceAs (Decidable True)

instance (s : Debuggee) : ∀ request, Decidable (s.Spelled request)
  | .setBreakpoints _         => inferInstanceAs (Decidable (∀ _ ∈ _, ∀ _ ∈ _, _))
  | .setFunctionBreakpoints _ => inferInstanceAs (Decidable True)

/-- The source of a breakpoint that is stored, and when it is the one a request looks for. -/
theorem Stores.own {r : ℕ × Debuggee} (hr : Stores s source r) (h : Sourced s)
    (hbp : bp ∈ s.sourceBreakpoints) : ∃ own, s.getSource bp.sourceId = some own ∧
      (bp.sourceId = r.1 ↔ icaseEqual own.path source.path) := by
  obtain ⟨entry, hentry, hid⟩ := h.stored bp hbp
  exact ⟨entry.source, hid ▸ h.getSource hentry, hid ▸ hr.id_iff entry hentry⟩

theorem mem_hitBy : bp ∈ s.hitBy chunk ↔
    bp ∈ s.sourceBreakpoints ∧ (s.getSource bp.sourceId).any (·.equalFast chunk) :=
  List.mem_filter

/-- Chunks that are equal can hit the same breakpoints. -/
theorem hitBy_congr (heq : arg.source.equalFast chunk) :
    s.hitBy chunk = s.hitBy arg.source.path := by
  refine List.filter_congr fun bp _ => ?_
  cases s.getSource bp.sourceId with
  | none => rfl
  | some own =>
      rw [Option.any_some, Option.any_some, Bool.eq_iff_iff, Source.equalFast_iff,
        Source.equalFast_iff, ← Source.equalFast_iff.1 heq]

theorem replaced_iff_spelled (h : Sourced s) {request : Request} (hfresh : s.Fresh request) :
    s.Replaced request ↔ s.Spelled request := by
  cases request with
  | setFunctionBreakpoints arg =>
      refine iff_of_true (fun chunk => ?_) trivial
      rw [setFunctionBreakpoints_eq]
      rfl
  | setBreakpoints arg =>
      have hr := storeSource_spec h hfresh
      have hself : arg.source.equalFast arg.source.path := Source.equalFast_iff.2 rfl
      constructor
      · rintro ⟨hrequested, -⟩ bp hbp own hown
        have hrest := hrequested _ hself
        rw [hitBy_setBreakpoints h hr, if_pos hself, List.map_append, map_bp_requested,
          List.append_left_eq_self, List.map_eq_nil_iff, List.filter_eq_nil_iff] at hrest
        obtain ⟨own', hown', hiff⟩ := hr.own h (mem_hitBy.1 hbp).1
        obtain rfl := Option.some.inj (hown'.symm.trans hown)
        have hid : bp.sourceId = (s.storeSource arg.source).1 := by simpa using hrest bp hbp
        exact Source.equals_iff.2 (hiff.1 hid)
      · intro hspelled
        refine ⟨fun chunk heq => ?_, fun chunk hne => ?_⟩
        · have hrest : (s.hitBy chunk).filter (·.sourceId ≠ (s.storeSource arg.source).1) = [] := by
            rw [hitBy_congr heq, List.filter_eq_nil_iff]
            intro bp hbp
            obtain ⟨own, hown, hiff⟩ := hr.own h (mem_hitBy.1 hbp).1
            have hid := hiff.2 (Source.equals_iff.1 (hspelled bp hbp own hown))
            simpa using hid
          rw [hitBy_setBreakpoints h hr, hrest, if_pos heq, List.nil_append, map_bp_requested]
        · rw [hitBy_setBreakpoints h hr, if_neg hne, List.append_nil, List.filter_eq_self]
          intro bp hbp
          obtain ⟨hmem, hhit⟩ := mem_hitBy.1 hbp
          obtain ⟨own, hown, hiff⟩ := hr.own h hmem
          refine decide_eq_true fun hid => hne ?_
          rw [hown, Option.any_some, Source.equalFast_iff] at hhit
          rw [Source.equalFast_iff, ← hhit, Source.map_fold_of_icaseEqual (hiff.1 hid)]

/-- **The breakpoints of a source** are replaced, in any sequence of requests in which the sources
have ids of their own, when a source is not spelled with other slashes, and in no other case. -/
theorem replaced_iff {requests : List Request} (hfresh : Allowed step Fresh {} requests) :
    Allowed step Replaced {} requests ↔ Allowed step Spelled {} requests := by
  refine allowed_congr (P := Sourced) ?_ (fun request h hf => replaced_iff_spelled h hf) requests
    Sourced.init hfresh
  intro s request t h hf _ hstep
  obtain rfl := Option.some.inj hstep
  cases request with
  | setBreakpoints arg => exact h.setBreakpoints (storeSource_spec h hf)
  | setFunctionBreakpoints arg =>
      rw [handle, setFunctionBreakpoints_eq]
      exact ⟨h.distinct, h.ids, h.stored⟩

/-- A file whose name is written in another case. -/
def renamed : List Request :=
  [.setBreakpoints ⟨⟨"a/B.lua".toList⟩, [⟨1, none, [], [], []⟩]⟩,
    .setBreakpoints ⟨⟨"c.lua".toList⟩, [⟨2, none, [], [], []⟩]⟩,
    .setBreakpoints ⟨⟨"A/b.lua".toList⟩, [⟨3, none, [], [], []⟩]⟩]

theorem replaced_renamed : Allowed step Replaced {} renamed :=
  (replaced_iff (by decide)).2 (by decide)

/-- The breakpoints of a file are removed, but for those that were set with another slash. -/
def reslashed : List Request :=
  [.setBreakpoints ⟨⟨"a/b.lua".toList⟩, [⟨1, none, [], [], []⟩]⟩,
    .setBreakpoints ⟨⟨"a\\b.lua".toList⟩, []⟩]

theorem not_replaced_reslashed : ¬ Allowed step Replaced {} reslashed := by
  rintro ⟨-, hrest⟩
  obtain ⟨⟨hrequested, -⟩, -⟩ := hrest _ rfl
  have hhit := hrequested "a\\b.lua".toList (by decide)
  revert hhit
  decide

end Debuggee

end MyEngine.Lua
