import MyEngine.Io.Exists
import Mathlib.Data.List.Nodup

/-!
# Io — MountCalls

Calls of `VirtualFileSystemImpl::mount` one after the other, whether they succeed or fail.  The
nodes `getChild` makes on the way are in the tree from then on, also when the call fails later.

* `mountInPlace`: the call with what it leaves behind in either case.
* `WellFormed`: what the two checks keep of every node of the tree.
-/

namespace MyEngine.Io

variable {ι : Type}

namespace FsNode

/-- The loop of `VirtualFileSystemImpl::mount` from a node on, and the node after it. -/
def mountInPlace (fs : ι → FileSystem) (entry : FileSystemEntry ι) :
    List Name → FsNode ι → Except String Unit × FsNode ι
  | [], node =>
      match node.mount fs entry with
      | .error e => (.error e, node)
      | .ok node => (.ok (), node)
  | name :: names, node =>
      match node.getChild name with
      | .error e  => (.error e, node)
      | .ok child =>
          -- the child is in the tree, whatever becomes of the rest
          let r := mountInPlace fs entry names child
          (r.1, node.setChild r.2)

/-- A node of the tree below (and with) another. -/
inductive Occurs : FsNode ι → FsNode ι → Prop where
  | self (node : FsNode ι) : Occurs node node
  | child {node c d : FsNode ι} (hc : c ∈ node.children) (h : Occurs c d) : Occurs node d

/-- The file systems of the node that are not read-only. -/
def mutableFs (fs : ι → FileSystem) (node : FsNode ι) : List (FileSystemEntry ι) :=
  node.mountedFs.filter fun e => !(fs e.fs).isReadOnly

/-- Not both children and file systems, not two mutable ones, not two children of one name. -/
structure WellFormed (fs : ι → FileSystem) (node : FsNode ι) : Prop where
  exclusive : node.children = [] ∨ node.mountedFs = []
  oneMutable : (node.mutableFs fs).length ≤ 1
  distinct : (node.children.map name).Nodup

/-- Every node of the tree is well formed. -/
def Everywhere (fs : ι → FileSystem) (node : FsNode ι) : Prop :=
  ∀ d, node.Occurs d → d.WellFormed fs

end FsNode

namespace VirtualFileSystemImpl

/-- What `mount` returns, and the file system after it. -/
def mountInPlace (fs : ι → FileSystem) (vfs : VirtualFileSystemImpl ι) (m : Mount ι) :
    Except String Unit × VirtualFileSystemImpl ι :=
  let r := vfs.root.mountInPlace fs ⟨m.fs, m.priority⟩ m.path.splitElements
  (r.1, ⟨r.2⟩)

/-- After calls of `mount`, successful or not. -/
def mountCalls (fs : ι → FileSystem) (vfs : VirtualFileSystemImpl ι) (ms : List (Mount ι)) :
    VirtualFileSystemImpl ι :=
  ms.foldl (fun vfs m => (vfs.mountInPlace fs m).2) vfs

end VirtualFileSystemImpl

/-! ### A call that fails -/

namespace FsNode

variable {fs : ι → FileSystem} {entry : FileSystemEntry ι} {n n' c c' : FsNode ι}

theorem putChild_self {l : List (FsNode ι)} (h : l.find? (fun d => d.name = c.name) = some c) :
    putChild c l = l := by
  induction l with
  | nil => cases h
  | cons d l ih =>
      rw [putChild]
      by_cases hd : d.name = c.name
      · rw [List.find?_cons_of_pos (by simpa using hd)] at h
        rw [if_pos hd, Option.some.inj h]
      · rw [List.find?_cons_of_neg (by simpa using hd)] at h
        rw [if_neg hd, ih h]

/-- Nothing changes where the child found is put back. -/
theorem setChild_self {name : Name} (h : n.findChild name = some c) : n.setChild c = n := by
  obtain ⟨nodeName, children, mountedFs⟩ := n
  have hname := findChild_name h
  subst hname
  rw [setChild]
  exact congrArg (FsNode.mk nodeName · mountedFs) (putChild_self h)

/-- Below a node that has just been made nothing fails. -/
theorem mountAt_new (fs : ι → FileSystem) (entry : FileSystemEntry ι) (names : List Name)
    (name : Name) : ∃ n, (new name).mountAt fs entry names = .ok n := by
  induction names generalizing name with
  | nil =>
      refine ⟨⟨name, [], [entry]⟩, ?_⟩
      rw [mountAt, FsNode.mount]
      simp [new, children, mountedFs, FsNode.name]
  | cons a names ih =>
      obtain ⟨n, hn⟩ := ih a
      refine ⟨(new name).setChild n, ?_⟩
      have hchild : (new name : FsNode ι).getChild a = .ok (new a) := rfl
      rw [mountAt, hchild]
      dsimp only
      rw [hn]

/-- The call is the one of `mountAt`, and a failing one leaves the tree as it was. -/
theorem mountInPlace_eq (names : List Name) : n.mountInPlace fs entry names =
    match n.mountAt fs entry names with
    | .error e => (.error e, n)
    | .ok n'   => (.ok (), n') := by
  induction names generalizing n with
  | nil => rfl
  | cons name names ih =>
      rw [mountInPlace, mountAt]
      cases hc : n.getChild name with
      | error e => rfl
      | ok c =>
          dsimp only
          rw [ih]
          cases hm : c.mountAt fs entry names with
          | ok c' => rfl
          | error e =>
              rcases getChild_ok hc with hf | ⟨-, -, rfl⟩
              · dsimp only
                rw [setChild_self hf]
              · obtain ⟨c', hc'⟩ := mountAt_new fs entry names name
                cases hm.symm.trans hc'

/-! ### `Everywhere` -/

theorem mem_putChild {d : FsNode ι} {l : List (FsNode ι)} (h : d ∈ putChild c l) :
    d = c ∨ d ∈ l := by
  induction l with
  | nil => exact .inl (List.mem_singleton.1 h)
  | cons e l ih =>
      rw [putChild] at h
      split at h
      · rcases List.mem_cons.1 h with h | h
        · exact .inl h
        · exact .inr (List.mem_cons_of_mem _ h)
      · rcases List.mem_cons.1 h with rfl | h
        · exact .inr List.mem_cons_self
        · exact (ih h).imp_right (List.mem_cons_of_mem _)

/-- The names stay, and the one of a new child comes last. -/
theorem names_putChild (c : FsNode ι) (l : List (FsNode ι)) : (putChild c l).map name =
    if c.name ∈ l.map name then l.map name else l.map name ++ [c.name] := by
  induction l with
  | nil => rfl
  | cons d l ih =>
      rw [putChild]
      by_cases hd : d.name = c.name
      · simp [hd]
      · rw [if_neg hd, List.map_cons, ih]
        by_cases hc : c.name ∈ l.map name <;> simp [hc, Ne.symm hd]

namespace Everywhere

theorem self (h : n.Everywhere fs) : n.WellFormed fs := h n (.self n)

theorem child (h : n.Everywhere fs) (hc : c ∈ n.children) : c.Everywhere fs :=
  fun d hd => h d (.child hc hd)

theorem of_children (h : n.WellFormed fs) (hc : ∀ c ∈ n.children, c.Everywhere fs) :
    n.Everywhere fs := by
  intro d hd
  cases hd with
  | self => exact h
  | child hmem hd => exact hc _ hmem d hd

theorem new (name : Name) : (FsNode.new name).Everywhere fs :=
  of_children ⟨.inl rfl, Nat.zero_le 1, List.nodup_nil⟩ (by intro c hc; cases hc)

theorem getChild {name : Name} (h : n.Everywhere fs) (hc : n.getChild name = .ok c) :
    c.Everywhere fs := by
  rcases getChild_ok hc with hf | ⟨-, -, rfl⟩
  · exact h.child (List.mem_of_find?_eq_some hf)
  · exact new name

/-- `getChild` gives a child to a node without file systems only. -/
theorem mountedFs_eq_nil {name : Name} (h : n.Everywhere fs) (hc : n.getChild name = .ok c) :
    n.mountedFs = [] := by
  rcases getChild_ok hc with hf | ⟨-, hm, -⟩
  · exact h.self.exclusive.resolve_left (List.ne_nil_of_mem (List.mem_of_find?_eq_some hf))
  · exact hm

theorem setChild (h : n.Everywhere fs) (hm : n.mountedFs = []) (hc : c.Everywhere fs) :
    (n.setChild c).Everywhere fs := by
  refine of_children ⟨.inr hm, h.self.oneMutable, ?_⟩ fun d hd => ?_
  · change ((putChild c n.children).map name).Nodup
    rw [names_putChild]
    split
    case isTrue => exact h.self.distinct
    case isFalse hnew =>
      exact List.nodup_append.2 ⟨h.self.distinct, List.nodup_singleton _, fun a ha b hb =>
        fun hab => hnew (List.mem_singleton.1 hb ▸ hab ▸ ha)⟩
  · rcases mem_putChild hd with rfl | hd
    · exact hc
    · exact h.child hd

/-- The file system of a mount is the first mutable one of its node, or read-only. -/
theorem mount (h : n.Everywhere fs) (hm : n.mount fs entry = .ok n') : n'.Everywhere fs := by
  rw [FsNode.mount] at hm
  split at hm
  case isTrue => cases hm
  case isFalse hchildren =>
    have hchildren : n.children = [] := not_not.1 hchildren
    split at hm
    case isTrue => cases hm
    case isFalse hmutable =>
      obtain rfl := Except.ok.inj hm
      refine of_children ⟨.inl hchildren, ?_, h.self.distinct⟩ fun c hc => h.child hc
      rw [mutableFs, FsNode.mountedFs, List.filter_append, List.length_append]
      cases hro : (fs entry.fs).isReadOnly with
      | true =>
          have hnone : [entry].filter (fun e => !(fs e.fs).isReadOnly) = [] := by simp [hro]
          rw [hnone]
          exact h.self.oneMutable
      | false =>
          have hnil : n.mutableFs fs = [] := by simpa [hro, mutableFs] using hmutable
          rw [mutableFs] at hnil
          rw [hnil, List.length_nil, Nat.zero_add]
          exact List.length_filter_le _ [entry]

theorem mountAt {names : List Name} (h : n.Everywhere fs)
    (hm : n.mountAt fs entry names = .ok n') : n'.Everywhere fs := by
  induction names generalizing n n' with
  | nil => exact h.mount hm
  | cons name names ih =>
      obtain ⟨c, c', hc, hc', rfl⟩ := mountAt_cons hm
      exact h.setChild (h.mountedFs_eq_nil hc) (ih (h.getChild hc) hc')

end Everywhere

end FsNode

/-! ### Sequences of calls -/

namespace VirtualFileSystemImpl

variable {fs : ι → FileSystem} {vfs : VirtualFileSystemImpl ι} {m : Mount ι}

/-- A failing call leaves the tree as it was. -/
theorem mountInPlace_error {e : String} (h : (vfs.mountInPlace fs m).1 = .error e) :
    (vfs.mountInPlace fs m).2 = vfs := by
  rw [mountInPlace, FsNode.mountInPlace_eq] at h ⊢
  cases hm : vfs.root.mountAt fs ⟨m.fs, m.priority⟩ m.path.splitElements with
  | error e => rfl
  | ok root =>
      rw [hm] at h
      cases h

theorem everywhere_mountInPlace (h : vfs.root.Everywhere fs) :
    (vfs.mountInPlace fs m).2.root.Everywhere fs := by
  rw [mountInPlace, FsNode.mountInPlace_eq]
  cases hm : vfs.root.mountAt fs ⟨m.fs, m.priority⟩ m.path.splitElements with
  | error e => exact h
  | ok root => exact h.mountAt hm

theorem everywhere_mountCalls (ms : List (Mount ι)) (h : vfs.root.Everywhere fs) :
    (vfs.mountCalls fs ms).root.Everywhere fs := by
  induction ms generalizing vfs with
  | nil => exact h
  | cons m ms ih => exact ih (everywhere_mountInPlace h)

/-- After any calls of `mount` every node of the tree is well formed, and a further call that fails
changes neither the tree nor what exists. -/
theorem mountCalls_wellFormed (fs : ι → FileSystem) (ms : List (Mount ι)) :
    (∀ node, (mountCalls fs {} ms).root.Occurs node → node.WellFormed fs) ∧
    ∀ m e, ((mountCalls fs {} ms).mountInPlace fs m).1 = .error e →
      ((mountCalls fs {} ms).mountInPlace fs m).2 = mountCalls fs {} ms ∧
      ∀ path kind, ((mountCalls fs {} ms).mountInPlace fs m).2.pathExists fs path kind =
        (mountCalls fs {} ms).pathExists fs path kind := by
  constructor
  · exact everywhere_mountCalls ms (FsNode.Everywhere.new [])
  · intro m e he
    have heq := mountInPlace_error he
    exact ⟨heq, fun path kind => by rw [heq]⟩

/-- A file system mounted below a mount point: the call fails and leaves the tree as it was. -/
theorem mountCalls_below :
    let m : Mount Unit := ⟨.ofString ['/', 'm'], (), 1⟩
    let below : Mount Unit := ⟨.ofString ['/', 'm', '/', 'a', '/', 'b'], (), 1⟩
    ((mountCalls (fun _ => oneFile) {} [m]).mountInPlace (fun _ => oneFile) below).1 =
      .error "Already has mounted fs" ∧
    ((mountCalls (fun _ => oneFile) {} [m]).mountInPlace (fun _ => oneFile) below).2 =
      mountCalls (fun _ => oneFile) {} [m] := by
  have h : ((mountCalls (fun _ : Unit => oneFile) {}
      [⟨.ofString ['/', 'm'], (), 1⟩]).mountInPlace (fun _ => oneFile)
        ⟨.ofString ['/', 'm', '/', 'a', '/', 'b'], (), 1⟩).1 =
      .error "Already has mounted fs" := rfl
  exact ⟨h, ((mountCalls_wellFormed (fun _ => oneFile) _).2 _ _ h).1⟩

end VirtualFileSystemImpl

end MyEngine.Io
