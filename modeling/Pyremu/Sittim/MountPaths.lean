import Pyremu.Sittim.Mount
import Pyremu.Sittim.RamfsPath
import Pyremu.Lib.Lexical

/-!
# Spellings of a path

Two paths with the same normal form lead to the same node of one file system.
The mount layer compares bytes before anything is normalised, so a spelling of
`/sys` other than the plain one is taken to the file system in memory.
-/

namespace Pyremu.Sittim

open Lexical

def part (name : List Byte) : Lexical.Part (List Byte) :=
  if name = [] then .empty
  else if name = [DOT] then .dot
  else if name = [DOT, DOT] then .up
  else .name name

def partsOf (path : List Byte) : List (Lexical.Part (List Byte)) := (path.splitOn SLASH).map part

theorem part_name {name : List Byte} (hne : name ≠ []) (hdot : name ≠ [DOT]) (hup : name ≠ [DOT, DOT]) :
    part name = .name name := by
  rw [part, if_neg hne, if_neg hdot, if_neg hup]

/-! ## The file system in memory -/

namespace VfsState

variable {s : VfsState}

def dirs (s : VfsState) : Dirs NodeId (List Byte) where
  isDir := s.IsDir
  parent d := (s.nodes d).parent.getD d
  child := s.ChildNamed

theorem walks_iff {d n : NodeId} {rest : List (List Byte)} :
    s.Walks d rest n ↔ s.dirs.Walk d (rest.map part) n := by
  constructor
  · intro h
    induction h with
    | done => exact .done
    | empty _ ih => exact .empty ih
    | dot hd _ ih => exact .dot hd ih
    | up hd _ ih => exact .up hd ih
    | down hd hne hdot hup hc _ ih =>
      rw [List.map_cons, part_name hne hdot hup]
      exact .down hd hc ih
  · intro h
    induction rest generalizing d with
    | nil =>
      cases h
      exact .done
    | cons name rest ih =>
      rw [List.map_cons] at h
      by_cases hne : name = []
      · subst hne
        cases h with
        | empty h => exact .empty (ih h)
      by_cases hdot : name = [DOT]
      · subst hdot
        cases h with
        | dot hd h => exact .dot hd (ih h)
      by_cases hup : name = [DOT, DOT]
      · subst hup
        cases h with
        | up hd h => exact .up hd (ih h)
      · rw [part_name hne hdot hup] at h
        cases h with
        | down hd hc h => exact .down hd hne hdot hup hc (ih h)

theorem Tree.below_lt (h : s.Tree) {stack : List (List Byte)} {d : NodeId} (hd : s.dirs.Below 0 stack d) :
    d.val < s.nextNode := by
  induction stack generalizing d with
  | nil =>
    obtain rfl : d = 0 := hd
    exact h.rootIn
  | cons name stack ih =>
    obtain ⟨e, he, hc⟩ := hd
    exact (h.findChild_lt (ih he) ((h.childNamed_iff (ih he)).mp hc)).1

theorem Tree.rooted (h : s.Tree) : s.dirs.Rooted 0 where
  top := by
    dsimp only [dirs]
    rw [h.rootUp]
    rfl
  up stack d name c hd hc := by
    obtain ⟨l, hl⟩ := h.kids d (h.below_lt hd)
    obtain ⟨l', hl', hmem, _⟩ := hc
    rw [hl'.unique hl.chain] at hmem
    have hparent := (hl.link c hmem).2.1
    dsimp only [dirs]
    rw [hparent]
    rfl
  one stack d name c c' hd hc hc' := by
    have hc := (h.childNamed_iff (h.below_lt hd)).mp hc
    have hc' := (h.childNamed_iff (h.below_lt hd)).mp hc'
    rw [hc] at hc'
    exact Option.some.inj hc'

end VfsState

/-! ## The tree of the runtime -/

namespace Sysfs

variable {nodes : List Node}

def dirs (nodes : List Node) : Dirs Nat (List Byte) where
  isDir _ := True
  parent := parentOf nodes
  child d name c := childOf nodes d name = some c

theorem lookupFrom_iff {d n : Nat} {rest : List (List Byte)} :
    lookupFrom nodes d rest = some n ↔ (dirs nodes).Walk d (rest.map part) n := by
  induction rest generalizing d with
  | nil =>
    rw [lookupFrom, List.map_nil, Option.some.injEq]
    constructor
    · rintro rfl
      exact .done
    · intro h
      cases h
      rfl
  | cons name rest ih =>
    rw [lookupFrom, List.map_cons]
    by_cases hne : name = []
    · subst hne
      rw [if_pos (.inl rfl), ih]
      constructor
      · exact .empty
      · intro h
        cases h with
        | empty h => exact h
    by_cases hdot : name = [DOT]
    · subst hdot
      rw [if_pos (.inr rfl), ih]
      constructor
      · exact .dot trivial
      · intro h
        cases h with
        | dot _ h => exact h
    rw [if_neg (not_or.mpr ⟨hne, hdot⟩)]
    by_cases hup : name = [DOT, DOT]
    · subst hup
      rw [if_pos rfl, ih]
      constructor
      · exact .up trivial
      · intro h
        cases h with
        | up _ h => exact h
    · rw [if_neg hup, part_name hne hdot hup]
      cases hc : childOf nodes d name with
      | none =>
        dsimp only
        constructor
        · intro h
          cases h
        · intro h
          cases h with
          | down _ hc' _ =>
            cases hc.symm.trans hc'
      | some c =>
        dsimp only
        rw [ih]
        constructor
        · exact .down trivial hc
        · intro h
          cases h with
          | down _ hc' h =>
            cases hc.symm.trans hc'
            exact h

theorem lookup_iff {path : List Byte} {n : Nat} :
    lookup nodes path = some n ↔ (dirs nodes).Walk ROOT (partsOf path) n := lookupFrom_iff

theorem parentOf_child {d c : Nat} {name : List Byte} (h : childOf nodes d name = some c) : parentOf nodes c = d := by
  obtain ⟨hlt, hc, _⟩ := List.findIdx?_eq_some_iff_getElem.mp h
  obtain ⟨hparent, _⟩ := of_decide_eq_true hc
  rw [parentOf, List.getElem?_eq_getElem hlt]
  cases hnode : nodes[c] with
  | mk parent name' =>
    rw [hnode] at hparent
    cases hparent
    rfl

theorem rooted_init : (dirs init).Rooted ROOT where
  top := by decide
  up _ _ _ _ _ hc := parentOf_child hc
  one _ _ _ _ _ _ hc hc' := Option.some.inj (hc.symm.trans hc')

/-- `sys`. -/
def sysName : List Byte := [0x73, 0x79, 0x73]

theorem no_sys {c : Nat} : childOf init ROOT sysName ≠ some c := by
  have hnone : childOf init ROOT sysName = none := by decide
  rw [hnone]
  exact nofun

end Sysfs

/-! ## What a path denotes -/

/-- The node of a path in the file system. -/
def objectAt (s : VfsState) (fs : FileSystem) (sub : List Byte) : Option Nat :=
  match fs with
  | .rootfs =>
    match s.resolvePath sub with
    | .error _ => none
    | .ok node => some node.val
  | .sysfs => Sysfs.lookup Sysfs.init sub

/-- The file system that a path selects, and the node of what follows the mount point. -/
def located (s : VfsState) (rootOps : Except Word Unit) (path : List Byte) : Except Word (FileSystem × Option Nat) :=
  match mountResolve mountInit rootOps path with
  | .error e => .error e
  | .ok (fs, sub) => .ok (fs, objectAt s fs sub)

/-- The parts of the path can be walked: what is passed on the way is there and a directory, and so is the end when
the path names one. -/
def Walkable (s : VfsState) (fs : FileSystem) (sub : List Byte) : Prop :=
  match fs with
  | .rootfs => ∃ n, s.Walks 0 (sub.splitOn SLASH) n ∧ (VfsState.NamesDir sub → s.IsDir n)
  | .sysfs => ∃ n, (Sysfs.dirs Sysfs.init).Walk Sysfs.ROOT (partsOf sub) n

variable {s : VfsState} {rootOps : Except Word Unit} {p q path sub : List Byte}

theorem objectAt_rootfs (ht : s.Tree) (hne : sub ≠ []) {x : Nat} :
    objectAt s .rootfs sub = some x ↔
      ∃ n : NodeId, n.val = x ∧ s.dirs.Walk 0 (partsOf sub) n ∧ (VfsState.NamesDir sub → s.IsDir n) := by
  have hspell := ht.pathsSpell hne
  rw [objectAt]
  constructor
  · intro h
    cases hr : s.resolvePath sub with
    | error e =>
      rw [hr] at h
      cases h
    | ok n =>
      rw [hr] at h
      obtain ⟨hw, hdir⟩ := (hspell n).mp hr
      exact ⟨n, Option.some.inj h, VfsState.walks_iff.mp hw, hdir⟩
  · rintro ⟨n, rfl, hw, hdir⟩
    rw [(hspell n).mpr ⟨VfsState.walks_iff.mpr hw, hdir⟩]

theorem isSome_objectAt (ht : s.Tree) {fs : FileSystem} (hne : sub ≠ []) :
    (objectAt s fs sub).isSome = true ↔ Walkable s fs sub := by
  rw [Option.isSome_iff_exists]
  cases fs with
  | rootfs =>
    constructor
    · rintro ⟨x, hx⟩
      obtain ⟨n, _, hw, hdir⟩ := (objectAt_rootfs ht hne).mp hx
      exact ⟨n, VfsState.walks_iff.mpr hw, hdir⟩
    · rintro ⟨n, hw, hdir⟩
      exact ⟨n.val, (objectAt_rootfs ht hne).mpr ⟨n, rfl, VfsState.walks_iff.mp hw, hdir⟩⟩
  | sysfs =>
    exact exists_congr fun x => Sysfs.lookup_iff

/-! ## Below the mount point -/

theorem covers_sysPoint (h : covers sysPoint path = true) : path = sysPoint ∨ ∃ rest, path = sysPoint ++ SLASH :: rest := by
  rw [covers, if_neg (by decide)] at h
  split at h
  · cases h
  · obtain ⟨hstart, hend⟩ := Bool.and_eq_true_iff.mp h
    obtain ⟨rest, rfl⟩ := List.isPrefixOf_iff_prefix.mp hstart
    cases rest with
    | nil => exact .inl (List.append_nil _)
    | cons b rest =>
      right
      rcases Bool.or_eq_true_iff.mp hend with hlen | hslash
      · rw [decide_eq_true_iff, List.length_append, List.length_cons] at hlen
        omega
      · rw [decide_eq_true_iff, List.getElem?_append_right le_rfl, Nat.sub_self] at hslash
        obtain rfl : b = SLASH := Option.some.inj hslash
        exact ⟨rest, rfl⟩

theorem relative_ne_nil (h : covers sysPoint path = true) : relative sysPoint path ≠ [] := by
  rcases covers_sysPoint h with rfl | ⟨rest, rfl⟩
  · decide
  · rw [relative, if_neg (by decide), if_neg (by simp), List.drop_left]
    exact List.cons_ne_nil _ _

/-- The mount point is one part more. -/
theorem normal_covered (h : covers sysPoint path = true) :
    normal (partsOf path) = normal (.name Sysfs.sysName :: partsOf (relative sysPoint path)) := by
  rcases covers_sysPoint h with rfl | ⟨rest, rfl⟩
  · decide
  · have hsys : sysPoint.splitOn SLASH = [[], Sysfs.sysName] := by decide
    rw [relative, if_neg (by decide), if_neg (by simp), List.drop_left, partsOf, partsOf,
      List.splitOn_append_cons_self, hsys, ← List.nil_append (SLASH :: rest), List.splitOn_append_cons_self]
    rfl

theorem located_covered (h : covers sysPoint path = true) :
    located s rootOps path = .ok (.sysfs, objectAt s .sysfs (relative sysPoint path)) := by
  rw [located, mountResolve, mountOf_init, h]
  rfl

theorem located_root (h : covers sysPoint path = false) :
    located s (.ok ()) path = .ok (.rootfs, objectAt s .rootfs path) := by
  rw [located, mountResolve, mountOf_init, h]
  rfl

theorem located_missing (h : covers sysPoint path = false) (e : Word) : located s (.error e) path = .error e := by
  rw [located, mountResolve, mountOf_init, h]
  rfl

/-! ## Equal normal forms -/

theorem rootfs_unique (ht : s.Tree) (heq : normal (partsOf p) = normal (partsOf q)) (hp : p ≠ []) (hq : q ≠ [])
    {x y : Nat} (hx : objectAt s .rootfs p = some x) (hy : objectAt s .rootfs q = some y) : x = y := by
  obtain ⟨n, rfl, hn, _⟩ := (objectAt_rootfs ht hp).mp hx
  obtain ⟨m, rfl, hm, _⟩ := (objectAt_rootfs ht hq).mp hy
  rw [ht.rooted.walk_unique hn hm heq]

/-- A path that leaves the mount point upwards stays at the root of the tree of the runtime, where there is no
`sys`. -/
theorem sysfs_unique (heq : normal (partsOf p) = normal (partsOf q)) (hp : covers sysPoint p = true)
    (hq : covers sysPoint q = true) {x y : Nat} (hx : objectAt s .sysfs (relative sysPoint p) = some x)
    (hy : objectAt s .sysfs (relative sysPoint q) = some y) : x = y := by
  have hx := Sysfs.lookup_iff.mp hx
  have hy := Sysfs.lookup_iff.mp hy
  have hroot := Sysfs.rooted_init
  rw [normal_covered hp, normal_covered hq] at heq
  rcases normal_below Sysfs.sysName (partsOf (relative sysPoint p)) with hbelow | hbelow <;>
    rcases normal_below Sysfs.sysName (partsOf (relative sysPoint q)) with hbelow' | hbelow' <;>
    rw [hbelow, hbelow'] at heq
  · exact hroot.walk_unique hx hy (List.cons.inj heq).2
  · obtain ⟨c, hc⟩ := hroot.walk_first hy heq.symm
    exact absurd hc Sysfs.no_sys
  · obtain ⟨c, hc⟩ := hroot.walk_first hx heq
    exact absurd hc Sysfs.no_sys
  · exact hroot.walk_unique hx hy heq

/-- Two objects are the same when there are none, or both are there and one. -/
theorem eq_iff_isSome {a b : Option Nat} (h : ∀ x y, a = some x → b = some y → x = y) :
    a = b ↔ (a.isSome = true ↔ b.isSome = true) := by
  cases a with
  | none => cases b with
    | none => simp
    | some y => simp
  | some x => cases b with
    | none => simp
    | some y => simp [h x y rfl rfl]

/-- The paths select one file system, and where both denote a node there it is the same. -/
structure SameObject (s : VfsState) (rootOps : Except Word Unit) (p q : List Byte) : Prop where
  selected : (located s rootOps p).map Prod.fst = (located s rootOps q).map Prod.fst
  object : ∀ fs x y, located s rootOps p = .ok (fs, some x) → located s rootOps q = .ok (fs, some y) → x = y

/-- Both paths are below the mount point, or neither. -/
def SameMount (p q : List Byte) : Prop := covers sysPoint p = covers sysPoint q

/-- What follows the mount point can be walked for both paths, or for neither. -/
def SameWalks (s : VfsState) (rootOps : Except Word Unit) (p q : List Byte) : Prop :=
  if covers sysPoint p = true then
    (Walkable s .sysfs (relative sysPoint p) ↔ Walkable s .sysfs (relative sysPoint q))
  else rootOps = .ok () → (Walkable s .rootfs p ↔ Walkable s .rootfs q)

theorem sameMount_of_selected (h : (located s rootOps p).map Prod.fst = (located s rootOps q).map Prod.fst) :
    SameMount p q := by
  rw [SameMount]
  cases hp : covers sysPoint p <;> cases hq : covers sysPoint q
  · rfl
  · rw [located_covered hq] at h
    cases rootOps with
    | error e =>
      rw [located_missing hp] at h
      cases h
    | ok =>
      rw [located_root hp] at h
      cases h
  · rw [located_covered hp] at h
    cases rootOps with
    | error e =>
      rw [located_missing hq] at h
      cases h
    | ok =>
      rw [located_root hq] at h
      cases h
  · rfl

section Equivalent

variable (ht : s.Tree) (hp : p ≠ []) (hq : q ≠ []) (heq : normal (partsOf p) = normal (partsOf q))
include ht hp hq heq

theorem sameObject_of_sameMount (hmount : SameMount p q) : SameObject s rootOps p q := by
  cases hcp : covers sysPoint p with
  | true =>
    have hcq : covers sysPoint q = true := hmount.symm.trans hcp
    constructor
    · rw [located_covered hcp, located_covered hcq]
      rfl
    · intro fs x y hx hy
      rw [located_covered hcp, Except.ok.injEq, Prod.mk.injEq] at hx
      rw [located_covered hcq, Except.ok.injEq, Prod.mk.injEq] at hy
      exact sysfs_unique heq hcp hcq hx.2 hy.2
  | false =>
    have hcq : covers sysPoint q = false := hmount.symm.trans hcp
    cases rootOps with
    | error e =>
      constructor
      · rw [located_missing hcp, located_missing hcq]
      · intro fs x y hx
        rw [located_missing hcp] at hx
        cases hx
    | ok =>
      constructor
      · rw [located_root hcp, located_root hcq]
        rfl
      · intro fs x y hx hy
        rw [located_root hcp, Except.ok.injEq, Prod.mk.injEq] at hx
        rw [located_root hcq, Except.ok.injEq, Prod.mk.injEq] at hy
        exact rootfs_unique ht heq hp hq hx.2 hy.2

/-- Paths with one normal form denote the same node, exactly when both are below the mount point as they are spelled,
or neither is. -/
theorem sameObject_iff : SameObject s rootOps p q ↔ SameMount p q :=
  ⟨fun h => sameMount_of_selected h.selected, sameObject_of_sameMount ht hp hq heq⟩

/-- They denote the same or nothing, exactly when moreover both can be walked or neither. -/
theorem located_eq_iff : located s rootOps p = located s rootOps q ↔ SameMount p q ∧ SameWalks s rootOps p q := by
  have hmount : located s rootOps p = located s rootOps q → SameMount p q :=
    fun h => sameMount_of_selected (congrArg (Except.map Prod.fst) h)
  rw [← and_iff_right_of_imp hmount]
  refine and_congr_right fun hm => ?_
  rw [SameWalks]
  cases hcp : covers sysPoint p with
  | true =>
    have hcq : covers sysPoint q = true := hm.symm.trans hcp
    rw [if_pos rfl, located_covered hcp, located_covered hcq, Except.ok.injEq, Prod.mk.injEq, eq_self, true_and,
      eq_iff_isSome fun x y => sysfs_unique heq hcp hcq, isSome_objectAt ht (relative_ne_nil hcp),
      isSome_objectAt ht (relative_ne_nil hcq)]
  | false =>
    have hcq : covers sysPoint q = false := hm.symm.trans hcp
    rw [if_neg Bool.false_ne_true]
    cases rootOps with
    | error e =>
      rw [located_missing hcp, located_missing hcq]
      simp
    | ok =>
      rw [located_root hcp, located_root hcq, Except.ok.injEq, Prod.mk.injEq, eq_self, true_and,
        eq_iff_isSome fun x y => rootfs_unique ht heq hp hq, isSome_objectAt ht hp, isSome_objectAt ht hq]
      simp

end Equivalent

/-- In every run from `init`, for all absolute paths with one normal form. -/
theorem mount_spellings_iff (l : List FsOp) :
    Run.Always VfsState.step (fun s => ∀ rootOps p q, p.head? = some SLASH → q.head? = some SLASH →
      normal (partsOf p) = normal (partsOf q) →
        (SameObject s rootOps p q ↔ SameMount p q) ∧
          (located s rootOps p = located s rootOps q ↔ SameMount p q ∧ SameWalks s rootOps p q)) .init l := by
  refine Run.always_of_invariant (I := VfsState.Tree) (G := fun _ _ => True) (fun _ op h _ => h.step op) ?_
    VfsState.init_tree Run.along_true
  intro s ht rootOps p q hp hq heq
  have hp : p ≠ [] := by
    rintro rfl
    cases hp
  have hq : q ≠ [] := by
    rintro rfl
    cases hq
  exact ⟨sameObject_iff ht hp hq heq, located_eq_iff ht hp hq heq⟩

/-- `/sys/.` is `/sys`. -/
theorem mount_spellings_dot : SameObject .init (.ok ()) (sysPoint ++ [SLASH, DOT]) sysPoint :=
  (mount_spellings_iff [] (.ok ()) (sysPoint ++ [SLASH, DOT]) sysPoint rfl rfl (by decide)).1.mpr rfl

/-- `//sys`. -/
def doubledSlash : List Byte := SLASH :: sysPoint

/-- `//sys` is `/sys` in the file system in memory. -/
theorem doubled_slash_differs :
    doubledSlash.head? = some SLASH ∧ sysPoint.head? = some SLASH ∧
      normal (partsOf doubledSlash) = normal (partsOf sysPoint) ∧
        ¬ SameObject .init (.ok ()) doubledSlash sysPoint := by
  refine ⟨rfl, rfl, by decide, fun h => ?_⟩
  have hsel := h.selected
  rw [located_root (by decide), located_covered (by decide)] at hsel
  cases hsel

end Pyremu.Sittim
