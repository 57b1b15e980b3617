import Pyremu.Sittim.RamfsFiles
import Pyremu.Sittim.RamfsPath

/-!
# Nodes only come to be

A node that was given out keeps its kind and its name for good, wherever it is
linked. The name of a new one is made of bytes of the path.
-/

namespace Pyremu.Sittim

namespace VfsState

/-- New names are made of the given bytes. -/
structure Grows (bytes : List Byte) (s s' : VfsState) : Prop where
  nextNode : s.nextNode ≤ s'.nextNode
  node : ∀ c : NodeId, c.val < s.nextNode → (s'.nodes c).kind = (s.nodes c).kind ∧ (s'.nodes c).name = (s.nodes c).name
  fresh : ∀ c : NodeId, s.nextNode ≤ c.val → c.val < s'.nextNode → (s'.nodes c).name ⊆ bytes

variable {s s' : VfsState} {bytes path name : List Byte} {d n new : NodeId}

theorem Grows.refl (bytes : List Byte) (s : VfsState) : Grows bytes s s :=
  ⟨le_rfl, fun _ _ => ⟨rfl, rfl⟩, fun _ hge hlt => absurd hlt (Nat.not_lt.mpr hge)⟩

theorem Grows.trans {s'' : VfsState} (h : Grows bytes s s') (h' : Grows bytes s' s'') : Grows bytes s s'' := by
  refine ⟨h.nextNode.trans h'.nextNode, fun c hc => ?_, fun c hge hlt => ?_⟩
  · obtain ⟨hkind, hname⟩ := h.node c hc
    obtain ⟨hkind', hname'⟩ := h'.node c (hc.trans_le h.nextNode)
    exact ⟨hkind'.trans hkind, hname'.trans hname⟩
  · rcases Nat.lt_or_ge c.val s'.nextNode with hlt' | hge'
    · rw [(h'.node c hlt').2]
      exact h.fresh c hge hlt'
    · exact h'.fresh c hge' hlt

theorem SameLinks.grows (h : SameLinks s s') : Grows bytes s s' := by
  refine ⟨h.nextNode.ge, fun c _ => ⟨(h.node c).2.2.2.2, (h.node c).2.2.2.1⟩, fun c hge hlt => ?_⟩
  rw [h.nextNode] at hlt
  exact absurd hlt (Nat.not_lt.mpr hge)

theorem Created.grows (h : Created s s' d new name) (hsub : name ⊆ bytes) : Grows bytes s s' := by
  refine ⟨?_, fun c hc => ?_, fun c hge hlt => ?_⟩
  · rw [h.nextNode]
    exact Nat.le_succ _
  · have hne : c ≠ new := by
      rintro rfl
      rw [h.index] at hc
      exact Nat.lt_irrefl _ hc
    rw [h.name, if_neg hne]
    exact ⟨h.kind c hne, rfl⟩
  · have hnew : c = new := by
      apply Fin.ext
      rw [h.nextNode] at hlt
      rw [h.index]
      omega
    rw [h.name, if_pos hnew]
    exact hsub

theorem grows_createChild (hd : d.val < s.nextNode) (hsub : name ⊆ bytes) (kind : VfsKind) (mode : BitVec 32) :
    Grows bytes s (s.createChild d name kind mode).1 := by
  rcases createChild_cases hd name kind mode with heq | ⟨s', new, heq, hc⟩
  · rw [heq]
    exact .refl bytes s
  · rw [heq]
    exact hc.grows hsub

/-- The link that skips the child is all that changes. -/
theorem Kids.grows_removeChild {l : List NodeId} (h : s.Kids d l) (target : NodeId) :
    Grows bytes s (s.removeChild d target) := by
  rcases h.removeChild target with ⟨_, heq⟩ | ⟨_, _, q, node, _, heq, _, _, hname, hkind, _⟩
  · rw [heq]
    exact .refl bytes s
  · rw [heq]
    refine ⟨le_rfl, fun c _ => ?_, fun c hge hlt => absurd hlt (Nat.not_lt.mpr hge)⟩
    by_cases hc : c = q
    · subst hc
      rw [setNode_same]
      exact ⟨hkind, hname⟩
    · rw [setNode_other hc]
      exact ⟨rfl, rfl⟩

/-! ## Names of a path -/

theorem nextName_subset {rest : List Byte} (h : nextName path = some (name, rest)) (hsub : path ⊆ bytes) :
    name ⊆ bytes ∧ rest ⊆ bytes := by
  rw [nextName] at h
  have hdrop : path.dropWhile (· == SLASH) ⊆ bytes := List.Subset.trans (List.dropWhile_sublist _).subset hsub
  split at h
  · cases h
  · rename_i b tail heq
    obtain ⟨rfl, rfl⟩ := Prod.mk.inj (Option.some.inj h)
    rw [heq] at hdrop
    exact ⟨List.Subset.trans (List.takeWhile_sublist _).subset hdrop,
      List.Subset.trans (List.dropWhile_sublist _).subset hdrop⟩

/-- The directory of the last name may be the root, which the path need not spell. -/
theorem splitPath_subset {dirPath : List Byte} (h : splitPath path = .ok (dirPath, name)) :
    dirPath ⊆ SLASH :: path ∧ name ⊆ SLASH :: path := by
  have hroot : [SLASH] ⊆ SLASH :: path := List.cons_subset_cons _ (List.nil_subset _)
  have hhead : path.rdropWhile (· == SLASH) ⊆ SLASH :: path :=
    List.subset_cons_of_subset _ (List.rdropWhile_prefix _ _).subset
  have hlast : (path.rdropWhile (· == SLASH)).rtakeWhile (· != SLASH) ⊆ SLASH :: path :=
    List.Subset.trans (List.rtakeWhile_suffix _ _).subset hhead
  have hbefore : ((path.rdropWhile (· == SLASH)).rdropWhile (· != SLASH)).dropLast ⊆ SLASH :: path :=
    List.Subset.trans (List.dropLast_subset _) (List.Subset.trans (List.rdropWhile_prefix _ _).subset hhead)
  rw [splitPath] at h
  split at h
  · cases h
  split at h
  · cases h
    exact ⟨hroot, List.nil_subset _⟩
  split at h
  · cases h
    exact ⟨hhead, hlast⟩
  split at h
  · cases h
  split at h
  · cases h
    exact ⟨hhead, List.nil_subset _⟩
  · cases h
    refine ⟨?_, hlast⟩
    split
    · exact hroot
    · exact hbefore

theorem splitTarget_child {dir : NodeId} (h : s.splitTarget path = .ok (.child dir name)) : name ⊆ SLASH :: path := by
  rw [splitTarget] at h
  split at h
  · cases h
  · rename_i hsplit
    split at h
    · cases h
    split at h
    · cases h
    split at h
    · cases h
    · cases h
      exact (splitPath_subset hsplit).2

/-! ## The operations -/

theorem Tree.grows_resolveLoop (h : s.Tree) (isCreate : Bool) (cur : NodeId) (hcur : cur.val < s.nextNode)
    (hsub : path ⊆ bytes) : Grows bytes s (VfsState.resolveLoop isCreate s cur path).1 := by
  fun_induction VfsState.resolveLoop isCreate s cur path with
  | case1 | case2 | case5 | case9 => exact .refl bytes _
  | case3 s cur path name rest hnext =>
    rename_i ih
    exact ih h hcur (nextName_subset hnext hsub).2
  | case4 s cur path name rest hnext =>
    rename_i ih
    exact ih h (h.parent_lt hcur) (nextName_subset hnext hsub).2
  | case6 s cur path name rest hnext =>
    rename_i hfound ih
    exact ih h (h.findChild_lt hcur hfound).1 (nextName_subset hnext hsub).2
  | case7 s cur path name rest hnext =>
    rename_i hcreate
    have hc := grows_createChild hcur (nextName_subset hnext hsub).1 .dir 0o755
    rw [hcreate] at hc
    exact hc
  | case8 s cur path name rest hnext =>
    rename_i hlen hfree _ s' created hcreate ih
    have hc := grows_createChild hcur (nextName_subset hnext hsub).1 .dir 0o755
    have ht := h.createChild hcur (Nat.lt_of_not_le hlen) hfree .dir 0o755
    rw [hcreate] at hc ht
    exact hc.trans (ih ht.1 (ht.2.2 created rfl) (nextName_subset hnext hsub).2)

theorem Tree.grows_openNode (h : s.Tree) (path : List Byte) (flags mode : BitVec 32) :
    Grows (SLASH :: path) s (s.openNode path flags mode).1 := by
  rw [VfsState.openNode]
  split
  · exact .refl _ s
  · split <;> exact .refl _ s
  · rename_i d name ht
    split
    · split
      · exact .refl _ s
      · have hc := grows_createChild (h.splitTarget ht).1 (splitTarget_child ht)
          (if flags &&& O_DIRECTORY ≠ 0 then .dir else .file) mode
        split
        · rename_i hcreate
          rwa [hcreate] at hc
        · rename_i hcreate
          rwa [hcreate] at hc
    · split <;> exact .refl _ s

theorem Tree.grows_openPath (h : s.Tree) (path : List Byte) (flags mode : BitVec 32) :
    Grows (SLASH :: path) s (s.openPath path flags mode).1 := by
  have ho := h.grows_openNode path flags mode
  rw [VfsState.openPath]
  cases hopen : s.openNode path flags mode with
  | mk s' r =>
    rw [hopen] at ho
    cases r with
    | error e => exact ho
    | ok m =>
      dsimp only
      split
      · exact ho
      split
      · exact ho
      split
      · exact ho.trans (sameLinks_truncateNode m 0).grows
      · exact ho

theorem Tree.grows_mkdir (h : s.Tree) (path : List Byte) (mode : BitVec 32) : Grows (SLASH :: path) s (s.mkdir path mode).1 := by
  rw [VfsState.mkdir]
  split
  · exact .refl _ s
  · exact .refl _ s
  · rename_i d name ht
    split
    · exact .refl _ s
    · have hc := grows_createChild (h.splitTarget ht).1 (splitTarget_child ht) .dir mode
      split
      · rename_i hcreate
        rwa [hcreate] at hc
      · rename_i hcreate
        rwa [hcreate] at hc

theorem Tree.grows_unlinkNode (h : s.Tree) {target : NodeId} (ht : target.val < s.nextNode) (flags : BitVec 32) :
    Grows bytes s (s.unlinkNode target flags).1 := by
  rw [VfsState.unlinkNode]
  split
  · exact .refl _ s
  split
  · exact .refl _ s
  split
  · exact .refl _ s
  · rename_i hparent
    split
    · exact .refl _ s
    · obtain ⟨l, hl⟩ := h.kids _ ((Fin.lt_def.mp (h.up ht hparent)).trans ht)
      exact hl.grows_removeChild target

theorem Tree.grows_unlink (h : s.Tree) (path : List Byte) (flags : BitVec 32) :
    Grows bytes s (s.unlink path flags).1 := by
  rw [VfsState.unlink]
  split
  · exact .refl _ s
  · rename_i d name ht
    split
    · exact .refl _ s
    · rename_i hfind
      exact h.grows_unlinkNode (h.findChild_lt (h.splitTarget ht).1 hfind).1 flags
  · rename_i ht
    split
    · exact h.grows_unlinkNode (h.splitTarget ht) flags
    · split
      · exact .refl _ s
      · split <;> exact .refl _ s

theorem Tree.grows_injectTarget (h : s.Tree) (path : List Byte) : Grows (SLASH :: path) s (s.injectTarget path).1 := by
  rw [VfsState.injectTarget]
  split
  · exact .refl _ s
  · rename_i dirPath name hsplit
    split
    · exact .refl _ s
    · have hr := h.resolveLoop true 0 h.rootIn dirPath
      have hg := h.grows_resolveLoop true 0 h.rootIn (splitPath_subset hsplit).1
      rw [resolve]
      split
      · rename_i hresolve
        rw [hresolve] at hg
        exact hg
      · rename_i d hresolve
        rw [hresolve] at hr hg
        split
        · exact hg.trans (grows_createChild (hr.node d rfl) (splitPath_subset hsplit).2 .file 0o644)
        · exact hg

theorem Tree.grows_injectFile (h : s.Tree) (path data : List Byte) : Grows (SLASH :: path) s (s.injectFile path data).1 := by
  have hi := h.grows_injectTarget path
  rw [VfsState.injectFile]
  cases htarget : s.injectTarget path with
  | mk s' target =>
    rw [htarget] at hi
    cases target with
    | none => exact hi
    | some m =>
      have hw := (sameLinks_truncateNode (s := s') m 0).trans (sameLinks_writeFile m 0 data)
      dsimp only
      split
      · exact hi
      · cases hwrite : (s'.truncateNode m 0).writeFile m 0 data with
        | mk s'' r =>
          rw [hwrite] at hw
          cases r <;> exact hi.trans hw.grows

end VfsState

/-- The path whose names are created. -/
def FsOp.path : FsOp → List Byte
  | .openPath path _ _ => path
  | .mkdir path _ => path
  | .injectFile path _ => path
  | _ => []

namespace VfsState

variable {s : VfsState}

theorem Tree.grows_step (h : s.Tree) (op : FsOp) : Grows (SLASH :: op.path) s (s.step op) := by
  cases op with
  | openPath path flags mode => exact h.grows_openPath path flags mode
  | readNode idx offset len => exact .refl _ s
  | writeNode idx offset buf =>
    rw [VfsState.step, writeNode]
    split
    · exact .refl _ s
    · split
      · exact .refl _ s
      · exact (sameLinks_writeFile _ offset buf).grows
  | truncate idx len =>
    rw [VfsState.step, truncate]
    split
    · exact .refl _ s
    · split
      · exact .refl _ s
      · exact (sameLinks_truncateNode _ len).grows
  | mkdir path mode => exact h.grows_mkdir path mode
  | unlink path flags => exact h.grows_unlink path flags
  | injectFile path data => exact h.grows_injectFile path data

end VfsState

end Pyremu.Sittim
