import Pyremu.Sittim.Ramfs
import Pyremu.Lib.Splice

/-!
# Files are independent byte sequences

A byte of the arena is live when it lies in the part of a file. Live parts do
not meet and everything behind the used part is zero, so each operation acts on
the bytes of one file only.
-/

namespace Pyremu.Sittim

open Splice

/-! ## The copying loops -/

theorem storeBytes_below {data : Nat → Byte} {base i : Nat} (buf : List Byte) (h : i < base) :
    storeBytes data base buf i = data i := by
  induction buf generalizing data base with
  | nil => rfl
  | cons b buf ih => rw [storeBytes, ih (by omega), Function.update_of_ne (by omega)]

theorem storeBytes_above {data : Nat → Byte} {base i : Nat} {buf : List Byte} (h : base + buf.length ≤ i) :
    storeBytes data base buf i = data i := by
  induction buf generalizing data base with
  | nil => rfl
  | cons b buf ih =>
    rw [List.length_cons] at h
    rw [storeBytes, ih (by omega), Function.update_of_ne (by omega)]

theorem storeBytes_inside (data : Nat → Byte) (base : Nat) {buf : List Byte} {i : Nat} (h : i < buf.length) :
    some (storeBytes data base buf (base + i)) = buf[i]? := by
  induction buf generalizing data base i with
  | nil => cases h
  | cons b buf ih =>
    cases i with
    | zero =>
      rw [storeBytes, storeBytes_below buf (by omega), Nat.add_zero, Function.update_self]
      rfl
    | succ i =>
      rw [storeBytes, show base + (i + 1) = base + 1 + i by omega, ih _ _ (Nat.lt_of_succ_lt_succ h),
        List.getElem?_cons_succ]

theorem copyBytes_apply {data : Nat → Byte} {dst src n : Nat} (h : src + n ≤ dst) (i : Nat) :
    copyBytes data dst src n i = if dst ≤ i ∧ i < dst + n then data (src + (i - dst)) else data i := by
  induction n generalizing i with
  | zero => rw [copyBytes, if_neg (by omega)]
  | succ n ih =>
    have hsrc := ih (by omega) (src + n)
    rw [if_neg (by omega)] at hsrc
    rw [copyBytes]
    by_cases hi : i = dst + n
    · subst hi
      rw [Function.update_self, hsrc, if_pos (by omega), Nat.add_sub_cancel_left]
    · rw [Function.update_of_ne hi, ih (by omega)]
      by_cases hin : dst ≤ i ∧ i < dst + n
      · rw [if_pos hin, if_pos (by omega)]
      · rw [if_neg hin, if_neg (by omega)]

namespace VfsState

variable (s : VfsState)

/-- The bytes of a file. -/
def contents (n : NodeId) : List Byte := slice s.data (s.nodes n).dataOff (s.nodes n).size

/-- The byte of the arena is one of the file. -/
def Live (n : NodeId) (i : Nat) : Prop := (s.nodes n).dataOff ≤ i ∧ i < (s.nodes n).dataOff + (s.nodes n).size

/-- Live parts do not meet and lie in the used part, behind which the arena is zero. -/
structure Separated : Prop where
  below : ∀ n i, s.Live n i → i < s.dataUsed
  disjoint : ∀ n m i, s.Live n i → s.Live m i → n = m
  zero : ∀ i, s.dataUsed ≤ i → s.data i = 0
  fits : s.dataUsed ≤ DATA_ARENA

/-- What an operation does to the bytes of the files, as if each file were a sequence of its own. -/
def ActsOnOne (s : VfsState) : FsOp → Prop
  | .openPath path flags mode =>
    match s.openPath path flags mode with
    | (s', .ok n) =>
      s'.contents = if truncates flags (s'.nodes n) then Function.update s.contents n [] else s.contents
    | (s', .error _) => s'.contents = s.contents
  | .readNode idx offset len =>
    ∀ n, nodeOf idx = some n → (s.nodes n).kind = .file →
      s.readNode idx offset len = .ok (((s.contents n).drop offset).take len)
  | .writeNode idx offset buf =>
    match s.writeNode idx offset buf with
    | (s', .ok len) =>
      len = buf.length ∧ ∃ n, nodeOf idx = some n ∧ (s.nodes n).kind = .file ∧
        s'.contents = Function.update s.contents n (if buf = [] then s.contents n else splice 0 (s.contents n) offset buf)
    | (s', .error _) => s' = s
  | .truncate idx len =>
    match s.truncate idx len with
    | (s', .ok) => ∃ n, nodeOf idx = some n ∧ (s.nodes n).kind = .file ∧
        s'.contents = Function.update s.contents n ((s.contents n).take len)
    | (s', _) => s' = s
  | .mkdir path mode => (s.mkdir path mode).1.contents = s.contents
  | .unlink path flags => (s.unlink path flags).1.contents = s.contents
  | .injectFile path data =>
    match (s.injectTarget path).2, (s.injectFile path data) with
    | some n, (s', true) => s'.contents = Function.update s.contents n data
    | some n, (s', false) => s'.contents = s.contents ∨ s'.contents = Function.update s.contents n []
    | none, (s', b) => b = false ∧ s'.contents = s.contents

end VfsState

/-- A request whose end is representable; slices of Rust are no longer than that. -/
def FsOp.Bounded : FsOp → Prop
  | .writeNode _ offset buf => offset + buf.length < 2 ^ 63
  | .injectFile _ data => data.length < 2 ^ 63
  | _ => True

namespace VfsState

variable {s s' : VfsState} {n m : NodeId}

/-- Nodes that are not yet given out are empty directories. -/
def Fresh (s : VfsState) : Prop := ∀ n : NodeId, s.nextNode ≤ n.val → (s.nodes n).kind = .dir ∧ (s.nodes n).size = 0

structure Inv (s : VfsState) : Prop where
  separated : s.Separated
  fresh : s.Fresh
  anchored : ∀ n, (s.nodes n).dataOff ≤ DATA_ARENA

theorem contents_length : (s.contents n).length = (s.nodes n).size := slice_length

/-- The tree changes, and no byte of a file. -/
structure Quiet (s s' : VfsState) : Prop where
  data : s'.data = s.data
  dataUsed : s'.dataUsed = s.dataUsed
  nextNode : s.nextNode ≤ s'.nextNode
  size : ∀ n, (s'.nodes n).size = (s.nodes n).size
  dataOff : ∀ n, (s.nodes n).size ≠ 0 → (s'.nodes n).dataOff = (s.nodes n).dataOff
  kind : ∀ n : NodeId, s'.nextNode ≤ n.val → (s'.nodes n).kind = (s.nodes n).kind
  anchored : ∀ n, (s'.nodes n).dataOff ≤ (s.nodes n).dataOff

theorem Quiet.refl (s : VfsState) : Quiet s s :=
  ⟨rfl, rfl, le_rfl, fun _ => rfl, fun _ _ => rfl, fun _ _ => rfl, fun _ => le_rfl⟩

theorem Quiet.trans {s'' : VfsState} (h : Quiet s s') (h' : Quiet s' s'') : Quiet s s'' where
  data := h'.data.trans h.data
  dataUsed := h'.dataUsed.trans h.dataUsed
  nextNode := h.nextNode.trans h'.nextNode
  size n := (h'.size n).trans (h.size n)
  dataOff n hn := (h'.dataOff n (by rwa [h.size n])).trans (h.dataOff n hn)
  kind n hn := (h'.kind n hn).trans (h.kind n (h'.nextNode.trans hn))
  anchored n := (h'.anchored n).trans (h.anchored n)

theorem Quiet.contents (h : Quiet s s') : s'.contents = s.contents := by
  funext n
  rw [VfsState.contents, VfsState.contents, h.data, h.size]
  by_cases hn : (s.nodes n).size = 0
  · rw [hn, slice_zero, slice_zero]
  · rw [h.dataOff n hn]

theorem Quiet.live (h : Quiet s s') {i : Nat} : s'.Live n i ↔ s.Live n i := by
  rw [Live, Live, h.size]
  by_cases hn : (s.nodes n).size = 0
  · rw [hn]
    omega
  · rw [h.dataOff n hn]

theorem Quiet.fresh (h : Quiet s s') (hs : s.Fresh) : s'.Fresh := by
  intro n hn
  rw [h.kind n hn, h.size n]
  exact hs n (h.nextNode.trans hn)

theorem Quiet.inv (h : Quiet s s') (hs : s.Inv) : s'.Inv := by
  constructor
  · refine ⟨fun n i hi => ?_, fun n m i hn hm => ?_, fun i hi => ?_, ?_⟩
    · rw [h.dataUsed]
      exact hs.separated.below n i (h.live.mp hi)
    · exact hs.separated.disjoint n m i (h.live.mp hn) (h.live.mp hm)
    · rw [h.data]
      rw [h.dataUsed] at hi
      exact hs.separated.zero i hi
    · rw [h.dataUsed]
      exact hs.separated.fits
  · exact h.fresh hs.fresh
  · exact fun n => (h.anchored n).trans (hs.anchored n)

/-- Links and names do not matter. -/
theorem quiet_setNode {node : RamfsNode} (hsize : node.size = (s.nodes n).size)
    (hoff : node.dataOff = (s.nodes n).dataOff) (hkind : node.kind = (s.nodes n).kind) : Quiet s (s.setNode n node) := by
  have hnodes : ∀ m, ((s.setNode n node).nodes m).size = (s.nodes m).size ∧
      ((s.setNode n node).nodes m).dataOff = (s.nodes m).dataOff ∧
      ((s.setNode n node).nodes m).kind = (s.nodes m).kind := by
    intro m
    rw [setNode]
    dsimp only
    by_cases hm : m = n
    · subst hm
      rw [Function.update_self]
      exact ⟨hsize, hoff, hkind⟩
    · rw [Function.update_of_ne hm]
      exact ⟨rfl, rfl, rfl⟩
  exact ⟨rfl, rfl, le_rfl, fun m => (hnodes m).1, fun m _ => (hnodes m).2.1, fun m _ => (hnodes m).2.2,
    fun m => (hnodes m).2.1.le⟩

theorem Fresh.quiet_allocNode (hs : s.Fresh) (kind : VfsKind) (mode : BitVec 32) : Quiet s (s.allocNode kind mode).1 := by
  rw [allocNode]
  split
  · rename_i hlt
    have hfresh := hs ⟨s.nextNode, hlt⟩ le_rfl
    refine ⟨rfl, rfl, Nat.le_succ _, fun m => ?_, fun m hm => ?_, fun m hm => ?_, fun m => ?_⟩
    all_goals
      rw [setNode]
      dsimp only
      by_cases heq : m = ⟨s.nextNode, hlt⟩
    · subst heq
      rw [Function.update_self, hfresh.2]
      rfl
    · rw [Function.update_of_ne heq]
    · subst heq
      exact absurd hfresh.2 hm
    · rw [Function.update_of_ne heq]
    · subst heq
      exact absurd hm (Nat.not_succ_le_self _)
    · rw [Function.update_of_ne heq]
    · subst heq
      rw [Function.update_self]
      exact Nat.zero_le _
    · rw [Function.update_of_ne heq]
  · exact Quiet.refl s

theorem quiet_linkChild (parent child : NodeId) (name : List Byte) : Quiet s (s.linkChild parent child name) := by
  have hchild : Quiet s (s.setNode child { s.nodes child with
      name := name, parent := some parent, nextSibling := (s.nodes parent).firstChild }) := quiet_setNode rfl rfl rfl
  exact hchild.trans (quiet_setNode rfl rfl rfl)

theorem Fresh.quiet_createChild (hs : s.Fresh) (parent : NodeId) (name : List Byte) (kind : VfsKind) (mode : BitVec 32) :
    Quiet s (s.createChild parent name kind mode).1 := by
  have halloc := hs.quiet_allocNode kind mode
  rw [createChild]
  cases hnode : s.allocNode kind mode with
  | mk s₁ child =>
    rw [hnode] at halloc
    cases child with
    | none => exact halloc
    | some child => exact halloc.trans (quiet_linkChild parent child name)

theorem quiet_removeChildLoop {parent target : NodeId} (turns : Nat) :
    ∀ prev child, ∀ s', s.removeChildLoop parent target turns prev child = some s' → Quiet s s' := by
  induction turns with
  | zero =>
    intro prev child s' h
    cases child with
    | none =>
      cases h
      exact Quiet.refl s
    | some child => cases h
  | succ turns ih =>
    intro prev child s' h
    cases child with
    | none =>
      cases h
      exact Quiet.refl s
    | some child =>
      unfold removeChildLoop at h
      split at h
      · exact ih _ _ s' h
      · cases prev with
        | none =>
          cases h
          exact quiet_setNode rfl rfl rfl
        | some p =>
          cases h
          exact quiet_setNode rfl rfl rfl

theorem quiet_removeChild (parent target : NodeId) : Quiet s (s.removeChild parent target) := by
  rw [removeChild]
  cases h : s.removeChildLoop parent target MAX_NODES none (s.nodes parent).firstChild with
  | none => exact Quiet.refl s
  | some s' => exact quiet_removeChildLoop _ _ _ s' h

theorem Fresh.quiet_resolveLoop (hs : s.Fresh) (isCreate : Bool) (cur : NodeId) (path : List Byte) :
    Quiet s (resolveLoop isCreate s cur path).1 := by
  fun_induction resolveLoop isCreate s cur path with
  | case1 | case2 | case5 | case9 => exact Quiet.refl _
  | case3 | case4 | case6 =>
    rename_i ih
    exact ih hs
  | case7 s cur path name rest =>
    rename_i hcreate
    have hquiet := hs.quiet_createChild cur name .dir 0o755
    rwa [hcreate] at hquiet
  | case8 s cur path name rest =>
    rename_i hcreate ih
    have hquiet := hs.quiet_createChild cur name .dir 0o755
    rw [hcreate] at hquiet
    exact hquiet.trans (ih (hquiet.fresh hs))

/-! ## Writing -/

/-- What a write that succeeds does. -/
structure Writes (s : VfsState) (n : NodeId) (offset : Nat) (buf : List Byte) (s' : VfsState) : Prop where
  contents : s'.contents = Function.update s.contents n (splice 0 (s.contents n) offset buf)
  separated : s'.Separated
  nextNode : s'.nextNode = s.nextNode
  others : ∀ m, m ≠ n → s'.nodes m = s.nodes m
  kind : (s'.nodes n).kind = (s.nodes n).kind
  anchored : (s.nodes n).dataOff ≤ DATA_ARENA → (s'.nodes n).dataOff ≤ DATA_ARENA

/-- The bytes of the file at its new place and those of all others at their old one. -/
theorem contents_write {offset : Nat} {buf : List Byte} (hothers : ∀ m, m ≠ n → s'.nodes m = s.nodes m)
    (hlive : ∀ m, m ≠ n → ∀ i, s.Live m i → s'.data i = s.data i)
    (hsize : (s'.nodes n).size = max (s.nodes n).size (offset + buf.length))
    (hbefore : ∀ i < offset, s'.data ((s'.nodes n).dataOff + i) =
      if i < (s.nodes n).size then s.data ((s.nodes n).dataOff + i) else 0)
    (hbuf : ∀ i < buf.length, some (s'.data ((s'.nodes n).dataOff + offset + i)) = buf[i]?)
    (hafter : ∀ i, offset + buf.length ≤ i → i < (s.nodes n).size →
      s'.data ((s'.nodes n).dataOff + i) = s.data ((s.nodes n).dataOff + i)) :
    s'.contents = Function.update s.contents n (splice 0 (s.contents n) offset buf) := by
  have hget : ∀ i, i < (s.nodes n).size → (s.contents n)[i]? = some (s.data ((s.nodes n).dataOff + i)) := by
    intro i hi
    rw [VfsState.contents, getElem?_slice, if_pos hi]
  funext m
  by_cases hm : m = n
  · subst hm
    rw [Function.update_self]
    apply slice_eq_splice hsize _ contents_length
    · intro i hi
      rw [← Nat.add_assoc]
      exact hbuf i hi
    · intro i hi hn
      rw [hafter i hi hn, hget i hn]
    · intro i hi
      rw [hbefore i hi]
      by_cases hn : i < (s.nodes m).size
      · rw [if_pos hn, if_pos hn, List.getD_eq_getElem?_getD, hget i hn]
        rfl
      · rw [if_neg hn, if_neg hn]
  · rw [Function.update_of_ne hm, VfsState.contents, VfsState.contents, hothers m hm]
    apply slice_congr
    intro i hi
    exact hlive m hm _ ⟨Nat.le_add_right _ _, Nat.add_lt_add_left hi _⟩

theorem setNode_other {node : RamfsNode} (h : m ≠ n) : (s.setNode n node).nodes m = s.nodes m :=
  Function.update_of_ne h ..

theorem setNode_same {node : RamfsNode} : (s.setNode n node).nodes n = node := Function.update_self ..

theorem Separated.overwrite (h : s.Separated) {offset : Nat} {buf : List Byte}
    (hin : offset + buf.length ≤ (s.nodes n).size) : Writes s n offset buf (s.overwrite n offset buf) := by
  have hdata : ∀ i, i < (s.nodes n).dataOff + offset ∨ (s.nodes n).dataOff + offset + buf.length ≤ i →
      (s.overwrite n offset buf).data i = s.data i := by
    rintro i (hi | hi)
    · exact storeBytes_below buf hi
    · exact storeBytes_above hi
  have hlive : ∀ i, (s.nodes n).dataOff + offset ≤ i → i < (s.nodes n).dataOff + offset + buf.length → s.Live n i := by
    intro i hlo hhi
    constructor <;> omega
  refine ⟨contents_write (fun _ _ => rfl) ?_ (Nat.max_eq_left hin).symm ?_ ?_ ?_,
    ⟨h.below, h.disjoint, ?_, h.fits⟩, rfl, fun _ _ => rfl, rfl, fun hle => hle⟩
  · intro m hm i hi
    apply hdata
    by_contra hno
    exact hm (h.disjoint m n i hi (hlive i (by omega) (by omega)))
  · intro i hi
    rw [if_pos (by omega)]
    exact hdata _ (.inl (Nat.add_lt_add_left hi _))
  · intro i hi
    exact storeBytes_inside _ _ hi
  · intro i hi _
    apply hdata
    right
    show _ ≤ (s.nodes n).dataOff + i
    omega
  · intro i hi
    have hi : s.dataUsed ≤ i := hi
    have hout : i < (s.nodes n).dataOff + offset ∨ (s.nodes n).dataOff + offset + buf.length ≤ i := by
      by_contra hno
      have := h.below n i (hlive i (by omega) (by omega))
      omega
    rw [hdata i hout]
    exact h.zero i hi

/-- A file moves or grows into the unused part of the arena. -/
theorem Separated.extend (h : s.Separated) {off size used : Nat} {node : RamfsNode} {data : Nat → Byte}
    (hoff : node.dataOff = off) (hsize : node.size = size) (hnew : ∀ i, off ≤ i → i < off + size → s.Live n i ∨ s.dataUsed ≤ i)
    (hused : off + size ≤ used) (hle : s.dataUsed ≤ used) (hfits : used ≤ DATA_ARENA)
    (hzero : ∀ i, used ≤ i → data i = s.data i) :
    Separated { s.setNode n node with data := data, dataUsed := used } := by
  have hother : ∀ {m i}, m ≠ n → (Live { s.setNode n node with data := data, dataUsed := used } m i ↔ s.Live m i) := by
    intro m i hm
    rw [Live, Live, show ({ s.setNode n node with data := data, dataUsed := used } : VfsState).nodes m = s.nodes m from
      setNode_other hm]
  have hself : ∀ {i}, Live { s.setNode n node with data := data, dataUsed := used } n i ↔ off ≤ i ∧ i < off + size := by
    intro i
    rw [Live, show ({ s.setNode n node with data := data, dataUsed := used } : VfsState).nodes n = node from
      setNode_same, hoff, hsize]
  have hmeet : ∀ {m i}, m ≠ n → Live { s.setNode n node with data := data, dataUsed := used } n i → ¬ s.Live m i := by
    intro m i hm hn hi
    rw [hself] at hn
    rcases hnew i hn.1 hn.2 with hn | hn
    · exact hm (h.disjoint m n i hi hn)
    · have := h.below m i hi
      omega
  constructor
  · intro m i hi
    by_cases hm : m = n
    · subst hm
      rw [hself] at hi
      exact Nat.lt_of_lt_of_le hi.2 hused
    · exact Nat.lt_of_lt_of_le (h.below m i ((hother hm).mp hi)) hle
  · intro m k i hi hk
    by_cases hm : m = n
    · by_cases hkn : k = n
      · exact hm.trans hkn.symm
      · subst hm
        exact absurd ((hother hkn).mp hk) (hmeet hkn hi)
    · by_cases hkn : k = n
      · subst hkn
        exact absurd ((hother hm).mp hi) (hmeet hm hk)
      · exact h.disjoint m k i ((hother hm).mp hi) ((hother hkn).mp hk)
  · intro i hi
    exact (hzero i hi).trans (h.zero i (hle.trans hi))
  · exact hfits

theorem DATA_ARENA_lt : DATA_ARENA < 2 ^ 32 := by decide

theorem Separated.growInPlace (h : s.Separated) {offset : Nat} {buf : List Byte} (hbuf : buf ≠ [])
    (hgrow : (s.nodes n).size < offset + buf.length)
    (htail : (s.nodes n).dataOff + (s.nodes n).size = s.dataUsed)
    (hroom : (s.nodes n).dataOff + (offset + buf.length) ≤ DATA_ARENA) :
    Writes s n offset buf (s.growInPlace n offset buf) := by
  have hpos := List.length_pos_of_ne_nil hbuf
  have harena := DATA_ARENA_lt
  have hmod : (offset + buf.length) % 2 ^ 32 = offset + buf.length := Nat.mod_eq_of_lt (by omega)
  have hoff : ((s.growInPlace n offset buf).nodes n).dataOff = (s.nodes n).dataOff := by
    rw [show (s.growInPlace n offset buf).nodes n = _ from setNode_same]
  have hnew : ∀ i, (s.nodes n).dataOff ≤ i → i < (s.nodes n).dataOff + (offset + buf.length) →
      s.Live n i ∨ s.dataUsed ≤ i := by
    intro i hlo _
    rw [← htail, Live]
    omega
  have hused : (s.nodes n).dataOff + (offset + buf.length) =
      s.dataUsed + (offset + buf.length - (s.nodes n).size) := by omega
  refine ⟨contents_write (fun m hm => setNode_other hm) ?_ ?_ ?_ ?_ ?_,
    h.extend rfl hmod hnew hused.le (Nat.le_add_right _ _) (hused ▸ hroom) ?_, rfl, fun m hm => setNode_other hm, ?_,
    fun hle => hoff ▸ hle⟩
  · intro m hm i hi
    have hout : i < (s.nodes n).dataOff + offset ∨ (s.nodes n).dataOff + offset + buf.length ≤ i := by
      by_contra hno
      rcases hnew i (by omega) (by omega) with hn | hn
      · exact hm (h.disjoint m n i hi hn)
      · have := h.below m i hi
        omega
    rcases hout with hout | hout
    · exact storeBytes_below buf hout
    · exact storeBytes_above hout
  · rw [show (s.growInPlace n offset buf).nodes n = _ from setNode_same, hmod, Nat.max_eq_right hgrow.le]
  · intro i hi
    rw [hoff]
    have hdata : (s.growInPlace n offset buf).data ((s.nodes n).dataOff + i) = s.data ((s.nodes n).dataOff + i) :=
      storeBytes_below buf (Nat.add_lt_add_left hi _)
    rw [hdata]
    by_cases hn : i < (s.nodes n).size
    · rw [if_pos hn]
    · rw [if_neg hn]
      exact h.zero _ (by omega)
  · intro i hi
    rw [hoff]
    exact storeBytes_inside _ _ hi
  · intro i hi hn
    omega
  · intro i hi
    exact storeBytes_above (by omega)
  · rw [show (s.growInPlace n offset buf).nodes n = _ from setNode_same]

theorem Separated.relocate (h : s.Separated) {offset : Nat} {buf : List Byte} (hbuf : buf ≠ [])
    (hgrow : (s.nodes n).size < offset + buf.length) (hroom : s.dataUsed + (offset + buf.length) ≤ DATA_ARENA) :
    Writes s n offset buf (s.relocate n offset buf) := by
  have hpos := List.length_pos_of_ne_nil hbuf
  have harena := DATA_ARENA_lt
  have hmod : (offset + buf.length) % 2 ^ 32 = offset + buf.length := Nat.mod_eq_of_lt (by omega)
  have hoff : ((s.relocate n offset buf).nodes n).dataOff = s.dataUsed := by
    rw [show (s.relocate n offset buf).nodes n = _ from setNode_same]
  have hsrc : (s.nodes n).dataOff + (s.nodes n).size ≤ s.dataUsed ∨ (s.nodes n).size = 0 := by
    by_cases hz : (s.nodes n).size = 0
    · exact .inr hz
    · have := h.below n ((s.nodes n).dataOff + (s.nodes n).size - 1) ⟨by omega, by omega⟩
      omega
  have hcopy : ∀ i, copyBytes s.data s.dataUsed (s.nodes n).dataOff (s.nodes n).size i =
      if s.dataUsed ≤ i ∧ i < s.dataUsed + (s.nodes n).size then s.data ((s.nodes n).dataOff + (i - s.dataUsed))
      else s.data i := by
    intro i
    rcases hsrc with hsrc | hz
    · exact copyBytes_apply hsrc i
    · rw [hz, if_neg (by omega)]
      rfl
  have hbelow : ∀ i, i < s.dataUsed + offset → (s.relocate n offset buf).data i =
      if s.dataUsed ≤ i ∧ i < s.dataUsed + (s.nodes n).size then s.data ((s.nodes n).dataOff + (i - s.dataUsed))
      else s.data i := by
    intro i hi
    rw [← hcopy]
    exact storeBytes_below buf hi
  refine ⟨contents_write (fun m hm => setNode_other hm) ?_ ?_ ?_ ?_ ?_,
    h.extend rfl hmod (fun i hi _ => .inr hi) le_rfl (Nat.le_add_right _ _) hroom ?_, rfl,
    fun m hm => setNode_other hm, ?_, fun _ => hoff ▸ h.fits⟩
  · intro m hm i hi
    have hlt := h.below m i hi
    rw [hbelow i (by omega), if_neg (by omega)]
  · rw [show (s.relocate n offset buf).nodes n = _ from setNode_same, hmod, Nat.max_eq_right hgrow.le]
  · intro i hi
    rw [hoff, hbelow _ (by omega), Nat.add_sub_cancel_left]
    by_cases hn : i < (s.nodes n).size
    · rw [if_pos (by omega), if_pos hn]
    · rw [if_neg (by omega), if_neg hn]
      exact h.zero _ (by omega)
  · intro i hi
    rw [hoff]
    exact storeBytes_inside _ _ hi
  · intro i hi hn
    omega
  · intro i hi
    have hstore : (s.relocate n offset buf).data i = copyBytes s.data s.dataUsed (s.nodes n).dataOff (s.nodes n).size i :=
      storeBytes_above (by omega)
    rw [hcopy, if_neg (by omega)] at hstore
    exact hstore
  · rw [show (s.relocate n offset buf).nodes n = _ from setNode_same]

/-- No sum of the write wraps around. -/
def NoWrap (s : VfsState) (n : NodeId) (offset len : Nat) : Prop :=
  len = 0 ∨ 2 ^ 64 ≤ offset + len ∨ offset + len ≤ (s.nodes n).size ∨ s.dataUsed + (offset + len) < 2 ^ 64

theorem Separated.noWrap (h : s.Separated) {offset len : Nat} (hbound : offset + len < 2 ^ 63) :
    s.NoWrap n offset len := by
  have hfits := h.fits
  have harena := DATA_ARENA_lt
  exact .inr (.inr (.inr (by omega)))

theorem Separated.writeFile (h : s.Separated) {offset : Nat} {buf : List Byte} (hbuf : buf ≠ [])
    (hwrap : s.NoWrap n offset buf.length) :
    (∃ s', s.writeFile n offset buf = (s', .ok buf.length) ∧ Writes s n offset buf s') ∨
      s.writeFile n offset buf = (s, .error .noSpace) := by
  have hpos := List.length_pos_of_ne_nil hbuf
  rw [VfsState.writeFile, if_neg hbuf]
  split
  · exact .inr rfl
  split
  · rename_i hin
    exact .inl ⟨_, rfl, h.overwrite hin⟩
  · rename_i hend hgrow
    rw [Nat.not_le] at hgrow
    have hsum : s.dataUsed + (offset + buf.length) < 2 ^ 64 := by
      rcases hwrap with hwrap | hwrap | hwrap | hwrap <;> omega
    split
    · rename_i htail
      rw [Nat.mod_eq_of_lt (by omega)] at htail
      exact .inl ⟨_, rfl, h.growInPlace hbuf hgrow htail.1 htail.2⟩
    · split
      · rename_i hroom
        rw [Nat.mod_eq_of_lt hsum] at hroom
        exact .inl ⟨_, rfl, h.relocate hbuf hgrow hroom⟩
      · exact .inr rfl

/-- A truncation cuts the one file. -/
theorem Inv.truncateNode (hs : s.Inv) (len : Nat) :
    (s.truncateNode n len).contents = Function.update s.contents n ((s.contents n).take len) ∧
      (s.truncateNode n len).Inv := by
  rw [VfsState.truncateNode]
  split
  · rename_i hlt
    have hlive : ∀ m i, (s.setNode n { s.nodes n with size := len }).Live m i → s.Live m i := by
      intro m i hi
      by_cases hm : m = n
      · subst hm
        rw [Live, setNode_same] at hi
        exact ⟨hi.1, by have := hi.2; dsimp only at this; omega⟩
      · rwa [Live, setNode_other hm] at hi
    constructor
    · funext m
      by_cases hm : m = n
      · subst hm
        rw [Function.update_self, VfsState.contents, setNode_same, VfsState.contents, slice_take hlt.le]
        rfl
      · rw [Function.update_of_ne hm, VfsState.contents, setNode_other hm]
        rfl
    · refine ⟨⟨fun m i hi => hs.separated.below m i (hlive m i hi),
        fun m k i hm hk => hs.separated.disjoint m k i (hlive m i hm) (hlive k i hk), hs.separated.zero,
        hs.separated.fits⟩, fun m hm => ?_, fun m => ?_⟩
      · obtain ⟨hkind, hsize⟩ := hs.fresh m hm
        by_cases hmn : m = n
        · subst hmn
          omega
        · rw [setNode_other hmn]
          exact ⟨hkind, hsize⟩
      · by_cases hmn : m = n
        · subst hmn
          rw [setNode_same]
          exact hs.anchored m
        · rw [setNode_other hmn]
          exact hs.anchored m
  · rename_i hge
    refine ⟨?_, hs⟩
    rw [List.take_of_length_le (by rw [contents_length]; omega), Function.update_eq_self]

theorem Inv.writes (hs : s.Inv) {offset : Nat} {buf : List Byte} (h : Writes s n offset buf s')
    (hfile : (s.nodes n).kind = .file) : s'.Inv := by
  refine ⟨h.separated, fun m hm => ?_, fun m => ?_⟩
  · rw [h.nextNode] at hm
    have hfresh := hs.fresh m hm
    by_cases hmn : m = n
    · subst hmn
      rw [hfresh.1] at hfile
      cases hfile
    · rwa [h.others m hmn]
  · by_cases hmn : m = n
    · subst hmn
      exact h.anchored (hs.anchored m)
    · rw [h.others m hmn]
      exact hs.anchored m

/-! ## The operations -/

theorem Fresh.quiet_openNode (hs : s.Fresh) (path : List Byte) (flags mode : BitVec 32) :
    Quiet s (s.openNode path flags mode).1 := by
  rw [openNode]
  split
  · exact Quiet.refl s
  · split <;> exact Quiet.refl s
  · rename_i dir name _
    split
    · split
      · exact Quiet.refl s
      · have hquiet := hs.quiet_createChild dir name (if flags &&& O_DIRECTORY ≠ 0 then .dir else .file) mode
        split
        · rename_i hcreate
          rwa [hcreate] at hquiet
        · rename_i hcreate
          rwa [hcreate] at hquiet
    · split <;> exact Quiet.refl s

theorem Inv.openPath (hs : s.Inv) (path : List Byte) (flags mode : BitVec 32) :
    s.ActsOnOne (.openPath path flags mode) ∧ (s.openPath path flags mode).1.Inv := by
  have hquiet := hs.fresh.quiet_openNode path flags mode
  rw [ActsOnOne, VfsState.openPath]
  cases hopen : s.openNode path flags mode with
  | mk s' r =>
    rw [hopen] at hquiet
    have hinv := hquiet.inv hs
    cases r with
    | error e => exact ⟨hquiet.contents, hinv⟩
    | ok n =>
      dsimp only
      by_cases hdir : (s'.nodes n).kind = .dir ∧ modeWritable flags = true
      · rw [if_pos hdir]
        exact ⟨hquiet.contents, hinv⟩
      by_cases hnot : (s'.nodes n).kind ≠ .dir ∧ flags &&& O_DIRECTORY ≠ 0
      · rw [if_neg hdir, if_pos hnot]
        exact ⟨hquiet.contents, hinv⟩
      rw [if_neg hdir, if_neg hnot]
      by_cases htrunc : truncates flags (s'.nodes n) = true
      · rw [if_pos htrunc]
        obtain ⟨hcontents, hinv'⟩ := hinv.truncateNode (n := n) 0
        have htrunc' : truncates flags ((s'.truncateNode n 0).nodes n) = true := by
          rw [VfsState.truncateNode]
          split
          · rw [setNode_same]
            exact htrunc
          · exact htrunc
        refine ⟨?_, hinv'⟩
        dsimp only
        rw [if_pos htrunc', hcontents, hquiet.contents, List.take_zero]
      · rw [if_neg htrunc]
        refine ⟨?_, hinv⟩
        dsimp only
        rw [if_neg htrunc, hquiet.contents]

theorem readNode_spec (idx : BitVec 16) (offset len : Nat) : s.ActsOnOne (.readNode idx offset len) := by
  intro n hn hfile
  rw [readNode, hn]
  dsimp only
  rw [if_neg (not_not.mpr hfile), readFile, VfsState.contents, slice_drop_take]
  split
  · rename_i hle
    rw [Nat.sub_eq_zero_of_le hle, Nat.zero_min, slice_zero]
  · rfl

theorem Inv.writeNode (hs : s.Inv) {idx : BitVec 16} {offset : Nat} {buf : List Byte}
    (hwrap : ∀ n, nodeOf idx = some n → s.NoWrap n offset buf.length) :
    s.ActsOnOne (.writeNode idx offset buf) ∧ (s.writeNode idx offset buf).1.Inv := by
  rw [ActsOnOne, VfsState.writeNode]
  cases hn : nodeOf idx with
  | none => exact ⟨rfl, hs⟩
  | some n =>
    dsimp only
    by_cases hkind : (s.nodes n).kind ≠ .file
    · rw [if_pos hkind]
      exact ⟨rfl, hs⟩
    · rw [if_neg hkind]
      have hfile := not_not.mp hkind
      by_cases hbuf : buf = []
      · rw [VfsState.writeFile, if_pos hbuf]
        refine ⟨⟨by rw [hbuf]; rfl, n, rfl, hfile, ?_⟩, hs⟩
        rw [if_pos hbuf, Function.update_eq_self]
      · rcases hs.separated.writeFile (n := n) hbuf (hwrap n hn) with ⟨s', heq, hw⟩ | heq
        · rw [heq]
          refine ⟨⟨rfl, n, rfl, hfile, ?_⟩, hs.writes hw hfile⟩
          rw [if_neg hbuf, hw.contents]
        · rw [heq]
          exact ⟨rfl, hs⟩

theorem Inv.truncate (hs : s.Inv) (idx : BitVec 16) (len : Nat) :
    s.ActsOnOne (.truncate idx len) ∧ (s.truncate idx len).1.Inv := by
  rw [ActsOnOne, VfsState.truncate]
  cases hn : nodeOf idx with
  | none => exact ⟨rfl, hs⟩
  | some n =>
    dsimp only
    by_cases hkind : (s.nodes n).kind ≠ .file
    · rw [if_pos hkind]
      exact ⟨rfl, hs⟩
    · rw [if_neg hkind]
      obtain ⟨hcontents, hinv⟩ := hs.truncateNode (n := n) len
      exact ⟨⟨n, rfl, not_not.mp hkind, hcontents⟩, hinv⟩

theorem Fresh.quiet_mkdir (hs : s.Fresh) (path : List Byte) (mode : BitVec 32) : Quiet s (s.mkdir path mode).1 := by
  rw [mkdir]
  split
  · exact Quiet.refl s
  · exact Quiet.refl s
  · rename_i dir name _
    split
    · exact Quiet.refl s
    · have hquiet := hs.quiet_createChild dir name .dir mode
      split
      · rename_i hcreate
        rwa [hcreate] at hquiet
      · rename_i hcreate
        rwa [hcreate] at hquiet

theorem quiet_unlinkNode (target : NodeId) (flags : BitVec 32) : Quiet s (s.unlinkNode target flags).1 := by
  rw [unlinkNode]
  split
  · exact Quiet.refl s
  split
  · exact Quiet.refl s
  split
  · exact Quiet.refl s
  · split
    · exact Quiet.refl s
    · exact quiet_removeChild _ _

theorem quiet_unlink (path : List Byte) (flags : BitVec 32) : Quiet s (s.unlink path flags).1 := by
  rw [unlink]
  split
  · exact Quiet.refl s
  · split
    · exact Quiet.refl s
    · exact quiet_unlinkNode _ _
  · split
    · exact quiet_unlinkNode _ _
    · split
      · exact Quiet.refl s
      · split <;> exact Quiet.refl s

theorem Fresh.quiet_injectTarget (hs : s.Fresh) (path : List Byte) : Quiet s (s.injectTarget path).1 := by
  rw [injectTarget]
  split
  · exact Quiet.refl s
  · rename_i dirPath name _
    split
    · exact Quiet.refl s
    · have hquiet := hs.quiet_resolveLoop true 0 dirPath
      rw [resolve]
      split
      · rename_i hresolve
        rwa [hresolve] at hquiet
      · rename_i dir hresolve
        rw [hresolve] at hquiet
        split
        · exact hquiet.trans ((hquiet.fresh hs).quiet_createChild dir name .file 0o644)
        · exact hquiet

/-- A splice at the start of an empty file. -/
theorem splice_nil (data : List Byte) : splice 0 ([] : List Byte) 0 data = data := by
  rw [splice, List.take_nil, List.drop_nil, List.append_nil]
  rfl

theorem Inv.injectFile (hs : s.Inv) {path data : List Byte} (hbound : data.length < 2 ^ 63) :
    s.ActsOnOne (.injectFile path data) ∧ (s.injectFile path data).1.Inv := by
  have hquiet := hs.fresh.quiet_injectTarget path
  rw [ActsOnOne, VfsState.injectFile]
  cases htarget : s.injectTarget path with
  | mk s' target =>
    rw [htarget] at hquiet
    have hinv := hquiet.inv hs
    cases target with
    | none => exact ⟨⟨rfl, hquiet.contents⟩, hinv⟩
    | some n =>
      dsimp only
      by_cases hnot : (s'.nodes n).kind ≠ .file
      · rw [if_pos hnot]
        exact ⟨.inl hquiet.contents, hinv⟩
      · rw [if_neg hnot]
        have hfile := not_not.mp hnot
        obtain ⟨hcontents, hcut⟩ := hinv.truncateNode (n := n) 0
        rw [List.take_zero, hquiet.contents] at hcontents
        have hkind : ((s'.truncateNode n 0).nodes n).kind = .file := by
          rw [VfsState.truncateNode]
          split
          · rw [setNode_same]
            exact hfile
          · exact hfile
        by_cases hdata : data = []
        · rw [VfsState.writeFile, if_pos hdata]
          refine ⟨?_, hcut⟩
          dsimp only
          rw [hcontents, hdata]
        · rcases hcut.separated.writeFile (n := n) hdata
            (hcut.separated.noWrap (show 0 + data.length < 2 ^ 63 by omega)) with ⟨s'', heq, hw⟩ | heq
          · rw [heq]
            refine ⟨?_, hcut.writes hw hkind⟩
            dsimp only
            rw [hw.contents, hcontents, Function.update_self, splice_nil, Function.update_idem]
          · rw [heq]
            exact ⟨.inr hcontents, hcut⟩

theorem Inv.step (hs : s.Inv) {op : FsOp} (hop : op.Bounded) : s.ActsOnOne op ∧ (s.step op).Inv := by
  cases op with
  | openPath path flags mode => exact hs.openPath path flags mode
  | readNode idx offset len => exact ⟨readNode_spec idx offset len, hs⟩
  | writeNode idx offset buf => exact hs.writeNode fun _ _ => hs.separated.noWrap hop
  | truncate idx len => exact hs.truncate idx len
  | mkdir path mode => exact ⟨(hs.fresh.quiet_mkdir path mode).contents, (hs.fresh.quiet_mkdir path mode).inv hs⟩
  | unlink path flags => exact ⟨(quiet_unlink path flags).contents, (quiet_unlink path flags).inv hs⟩
  | injectFile path data => exact hs.injectFile hop

/-! ## Nodes that are not given out -/

/-- A file was given out, so what happens to it does not matter. -/
theorem Fresh.of_file (hs : s.Fresh) (hfile : (s.nodes n).kind = .file) (hnext : s'.nextNode = s.nextNode)
    (hothers : ∀ m, m ≠ n → s'.nodes m = s.nodes m) : s'.Fresh := by
  intro m hm
  rw [hnext] at hm
  by_cases hmn : m = n
  · subst hmn
    rw [(hs m hm).1] at hfile
    cases hfile
  · rw [hothers m hmn]
    exact hs m hm

theorem Fresh.truncateNode (hs : s.Fresh) (hfile : (s.nodes n).kind = .file) (len : Nat) :
    (s.truncateNode n len).Fresh := by
  rw [VfsState.truncateNode]
  split
  · exact hs.of_file hfile rfl fun m hm => setNode_other hm
  · exact hs

theorem Fresh.writeFile (hs : s.Fresh) (hfile : (s.nodes n).kind = .file) (offset : Nat) (buf : List Byte) :
    (s.writeFile n offset buf).1.Fresh := by
  rw [VfsState.writeFile]
  split
  · exact hs
  split
  · exact hs
  split
  · exact hs
  split
  · exact hs.of_file hfile rfl fun m hm => setNode_other hm
  split
  · exact hs.of_file hfile rfl fun m hm => setNode_other hm
  · exact hs

theorem truncateNode_kind (s : VfsState) (n : NodeId) (len : Nat) (m : NodeId) :
    ((s.truncateNode n len).nodes m).kind = (s.nodes m).kind := by
  rw [VfsState.truncateNode]
  split
  · by_cases hm : m = n
    · subst hm
      rw [setNode_same]
    · rw [setNode_other hm]
  · rfl

theorem truncates_file {flags : BitVec 32} {node : RamfsNode} (h : truncates flags node = true) : node.kind = .file := by
  simp only [truncates, Bool.and_eq_true, decide_eq_true_eq] at h
  exact h.2

theorem Fresh.openPath (hs : s.Fresh) (path : List Byte) (flags mode : BitVec 32) :
    (s.openPath path flags mode).1.Fresh := by
  have hquiet := hs.quiet_openNode path flags mode
  rw [VfsState.openPath]
  split
  · rename_i hopen
    rw [hopen] at hquiet
    exact hquiet.fresh hs
  · rename_i hopen
    rw [hopen] at hquiet
    have hfresh := hquiet.fresh hs
    split
    · exact hfresh
    split
    · exact hfresh
    split
    · rename_i htrunc
      exact hfresh.truncateNode (truncates_file htrunc) 0
    · exact hfresh

theorem Fresh.injectFile (hs : s.Fresh) (path data : List Byte) : (s.injectFile path data).1.Fresh := by
  have hquiet := hs.quiet_injectTarget path
  rw [VfsState.injectFile]
  split
  · rename_i htarget
    rw [htarget] at hquiet
    exact hquiet.fresh hs
  · rename_i s₁ n htarget
    rw [htarget] at hquiet
    have hfresh := hquiet.fresh hs
    split
    · exact hfresh
    · rename_i hfile
      have hkind : (s₁.nodes n).kind = .file := not_not.mp hfile
      have hcut := hfresh.truncateNode hkind 0
      have hwrite := hcut.writeFile ((truncateNode_kind s₁ n 0 n).trans hkind) 0 data
      split
      · rename_i heq
        rwa [heq] at hwrite
      · rename_i heq
        rwa [heq] at hwrite

theorem Fresh.step (hs : s.Fresh) (op : FsOp) : (s.step op).Fresh := by
  cases op with
  | openPath path flags mode => exact hs.openPath path flags mode
  | readNode idx offset len => exact hs
  | writeNode idx offset buf =>
    rw [VfsState.step, VfsState.writeNode]
    split
    · exact hs
    · split
      · exact hs
      · rename_i hfile
        exact hs.writeFile (not_not.mp hfile) offset buf
  | truncate idx len =>
    rw [VfsState.step, VfsState.truncate]
    split
    · exact hs
    · split
      · exact hs
      · rename_i hfile
        exact hs.truncateNode (not_not.mp hfile) len
  | mkdir path mode => exact (hs.quiet_mkdir path mode).fresh hs
  | unlink path flags => exact (quiet_unlink path flags).fresh hs
  | injectFile path data => exact hs.injectFile path data

theorem init_inv : init.Inv := by
  have hlive : ∀ n i, ¬ init.Live n i := by
    intro n i hi
    have hsize : (init.nodes n).size = 0 ∧ (init.nodes n).dataOff = 0 := by
      by_cases hn : n = 0
      · subst hn
        exact ⟨rfl, rfl⟩
      · rw [show init.nodes n = RamfsNode.zeroed from setNode_other hn]
        exact ⟨rfl, rfl⟩
    rw [Live, hsize.1, hsize.2] at hi
    omega
  refine ⟨⟨fun n i hi => absurd hi (hlive n i), fun n m i hi => absurd hi (hlive n i), fun _ _ => rfl,
    Nat.zero_le _⟩, fun n hn => ?_, fun n => ?_⟩
  · have hne : n ≠ 0 := by
      rintro rfl
      cases hn
    rw [show init.nodes n = RamfsNode.zeroed from setNode_other hne]
    exact ⟨rfl, rfl⟩
  · by_cases hne : n = 0
    · subst hne
      exact Nat.zero_le _
    · rw [show init.nodes n = RamfsNode.zeroed from setNode_other hne]
      exact Nat.zero_le _

end VfsState

open VfsState in
/-- In every run from `init` with representable write requests each operation acts on the bytes of one
file, as on a sequence of its own, and the files stay apart in the arena. -/
theorem ramfs_refines_files (l : List FsOp) (hl : Run.Along VfsState.step (fun _ op => op.Bounded) init l) :
    Run.Along VfsState.step ActsOnOne init l ∧ Run.Always VfsState.step Separated init l :=
  ⟨Run.along_of_promised (fun _ _ hs hop => (hs.step hop).2) (fun _ _ hs hop => (hs.step hop).1) init_inv hl,
    Run.always_of_invariant (fun _ _ hs hop => (hs.step hop).2) (fun _ hs => hs.separated) init_inv hl⟩

/-- A file of three bytes, written behind a gap and cut. -/
def gapAndCut : List FsOp := [.injectFile [SLASH, 0x61] [1, 2, 3], .writeNode 1 5 [4], .truncate 1 1]

theorem ramfs_refines_files_gap : Run.Along VfsState.step VfsState.ActsOnOne VfsState.init gapAndCut ∧
    Run.Always VfsState.step VfsState.Separated VfsState.init gapAndCut :=
  ramfs_refines_files gapAndCut
    ⟨show [1, 2, 3].length < 2 ^ 63 by decide, show 5 + [4].length < 2 ^ 63 by decide, trivial, trivial⟩

end Pyremu.Sittim
