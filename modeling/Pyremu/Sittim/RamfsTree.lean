import Pyremu.Sittim.Ramfs
import Pyremu.Lib.Links
import Mathlib.Data.Fintype.Card

/-!
# The nodes form a tree

A node is put under an older one and never moves, so parents have smaller
indices. The sibling list of every node that was given out ends, names it as the
parent of its members and holds no name twice.
-/

namespace Pyremu.Sittim

open Links

namespace VfsState

variable (s : VfsState)

def next (i : NodeId) : Option NodeId := (s.nodes i).nextSibling

/-- The sibling list of a node. -/
def Children (d : NodeId) (l : List NodeId) : Prop := Chain s.next (s.nodes d).firstChild l

structure Kids (d : NodeId) (l : List NodeId) : Prop where
  chain : s.Children d l
  link : ∀ c ∈ l, c.val < s.nextNode ∧ (s.nodes c).parent = some d ∧ (s.nodes c).name.length < NAME_MAX
  names : (l.map fun c => (s.nodes c).name).Nodup

structure Tree : Prop where
  rootIn : 0 < s.nextNode
  rootDir : (s.nodes 0).kind = .dir
  rootUp : (s.nodes 0).parent = none
  up : ∀ {c d : NodeId}, c.val < s.nextNode → (s.nodes c).parent = some d → d < c
  kids : ∀ d : NodeId, d.val < s.nextNode → ∃ l, s.Kids d l

/-- The nodes that the sibling lists lead to from the root. -/
inductive Reachable : NodeId → Prop
  | root : Reachable 0
  | child {d c : NodeId} {l : List NodeId} (hd : Reachable d) (hl : s.Children d l) (hc : c ∈ l) : Reachable c

/-- The nodes that can be reached form a tree, whose loops over siblings end. -/
structure IsTree : Prop where
  children : ∀ d, s.Reachable d → ∃ l, s.Children d l ∧ l.Nodup ∧ (l.map fun c => (s.nodes c).name).Nodup ∧
    ∀ c ∈ l, (s.nodes c).parent = some d ∧ (s.nodes c).name.length < NAME_MAX
  root : (s.nodes 0).parent = none
  parent : ∀ c, s.Reachable c → c ≠ 0 →
    ∃ d l, s.Reachable d ∧ (s.nodes c).parent = some d ∧ d < c ∧ s.Children d l ∧ c ∈ l
  find_ends : ∀ d name, s.Reachable d → (s.findChildLoop name MAX_NODES (s.nodes d).firstChild).isSome = true
  getdents_ends : ∀ d count pos, s.Reachable d →
    (s.getdentsLoop d count (MAX_NODES + 3) pos 0 []).isSome = true

variable {s} {s' : VfsState} {d c new : NodeId} {l : List NodeId} {name : List Byte}

/-! ## Loops over siblings -/

theorem findChildLoop_eq {head : Option NodeId} {turns : Nat} (h : Chain s.next head l) (hl : l.length ≤ turns) :
    s.findChildLoop name turns head = some (l.find? fun c => decide ((s.nodes c).name = name)) := by
  induction h generalizing turns with
  | nil =>
    unfold findChildLoop
    rfl
  | @cons i l _ ih =>
    cases turns with
    | zero => cases hl
    | succ turns =>
      unfold findChildLoop
      rw [List.find?_cons]
      by_cases hi : (s.nodes i).name = name
      · rw [if_pos hi, decide_eq_true hi]
      · rw [if_neg hi, decide_eq_false hi]
        exact ih (Nat.le_of_succ_le_succ hl)

theorem Chain_length {head : Option NodeId} (h : Chain s.next head l) : l.length ≤ MAX_NODES := by
  have hle := h.length_le
  rwa [Fintype.card_fin] at hle

theorem Kids.findChild (h : s.Kids d l) : s.findChild d name = l.find? fun c => decide ((s.nodes c).name = name) := by
  rw [VfsState.findChild, findChildLoop_eq h.chain (Chain_length h.chain)]
  rfl

theorem Kids.findChild_eq_some_iff (h : s.Kids d l) :
    s.findChild d name = some c ↔ c ∈ l ∧ (s.nodes c).name = name := by
  rw [h.findChild]
  constructor
  · intro hc
    exact ⟨List.mem_of_find?_eq_some hc, of_decide_eq_true (List.find?_some hc :)⟩
  · rintro ⟨hc, hname⟩
    cases hfind : l.find? fun c => decide ((s.nodes c).name = name) with
    | none =>
      have hno := List.find?_eq_none.mp hfind c hc
      exact absurd (decide_eq_true hname) hno
    | some c' =>
      have hc' := List.mem_of_find?_eq_some hfind
      have hname' : (s.nodes c').name = name := of_decide_eq_true (List.find?_some hfind :)
      exact congrArg some (List.inj_on_of_nodup_map h.names hc' hc (hname'.trans hname.symm))

theorem nthSibling_none {head : Option NodeId} {k : Nat} (h : Chain s.next head l) (hk : l.length ≤ k) :
    s.nthSibling k head = none := by
  induction h generalizing k with
  | nil => cases k <;> rfl
  | cons _ ih =>
    cases k with
    | zero => cases hk
    | succ k => exact ih (Nat.le_of_succ_le_succ hk)

/-- Each turn moves one entry on, and there are two more than children. -/
theorem getdentsLoop_isSome (h : s.Children d l) (count turns : Nat) :
    ∀ (pos written : Nat) (acc : List Dirent), l.length + 2 < pos + turns →
      (s.getdentsLoop d count turns pos written acc).isSome = true ∨ l.length + 2 < pos := by
  induction turns with
  | zero =>
    intro _ _ _ hlt
    exact .inr hlt
  | succ turns ih =>
    intro pos written acc hlt
    rw [getdentsLoop]
    split
    · exact .inl rfl
    · rename_i hentry
      split
      · exact .inl rfl
      · rcases ih (pos + 1) _ _ (by omega) with hsome | hpos
        · exact .inl hsome
        · have hnone : s.entryAt d pos = none := by
            rw [entryAt, if_neg (by omega), if_neg (by omega), nthSibling_none h (by omega)]
            rfl
          rw [hnone] at hentry
          cases hentry

theorem getdentsLoop_ends (h : s.Children d l) (count pos : Nat) :
    (s.getdentsLoop d count (MAX_NODES + 3) pos 0 []).isSome = true := by
  have hlen := Chain_length h
  rcases getdentsLoop_isSome h count (MAX_NODES + 3) pos 0 [] (by omega) with hsome | hpos
  · exact hsome
  · rw [getdentsLoop]
    have hnone : s.entryAt d pos = none := by
      rw [entryAt, if_neg (by omega), if_neg (by omega), nthSibling_none h (by omega)]
      rfl
    rw [hnone]
    rfl

/-! ## A new child -/

/-- What `create_child` does to the links. -/
structure Created (s s' : VfsState) (d new : NodeId) (name : List Byte) : Prop where
  index : new.val = s.nextNode
  nextNode : s'.nextNode = s.nextNode + 1
  next : s'.next = Function.update s.next new (s.nodes d).firstChild
  firstChild : ∀ i, (s'.nodes i).firstChild = if i = d then some new else if i = new then none else (s.nodes i).firstChild
  parent : ∀ i, (s'.nodes i).parent = if i = new then some d else (s.nodes i).parent
  name : ∀ i, (s'.nodes i).name = if i = new then name else (s.nodes i).name
  kind : ∀ i, i ≠ new → (s'.nodes i).kind = (s.nodes i).kind

theorem createChild_cases (hd : d.val < s.nextNode) (name : List Byte) (kind : VfsKind) (mode : BitVec 32) :
    s.createChild d name kind mode = (s, none) ∨
      ∃ s' new, s.createChild d name kind mode = (s', some new) ∧ Created s s' d new name := by
  rw [createChild, allocNode]
  by_cases hlt : s.nextNode < MAX_NODES
  · rw [dif_pos hlt]
    have hne : d ≠ ⟨s.nextNode, hlt⟩ := by
      rintro rfl
      exact Nat.lt_irrefl _ hd
    refine .inr ⟨_, ⟨s.nextNode, hlt⟩, rfl, rfl, rfl, ?_, ?_, ?_, ?_, ?_⟩
    · funext i
      by_cases hi : i = ⟨s.nextNode, hlt⟩
      · subst hi
        rw [Function.update_self, VfsState.next]
        simp [linkChild, setNode, hne, hne.symm]
      · rw [Function.update_of_ne hi, VfsState.next, VfsState.next]
        by_cases hid : i = d
        · subst hid
          simp [linkChild, setNode, Function.update_apply, hi]
        · simp [linkChild, setNode, Function.update_apply, hi, hid]
    all_goals
      intro i
      by_cases hi : i = ⟨s.nextNode, hlt⟩
      · subst hi
        simp [linkChild, setNode, Function.update_apply, hne.symm]
      · by_cases hid : i = d
        · subst hid
          simp [linkChild, setNode, Function.update_apply, hi]
        · simp [linkChild, setNode, Function.update_apply, hi, hid]
  · rw [dif_neg hlt]
    exact .inl rfl

theorem Kids.congr (h : s.Kids d l) (hfirst : (s'.nodes d).firstChild = (s.nodes d).firstChild)
    (hnext : ∀ i ∈ l, s'.next i = s.next i) (hnode : s.nextNode ≤ s'.nextNode)
    (hlink : ∀ i ∈ l, (s'.nodes i).parent = (s.nodes i).parent ∧ (s'.nodes i).name = (s.nodes i).name) : s'.Kids d l := by
  refine ⟨?_, fun c hc => ?_, ?_⟩
  · rw [Children, hfirst]
    exact h.chain.congr hnext
  · obtain ⟨hlt, hparent, hname⟩ := h.link c hc
    rw [(hlink c hc).1, (hlink c hc).2]
    exact ⟨hlt.trans_le hnode, hparent, hname⟩
  · have hmap : l.map (fun c => (s'.nodes c).name) = l.map fun c => (s.nodes c).name :=
      List.map_congr_left fun c hc => (hlink c hc).2
    rw [hmap]
    exact h.names

/-- A child with a free name comes before its siblings. -/
theorem Created.kids (hc : Created s s' d new name) (hd : d.val < s.nextNode) (h : s.Kids d l)
    (hname : name.length < NAME_MAX) (hfree : s.findChild d name = none) : s'.Kids d (new :: l) := by
  have hnotin : new ∉ l := by
    intro hmem
    have := (h.link new hmem).1
    rw [hc.index] at this
    exact Nat.lt_irrefl _ this
  have hother : ∀ i ∈ l, i ≠ new := by
    rintro i hi rfl
    exact hnotin hi
  have hnames : ∀ i ∈ l, (s'.nodes i).name = (s.nodes i).name := fun i hi => by rw [hc.name, if_neg (hother i hi)]
  refine ⟨?_, fun c hcl => ?_, ?_⟩
  · rw [Children, hc.firstChild, if_pos rfl]
    apply Chain.cons
    rw [hc.next, Function.update_self]
    exact h.chain.congr fun i hi => Function.update_of_ne (hother i hi) ..
  · rcases List.mem_cons.mp hcl with rfl | hcl
    · rw [hc.parent, if_pos rfl, hc.name, if_pos rfl, hc.nextNode, hc.index]
      exact ⟨Nat.lt_succ_self _, rfl, hname⟩
    · obtain ⟨hlt, hparent, hlen⟩ := h.link c hcl
      rw [hc.parent, if_neg (hother c hcl), hnames c hcl, hc.nextNode]
      exact ⟨hlt.trans (Nat.lt_succ_self _), hparent, hlen⟩
  · rw [List.map_cons, List.nodup_cons, hc.name, if_pos rfl, List.map_congr_left hnames]
    refine ⟨fun hmem => ?_, h.names⟩
    obtain ⟨c, hcl, hcname⟩ := List.mem_map.mp hmem
    have hsome := h.findChild_eq_some_iff.mpr ⟨hcl, hcname⟩
    rw [hfree] at hsome
    cases hsome

theorem Tree.create (h : s.Tree) (hc : Created s s' d new name) (hd : d.val < s.nextNode)
    (hname : name.length < NAME_MAX) (hfree : s.findChild d name = none) : s'.Tree := by
  have hold : ∀ i : NodeId, i.val < s.nextNode → i ≠ new := by
    rintro i hi rfl
    rw [hc.index] at hi
    exact Nat.lt_irrefl _ hi
  have hroot : (0 : NodeId) ≠ new := hold 0 h.rootIn
  refine ⟨by rw [hc.nextNode]; exact Nat.succ_pos _, by rw [hc.kind 0 hroot]; exact h.rootDir,
    by rw [hc.parent, if_neg hroot]; exact h.rootUp, ?_, ?_⟩
  · intro c e hcn hparent
    rw [hc.parent] at hparent
    by_cases hcnew : c = new
    · rw [if_pos hcnew] at hparent
      obtain rfl := Option.some.inj hparent
      rw [hcnew, Fin.lt_def, hc.index]
      exact hd
    · rw [if_neg hcnew] at hparent
      have hlt : c.val < s.nextNode := by
        rw [hc.nextNode] at hcn
        have hne : c.val ≠ s.nextNode := fun heq => hcnew (Fin.ext (heq.trans hc.index.symm))
        omega
      exact h.up hlt hparent
  · intro e he
    by_cases hed : e = d
    · subst hed
      obtain ⟨l, hl⟩ := h.kids e hd
      exact ⟨new :: l, hc.kids hd hl hname hfree⟩
    by_cases henew : e = new
    · subst henew
      refine ⟨[], ?_, fun c hcl => (by cases hcl), List.nodup_nil⟩
      rw [Children, hc.firstChild, if_neg hed, if_pos rfl]
      exact .nil
    · have hlt : e.val < s.nextNode := by
        rw [hc.nextNode] at he
        have hne : e.val ≠ s.nextNode := fun heq => henew (Fin.ext (heq.trans hc.index.symm))
        omega
      obtain ⟨l, hl⟩ := h.kids e hlt
      have hin : ∀ i ∈ l, i ≠ new := fun i hi => hold i (hl.link i hi).1
      refine ⟨l, hl.congr ?_ (fun i hi => ?_) ?_ fun i hi => ?_⟩
      · rw [hc.firstChild, if_neg hed, if_neg henew]
      · rw [hc.next, Function.update_of_ne (hin i hi)]
      · rw [hc.nextNode]
        exact Nat.le_succ _
      · rw [hc.parent, hc.name, if_neg (hin i hi), if_neg (hin i hi)]
        exact ⟨rfl, rfl⟩

/-! ## A child less -/

/-- The node before `target` in the list, and before that the one before the list. -/
theorem removeChildLoop_eq {parent target : NodeId} {turns : Nat} :
    ∀ (prev : Option NodeId) {l : List NodeId} {head : Option NodeId}, Chain s.next head l → l.length ≤ turns →
      (target ∉ l ∧ s.removeChildLoop parent target turns prev head = some s) ∨
      ∃ l₁ l₂, l = l₁ ++ target :: l₂ ∧ s.removeChildLoop parent target turns prev head =
        some (match l₁.getLast?.or prev with
          | none => s.setNode parent { s.nodes parent with firstChild := s.next target }
          | some p => s.setNode p { s.nodes p with nextSibling := s.next target }) := by
  induction turns with
  | zero =>
    intro prev l head h hl
    cases h with
    | nil =>
      refine .inl ⟨List.not_mem_nil, ?_⟩
      unfold removeChildLoop
      rfl
    | cons h => cases hl
  | succ turns ih =>
    intro prev l head h hl
    cases h with
    | nil =>
      refine .inl ⟨List.not_mem_nil, ?_⟩
      unfold removeChildLoop
      rfl
    | @cons i l h =>
      unfold removeChildLoop
      by_cases hi : i = target
      · subst hi
        refine .inr ⟨[], l, rfl, ?_⟩
        rw [if_neg (not_not.mpr rfl)]
        cases prev <;> rfl
      · rw [if_pos hi]
        rcases ih (some i) h (Nat.le_of_succ_le_succ hl) with ⟨hnot, heq⟩ | ⟨l₁, l₂, hsplit, heq⟩
        · refine .inl ⟨fun hmem => ?_, heq⟩
          rcases List.mem_cons.mp hmem with rfl | hmem
          · exact hi rfl
          · exact hnot hmem
        · refine .inr ⟨i :: l₁, l₂, by rw [hsplit]; rfl, heq.trans ?_⟩
          have hlast : (i :: l₁).getLast?.or prev = l₁.getLast?.or (some i) := by
            rw [List.getLast?_cons]
            cases l₁.getLast? <;> rfl
          rw [hlast]

/-- What `remove_child` does to the links. -/
theorem Kids.removeChild (h : s.Kids d l) (target : NodeId) :
    (target ∉ l ∧ s.removeChild d target = s) ∨
      ∃ l₁ l₂ q node, l = l₁ ++ target :: l₂ ∧ s.removeChild d target = s.setNode q node ∧
        (s.setNode q node).Children d (l₁ ++ l₂) ∧ node.parent = (s.nodes q).parent ∧ node.name = (s.nodes q).name ∧
        node.kind = (s.nodes q).kind ∧
        (q = d ∧ node.nextSibling = s.next q ∨ q ∈ l ∧ node.firstChild = (s.nodes q).firstChild) := by
  rw [VfsState.removeChild]
  rcases @removeChildLoop_eq _ d target _ none _ _ h.chain (Chain_length h.chain) with
    ⟨hnot, heq⟩ | ⟨l₁, l₂, rfl, heq⟩
  · rw [heq]
    exact .inl ⟨hnot, rfl⟩
  · rw [heq, Option.getD_some]
    right
    rcases List.eq_nil_or_concat' l₁ with rfl | ⟨l₀, q, rfl⟩
    · refine ⟨[], l₂, d, _, rfl, rfl, ?_, rfl, rfl, rfl, .inl ⟨rfl, rfl⟩⟩
      have hnext : (s.setNode d { s.nodes d with firstChild := s.next target }).next = s.next := by
        funext i
        by_cases hi : i = d
        · subst hi
          rw [VfsState.next, setNode]
          dsimp only
          rw [Function.update_self]
          rfl
        · rw [VfsState.next, setNode]
          dsimp only
          rw [Function.update_of_ne hi]
          rfl
      rw [Children, hnext, setNode]
      dsimp only
      rw [Function.update_self]
      exact Chain.behead h.chain
    · rw [List.getLast?_concat]
      refine ⟨l₀ ++ [q], l₂, q, _, rfl, rfl, ?_, rfl, rfl, rfl, .inr ⟨?_, rfl⟩⟩
      · have hnext : (s.setNode q { s.nodes q with nextSibling := s.next target }).next =
            Function.update s.next q (s.next target) := by
          funext i
          rw [VfsState.next, setNode]
          dsimp only
          by_cases hi : i = q
          · subst hi
            rw [Function.update_self, Function.update_self]
          · rw [Function.update_of_ne hi, Function.update_of_ne hi]
            rfl
        have hfirst : ((s.setNode q { s.nodes q with nextSibling := s.next target }).nodes d).firstChild =
            (s.nodes d).firstChild := by
          rw [setNode]
          dsimp only
          by_cases hi : d = q
          · subst hi
            rw [Function.update_self]
          · rw [Function.update_of_ne hi]
        have hchain := h.chain
        rw [Children, List.append_assoc] at hchain
        rw [Children, hnext, hfirst, List.append_assoc]
        exact hchain.skip
      · exact List.mem_append_left _ (List.mem_append_right _ (List.mem_singleton_self q))

theorem Tree.remove (h : s.Tree) {target : NodeId} (ht : target.val < s.nextNode) (hd : (s.nodes target).parent = some d) :
    (s.removeChild d target).Tree := by
  have hdlt : d.val < s.nextNode := Nat.lt_trans (Fin.lt_def.mp (h.up ht hd)) ht
  obtain ⟨l, hl⟩ := h.kids d hdlt
  rcases hl.removeChild target with ⟨_, heq⟩ | ⟨l₁, l₂, q, node, rfl, heq, hchain, hparent, hname, hkind, hq⟩
  · rw [heq]
    exact h
  · rw [heq]
    have hfield : ∀ i, ((s.setNode q node).nodes i).parent = (s.nodes i).parent ∧
        ((s.setNode q node).nodes i).name = (s.nodes i).name ∧ ((s.setNode q node).nodes i).kind = (s.nodes i).kind := by
      intro i
      rw [setNode]
      dsimp only
      by_cases hi : i = q
      · subst hi
        rw [Function.update_self]
        exact ⟨hparent, hname, hkind⟩
      · rw [Function.update_of_ne hi]
        exact ⟨rfl, rfl, rfl⟩
    refine ⟨h.rootIn, (hfield 0).2.2.trans h.rootDir, (hfield 0).1.trans h.rootUp, ?_, ?_⟩
    · intro c e hc hce
      rw [(hfield c).1] at hce
      exact h.up hc hce
    · intro e he
      by_cases hed : e = d
      · subst hed
        have hsub : (l₁ ++ l₂).Sublist (l₁ ++ target :: l₂) :=
          List.Sublist.append (List.Sublist.refl l₁) (List.sublist_cons_self target l₂)
        refine ⟨l₁ ++ l₂, hchain, fun c hc => ?_, ?_⟩
        · rw [(hfield c).1, (hfield c).2.1]
          exact hl.link c (hsub.subset hc)
        · have hmap : (l₁ ++ l₂).map (fun c => ((s.setNode q node).nodes c).name) =
              (l₁ ++ l₂).map fun c => (s.nodes c).name := List.map_congr_left fun c _ => (hfield c).2.1
          rw [hmap]
          exact hl.names.sublist (hsub.map _)
      · obtain ⟨le, hle⟩ := h.kids e he
        -- the node that changes is `d` or a child of `d`
        have hnext : ∀ i ∈ le, (s.setNode q node).next i = s.next i := by
          intro i hi
          rw [VfsState.next, setNode]
          dsimp only
          by_cases hiq : i = q
          · subst hiq
            rcases hq with ⟨_, hsame⟩ | ⟨hmem, _⟩
            · rw [Function.update_self]
              exact hsame
            · have hpd := (hl.link i hmem).2.1
              rw [(hle.link i hi).2.1] at hpd
              exact absurd (Option.some.inj hpd) hed
          · rw [Function.update_of_ne hiq]
            rfl
        have hfirst : ((s.setNode q node).nodes e).firstChild = (s.nodes e).firstChild := by
          rw [setNode]
          dsimp only
          by_cases heq : e = q
          · subst heq
            rw [Function.update_self]
            rcases hq with ⟨hqd, _⟩ | ⟨_, hsame⟩
            · exact absurd hqd hed
            · exact hsame
          · rw [Function.update_of_ne heq]
        exact ⟨le, hle.congr hfirst hnext le_rfl fun i _ => ⟨(hfield i).1, (hfield i).2.1⟩⟩

/-! ## Nodes that can be reached -/

theorem Tree.reachable_lt (h : s.Tree) (hd : s.Reachable d) : d.val < s.nextNode := by
  induction hd with
  | root => exact h.rootIn
  | child _ hl hc ih =>
    obtain ⟨l', hl'⟩ := h.kids _ ih
    rw [hl.unique hl'.chain] at hc
    exact (hl'.link _ hc).1

theorem Tree.isTree (h : s.Tree) : s.IsTree := by
  refine ⟨fun d hd => ?_, h.rootUp, fun c hc hne => ?_, fun d name hd => ?_, fun d count pos hd => ?_⟩
  · obtain ⟨l, hl⟩ := h.kids d (h.reachable_lt hd)
    exact ⟨l, hl.chain, hl.chain.nodup, hl.names, fun c hc => (hl.link c hc).2⟩
  · cases hc with
    | root => exact absurd rfl hne
    | child hd hl hcl =>
      rename_i d l
      obtain ⟨l', hl'⟩ := h.kids d (h.reachable_lt hd)
      have heq := hl.unique hl'.chain
      subst heq
      obtain ⟨hlt, hparent, _⟩ := hl'.link c hcl
      exact ⟨d, l, hd, hparent, h.up hlt hparent, hl, hcl⟩
  · obtain ⟨l, hl⟩ := h.kids d (h.reachable_lt hd)
    rw [findChildLoop_eq hl.chain (Chain_length hl.chain)]
    rfl
  · obtain ⟨l, hl⟩ := h.kids d (h.reachable_lt hd)
    exact getdentsLoop_ends hl.chain count pos

end VfsState

end Pyremu.Sittim
