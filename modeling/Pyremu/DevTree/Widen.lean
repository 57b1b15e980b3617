import Pyremu.DevTree.Rewrite

/-!
# Wider root cells

What `_rewrite_root_cells` makes of the nodes under the root: zeros are put in
front of the parts of an entry, and the first entry length that does not work
decides the error.
-/

namespace Pyremu.DevTree

open Positional

/-! ## Loops that may fail -/

section Loops

variable {α β ε : Type} {f : α → Except ε β} {g : α → β} {l : List α}

theorem bind_ok {r : Except ε α} {b : β} : (r >>= f) = .ok b ↔ ∃ a, r = .ok a ∧ f a = .ok b := by
  cases r with
  | error e => exact iff_of_false (by rintro ⟨⟩) (by rintro ⟨_, ⟨⟩, _⟩)
  | ok a =>
    constructor
    · exact fun h => ⟨a, rfl, h⟩
    · rintro ⟨_, ⟨⟩, h⟩
      exact h

theorem mapM_ok (h : ∀ x ∈ l, f x = .ok (g x)) : l.mapM f = .ok (l.map g) := by
  induction l with
  | nil => rfl
  | cons x l ih =>
    rw [List.mapM_cons, h x List.mem_cons_self, ih fun y hy => h y (List.mem_cons_of_mem _ hy)]
    rfl

theorem findSome?_cons_or {f : α → Option β} (x : α) (l : List α) :
    (x :: l).findSome? f = (f x).or (l.findSome? f) := by
  rw [List.findSome?_cons]
  cases f x <;> rfl

end Loops

/-! ## Entries -/

def wordsOf (node : FdtNode) (name : String) : Option (List Nat) :=
  match nodeProperty node name with
  | some ⟨_, .words words⟩ => some words
  | _ => none

/-- Each word has 32 bits. -/
def Fit (words : List Nat) : Prop := ∀ w ∈ words, w < 2 ^ 32

def widenRegEntry (a s a' s' : Nat) (entry : List Nat) : List Nat :=
  (List.replicate (a' - a) 0 ++ entry.take a) ++ (List.replicate (s' - s) 0 ++ entry.drop a)

def widenRangesEntry (a a' : Nat) (entry : List Nat) : List Nat := List.replicate (a' - a) 0 ++ entry

section Entries

variable {a s a' s' step : Nat} {entry words : List Nat} {node : FdtNode} {name : String} {prop : FdtProperty}

theorem Fit.take (h : Fit words) (n : Nat) : Fit (words.take n) := fun w hw => h w (List.mem_of_mem_take hw)

theorem Fit.drop (h : Fit words) (n : Nat) : Fit (words.drop n) := fun w hw => h w (List.mem_of_mem_drop hw)

theorem Fit.part (h : Fit words) (he : entry ∈ parts step words) : Fit entry :=
  fun w hw => h w (mem_of_mem_parts he w hw)

theorem regWords_entry (hf : Fit entry) (hl : entry.length = a + s) (ha : a ≤ a') (hs : s ≤ s') (ha' : 0 < a')
    (hs' : 0 < s') :
    regWords (decodeCells (entry.take a)) (decodeCells (entry.drop a)) a' s' =
      .ok (widenRegEntry a s a' s' entry) := by
  have hat : (entry.take a).length = a := by
    rw [List.length_take]
    omega
  have hst : (entry.drop a).length = s := by
    rw [List.length_drop]
    omega
  rw [regWords, encodeCells_decodeCells ha' (hf.take a) (by omega),
    encodeCells_decodeCells hs' (hf.drop a) (by omega), hat, hst]
  rfl

theorem encode_parent (hf : Fit entry) (hl : a ≤ entry.length) (ha : a ≤ a') (ha' : 0 < a') :
    (do
      let parent ← encodeCells (decodeCells (entry.take a)) a'
      return parent ++ entry.drop a : Except PyError (List Nat)) = .ok (widenRangesEntry a a' entry) := by
  have hat : (entry.take a).length = a := List.length_take_of_le hl
  rw [encodeCells_decodeCells ha' (hf.take a) (by omega), hat]
  simp only [widenRangesEntry, bind, Except.bind, pure, Except.pure, List.append_assoc, List.take_append_drop]

theorem length_widenRegEntry (hl : entry.length = a + s) (ha : a ≤ a') (hs : s ≤ s') :
    (widenRegEntry a s a' s' entry).length = a' + s' := by
  simp only [widenRegEntry, List.length_append, List.length_replicate, List.length_take, List.length_drop]
  omega

/-- The two numbers of an entry are the same after it is widened. -/
theorem value_widenRegEntry (b s' : Nat) (hl : entry.length = a + s) (ha : a ≤ a') :
    value b ((widenRegEntry a s a' s' entry).take a') = value b (entry.take a) ∧
      value b ((widenRegEntry a s a' s' entry).drop a') = value b (entry.drop a) := by
  have hat : (List.replicate (a' - a) 0 ++ entry.take a).length = a' := by
    simp only [List.length_append, List.length_replicate, List.length_take]
    omega
  rw [widenRegEntry, List.take_left' hat, List.drop_left' hat, value_zeros_append, value_zeros_append]
  exact ⟨rfl, rfl⟩

theorem length_widenRangesEntry {c n : Nat} (hl : entry.length = c + a + n) (ha : a ≤ a') :
    (widenRangesEntry a a' entry).length = c + a' + n := by
  rw [widenRangesEntry, List.length_append, List.length_replicate]
  omega

theorem fit_zeros_append (h : Fit words) (n : Nat) : Fit (List.replicate n 0 ++ words) := by
  intro w hw
  cases List.mem_append.mp hw with
  | inl hz =>
    rw [List.eq_of_mem_replicate hz]
    decide
  | inr hm => exact h w hm

theorem fit_widenRegEntry (h : Fit entry) : Fit (widenRegEntry a s a' s' entry) := by
  intro w hw
  cases List.mem_append.mp hw with
  | inl hm => exact fit_zeros_append (h.take a) _ w hm
  | inr hm => exact fit_zeros_append (h.drop a) _ w hm

/-! ### Zeros in front of a `ranges` entry -/

/-- In the child address the zeros take the place of its last cells, so it stays only if it is 0. -/
theorem value_take_zeros {c d : Nat} (hc : c ≤ entry.length) (hd : 0 < d)
    (h : value (2 ^ 32) ((List.replicate d 0 ++ entry).take c) = value (2 ^ 32) (entry.take c)) :
    value (2 ^ 32) (entry.take c) = 0 := by
  rw [List.take_append, List.length_replicate, List.take_replicate, value_zeros_append] at h
  have hsplit : entry.take c = entry.take (c - d) ++ (entry.take c).drop (c - d) := by
    conv_lhs =>
      rw [← List.take_append_drop (c - d) (entry.take c), List.take_take, Nat.min_eq_left (Nat.sub_le c d)]
  have hlen : ((entry.take c).drop (c - d)).length = c - (c - d) := by
    rw [List.length_drop, List.length_take]
    omega
  rw [hsplit, value_append, hlen] at h ⊢
  by_cases h0 : c = 0
  · subst h0
    simp
  · have hpow : 2 ≤ (2 ^ 32) ^ (c - (c - d)) :=
      calc 2 ≤ (2 ^ 32) ^ 1 := by decide
        _ ≤ (2 ^ 32) ^ (c - (c - d)) := Nat.pow_le_pow_right (by decide) (by omega)
    have hmul := Nat.mul_le_mul_left (value (2 ^ 32) (entry.take (c - d))) hpow
    omega

/-- A child address of 0 leaves room for the zeros behind it. -/
theorem zeros_append_of_child_zero {c d : Nat} (hf : Fit entry) (hc : c ≤ entry.length)
    (h : value (2 ^ 32) (entry.take c) = 0) :
    List.replicate d 0 ++ entry = List.replicate c 0 ++ (List.replicate d 0 ++ entry.drop c) := by
  have hz := eq_zeros (by decide) (hf.take c) h
  rw [List.length_take_of_le hc] at hz
  conv_lhs => rw [← List.take_append_drop c entry, hz]
  rw [← List.append_assoc, ← List.append_assoc, List.replicate_append_replicate, List.replicate_append_replicate,
    Nat.add_comm]

end Entries

/-! ## Lengths that do not work -/

/-- Why entries cannot be told apart. -/
inductive Flaw where
  | uneven
  | noCells
  deriving DecidableEq, Repr

def wordsFlaw (step : Nat) (words : List Nat) : Option Flaw :=
  if step = 0 then some .noCells else if words.length % step ≠ 0 then some .uneven else none

def rangesStep (a : Nat) (node : FdtNode) : Nat :=
  a + cellsOfNode node "#address-cells" DEFAULT_ADDR_CELLS + cellsOfNode node "#size-cells" DEFAULT_SIZE_CELLS

/-- The first thing wrong with a node under the root that has `a` and `s` cells. -/
def flaw (a s : Nat) (node : FdtNode) : Option Flaw :=
  ((wordsOf node "reg").bind (wordsFlaw (a + s))).or ((wordsOf node "ranges").bind (wordsFlaw (rangesStep a node)))

/-- What the code raises for it. -/
def Flaw.Raises : Flaw → PyError → Prop
  | .uneven, e => ∃ message, e = .valueError message
  | .noCells, e => e = .zeroDivisionError

/-- The loop goes through with `y`, or raises for the flaw. -/
def Outcome {α : Type} (flaw : Option Flaw) (r : Except PyError α) (y : α) : Prop :=
  match flaw with
  | none => r = .ok y
  | some f => ∃ e, r = .error e ∧ f.Raises e

section Outcomes

variable {α β : Type} {o o' : Option Flaw} {r : Except PyError α} {y : α} {step : Nat} {words : List Nat}
  {node : FdtNode} {name : String}

/-- Steps in a row: the first flaw decides. -/
theorem Outcome.bind {f : α → Except PyError β} {z : β} (h : Outcome o r y)
    (h' : o = none → Outcome o' (f y) z) : Outcome (o.or o') (r >>= f) z := by
  cases o with
  | none =>
    obtain rfl : r = .ok y := h
    exact h' rfl
  | some f =>
    obtain ⟨e, rfl, he⟩ := h
    exact ⟨e, rfl, he⟩

/-- What is done with the result does not fail. -/
theorem Outcome.map (h : Outcome o r y) (f : α → β) : Outcome o (r >>= fun x => pure (f x)) (f y) := by
  rw [← Option.or_none (o := o)]
  exact h.bind fun _ => rfl

theorem outcome_checkStep (node : FdtNode) (name : String) (words : List Nat) (step : Nat) :
    Outcome (wordsFlaw step words) (checkStep node name words step) () := by
  rw [wordsFlaw, checkStep]
  split_ifs
  · exact ⟨_, rfl, rfl⟩
  · exact ⟨_, rfl, _, rfl⟩
  · rfl

theorem wordsFlaw_eq_none (h : wordsFlaw step words = none) : 0 < step ∧ words.length % step = 0 := by
  rw [wordsFlaw] at h
  split_ifs at h with h0 h1
  exact ⟨Nat.pos_of_ne_zero h0, not_not.mp h1⟩

end Outcomes

/-! ## The nodes under the root -/

section Children

variable (a s a' s' : Nat)

def widenReg (node : FdtNode) : FdtNode :=
  match wordsOf node "reg" with
  | some words => setProperty node ⟨"reg", .words ((parts (a + s) words).flatMap (widenRegEntry a s a' s'))⟩
  | none => node

def widenRanges (node : FdtNode) : FdtNode :=
  match wordsOf node "ranges" with
  | some words =>
    setProperty node ⟨"ranges", .words ((parts (rangesStep a node) words).flatMap (widenRangesEntry a a'))⟩
  | none => node

def widenChild (node : FdtNode) : FdtNode := widenRanges a a' (widenReg a s a' s' node)

def widenItems (items : List FdtItem) : List FdtItem := items.map (Sum.map id (widenChild a s a' s'))

/-- The words of the property have 32 bits. -/
def Fits (node : FdtNode) (name : String) : Prop := ∀ words, wordsOf node name = some words → Fit words

variable {a s a' s'} {node : FdtNode} {name : String}

theorem cellsOfNode_setProperty_other {prop : FdtProperty} (h : prop.name ≠ name) (default : Nat) :
    cellsOfNode (setProperty node prop) name default = cellsOfNode node name default := by
  rw [cellsOfNode, nodeProperty_setProperty_other h, cellsOfNode]

/-- Of a node only `reg` is changed. -/
theorem nodeProperty_widenReg (h : name ≠ "reg") :
    nodeProperty (widenReg a s a' s' node) name = nodeProperty node name := by
  rw [widenReg]
  cases wordsOf node "reg" with
  | none => rfl
  | some words => exact nodeProperty_setProperty_other h.symm

theorem nodeProperty_widenRanges (h : name ≠ "ranges") :
    nodeProperty (widenRanges a a' node) name = nodeProperty node name := by
  rw [widenRanges]
  cases wordsOf node "ranges" with
  | none => rfl
  | some words => exact nodeProperty_setProperty_other h.symm

theorem wordsOf_widenReg (h : name ≠ "reg") : wordsOf (widenReg a s a' s' node) name = wordsOf node name := by
  rw [wordsOf, nodeProperty_widenReg h, wordsOf]

theorem rangesStep_widenReg : rangesStep a (widenReg a s a' s' node) = rangesStep a node := by
  simp [rangesStep, cellsOfNode, nodeProperty_widenReg]

theorem rewriteChildReg_eq : rewriteChildReg node a s a' s' =
    match wordsOf node "reg" with
    | some words => do
      checkStep node "reg" words (a + s)
      let entries ← (parts (a + s) words).mapM fun entry =>
        regWords (decodeCells (entry.take a)) (decodeCells (entry.drop a)) a' s'
      return setProperty node ⟨"reg", .words entries.flatten⟩
    | none => return node := by
  rw [rewriteChildReg, wordsOf]
  cases nodeProperty node "reg" with
  | none => rfl
  | some prop =>
    obtain ⟨_, value⟩ := prop
    cases value <;> rfl

theorem rewriteChildRanges_eq : rewriteChildRanges node a a' =
    match wordsOf node "ranges" with
    | some words => do
      checkStep node "ranges" words (rangesStep a node)
      let entries ← (parts (rangesStep a node) words).mapM fun entry => do
        let parent ← encodeCells (decodeCells (entry.take a)) a'
        return parent ++ entry.drop a
      return setProperty node ⟨"ranges", .words entries.flatten⟩
    | none => return node := by
  rw [rewriteChildRanges, wordsOf]
  cases nodeProperty node "ranges" with
  | none => rfl
  | some prop =>
    obtain ⟨_, value⟩ := prop
    cases value <;> rfl

variable (ha : a ≤ a') (hs : s ≤ s') (ha' : 0 < a') (hs' : 0 < s')
include ha ha'

theorem outcome_childRanges (hf : Fits node "ranges") :
    Outcome ((wordsOf node "ranges").bind (wordsFlaw (rangesStep a node))) (rewriteChildRanges node a a')
      (widenRanges a a' node) := by
  rw [rewriteChildRanges_eq, widenRanges]
  cases hw : wordsOf node "ranges" with
  | none => rfl
  | some words =>
    rw [Option.bind_some, ← Option.or_none (o := wordsFlaw _ _)]
    refine (outcome_checkStep node "ranges" words _).bind fun hno => ?_
    obtain ⟨hpos, hmod⟩ := wordsFlaw_eq_none hno
    have hfit := hf words hw
    have hentry : ∀ entry ∈ parts (rangesStep a node) words, a ≤ entry.length := by
      intro entry he
      rw [length_of_mem_parts hpos hmod entry he, rangesStep]
      omega
    rw [mapM_ok fun entry he => encode_parent (hfit.part he) (hentry entry he) ha ha']
    rfl

include hs hs'

theorem outcome_childReg (hf : Fits node "reg") :
    Outcome ((wordsOf node "reg").bind (wordsFlaw (a + s))) (rewriteChildReg node a s a' s')
      (widenReg a s a' s' node) := by
  rw [rewriteChildReg_eq, widenReg]
  cases hw : wordsOf node "reg" with
  | none => rfl
  | some words =>
    rw [Option.bind_some, ← Option.or_none (o := wordsFlaw _ _)]
    refine (outcome_checkStep node "reg" words _).bind fun hno => ?_
    obtain ⟨hpos, hmod⟩ := wordsFlaw_eq_none hno
    have hfit := hf words hw
    rw [mapM_ok fun entry he => regWords_entry (hfit.part he) (length_of_mem_parts hpos hmod entry he) ha hs ha' hs']
    rfl

theorem outcome_child (hreg : Fits node "reg") (hranges : Fits node "ranges") :
    Outcome (flaw a s node) (rewriteChild a s a' s' (.inr node)) (.inr (widenChild a s a' s' node)) := by
  have hw : wordsOf (widenReg a s a' s' node) "ranges" = wordsOf node "ranges" := wordsOf_widenReg (by simp)
  have hranges' : Fits (widenReg a s a' s' node) "ranges" := by
    rw [Fits, hw]
    exact hranges
  have hsecond := outcome_childRanges ha ha' hranges'
  rw [hw, rangesStep_widenReg] at hsecond
  exact (outcome_childReg ha hs ha' hs' hreg).bind fun _ => hsecond.map Sum.inr

theorem outcome_items {items : List FdtItem}
    (hreg : ∀ node ∈ items.filterMap Sum.getRight?, Fits node "reg")
    (hranges : ∀ node ∈ items.filterMap Sum.getRight?, Fits node "ranges") :
    Outcome ((items.filterMap Sum.getRight?).findSome? (flaw a s)) (items.mapM (rewriteChild a s a' s'))
      (widenItems a s a' s' items) := by
  induction items with
  | nil => rfl
  | cons item rest ih =>
    rw [List.mapM_cons]
    cases item with
    | inl prop =>
      rw [List.filterMap_cons_none (by rfl)] at hreg hranges ⊢
      exact (ih hreg hranges).map (Sum.inl prop :: ·)
    | inr node =>
      rw [List.filterMap_cons_some (by rfl)] at hreg hranges ⊢
      rw [List.forall_mem_cons] at hreg hranges
      rw [findSome?_cons_or]
      have hnode := outcome_child ha hs ha' hs' hreg.1 hranges.1
      exact hnode.bind fun _ => (ih hreg.2 hranges.2).map (Sum.inr (widenChild a s a' s' node) :: ·)

/-- What becomes of the root. -/
theorem outcome_rootCells {root : FdtNode} (hreg : ∀ node ∈ root.subNodes, Fits node "reg")
    (hranges : ∀ node ∈ root.subNodes, Fits node "ranges") :
    Outcome (root.subNodes.findSome? (flaw a s)) (rewriteRootCells root a s a' s')
      (setRootCells (.mk root.getName (widenItems a s a' s' root.subdata)) a' s') :=
  (outcome_items ha hs ha' hs' hreg hranges).map fun subdata => setRootCells (.mk root.getName subdata) a' s'

end Children

end Pyremu.DevTree
