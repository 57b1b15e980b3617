import Pyremu.DevTree.Delivery

/-!
# Wider root cells and the meaning of the tree

The entries of `reg` and `ranges` are read as the Devicetree specification
orders them, `ranges` by child address, parent address and length. With wider
root cells `reg` reads as before. `ranges` does so when the address cells stay
as they are or every child address is 0, because the zeros for the parent
address are put in front of the whole entry.
-/

namespace Pyremu.DevTree

open Positional

/-! ## Reading -/

def wordBytes (word : Nat) : List UInt8 := (digits 256 4 word).map UInt8.ofNat

/-- The cells that the bytes of a property make up. -/
def cellsIn (value : List UInt8) : Option (List Nat) :=
  if value.length % 4 = 0 then some ((parts 4 value).map fun cell => Positional.value 256 (cell.map UInt8.toNat))
  else none

/-- The entries of `step` cells each. -/
def entriesIn (step : Nat) (value : List UInt8) : Option (List (List Nat)) :=
  (cellsIn value).bind fun words => if words.length % step = 0 then some (parts step words) else none

def number (cells : List Nat) : Nat := Positional.value (2 ^ 32) cells

def regPairs (addrCells sizeCells : Nat) (value : List UInt8) : Option (List (Nat × Nat)) :=
  (entriesIn (addrCells + sizeCells) value).map fun entries =>
    entries.map fun entry => (number (entry.take addrCells), number (entry.drop addrCells))

structure RangesEntry where
  child : Nat
  parent : Nat
  length : Nat
  deriving DecidableEq, Repr

def readRanges (childAddr parentAddr : Nat) (entry : List Nat) : RangesEntry where
  child := number (entry.take childAddr)
  parent := number ((entry.drop childAddr).take parentAddr)
  length := number (entry.drop (childAddr + parentAddr))

def rangesEntries (childAddr parentAddr childSize : Nat) (value : List UInt8) : Option (List RangesEntry) :=
  (entriesIn (childAddr + parentAddr + childSize) value).map fun entries =>
    entries.map (readRanges childAddr parentAddr)

section Reading

variable {words : List Nat} {value : List UInt8}

theorem fit_cellsIn (h : cellsIn value = some words) : Fit words := by
  rw [cellsIn] at h
  split_ifs at h with hmod
  cases h
  intro w hw
  obtain ⟨cell, hcell, rfl⟩ := List.mem_map.mp hw
  have hlen : (cell.map UInt8.toNat).length = 4 := by
    rw [List.length_map, length_of_mem_parts (by decide) hmod cell hcell]
  have hlt : Positional.value 256 (cell.map UInt8.toNat) < 256 ^ 4 := by
    rw [← hlen]
    refine value_lt (by decide) fun x hx => ?_
    obtain ⟨b, _, rfl⟩ := List.mem_map.mp hx
    exact b.toNat_lt
  exact hlt

/-- Words written as bytes are read as the same words. -/
theorem cellsIn_wordBytes (h : Fit words) : cellsIn (words.flatMap wordBytes) = some words := by
  have hlen : ∀ w ∈ words, (wordBytes w).length = 4 := fun w _ => by simp [wordBytes]
  have hmod : (words.flatMap wordBytes).length % 4 = 0 := by
    rw [length_flatMap_of_length hlen]
    exact Nat.mul_mod_right 4 _
  rw [cellsIn, if_pos hmod, parts_flatMap (by decide) hlen, List.map_map]
  congr 1
  refine (List.map_congr_left fun w hw => ?_).trans (List.map_id words)
  have hbytes : (wordBytes w).map UInt8.toNat = digits 256 4 w := by
    rw [wordBytes, List.map_map]
    refine (List.map_congr_left fun d hd => ?_).trans (List.map_id _)
    exact UInt8.toNat_ofNat_of_lt' (digits_lt (by decide) d hd)
  have hw : w < 256 ^ 4 := h w hw
  rw [Function.comp_apply, hbytes, value_digits hw, id]

end Reading

/-! ## What `pyfdt` is relied on for -/

/-- The property is words exactly when its bytes are, and is written as it was read. -/
structure Represents (pyfdt : Pyfdt) (name : String) (value : List UInt8) : Prop where
  words : ∀ words, pyfdt.newRawProperty name value = .words words ↔ value ≠ [] ∧ cellsIn value = some words
  raw : pyfdt.toRaw (pyfdt.newRawProperty name value) = value

/-- `pyfdt` represents the `reg` and `ranges` under the root faithfully, and writes words as such. -/
structure Faithful (pyfdt : Pyfdt) (chip : Node) : Prop where
  represents : ∀ node ∈ chip.nodes, ∀ name ∈ ["reg", "ranges"], ∀ value,
    node.value? name = some value → Represents pyfdt name value
  serialises : ∀ words, Fit words → pyfdt.toRaw (.words words) = words.flatMap wordBytes

/-! ## The claim -/

section Statement

variable (pyfdt : Pyfdt) (seed : List UInt8) (chip : Node) (delivered : DeliveredTree)

def rootAddr : Nat := addrCellsOf (toFdtNode pyfdt chip)

def rootSize : Nat := sizeCellsOf (toFdtNode pyfdt chip)

/-- The bytes that the property has in the blob. -/
def written (node : FdtNode) (name : String) : Option (List UInt8) :=
  (nodeProperty node name).map fun prop => pyfdt.toRaw prop.value

/-- The node `k` under `root` says what `c` said in the tree of the chip. -/
structure SameMeaning (root : FdtNode) (c : Node) (k : FdtNode) : Prop where
  reg : (written pyfdt k "reg").map (regPairs (addrCellsOf root) (sizeCellsOf root)) =
    (c.value? "reg").map (regPairs (rootAddr pyfdt chip) (rootSize pyfdt chip))
  ranges : (written pyfdt k "ranges").map (rangesEntries (addrCellsOf k) (addrCellsOf root) (sizeCellsOf k)) =
    (c.value? "ranges").map (rangesEntries (addrCellsOf (toFdtNode pyfdt c)) (rootAddr pyfdt chip)
      (sizeCellsOf (toFdtNode pyfdt c)))

/-- The nodes of the chip come first under the root, and all but the rewritten memory nodes say
what they said. -/
def KeepsMeaning (root : FdtNode) : Prop :=
  List.Forall₂ (fun c k => k.getName = c.name ∧
      (Rewritten delivered.ram (toFdtNode pyfdt c) ∨ SameMeaning pyfdt chip root c k))
    chip.nodes (root.subNodes.take chip.nodes.length)

/-- A `ValueError`, or a tree with the meaning of the one parsed. -/
def WidenedSoundly : Prop :=
  (∃ message, chipDtToDtb pyfdt seed chip delivered = .error (.valueError message)) ∨
    ∃ root messages, chipDtToDtb pyfdt seed chip delivered = .ok (root, messages) ∧
      KeepsMeaning pyfdt chip delivered root

def needs : Nat × Nat := neededCells delivered.ram delivered.reservedRanges

/-- More cells are needed than the root declares. -/
def NeedsWidening : Prop :=
  rootAddr pyfdt chip < (needs delivered).1 ∨ rootSize pyfdt chip < (needs delivered).2

def newAddrCells : Nat := max (rootAddr pyfdt chip) (needs delivered).1

def newSizeCells : Nat := max (rootSize pyfdt chip) (needs delivered).2

/-- Every `ranges` entry of the node has child address 0. -/
def FromZero (c : Node) : Prop :=
  ∀ value entries, c.value? "ranges" = some value →
    rangesEntries (addrCellsOf (toFdtNode pyfdt c)) (rootAddr pyfdt chip)
      (sizeCellsOf (toFdtNode pyfdt c)) value = some entries →
    ∀ entry ∈ entries, entry.child = 0

/-- The address cells stay, or buses other than rewritten memory nodes are mapped from 0 on. -/
def RangesKept : Prop :=
  newAddrCells pyfdt chip delivered = rootAddr pyfdt chip ∨
    ∀ c ∈ chip.nodes, Rewritten delivered.ram (toFdtNode pyfdt c) ∨ FromZero pyfdt chip c

/-- The tree of the chip with only the cells of the root replaced. -/
def declared : FdtNode :=
  setRootCells (toFdtNode pyfdt chip) (newAddrCells pyfdt chip delivered) (newSizeCells pyfdt chip delivered)

/-- When the claim holds: a length that does not work comes before entries without cells, or there
is neither and the harts or the reserved memory do not suit the tree, or the initramfs fits and a
device does not suit it or the buses keep their maps. -/
def SoundInput : Prop :=
  match (toFdtNode pyfdt chip).subNodes.findSome?
    (flaw (rootAddr pyfdt chip) (rootSize pyfdt chip)) with
  | some .uneven => True
  | some .noCells => False
  | none =>
    EarlyRefused (declared pyfdt chip delivered) delivered (newAddrCells pyfdt chip delivered)
        (newSizeCells pyfdt chip delivered) ∨
      InitrdFits delivered.initrd ∧
        (LateRefused (declared pyfdt chip delivered) delivered ∨ RangesKept pyfdt chip delivered)

end Statement

/-! ## The conversion -/

section Conversion

variable {pyfdt : Pyfdt} {node : Node} {name : String} {value : List UInt8} {words : List Nat}

theorem nodes_toFdtNodes (nodes : List Node) :
    (toFdtNodes pyfdt nodes).filterMap Sum.getRight? = nodes.map (toFdtNode pyfdt) := by
  induction nodes with
  | nil => rfl
  | cons node rest ih => rw [toFdtNodes, List.filterMap_cons_some (by rfl), ih, List.map_cons]

theorem named_toFdtNodes (nodes : List Node) : (toFdtNodes pyfdt nodes).findSome? (FdtItem.named name) = none := by
  induction nodes with
  | nil => rfl
  | cons node rest ih => rw [toFdtNodes, List.findSome?_cons]; exact ih

theorem subNodes_toFdtNode (node : Node) : (toFdtNode pyfdt node).subNodes = node.nodes.map (toFdtNode pyfdt) := by
  cases node with
  | mk label props nodes =>
    have hprops : (props.map fun prop => rawAttribute pyfdt prop.name prop.value).filterMap Sum.getRight? = [] := by
      rw [List.filterMap_map, List.filterMap_eq_nil_iff]
      exact fun _ _ => rfl
    rw [toFdtNode, FdtNode.subNodes, FdtNode.subdata_mk, List.filterMap_append, hprops, List.nil_append,
      nodes_toFdtNodes nodes]
    rfl

theorem getName_toFdtNode (node : Node) : (toFdtNode pyfdt node).getName = node.name := by
  cases node with
  | mk label props nodes => rw [toFdtNode]; rfl

theorem nodeProperty_toFdtNode (node : Node) (name : String) :
    nodeProperty (toFdtNode pyfdt node) name =
      (node.value? name).map fun value => ⟨name, pyfdt.newRawProperty name value⟩ := by
  cases node with
  | mk label props nodes =>
    rw [toFdtNode, nodeProperty, FdtNode.subdata_mk, List.findSome?_append, named_toFdtNodes nodes,
      Option.or_none, List.findSome?_map, Node.value?, Node.props]
    induction props with
    | nil => rfl
    | cons prop rest ih =>
      rw [List.findSome?_cons, ih, Function.comp_apply, rawAttribute, FdtItem.named]
      by_cases hp : prop.name = name
      · rw [if_pos hp, List.find?_cons_of_pos (by simpa using hp), hp]
        rfl
      · rw [if_neg hp, List.find?_cons_of_neg (by simpa using hp)]

/-- The property of a node of the chip is words exactly when its bytes are. -/
theorem wordsOf_toFdtNode (h : node.value? name = some value) (hr : Represents pyfdt name value) :
    wordsOf (toFdtNode pyfdt node) name = some words ↔ value ≠ [] ∧ cellsIn value = some words := by
  rw [← hr.words, wordsOf, nodeProperty_toFdtNode, h]
  simp only [Option.map_some]
  cases pyfdt.newRawProperty name value <;> simp

theorem wordsOf_absent (h : node.value? name = none) : wordsOf (toFdtNode pyfdt node) name = none := by
  rw [wordsOf, nodeProperty_toFdtNode, h]
  rfl

theorem fits_toFdtNode {chip : Node} (hf : Faithful pyfdt chip) (hn : node ∈ chip.nodes)
    (hname : name ∈ ["reg", "ranges"]) : Fits (toFdtNode pyfdt node) name := by
  intro words hw
  cases hv : node.value? name with
  | none =>
    rw [wordsOf_absent hv] at hw
    cases hw
  | some value => exact fit_cellsIn ((wordsOf_toFdtNode hv (hf.represents node hn name hname value hv)).mp hw).2

end Conversion

/-! ## The widened nodes -/

section Widened

variable {a s a' s' : Nat} {node : FdtNode}

/-- A node under the root is changed in `reg` and `ranges` only. -/
theorem looksLike_widenChild : LooksLike (widenChild a s a' s' node) node := by
  have hreg : LooksLike (widenReg a s a' s' node) node := by
    rw [widenReg]
    cases wordsOf node "reg" with
    | none => exact .refl node
    | some words => exact .setProperty (.inl rfl) node
  rw [widenChild, widenRanges]
  cases wordsOf (widenReg a s a' s' node) "ranges" with
  | none => exact hreg
  | some words => exact .trans (.setProperty (.inr rfl) _) hreg

end Widened

/-! ## Entries read again -/

section Entries

variable {a s a' s' c n step : Nat} {entry words : List Nat} {value : List UInt8} {entries : List (List Nat)}
  {f : List Nat → List Nat}

theorem entriesIn_words (h : cellsIn value = some words) (hmod : words.length % step = 0) :
    entriesIn step value = some (parts step words) := by
  rw [entriesIn, h, Option.bind_some, if_pos hmod]

/-- No words: an entry of whatever length is not there or does not come out. -/
theorem entriesIn_of_no_words (h : ∀ words, ¬ (value ≠ [] ∧ cellsIn value = some words)) :
    (∀ step, entriesIn step value = some []) ∨ ∀ step, entriesIn step value = none := by
  by_cases hv : value = []
  · subst hv
    left
    intro step
    simp [entriesIn, cellsIn]
  · right
    intro step
    have hnone : cellsIn value = none := Option.eq_none_iff_forall_ne_some.mpr fun words hw => h words ⟨hv, hw⟩
    rw [entriesIn, hnone, Option.bind_none]

theorem fit_flatMap (hfit : ∀ e ∈ entries, Fit (f e)) : Fit (entries.flatMap f) := by
  intro w hw
  obtain ⟨e, he, hwe⟩ := List.mem_flatMap.mp hw
  exact hfit e he w hwe

/-- Entries rewritten one by one and written as bytes are read one by one. -/
theorem entriesIn_flatMap (hstep : 0 < step) (hlen : ∀ e ∈ entries, (f e).length = step)
    (hfit : ∀ e ∈ entries, Fit (f e)) :
    entriesIn step ((entries.flatMap f).flatMap wordBytes) = some (entries.map f) := by
  have hmod : (entries.flatMap f).length % step = 0 := by
    rw [length_flatMap_of_length hlen]
    exact Nat.mul_mod_right step _
  rw [entriesIn_words (cellsIn_wordBytes (fit_flatMap hfit)) hmod, parts_flatMap hstep hlen]

theorem regPairs_widened (h : cellsIn value = some words) (hpos : 0 < a + s) (hmod : words.length % (a + s) = 0)
    (ha : a ≤ a') (hs : s ≤ s') :
    regPairs a' s' (((parts (a + s) words).flatMap (widenRegEntry a s a' s')).flatMap wordBytes) =
      regPairs a s value := by
  have hlen := length_of_mem_parts hpos hmod
  have hfit := fit_cellsIn h
  rw [regPairs, regPairs, entriesIn_words h hmod, entriesIn_flatMap (by omega)
    (fun e he => length_widenRegEntry (hlen e he) ha hs) (fun e he => fit_widenRegEntry (hfit.part he)),
    Option.map_some, Option.map_some, List.map_map]
  congr 1
  apply List.map_congr_left
  intro e he
  obtain ⟨hbase, hsize⟩ := value_widenRegEntry (2 ^ 32) s' (hlen e he) ha
  exact Prod.ext hbase hsize

/-- A `ranges` entry says the same after it is widened if no zeros came in front or it is mapped
from 0 on, and not otherwise. -/
theorem readRanges_widened (hl : entry.length = c + a + n) (hf : Fit entry) (ha : a ≤ a') :
    readRanges c a' (widenRangesEntry a a' entry) = readRanges c a entry ↔
      a' = a ∨ (readRanges c a entry).child = 0 := by
  constructor
  · intro h
    rcases Nat.eq_zero_or_pos (a' - a) with hd | hd
    · exact .inl (by omega)
    · exact .inr (value_take_zeros (by omega) hd (congrArg RangesEntry.child h))
  · rintro (rfl | hzero)
    · rw [widenRangesEntry, Nat.sub_self]
      rfl
    · have hchild : number (entry.take c) = 0 := hzero
      have hzeros : (List.replicate c 0).length = c := List.length_replicate
      rw [widenRangesEntry, zeros_append_of_child_zero hf (by omega) hchild, readRanges, readRanges,
        List.take_left' hzeros, List.drop_left' hzeros, hchild, number, number, number, value_zeros]
      congr 1
      · have hp : (List.replicate (a' - a) 0 ++ entry.drop c).take a' =
            List.replicate (a' - a) 0 ++ (entry.drop c).take a := by
          rw [List.take_append, List.length_replicate, List.take_of_length_le (by simp), Nat.sub_sub_self ha]
        rw [hp, value_zeros_append]
        rfl
      · have hd : (List.replicate (a' - a) 0 ++ entry.drop c).drop a' = entry.drop (c + a) := by
          rw [List.drop_append, List.length_replicate, List.drop_of_length_le (by simp), Nat.sub_sub_self ha,
            List.nil_append, List.drop_drop]
        rw [← List.drop_drop, List.drop_left' hzeros, hd]
        rfl

theorem rangesEntries_widened (h : cellsIn value = some words) (hpos : 0 < c + a + n)
    (hmod : words.length % (c + a + n) = 0) (ha : a ≤ a') :
    rangesEntries c a' n (((parts (c + a + n) words).flatMap (widenRangesEntry a a')).flatMap wordBytes) =
        rangesEntries c a n value ↔
      a' = a ∨ ∀ entries, rangesEntries c a n value = some entries → ∀ e ∈ entries, e.child = 0 := by
  have hlen := length_of_mem_parts hpos hmod
  have hfit := fit_cellsIn h
  have hread : rangesEntries c a n value = some ((parts (c + a + n) words).map (readRanges c a)) := by
    rw [rangesEntries, entriesIn_words h hmod, Option.map_some]
  rw [hread, rangesEntries, entriesIn_flatMap (by omega) (fun e he => length_widenRangesEntry (hlen e he) ha)
    (fun e he => fit_zeros_append (hfit.part he) _), Option.map_some, List.map_map, Option.some_inj,
    List.map_inj_left]
  constructor
  · intro hall
    rcases Nat.eq_or_lt_of_le ha with heq | hlt
    · exact .inl heq.symm
    · right
      rintro _ ⟨⟩ r hr
      obtain ⟨e, he, rfl⟩ := List.mem_map.mp hr
      exact ((readRanges_widened (hlen e he) (hfit.part he) ha).mp (hall e he)).resolve_left (by omega)
  · intro hkept e he
    refine (readRanges_widened (hlen e he) (hfit.part he) ha).mpr (hkept.imp_right fun hz => ?_)
    exact hz _ rfl _ (List.mem_map_of_mem he)

end Entries

/-! ## Nodes read again -/

section Nodes

variable {pyfdt : Pyfdt} {chip c : Node} {k node root : FdtNode} {name : String} {words : List Nat}
  {a s a' s' : Nat}

theorem written_toFdtNode (h : ∀ value, c.value? name = some value → Represents pyfdt name value) :
    written pyfdt (toFdtNode pyfdt c) name = c.value? name := by
  rw [written, nodeProperty_toFdtNode]
  cases hv : c.value? name with
  | none => rfl
  | some value => exact congrArg some (h value hv).raw

theorem written_words (hf : Faithful pyfdt chip) (hw : Fit words) :
    written pyfdt (setProperty node ⟨name, .words words⟩) name = some (words.flatMap wordBytes) := by
  rw [written, nodeProperty_setProperty, if_pos rfl, Option.map_some, hf.serialises words hw]

variable (hf : Faithful pyfdt chip) (hc : c ∈ chip.nodes)
include hf hc

theorem reg_widened (ha : a ≤ a') (hs : s ≤ s') (hflaw : flaw a s (toFdtNode pyfdt c) = none) :
    (written pyfdt (widenChild a s a' s' (toFdtNode pyfdt c)) "reg").map (regPairs a' s') =
      (c.value? "reg").map (regPairs a s) := by
  have hrep := hf.represents c hc "reg" (by simp)
  have hranges : written pyfdt (widenChild a s a' s' (toFdtNode pyfdt c)) "reg" =
      written pyfdt (widenReg a s a' s' (toFdtNode pyfdt c)) "reg" := by
    rw [written, widenChild, nodeProperty_widenRanges (by decide), written]
  rw [hranges, widenReg]
  cases hw : wordsOf (toFdtNode pyfdt c) "reg" with
  | none =>
    simp only [written_toFdtNode hrep]
    cases hv : c.value? "reg" with
    | none => rfl
    | some value =>
      have hno : ∀ words, ¬ (value ≠ [] ∧ cellsIn value = some words) := fun words hwords => by
        rw [← wordsOf_toFdtNode hv (hrep value hv), hw] at hwords
        cases hwords
      cases entriesIn_of_no_words hno with
      | inl h => simp only [Option.map_some, regPairs, h, List.map_nil]
      | inr h => simp only [Option.map_some, regPairs, h, Option.map_none]
  | some words =>
    rw [flaw, hw, Option.bind_some, Option.or_eq_none_iff] at hflaw
    obtain ⟨hpos, hmod⟩ := wordsFlaw_eq_none hflaw.1
    cases hv : c.value? "reg" with
    | none =>
      rw [wordsOf_absent hv] at hw
      cases hw
    | some value =>
      have hcells := ((wordsOf_toFdtNode hv (hrep value hv)).mp hw).2
      have hfit : Fit ((parts (a + s) words).flatMap (widenRegEntry a s a' s')) :=
        fit_flatMap fun e he => fit_widenRegEntry ((fit_cellsIn hcells).part he)
      simp only [written_words hf hfit, Option.map_some]
      rw [regPairs_widened hcells hpos hmod ha hs]

theorem ranges_widened (s' : Nat) (ha : a ≤ a') (hflaw : flaw a s (toFdtNode pyfdt c) = none) :
    (written pyfdt (widenChild a s a' s' (toFdtNode pyfdt c)) "ranges").map
        (rangesEntries (addrCellsOf (toFdtNode pyfdt c)) a' (sizeCellsOf (toFdtNode pyfdt c))) =
      (c.value? "ranges").map
        (rangesEntries (addrCellsOf (toFdtNode pyfdt c)) a (sizeCellsOf (toFdtNode pyfdt c))) ↔
    a' = a ∨ ∀ value entries, c.value? "ranges" = some value →
      rangesEntries (addrCellsOf (toFdtNode pyfdt c)) a (sizeCellsOf (toFdtNode pyfdt c)) value = some entries →
      ∀ e ∈ entries, e.child = 0 := by
  have hrep := hf.represents c hc "ranges" (by simp)
  have hreg : wordsOf (widenReg a s a' s' (toFdtNode pyfdt c)) "ranges" = wordsOf (toFdtNode pyfdt c) "ranges" :=
    wordsOf_widenReg (by decide)
  rw [widenChild, widenRanges, hreg, rangesStep_widenReg]
  cases hw : wordsOf (toFdtNode pyfdt c) "ranges" with
  | none =>
    have hsame : written pyfdt (widenReg a s a' s' (toFdtNode pyfdt c)) "ranges" = c.value? "ranges" := by
      rw [written, nodeProperty_widenReg (by decide), ← written, written_toFdtNode hrep]
    simp only [hsame]
    cases hv : c.value? "ranges" with
    | none => exact iff_of_true rfl (.inr fun _ _ h => by cases h)
    | some value =>
      have hno : ∀ words, ¬ (value ≠ [] ∧ cellsIn value = some words) := fun words hwords => by
        rw [← wordsOf_toFdtNode hv (hrep value hv), hw] at hwords
        cases hwords
      have hread : (∀ ca p n, rangesEntries ca p n value = some []) ∨
          ∀ ca p n, rangesEntries ca p n value = none :=
        (entriesIn_of_no_words hno).imp (fun h ca p n => by rw [rangesEntries, h]; rfl)
          fun h ca p n => by rw [rangesEntries, h]; rfl
      cases hread with
      | inl h =>
        refine iff_of_true (by rw [Option.map_some, Option.map_some, h, h]) (.inr ?_)
        intro value' entries hv' he
        obtain rfl := Option.some.inj hv'
        rw [h] at he
        cases he
        exact fun _ hm => absurd hm List.not_mem_nil
      | inr h =>
        refine iff_of_true (by rw [Option.map_some, Option.map_some, h, h]) (.inr ?_)
        intro value' entries hv' he
        obtain rfl := Option.some.inj hv'
        rw [h] at he
        cases he
  | some words =>
    rw [flaw, hw, Option.bind_some, Option.or_eq_none_iff] at hflaw
    obtain ⟨hpos, hmod⟩ := wordsFlaw_eq_none hflaw.2
    have hstep : rangesStep a (toFdtNode pyfdt c) =
        addrCellsOf (toFdtNode pyfdt c) + a + sizeCellsOf (toFdtNode pyfdt c) := by
      rw [rangesStep, Nat.add_comm a]
      rfl
    rw [hstep] at hpos hmod
    cases hv : c.value? "ranges" with
    | none =>
      rw [wordsOf_absent hv] at hw
      cases hw
    | some value =>
      have hcells := ((wordsOf_toFdtNode hv (hrep value hv)).mp hw).2
      simp only [hstep]
      have hfit : Fit ((parts (addrCellsOf (toFdtNode pyfdt c) + a + sizeCellsOf (toFdtNode pyfdt c)) words).flatMap
          (widenRangesEntry a a')) := fit_flatMap fun e he => fit_zeros_append ((fit_cellsIn hcells).part he) _
      rw [written_words hf hfit, Option.map_some, Option.map_some, Option.some_inj,
        rangesEntries_widened hcells hpos hmod ha]
      refine or_congr_right ⟨fun h value' entries hv' => ?_, fun h entries => h value entries rfl⟩
      obtain rfl := Option.some.inj hv'
      exact h entries

/-- What a node that stays in its place says is what it said, if `ranges` is kept. -/
theorem sameMeaning_iff (ha : a ≤ a') (hs : s ≤ s') (hflaw : flaw a s (toFdtNode pyfdt c) = none)
    (hold : rootAddr pyfdt chip = a ∧ rootSize pyfdt chip = s)
    (hnew : addrCellsOf root = a' ∧ sizeCellsOf root = s')
    (hk : Placed (widenChild a s a' s' (toFdtNode pyfdt c)) k) :
    SameMeaning pyfdt chip root c k ↔ a' = a ∨ FromZero pyfdt chip c := by
  have hcells : ∀ name ∈ placing, name ≠ "reg" → name ≠ "ranges" → ∀ default,
      cellsOfNode k name default = cellsOfNode (toFdtNode pyfdt c) name default := by
    intro name hn hreg hranges default
    rw [cellsOfNode, hk.props name hn, looksLike_widenChild.props name hreg hranges, cellsOfNode]
  have haddr : addrCellsOf k = addrCellsOf (toFdtNode pyfdt c) :=
    hcells _ (by simp [placing]) (by decide) (by decide) _
  have hsize : sizeCellsOf k = sizeCellsOf (toFdtNode pyfdt c) :=
    hcells _ (by simp [placing]) (by decide) (by decide) _
  have hwritten : ∀ name ∈ placing,
      written pyfdt k name = written pyfdt (widenChild a s a' s' (toFdtNode pyfdt c)) name := fun name hn => by
    rw [written, hk.props name hn, written]
  have hranges := ranges_widened hf hc s' ha hflaw
  rw [FromZero, hold.1, ← hranges]
  constructor
  · intro h
    have h' := h.ranges
    rwa [hwritten "ranges" (by simp [placing]), haddr, hsize, hnew.1, hold.1] at h'
  · intro h
    refine ⟨?_, ?_⟩
    · rw [hwritten "reg" (by simp [placing]), hnew.1, hnew.2, hold.1, hold.2]
      exact reg_widened hf hc ha hs hflaw
    · rwa [hwritten "ranges" (by simp [placing]), haddr, hsize, hnew.1, hold.1]

end Nodes

section Main

variable {pyfdt : Pyfdt} {seed : List UInt8} {chip : Node} {delivered : DeliveredTree}

theorem needs_pos (delivered : DeliveredTree) : 0 < (needs delivered).1 ∧ 0 < (needs delivered).2 := by
  rw [needs, neededCells]
  generalize delivered.reservedRanges ++ (delivered.ram.map fun r => (r.base, r.size)).toList = values
  have hstart : 0 < ((1, 1) : Nat × Nat).1 ∧ 0 < ((1, 1) : Nat × Nat).2 := by decide
  generalize ((1, 1) : Nat × Nat) = start at hstart ⊢
  induction values generalizing start with
  | nil => exact hstart
  | cons value rest ih =>
    rw [List.foldl_cons]
    exact ih _ ⟨lt_max_of_lt_left hstart.1, lt_max_of_lt_left hstart.2⟩

theorem forall₂_iff {α β : Type} {P Q : α → β → Prop} {G : α → Prop} {as : List α} {bs : List β}
    (h : List.Forall₂ P as bs) (hG : ∀ a ∈ as, ∀ b, P a b → (Q a b ↔ G a)) :
    List.Forall₂ Q as bs ↔ ∀ a ∈ as, G a := by
  induction h with
  | nil => simp
  | cons hab _ ih =>
    rw [List.forall₂_cons, List.forall_mem_cons, hG _ List.mem_cons_self _ hab,
      ih fun a ha => hG a (List.mem_cons_of_mem _ ha)]

/-- The tree after the root cells are settled. -/
def widenedRoot (pyfdt : Pyfdt) (chip : Node) (delivered : DeliveredTree) : FdtNode :=
  setRootCells (.mk (toFdtNode pyfdt chip).getName (widenItems (rootAddr pyfdt chip) (rootSize pyfdt chip)
    (newAddrCells pyfdt chip delivered) (newSizeCells pyfdt chip delivered) (toFdtNode pyfdt chip).subdata))
    (newAddrCells pyfdt chip delivered) (newSizeCells pyfdt chip delivered)

/-- A node under the root then. -/
def widenedNode (pyfdt : Pyfdt) (chip : Node) (delivered : DeliveredTree) (c : Node) : FdtNode :=
  widenChild (rootAddr pyfdt chip) (rootSize pyfdt chip) (newAddrCells pyfdt chip delivered)
    (newSizeCells pyfdt chip delivered) (toFdtNode pyfdt c)

theorem cells_setRootCells (root : FdtNode) (a s : Nat) :
    addrCellsOf (setRootCells root a s) = a ∧ sizeCellsOf (setRootCells root a s) = s := by
  constructor
  · rw [addrCellsOf, setRootCells, cellsOfNode_setProperty_other (by simp), cellsOfNode, nodeProperty_setProperty,
      if_pos rfl]
  · rw [sizeCellsOf, setRootCells, cellsOfNode, nodeProperty_setProperty, if_pos rfl]

theorem subNodes_widenedRoot :
    (widenedRoot pyfdt chip delivered).subNodes = chip.nodes.map (widenedNode pyfdt chip delivered) := by
  rw [widenedRoot, setRootCells, subNodes_setProperty, subNodes_setProperty, FdtNode.subNodes, FdtNode.subdata_mk,
    widenItems, filterMap_map_nodes, ← FdtNode.subNodes, subNodes_toFdtNode, List.map_map]
  rfl

/-- The tree that the later steps return keeps its meaning exactly if the buses keep their maps. -/
theorem keepsMeaning_iff (hf : Faithful pyfdt chip) {root : FdtNode} {messages : List String}
    (hflaw : (toFdtNode pyfdt chip).subNodes.findSome? (flaw (rootAddr pyfdt chip) (rootSize pyfdt chip)) = none)
    (h : deliver pyfdt seed delivered (newAddrCells pyfdt chip delivered) (newSizeCells pyfdt chip delivered)
      (widenedRoot pyfdt chip delivered) = .ok (root, messages)) :
    KeepsMeaning pyfdt chip delivered root ↔ RangesKept pyfdt chip delivered := by
  have hkept := deliver_keeps h
  have hcells : addrCellsOf root = newAddrCells pyfdt chip delivered ∧
      sizeCellsOf root = newSizeCells pyfdt chip delivered := by
    have hw := cells_setRootCells (.mk (toFdtNode pyfdt chip).getName (widenItems (rootAddr pyfdt chip)
      (rootSize pyfdt chip) (newAddrCells pyfdt chip delivered) (newSizeCells pyfdt chip delivered)
      (toFdtNode pyfdt chip).subdata)) (newAddrCells pyfdt chip delivered) (newSizeCells pyfdt chip delivered)
    rw [← widenedRoot] at hw
    rw [addrCellsOf, sizeCellsOf, cellsOfNode, cellsOfNode, hkept.root.props _ (by simp [placing]),
      hkept.root.props _ (by simp [placing])]
    exact hw
  have hnodes := hkept.nodes
  rw [subNodes_widenedRoot, List.length_map, List.forall₂_map_left_iff] at hnodes
  rw [KeepsMeaning, forall₂_iff hnodes (G := fun c => Rewritten delivered.ram (toFdtNode pyfdt c) ∨
    newAddrCells pyfdt chip delivered = rootAddr pyfdt chip ∨ FromZero pyfdt chip c)]
  · rw [RangesKept]
    by_cases ha : newAddrCells pyfdt chip delivered = rootAddr pyfdt chip
    · exact iff_of_true (fun c _ => .inr (.inl ha)) (.inl ha)
    · simp only [ha, false_or]
  · intro c hc k hd
    have hlook : LooksLike (widenedNode pyfdt chip delivered c) (toFdtNode pyfdt c) := looksLike_widenChild
    have hname : k.getName = c.name := hd.1.trans (hlook.name.trans (getName_toFdtNode c))
    have hrewritten : Rewritten delivered.ram (widenedNode pyfdt chip delivered c) ↔
        Rewritten delivered.ram (toFdtNode pyfdt c) := by rw [Rewritten, hlook.rewritesMemory, Rewritten]
    rw [and_iff_right hname]
    by_cases hr : Rewritten delivered.ram (toFdtNode pyfdt c)
    · exact iff_of_true (.inl hr) (.inl hr)
    · have hplaced := hd.2.resolve_left (mt hrewritten.mp hr)
      have hflawc : flaw (rootAddr pyfdt chip) (rootSize pyfdt chip) (toFdtNode pyfdt c) = none := by
        rw [List.findSome?_eq_none_iff, subNodes_toFdtNode] at hflaw
        exact hflaw _ (List.mem_map_of_mem hc)
      rw [or_iff_right hr, or_iff_right hr]
      exact sameMeaning_iff hf hc (le_max_left _ _) (le_max_left _ _) hflawc ⟨rfl, rfl⟩ hcells hplaced

theorem chipDtToDtb_widening (hneed : NeedsWidening pyfdt chip delivered) :
    chipDtToDtb pyfdt seed chip delivered =
      rewriteRootCells (toFdtNode pyfdt chip) (rootAddr pyfdt chip) (rootSize pyfdt chip)
        (newAddrCells pyfdt chip delivered) (newSizeCells pyfdt chip delivered) >>=
      deliver pyfdt seed delivered (newAddrCells pyfdt chip delivered) (newSizeCells pyfdt chip delivered) :=
  if_pos hneed

theorem outcome_widening (delivered : DeliveredTree) (hf : Faithful pyfdt chip) :
    Outcome ((toFdtNode pyfdt chip).subNodes.findSome? (flaw (rootAddr pyfdt chip) (rootSize pyfdt chip)))
      (rewriteRootCells (toFdtNode pyfdt chip) (rootAddr pyfdt chip) (rootSize pyfdt chip)
        (newAddrCells pyfdt chip delivered) (newSizeCells pyfdt chip delivered))
      (widenedRoot pyfdt chip delivered) := by
  have hpos := needs_pos delivered
  have hfits : ∀ name ∈ ["reg", "ranges"], ∀ node ∈ (toFdtNode pyfdt chip).subNodes, Fits node name := by
    intro name hname node hnode
    rw [subNodes_toFdtNode] at hnode
    obtain ⟨c, hc, rfl⟩ := List.mem_map.mp hnode
    exact fits_toFdtNode hf hc hname
  exact outcome_rootCells (le_max_left _ _) (le_max_left _ _) (lt_max_of_lt_right hpos.1)
    (lt_max_of_lt_right hpos.2) (hfits "reg" (by simp)) (hfits "ranges" (by simp))

theorem alike_widenedRoot (pyfdt : Pyfdt) (chip : Node) (delivered : DeliveredTree) :
    Alike (declared pyfdt chip delivered) (widenedRoot pyfdt chip delivered) := by
  refine .of_forall₂ (fun name _ => ?_) ?_
  · have hitems : (widenItems (rootAddr pyfdt chip) (rootSize pyfdt chip) (newAddrCells pyfdt chip delivered)
        (newSizeCells pyfdt chip delivered) (toFdtNode pyfdt chip).subdata).findSome? (FdtItem.named name) =
        (toFdtNode pyfdt chip).subdata.findSome? (FdtItem.named name) := findSome?_map_nodes _ _
    rw [widenedRoot, declared, setRootCells, setRootCells]
    simp only [nodeProperty_setProperty]
    split_ifs
    · rfl
    · rfl
    · exact hitems
  · have hnodes : (declared pyfdt chip delivered).subNodes = chip.nodes.map (toFdtNode pyfdt) := by
      rw [declared, setRootCells, subNodes_setProperty, subNodes_setProperty, subNodes_toFdtNode]
    rw [subNodes_widenedRoot, hnodes, List.forall₂_map_left_iff, List.forall₂_map_right_iff]
    exact List.forall₂_same.mpr fun c _ => looksLike_widenChild

/-- The later steps raise what the tree as declared makes them raise. -/
theorem deliver_widenedRoot (pyfdt : Pyfdt) (seed : List UInt8) (chip : Node) (delivered : DeliveredTree) :
    Ends (EarlyRefused (declared pyfdt chip delivered) delivered (newAddrCells pyfdt chip delivered)
        (newSizeCells pyfdt chip delivered)) (InitrdFits delivered.initrd)
      (LateRefused (declared pyfdt chip delivered) delivered)
      (deliver pyfdt seed delivered (newAddrCells pyfdt chip delivered) (newSizeCells pyfdt chip delivered)
        (widenedRoot pyfdt chip delivered)) := by
  have halike := alike_widenedRoot pyfdt chip delivered
  have hfit : ∀ v ∈ delivered.reservedRanges ++ (delivered.ram.map fun r => (r.base, r.size)).toList,
      cellsFor v.1 ≤ newAddrCells pyfdt chip delivered ∧ cellsFor v.2 ≤ newSizeCells pyfdt chip delivered :=
    fun v hv => ⟨(neededCells_fit hv).1.trans (le_max_right _ _), (neededCells_fit hv).2.trans (le_max_right _ _)⟩
  rw [← halike.earlyRefused, ← halike.lateRefused]
  refine deliver_ends pyfdt seed _ (fun v hv => hfit v (List.mem_append_left _ hv)) fun r hr => ?_
  exact hfit (r.base, r.size) (List.mem_append_right _ (by simp [hr]))

end Main

/-! ## A bus under the root -/

def printable (b : UInt8) : Bool := (0x20 ≤ b && b ≤ 0x7e) || b = 0x09 || b = 0x0b || b = 0x0c

/-- Texts that are not empty, each with a NUL behind it. -/
def areStrings : Bool → List UInt8 → Bool
  | fresh, [] => fresh
  | fresh, b :: rest => if b = 0 then !fresh && areStrings true rest else printable b && areStrings false rest

def splitStrings (value : List UInt8) : List String :=
  ((value.splitOn 0).filter (· ≠ [])).map fun text => String.ofList (text.map fun b => Char.ofNat b.toNat)

/-- Strings before words, and words before bytes. -/
def plainPyfdt : Pyfdt where
  newRawProperty _ value :=
    if value = [] then .empty
    else if areStrings true value then .strings (splitStrings value)
    else match cellsIn value with
      | some words => .words words
      | none => .bytes value
  toRaw
    | .empty => []
    | .strings texts => texts.flatMap fun text => text.toList.map (fun c => UInt8.ofNat c.toNat) ++ [0]
    | .words words => words.flatMap wordBytes
    | .bytes bytes => bytes

def cellsProp (name : String) (words : List Nat) : Property := ⟨name, words.flatMap wordBytes⟩

/-- A root with one cell each for addresses and sizes, and a bus whose `child` is at `parent`. -/
def busTree (child parent : Nat) : Node :=
  .mk "/" [cellsProp "#address-cells" [1], cellsProp "#size-cells" [1]]
    [.mk "soc" [cellsProp "#address-cells" [1], cellsProp "#size-cells" [1],
      cellsProp "ranges" [child, parent, 0x1000]] []]

def above4G : DeliveredTree where
  ram := some ⟨0x100000000, 0x10000000⟩

theorem faithful_busTree {child parent : Nat}
    (h : Represents plainPyfdt "ranges" ([child, parent, 0x1000].flatMap wordBytes)) :
    Faithful plainPyfdt (busTree child parent) := by
  refine ⟨fun node hnode name hname value hv => ?_, fun _ _ => rfl⟩
  obtain rfl := List.mem_singleton.mp hnode
  obtain rfl | rfl : name = "reg" ∨ name = "ranges" := by simpa using hname
  · cases hv
  · cases hv
    exact h

end Pyremu.DevTree
