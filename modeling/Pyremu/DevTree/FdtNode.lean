import Pyremu.Lib.Positional

/-!
# Nodes of a device tree

The tree that `pyfdt` keeps, with the lookups and updates of `fdt_node.py`. A node
is known by where it is, the positions in `subdata` that lead to it from the root.
-/

namespace Pyremu.DevTree

/-- What the code lets through to its caller. -/
inductive PyError where
  | valueError (message : String)
  | zeroDivisionError
  | structError
  deriving DecidableEq, Repr

/-! ## The tree of `pyfdt` -/

/-- The classes `pyfdt` has for the content of a property. -/
inductive FdtValue where
  | empty
  | strings (strings : List String)
  | words (words : List Nat)
  | bytes (bytes : List UInt8)
  deriving DecidableEq, Repr

structure FdtProperty where
  name : String
  value : FdtValue
  deriving DecidableEq, Repr

/-- A node holds properties and nodes in one list. -/
inductive FdtNode where
  | mk (name : String) (subdata : List (FdtProperty ⊕ FdtNode))

/-- What stands in a node. -/
abbrev FdtItem := FdtProperty ⊕ FdtNode

namespace FdtNode

def getName : FdtNode → String
  | mk name _ => name

def subdata : FdtNode → List FdtItem
  | mk _ subdata => subdata

@[simp] theorem getName_mk (name : String) (subdata : List FdtItem) : (mk name subdata).getName = name := rfl

@[simp] theorem subdata_mk (name : String) (items : List FdtItem) : (mk name items).subdata = items := rfl

/-- The nodes directly under this one. -/
def subNodes (node : FdtNode) : List FdtNode := node.subdata.filterMap Sum.getRight?

def append (node : FdtNode) (item : FdtItem) : FdtNode := mk node.getName (node.subdata ++ [item])

end FdtNode

/-! ## Lookup and update -/

/-- The property itself, if it is one of this name. -/
def FdtItem.named (name : String) : FdtItem → Option FdtProperty
  | .inl prop => if prop.name = name then some prop else none
  | .inr _ => none

def nodeProperty (node : FdtNode) (name : String) : Option FdtProperty :=
  node.subdata.findSome? (FdtItem.named name)

/-- The place of the first property of this name taken by `prop`. -/
def replaceProp (prop : FdtProperty) : List FdtItem → Option (List FdtItem)
  | [] => none
  | .inl p :: rest =>
    if p.name = prop.name then some (.inl prop :: rest) else (replaceProp prop rest).map (.inl p :: ·)
  | .inr n :: rest => (replaceProp prop rest).map (.inr n :: ·)

/-- The position after the last property. -/
def afterProps (items : List FdtItem) : Nat :=
  items.length - (items.reverse.takeWhile Sum.isRight).length

def setProperty (node : FdtNode) (prop : FdtProperty) : FdtNode :=
  match replaceProp prop node.subdata with
  | some items => .mk node.getName items
  | none => .mk node.getName (node.subdata.insertIdx (afterProps node.subdata) (.inl prop))

section Properties

variable {node : FdtNode} {prop : FdtProperty} {name : String} {items items' : List FdtItem}

theorem findSome?_replaceProp (h : replaceProp prop items = some items') :
    items'.findSome? (FdtItem.named name) =
      if prop.name = name then some prop else items.findSome? (FdtItem.named name) := by
  induction items generalizing items' with
  | nil => cases h
  | cons item rest ih =>
    cases item with
    | inl p =>
      rw [replaceProp] at h
      split_ifs at h with hp
      · cases h
        by_cases hn : prop.name = name <;> simp [FdtItem.named, hp, hn]
      · obtain ⟨rest', hr, rfl⟩ := Option.map_eq_some_iff.mp h
        rw [List.findSome?_cons, ih hr, List.findSome?_cons]
        by_cases hn : prop.name = name
        · have hpn : p.name ≠ name := hn ▸ hp
          simp [FdtItem.named, hpn, hn]
        · rw [if_neg hn, if_neg hn]
    | inr n =>
      obtain ⟨rest', hr, rfl⟩ := Option.map_eq_some_iff.mp h
      exact (ih hr :)

theorem replaceProp_eq_none :
    replaceProp prop items = none ↔ items.findSome? (FdtItem.named prop.name) = none := by
  induction items with
  | nil => exact iff_of_true rfl rfl
  | cons item rest ih =>
    cases item with
    | inl p =>
      rw [replaceProp, List.findSome?_cons]
      by_cases hp : p.name = prop.name
      · simp [FdtItem.named, hp]
      · simpa [FdtItem.named, hp] using ih
    | inr n => rw [replaceProp, Option.map_eq_none_iff, ih, List.findSome?_cons, FdtItem.named]

theorem findSome?_insertIdx (i : Nat) (hi : i ≤ items.length)
    (h : items.findSome? (FdtItem.named prop.name) = none) :
    (items.insertIdx i (.inl prop)).findSome? (FdtItem.named name) =
      if prop.name = name then some prop else items.findSome? (FdtItem.named name) := by
  induction items generalizing i with
  | nil =>
    obtain rfl : i = 0 := Nat.le_zero.mp hi
    by_cases hn : prop.name = name <;> simp [FdtItem.named, hn]
  | cons item rest ih =>
    cases i with
    | zero =>
      rw [List.insertIdx_zero, List.findSome?_cons]
      by_cases hn : prop.name = name <;> simp [FdtItem.named, hn]
    | succ i =>
      rw [List.findSome?_eq_none_iff, List.forall_mem_cons, ← List.findSome?_eq_none_iff] at h
      rw [List.insertIdx_succ_cons, List.findSome?_cons, ih i (Nat.le_of_succ_le_succ hi) h.2, List.findSome?_cons]
      by_cases hn : prop.name = name
      · rw [← hn, h.1]
      · rw [if_neg hn, if_neg hn]

theorem afterProps_le (items : List FdtItem) : afterProps items ≤ items.length := Nat.sub_le _ _

theorem nodeProperty_setProperty (node : FdtNode) (prop : FdtProperty) (name : String) :
    nodeProperty (setProperty node prop) name =
      if prop.name = name then some prop else nodeProperty node name := by
  rw [setProperty]
  cases h : replaceProp prop node.subdata with
  | some items => exact findSome?_replaceProp h
  | none => exact findSome?_insertIdx _ (afterProps_le _) (replaceProp_eq_none.mp h)

@[simp] theorem nodeProperty_setProperty_same :
    nodeProperty (setProperty node prop) prop.name = some prop := by
  rw [nodeProperty_setProperty, if_pos rfl]

theorem nodeProperty_setProperty_other (h : prop.name ≠ name) :
    nodeProperty (setProperty node prop) name = nodeProperty node name := by
  rw [nodeProperty_setProperty, if_neg h]

@[simp] theorem getName_setProperty : (setProperty node prop).getName = node.getName := by
  rw [setProperty]
  cases replaceProp prop node.subdata <;> rfl

theorem nodes_replaceProp (h : replaceProp prop items = some items') :
    items'.filterMap Sum.getRight? = items.filterMap Sum.getRight? := by
  induction items generalizing items' with
  | nil => cases h
  | cons item rest ih =>
    cases item with
    | inl p =>
      rw [replaceProp] at h
      split_ifs at h with hp
      · cases h
        rfl
      · obtain ⟨rest', hr, rfl⟩ := Option.map_eq_some_iff.mp h
        exact (ih hr :)
    | inr n =>
      obtain ⟨rest', hr, rfl⟩ := Option.map_eq_some_iff.mp h
      exact congrArg (n :: ·) (ih hr)

theorem nodes_insertIdx (i : Nat) :
    (items.insertIdx i (.inl prop)).filterMap Sum.getRight? = items.filterMap Sum.getRight? := by
  induction items generalizing i with
  | nil => cases i <;> rfl
  | cons item rest ih =>
    cases i with
    | zero => rfl
    | succ i => rw [List.insertIdx_succ_cons, List.filterMap_cons, ih i, List.filterMap_cons]

@[simp] theorem subNodes_setProperty : (setProperty node prop).subNodes = node.subNodes := by
  rw [setProperty]
  cases h : replaceProp prop node.subdata with
  | some items => exact nodes_replaceProp h
  | none => exact nodes_insertIdx _

@[simp] theorem getName_append (item : FdtItem) : (node.append item).getName = node.getName := rfl

@[simp] theorem nodeProperty_append_node (sub : FdtNode) :
    nodeProperty (node.append (.inr sub)) name = nodeProperty node name := by
  rw [nodeProperty, FdtNode.append, FdtNode.subdata_mk, List.findSome?_append]
  simp [FdtItem.named, nodeProperty]

@[simp] theorem subNodes_append_node (sub : FdtNode) :
    (node.append (.inr sub)).subNodes = node.subNodes ++ [sub] := by
  simp [FdtNode.subNodes, FdtNode.append]

end Properties

def childNode (node : FdtNode) (name : String) : Option FdtNode :=
  node.subNodes.find? fun sub => sub.getName = name

/-- What the items become when the first node of this name is changed. -/
def changeNamed (name : String) (f : FdtNode → FdtNode) : List FdtItem → List FdtItem
  | [] => []
  | .inl p :: rest => .inl p :: changeNamed name f rest
  | .inr n :: rest => if n.getName = name then .inr (f n) :: rest else .inr n :: changeNamed name f rest

/-- The tree after `f` worked on what `childNode` returned. -/
def changeChild (node : FdtNode) (name : String) (f : FdtNode → FdtNode) : FdtNode :=
  .mk node.getName (changeNamed name f node.subdata)

mutual

/-- Every node with its place, in the order of `iter_nodes`. -/
def iterNodes : FdtNode → List (List Nat × FdtNode)
  | .mk name subdata => ([], .mk name subdata) :: iterItems 0 subdata

def iterItems : Nat → List FdtItem → List (List Nat × FdtNode)
  | _, [] => []
  | i, .inl _ :: rest => iterItems (i + 1) rest
  | i, .inr sub :: rest => (iterNodes sub).map (fun p => (i :: p.1, p.2)) ++ iterItems (i + 1) rest

end

mutual

/-- The tree after `f` worked on every node. -/
def mapNodes (f : FdtNode → FdtNode) : FdtNode → FdtNode
  | .mk name subdata => f (.mk name (mapItems f subdata))

def mapItems (f : FdtNode → FdtNode) : List FdtItem → List FdtItem
  | [] => []
  | .inl p :: rest => .inl p :: mapItems f rest
  | .inr sub :: rest => .inr (mapNodes f sub) :: mapItems f rest

end

/-- The tree after `f` worked on the node at this place. -/
def modifyAt (f : FdtNode → FdtNode) : List Nat → FdtNode → FdtNode
  | [], node => f node
  | i :: path, node => .mk node.getName (node.subdata.modify i (Sum.map id (modifyAt f path)))

def nodeAt : List Nat → FdtNode → Option FdtNode
  | [], node => some node
  | i :: path, node => (node.subdata[i]?.bind Sum.getRight?).bind (nodeAt path)

def hasCompatible (node : FdtNode) (compatibles : List String) : Bool :=
  match nodeProperty node "compatible" with
  | some ⟨_, .strings strings⟩ => strings.any fun item => compatibles.contains item
  | _ => false

def isEnabledNode (node : FdtNode) : Bool :=
  match nodeProperty node "status" with
  | some ⟨_, .strings (status :: _)⟩ => status = "okay" ∨ status = "ok"
  | _ => true

def findNode (root : FdtNode) (compatibles : List String) : Option (List Nat × FdtNode) :=
  (iterNodes root).find? fun p => isEnabledNode p.2 && hasCompatible p.2 compatibles

/-- The node that holds the one at this place; the root itself has none. -/
def parentOf (root : FdtNode) : List Nat → Option FdtNode
  | [] => none
  | i :: path => nodeAt (i :: path).dropLast root

/-- The first word of the property, if it has words. -/
def firstWord : Option FdtProperty → Option Nat
  | some ⟨_, .words (word :: _)⟩ => some word
  | _ => none

def phandleOf (node : FdtNode) : Except PyError Nat :=
  match firstWord (nodeProperty node "phandle") with
  | some word => .ok word
  | none =>
    match firstWord (nodeProperty node "linux,phandle") with
    | some word => .ok word
    | none => .error (.valueError s!"{node.getName} 节点没有 phandle")

/-! ## Cells -/

def DEFAULT_ADDR_CELLS : Nat := 2

def DEFAULT_SIZE_CELLS : Nat := 1

def cellsOfNode (node : FdtNode) (name : String) (default : Nat) : Nat :=
  match nodeProperty node name with
  | some ⟨_, .words [word]⟩ => word
  | _ => default

def bitLength (value : Nat) : Nat := if value = 0 then 0 else value.log2 + 1

def cellsFor (value : Nat) : Nat := max 1 ((bitLength value + 31) / 32)

/-- The number as `:x` prints it. -/
def hex (value : Nat) : String := String.ofList (Nat.toDigits 16 value)

def encodeCells (value cells : Nat) : Except PyError (List Nat) :=
  if cells < cellsFor value then
    .error (.valueError s!"取值 0x{hex value} 超出 {cells} 个单元格的可表示范围")
  else .ok ((List.range cells).map fun index => (value >>> (32 * (cells - 1 - index))) &&& 0xFFFFFFFF)

def decodeCells (words : List Nat) : Nat := words.foldl (fun value word => (value <<< 32) ||| word) 0

section Cells

variable {v n : Nat} {ws : List Nat}

theorem decodeCells_eq_value (h : ∀ w ∈ ws, w < 2 ^ 32) : decodeCells ws = Positional.value (2 ^ 32) ws := by
  induction ws using List.reverseRecOn with
  | nil => rfl
  | append_singleton ws w ih =>
    have hw : w < 2 ^ 32 := h w (by simp)
    have ih := ih fun x hx => h x (by simp [hx])
    rw [Positional.value_concat, ← ih, decodeCells, List.foldl_append, List.foldl_cons, List.foldl_nil,
      ← Nat.shiftLeft_add_eq_or_of_lt hw, Nat.shiftLeft_eq, decodeCells]

theorem bitLength_le (v n : Nat) : bitLength v ≤ n ↔ v < 2 ^ n := by
  rw [bitLength]
  split_ifs with h
  · simp [h]
  · exact Nat.log2_lt h

theorem cellsFor_le (v n : Nat) : cellsFor v ≤ n ↔ 0 < n ∧ v < (2 ^ 32) ^ n := by
  rw [cellsFor, Nat.max_le, ← Nat.pow_mul, ← bitLength_le]
  refine and_congr_right fun _ => ?_
  omega

theorem encodeCells_of_lt (hn : 0 < n) (h : v < (2 ^ 32) ^ n) :
    encodeCells v n = .ok (Positional.digits (2 ^ 32) n v) := by
  have hc : ¬ n < cellsFor v := Nat.not_lt.mpr ((cellsFor_le v n).mpr ⟨hn, h⟩)
  rw [encodeCells, if_neg hc, Positional.digits]
  congr 2
  funext index
  rw [Nat.shiftRight_eq_div_pow, ← Nat.pow_mul]
  exact Nat.and_two_pow_sub_one_eq_mod _ 32

/-- Encoding what was decoded puts zeros in front, up to the new width. -/
theorem encodeCells_decodeCells (hn : 0 < n) (h : ∀ w ∈ ws, w < 2 ^ 32) (hl : ws.length ≤ n) :
    encodeCells (decodeCells ws) n = .ok (List.replicate (n - ws.length) 0 ++ ws) := by
  have hb : 1 < 2 ^ 32 := by decide
  have hlt : Positional.value (2 ^ 32) ws < (2 ^ 32) ^ n :=
    (Positional.value_lt hb h).trans_le (Nat.pow_le_pow_right (by decide) hl)
  rw [decodeCells_eq_value h, encodeCells_of_lt hn hlt, Positional.digits_value hb h hl]

end Cells

def regWords (base size addrCells sizeCells : Nat) : Except PyError (List Nat) := do
  let addr ← encodeCells base addrCells
  let len ← encodeCells size sizeCells
  return addr ++ len

end Pyremu.DevTree
