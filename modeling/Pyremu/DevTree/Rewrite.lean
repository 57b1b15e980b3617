import Pyremu.DevTree.FdtNode

/-!
# Rewriting the tree of the chip

`rewrite.py` turns the parsed tree into the one handed to the program under test.
-/

namespace Pyremu.DevTree

/-! ## What goes in -/

structure Property where
  name : String
  value : List UInt8
  deriving DecidableEq, Repr

/-- A node of the parser. -/
inductive Node where
  | mk (name : String) (props : List Property) (nodes : List Node)

namespace Node

def name : Node → String
  | mk name _ _ => name

def props : Node → List Property
  | mk _ props _ => props

def nodes : Node → List Node
  | mk _ _ nodes => nodes

def value? (node : Node) (name : String) : Option (List UInt8) :=
  (node.props.find? fun prop => prop.name = name).map Property.value

end Node

structure DtRegion where
  base : Nat
  size : Nat
  deriving DecidableEq, Repr

structure DtDeviceNode where
  name : String
  compatible : String
  region : DtRegion
  irq : Nat
  deriving DecidableEq, Repr

structure DeliveredTree where
  ram : Option DtRegion := none
  bootargs : Option String := none
  initrd : Option (Nat × Nat) := none
  reservedRanges : List (Nat × Nat) := []
  devices : List DtDeviceNode := []
  numHarts : Option Nat := none

/-- `pyfdt` chooses the class of a property by its bytes, and writes each class as bytes. -/
structure Pyfdt where
  newRawProperty : String → List UInt8 → FdtValue
  toRaw : FdtValue → List UInt8

/-! ## The conversion -/

section Conversion

variable (pyfdt : Pyfdt)

def rawAttribute (name : String) (value : List UInt8) : FdtItem :=
  .inl ⟨name, pyfdt.newRawProperty name value⟩

mutual

def toFdtNode : Node → FdtNode
  | .mk name props nodes =>
    .mk name (props.map (fun prop => rawAttribute pyfdt prop.name prop.value) ++ toFdtNodes nodes)

def toFdtNodes : List Node → List FdtItem
  | [] => []
  | node :: rest => .inr (toFdtNode node) :: toFdtNodes rest

end

end Conversion

/-! ## Root cells -/

def neededCells (ram : Option DtRegion) (reservedRanges : List (Nat × Nat)) : Nat × Nat :=
  let values := reservedRanges ++ (ram.map fun r => (r.base, r.size)).toList
  values.foldl (fun need value => (max need.1 (cellsFor value.1), max need.2 (cellsFor value.2))) (1, 1)

/-- `len(prop.words) % step`, a `ValueError` when something is left over. -/
def checkStep (node : FdtNode) (name : String) (words : List Nat) (step : Nat) : Except PyError Unit :=
  if step = 0 then .error .zeroDivisionError
  else if words.length % step ≠ 0 then
    .error (.valueError s!"{node.getName} 的 {name} 长度不是 {step} 个单元格的整数倍")
  else .ok ()

def rewriteChildReg (node : FdtNode) (addrCells sizeCells newAddr newSize : Nat) : Except PyError FdtNode :=
  match nodeProperty node "reg" with
  | some ⟨_, .words words⟩ => do
    let step := addrCells + sizeCells
    checkStep node "reg" words step
    let entries ← (Positional.parts step words).mapM fun entry =>
      regWords (decodeCells (entry.take addrCells)) (decodeCells (entry.drop addrCells)) newAddr newSize
    return setProperty node ⟨"reg", .words entries.flatten⟩
  | _ => return node

def rewriteChildRanges (node : FdtNode) (parentAddrCells newParentAddr : Nat) : Except PyError FdtNode :=
  match nodeProperty node "ranges" with
  | some ⟨_, .words words⟩ => do
    let childAddr := cellsOfNode node "#address-cells" DEFAULT_ADDR_CELLS
    let childSize := cellsOfNode node "#size-cells" DEFAULT_SIZE_CELLS
    let step := parentAddrCells + childAddr + childSize
    checkStep node "ranges" words step
    let entries ← (Positional.parts step words).mapM fun entry => do
      let parent ← encodeCells (decodeCells (entry.take parentAddrCells)) newParentAddr
      return parent ++ entry.drop parentAddrCells
    return setProperty node ⟨"ranges", .words entries.flatten⟩
  | _ => return node

def rewriteChild (addrCells sizeCells newAddr newSize : Nat) : FdtItem → Except PyError FdtItem
  | .inl prop => return .inl prop
  | .inr sub => do
    let sub ← rewriteChildReg sub addrCells sizeCells newAddr newSize
    let sub ← rewriteChildRanges sub addrCells newAddr
    return .inr sub

def setRootCells (root : FdtNode) (newAddr newSize : Nat) : FdtNode :=
  setProperty (setProperty root ⟨"#address-cells", .words [newAddr]⟩) ⟨"#size-cells", .words [newSize]⟩

def rewriteRootCells (root : FdtNode) (addrCells sizeCells newAddr newSize : Nat) : Except PyError FdtNode := do
  let subdata ← root.subdata.mapM (rewriteChild addrCells sizeCells newAddr newSize)
  return setRootCells (.mk root.getName subdata) newAddr newSize

/-! ## Memory -/

def isMemoryNode (node : FdtNode) : Bool :=
  node.getName = "memory" ∨ "memory@".toList.isPrefixOf node.getName.toList

def rewritesMemory (sub : FdtNode) : Bool := isMemoryNode sub && isEnabledNode sub

def rewriteMemory (root : FdtNode) (ram : DtRegion) (addrCells sizeCells : Nat) : Except PyError FdtNode := do
  let words ← regWords ram.base ram.size addrCells sizeCells
  if root.subNodes.any rewritesMemory then
    let rewrite sub := if rewritesMemory sub then setProperty sub ⟨"reg", .words words⟩ else sub
    return .mk root.getName (root.subdata.map (Sum.map id rewrite))
  else
    return root.append (.inr (.mk "memory"
      [.inl ⟨"device_type", .strings ["memory"]⟩, .inl ⟨"reg", .words words⟩]))

/-! ## Harts -/

def isCpuNode (node : FdtNode) : Bool :=
  match nodeProperty node "device_type" with
  | some ⟨_, .strings (type :: _)⟩ => type = "cpu"
  | _ => false

def declaredHartId (node : FdtNode) : Option Nat :=
  match nodeProperty node "reg" with
  | some ⟨_, .words (word :: words)⟩ => some (decodeCells (word :: words))
  | _ => none

/-- The text for a `reg` that is not the number of the hart. -/
def hartMessage (name : String) (declared : Option Nat) (index : Nat) : List String :=
  if declared = some index then [] else
    let text := match declared with
      | none => "未声明"
      | some id => s!"0x{hex id}"
    [s!"CPU 节点 {name} 的 reg 为 {text}, 与装配的 hart 编号 {index} 不一致, 已改写"]

/-- The loop of `_rewrite_cpus` from hart `index` on. -/
def rewriteCpuItems (addrCells numHarts : Nat) : Nat → List FdtItem → Except PyError (List FdtItem × List String)
  | _, [] => return ([], [])
  | index, .inl prop :: rest => do
    let (items, messages) ← rewriteCpuItems addrCells numHarts index rest
    return (.inl prop :: items, messages)
  | index, .inr sub :: rest =>
    if isCpuNode sub then
      let name := sub.getName
      if numHarts ≤ index then do
        let message := s!"CPU 节点 {name} 超出装配的 hart 数 {numHarts}, 已标记为 disabled"
        let (items, messages) ← rewriteCpuItems addrCells numHarts (index + 1) rest
        return (.inr (setProperty sub ⟨"status", .strings ["disabled"]⟩) :: items, message :: messages)
      else match encodeCells index addrCells with
        | .error _ => .error (.valueError s!"{name} 的 hart 编号无法写入 {addrCells} 个地址单元格")
        | .ok reg => do
          let (items, messages) ← rewriteCpuItems addrCells numHarts (index + 1) rest
          return (.inr (setProperty sub ⟨"reg", .words reg⟩) :: items,
            hartMessage name (declaredHartId sub) index ++ messages)
    else do
      let (items, messages) ← rewriteCpuItems addrCells numHarts index rest
      return (.inr sub :: items, messages)

def rewriteCpus (root : FdtNode) (numHarts : Nat) : Except PyError (FdtNode × List String) :=
  match childNode root "cpus" with
  | none => return (root, [])
  | some cpus => do
    let addrCells := cellsOfNode cpus "#address-cells" DEFAULT_ADDR_CELLS
    let (items, messages) ← rewriteCpuItems addrCells numHarts 0 cpus.subdata
    return (changeChild root "cpus" fun _ => .mk cpus.getName items, messages)

def cpuIntcNode (cpu : FdtNode) : Option FdtNode :=
  cpu.subNodes.find? fun sub => (nodeProperty sub "interrupt-controller").isSome

def cpuNodes (root : FdtNode) : List (FdtNode × Option FdtNode) :=
  match childNode root "cpus" with
  | none => []
  | some cpus => (cpus.subNodes.filter isCpuNode).map fun sub => (sub, cpuIntcNode sub)

/-- The interrupts listed for each hart, which must be the same for all of them. -/
def hartHwirqPattern (pairs : List (Nat × Nat)) : Option (List Nat) :=
  let groups := (pairs.map Prod.fst).eraseDups
  let sequences := groups.map fun phandle => (pairs.filter fun pair => pair.1 = phandle).map Prod.snd
  match sequences with
  | [] => none
  | first :: rest => if rest.any fun sequence => sequence ≠ first then none else some first

/-- The interrupt controllers of the harts in use, each checked in turn. -/
def hartIntcs : Nat → List (FdtNode × Option FdtNode) → Except PyError (List FdtNode)
  | _, [] => return []
  | index, (cpu, intc) :: rest =>
    if ¬ isEnabledNode cpu then
      .error (.valueError s!"处理器节点 {cpu.getName} 未启用, 无法为 hart {index} 列出中断控制器")
    else match intc with
      | none => .error (.valueError s!"处理器节点 {cpu.getName} 没有中断控制器子节点")
      | some intc => do
        let rest ← hartIntcs (index + 1) rest
        return intc :: rest

def pairsOf : List Nat → List (Nat × Nat)
  | a :: b :: rest => (a, b) :: pairsOf rest
  | _ => []

/-- The pairs in the list of this node and the words it is to have, where they differ. -/
def hartList (phandles known : List Nat) (node : FdtNode) : Option (List (Nat × Nat) × List Nat) :=
  match nodeProperty node "interrupts-extended" with
  | some ⟨_, .words old⟩ =>
    let pairs := pairsOf old
    if old.length % 2 ≠ 0 ∨ pairs = [] ∨ pairs.any fun pair => !known.contains pair.1 then none
    else match hartHwirqPattern pairs with
      | none => none
      | some pattern =>
        let words := phandles.flatMap fun phandle => pattern.flatMap fun hwirq => [phandle, hwirq]
        if words = old then none else some (pairs, words)
  | _ => none

def rewriteHartList (phandles known : List Nat) (node : FdtNode) : FdtNode :=
  match hartList phandles known node with
  | some (_, words) => setProperty node ⟨"interrupts-extended", .words words⟩
  | none => node

def hartListMessage (phandles known : List Nat) (numHarts : Nat) (node : FdtNode) : Option String :=
  (hartList phandles known node).map fun (pairs, _) =>
    let name := node.getName
    let listed := (pairs.map Prod.fst).eraseDups.length
    if listed < numHarts then
      s!"节点 {name} 的 interrupts-extended 只列出 {listed} 个 hart, " ++
        s!"已按装配的 {numHarts} 个 hart 列出中断控制器"
    else s!"节点 {name} 的 interrupts-extended 的 hart 顺序与装配顺序不一致, 已按装配顺序改写"

def rewriteIntcHartLists (root : FdtNode) (numHarts : Nat) : Except PyError (FdtNode × List String) :=
  if numHarts < 1 then return (root, []) else
    let nodes := cpuNodes root
    if nodes.length < numHarts then
      .error (.valueError s!"处理器节点只有 {nodes.length} 个, 少于装配的 hart 数 {numHarts}")
    else do
      let intcs ← hartIntcs 0 (nodes.take numHarts)
      let phandles ← intcs.mapM phandleOf
      let known ← (nodes.filterMap Prod.snd).mapM phandleOf
      return (mapNodes (rewriteHartList phandles known) root,
        (iterNodes root).filterMap fun p => hartListMessage phandles known numHarts p.2)

/-! ## Reserved memory -/

section Attributes

variable (pyfdt : Pyfdt)

/-- The nodes for the ranges, numbered from `index` on. -/
def reservedNodes (addrCells sizeCells : Nat) : Nat → List (Nat × Nat) → Except PyError (List FdtNode)
  | _, [] => return []
  | index, (base, size) :: rest => do
    let reg ← regWords base size addrCells sizeCells
    let nodes ← reservedNodes addrCells sizeCells (index + 1) rest
    return .mk s!"reserved-{index}@{hex base}" [rawAttribute pyfdt "no-map" [], .inl ⟨"reg", .words reg⟩] :: nodes

def addReservedMemory (root : FdtNode) (ranges : List (Nat × Nat)) (addrCells sizeCells : Nat) :
    Except PyError FdtNode :=
  match childNode root "reserved-memory" with
  | none => do
    let nodes ← reservedNodes pyfdt addrCells sizeCells 0 ranges
    return root.append (.inr (.mk "reserved-memory"
      ([.inl ⟨"#address-cells", .words [addrCells]⟩, .inl ⟨"#size-cells", .words [sizeCells]⟩,
        rawAttribute pyfdt "ranges" []] ++ nodes.map Sum.inr)))
  | some node =>
    let nodeAddr := cellsOfNode node "#address-cells" DEFAULT_ADDR_CELLS
    let nodeSize := cellsOfNode node "#size-cells" DEFAULT_SIZE_CELLS
    if (nodeAddr, nodeSize) ≠ (addrCells, sizeCells) then
      .error (.valueError (s!"/reserved-memory 的单元格数为 ({nodeAddr}, {nodeSize}), " ++
        s!"与根节点的 ({addrCells}, {sizeCells}) 不一致"))
    else do
      let nodes ← reservedNodes pyfdt addrCells sizeCells node.subNodes.length ranges
      return changeChild root "reserved-memory" fun node =>
        .mk node.getName (node.subdata ++ nodes.map Sum.inr)

end Attributes

/-! ## Chosen -/

/-- `struct.pack(">Q", value)`. -/
def packQ (value : Nat) : Except PyError (List UInt8) :=
  if value < 2 ^ 64 then .ok ((Positional.digits 256 8 value).map UInt8.ofNat) else .error .structError

def setBootargs (bootargs : Option String) (node : FdtNode) : FdtNode :=
  match bootargs with
  | some args => if args = "" then node else setProperty node ⟨"bootargs", .strings [args]⟩
  | none => node

def setInitrd (initrd : Option (Nat × Nat)) (node : FdtNode) : Except PyError FdtNode :=
  match initrd with
  | some (first, last) => do
    let first ← packQ first
    let node := setProperty node ⟨"linux,initrd-start", .bytes first⟩
    let last ← packQ last
    return setProperty node ⟨"linux,initrd-end", .bytes last⟩
  | none => return node

/-- What `_rewrite_chosen` writes into the node, with the bytes drawn for `rng-seed`. -/
def fillChosen (seed : List UInt8) (bootargs : Option String) (initrd : Option (Nat × Nat)) (node : FdtNode) :
    Except PyError FdtNode :=
  setInitrd initrd (setProperty (setBootargs bootargs node) ⟨"rng-seed", .bytes seed⟩)

def rewriteChosen (seed : List UInt8) (root : FdtNode) (bootargs : Option String) (initrd : Option (Nat × Nat)) :
    Except PyError FdtNode :=
  match childNode root "chosen" with
  | none => do
    let node ← fillChosen seed bootargs initrd (.mk "chosen" [])
    return root.append (.inr node)
  | some node => do
    let node ← fillChosen seed bootargs initrd node
    return changeChild root "chosen" fun _ => node

/-! ## Devices -/

def COMPAT_PLIC : List String := ["riscv,plic0", "sifive,plic-1.0.0"]

def raisePlicNdev (irq : Nat) (plic : FdtNode) : FdtNode :=
  let current := (firstWord (nodeProperty plic "riscv,ndev")).getD 0
  if current < irq then setProperty plic ⟨"riscv,ndev", .words [irq]⟩ else plic

def addDeviceNode (root : FdtNode) (device : DtDeviceNode) : Except PyError FdtNode :=
  match findNode root COMPAT_PLIC with
  | none => .error (.valueError s!"芯片设备树中没有 PLIC 节点, 无法为 {device.name} 声明中断")
  | some (path, plic) => do
    let parent := (parentOf root path).getD root
    let addrCells := cellsOfNode parent "#address-cells" DEFAULT_ADDR_CELLS
    let sizeCells := cellsOfNode parent "#size-cells" DEFAULT_SIZE_CELLS
    let reg ← regWords device.region.base device.region.size addrCells sizeCells
    let phandle ← phandleOf plic
    let node : FdtNode := .mk s!"{device.name}@{hex device.region.base}"
      [.inl ⟨"compatible", .strings [device.compatible]⟩, .inl ⟨"reg", .words reg⟩,
        .inl ⟨"interrupt-parent", .words [phandle]⟩, .inl ⟨"interrupts", .words [device.irq]⟩]
    return modifyAt (raisePlicNdev device.irq) path (modifyAt (·.append (.inr node)) path.dropLast root)

/-! ## The whole -/

section Whole

variable (pyfdt : Pyfdt) (seed : List UInt8)

def deliverRam (addrCells sizeCells : Nat) (root : FdtNode) : Option DtRegion → Except PyError FdtNode
  | some ram => rewriteMemory root ram addrCells sizeCells
  | none => .ok root

def deliverHarts (root : FdtNode) : Option Nat → Except PyError (FdtNode × List String)
  | some numHarts => do
    let (root, cpus) ← rewriteCpus root numHarts
    let (root, lists) ← rewriteIntcHartLists root numHarts
    return (root, cpus ++ lists)
  | none => .ok (root, [])

def deliverReserved (ranges : List (Nat × Nat)) (addrCells sizeCells : Nat) (root : FdtNode) :
    Except PyError FdtNode :=
  if ranges = [] then .ok root else addReservedMemory pyfdt root ranges addrCells sizeCells

def deliverChosen (bootargs : Option String) (initrd : Option (Nat × Nat)) (root : FdtNode) :
    Except PyError FdtNode :=
  if bootargs.isSome ∨ initrd.isSome then rewriteChosen seed root bootargs initrd else .ok root

/-- The steps after the root cells are settled, with the messages for `report`. -/
def deliver (delivered : DeliveredTree) (addrCells sizeCells : Nat) (root : FdtNode) :
    Except PyError (FdtNode × List String) := do
  let root ← deliverRam addrCells sizeCells root delivered.ram
  let (root, messages) ← deliverHarts root delivered.numHarts
  let root ← deliverReserved pyfdt delivered.reservedRanges addrCells sizeCells root
  let root ← deliverChosen seed delivered.bootargs delivered.initrd root
  let root ← delivered.devices.foldlM addDeviceNode root
  return (root, messages)

/-- `chip_dt_to_dtb` up to the serialisation of the tree it returns. -/
def chipDtToDtb (chip : Node) (delivered : DeliveredTree) : Except PyError (FdtNode × List String) := do
  let root := toFdtNode pyfdt chip
  let addrCells := cellsOfNode root "#address-cells" DEFAULT_ADDR_CELLS
  let sizeCells := cellsOfNode root "#size-cells" DEFAULT_SIZE_CELLS
  let need := neededCells delivered.ram delivered.reservedRanges
  if addrCells < need.1 ∨ sizeCells < need.2 then
    let newAddr := max addrCells need.1
    let newSize := max sizeCells need.2
    let root ← rewriteRootCells root addrCells sizeCells newAddr newSize
    deliver pyfdt seed delivered newAddr newSize root
  else deliver pyfdt seed delivered addrCells sizeCells root

end Whole

end Pyremu.DevTree
