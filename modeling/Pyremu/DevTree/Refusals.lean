import Pyremu.DevTree.Kept

/-!
# What the later steps refuse

The later steps raise a `ValueError` for a tree that does not suit the harts, the
reserved memory or the devices, and let `struct.error` through for an initramfs
beyond 64 bits. All of this can be read off the tree before they begin.
-/

namespace Pyremu.DevTree

/-- A `ValueError` is raised exactly if `R`, and else the result has `P`. -/
def RefusesIff {α : Type} (R : Prop) (P : α → Prop) : Except PyError α → Prop
  | .ok a => ¬ R ∧ P a
  | .error (.valueError _) => R
  | .error _ => False

section Refusing

variable {α β : Type} {R S : Prop} {P P' : α → Prop} {Q : β → Prop} {r : Except PyError α}

theorem RefusesIff.mono (h : RefusesIff R P r) (hR : R ↔ S) (hP : ∀ a, P a → P' a) : RefusesIff S P' r := by
  cases r with
  | ok a => exact ⟨mt hR.mpr h.1, hP a h.2⟩
  | error e =>
    cases e with
    | valueError message => exact hR.mp h
    | zeroDivisionError => exact h
    | structError => exact h

/-- What the result has can use what it is the result of. -/
theorem RefusesIff.with_eq (h : RefusesIff R P r) : RefusesIff R (fun a => r = .ok a ∧ P a) r := by
  cases r with
  | ok a => exact ⟨h.1, rfl, h.2⟩
  | error e => cases e <;> exact h

/-- Steps in a row refuse what one of them refuses. -/
theorem RefusesIff.bind {f : α → Except PyError β} (h : RefusesIff R P r)
    (hf : ∀ a, P a → RefusesIff S Q (f a)) : RefusesIff (R ∨ S) Q (r >>= f) := by
  cases r with
  | ok a => exact (hf a h.2).mono (by simp [h.1]) fun _ => id
  | error e =>
    cases e with
    | valueError message => exact Or.inl h
    | zeroDivisionError => exact h
    | structError => exact h

theorem RefusesIff.ok {a : α} (h : P a) : RefusesIff False P (.ok a) := ⟨not_false, h⟩

theorem RefusesIff.map {f : α → β} (h : RefusesIff R P r) (hf : ∀ a, P a → Q (f a)) :
    RefusesIff R Q (r >>= fun a => Except.ok (f a)) :=
  (h.bind fun a ha => RefusesIff.ok (hf a ha)).mono (or_iff_left not_false) fun _ => id

/-- A loop refuses what one of its rounds refuses. -/
theorem RefusesIff.mapM {f : α → Except PyError β} {R : α → Prop} {g : α → β → Prop} {l : List α}
    (h : ∀ a ∈ l, RefusesIff (R a) (g a) (f a)) : RefusesIff (∃ a ∈ l, R a) (List.Forall₂ g l) (l.mapM f) := by
  induction l with
  | nil => exact (RefusesIff.ok .nil).mono (by simp) fun _ => id
  | cons a l ih =>
    rw [List.forall_mem_cons] at h
    rw [List.mapM_cons]
    have hrest := fun b hb => (ih h.2).map fun bs hbs => List.Forall₂.cons (a := a) (b := b) hb hbs
    exact (h.1.bind hrest).mono (by simp) fun _ => id

theorem encodeCells_refuses (value cells : Nat) :
    RefusesIff (cells < cellsFor value) (fun _ => True) (encodeCells value cells) := by
  rw [encodeCells]
  split_ifs with h
  · exact h
  · exact ⟨h, trivial⟩

theorem regWords_refuses (base size addrCells sizeCells : Nat) :
    RefusesIff (addrCells < cellsFor base ∨ sizeCells < cellsFor size) (fun _ => True)
      (regWords base size addrCells sizeCells) :=
  (encodeCells_refuses base addrCells).bind fun _ _ =>
    (encodeCells_refuses size sizeCells).map fun _ _ => trivial

end Refusing

/-! ## What is refused -/

def addrCellsOf (node : FdtNode) : Nat := cellsOfNode node "#address-cells" DEFAULT_ADDR_CELLS

def sizeCellsOf (node : FdtNode) : Nat := cellsOfNode node "#size-cells" DEFAULT_SIZE_CELLS

def hasPhandle (node : FdtNode) : Bool :=
  (firstWord (nodeProperty node "phandle")).isSome || (firstWord (nodeProperty node "linux,phandle")).isSome

/-- There are too few harts, or one in use is not enabled or has no interrupt controller, or some
controller has no phandle. -/
def IntcsRefused (harts : List (FdtNode × Option FdtNode)) (numHarts : Nat) : Prop :=
  harts.length < numHarts ∨ (∃ p ∈ harts.take numHarts, isEnabledNode p.1 = false ∨ p.2 = none) ∨
    ∃ intc ∈ harts.filterMap Prod.snd, hasPhandle intc = false

/-- The number of a hart does not fit the cells of `/cpus`, or the interrupt controllers cannot be
listed. -/
def HartsRefused (root : FdtNode) (numHarts : Nat) : Prop :=
  (∃ cpus, childNode root "cpus" = some cpus ∧
    ∃ index < min numHarts (cpuNodes root).length, addrCellsOf cpus < cellsFor index) ∨
  0 < numHarts ∧ IntcsRefused (cpuNodes root) numHarts

/-- There is a `/reserved-memory` with other cells than the root. -/
def ReservedRefused (root : FdtNode) (ranges : List (Nat × Nat)) (addrCells sizeCells : Nat) : Prop :=
  ranges ≠ [] ∧ ∃ node, childNode root "reserved-memory" = some node ∧
    (addrCellsOf node, sizeCellsOf node) ≠ (addrCells, sizeCells)

def InitrdFits (initrd : Option (Nat × Nat)) : Prop :=
  ∀ first last, initrd = some (first, last) → first < 2 ^ 64 ∧ last < 2 ^ 64

/-- There is no PLIC, or its parent cannot hold the window of the device, or it has no phandle. -/
def DeviceRefused (root : FdtNode) (device : DtDeviceNode) : Prop :=
  match findNode root COMPAT_PLIC with
  | none => True
  | some (path, plic) =>
    addrCellsOf ((parentOf root path).getD root) < cellsFor device.region.base ∨
      sizeCellsOf ((parentOf root path).getD root) < cellsFor device.region.size ∨ hasPhandle plic = false

/-- The CPU nodes from `numHarts` on are switched off. -/
def spareItems (numHarts : Nat) : Nat → List FdtItem → List FdtItem
  | _, [] => []
  | index, .inl prop :: rest => .inl prop :: spareItems numHarts index rest
  | index, .inr sub :: rest =>
    if isCpuNode sub then
      .inr (if numHarts ≤ index then setProperty sub ⟨"status", .strings ["disabled"]⟩ else sub) ::
        spareItems numHarts (index + 1) rest
    else .inr sub :: spareItems numHarts index rest

/-- The tree in which the PLIC is looked for. -/
def sparesOff (numHarts : Option Nat) (root : FdtNode) : FdtNode :=
  match numHarts with
  | some n => changeChild root "cpus" fun cpus => .mk cpus.getName (spareItems n 0 cpus.subdata)
  | none => root

/-- The harts or the reserved memory are refused, before the initramfs is written. -/
def EarlyRefused (x : FdtNode) (delivered : DeliveredTree) (addrCells sizeCells : Nat) : Prop :=
  (∃ numHarts, delivered.numHarts = some numHarts ∧ HartsRefused x numHarts) ∨
    ReservedRefused x delivered.reservedRanges addrCells sizeCells

/-- A device is refused. -/
def LateRefused (x : FdtNode) (delivered : DeliveredTree) : Prop :=
  ∃ device ∈ delivered.devices, DeviceRefused (sparesOff delivered.numHarts x) device

/-! ## PLICs and their parents -/

/-- The cells of the parent of a PLIC, and whether the PLIC has a phandle. -/
structure PlicSite where
  addrCells : Nat
  sizeCells : Nat
  phandle : Bool

def isPlic (node : FdtNode) : Bool := isEnabledNode node && hasCompatible node COMPAT_PLIC

def plicHere (addrCells sizeCells : Nat) (node : FdtNode) : List PlicSite :=
  if isPlic node then [⟨addrCells, sizeCells, hasPhandle node⟩] else []

mutual

/-- The PLICs at this node, under a parent with these cells, and below it in the order of `iter_nodes`. -/
def plicsOf (addrCells sizeCells : Nat) : FdtNode → List PlicSite
  | .mk name items =>
    plicHere addrCells sizeCells (.mk name items) ++
      plicsIn (addrCellsOf (.mk name items)) (sizeCellsOf (.mk name items)) items

def plicsIn (addrCells sizeCells : Nat) : List FdtItem → List PlicSite
  | [] => []
  | .inl _ :: rest => plicsIn addrCells sizeCells rest
  | .inr sub :: rest => plicsOf addrCells sizeCells sub ++ plicsIn addrCells sizeCells rest

end

/-- The root counts as its own parent. -/
def plics (root : FdtNode) : List PlicSite := plicsOf (addrCellsOf root) (sizeCellsOf root) root

/-- The properties that tell a PLIC and what its parent has room for. -/
def sought : List String := ["status", "compatible", "phandle", "linux,phandle", "#address-cells", "#size-cells"]

def AsSought (c k : FdtNode) : Prop := ∀ name ∈ sought, nodeProperty k name = nodeProperty c name

section Plics

variable {c k node x y : FdtNode} {f g : FdtNode → FdtNode} {prop : FdtProperty} {name : String}

theorem plicsIn_eq (a s : Nat) (items : List FdtItem) :
    plicsIn a s items = (items.filterMap Sum.getRight?).flatMap (plicsOf a s) := by
  induction items with
  | nil => rfl
  | cons item rest ih =>
    cases item with
    | inl prop => rw [plicsIn, ih, List.filterMap_cons_none (by rfl)]
    | inr sub => rw [plicsIn, ih, List.filterMap_cons_some (by rfl), List.flatMap_cons]

theorem plicsOf_eq (a s : Nat) (node : FdtNode) :
    plicsOf a s node =
      plicHere a s node ++ node.subNodes.flatMap (plicsOf (addrCellsOf node) (sizeCellsOf node)) := by
  cases node with
  | mk name items => rw [plicsOf, plicsIn_eq]; rfl

namespace AsSought

theorem cells (h : AsSought c k) : addrCellsOf k = addrCellsOf c ∧ sizeCellsOf k = sizeCellsOf c := by
  constructor
  · rw [addrCellsOf, cellsOfNode, h "#address-cells" (by simp [sought]), addrCellsOf, cellsOfNode]
  · rw [sizeCellsOf, cellsOfNode, h "#size-cells" (by simp [sought]), sizeCellsOf, cellsOfNode]

theorem isEnabledNode (h : AsSought c k) : isEnabledNode k = isEnabledNode c := by
  rw [DevTree.isEnabledNode, h "status" (by simp [sought]), DevTree.isEnabledNode]

theorem isPlic (h : AsSought c k) : isPlic k = isPlic c := by
  rw [DevTree.isPlic, h.isEnabledNode, hasCompatible, h "compatible" (by simp [sought]), DevTree.isPlic,
    hasCompatible]

theorem hasPhandle (h : AsSought c k) : hasPhandle k = hasPhandle c := by
  rw [DevTree.hasPhandle, h "phandle" (by simp [sought]), h "linux,phandle" (by simp [sought]), DevTree.hasPhandle]

theorem plicHere (h : AsSought c k) (a s : Nat) : plicHere a s k = plicHere a s c := by
  rw [DevTree.plicHere, h.isPlic, h.hasPhandle, DevTree.plicHere]

theorem setProperty (h : prop.name ∉ sought) (c : FdtNode) : AsSought c (setProperty c prop) := by
  refine fun name hn => nodeProperty_setProperty_other ?_
  rintro rfl
  exact h hn

theorem of_items {items : List FdtItem} (label : String)
    (h : ∀ name, items.findSome? (FdtItem.named name) = c.subdata.findSome? (FdtItem.named name)) :
    AsSought c (.mk label items) :=
  fun name _ => h name

end AsSought

theorem plicsOf_congr (h : AsSought c k)
    (hn : ∀ a s, k.subNodes.flatMap (plicsOf a s) = c.subNodes.flatMap (plicsOf a s)) (a s : Nat) :
    plicsOf a s k = plicsOf a s c := by
  rw [plicsOf_eq, plicsOf_eq, h.plicHere, h.cells.1, h.cells.2, hn]

theorem plics_congr (h : AsSought x y)
    (hn : ∀ a s, y.subNodes.flatMap (plicsOf a s) = x.subNodes.flatMap (plicsOf a s)) : plics y = plics x := by
  rw [plics, plics, h.cells.1, h.cells.2, plicsOf_congr h hn]

theorem plicsOf_setProperty (h : prop.name ∉ sought) (c : FdtNode) (a s : Nat) :
    plicsOf a s (setProperty c prop) = plicsOf a s c :=
  plicsOf_congr (.setProperty h c) (fun a s => by rw [subNodes_setProperty]) a s

/-- A node that is no PLIC has those below it. -/
theorem plicsOf_of_no_compatible (h : nodeProperty node "compatible" = none) (a s : Nat) :
    plicsOf a s node = node.subNodes.flatMap (plicsOf (addrCellsOf node) (sizeCellsOf node)) := by
  have hno : isPlic node = false := by rw [isPlic, hasCompatible, h, Bool.and_false]
  rw [plicsOf_eq, plicHere, hno]
  rfl

mutual

theorem plicsOf_mapNodes (h : ∀ c, AsSought c (f c)) (hn : ∀ c, (f c).subNodes = c.subNodes) (a s : Nat) :
    ∀ node, plicsOf a s (mapNodes f node) = plicsOf a s node
  | .mk name items => by
    have hitems : AsSought (.mk name items) (.mk name (mapItems f items)) := .of_items name fun name => by
      rw [mapItems_eq, findSome?_map_nodes, FdtNode.subdata_mk]
    rw [mapNodes, plicsOf_congr (h _) (fun a s => by rw [hn]), plicsOf_congr hitems fun a s => ?_]
    rw [FdtNode.subNodes, FdtNode.subNodes, ← plicsIn_eq, ← plicsIn_eq]
    exact plicsIn_mapItems h hn a s items

theorem plicsIn_mapItems (h : ∀ c, AsSought c (f c)) (hn : ∀ c, (f c).subNodes = c.subNodes) (a s : Nat) :
    ∀ items, plicsIn a s (mapItems f items) = plicsIn a s items
  | [] => rfl
  | .inl _ :: rest => by rw [mapItems, plicsIn, plicsIn, plicsIn_mapItems h hn a s rest]
  | .inr sub :: rest => by
    rw [mapItems, plicsIn, plicsIn, plicsOf_mapNodes h hn a s sub, plicsIn_mapItems h hn a s rest]

end

end Plics

/-! ## The first node of a name -/

def changeFirst (name : String) (f : FdtNode → FdtNode) : List FdtNode → List FdtNode
  | [] => []
  | c :: rest => if c.getName = name then f c :: rest else c :: changeFirst name f rest

/-- The cells that a node under the root has for those below it. -/
def cellsUnder (root : FdtNode) (name : String) : Option (Nat × Nat) :=
  (childNode root name).map fun c => (addrCellsOf c, sizeCellsOf c)

section FirstOfName

variable {R : FdtNode → FdtNode → Prop} {f g : FdtNode → FdtNode} {c x y node sub : FdtNode} {l cs ks : List FdtNode}
  {name label : String}

theorem subNodes_changeChild : (changeChild node name f).subNodes = changeFirst name f node.subNodes := by
  rw [FdtNode.subNodes, FdtNode.subNodes, changeChild, FdtNode.subdata_mk]
  induction node.subdata with
  | nil => rfl
  | cons item rest ih =>
    cases item with
    | inl prop => rw [changeNamed, List.filterMap_cons_none (by rfl), List.filterMap_cons_none (by rfl), ih]
    | inr sub =>
      rw [changeNamed, List.filterMap_cons_some (b := sub) (by rfl), changeFirst]
      split_ifs
      · rfl
      · rw [List.filterMap_cons_some (by rfl), ih]

theorem changeFirst_id (l : List FdtNode) : changeFirst name id l = l := by
  induction l with
  | nil => rfl
  | cons c l ih => rw [changeFirst, ih, id, ite_self]

theorem changeFirst_concat (h : sub.getName ≠ name) (l : List FdtNode) :
    changeFirst name f (l ++ [sub]) = changeFirst name f l ++ [sub] := by
  induction l with
  | nil => simp [changeFirst, h]
  | cons c l ih =>
    rw [List.cons_append, changeFirst, changeFirst, ih]
    split_ifs <;> rfl

theorem find?_changeFirst (h : ∀ c, l.find? (fun c => c.getName = name) = some c → (f c).getName = name) :
    (changeFirst name f l).find? (fun c => c.getName = label) =
      if label = name then (l.find? fun c => c.getName = name).map f else l.find? fun c => c.getName = label := by
  induction l with
  | nil => split_ifs <;> rfl
  | cons c l ih =>
    rw [changeFirst]
    by_cases hc : c.getName = name
    · have hfind : (c :: l).find? (fun c => c.getName = name) = some c :=
        List.find?_cons_of_pos (by simpa using hc)
      have hf := h c hfind
      rw [if_pos hc, hfind]
      by_cases hl : label = name
      · rw [if_pos hl, List.find?_cons_of_pos (by simp [hf, hl]), Option.map_some]
      · rw [if_neg hl, List.find?_cons_of_neg (by simpa [hf] using Ne.symm hl),
          List.find?_cons_of_neg (by simpa [hc] using Ne.symm hl)]
    · have hfind : (c :: l).find? (fun c => c.getName = name) = l.find? fun c => c.getName = name :=
        List.find?_cons_of_neg (by simpa using hc)
      rw [hfind] at h
      rw [if_neg hc, hfind]
      by_cases hcl : c.getName = label
      · have hl : label ≠ name := fun hl => hc (hcl.trans hl)
        rw [if_neg hl, List.find?_cons_of_pos (by simpa using hcl), List.find?_cons_of_pos (by simpa using hcl)]
      · rw [List.find?_cons_of_neg (by simpa using hcl), List.find?_cons_of_neg (by simpa using hcl), ih h]

theorem childNode_changeChild (h : ∀ c, childNode node name = some c → (f c).getName = name) (label : String) :
    childNode (changeChild node name f) label =
      if label = name then (childNode node name).map f else childNode node label := by
  rw [childNode, subNodes_changeChild]
  exact find?_changeFirst h

theorem getName_childNode (h : childNode node name = some c) : c.getName = name := by
  simpa using List.find?_some h

theorem flatMap_forall₂ {h : FdtNode → List PlicSite} (hall : List.Forall₂ (fun c k => h k = h c) cs ks) :
    ks.flatMap h = cs.flatMap h := by
  induction hall with
  | nil => rfl
  | cons hck _ ih => rw [List.flatMap_cons, List.flatMap_cons, hck, ih]

/-- The PLICs are the same if they are in each node, before and after the first of a name is changed. -/
theorem flatMap_changeFirst {h : FdtNode → List PlicSite}
    (hall : List.Forall₂ (fun c k => k.getName = c.getName ∧ h k = h c) cs ks)
    (hfirst : ∀ c k, cs.find? (fun c => c.getName = name) = some c → ks.find? (fun c => c.getName = name) = some k →
      h (g k) = h (f c)) : (changeFirst name g ks).flatMap h = (changeFirst name f cs).flatMap h := by
  induction hall with
  | nil => rfl
  | @cons c k cs ks hck hrest ih =>
    rw [changeFirst, changeFirst, hck.1]
    by_cases hc : c.getName = name
    · have hk : k.getName = name := hck.1.trans hc
      rw [if_pos hc, if_pos hc, List.flatMap_cons, List.flatMap_cons,
        flatMap_forall₂ (hrest.imp fun _ _ => And.right), hfirst c k (List.find?_cons_of_pos (by simpa using hc)) (List.find?_cons_of_pos (by simpa using hk))]
    · have hk : k.getName ≠ name := hck.1 ▸ hc
      rw [List.find?_cons_of_neg (by simpa using hc), List.find?_cons_of_neg (by simpa using hk)] at hfirst
      rw [if_neg hc, if_neg hc, List.flatMap_cons, List.flatMap_cons, hck.2, ih hfirst]

theorem plics_changeChild (h : AsSought x y)
    (hall : List.Forall₂ (fun c k => k.getName = c.getName ∧ ∀ a s, plicsOf a s k = plicsOf a s c)
      x.subNodes y.subNodes)
    (hfirst : ∀ c k, childNode x name = some c → childNode y name = some k →
      ∀ a s, plicsOf a s (g k) = plicsOf a s (f c)) :
    plics (changeChild y name g) = plics (changeChild x name f) := by
  refine plics_congr (fun label hl => ?_) fun a s => ?_
  · rw [changeChild, nodeProperty, FdtNode.subdata_mk, findSome?_changeNamed, ← nodeProperty, h label hl]
    exact findSome?_changeNamed.symm
  · rw [subNodes_changeChild, subNodes_changeChild]
    exact flatMap_changeFirst (hall.imp fun _ _ hck => ⟨hck.1, hck.2 a s⟩) fun c k hc hk => hfirst c k hc hk a s

theorem plics_changeChild_keep (h : ∀ c, childNode x name = some c → ∀ a s, plicsOf a s (g c) = plicsOf a s c) :
    plics (changeChild x name g) = plics x := by
  have hid : plics (changeChild x name id) = plics x := by
    refine plics_congr (fun label hl => findSome?_changeNamed) fun a s => ?_
    rw [subNodes_changeChild, changeFirst_id]
  rw [← hid]
  refine plics_changeChild (fun _ _ => rfl) (List.forall₂_same.mpr fun _ _ => ⟨rfl, fun _ _ => rfl⟩) ?_
  intro c k hc hk
  obtain rfl := Option.some.inj (hc.symm.trans hk)
  exact h c hc

end FirstOfName

/-! ## Harts -/

/-- The nodes among the items that are switched off are those of `spareItems`. -/
def spareNodes (numHarts : Nat) : Nat → List FdtNode → List FdtNode
  | _, [] => []
  | index, sub :: rest =>
    if isCpuNode sub then
      (if numHarts ≤ index then setProperty sub ⟨"status", .strings ["disabled"]⟩ else sub) ::
        spareNodes numHarts (index + 1) rest
    else sub :: spareNodes numHarts index rest

def cpusIn (items : List FdtItem) : List (FdtNode × Option FdtNode) :=
  ((items.filterMap Sum.getRight?).filter isCpuNode).map fun sub => (sub, cpuIntcNode sub)

/-- The harts in use are enabled as before, all have the interrupt controllers they had, and no PLICs
are there but those of the tree without the spare harts. -/
structure Renumbered (numHarts index : Nat) (items items' : List FdtItem) : Prop where
  inUse : ((cpusIn items').take (numHarts - index)).map (fun p => (isEnabledNode p.1, p.2)) =
    ((cpusIn items).take (numHarts - index)).map fun p => (isEnabledNode p.1, p.2)
  intcs : (cpusIn items').map Prod.snd = (cpusIn items).map Prod.snd
  plics : ∀ a s, plicsIn a s items' = plicsIn a s (spareItems numHarts index items)

section Harts

variable {numHarts index addrCells : Nat} {items items' rest : List FdtItem} {name : String} {sub : FdtNode}
  {prop : FdtProperty}

theorem spareItems_props : (spareItems numHarts index items).findSome? (FdtItem.named name) =
    items.findSome? (FdtItem.named name) := by
  induction items generalizing index with
  | nil => rfl
  | cons item rest ih =>
    cases item with
    | inl prop => rw [spareItems, List.findSome?_cons, ih, List.findSome?_cons]
    | inr sub =>
      rw [spareItems]
      split_ifs <;> simp only [List.findSome?_cons, FdtItem.named, ih]

theorem spareItems_nodes : (spareItems numHarts index items).filterMap Sum.getRight? =
    spareNodes numHarts index (items.filterMap Sum.getRight?) := by
  induction items generalizing index with
  | nil => rfl
  | cons item rest ih =>
    cases item with
    | inl prop => rw [spareItems, List.filterMap_cons_none (by rfl), List.filterMap_cons_none (by rfl), ih]
    | inr sub =>
      rw [spareItems, List.filterMap_cons_some (b := sub) (by rfl), spareNodes]
      split_ifs <;> rw [List.filterMap_cons_some (by rfl), ih]

theorem asSought_spareItems (label : String) (cpus : FdtNode) :
    AsSought cpus (.mk label (spareItems numHarts index cpus.subdata)) :=
  .of_items label fun _ => spareItems_props

theorem isCpuNode_setProperty (h : prop.name ≠ "device_type") (sub : FdtNode) :
    isCpuNode (setProperty sub prop) = isCpuNode sub := by
  rw [isCpuNode, nodeProperty_setProperty_other h, isCpuNode]

theorem cpuIntcNode_setProperty (sub : FdtNode) (prop : FdtProperty) :
    cpuIntcNode (setProperty sub prop) = cpuIntcNode sub := by
  rw [cpuIntcNode, subNodes_setProperty, cpuIntcNode]

theorem cpusIn_prop (prop : FdtProperty) (rest : List FdtItem) : cpusIn (.inl prop :: rest) = cpusIn rest := by
  rw [cpusIn, List.filterMap_cons_none (by rfl), cpusIn]

theorem cpusIn_cpu (h : isCpuNode sub = true) (rest : List FdtItem) :
    cpusIn (.inr sub :: rest) = (sub, cpuIntcNode sub) :: cpusIn rest := by
  rw [cpusIn, List.filterMap_cons_some (by rfl), List.filter_cons_of_pos h, List.map_cons, cpusIn]

theorem cpusIn_other (h : ¬ isCpuNode sub = true) (rest : List FdtItem) :
    cpusIn (.inr sub :: rest) = cpusIn rest := by
  rw [cpusIn, List.filterMap_cons_some (by rfl), List.filter_cons_of_neg h, cpusIn]

theorem Renumbered.skip (h : Renumbered numHarts index rest items') (prop : FdtProperty) :
    Renumbered numHarts index (.inl prop :: rest) (.inl prop :: items') := by
  refine ⟨?_, ?_, fun a s => ?_⟩
  · rw [cpusIn_prop, cpusIn_prop, h.inUse]
  · rw [cpusIn_prop, cpusIn_prop, h.intcs]
  · rw [spareItems, plicsIn, plicsIn, h.plics]

theorem Renumbered.other (h : Renumbered numHarts index rest items') (hs : ¬ isCpuNode sub = true) :
    Renumbered numHarts index (.inr sub :: rest) (.inr sub :: items') := by
  refine ⟨?_, ?_, fun a s => ?_⟩
  · rw [cpusIn_other hs, cpusIn_other hs, h.inUse]
  · rw [cpusIn_other hs, cpusIn_other hs, h.intcs]
  · rw [spareItems, if_neg hs, plicsIn, plicsIn, h.plics]

theorem Renumbered.spare (h : Renumbered numHarts (index + 1) rest items') (hs : isCpuNode sub = true)
    (hi : numHarts ≤ index) : Renumbered numHarts index (.inr sub :: rest)
      (.inr (setProperty sub ⟨"status", .strings ["disabled"]⟩) :: items') := by
  have hs' : isCpuNode (setProperty sub ⟨"status", .strings ["disabled"]⟩) = true :=
    (isCpuNode_setProperty (by simp) sub).trans hs
  refine ⟨?_, ?_, fun a s => ?_⟩
  · rw [Nat.sub_eq_zero_of_le hi]
    rfl
  · rw [cpusIn_cpu hs, cpusIn_cpu hs', List.map_cons, List.map_cons, h.intcs, cpuIntcNode_setProperty]
  · rw [spareItems, if_pos hs, if_pos hi, plicsIn, plicsIn, h.plics]

theorem Renumbered.numbered (h : Renumbered numHarts (index + 1) rest items') (hs : isCpuNode sub = true)
    (hi : index < numHarts) (value : FdtValue) :
    Renumbered numHarts index (.inr sub :: rest) (.inr (setProperty sub ⟨"reg", value⟩) :: items') := by
  have hs' : isCpuNode (setProperty sub ⟨"reg", value⟩) = true := (isCpuNode_setProperty (by simp) sub).trans hs
  have hsought : AsSought sub (setProperty sub ⟨"reg", value⟩) := .setProperty (by simp [sought]) sub
  refine ⟨?_, ?_, fun a s => ?_⟩
  · have hn : numHarts - index = (numHarts - (index + 1)) + 1 := by omega
    rw [cpusIn_cpu hs, cpusIn_cpu hs', hn, List.take_succ_cons, List.take_succ_cons, List.map_cons, List.map_cons,
      h.inUse, cpuIntcNode_setProperty, hsought.isEnabledNode]
  · rw [cpusIn_cpu hs, cpusIn_cpu hs', List.map_cons, List.map_cons, h.intcs, cpuIntcNode_setProperty]
  · rw [spareItems, if_pos hs, if_neg (Nat.not_le.mpr hi), plicsIn, plicsIn, h.plics,
      plicsOf_setProperty (by simp [sought])]

/-- The loop of `_rewrite_cpus` refuses a number that does not fit. -/
theorem rewriteCpuItems_refuses (addrCells numHarts index : Nat) (items : List FdtItem) :
    RefusesIff (∃ i < (cpusIn items).length, index + i < numHarts ∧ addrCells < cellsFor (index + i))
      (fun r => Renumbered numHarts index items r.1) (rewriteCpuItems addrCells numHarts index items) := by
  induction items generalizing index with
  | nil => exact (RefusesIff.ok ⟨rfl, rfl, fun _ _ => rfl⟩).mono (by simp [cpusIn]) fun _ => id
  | cons item rest ih =>
    -- Whatever is done with the node in front, what is refused after it is what the rest refuses.
    have key : ∀ {i : Nat} (front : FdtItem) (said : List String → List String),
        (∀ items', Renumbered numHarts i rest items' → Renumbered numHarts index (item :: rest) (front :: items')) →
        RefusesIff (∃ j < (cpusIn rest).length, i + j < numHarts ∧ addrCells < cellsFor (i + j))
          (fun r => Renumbered numHarts index (item :: rest) r.1)
          (rewriteCpuItems addrCells numHarts i rest >>= fun r => Except.ok (front :: r.1, said r.2)) :=
      fun front said h => (ih _).map fun r hr => h r.1 hr
    cases item with
    | inl prop =>
      rw [cpusIn_prop]
      exact key (.inl prop) id fun _ h => h.skip prop
    | inr sub =>
      rw [rewriteCpuItems]
      by_cases hs : isCpuNode sub = true
      · rw [if_pos hs, cpusIn_cpu hs, List.length_cons]
        by_cases hi : numHarts ≤ index
        · dsimp only
          rw [if_pos hi]
          refine (key (.inr _) (_ :: ·) fun _ h => h.spare hs hi).mono ?_ fun _ => id
          constructor
          · rintro ⟨j, _, h, _⟩
            omega
          · rintro ⟨j, _, h, _⟩
            omega
        · have hfits := encodeCells_refuses index addrCells
          dsimp only
          rw [if_neg hi]
          cases hreg : encodeCells index addrCells with
          | error e =>
            rw [hreg] at hfits
            cases e with
            | valueError message => exact ⟨0, Nat.succ_pos _, Nat.lt_of_not_le hi, hfits⟩
            | zeroDivisionError => exact hfits.elim
            | structError => exact hfits.elim
          | ok reg =>
            rw [hreg] at hfits
            refine (key (.inr _) (_ ++ ·) fun _ h => h.numbered hs (Nat.lt_of_not_le hi) _).mono ?_ fun _ => id
            constructor
            · rintro ⟨j, hj, h⟩
              rw [Nat.add_assoc, Nat.add_comm 1] at h
              exact ⟨j + 1, by omega, h⟩
            · rintro ⟨j, hj, hlt, hc⟩
              cases j with
              | zero => exact absurd hc hfits.1
              | succ j => exact ⟨j, by omega, by omega, by rwa [Nat.add_assoc, Nat.add_comm 1]⟩
      · rw [if_neg hs, cpusIn_other hs]
        exact key (.inr sub) id fun _ h => h.other hs

end Harts

/-! ## Trees that are refused alike -/

/-- Two nodes that look alike to who reads neither `reg` nor `ranges`. -/
structure LooksLike (a b : FdtNode) : Prop where
  name : a.getName = b.getName
  props : ∀ name, name ≠ "reg" → name ≠ "ranges" → nodeProperty a name = nodeProperty b name
  nodes : a.subNodes = b.subNodes

/-- What the later steps refuse is the same. -/
structure Alike (x y : FdtNode) : Prop where
  cpus : cpuNodes y = cpuNodes x
  cells : ∀ name, name = "cpus" ∨ name = "reserved-memory" → cellsUnder y name = cellsUnder x name
  plics : ∀ numHarts, plics (sparesOff numHarts y) = plics (sparesOff numHarts x)

section Alikes

variable {R : FdtNode → FdtNode → Prop} {a b c k x y z sub : FdtNode} {prop : FdtProperty} {name : String}
  {cs ks : List FdtNode}

namespace LooksLike

theorem refl (a : FdtNode) : LooksLike a a := ⟨rfl, fun _ _ _ => rfl, rfl⟩

theorem trans (h : LooksLike a b) (h' : LooksLike b c) : LooksLike a c :=
  ⟨h.name.trans h'.name, fun name hreg hranges => (h.props name hreg hranges).trans (h'.props name hreg hranges),
    h.nodes.trans h'.nodes⟩

theorem setProperty (h : prop.name = "reg" ∨ prop.name = "ranges") (c : FdtNode) :
    LooksLike (setProperty c prop) c := by
  refine ⟨getName_setProperty, fun name hreg hranges => nodeProperty_setProperty_other ?_, subNodes_setProperty⟩
  rintro rfl
  exact h.elim hreg hranges

theorem asSought (h : LooksLike a b) : AsSought b a := fun name hn =>
  h.props name (by rintro rfl; simp [sought] at hn) (by rintro rfl; simp [sought] at hn)

theorem plicsOf (h : LooksLike c k) (a s : Nat) : plicsOf a s c = plicsOf a s k :=
  plicsOf_congr h.asSought (fun a s => by rw [h.nodes]) a s

theorem rewritesMemory (h : LooksLike a b) : rewritesMemory a = rewritesMemory b := by
  rw [DevTree.rewritesMemory, isMemoryNode, h.name, h.asSought.isEnabledNode, DevTree.rewritesMemory, isMemoryNode]

end LooksLike

/-- The first node of a name is related to the first one in the other tree. -/
theorem find?_forall₂ (h : List.Forall₂ R cs ks) (hname : ∀ c k, R c k → k.getName = c.getName) (name : String) :
    Option.Rel R (cs.find? fun c => c.getName = name) (ks.find? fun k => k.getName = name) := by
  induction h with
  | nil => exact .none
  | @cons c k cs ks hck _ ih =>
    by_cases hc : c.getName = name
    · have hk := (hname c k hck).trans hc
      rw [List.find?_cons_of_pos (by simpa using hc), List.find?_cons_of_pos (by simpa using hk)]
      exact .some hck
    · have hk : k.getName ≠ name := hname c k hck ▸ hc
      rwa [List.find?_cons_of_neg (by simpa using hc), List.find?_cons_of_neg (by simpa using hk)]

theorem cellsUnder_of_forall₂ (h : List.Forall₂ R x.subNodes y.subNodes)
    (hR : ∀ c k, R c k → k.getName = c.getName ∧ AsSought c k) (name : String) :
    cellsUnder y name = cellsUnder x name := by
  have hrel := find?_forall₂ h (fun c k hck => (hR c k hck).1) name
  rw [cellsUnder, cellsUnder, childNode, childNode]
  generalize x.subNodes.find? (fun c => c.getName = name) = o at hrel ⊢
  generalize y.subNodes.find? (fun c => c.getName = name) = o' at hrel ⊢
  cases hrel with
  | none => rfl
  | some hck =>
    have hcells := (hR _ _ hck).2.cells
    rw [Option.map_some, Option.map_some, hcells.1, hcells.2]

theorem Alike.of_forall₂ (h : AsSought x y) (hn : List.Forall₂ LooksLike y.subNodes x.subNodes) : Alike x y := by
  have hn' : List.Forall₂ (fun c k => LooksLike k c) x.subNodes y.subNodes := hn.flip
  have hchild := find?_forall₂ hn' (fun c k hck => hck.name)
  have hcells := cellsUnder_of_forall₂ hn' fun c k hck => ⟨hck.name, hck.asSought⟩
  refine ⟨?_, fun name _ => hcells name, fun numHarts => ?_⟩
  · have hcpus := hchild "cpus"
    rw [cpuNodes, cpuNodes, childNode, childNode]
    generalize x.subNodes.find? (fun c => c.getName = "cpus") = o at hcpus ⊢
    generalize y.subNodes.find? (fun c => c.getName = "cpus") = o' at hcpus ⊢
    cases hcpus with
    | none => rfl
    | some hck => simp only [hck.nodes]
  · cases numHarts with
    | none => exact plics_congr h fun a s => flatMap_forall₂ (hn'.imp fun c k hck => hck.plicsOf a s)
    | some n =>
      refine plics_changeChild h (hn'.imp fun c k hck => ⟨hck.name, hck.plicsOf⟩) fun c k hc hk => ?_
      have hck := hchild "cpus"
      rw [← childNode, ← childNode, hc, hk, Option.rel_some_some] at hck
      refine plicsOf_congr (fun name hname => ?_) fun a s => ?_
      · rw [asSought_spareItems _ k name hname, asSought_spareItems _ c name hname, hck.asSought name hname]
      · have hnodes : k.subdata.filterMap Sum.getRight? = c.subdata.filterMap Sum.getRight? := hck.nodes
        rw [FdtNode.subNodes, FdtNode.subNodes, FdtNode.subdata_mk, FdtNode.subdata_mk, spareItems_nodes,
          spareItems_nodes, hnodes]

theorem plics_append (hp : ∀ a s, plicsOf a s sub = []) (x : FdtNode) : plics (x.append (.inr sub)) = plics x := by
  refine plics_congr (fun name _ => nodeProperty_append_node sub) fun a s => ?_
  rw [subNodes_append_node, List.flatMap_append, List.flatMap_singleton, hp, List.append_nil]

theorem Alike.append (h : sub.getName ≠ "cpus" ∧ sub.getName ≠ "reserved-memory") (hp : ∀ a s, plicsOf a s sub = [])
    (x : FdtNode) : Alike x (x.append (.inr sub)) := by
  have hchild : ∀ name, sub.getName ≠ name → childNode (x.append (.inr sub)) name = childNode x name := by
    intro name hname
    rw [childNode, subNodes_append_node, List.find?_append, List.find?_cons_of_neg (by simpa using hname),
      List.find?_nil, Option.or_none, childNode]
  refine ⟨?_, ?_, fun numHarts => ?_⟩
  · rw [cpuNodes, hchild _ h.1, cpuNodes]
  · rintro name (rfl | rfl)
    · rw [cellsUnder, hchild _ h.1, cellsUnder]
    · rw [cellsUnder, hchild _ h.2, cellsUnder]
  · cases numHarts with
    | none => exact plics_append hp x
    | some n =>
      refine plics_congr (fun name _ => ?_) fun a s => ?_
      · rw [sparesOff, sparesOff, changeChild, nodeProperty, FdtNode.subdata_mk, findSome?_changeNamed,
          ← nodeProperty, nodeProperty_append_node, changeChild]
        exact findSome?_changeNamed.symm
      · rw [sparesOff, sparesOff, subNodes_changeChild, subNodes_changeChild, subNodes_append_node,
          changeFirst_concat h.1, List.flatMap_append, List.flatMap_singleton, hp, List.append_nil]

end Alikes

end Pyremu.DevTree
