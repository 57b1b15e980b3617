import Pyremu.DevTree.Widen
import Mathlib.Data.List.Forall2

/-!
# What the later steps keep

After the root cells are settled, the nodes under the root keep where they are
declared to be; only memory nodes are given another `reg`, and further nodes
come after them.
-/

namespace Pyremu.DevTree

/-- The properties that place a node and the nodes below it. -/
def placing : List String := ["#address-cells", "#size-cells", "reg", "ranges"]

/-- `k` is `c` with other properties perhaps, but in the same place. -/
structure Placed (c k : FdtNode) : Prop where
  name : k.getName = c.getName
  props : ∀ name ∈ placing, nodeProperty k name = nodeProperty c name

/-- The nodes under `x` come first under `y`, each related to what it was. -/
structure Kept (R : FdtNode → FdtNode → Prop) (x y : FdtNode) : Prop where
  root : Placed x y
  nodes : List.Forall₂ R x.subNodes (y.subNodes.take x.subNodes.length)

section Relations

variable {R : FdtNode → FdtNode → Prop} {x y z c k l : FdtNode}

theorem forall₂_trans {α : Type} {R R' R'' : α → α → Prop} (h : ∀ a b c, R a b → R' b c → R'' a c)
    {as bs cs : List α} (hab : List.Forall₂ R as bs) (hbc : List.Forall₂ R' bs cs) :
    List.Forall₂ R'' as cs := by
  induction hab generalizing cs with
  | nil => cases hbc; exact .nil
  | cons hr _ ih =>
    cases hbc with
    | cons hr' hs' => exact .cons (h _ _ _ hr hr') (ih hs')

theorem Placed.refl (c : FdtNode) : Placed c c := ⟨rfl, fun _ _ => rfl⟩

theorem Placed.trans (h : Placed c k) (h' : Placed k l) : Placed c l :=
  ⟨h'.name.trans h.name, fun name hn => (h'.props name hn).trans (h.props name hn)⟩

theorem Placed.setProperty {prop : FdtProperty} (h : prop.name ∉ placing) (c : FdtNode) :
    Placed c (setProperty c prop) := by
  refine ⟨getName_setProperty, fun name hn => nodeProperty_setProperty_other ?_⟩
  rintro rfl
  exact h hn

theorem Kept.of_forall₂ (h : Placed x y) (hn : List.Forall₂ R x.subNodes y.subNodes) : Kept R x y := by
  refine ⟨h, ?_⟩
  rwa [hn.length_eq, List.take_length]

theorem Kept.of_nodes (hR : ∀ c, R c c) (h : Placed x y) (hn : y.subNodes = x.subNodes) : Kept R x y := by
  refine .of_forall₂ h ?_
  rw [hn]
  exact List.forall₂_same.mpr fun c _ => hR c

theorem Kept.refl (hR : ∀ c, R c c) (x : FdtNode) : Kept R x x := .of_nodes hR (.refl x) rfl

theorem Kept.trans (hR : ∀ c k l, R c k → Placed k l → R c l) (h : Kept R x y) (h' : Kept Placed y z) :
    Kept R x z := by
  refine ⟨h.root.trans h'.root, ?_⟩
  have hlen := h.nodes.length_eq
  rw [List.length_take] at hlen
  have hsecond := List.forall₂_take x.subNodes.length h'.nodes
  rw [List.take_take, Nat.min_eq_left (by omega)] at hsecond
  exact forall₂_trans hR h.nodes hsecond

theorem Kept.next (h : Kept Placed x y) (h' : Kept Placed y z) : Kept Placed x z :=
  h.trans (fun _ _ _ => Placed.trans) h'

theorem Kept.append (hR : ∀ c, R c c) (x sub : FdtNode) : Kept R x (x.append (.inr sub)) := by
  refine ⟨⟨rfl, fun _ _ => nodeProperty_append_node sub⟩, ?_⟩
  rw [subNodes_append_node, List.take_left]
  exact List.forall₂_same.mpr fun c _ => hR c

end Relations

/-! ## Nodes changed in place -/

section InPlace

variable {R : FdtNode → FdtNode → Prop} {f : FdtNode → FdtNode} {node : FdtNode} {items : List FdtItem}
  {name label : String}

/-- The properties of a list of items are looked up in order and nodes do not count. -/
theorem named_map (f : FdtNode → FdtNode) (item : FdtItem) :
    FdtItem.named name (Sum.map id f item) = FdtItem.named name item := by
  cases item <;> rfl

theorem placed_items {items' : List FdtItem}
    (h : ∀ name, items'.findSome? (FdtItem.named name) = node.subdata.findSome? (FdtItem.named name)) :
    Placed node (.mk node.getName items') :=
  ⟨rfl, fun name _ => h name⟩

theorem findSome?_map_nodes (f : FdtNode → FdtNode) (items : List FdtItem) :
    (items.map (Sum.map id f)).findSome? (FdtItem.named name) = items.findSome? (FdtItem.named name) := by
  rw [List.findSome?_map]
  congr 1
  funext item
  exact named_map f item

theorem filterMap_map_nodes (f : FdtNode → FdtNode) (items : List FdtItem) :
    (items.map (Sum.map id f)).filterMap Sum.getRight? = (items.filterMap Sum.getRight?).map f := by
  rw [List.filterMap_map, List.map_filterMap]
  congr 1
  funext item
  cases item <;> rfl

theorem Kept.map (h : ∀ c, R c (f c)) (node : FdtNode) :
    Kept R node (.mk node.getName (node.subdata.map (Sum.map id f))) := by
  refine .of_forall₂ (placed_items fun name => findSome?_map_nodes f node.subdata) ?_
  rw [FdtNode.subNodes, FdtNode.subNodes, FdtNode.subdata_mk, filterMap_map_nodes, List.forall₂_map_right_iff]
  exact List.forall₂_same.mpr fun c _ => h c

theorem findSome?_changeNamed : (changeNamed label f items).findSome? (FdtItem.named name) =
    items.findSome? (FdtItem.named name) := by
  induction items with
  | nil => rfl
  | cons item rest ih =>
    cases item with
    | inl prop => rw [changeNamed, List.findSome?_cons, ih, List.findSome?_cons]
    | inr sub =>
      rw [changeNamed]
      split_ifs
      · rfl
      · rw [List.findSome?_cons, ih, List.findSome?_cons]

theorem forall₂_changeNamed (hR : ∀ c, R c c)
    (h : ∀ c, (items.filterMap Sum.getRight?).find? (fun sub => sub.getName = label) = some c → R c (f c)) :
    List.Forall₂ R (items.filterMap Sum.getRight?) ((changeNamed label f items).filterMap Sum.getRight?) := by
  induction items with
  | nil => exact .nil
  | cons item rest ih =>
    cases item with
    | inl prop => exact ih h
    | inr sub =>
      rw [List.filterMap_cons_some (by rfl)] at h ⊢
      rw [changeNamed]
      by_cases hs : sub.getName = label
      · rw [if_pos hs]
        refine .cons (h sub ?_) (List.forall₂_same.mpr fun c _ => hR c)
        rw [List.find?_cons_of_pos (by simpa using hs)]
      · rw [if_neg hs]
        refine .cons (hR sub) (ih fun c hc => h c ?_)
        rwa [List.find?_cons_of_neg (by simpa using hs)]

theorem Kept.changeChild (hR : ∀ c, R c c) (h : ∀ c, childNode node label = some c → R c (f c)) :
    Kept R node (changeChild node label f) :=
  .of_forall₂ (placed_items fun _ => findSome?_changeNamed) (forall₂_changeNamed hR h)

theorem findSome?_modify (i : Nat) : (items.modify i (Sum.map id f)).findSome? (FdtItem.named name) =
    items.findSome? (FdtItem.named name) := by
  induction items generalizing i with
  | nil => rw [List.modify_nil]
  | cons item rest ih =>
    cases i with
    | zero => rw [List.modify_zero_cons, List.findSome?_cons, named_map, List.findSome?_cons]
    | succ i => rw [List.modify_succ_cons, List.findSome?_cons, ih, List.findSome?_cons]

theorem forall₂_modify (hR : ∀ c, R c c) (h : ∀ c, R c (f c)) (i : Nat) (items : List FdtItem) :
    List.Forall₂ R (items.filterMap Sum.getRight?) ((items.modify i (Sum.map id f)).filterMap Sum.getRight?) := by
  induction items generalizing i with
  | nil =>
    rw [List.modify_nil]
    exact .nil
  | cons item rest ih =>
    cases i with
    | zero =>
      have hsame : List.Forall₂ R (rest.filterMap Sum.getRight?) (rest.filterMap Sum.getRight?) :=
        List.forall₂_same.mpr fun c _ => hR c
      cases item with
      | inl prop => exact hsame
      | inr sub => exact .cons (h sub) hsame
    | succ i =>
      cases item with
      | inl prop => exact ih i
      | inr sub => exact .cons (hR sub) (ih i)

/-- Below the root, whatever is done keeps the node where it is. -/
theorem Placed.modifyAt (h : ∀ c, Placed c (f c)) (path : List Nat) (node : FdtNode) :
    Placed node (modifyAt f path node) := by
  cases path with
  | nil => exact h node
  | cons i path => exact placed_items fun name => findSome?_modify i

theorem Kept.modifyAt (h : ∀ c, Placed c (f c)) (hroot : ∀ x, Kept Placed x (f x)) (path : List Nat)
    (node : FdtNode) : Kept Placed node (modifyAt f path node) := by
  cases path with
  | nil => exact hroot node
  | cons i path =>
    exact .of_forall₂ (Placed.modifyAt h _ node) (forall₂_modify .refl (Placed.modifyAt h path) i _)

theorem mapItems_eq (f : FdtNode → FdtNode) (items : List FdtItem) :
    mapItems f items = items.map (Sum.map id (mapNodes f)) := by
  induction items with
  | nil => rw [mapItems, List.map_nil]
  | cons item rest ih => cases item <;> rw [mapItems, ih] <;> rfl

theorem mapNodes_eq (f : FdtNode → FdtNode) (node : FdtNode) :
    mapNodes f node = f (.mk node.getName (node.subdata.map (Sum.map id (mapNodes f)))) := by
  cases node with
  | mk name subdata => rw [mapNodes, mapItems_eq]; rfl

theorem Placed.mapNodes (h : ∀ c, Placed c (f c)) (node : FdtNode) : Placed node (mapNodes f node) := by
  rw [mapNodes_eq]
  exact Placed.trans (placed_items fun name => findSome?_map_nodes _ _) (h _)

theorem Kept.mapNodes (h : ∀ c, Placed c (f c)) (hroot : ∀ x, Kept Placed x (f x)) (node : FdtNode) :
    Kept Placed node (mapNodes f node) := by
  rw [mapNodes_eq]
  exact Kept.next (.map (Placed.mapNodes h) node) (hroot _)

end InPlace

/-! ## The steps -/

/-- The nodes that get the window of the RAM for their `reg`. -/
def Rewritten (ram : Option DtRegion) (c : FdtNode) : Prop := ram.isSome = true ∧ rewritesMemory c = true

/-- A node under the root after the later steps. -/
def Delivered (ram : Option DtRegion) (c k : FdtNode) : Prop :=
  k.getName = c.getName ∧ (Rewritten ram c ∨ Placed c k)

section Steps

variable {root out : FdtNode} {addrCells sizeCells numHarts index : Nat} {messages : List String}
  {items items' : List FdtItem} {pyfdt : Pyfdt} {seed : List UInt8} {delivered : DeliveredTree} {name : String}

theorem Delivered.refl (ram : Option DtRegion) (c : FdtNode) : Delivered ram c c := ⟨rfl, .inr (.refl c)⟩

theorem Delivered.placed (ram : Option DtRegion) (c k l : FdtNode) (h : Delivered ram c k) (h' : Placed k l) :
    Delivered ram c l :=
  ⟨h'.name.trans h.1, h.2.imp_right fun hp => hp.trans h'⟩

theorem rewriteMemory_keeps {ram : DtRegion} (h : rewriteMemory root ram addrCells sizeCells = .ok out) :
    Kept (Delivered (some ram)) root out := by
  obtain ⟨words, -, h⟩ := bind_ok.mp h
  split_ifs at h
  · cases h
    refine .map (fun c => ?_) root
    split_ifs with hc
    · exact ⟨getName_setProperty, .inl ⟨rfl, hc⟩⟩
    · exact .refl _ c
  · cases h
    exact .append (.refl _) root _

theorem rewriteCpuItems_props (h : rewriteCpuItems addrCells numHarts index items = .ok (items', messages)) :
    items'.findSome? (FdtItem.named name) = items.findSome? (FdtItem.named name) := by
  induction items generalizing index items' messages with
  | nil =>
    cases h
    rfl
  | cons item rest ih =>
    -- Whatever is done with the node in front, the properties after it are those of the rest.
    have key : ∀ {i : Nat} (front : FdtItem) (said : List String → List String),
        (rewriteCpuItems addrCells numHarts i rest >>= fun r => Except.ok (front :: r.1, said r.2)) =
          Except.ok (items', messages) →
        front.named name = item.named name →
          items'.findSome? (FdtItem.named name) = (item :: rest).findSome? (FdtItem.named name) := by
      intro i front said hr hfront
      obtain ⟨⟨tail, _⟩, htail, hp⟩ := bind_ok.mp hr
      cases hp
      rw [List.findSome?_cons, hfront, ih htail, List.findSome?_cons]
    cases item with
    | inl prop => exact key (.inl prop) id h rfl
    | inr sub =>
      rw [rewriteCpuItems] at h
      dsimp only at h
      split_ifs at h
      · exact key (.inr _) (_ :: ·) h rfl
      · split at h
        · cases h
        · exact key (.inr _) (_ ++ ·) h rfl
      · exact key (.inr sub) id h rfl

theorem rewriteCpus_keeps (h : rewriteCpus root numHarts = .ok (out, messages)) : Kept Placed root out := by
  rw [rewriteCpus] at h
  split at h
  · cases h
    exact .refl .refl root
  · rename_i cpus hcpus
    obtain ⟨⟨items, _⟩, hitems, h⟩ := bind_ok.mp h
    cases h
    refine .changeChild .refl fun c hc => ?_
    obtain rfl : cpus = c := Option.some.inj (hcpus.symm.trans hc)
    exact placed_items fun name => rewriteCpuItems_props hitems

theorem rewriteHartList_placed (phandles known : List Nat) (c : FdtNode) :
    Placed c (rewriteHartList phandles known c) := by
  rw [rewriteHartList]
  split
  · exact .setProperty (by simp [placing]) c
  · exact .refl c

theorem rewriteHartList_keeps (phandles known : List Nat) (c : FdtNode) :
    Kept Placed c (rewriteHartList phandles known c) := by
  refine .of_nodes .refl (rewriteHartList_placed phandles known c) ?_
  rw [rewriteHartList]
  split
  · exact subNodes_setProperty
  · rfl

theorem rewriteIntcHartLists_keeps (h : rewriteIntcHartLists root numHarts = .ok (out, messages)) :
    Kept Placed root out := by
  rw [rewriteIntcHartLists] at h
  dsimp only at h
  split_ifs at h
  · cases h
    exact .refl .refl root
  · obtain ⟨intcs, -, h⟩ := bind_ok.mp h
    obtain ⟨phandles, -, h⟩ := bind_ok.mp h
    obtain ⟨known, -, h⟩ := bind_ok.mp h
    cases h
    exact .mapNodes (rewriteHartList_placed phandles known) (rewriteHartList_keeps phandles known) root

theorem addReservedMemory_keeps {ranges : List (Nat × Nat)}
    (h : addReservedMemory pyfdt root ranges addrCells sizeCells = .ok out) : Kept Placed root out := by
  rw [addReservedMemory] at h
  split at h
  · obtain ⟨nodes, -, h⟩ := bind_ok.mp h
    cases h
    exact .append .refl root _
  · dsimp only at h
    split_ifs at h
    obtain ⟨nodes, -, h⟩ := bind_ok.mp h
    cases h
    refine .changeChild .refl fun c _ => placed_items fun name => ?_
    have hnone : (nodes.map Sum.inr).findSome? (FdtItem.named name) = none := by
      simp [List.findSome?_eq_none_iff, FdtItem.named]
    rw [List.findSome?_append, hnone, Option.or_none]

theorem setBootargs_placed (bootargs : Option String) (c : FdtNode) : Placed c (setBootargs bootargs c) := by
  cases bootargs with
  | none => exact .refl c
  | some args =>
    simp only [setBootargs]
    split_ifs
    · exact .refl c
    · exact .setProperty (by simp [placing]) c

theorem setInitrd_placed {c k : FdtNode} {initrd : Option (Nat × Nat)} (h : setInitrd initrd c = .ok k) :
    Placed c k := by
  cases initrd with
  | none =>
    cases h
    exact .refl c
  | some bounds =>
    obtain ⟨first, -, h⟩ := bind_ok.mp h
    obtain ⟨last, -, h⟩ := bind_ok.mp h
    cases h
    exact .trans (.setProperty (by simp [placing]) c) (.setProperty (by simp [placing]) _)

theorem fillChosen_placed {c k : FdtNode} {bootargs : Option String} {initrd : Option (Nat × Nat)}
    (h : fillChosen seed bootargs initrd c = .ok k) : Placed c k := by
  have hseed : Placed (setBootargs bootargs c) (setProperty (setBootargs bootargs c) ⟨"rng-seed", .bytes seed⟩) :=
    .setProperty (by simp [placing]) _
  exact ((setBootargs_placed bootargs c).trans hseed).trans (setInitrd_placed h)

theorem rewriteChosen_keeps {bootargs : Option String} {initrd : Option (Nat × Nat)}
    (h : rewriteChosen seed root bootargs initrd = .ok out) : Kept Placed root out := by
  rw [rewriteChosen] at h
  split at h
  · obtain ⟨node, -, h⟩ := bind_ok.mp h
    cases h
    exact .append .refl root _
  · rename_i chosen hchosen
    obtain ⟨node, hnode, h⟩ := bind_ok.mp h
    cases h
    refine .changeChild .refl fun c hc => ?_
    obtain rfl : chosen = c := Option.some.inj (hchosen.symm.trans hc)
    exact fillChosen_placed hnode

theorem raisePlicNdev_placed (irq : Nat) (c : FdtNode) : Placed c (raisePlicNdev irq c) := by
  rw [raisePlicNdev]
  split_ifs
  · exact .setProperty (by simp [placing]) c
  · exact .refl c

theorem raisePlicNdev_keeps (irq : Nat) (c : FdtNode) : Kept Placed c (raisePlicNdev irq c) := by
  refine .of_nodes .refl (raisePlicNdev_placed irq c) ?_
  rw [raisePlicNdev]
  split_ifs
  · exact subNodes_setProperty
  · rfl

theorem addDeviceNode_keeps {device : DtDeviceNode} (h : addDeviceNode root device = .ok out) :
    Kept Placed root out := by
  rw [addDeviceNode] at h
  split at h
  · cases h
  · rename_i path plic _
    obtain ⟨reg, -, h⟩ := bind_ok.mp h
    obtain ⟨phandle, -, h⟩ := bind_ok.mp h
    cases h
    have happend : ∀ sub, Kept Placed root (modifyAt (·.append (.inr sub)) path.dropLast root) := fun sub =>
      .modifyAt (fun c => (Kept.append Placed.refl c sub).root) (fun x => .append .refl x sub) path.dropLast root
    exact (happend _).next (.modifyAt (raisePlicNdev_placed device.irq) (raisePlicNdev_keeps device.irq) path _)

theorem addDevices_keep {devices : List DtDeviceNode} (h : devices.foldlM addDeviceNode root = .ok out) :
    Kept Placed root out := by
  induction devices generalizing root with
  | nil =>
    cases h
    exact .refl .refl out
  | cons device rest ih =>
    obtain ⟨next, hnext, h⟩ := bind_ok.mp h
    exact (addDeviceNode_keeps hnext).next (ih h)

theorem deliverRam_keeps {ram : Option DtRegion} (h : deliverRam addrCells sizeCells root ram = .ok out) :
    Kept (Delivered ram) root out := by
  cases ram with
  | none =>
    cases h
    exact .refl (.refl _) root
  | some ram => exact rewriteMemory_keeps h

theorem deliverHarts_keeps {harts : Option Nat} (h : deliverHarts root harts = .ok (out, messages)) :
    Kept Placed root out := by
  cases harts with
  | none =>
    cases h
    exact .refl .refl root
  | some n =>
    obtain ⟨⟨cpus, _⟩, hcpus, h⟩ := bind_ok.mp h
    obtain ⟨⟨lists, _⟩, hlists, h⟩ := bind_ok.mp h
    cases h
    exact (rewriteCpus_keeps hcpus).next (rewriteIntcHartLists_keeps hlists)

theorem deliverReserved_keeps {ranges : List (Nat × Nat)}
    (h : deliverReserved pyfdt ranges addrCells sizeCells root = .ok out) : Kept Placed root out := by
  rw [deliverReserved] at h
  split_ifs at h
  · cases h
    exact .refl .refl root
  · exact addReservedMemory_keeps h

theorem deliverChosen_keeps {bootargs : Option String} {initrd : Option (Nat × Nat)}
    (h : deliverChosen seed bootargs initrd root = .ok out) : Kept Placed root out := by
  rw [deliverChosen] at h
  split_ifs at h
  · exact rewriteChosen_keeps h
  · cases h
    exact .refl .refl root

theorem deliver_keeps (h : deliver pyfdt seed delivered addrCells sizeCells root = .ok (out, messages)) :
    Kept (Delivered delivered.ram) root out := by
  obtain ⟨memory, hmemory, h⟩ := bind_ok.mp h
  obtain ⟨⟨harts, _⟩, hharts, h⟩ := bind_ok.mp h
  obtain ⟨reserved, hreserved, h⟩ := bind_ok.mp h
  obtain ⟨chosen, hchosen, h⟩ := bind_ok.mp h
  obtain ⟨devices, hdevices, h⟩ := bind_ok.mp h
  cases h
  have hlater : Kept Placed memory out :=
    (((deliverHarts_keeps hharts).next (deliverReserved_keeps hreserved)).next
      (deliverChosen_keeps hchosen)).next (addDevices_keep hdevices)
  exact (deliverRam_keeps hmemory).trans (Delivered.placed _) hlater

end Steps

end Pyremu.DevTree
