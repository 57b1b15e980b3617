import Pyremu.DevTree.Refusals

/-!
# The outcome of the later steps

Each of the later steps refuses what `Refusals` says of the tree before the first
of them, whatever the steps in between have done.
-/

namespace Pyremu.DevTree

/-! ## Cells -/

section Cells

variable {a s : Nat} {ram : Option DtRegion} {ranges : List (Nat × Nat)} {v : Nat × Nat}

theorem le_foldl {α β : Type} [Preorder α] {f : α → β → α} (h : ∀ x y, x ≤ f x y) (l : List β) (x : α) :
    x ≤ l.foldl f x := by
  induction l generalizing x with
  | nil => exact le_rfl
  | cons y l ih => exact (h x y).trans (ih (f x y))

/-- The delivered windows fit in the cells that are needed. -/
theorem neededCells_fit (h : v ∈ ranges ++ (ram.map fun r => (r.base, r.size)).toList) :
    cellsFor v.1 ≤ (neededCells ram ranges).1 ∧ cellsFor v.2 ≤ (neededCells ram ranges).2 := by
  obtain ⟨before, after, hvalues⟩ := List.append_of_mem h
  rw [neededCells, hvalues, List.foldl_append, List.foldl_cons]
  have hle := fun start => Prod.le_def.mp <| le_foldl
    (f := fun (need w : Nat × Nat) => (max need.1 (cellsFor w.1), max need.2 (cellsFor w.2)))
    (fun _ _ => Prod.mk_le_mk.mpr ⟨le_max_left _ _, le_max_left _ _⟩) after start
  exact ⟨(le_max_right _ _).trans (hle (_, _)).1, (le_max_right _ _).trans (hle (_, _)).2⟩

theorem regWords_ok (h : cellsFor v.1 ≤ a ∧ cellsFor v.2 ≤ s) : ∃ words, regWords v.1 v.2 a s = .ok words := by
  have hrefuses := regWords_refuses v.1 v.2 a s
  cases hw : regWords v.1 v.2 a s with
  | ok words => exact ⟨words, rfl⟩
  | error e =>
    rw [hw] at hrefuses
    cases e with
    | valueError message => exact absurd hrefuses (not_or.mpr ⟨h.1.not_gt, h.2.not_gt⟩)
    | zeroDivisionError => exact hrefuses.elim
    | structError => exact hrefuses.elim

end Cells

/-! ## Memory -/

section Memory

variable {x : FdtNode} {a s : Nat} {ram : Option DtRegion}

theorem deliverRam_alike (x : FdtNode) (h : ∀ r, ram = some r → cellsFor r.base ≤ a ∧ cellsFor r.size ≤ s) :
    ∃ y, deliverRam a s x ram = .ok y ∧ Alike x y := by
  cases ram with
  | none => exact ⟨x, rfl, rfl, fun _ _ => rfl, fun _ => rfl⟩
  | some ram =>
    obtain ⟨words, hwords⟩ := regWords_ok (v := (ram.base, ram.size)) (h ram rfl)
    rw [deliverRam, rewriteMemory, hwords]
    change ∃ y, (if x.subNodes.any rewritesMemory then _ else _) = _ ∧ _
    split_ifs
    · refine ⟨_, rfl, .of_forall₂ (.of_items _ fun name => findSome?_map_nodes _ _) ?_⟩
      rw [FdtNode.subNodes, FdtNode.subdata_mk, filterMap_map_nodes, List.forall₂_map_left_iff]
      refine List.forall₂_same.mpr fun c _ => ?_
      split_ifs
      · exact .setProperty (.inl rfl) c
      · exact .refl c
    · refine ⟨_, rfl, .append ⟨by simp, by simp⟩ (fun a s => ?_) x⟩
      exact plicsOf_of_no_compatible rfl a s

end Memory

/-! ## Harts -/

section Harts

variable {x y z cpus : FdtNode} {numHarts : Nat}

/-- What `_rewrite_cpus` leaves of the harts and of the PLICs. -/
structure CpusRewritten (numHarts : Nat) (y z : FdtNode) : Prop where
  inUse : ((cpuNodes z).take numHarts).map (fun p => (isEnabledNode p.1, p.2)) =
    ((cpuNodes y).take numHarts).map fun p => (isEnabledNode p.1, p.2)
  intcs : (cpuNodes z).map Prod.snd = (cpuNodes y).map Prod.snd
  reserved : cellsUnder z "reserved-memory" = cellsUnder y "reserved-memory"
  plics : plics z = plics (sparesOff (some numHarts) y)

theorem cpuNodes_of_childNode (h : childNode y "cpus" = some cpus) : cpuNodes y = cpusIn cpus.subdata := by
  rw [cpuNodes, h]
  rfl

theorem rewriteCpus_refuses (y : FdtNode) (numHarts : Nat) :
    RefusesIff (∃ cpus, childNode y "cpus" = some cpus ∧
        ∃ index < min numHarts (cpuNodes y).length, addrCellsOf cpus < cellsFor index)
      (fun r => CpusRewritten numHarts y r.1) (rewriteCpus y numHarts) := by
  rw [rewriteCpus]
  cases hcpus : childNode y "cpus" with
  | none =>
    have hplics : plics y = plics (sparesOff (some numHarts) y) := by
      refine (plics_changeChild_keep fun c hc => ?_).symm
      cases hcpus.symm.trans hc
    exact (RefusesIff.ok ⟨rfl, rfl, rfl, hplics⟩).mono (by simp) fun _ => id
  | some cpus =>
    have hname := getName_childNode hcpus
    refine ((rewriteCpuItems_refuses (addrCellsOf cpus) numHarts 0 cpus.subdata).with_eq.map
      (f := fun r => (changeChild y "cpus" fun _ => .mk cpus.getName r.1, r.2)) fun r hr => ?_).mono ?_ fun _ => id
    · have hchange : ∀ label, childNode (changeChild y "cpus" fun _ => .mk cpus.getName r.1) label =
          if label = "cpus" then (childNode y "cpus").map fun _ => .mk cpus.getName r.1 else childNode y label :=
        childNode_changeChild fun _ _ => hname
      have hchild : childNode (changeChild y "cpus" fun _ => .mk cpus.getName r.1) "cpus" =
          some (.mk cpus.getName r.1) := by
        rw [hchange, if_pos rfl, hcpus, Option.map_some]
      refine ⟨?_, ?_, ?_, ?_⟩
      · rw [cpuNodes_of_childNode hchild, cpuNodes_of_childNode hcpus]
        exact hr.2.inUse
      · rw [cpuNodes_of_childNode hchild, cpuNodes_of_childNode hcpus]
        exact hr.2.intcs
      · rw [cellsUnder, hchange, if_neg (by simp), cellsUnder]
      · refine plics_changeChild (fun _ _ => rfl) (List.forall₂_same.mpr fun _ _ => ⟨rfl, fun _ _ => rfl⟩) ?_
        intro c k hc _
        obtain rfl := Option.some.inj (hcpus.symm.trans hc)
        refine plicsOf_congr (fun name _ => ?_) fun a s => ?_
        · exact (rewriteCpuItems_props hr.1).trans spareItems_props.symm
        · rw [FdtNode.subNodes, FdtNode.subNodes, ← plicsIn_eq, ← plicsIn_eq]
          exact hr.2.plics a s
    · rw [cpuNodes_of_childNode hcpus]
      simp only [Option.some.injEq, exists_eq_left', Nat.zero_add, lt_inf_iff]
      exact exists_congr fun i => by tauto

theorem phandleOf_refuses (node : FdtNode) :
    RefusesIff (hasPhandle node = false) (fun _ => True) (phandleOf node) := by
  rw [phandleOf, hasPhandle]
  cases firstWord (nodeProperty node "phandle") with
  | some word => exact ⟨by simp, trivial⟩
  | none =>
    cases firstWord (nodeProperty node "linux,phandle") with
    | some word => exact ⟨by simp, trivial⟩
    | none => rfl

theorem hartIntcs_refuses (index : Nat) (harts : List (FdtNode × Option FdtNode)) :
    RefusesIff (∃ p ∈ harts, isEnabledNode p.1 = false ∨ p.2 = none) (fun intcs => intcs = harts.filterMap Prod.snd)
      (hartIntcs index harts) := by
  induction harts generalizing index with
  | nil => exact (RefusesIff.ok (P := fun intcs => intcs = []) rfl).mono (by simp) fun _ => id
  | cons hart rest ih =>
    obtain ⟨cpu, intc⟩ := hart
    cases henabled : isEnabledNode cpu with
    | false =>
      cases intc <;> rw [hartIntcs, if_pos (by simp [henabled])] <;>
        exact ⟨_, List.mem_cons_self, .inl henabled⟩
    | true =>
      cases intc with
      | none =>
        rw [hartIntcs, if_neg (by simp [henabled])]
        exact ⟨_, List.mem_cons_self, .inr rfl⟩
      | some intc =>
        rw [hartIntcs, if_neg (by simp [henabled])]
        refine ((ih (index + 1)).map (f := (intc :: ·)) fun intcs h => ?_).mono ?_ fun _ => id
        · rw [h, List.filterMap_cons_some (by rfl)]
        · simp [henabled]

theorem rewriteHartList_sought (phandles known : List Nat) (c : FdtNode) :
    AsSought c (rewriteHartList phandles known c) := by
  rw [rewriteHartList]
  split
  · exact .setProperty (by simp [sought]) c
  · exact fun _ _ => rfl

theorem rewriteHartList_nodes (phandles known : List Nat) (c : FdtNode) :
    (rewriteHartList phandles known c).subNodes = c.subNodes := by
  rw [rewriteHartList]
  split
  · exact subNodes_setProperty
  · rfl

/-- The lists of the harts are no concern of what comes after. -/
theorem mapNodes_rewriteHartList (phandles known : List Nat) (z : FdtNode) :
    cellsUnder (mapNodes (rewriteHartList phandles known) z) "reserved-memory" = cellsUnder z "reserved-memory" ∧
      plics (mapNodes (rewriteHartList phandles known) z) = plics z := by
  have hsought := rewriteHartList_sought phandles known
  have hall : ∀ c, AsSought c (mapNodes (rewriteHartList phandles known) c) := by
    intro c name hn
    rw [mapNodes_eq, hsought _ name hn]
    exact findSome?_map_nodes _ _
  constructor
  · refine cellsUnder_of_forall₂ (R := fun c k => k.getName = c.getName ∧ AsSought c k) ?_ (fun _ _ => id) _
    rw [mapNodes_eq, rewriteHartList_nodes, FdtNode.subNodes, FdtNode.subNodes, FdtNode.subdata_mk,
      filterMap_map_nodes, List.forall₂_map_right_iff]
    refine List.forall₂_same.mpr fun c _ => ⟨?_, hall c⟩
    exact (Placed.mapNodes (rewriteHartList_placed phandles known) c).name
  · rw [plics, plics, (hall z).cells.1, (hall z).cells.2]
    exact plicsOf_mapNodes hsought (rewriteHartList_nodes phandles known) _ _ z

theorem rewriteIntcHartLists_refuses (z : FdtNode) (numHarts : Nat) :
    RefusesIff (0 < numHarts ∧ IntcsRefused (cpuNodes z) numHarts)
      (fun r => cellsUnder r.1 "reserved-memory" = cellsUnder z "reserved-memory" ∧ plics r.1 = plics z)
      (rewriteIntcHartLists z numHarts) := by
  rw [rewriteIntcHartLists]
  dsimp only
  split_ifs with hn hlen
  · exact (RefusesIff.ok ⟨rfl, rfl⟩).mono (by simp; omega) fun _ => id
  · exact ⟨by omega, .inl hlen⟩
  · have hphandles : ∀ l : List FdtNode, RefusesIff (∃ intc ∈ l, hasPhandle intc = false)
        (List.Forall₂ (fun _ _ => True) l) (l.mapM phandleOf) := fun l =>
      .mapM fun intc _ => phandleOf_refuses intc
    have hlists := fun phandles => (hphandles ((cpuNodes z).filterMap Prod.snd)).map
      (f := fun known => (mapNodes (rewriteHartList phandles known) z,
        (iterNodes z).filterMap fun p => hartListMessage phandles known numHarts p.2))
      (Q := fun r => cellsUnder r.1 "reserved-memory" = cellsUnder z "reserved-memory" ∧ plics r.1 = plics z)
      fun known _ => mapNodes_rewriteHartList phandles known z
    have hknown := (hphandles (((cpuNodes z).take numHarts).filterMap Prod.snd)).bind
      fun phandles _ => hlists phandles
    have hinUse : (∃ intc ∈ ((cpuNodes z).take numHarts).filterMap Prod.snd, hasPhandle intc = false) →
        ∃ intc ∈ (cpuNodes z).filterMap Prod.snd, hasPhandle intc = false := by
      rintro ⟨intc, hmem, h⟩
      exact ⟨intc, ((List.take_sublist _ _).filterMap _).subset hmem, h⟩
    refine ((hartIntcs_refuses 0 ((cpuNodes z).take numHarts)).bind
      (S := ∃ intc ∈ (cpuNodes z).filterMap Prod.snd, hasPhandle intc = false)
      fun intcs hintcs => ?_).mono ?_ fun _ => id
    · subst hintcs
      exact hknown.mono (or_iff_right_of_imp hinUse) fun _ => id
    · rw [IntcsRefused, and_iff_right (by omega), or_iff_right hlen]

/-- The refusals see of the harts what `_rewrite_cpus` keeps. -/
theorem CpusRewritten.intcsRefused (h : CpusRewritten numHarts y z) :
    IntcsRefused (cpuNodes z) numHarts ↔ IntcsRefused (cpuNodes y) numHarts := by
  have hlen : (cpuNodes z).length = (cpuNodes y).length := by
    rw [← List.length_map (f := Prod.snd), h.intcs, List.length_map]
  have hintcs : (cpuNodes z).filterMap Prod.snd = (cpuNodes y).filterMap Prod.snd := by
    have hsome := congrArg (List.filterMap id) h.intcs
    rwa [List.filterMap_map, List.filterMap_map, Function.id_comp] at hsome
  have hinUse : ∀ l : List (FdtNode × Option FdtNode), (∃ p ∈ l, isEnabledNode p.1 = false ∨ p.2 = none) ↔
      ∃ q ∈ l.map fun p => (isEnabledNode p.1, p.2), q.1 = false ∨ q.2 = none := fun l => by
    simp only [List.mem_map, exists_exists_and_eq_and]
  rw [IntcsRefused, IntcsRefused, hlen, hintcs, hinUse, hinUse, h.inUse]

/-- The steps for the harts refuse what does not suit them. -/
theorem deliverHarts_refuses (y : FdtNode) (numHarts : Option Nat) :
    RefusesIff (∃ n, numHarts = some n ∧ HartsRefused y n)
      (fun r => cellsUnder r.1 "reserved-memory" = cellsUnder y "reserved-memory" ∧
        plics r.1 = plics (sparesOff numHarts y)) (deliverHarts y numHarts) := by
  cases numHarts with
  | none => exact (RefusesIff.ok ⟨rfl, rfl⟩).mono (by simp) fun _ => id
  | some n =>
    have hlists := fun (z : FdtNode × List String) (hz : CpusRewritten n y z.1) =>
      ((rewriteIntcHartLists_refuses z.1 n).map (f := fun r => (r.1, z.2 ++ r.2))
        (Q := fun r => cellsUnder r.1 "reserved-memory" = cellsUnder y "reserved-memory" ∧
          plics r.1 = plics (sparesOff (some n) y))
        fun r hr => ⟨hr.1.trans hz.reserved, hr.2.trans hz.plics⟩).mono
        (and_congr_right fun _ => hz.intcsRefused) fun _ => id
    exact ((rewriteCpus_refuses y n).bind hlists).mono (by simp [HartsRefused]) fun _ => id

end Harts

/-! ## Reserved memory -/

section Reserved

variable {w node : FdtNode} {a s : Nat} {ranges : List (Nat × Nat)} {nodes : List FdtNode}

theorem flatMap_plicsOf_nil (h : ∀ node ∈ nodes, ∀ a s, plicsOf a s node = []) (a s : Nat) :
    nodes.flatMap (plicsOf a s) = [] :=
  List.flatMap_eq_nil_iff.mpr fun node hn => h node hn a s

theorem reservedNodes_ok (pyfdt : Pyfdt) (h : ∀ v ∈ ranges, cellsFor v.1 ≤ a ∧ cellsFor v.2 ≤ s) (index : Nat) :
    ∃ nodes, reservedNodes pyfdt a s index ranges = .ok nodes ∧ ∀ node ∈ nodes, ∀ a s, plicsOf a s node = [] := by
  induction ranges generalizing index with
  | nil => exact ⟨[], rfl, by simp⟩
  | cons v rest ih =>
    rw [List.forall_mem_cons] at h
    obtain ⟨words, hwords⟩ := regWords_ok h.1
    obtain ⟨nodes, hnodes, hnone⟩ := ih h.2 (index + 1)
    obtain ⟨base, size⟩ := v
    refine ⟨_, by rw [reservedNodes, hwords, hnodes]; rfl, ?_⟩
    rw [List.forall_mem_cons]
    exact ⟨fun a s => plicsOf_of_no_compatible rfl a s, hnone⟩

theorem named_nodes (nodes : List FdtNode) (name : String) :
    (nodes.map Sum.inr).findSome? (FdtItem.named name) = none := by
  simp [List.findSome?_eq_none_iff, FdtItem.named]

theorem filterMap_nodes (nodes : List FdtNode) :
    (nodes.map (Sum.inr : FdtNode → FdtItem)).filterMap Sum.getRight? = nodes := by
  rw [List.filterMap_map]
  exact List.filterMap_some

/-- Nothing is refused but a `/reserved-memory` with other cells. -/
theorem deliverReserved_refuses (pyfdt : Pyfdt) (w : FdtNode)
    (h : ∀ v ∈ ranges, cellsFor v.1 ≤ a ∧ cellsFor v.2 ≤ s) :
    RefusesIff (ReservedRefused w ranges a s) (fun v => plics v = plics w) (deliverReserved pyfdt ranges a s w) := by
  rw [deliverReserved]
  split_ifs with hranges
  · exact ⟨fun h => h.1 hranges, rfl⟩
  · rw [addReservedMemory]
    cases hnode : childNode w "reserved-memory" with
    | none =>
      obtain ⟨nodes, hnodes, hnone⟩ := reservedNodes_ok pyfdt h 0
      dsimp only
      rw [hnodes]
      have hno : ¬ ReservedRefused w ranges a s := by
        rintro ⟨_, node, hn, _⟩
        cases hn.symm.trans hnode
      refine ⟨hno, plics_append (fun a s => ?_) w⟩
      rw [plicsOf_of_no_compatible, FdtNode.subNodes, FdtNode.subdata_mk, List.filterMap_append, filterMap_nodes]
      · exact flatMap_plicsOf_nil hnone _ _
      · rw [nodeProperty, FdtNode.subdata_mk, List.findSome?_append, named_nodes, Option.or_none]
        rfl
    | some node =>
      obtain ⟨nodes, hnodes, hnone⟩ := reservedNodes_ok pyfdt h node.subNodes.length
      dsimp only
      rw [← addrCellsOf, ← sizeCellsOf]
      split_ifs with hcells
      · exact ⟨hranges, node, hnode, hcells⟩
      · rw [hnodes]
        refine ⟨?_, ?_⟩
        · rintro ⟨_, node', hn, hne⟩
          obtain rfl := Option.some.inj (hnode.symm.trans hn)
          exact hcells hne
        · refine plics_changeChild_keep fun c _ => ?_
          refine plicsOf_congr (fun name _ => ?_) fun a s => ?_
          · rw [nodeProperty, FdtNode.subdata_mk, List.findSome?_append, named_nodes, Option.or_none]
            rfl
          · rw [FdtNode.subNodes, FdtNode.subdata_mk, List.filterMap_append, filterMap_nodes, List.flatMap_append,
              flatMap_plicsOf_nil hnone, List.append_nil]
            rfl

end Reserved

/-! ## Chosen -/

/-- The result has `P` if the initramfs fits, and `struct.error` is let through if not. -/
def PacksInitrd {α : Type} (initrd : Option (Nat × Nat)) (P : α → Prop) : Except PyError α → Prop
  | .ok a => InitrdFits initrd ∧ P a
  | .error e => e = .structError ∧ ¬ InitrdFits initrd

section Chosen

variable {α β : Type} {c k w : FdtNode} {seed : List UInt8} {bootargs : Option String} {initrd : Option (Nat × Nat)}

theorem PacksInitrd.map {P : α → Prop} {Q : β → Prop} {r : Except PyError α} {f : α → β}
    (h : PacksInitrd initrd P r) (hf : ∀ a, P a → Q (f a)) :
    PacksInitrd initrd Q (r >>= fun a => Except.ok (f a)) := by
  cases r with
  | ok a => exact ⟨h.1, hf a h.2⟩
  | error e => exact h

/-- What is written into `/chosen` makes no PLIC. -/
def Unsought (c k : FdtNode) : Prop := AsSought c k ∧ k.subNodes = c.subNodes

theorem Unsought.setProperty {prop : FdtProperty} (h : prop.name ∉ sought) (hk : Unsought c k) :
    Unsought c (setProperty k prop) :=
  ⟨fun name hn => (AsSought.setProperty h k name hn).trans (hk.1 name hn), subNodes_setProperty.trans hk.2⟩

theorem setInitrd_packs (hk : Unsought c k) : PacksInitrd initrd (Unsought c) (setInitrd initrd k) := by
  cases initrd with
  | none => exact ⟨by simp [InitrdFits], hk⟩
  | some bounds =>
    obtain ⟨first, last⟩ := bounds
    rw [setInitrd, packQ, packQ]
    by_cases hfirst : first < 2 ^ 64
    · by_cases hlast : last < 2 ^ 64
      · rw [if_pos hfirst, if_pos hlast]
        refine ⟨?_, .setProperty (by simp [sought]) (.setProperty (by simp [sought]) hk)⟩
        rintro _ _ ⟨⟩
        exact ⟨hfirst, hlast⟩
      · rw [if_pos hfirst, if_neg hlast]
        exact ⟨rfl, fun h => hlast (h first last rfl).2⟩
    · rw [if_neg hfirst]
      exact ⟨rfl, fun h => hfirst (h first last rfl).1⟩

theorem fillChosen_packs (seed : List UInt8) (bootargs : Option String) (initrd : Option (Nat × Nat)) (c : FdtNode) :
    PacksInitrd initrd (Unsought c) (fillChosen seed bootargs initrd c) := by
  have hargs : Unsought c (setBootargs bootargs c) := by
    cases bootargs with
    | none => exact ⟨fun _ _ => rfl, rfl⟩
    | some args =>
      simp only [setBootargs]
      split_ifs
      · exact ⟨fun _ _ => rfl, rfl⟩
      · exact .setProperty (by simp [sought]) ⟨fun _ _ => rfl, rfl⟩
  exact setInitrd_packs (.setProperty (by simp [sought]) hargs)

theorem deliverChosen_packs (seed : List UInt8) (bootargs : Option String) (initrd : Option (Nat × Nat))
    (w : FdtNode) : PacksInitrd initrd (fun v => plics v = plics w) (deliverChosen seed bootargs initrd w) := by
  rw [deliverChosen]
  split_ifs with h
  · rw [rewriteChosen]
    cases hchosen : childNode w "chosen" with
    | none =>
      refine (fillChosen_packs seed bootargs initrd (.mk "chosen" [])).map fun k hk => plics_append (fun a s => ?_) w
      rw [plicsOf_of_no_compatible (hk.1 "compatible" (by simp [sought])), hk.2]
      rfl
    | some node =>
      refine (fillChosen_packs seed bootargs initrd node).map fun k hk => plics_changeChild_keep fun c hc => ?_
      obtain rfl := Option.some.inj (hchosen.symm.trans hc)
      exact plicsOf_congr hk.1 fun a s => by rw [hk.2]
  · refine ⟨?_, rfl⟩
    cases initrd with
    | none => simp [InitrdFits]
    | some bounds => exact absurd (.inr rfl) h

end Chosen

/-! ## Where the PLIC is found -/

/-- The site that a device added next to the node at this place finds. -/
def siteAt (addrCells sizeCells : Nat) (x : FdtNode) : List Nat → FdtNode → PlicSite
  | [], plic => ⟨addrCells, sizeCells, hasPhandle plic⟩
  | i :: path, plic =>
    ⟨addrCellsOf ((parentOf x (i :: path)).getD x), sizeCellsOf ((parentOf x (i :: path)).getD x), hasPhandle plic⟩

section Sites

variable {x sub n : FdtNode} {i : Nat} {path : List Nat}

mutual

theorem nodeAt_of_mem_iterNodes : ∀ x, ∀ r ∈ iterNodes x, nodeAt r.1 x = some r.2
  | .mk name items => by
    rw [iterNodes, List.forall_mem_cons]
    exact ⟨rfl, nodeAt_of_mem_iterItems name [] items⟩

theorem nodeAt_of_mem_iterItems (name : String) :
    ∀ (before items : List FdtItem), ∀ r ∈ iterItems before.length items,
      nodeAt r.1 (.mk name (before ++ items)) = some r.2
  | _, [] => by simp [iterItems]
  | before, .inl prop :: rest => by
    have hrest := nodeAt_of_mem_iterItems name (before ++ [.inl prop]) rest
    rwa [List.length_append, List.append_assoc] at hrest
  | before, .inr sub :: rest => by
    have hrest := nodeAt_of_mem_iterItems name (before ++ [.inr sub]) rest
    rw [List.length_append, List.append_assoc] at hrest
    rw [iterItems, List.forall_mem_append, List.forall_mem_map]
    refine ⟨fun r hr => ?_, hrest⟩
    rw [nodeAt, FdtNode.subdata_mk, List.getElem?_append_right le_rfl, Nat.sub_self]
    exact nodeAt_of_mem_iterNodes sub r hr

end

theorem nodeAt_dropLast (path : List Nat) (x : FdtNode) (h : nodeAt path x = some n) :
    ∃ parent, nodeAt path.dropLast x = some parent := by
  induction path generalizing x with
  | nil => exact ⟨n, h⟩
  | cons i path ih =>
    cases path with
    | nil => exact ⟨x, rfl⟩
    | cons j path =>
      rw [nodeAt] at h
      obtain ⟨sub, hsub, h⟩ := Option.bind_eq_some_iff.mp h
      obtain ⟨parent, hparent⟩ := ih sub h
      refine ⟨parent, ?_⟩
      rw [List.dropLast_cons_cons, nodeAt, hsub]
      exact hparent

theorem siteAt_cons (hsub : x.subdata[i]? = some (.inr sub)) (h : nodeAt path sub = some n) (a s : Nat) :
    siteAt a s x (i :: path) n = siteAt (addrCellsOf x) (sizeCellsOf x) sub path n := by
  cases path with
  | nil => rfl
  | cons j path =>
    obtain ⟨parent, hparent⟩ := nodeAt_dropLast (j :: path) sub h
    have hx : parentOf x (i :: j :: path) = some parent := by
      rw [parentOf, List.dropLast_cons_cons, nodeAt, hsub]
      exact hparent
    have hs : parentOf sub (j :: path) = some parent := hparent
    rw [siteAt, siteAt, hx, hs, Option.getD_some, Option.getD_some]

mutual

/-- The PLIC that is found is the first one. -/
theorem head?_plicsOf (a s : Nat) : ∀ x, (plicsOf a s x).head? =
    ((iterNodes x).find? fun r => isPlic r.2).map fun r => siteAt a s x r.1 r.2
  | .mk name items => by
    rw [plicsOf, iterNodes, List.find?_cons, plicHere]
    cases isPlic (.mk name items) with
    | true => rfl
    | false => exact head?_plicsIn a s name [] items

theorem head?_plicsIn (a s : Nat) (name : String) : ∀ before items : List FdtItem,
    (plicsIn (addrCellsOf (.mk name (before ++ items))) (sizeCellsOf (.mk name (before ++ items))) items).head? =
      ((iterItems before.length items).find? fun r => isPlic r.2).map fun r =>
        siteAt a s (.mk name (before ++ items)) r.1 r.2
  | _, [] => rfl
  | before, .inl prop :: rest => by
    have hrest := head?_plicsIn a s name (before ++ [.inl prop]) rest
    rwa [List.length_append, List.append_assoc] at hrest
  | before, .inr sub :: rest => by
    have hrest := head?_plicsIn a s name (before ++ [.inr sub]) rest
    rw [List.length_append, List.append_assoc] at hrest
    rw [plicsIn, iterItems, List.head?_append, List.find?_append, Option.map_or]
    congr 1
    rw [head?_plicsOf, List.find?_map, Option.map_map]
    refine Option.map_congr fun r hr => ?_
    refine (siteAt_cons ?_ (nodeAt_of_mem_iterNodes sub r (List.mem_of_find?_eq_some hr)) a s).symm
    rw [FdtNode.subdata_mk, List.getElem?_append_right le_rfl, Nat.sub_self]
    rfl

end

/-- What refuses a device at the first PLIC. -/
def SiteRefused (device : DtDeviceNode) : Option PlicSite → Prop
  | none => True
  | some site => site.addrCells < cellsFor device.region.base ∨ site.sizeCells < cellsFor device.region.size ∨
      site.phandle = false

theorem deviceRefused_iff (x : FdtNode) (device : DtDeviceNode) :
    DeviceRefused x device ↔ SiteRefused device (plics x).head? := by
  have hfind : findNode x COMPAT_PLIC = (iterNodes x).find? fun r => isPlic r.2 := rfl
  rw [DeviceRefused, plics, head?_plicsOf, hfind]
  cases (iterNodes x).find? fun r => isPlic r.2 with
  | none => rfl
  | some r =>
    obtain ⟨path, plic⟩ := r
    cases path <;> rfl

end Sites

/-! ## Devices -/

section Devices

variable {x v sub plic n : FdtNode} {f F : FdtNode → FdtNode} {i k : Nat} {path q : List Nat} {items : List FdtItem}
  {device : DtDeviceNode}

theorem AsSought.trans {c k l : FdtNode} (h : AsSought c k) (h' : AsSought k l) : AsSought c l :=
  fun name hn => (h' name hn).trans (h name hn)

theorem AsSought.modifyAt (h : ∀ c, AsSought c (f c)) (path : List Nat) (x : FdtNode) :
    AsSought x (modifyAt f path x) := by
  cases path with
  | nil => exact h x
  | cons i path => exact fun name _ => findSome?_modify i

/-- The nodes on the way to the one that is changed. -/
theorem nodeAt_modifyAt (h : ∀ c, AsSought c (f c)) (hq : q <+: path) (hx : nodeAt q x = some n) :
    ∃ k, nodeAt q (modifyAt f path x) = some k ∧ AsSought n k := by
  induction q generalizing path x with
  | nil =>
    obtain rfl := Option.some.inj hx
    exact ⟨_, rfl, .modifyAt h path x⟩
  | cons i q ih =>
    obtain ⟨rest, rfl⟩ := hq
    rw [nodeAt] at hx
    obtain ⟨sub, hsub, hx⟩ := Option.bind_eq_some_iff.mp hx
    obtain ⟨item, hitem, hright⟩ := Option.bind_eq_some_iff.mp hsub
    rw [List.cons_append, nodeAt, modifyAt, FdtNode.subdata_mk, List.getElem?_modify_eq, hitem]
    cases item with
    | inl prop => cases hright
    | inr c =>
      obtain rfl := Option.some.inj hright
      exact ih (List.prefix_append q rest) hx

theorem iterItems_append (k : Nat) (items items' : List FdtItem) :
    iterItems k (items ++ items') = iterItems k items ++ iterItems (k + items.length) items' := by
  induction items generalizing k with
  | nil => rfl
  | cons item rest ih =>
    have hk : k + 1 + rest.length = k + (item :: rest).length := by
      rw [List.length_cons]
      omega
    cases item with
    | inl prop => rw [List.cons_append, iterItems, ih, iterItems, hk]
    | inr sub => rw [List.cons_append, iterItems, ih, iterItems, hk, List.append_assoc]

theorem head_of_mem_iterItems {r : List Nat × FdtNode} (h : r ∈ iterItems k items) : ∃ j q, k ≤ j ∧ r.1 = j :: q := by
  induction items generalizing k with
  | nil => cases h
  | cons item rest ih =>
    have hrest : r ∈ iterItems (k + 1) rest → ∃ j q, k ≤ j ∧ r.1 = j :: q := fun h => by
      obtain ⟨j, q, hj, hr⟩ := ih h
      exact ⟨j, q, by omega, hr⟩
    cases item with
    | inl prop => exact hrest h
    | inr sub =>
      rw [iterItems, List.mem_append, List.mem_map] at h
      obtain ⟨r', _, rfl⟩ | h := h
      · exact ⟨k, r'.1, le_rfl, rfl⟩
      · exact hrest h

/-- The PLIC stays the first one when the item it is in is changed. -/
theorem find?_iterItems_modify
    (h : (iterItems k items).find? (fun r => isPlic r.2) = some ((k + i) :: q, plic))
    (hF : ∀ sub, (iterNodes sub).find? (fun r => isPlic r.2) = some (q, plic) →
      ∃ plic', (iterNodes (F sub)).find? (fun r => isPlic r.2) = some (q, plic') ∧ AsSought plic plic') :
    ∃ plic', (iterItems k (items.modify i (Sum.map id F))).find? (fun r => isPlic r.2) = some ((k + i) :: q, plic') ∧
      AsSought plic plic' := by
  induction items generalizing k i with
  | nil => cases h
  | cons item rest ih =>
    have hlater : (iterItems (k + 1) rest).find? (fun r => isPlic r.2) = some ((k + i) :: q, plic) →
        ∃ i', i = i' + 1 ∧ k + 1 + i' = k + i := fun h => by
      obtain ⟨j, q', hj, hr⟩ := head_of_mem_iterItems (List.mem_of_find?_eq_some h)
      obtain ⟨rfl, -⟩ := List.cons.inj hr
      exact ⟨i - 1, by omega, by omega⟩
    cases item with
    | inl prop =>
      obtain ⟨i', rfl, hi⟩ := hlater h
      rw [List.modify_succ_cons, iterItems, ← hi]
      rw [iterItems, ← hi] at h
      exact ih h
    | inr sub =>
      have hmap : ∀ l : List (List Nat × FdtNode), (l.map fun p => (k :: p.1, p.2)).find? (fun r => isPlic r.2) =
          (l.find? fun r => isPlic r.2).map fun p => (k :: p.1, p.2) := fun l => List.find?_map
      rw [iterItems, List.find?_append, hmap] at h
      cases hsub : (iterNodes sub).find? (fun r => isPlic r.2) with
      | some r =>
        obtain ⟨path, found⟩ := r
        rw [hsub] at h
        simp only [Option.map_some, Option.some_or, Option.some.injEq, Prod.mk.injEq, List.cons.injEq] at h
        obtain ⟨⟨hi, rfl⟩, rfl⟩ := h
        obtain rfl : i = 0 := by omega
        obtain ⟨plic', hplic, hsought⟩ := hF sub hsub
        refine ⟨plic', ?_, hsought⟩
        rw [List.modify_zero_cons, Sum.map_inr, iterItems, List.find?_append, hmap, hplic]
        rfl
      | none =>
        rw [hsub, Option.map_none, Option.none_or] at h
        obtain ⟨i', rfl, hi⟩ := hlater h
        rw [← hi] at h ⊢
        obtain ⟨plic', hplic, hsought⟩ := ih h
        refine ⟨plic', ?_, hsought⟩
        rw [List.modify_succ_cons, iterItems, List.find?_append, hmap, hsub]
        exact hplic

theorem find?_iterNodes (x : FdtNode) : (iterNodes x).find? (fun r => isPlic r.2) =
    if isPlic x = true then some ([], x) else (iterItems 0 x.subdata).find? fun r => isPlic r.2 := by
  cases x with
  | mk name items =>
    rw [iterNodes, List.find?_cons]
    cases isPlic (.mk name items) <;> rfl

theorem find?_iterNodes_nil (h : (iterNodes x).find? (fun r => isPlic r.2) = some ([], plic)) :
    isPlic x = true ∧ x = plic := by
  rw [find?_iterNodes] at h
  split_ifs at h with hplic
  · exact ⟨hplic, (Prod.mk.inj (Option.some.inj h)).2⟩
  · obtain ⟨j, q, -, hr⟩ := head_of_mem_iterItems (List.mem_of_find?_eq_some h)
    cases hr

theorem find?_iterNodes_cons (h : (iterNodes x).find? (fun r => isPlic r.2) = some (i :: path, plic)) :
    ¬ isPlic x = true ∧ (iterItems 0 x.subdata).find? (fun r => isPlic r.2) = some (i :: path, plic) := by
  rw [find?_iterNodes] at h
  split_ifs at h with hplic
  · cases h
  · exact ⟨hplic, h⟩

/-- What becomes of the node at this place, and of the one that holds it, for a device next to it. -/
def beside (f : FdtNode → FdtNode) (sub : FdtNode) (path : List Nat) (x : FdtNode) : FdtNode :=
  modifyAt f path (modifyAt (·.append (.inr sub)) path.dropLast x)

theorem beside_asSought (hf : ∀ c, AsSought c (f c)) (sub : FdtNode) (path : List Nat) (x : FdtNode) :
    AsSought x (beside f sub path x) :=
  .trans (.modifyAt (fun _ _ _ => nodeProperty_append_node sub) path.dropLast x) (.modifyAt hf path _)

/-- The first PLIC stays where it is. -/
theorem find?_beside (hf : ∀ c, AsSought c (f c)) (sub : FdtNode)
    (hx : (iterNodes x).find? (fun r => isPlic r.2) = some (path, plic)) :
    ∃ plic', (iterNodes (beside f sub path x)).find? (fun r => isPlic r.2) = some (path, plic') ∧
      AsSought plic plic' := by
  have hsought := beside_asSought hf sub path x
  induction path generalizing x with
  | nil =>
    obtain ⟨hplic, rfl⟩ := find?_iterNodes_nil hx
    exact ⟨_, by rw [find?_iterNodes, if_pos (hsought.isPlic.trans hplic)], hsought⟩
  | cons i path ih =>
    obtain ⟨hplic, hitems⟩ := find?_iterNodes_cons hx
    rw [find?_iterNodes, if_neg (by rwa [hsought.isPlic])]
    rw [← Nat.zero_add i] at hitems
    cases path with
    | nil =>
      have happend : (iterItems 0 (x.subdata ++ [.inr sub])).find? (fun r => isPlic r.2) = some ([0 + i], plic) := by
        rw [iterItems_append, List.find?_append, hitems]
        rfl
      have hmodify := find?_iterItems_modify (F := f) happend fun c hc => by
        obtain ⟨hplic', rfl⟩ := find?_iterNodes_nil hc
        exact ⟨f c, by rw [find?_iterNodes, if_pos ((hf c).isPlic.trans hplic')], hf c⟩
      rwa [Nat.zero_add] at hmodify
    | cons j path =>
      have hmodify := find?_iterItems_modify hitems (F := beside f sub (j :: path)) fun c hc =>
        ih hc (beside_asSought hf sub _ c)
      rw [Nat.zero_add] at hmodify
      have hsub : (beside f sub (i :: j :: path) x).subdata =
          x.subdata.modify i (Sum.map id (beside f sub (j :: path))) := by
        rw [beside, List.dropLast_cons_cons, modifyAt, modifyAt, FdtNode.subdata_mk, FdtNode.subdata_mk,
          List.modify_modify_eq, Sum.map_comp_map]
        rfl
      rwa [hsub]

theorem raisePlicNdev_sought (irq : Nat) (c : FdtNode) : AsSought c (raisePlicNdev irq c) := by
  rw [raisePlicNdev]
  split_ifs
  · exact .setProperty (by simp [sought]) c
  · exact fun _ _ => rfl

/-- The parent of the PLIC keeps its cells. -/
theorem parentOf_beside (hf : ∀ c, AsSought c (f c)) (sub : FdtNode) (hx : nodeAt path x = some plic) :
    AsSought ((parentOf x path).getD x) ((parentOf (beside f sub path x) path).getD (beside f sub path x)) := by
  cases path with
  | nil => exact beside_asSought hf sub [] x
  | cons i path =>
    obtain ⟨parent, hparent⟩ := nodeAt_dropLast (i :: path) x hx
    obtain ⟨parent', hparent', happend⟩ := nodeAt_modifyAt (f := (·.append (.inr sub)))
      (fun _ _ _ => nodeProperty_append_node sub) List.prefix_rfl hparent
    obtain ⟨parent'', hparent'', hchange⟩ := nodeAt_modifyAt hf (List.dropLast_prefix (i :: path)) hparent'
    rw [parentOf, parentOf, beside, hparent, hparent'', Option.getD_some, Option.getD_some]
    exact happend.trans hchange

theorem addDeviceNode_refuses (v : FdtNode) (device : DtDeviceNode) :
    RefusesIff (DeviceRefused v device) (fun v' => ∀ d, DeviceRefused v' d ↔ DeviceRefused v d)
      (addDeviceNode v device) := by
  rw [addDeviceNode, DeviceRefused]
  cases hplic : findNode v COMPAT_PLIC with
  | none => trivial
  | some r =>
    obtain ⟨path, plic⟩ := r
    dsimp only
    have hkept : ∀ sub d, DeviceRefused (beside (raisePlicNdev device.irq) sub path v) d ↔ DeviceRefused v d := by
      intro sub d
      have hsought := raisePlicNdev_sought device.irq
      obtain ⟨plic', hplic', hphandle⟩ := find?_beside hsought sub hplic
      have hfind : findNode (beside (raisePlicNdev device.irq) sub path v) COMPAT_PLIC = some (path, plic') := hplic'
      have hparent := parentOf_beside hsought sub
        (nodeAt_of_mem_iterNodes v _ (List.mem_of_find?_eq_some hplic))
      rw [DeviceRefused, hfind, DeviceRefused, hplic]
      dsimp only
      rw [hparent.cells.1, hparent.cells.2, hphandle.hasPhandle]
    refine ((regWords_refuses _ _ _ _).bind fun reg _ => (phandleOf_refuses plic).map fun phandle _ =>
      hkept _).mono or_assoc fun _ => id

/-- The devices are refused by what the tree is before any of them is added. -/
theorem addDevices_refuse (v : FdtNode) (devices : List DtDeviceNode) :
    RefusesIff (∃ device ∈ devices, DeviceRefused v device) (fun _ => True) (devices.foldlM addDeviceNode v) := by
  induction devices generalizing v with
  | nil => exact (RefusesIff.ok trivial).mono (by simp) fun _ => id
  | cons device rest ih =>
    rw [List.foldlM_cons]
    refine ((addDeviceNode_refuses v device).bind (S := ∃ d ∈ rest, DeviceRefused v d) fun v' hv =>
      (ih v').mono ?_ fun _ => id).mono ?_ fun _ => id
    · simp only [hv]
    · simp

end Devices

/-! ## The steps in a row -/

/-- How the steps end, with the initramfs written after `early` and before `late` is refused. -/
def Ends {α : Type} (early fits late : Prop) : Except PyError α → Prop
  | .ok _ => ¬ early ∧ fits ∧ ¬ late
  | .error (.valueError _) => early ∨ fits ∧ late
  | .error .structError => ¬ early ∧ ¬ fits
  | .error .zeroDivisionError => False

section Ending

variable {α β : Type} {early fits late R : Prop} {P : α → Prop} {Q : β → Prop} {r : Except PyError α}
  {f : α → Except PyError β} {initrd : Option (Nat × Nat)} {x y : FdtNode} {name : String} {delivered : DeliveredTree}
  {a s : Nat}

theorem PacksInitrd.ends (h : PacksInitrd initrd P r) (hf : ∀ a, P a → RefusesIff late Q (f a)) :
    Ends False (InitrdFits initrd) late (r >>= f) := by
  cases r with
  | error e =>
    obtain ⟨rfl, hfits⟩ := h
    exact ⟨not_false, hfits⟩
  | ok a =>
    have hlate := hf a h.2
    change Ends _ _ _ (f a)
    cases hfa : f a with
    | ok b =>
      rw [hfa] at hlate
      exact ⟨not_false, h.1, hlate.1⟩
    | error e =>
      rw [hfa] at hlate
      cases e with
      | valueError message => exact .inr ⟨h.1, hlate⟩
      | zeroDivisionError => exact hlate.elim
      | structError => exact hlate.elim

theorem RefusesIff.ends (h : RefusesIff R P r) (hf : ∀ a, P a → Ends early fits late (f a)) :
    Ends (R ∨ early) fits late (r >>= f) := by
  cases r with
  | error e =>
    cases e with
    | valueError message => exact .inl (.inl h)
    | zeroDivisionError => exact h.elim
    | structError => exact h.elim
  | ok a =>
    have hlater := hf a h.2
    rw [← or_iff_right h.1 (b := early)] at hlater
    exact hlater

/-- The cells of a node under the root, whichever node it is. -/
theorem exists_childNode_iff (x : FdtNode) (name : String) {P : Nat × Nat → Prop} :
    (∃ c, childNode x name = some c ∧ P (addrCellsOf c, sizeCellsOf c)) ↔
      ∃ cells, cellsUnder x name = some cells ∧ P cells := by
  rw [cellsUnder]
  cases childNode x name <;> simp

theorem Alike.hartsRefused (h : Alike x y) (numHarts : Nat) : HartsRefused y numHarts ↔ HartsRefused x numHarts := by
  have hcells := fun z => exists_childNode_iff z "cpus"
    (P := fun cells => ∃ index < min numHarts (cpuNodes x).length, cells.1 < cellsFor index)
  rw [HartsRefused, HartsRefused, h.cpus, hcells, hcells, h.cells "cpus" (.inl rfl)]

theorem reservedRefused_congr (h : cellsUnder y "reserved-memory" = cellsUnder x "reserved-memory")
    (ranges : List (Nat × Nat)) (a s : Nat) : ReservedRefused y ranges a s ↔ ReservedRefused x ranges a s := by
  have hcells := fun z => exists_childNode_iff z "reserved-memory" (P := fun cells => cells ≠ (a, s))
  rw [ReservedRefused, ReservedRefused, hcells, hcells, h]

theorem Alike.earlyRefused (h : Alike x y) : EarlyRefused y delivered a s ↔ EarlyRefused x delivered a s := by
  simp only [EarlyRefused, h.hartsRefused, reservedRefused_congr (h.cells "reserved-memory" (.inr rfl))]

theorem lateRefused_congr (h : plics y = plics (sparesOff delivered.numHarts x)) :
    (∃ device ∈ delivered.devices, DeviceRefused y device) ↔ LateRefused x delivered := by
  simp only [LateRefused, deviceRefused_iff, h]

theorem Alike.lateRefused (h : Alike x y) : LateRefused y delivered ↔ LateRefused x delivered :=
  lateRefused_congr (h.plics delivered.numHarts)

/-- What the later steps raise is read off the tree before the first of them. -/
theorem deliver_ends (pyfdt : Pyfdt) (seed : List UInt8) (x : FdtNode)
    (hreserved : ∀ v ∈ delivered.reservedRanges, cellsFor v.1 ≤ a ∧ cellsFor v.2 ≤ s)
    (hram : ∀ r, delivered.ram = some r → cellsFor r.base ≤ a ∧ cellsFor r.size ≤ s) :
    Ends (EarlyRefused x delivered a s) (InitrdFits delivered.initrd) (LateRefused x delivered)
      (deliver pyfdt seed delivered a s x) := by
  obtain ⟨y, hy, halike⟩ := deliverRam_alike x hram
  rw [deliver, hy, ← halike.earlyRefused, ← halike.lateRefused]
  refine (deliverHarts_refuses y delivered.numHarts).ends fun z hz => ?_
  rw [← reservedRefused_congr hz.1, ← or_false (ReservedRefused _ _ _ _)]
  refine (deliverReserved_refuses pyfdt z.1 hreserved).ends fun w hw => ?_
  refine (deliverChosen_packs seed delivered.bootargs delivered.initrd w).ends (Q := fun _ => True) fun v hv => ?_
  refine ((addDevices_refuse v delivered.devices).map (f := fun root => (root, z.2)) fun _ => id).mono ?_ fun _ => id
  exact lateRefused_congr (hv.trans (hw.trans hz.2))

end Ending

end Pyremu.DevTree
