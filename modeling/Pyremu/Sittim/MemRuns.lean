import Mathlib.Logic.Relation
import Pyremu.Sittim.Reclass

/-!
# Runs of memory calls

Whatever a memory call is asked for, it changes the page tables by the four
operations on entries alone. What these keep, a call keeps, and a run keeps.
-/

namespace Pyremu.Sittim

/-- The second address space comes from the first by operations on entries. -/
inductive Rebuilt (M : Manager) (s : Space) : Space → Prop where
  | refl : Rebuilt M s s
  | map {s' : Space} (h : Rebuilt M s s') (va pa flags : Word) (level : Nat)
      (hlevel : level = LEVEL_PAGE ∨ level = LEVEL_MEGA ∧ 2097152 ∣ pa.toNat) (hflags : UsableFlags flags) :
      Rebuilt M s (s'.mapPage M va pa flags level).1
  | unmap {s' : Space} (h : Rebuilt M s s') (va : Word) (level : Nat) (hl : level ≤ 2) :
      Rebuilt M s (s'.unmapPage M va level).1
  | reflag {s' : Space} (h : Rebuilt M s s') (va flags : Word) (hflags : UsableFlags flags) :
      Rebuilt M s (s'.setLeafFlags M va flags).1
  | split {s' : Space} (h : Rebuilt M s s') (va : Word) : Rebuilt M s (s'.splitMegaLeaf M va).1

namespace Rebuilt

variable {M : Manager} {s s' s'' : Space}

theorem trans (h : Rebuilt M s s') (h' : Rebuilt M s' s'') : Rebuilt M s s'' := by
  induction h' with
  | refl => exact h
  | map _ va pa flags level hlevel hflags ih => exact ih.map va pa flags level hlevel hflags
  | unmap _ va level hl ih => exact ih.unmap va level hl
  | reflag _ va flags hflags ih => exact ih.reflag va flags hflags
  | split _ va ih => exact ih.split va

theorem of_eq (h : s' = s) : Rebuilt M s s' := by
  rw [h]
  exact refl

end Rebuilt

/-! ## What the operations keep -/

namespace Space

variable {M : Manager} {s s' : Space}

theorem MegaAligned.clear (hal : s.MegaAligned) {va : Word} {level : Nat} (hl : level ≤ 2)
    (hva : isCanonicalVa va = true) (h : Changes M (tablesFrom s.root) s s' va level fun _ => none) :
    s'.MegaAligned := by
  intro v e hv
  rw [leafAt_changes h hl hva] at hv
  split at hv
  · cases hv
  · exact hal v e hv

/-- An address space that is used as the system calls use it. -/
structure Sound (M : Manager) (s : Space) : Prop where
  wellFormed : s.WellFormed M
  aligned : s.MegaAligned

theorem sound_empty (M : Manager) : (empty M).Sound M := ⟨wellFormed_empty M, megaAligned_empty M⟩

theorem Sound.grows (hs : s.Sound M) (h : Grows M (tablesFrom s.root) s s') : s'.Sound M := by
  constructor
  · exact WellFormed.grows h
  · intro v e hv
    rw [leafAt_grows h] at hv
    exact hs.aligned v e hv

theorem Sound.unmapPage (hs : s.Sound M) (va : Word) {level : Nat} (hl : level ≤ 2) :
    (s.unmapPage M va level).1.Sound M := by
  have hspec := unmapPage_spec hs.wellFormed hl (through_tablesFrom s.root va)
  split at hspec
  · exact ⟨WellFormed.changes hspec.2, hs.aligned.clear hl hspec.1 hspec.2⟩
  · rw [hspec]
    exact hs

theorem Sound.setLeafFlags (hs : s.Sound M) (va : Word) {flags : Word} (hflags : UsableFlags flags) :
    (s.setLeafFlags M va flags).1.Sound M := by
  have hspec := setLeafFlags_spec hs.wellFormed (through_tablesFrom s.root va) hflags
  split at hspec
  · obtain ⟨hcan, level, e, hleaf, hlevel, hchanges⟩ := hspec
    have hat : s.leafAt va = some (level, e) := by rw [leafAt, if_pos hcan, hleaf]
    exact ⟨WellFormed.changes hchanges,
      setLeafFlags_megaAligned hs.wellFormed hs.aligned hflags hat hlevel⟩
  · rw [hspec]
    exact hs

theorem Sound.splitMegaLeaf (hs : s.Sound M) (va : Word) : (s.splitMegaLeaf M va).1.Sound M := by
  rcases splitMegaLeaf_spec hs.wellFormed (through_tablesFrom s.root va) with
    ⟨hsame, _⟩ | ⟨htrue, hcan, e, hleaf, hchanges⟩
  · rw [hsame]
    exact hs
  · have hat : s.leafAt va = some (LEVEL_MEGA, e) := by rw [leafAt, if_pos hcan, hleaf]
    exact ⟨WellFormed.changes hchanges,
      splitMegaLeaf_megaAligned hs.wellFormed hs.aligned hat htrue⟩

theorem Sound.rebuilt (hs : s.Sound M) (h : Rebuilt M s s') : s'.Sound M := by
  induction h with
  | refl => exact hs
  | map _ va pa flags level hlevel hflags ih =>
    have hl : level ≤ 2 := by
      rcases hlevel with rfl | ⟨rfl, _⟩
      · exact le_rfl
      · decide
    constructor
    · exact ih.wellFormed.mapPage hl hflags
    · apply ih.aligned.mapPage ih.wellFormed hl hflags
      rintro rfl
      rcases hlevel with hpage | ⟨_, hpa⟩
      · cases hpage
      · exact hpa
  | unmap _ va level hl ih => exact ih.unmapPage va hl
  | reflag _ va flags hflags ih => exact ih.setLeafFlags va hflags
  | split _ va ih => exact ih.splitMegaLeaf va

end Space

/-! ## Flags -/

section Flags

variable {flags : Word}

theorem UsableFlags.or (h : UsableFlags flags) {f : Word} (hf : f.toNat < 2 ^ 10) :
    UsableFlags (flags ||| f) := by
  have hleaf : Pte.isLeaf flags = true := decide_eq_true h.2
  refine ⟨Pte.or_lt_flags h.1 hf, of_decide_eq_true ?_⟩
  show Pte.isLeaf (flags ||| f) = true
  rw [Pte.isLeaf_or, hleaf, Bool.true_or]

/-- The flags of a leaf make a leaf again. -/
theorem usableFlags_leaf {M : Manager} {s : Space} (hs : s.WellFormed M) {va : Word}
    (h : s.leafPteFlags va = some flags) : UsableFlags flags := by
  rw [Space.leafPteFlags_leafAt, Option.map_eq_some_iff] at h
  obtain ⟨⟨level, e⟩, hleaf, rfl⟩ := h
  have hbits : Pte.isLeaf e = true := hs.isLeaf (Space.leafAt_some hleaf).2
  refine ⟨Pte.and_lt_flags e (by decide), of_decide_eq_true ?_⟩
  show Pte.isLeaf (e &&& (0xff ||| PTE_RSW_MASK)) = true
  rw [Pte.isLeaf, BitVec.and_assoc]
  exact hbits

end Flags

namespace MemSys

variable {M : Manager} {s : MemSys} {flags : Word}

/-! ## Requests to M mode -/

theorem memAlloc_block (m : MMode) (n : Word) (attr : MemAttr) :
    2097152 ∣ (m.memAlloc n attr).2.2.toNat := by
  rw [MMode.memAlloc]
  split
  · exact Nat.dvd_zero _
  · split
    · rw [BitVec.toNat_ofNat]
      exact (Nat.dvd_mod_iff (by decide)).mpr (Nat.dvd_mul_left _ _)
    · exact Nat.dvd_zero _

theorem allocAdjacentPages_space (s : MemSys) (pages : Word) (attr : MemAttr) :
    (s.allocAdjacentPages pages attr).1.space = s.space := by
  simp only [allocAdjacentPages]
  split <;> rfl

theorem setPartitionAttr_space (s : MemSys) (pa bytes : Word) (attr : MemAttr) :
    (s.setPartitionAttr M pa bytes attr).1.space = s.space := by
  simp only [setPartitionAttr]
  split
  · rfl
  · split
    · rfl
    · split <;> rfl

theorem changeCovered_space {attr : MemAttr} {stop : Word} (n : Nat) (s : MemSys) (va : Word) :
    (changeCovered M attr stop n s va).1.space = s.space := by
  induction n generalizing s va with
  | zero => rfl
  | succ n ih =>
    rw [changeCovered]
    split
    · cases s.space.getPa va with
      | none => rfl
      | some pa =>
        dsimp only
        have hset := setPartitionAttr_space (M := M) s pa CHUNK_2M_SIZE attr
        generalize s.setPartitionAttr M pa CHUNK_2M_SIZE attr = r at hset ⊢
        obtain ⟨s', _ | _⟩ := r
        · exact hset
        · exact (ih s' _).trans hset
    · rfl

theorem reclassCoveredPartitions_space (s : MemSys) (start stop : Word) (attr : MemAttr) :
    (s.reclassCoveredPartitions M start stop attr).1.space = s.space := by
  simp only [reclassCoveredPartitions]
  split
  · rfl
  · exact changeCovered_space _ s start

/-! ## Mapping ranges -/

theorem mapPagesAt_rebuilt (va pa : Word) (hflags : UsableFlags flags) (n i : Nat) (s : MemSys) :
    Rebuilt M s.space (s.mapPagesAt M va pa flags i n).1.space := by
  induction n generalizing i s with
  | zero => exact .refl
  | succ n ih =>
    have hmap : Rebuilt M s.space (s.space.mapPage M (va + BitVec.ofNat 64 i * PAGE_SIZE)
        (pa + BitVec.ofNat 64 i * PAGE_SIZE) flags LEVEL_PAGE).1 := Rebuilt.refl.map _ _ _ _ (.inl rfl) hflags
    rw [mapPagesAt]
    generalize s.space.mapPage M (va + BitVec.ofNat 64 i * PAGE_SIZE)
      (pa + BitVec.ofNat 64 i * PAGE_SIZE) flags LEVEL_PAGE = r at hmap ⊢
    obtain ⟨space, _ | _⟩ := r
    · exact hmap
    · exact hmap.trans (ih (i + 1) { s with space := space })

theorem mapUmodePages_rebuilt (s : MemSys) (va pages : Word) (hflags : UsableFlags flags) :
    Rebuilt M s.space (s.mapUmodePages M va pages flags).1.space := by
  rw [mapUmodePages]
  split
  · exact .refl
  · have halloc := allocAdjacentPages_space s pages .data
    generalize s.allocAdjacentPages pages .data = r at halloc ⊢
    obtain ⟨s', _ | pa⟩ := r
    · exact .of_eq halloc
    · rw [← show s'.space = s.space from halloc]
      apply mapPagesAt_rebuilt
      split
      · exact (hflags.or (by decide)).or (by decide)
      · exact hflags

theorem aliasFrom_rebuilt (srcVa dstVa : Word) (hflags : UsableFlags flags) (n i : Nat) (s : MemSys) :
    Rebuilt M s.space (s.aliasFrom M srcVa dstVa flags i n).1.space := by
  induction n generalizing i s with
  | zero => exact .refl
  | succ n ih =>
    rw [aliasFrom]
    cases hpa : s.space.getPa (srcVa + BitVec.ofNat 64 i * PAGE_SIZE) with
    | none => exact .refl
    | some pa =>
      have hmap : Rebuilt M s.space (s.space.mapPage M (dstVa + BitVec.ofNat 64 i * PAGE_SIZE) pa flags
          LEVEL_PAGE).1 := Rebuilt.refl.map _ _ _ _ (.inl rfl) hflags
      dsimp only
      generalize s.space.mapPage M (dstVa + BitVec.ofNat 64 i * PAGE_SIZE) pa flags LEVEL_PAGE = r at hmap ⊢
      obtain ⟨space, _ | _⟩ := r
      · exact hmap
      · exact hmap.trans (ih (i + 1) { s with space := space })

theorem aliasUmodePages_rebuilt (s : MemSys) (srcVa dstVa pages : Word) (hflags : UsableFlags flags) :
    Rebuilt M s.space (s.aliasUmodePages M srcVa dstVa pages flags).1.space := by
  rw [aliasUmodePages]
  split
  · exact .refl
  · exact aliasFrom_rebuilt srcVa dstVa hflags _ 0 s

/-- A round of growth stops for want of a partition or of a table page, or maps one block. -/
theorem growFrom_cases {upTo va : Word} (n : Nat) (s : MemSys) (hlt : va < upTo) :
    ∃ m granted pa, s.mmode.memAlloc 1 (attrOfPteFlags flags) = (m, granted, pa) ∧
      (granted = 0 ∧ growFrom M flags upTo (n + 1) s va = ({ s with mmode := m }, va) ∨
        granted ≠ 0 ∧ ∃ space r, s.space.mapPage M va pa flags LEVEL_MEGA = (space, r) ∧
          ((∃ err, r = .error err ∧
              growFrom M flags upTo (n + 1) s va = ({ s with mmode := m, space := space }, va)) ∨
            ∃ u, r = .ok u ∧
              growFrom M flags upTo (n + 1) s va =
                growFrom M flags upTo n { s with mmode := m, space := space } (va + CHUNK_2M_SIZE))) := by
  rw [growFrom, if_pos hlt]
  generalize s.mmode.memAlloc 1 (attrOfPteFlags flags) = a
  obtain ⟨m, granted, pa⟩ := a
  refine ⟨m, granted, pa, rfl, ?_⟩
  by_cases hzero : granted = 0
  · exact .inl ⟨hzero, if_pos hzero⟩
  · right
    simp only [if_neg hzero, onSpace]
    generalize s.space.mapPage M va pa flags LEVEL_MEGA = r
    obtain ⟨space, err | u⟩ := r
    · exact ⟨hzero, space, _, rfl, .inl ⟨err, rfl, rfl⟩⟩
    · exact ⟨hzero, space, _, rfl, .inr ⟨u, rfl, rfl⟩⟩

theorem growFrom_done {upTo va : Word} (n : Nat) (s : MemSys) (h : ¬ va < upTo) :
    growFrom M flags upTo n s va = (s, va) := by
  cases n with
  | zero => rfl
  | succ n => rw [growFrom, if_neg h]

theorem growFrom_rebuilt (upTo : Word) (hflags : UsableFlags flags) (n : Nat) (s : MemSys) (va : Word) :
    Rebuilt M s.space (growFrom M flags upTo n s va).1.space := by
  induction n generalizing s va with
  | zero => exact .refl
  | succ n ih =>
    by_cases hlt : va < upTo
    · obtain ⟨m, granted, pa, halloc, hround⟩ := @growFrom_cases M flags _ _ n s hlt
      have hblock : 2097152 ∣ pa.toNat := by
        have hblock := memAlloc_block s.mmode 1 (attrOfPteFlags flags)
        rwa [halloc] at hblock
      have hmap : Rebuilt M s.space (s.space.mapPage M va pa flags LEVEL_MEGA).1 :=
        Rebuilt.refl.map _ _ _ _ (.inr ⟨rfl, hblock⟩) hflags
      rcases hround with ⟨_, heq⟩ | ⟨_, space, r, hr, ⟨err, _, heq⟩ | ⟨u, _, heq⟩⟩
      · rw [heq]
        exact .refl
      · rw [hr] at hmap
        rw [heq]
        exact hmap
      · rw [hr] at hmap
        rw [heq]
        exact hmap.trans (ih { s with mmode := m, space := space } _)
    · rw [growFrom_done _ s hlt]
      exact .refl

theorem growUmodeVa_rebuilt (s : MemSys) (start upTo : Word) (hflags : UsableFlags flags) :
    Rebuilt M s.space (s.growUmodeVa M start upTo flags).1.space :=
  growFrom_rebuilt _ hflags _ s start

/-! ## The mapping region -/

theorem splitBlock_space (s : MemSys) (inBlock splitPa : Word) :
    (s.splitBlock inBlock splitPa).1.space = s.space := by
  rw [splitBlock]
  split
  · exact allocAdjacentPages_space s _ _
  · rfl

theorem carve_rebuilt (s : MemSys) (va pages done splitPa : Word) (hflags : UsableFlags flags) :
    Rebuilt M s.space (s.carve M va pages flags done splitPa).1.space := by
  have hspace := splitBlock_space s (s.ctx.mmapPagesUsed &&& (CHUNK_2M_PAGES - 1)) splitPa
  simp only [carve]
  generalize s.splitBlock (s.ctx.mmapPagesUsed &&& (CHUNK_2M_PAGES - 1)) splitPa = r at hspace ⊢
  obtain ⟨s', _ | block⟩ := r
  · exact .of_eq hspace
  · rw [← show s'.space = s.space from hspace]
    dsimp only
    generalize (if pages - done < CHUNK_2M_PAGES - (s.ctx.mmapPagesUsed &&& (CHUNK_2M_PAGES - 1)) then
      pages - done else CHUNK_2M_PAGES - (s.ctx.mmapPagesUsed &&& (CHUNK_2M_PAGES - 1))) = k
    have hmap := mapPagesAt_rebuilt (M := M) (va + done * PAGE_SIZE)
      (block + (s.ctx.mmapPagesUsed &&& (CHUNK_2M_PAGES - 1)) * PAGE_SIZE) hflags k.toNat 0 s'
    generalize s'.mapPagesAt M (va + done * PAGE_SIZE)
      (block + (s.ctx.mmapPagesUsed &&& (CHUNK_2M_PAGES - 1)) * PAGE_SIZE) flags 0 k.toNat = r at hmap ⊢
    obtain ⟨s'', _ | _⟩ := r <;> exact hmap

theorem takeFrom_rebuilt (va pages : Word) (hflags : UsableFlags flags) (n : Nat) (s : MemSys)
    (done splitPa : Word) : Rebuilt M s.space (takeFrom M va pages flags n s done splitPa).1.space := by
  induction n generalizing s done splitPa with
  | zero => exact .refl
  | succ n ih =>
    rw [takeFrom]
    split
    · have hcarve := carve_rebuilt (M := M) s va pages done splitPa hflags
      generalize s.carve M va pages flags done splitPa = r at hcarve ⊢
      obtain ⟨s', _ | ⟨k, block⟩⟩ := r
      · exact hcarve
      · exact hcarve.trans (ih s' _ _)
    · exact .refl

theorem takeInstrBlocks_rebuilt (s : MemSys) (pages aligned blocks : Word) (hflags : UsableFlags flags) :
    Rebuilt M s.space (s.takeInstrBlocks M pages aligned blocks flags).1.space := by
  rw [takeInstrBlocks]
  split
  · exact .refl
  · have halloc := allocAdjacentPages_space s (blocks * CHUNK_2M_PAGES) .data
    generalize s.allocAdjacentPages (blocks * CHUNK_2M_PAGES) .data = r at halloc ⊢
    obtain ⟨s', _ | pa⟩ := r
    · exact .of_eq halloc
    · rw [← show s'.space = s.space from halloc]
      have hmap := mapPagesAt_rebuilt (M := M) (mmapPageVa aligned) pa
        ((hflags.or (f := Pte.R) (by decide)).or (f := Pte.W) (by decide)) pages.toNat 0 s'
      dsimp only
      generalize s'.mapPagesAt M (mmapPageVa aligned) pa (flags ||| Pte.R ||| Pte.W) 0 pages.toNat = r
        at hmap ⊢
      obtain ⟨s'', _ | _⟩ := r <;> exact hmap

theorem takeWholeBlocks_rebuilt (s : MemSys) (aligned blocks : Word) (hflags : UsableFlags flags) :
    Rebuilt M s.space (s.takeWholeBlocks M aligned blocks flags).1.space := by
  rw [takeWholeBlocks]
  split
  · exact .refl
  · have hgrow := growUmodeVa_rebuilt (M := M) s (mmapPageVa aligned)
      (mmapPageVa aligned + blocks * CHUNK_2M_SIZE) hflags
    generalize s.growUmodeVa M (mmapPageVa aligned) (mmapPageVa aligned + blocks * CHUNK_2M_SIZE) flags = r
      at hgrow ⊢
    obtain ⟨s', got⟩ := r
    dsimp only
    split <;> exact hgrow

theorem takeSmall_rebuilt (s : MemSys) (pages : Word) (hflags : UsableFlags flags) :
    Rebuilt M s.space (s.takeSmall M pages flags).1.space := by
  rw [takeSmall]
  split
  · exact .refl
  · have htake := takeFrom_rebuilt (M := M) s.mmapRegionEnd pages hflags pages.toNat s 0 s.ctx.currMmapPa
    generalize takeFrom M s.mmapRegionEnd pages flags pages.toNat s 0 s.ctx.currMmapPa = r at htake ⊢
    obtain ⟨s', done⟩ := r
    dsimp only
    split <;> exact htake

theorem takeMmapRegion_rebuilt (s : MemSys) (bytes : Word) (hflags : UsableFlags flags) :
    Rebuilt M s.space (s.takeMmapRegion M bytes flags).1.space := by
  simp only [takeMmapRegion]
  split_ifs
  · exact .refl
  · exact takeInstrBlocks_rebuilt s _ _ _ hflags
  · exact takeWholeBlocks_rebuilt s _ _ hflags
  · exact takeSmall_rebuilt s _ hflags

theorem growMmapInPlace_rebuilt (s : MemSys) (addr oldSize newSize : Word) (hs : s.space.WellFormed M) :
    Rebuilt M s.space (s.growMmapInPlace M addr oldSize newSize).1.space := by
  simp only [growMmapInPlace]
  generalize alignUp (addr + oldSize) PAGE_SIZE = oldEnd
  generalize alignUp (addr + newSize) PAGE_SIZE = newEnd
  split
  · exact .refl
  · split
    · exact .refl
    · split
      · split
        · exact .refl
        · split <;> exact .refl
      · split
        · exact .refl
        · cases hf : s.space.leafPteFlags (oldEnd - PAGE_SIZE) with
          | none => exact .refl
          | some f =>
            have hmap := mapPagesAt_rebuilt (M := M) oldEnd
              (s.ctx.currMmapPa + (oldEnd - alignDown oldEnd CHUNK_2M_SIZE)) (usableFlags_leaf hs hf)
              ((newEnd - oldEnd) >>> PAGE_SHIFT).toNat 0 s
            dsimp only
            generalize s.mapPagesAt M oldEnd (s.ctx.currMmapPa + (oldEnd - alignDown oldEnd CHUNK_2M_SIZE)) f 0
              ((newEnd - oldEnd) >>> PAGE_SHIFT).toNat = r at hmap ⊢
            obtain ⟨s', _ | _⟩ := r <;> exact hmap

/-! ## The calls -/

theorem growHeap_rebuilt (s : MemSys) (needEnd : Word) :
    Rebuilt M s.space (s.growHeap M needEnd).1.space :=
  growUmodeVa_rebuilt s s.ctx.heapMappedEnd needEnd (by decide)

theorem sysBrkHandler_rebuilt (s : MemSys) (newBrk : Word) :
    Rebuilt M s.space (s.sysBrkHandler M newBrk).1.space := by
  rw [sysBrkHandler]
  split
  · exact .refl
  · split
    · exact .refl
    · split
      · exact .refl
      · split
        · have hgrow := growHeap_rebuilt (M := M) s (alignUp (alignUp newBrk PAGE_SIZE) CHUNK_2M_SIZE)
          generalize s.growHeap M (alignUp (alignUp newBrk PAGE_SIZE) CHUNK_2M_SIZE) = r at hgrow ⊢
          obtain ⟨s', _ | _⟩ := r <;> exact hgrow
        · exact .refl

theorem sealFrom_rebuilt (va : Word) (hflags : UsableFlags flags) (n i : Nat) (s : MemSys) :
    Rebuilt M s.space (s.sealFrom M va flags i n).1.space := by
  induction n generalizing i s with
  | zero => exact .refl
  | succ n ih =>
    have hset : Rebuilt M s.space (s.space.setLeafFlags M (va + BitVec.ofNat 64 i * PAGE_SIZE) flags).1 :=
      Rebuilt.refl.reflag _ _ hflags
    rw [sealFrom]
    generalize s.space.setLeafFlags M (va + BitVec.ofNat 64 i * PAGE_SIZE) flags = r at hset ⊢
    obtain ⟨space, _ | _⟩ := r
    · exact hset
    · exact hset.trans (ih (i + 1) { s with space := space })

theorem sealInstrMapping_rebuilt (s : MemSys) (va pages : Word) (hflags : UsableFlags flags) :
    Rebuilt M s.space (s.sealInstrMapping M va pages flags).1.space := by
  rw [sealInstrMapping]
  split
  · exact .refl
  · have hspace := reclassCoveredPartitions_space (M := M) s va (va + pages * PAGE_SIZE) .instr
    generalize s.reclassCoveredPartitions M va (va + pages * PAGE_SIZE) .instr = r at hspace ⊢
    obtain ⟨s', err⟩ := r
    rw [← show s'.space = s.space from hspace]
    dsimp only
    split
    · exact .refl
    · exact sealFrom_rebuilt va hflags _ 0 s'

theorem mmapHandler_rebuilt (s : MemSys) (addr len prot flags : Word) :
    Rebuilt M s.space (s.mmapHandler M addr len prot flags).1.space := by
  have hpte : UsableFlags (if flags &&& MAP_TYPE = MAP_SHARED then protToPte prot ||| PTE_RSW_SHARED
      else protToPte prot) := by
    split
    · exact (usableFlags_protToPte prot).or (by decide)
    · exact usableFlags_protToPte prot
  simp only [mmapHandler]
  generalize (if flags &&& MAP_TYPE = MAP_SHARED then protToPte prot ||| PTE_RSW_SHARED
    else protToPte prot) = pte at hpte ⊢
  generalize alignUp len PAGE_SIZE >>> PAGE_SHIFT = pages
  split_ifs
  · exact .refl
  · exact .refl
  · exact .refl
  · exact .refl
  · exact .refl
  · exact .refl
  · have hmap := mapUmodePages_rebuilt (M := M) s addr pages hpte
    generalize s.mapUmodePages M addr pages pte = r at hmap ⊢
    obtain ⟨s', _ | _⟩ := r
    · exact hmap
    · have hseal := sealInstrMapping_rebuilt (M := M) s' addr pages hpte
      dsimp only
      generalize s'.sealInstrMapping M addr pages pte = r at hseal ⊢
      obtain ⟨s'', _ | _⟩ := r <;> exact hmap.trans hseal
  · exact takeMmapRegion_rebuilt s (pages * PAGE_SIZE) hpte
  · have htake := takeMmapRegion_rebuilt (M := M) s (pages * PAGE_SIZE) hpte
    generalize s.takeMmapRegion M (pages * PAGE_SIZE) pte = r at htake ⊢
    obtain ⟨s', va⟩ := r
    have hseal := sealInstrMapping_rebuilt (M := M) s' va pages hpte
    dsimp only
    generalize s'.sealInstrMapping M va pages pte = r at hseal ⊢
    obtain ⟨s'', _ | _⟩ := r <;> exact htake.trans hseal

theorem unmapFrom_rebuilt {stop : Word} (n : Nat) (s : MemSys) (va : Word) :
    Rebuilt M s.space (unmapFrom M stop n s va).space := by
  induction n generalizing s va with
  | zero => exact .refl
  | succ n ih =>
    rw [unmapFrom_succ]
    split
    · refine Rebuilt.trans ?_ (ih _ _)
      rw [unmapAt]
      cases hlevel : s.space.vaRealPageLevel va with
      | none => exact .refl
      | some level =>
        rw [Space.vaRealPageLevel_leafAt, Option.map_eq_some_iff] at hlevel
        obtain ⟨⟨k, e⟩, hleaf, rfl⟩ := hlevel
        exact Rebuilt.refl.unmap va k (Space.level_le hleaf)
    · exact .refl

theorem munmapHandler_rebuilt (s : MemSys) (addr len : Word) :
    Rebuilt M s.space (s.munmapHandler M addr len).1.space := by
  rw [munmapHandler]
  split
  · exact .refl
  · split
    · exact .refl
    · exact unmapFrom_rebuilt _ s addr

theorem protectRound_rebuilt (start stop : Word) (hflags : UsableFlags flags) (s : MemSys) (va : Word) :
    match protectRound M start stop flags s va with
    | .inl next => Rebuilt M s.space next.1.space
    | .inr result => Rebuilt M s.space result.1.space := by
  have hset : Rebuilt M s.space (s.space.setLeafFlags M va flags).1 := Rebuilt.refl.reflag _ _ hflags
  have hsplit : Rebuilt M s.space (s.space.splitMegaLeaf M va).1 := Rebuilt.refl.split va
  rw [protectRound, onSpace, onSpace]
  by_cases hva : va < stop
  · rw [if_pos hva]
    generalize s.space.setLeafFlags M va flags = set at hset ⊢
    generalize s.space.splitMegaLeaf M va = split at hsplit ⊢
    generalize s.space.vaRealPageLevel va = level
    obtain ⟨s₁, set⟩ := set
    obtain ⟨s₂, split⟩ := split
    obtain _ | _ | _ | _ | level := level
    · exact .refl
    · exact .refl
    · by_cases hcover : start ≤ va &&& ~~~(CHUNK_2M_SIZE - 1) ∧
          stop ≥ (va &&& ~~~(CHUNK_2M_SIZE - 1)) + CHUNK_2M_SIZE
      · simp only [if_pos hcover]
        cases set <;> exact hset
      · simp only [if_neg hcover]
        cases split <;> exact hsplit
    · cases set <;> exact hset
    · exact .refl
  · rw [if_neg hva]
    exact .refl

theorem protectFrom_rebuilt {start stop : Word} (hflags : UsableFlags flags) (n : Nat) (s : MemSys)
    (va : Word) : Rebuilt M s.space (protectFrom M start stop flags n s va).1.space := by
  induction n generalizing s va with
  | zero => exact .refl
  | succ n ih =>
    have hround := protectRound_rebuilt (M := M) start stop hflags s va
    rw [protectFrom_succ]
    generalize protectRound M start stop flags s va = r at hround ⊢
    cases r with
    | inl next => exact hround.trans (ih next.1 next.2)
    | inr result => exact hround

theorem mprotectHandler_rebuilt (s : MemSys) (addr len prot : Word) :
    Rebuilt M s.space (s.mprotectHandler M addr len prot).1.space := by
  by_cases hargs : ProtectArgs addr len prot
  · rw [mprotectHandler_args hargs]
    generalize alignUp (addr + len) PAGE_SIZE = stop
    generalize 2 * pagesBetween addr stop = rounds
    split
    · split
      · exact .refl
      · have hspace := reclassCoveredPartitions_space (M := M) s addr stop (attrOfProt prot)
        generalize s.reclassCoveredPartitions M addr stop (attrOfProt prot) = r at hspace ⊢
        obtain ⟨s', err⟩ := r
        rw [← show s'.space = s.space from hspace]
        dsimp only
        split
        · exact .refl
        · exact protectFrom_rebuilt (usableFlags_protToPte prot) _ s' addr
    · exact protectFrom_rebuilt (usableFlags_protToPte prot) _ s addr
  · exact .of_eq (congrArg space (mprotectHandler_invalid hargs).1)

theorem mremapTarget_rebuilt (s : MemSys) (oldAddr newSize flags newAddr : Word) {f : Word}
    (hf : UsableFlags f) : Rebuilt M s.space (s.mremapTarget M oldAddr newSize flags newAddr f).1.space := by
  simp only [mremapTarget]
  split
  · dsimp only
    split
    · exact aliasUmodePages_rebuilt s oldAddr newAddr _ hf
    · exact mapUmodePages_rebuilt s newAddr _ hf
  · exact takeMmapRegion_rebuilt s newSize hf

/-- The flags that a mapping takes along when it moves. -/
def flagsFromSrc (s : MemSys) (oldAddr oldSize : Word) : Word :=
  (s.space.leafPteFlags (oldAddr + oldSize - PAGE_SIZE)).getD (Pte.U ||| Pte.V ||| Pte.R ||| Pte.W)

/-- The part of `mremap` behind the decision to move. -/
def moveMapping (M : Manager) (s : MemSys) (oldAddr oldSize newSize flags newAddr f : Word) : MemSys × Word :=
  match s.mremapTarget M oldAddr newSize flags newAddr f with
  | (s, none) => (s, ENOMEM)
  | (s, some dst) =>
    match (if decide (f &&& PTE_RSW_SHARED ≠ 0) && decide (flags &&& MREMAP_FIXED ≠ 0) then (s, true)
      else s.sealInstrMapping M dst (alignUp newSize PAGE_SIZE >>> PAGE_SHIFT) f) with
    | (s, false) => (s, ENOMEM)
    | (s, true) => if flags &&& MREMAP_FIXED = 0 then ((s.munmapHandler M oldAddr oldSize).1, dst) else (s, dst)

theorem mremapHandler_eq (s : MemSys) (oldAddr oldSize newSize flags newAddr : Word) :
    s.mremapHandler M oldAddr oldSize newSize flags newAddr =
      if checkMremapParams oldAddr oldSize newSize flags newAddr ≠ 0 then
        (s, checkMremapParams oldAddr oldSize newSize flags newAddr)
      else
        match (if flags &&& MREMAP_FIXED = 0 then s.growMmapInPlace M oldAddr oldSize newSize else (s, false)) with
        | (s, true) => (s, oldAddr)
        | (s, false) =>
          if flags &&& MREMAP_MAYMOVE = 0 then (s, ENOMEM)
          else s.moveMapping M oldAddr oldSize newSize flags newAddr (s.flagsFromSrc oldAddr oldSize) := by
  rw [mremapHandler]
  by_cases hparams : checkMremapParams oldAddr oldSize newSize flags newAddr ≠ 0
  · rw [if_pos hparams, if_pos hparams]
  · rw [if_neg hparams, if_neg hparams]
    generalize (if flags &&& MREMAP_FIXED = 0 then
      s.growMmapInPlace M oldAddr oldSize newSize else (s, false)) = r
    obtain ⟨s', _ | _⟩ := r
    · dsimp only [flagsFromSrc]
      cases s'.space.leafPteFlags (oldAddr + oldSize - PAGE_SIZE) <;> rfl
    · rfl

theorem usableFlags_flagsFromSrc (hs : s.space.WellFormed M) (oldAddr oldSize : Word) :
    UsableFlags (s.flagsFromSrc oldAddr oldSize) := by
  rw [flagsFromSrc]
  cases hf : s.space.leafPteFlags (oldAddr + oldSize - PAGE_SIZE) with
  | none => exact (by decide : UsableFlags (Pte.U ||| Pte.V ||| Pte.R ||| Pte.W))
  | some f => exact usableFlags_leaf hs hf

theorem moveMapping_rebuilt (s : MemSys) (oldAddr oldSize newSize flags newAddr : Word) {f : Word}
    (hf : UsableFlags f) :
    Rebuilt M s.space (s.moveMapping M oldAddr oldSize newSize flags newAddr f).1.space := by
  have htarget := mremapTarget_rebuilt (M := M) s oldAddr newSize flags newAddr hf
  rw [moveMapping]
  generalize s.mremapTarget M oldAddr newSize flags newAddr f = r at htarget ⊢
  obtain ⟨s₂, _ | dst⟩ := r
  · exact htarget
  · have hseal : Rebuilt M s₂.space
        (if decide (f &&& PTE_RSW_SHARED ≠ 0) && decide (flags &&& MREMAP_FIXED ≠ 0) then (s₂, true)
          else s₂.sealInstrMapping M dst (alignUp newSize PAGE_SIZE >>> PAGE_SHIFT) f).1.space := by
      split
      · exact .refl
      · exact sealInstrMapping_rebuilt s₂ dst _ hf
    dsimp only
    generalize (if decide (f &&& PTE_RSW_SHARED ≠ 0) && decide (flags &&& MREMAP_FIXED ≠ 0) then (s₂, true)
      else s₂.sealInstrMapping M dst (alignUp newSize PAGE_SIZE >>> PAGE_SHIFT) f) = r at hseal ⊢
    obtain ⟨s₃, _ | _⟩ := r
    · exact htarget.trans hseal
    · dsimp only
      split
      · exact (htarget.trans hseal).trans (munmapHandler_rebuilt s₃ oldAddr oldSize)
      · exact htarget.trans hseal

theorem mremapHandler_rebuilt (s : MemSys) (oldAddr oldSize newSize flags newAddr : Word)
    (hs : s.space.Sound M) :
    Rebuilt M s.space (s.mremapHandler M oldAddr oldSize newSize flags newAddr).1.space := by
  have hgrow : Rebuilt M s.space (if flags &&& MREMAP_FIXED = 0 then
      s.growMmapInPlace M oldAddr oldSize newSize else (s, false)).1.space := by
    split
    · exact growMmapInPlace_rebuilt s oldAddr oldSize newSize hs.wellFormed
    · exact .refl
  rw [mremapHandler_eq]
  split
  · exact .refl
  · generalize (if flags &&& MREMAP_FIXED = 0 then
      s.growMmapInPlace M oldAddr oldSize newSize else (s, false)) = r at hgrow ⊢
    obtain ⟨s₁, _ | _⟩ := r
    · dsimp only
      split
      · exact hgrow
      · have hf := usableFlags_flagsFromSrc (hs.rebuilt hgrow).wellFormed oldAddr oldSize
        exact hgrow.trans (moveMapping_rebuilt s₁ oldAddr oldSize newSize flags newAddr hf)
    · exact hgrow

theorem call_rebuilt (hs : s.space.Sound M) (c : MemCall) : Rebuilt M s.space (s.call M c).1.space := by
  cases c with
  | mmap addr len prot flags fd off => exact mmapHandler_rebuilt s addr len prot flags
  | munmap addr len => exact munmapHandler_rebuilt s addr len
  | mprotect addr len prot => exact mprotectHandler_rebuilt s addr len prot
  | mremap oldAddr oldSize newSize flags newAddr =>
    exact mremapHandler_rebuilt s oldAddr oldSize newSize flags newAddr hs
  | brk newBrk => exact sysBrkHandler_rebuilt s newBrk

/-! ## Runs -/

/-- A call of the running process, or a time in which other processes take table pages and M mode
deals with them. -/
inductive MemStep (M : Manager) : MemSys → MemSys → Prop where
  | call (s : MemSys) (c : MemCall) : MemStep M s (s.call M c).1
  | others (s : MemSys) (space : Space) (mmode : MMode)
      (h : Space.Grows M (tablesFrom s.space.root) s.space space) :
      MemStep M s { s with space := space, mmode := mmode }

/-- A process that has made no memory call yet. -/
structure Fresh (M : Manager) (s : MemSys) : Prop where
  sound : s.space.Sound M
  unused : s.ctx.mmapPagesUsed = 0
  noBlock : s.ctx.currMmapPa = 0

/-- The states that a run of memory calls comes to. -/
def Reachable (M : Manager) (s : MemSys) : Prop := ∃ s₀, Fresh M s₀ ∧ Relation.ReflTransGen (MemStep M) s₀ s

theorem MemStep.sound {s' : MemSys} (h : MemStep M s s') (hs : s.space.Sound M) : s'.space.Sound M := by
  cases h with
  | call c => exact hs.rebuilt (call_rebuilt hs c)
  | others space mmode hgrows => exact hs.grows hgrows

theorem Reachable.sound (h : Reachable M s) : s.space.Sound M := by
  obtain ⟨s₀, hfresh, hrun⟩ := h
  induction hrun with
  | refl => exact hfresh.sound
  | tail _ hstep ih => exact hstep.sound ih

end MemSys

end Pyremu.Sittim
