import Pyremu.Sittim.MemRuns

/-!
# The heap break

`sys_brk` over any sequence of calls. The mapped end of the heap only grows, in
blocks that are mapped once, and the break follows the calls. A call may move
the break below the base of the heap, where nothing was ever mapped for it.
-/

namespace Pyremu.Sittim

/-- The permissions of the heap. -/
def heapFlags : Word := Pte.U ||| Pte.R ||| Pte.W

/-- The entry lets U mode read and write. -/
def UserRw (e : Word) : Prop := e &&& (heapFlags ||| Pte.V) = heapFlags ||| Pte.V

theorem usableFlags_heap : UsableFlags heapFlags := by decide

theorem or_and_of_and {x y m : Word} (h : y &&& m = m) : (x ||| y) &&& m = m := by
  apply BitVec.eq_of_getLsbD_eq
  intro i hi
  have hbit := congrArg (fun v : Word => v.getLsbD i) h
  simp only [BitVec.getLsbD_and, BitVec.getLsbD_or] at hbit ⊢
  rw [Bool.and_or_distrib_right, hbit]
  cases m.getLsbD i <;> simp

theorem userRw_leafEntry (pa : Word) : UserRw (leafEntry pa heapFlags) := by
  rw [UserRw, leafEntry, Pte.entry]
  exact or_and_of_and (by decide)

namespace MemSys

variable (M : Manager)

/-! ## What a growth maps -/

/-- The blocks that `grow_umode_va` maps, in their order. -/
def growBlocks (flags upTo : Word) : Nat → MemSys → Word → List Word
  | 0, _, _ => []
  | n + 1, s, va =>
    if va < upTo then
      match s.mmode.memAlloc 1 (attrOfPteFlags flags) with
      | (m, (granted, pa)) =>
        if granted = 0 then []
        else
          match s.space.mapPage M va pa flags LEVEL_MEGA with
          | (_, .error _) => []
          | (space, .ok _) =>
            va :: growBlocks flags upTo n { s with mmode := m, space := space } (va + CHUNK_2M_SIZE)
    else []

/-- The blocks that a call of `sys_brk` maps. -/
def brkBlocks (s : MemSys) (newBrk : Word) : List Word :=
  let needEnd := alignUp (alignUp newBrk PAGE_SIZE) CHUNK_2M_SIZE
  if newBrk ≤ UMODE_VA_LIMIT ∧ s.ctx.heapTop < newBrk ∧ s.ctx.heapMappedEnd < needEnd then
    growBlocks M heapFlags needEnd (blocksBetween s.ctx.heapMappedEnd needEnd) s s.ctx.heapMappedEnd
  else []

variable {M} {base : Word} {s : MemSys}

/-- The blocks from `va` to the second component of `r` were mapped for U mode, each once, and nothing
else has changed. -/
structure Grown (M : Manager) (s : MemSys) (va : Word) (r : MemSys × Word) (blocks : List Word) : Prop where
  wellFormed : r.1.space.WellFormed M
  ctx : r.1.ctx = s.ctx
  start_le : va ≤ r.2
  aligned : 2097152 ∣ r.2.toNat
  inside : ∀ b ∈ blocks, va ≤ b ∧ b < r.2
  sorted : blocks.Pairwise (· < ·)
  mapped : ∀ v, va ≤ v → v < r.2 → ∃ e, r.1.space.leafAt v = some (LEVEL_MEGA, e) ∧ UserRw e
  kept : ∀ v, ¬ (va ≤ v ∧ v < r.2) → r.1.space.leafAt v = s.space.leafAt v

theorem Grown.nothing {s' : MemSys} {va : Word} (hva : 2097152 ∣ va.toNat) (hs : s'.space.WellFormed M)
    (hctx : s'.ctx = s.ctx) (hleaf : ∀ v, s'.space.leafAt v = s.space.leafAt v) :
    Grown M s va (s', va) [] where
  wellFormed := hs
  ctx := hctx
  start_le := BitVec.le_refl va
  aligned := hva
  inside := by simp
  sorted := .nil
  mapped := fun v hlo hhi => absurd hhi (BitVec.not_lt.mpr hlo)
  kept := fun v _ => hleaf v

/-- The addresses under the leaf of an aligned block. -/
theorem leafBase_mega {va v : Word} (hva : 2097152 ∣ va.toNat) :
    leafBase LEVEL_MEGA va = leafBase LEVEL_MEGA v ↔ va.toNat ≤ v.toNat ∧ v.toNat < va.toNat + 2097152 := by
  have hself : (leafBase LEVEL_MEGA va).toNat = va.toNat := by
    rw [toNat_leafBase]
    exact Nat.div_mul_cancel hva
  rw [leafBase_eq_iff_mem, hself]
  rfl

theorem toNat_nextBlock {va : Word} (hva : va.toNat < 2 ^ 38) :
    (va + CHUNK_2M_SIZE).toNat = va.toNat + 2097152 := by
  rw [BitVec.toNat_add, toNat_CHUNK_2M_SIZE]
  exact Nat.mod_eq_of_lt (by omega)

/-- One block more than what the rest of the growth maps. -/
theorem Grown.block {m : MMode} {pa va : Word} {space : Space} {r : MemSys × Word} {blocks : List Word}
    (hs : s.space.WellFormed M) (hva : 2097152 ∣ va.toNat) (hlimit : va.toNat < 2 ^ 38)
    (hmap : s.space.mapPage M va pa heapFlags LEVEL_MEGA = (space, .ok ()))
    (hrest : Grown M { s with mmode := m, space := space } (va + CHUNK_2M_SIZE) r blocks) :
    Grown M s va r (va :: blocks) := by
  have hspec := @Space.mapPage_spec M (tablesFrom s.space.root) s.space va pa heapFlags LEVEL_MEGA hs (by decide)
    (through_tablesFrom s.space.root va) usableFlags_heap
  rw [hmap] at hspec
  obtain ⟨hcan, hchanges⟩ := hspec
  have hleaf := Space.leafAt_changes hchanges (by decide) hcan
  have hnext := toNat_nextBlock hlimit
  have hge := hrest.start_le
  rw [BitVec.le_def, hnext] at hge
  constructor
  · exact hrest.wellFormed
  · exact hrest.ctx
  · rw [BitVec.le_def]
    omega
  · exact hrest.aligned
  · intro b hb
    rw [BitVec.le_def, BitVec.lt_def]
    rcases List.mem_cons.mp hb with rfl | hb
    · omega
    · obtain ⟨hlo, hhi⟩ := hrest.inside b hb
      rw [BitVec.le_def, hnext] at hlo
      exact ⟨by omega, hhi⟩
  · refine List.pairwise_cons.mpr ⟨fun b hb => ?_, hrest.sorted⟩
    have hlo := (hrest.inside b hb).1
    rw [BitVec.le_def, hnext] at hlo
    rw [BitVec.lt_def]
    omega
  · intro v hlo hhi
    by_cases hin : va + CHUNK_2M_SIZE ≤ v
    · exact hrest.mapped v hin hhi
    · rw [hrest.kept v fun h => hin h.1]
      refine ⟨_, ?_, userRw_leafEntry pa⟩
      rw [BitVec.le_def, hnext] at hin
      have hcover := (leafBase_mega hva).mpr ⟨BitVec.le_def.mp hlo, by omega⟩
      exact (hleaf v).trans (if_pos hcover)
  · intro v hout
    rw [BitVec.le_def, BitVec.lt_def] at hout
    have hrest' : ¬ (va + CHUNK_2M_SIZE ≤ v ∧ v < r.2) := by
      rw [BitVec.le_def, BitVec.lt_def, hnext]
      omega
    have hcover : ¬ leafBase LEVEL_MEGA va = leafBase LEVEL_MEGA v := by
      rw [leafBase_mega hva]
      omega
    exact (hrest.kept v hrest').trans ((hleaf v).trans (if_neg hcover))

theorem growFrom_grown {upTo : Word} (hupTo : 2097152 ∣ upTo.toNat) (hlimit : upTo.toNat ≤ 2 ^ 38) (n : Nat)
    {s : MemSys} {va : Word} (hs : s.space.WellFormed M) (hva : 2097152 ∣ va.toNat) (hle : va ≤ upTo) :
    Grown M s va (growFrom M heapFlags upTo n s va) (growBlocks M heapFlags upTo n s va) ∧
      (growFrom M heapFlags upTo n s va).2 ≤ upTo := by
  induction n generalizing s va with
  | zero => exact ⟨.nothing hva hs rfl fun _ => rfl, hle⟩
  | succ n ih =>
    by_cases hlt : va < upTo
    · obtain ⟨m, granted, pa, halloc, hround⟩ := @growFrom_cases M heapFlags _ _ n s hlt
      have hspec := @Space.mapPage_spec M (tablesFrom s.space.root) s.space va pa heapFlags LEVEL_MEGA hs
        (by decide) (through_tablesFrom s.space.root va) usableFlags_heap
      rw [growBlocks, if_pos hlt, halloc]
      rcases hround with ⟨hzero, heq⟩ | ⟨hzero, space, r, hr, ⟨err, rfl, heq⟩ | ⟨u, rfl, heq⟩⟩
      · simp only [heq, if_pos hzero]
        exact ⟨.nothing hva hs rfl fun _ => rfl, hle⟩
      · simp only [heq, if_neg hzero, hr]
        rw [hr] at hspec
        exact ⟨.nothing hva (Space.WellFormed.grows hspec) rfl (Space.leafAt_grows hspec), hle⟩
      · simp only [heq, if_neg hzero, hr]
        rw [hr] at hspec
        have hva' : va.toNat < upTo.toNat := hlt
        have hnext := toNat_nextBlock (by omega : va.toNat < 2 ^ 38)
        obtain ⟨hrest, hstop⟩ := @ih { s with mmode := m, space := space } (va + CHUNK_2M_SIZE)
          (Space.WellFormed.changes hspec.2) (by rw [hnext]; exact Nat.dvd_add hva (Nat.dvd_refl _))
          (by rw [BitVec.le_def, hnext]; omega)
        exact ⟨.block hs hva (by omega) hr hrest, hstop⟩
    · rw [growFrom_done _ s hlt, growBlocks, if_neg hlt]
      exact ⟨.nothing hva hs rfl fun _ => rfl, hle⟩

/-! ## One call -/

/-- The heap between two calls. -/
structure HeapInv (M : Manager) (base : Word) (s : MemSys) : Prop where
  wellFormed : s.space.WellFormed M
  base_le : base ≤ s.ctx.heapTop
  top_le : s.ctx.heapTop ≤ s.ctx.heapMappedEnd
  aligned : 2097152 ∣ s.ctx.heapMappedEnd.toNat
  limit : s.ctx.heapMappedEnd ≤ UMODE_VA_LIMIT
  mapped : ∀ v, base ≤ v → v < s.ctx.heapMappedEnd → ∃ e, s.space.leafAt v = some (LEVEL_MEGA, e) ∧ UserRw e

/-- A call that asks for more either moves the break there or returns it as it was. -/
def GrowthAnswered (s : MemSys) (newBrk : Word) (r : MemSys × Word) : Prop :=
  s.ctx.heapTop < newBrk →
    r.2 = newBrk ∧ r.1.ctx.heapTop = newBrk ∨ r.2 = s.ctx.heapTop ∧ r.1.ctx.heapTop = s.ctx.heapTop

/-- What a call leaves of the heap, and the blocks it has mapped. -/
structure BrkStep (M : Manager) (base : Word) (s : MemSys) (newBrk : Word) (r : MemSys × Word)
    (blocks : List Word) : Prop where
  inv : HeapInv M base r.1
  answered : GrowthAnswered s newBrk r
  grows : s.ctx.heapMappedEnd ≤ r.1.ctx.heapMappedEnd
  fresh : ∀ b ∈ blocks, s.ctx.heapMappedEnd ≤ b ∧ b < r.1.ctx.heapMappedEnd
  sorted : blocks.Pairwise (· < ·)

/-- A call that leaves the mapped end alone. -/
theorem BrkStep.move {newBrk top answer : Word} (h : HeapInv M base s) (hlo : base ≤ top)
    (hhi : top ≤ s.ctx.heapMappedEnd) (hanswer : GrowthAnswered s newBrk (s.setHeapTop top, answer)) :
    BrkStep M base s newBrk (s.setHeapTop top, answer) [] where
  inv := ⟨h.wellFormed, hlo, hhi, h.aligned, h.limit, h.mapped⟩
  answered := hanswer
  grows := BitVec.le_refl s.ctx.heapMappedEnd
  fresh := by simp
  sorted := .nil

theorem toNat_needEnd {newBrk : Word} (h : newBrk ≤ UMODE_VA_LIMIT) :
    newBrk.toNat ≤ (alignUp (alignUp newBrk PAGE_SIZE) CHUNK_2M_SIZE).toNat ∧
      2097152 ∣ (alignUp (alignUp newBrk PAGE_SIZE) CHUNK_2M_SIZE).toNat ∧
      (alignUp (alignUp newBrk PAGE_SIZE) CHUNK_2M_SIZE).toNat ≤ 2 ^ 38 := by
  rw [BitVec.le_def, toNat_UMODE_VA_LIMIT] at h
  have hpage := toNat_pageUp (x := newBrk) (by omega)
  rw [toNat_chunkUp (by omega), hpage]
  exact ⟨by omega, Nat.dvd_mul_left _ _, by omega⟩

theorem growHeap_step {newBrk needEnd : Word} (h : HeapInv M base s) (hbase : base ≤ newBrk)
    (hneed : newBrk ≤ needEnd) (hdvd : 2097152 ∣ needEnd.toNat) (hlimit : needEnd.toNat ≤ 2 ^ 38)
    (hgrow : s.ctx.heapMappedEnd < needEnd) :
    BrkStep M base s newBrk
      (match s.growHeap M needEnd with
        | (s', false) => (s', s.ctx.heapTop)
        | (s', true) => (s'.setHeapTop newBrk, newBrk))
      (growBlocks M heapFlags needEnd (blocksBetween s.ctx.heapMappedEnd needEnd) s s.ctx.heapMappedEnd) := by
  have hclamp : ¬ needEnd > UMODE_VA_LIMIT := by
    rw [gt_iff_lt, BitVec.lt_def, toNat_UMODE_VA_LIMIT]
    omega
  obtain ⟨hgrown, hstop⟩ := growFrom_grown hdvd hlimit (blocksBetween s.ctx.heapMappedEnd needEnd)
    h.wellFormed h.aligned (BitVec.le_of_lt hgrow)
  have heq : s.growUmodeVa M s.ctx.heapMappedEnd needEnd (Pte.U ||| Pte.R ||| Pte.W) =
      growFrom M heapFlags needEnd (blocksBetween s.ctx.heapMappedEnd needEnd) s s.ctx.heapMappedEnd := by
    rw [growUmodeVa]
    simp only [if_neg hclamp]
    rfl
  rw [growHeap, heq]
  generalize growBlocks M heapFlags needEnd (blocksBetween s.ctx.heapMappedEnd needEnd) s
    s.ctx.heapMappedEnd = blocks at hgrown ⊢
  generalize growFrom M heapFlags needEnd (blocksBetween s.ctx.heapMappedEnd needEnd) s
    s.ctx.heapMappedEnd = r at hgrown hstop ⊢
  obtain ⟨s', got⟩ := r
  have htop : s'.ctx.heapTop = s.ctx.heapTop := by rw [show s'.ctx = s.ctx from hgrown.ctx]
  have hinv : ∀ top, base ≤ top → top ≤ got →
      HeapInv M base ({ s' with ctx := { s'.ctx with heapMappedEnd := got } }.setHeapTop top) := by
    intro top hlo hhi
    refine ⟨hgrown.wellFormed, hlo, hhi, hgrown.aligned, ?_, ?_⟩
    · exact BitVec.le_trans hstop (BitVec.not_lt.mp hclamp)
    · intro v hlo hhi
      by_cases hnew : s.ctx.heapMappedEnd ≤ v
      · exact hgrown.mapped v hnew hhi
      · obtain ⟨e, he, hrw⟩ := h.mapped v hlo (BitVec.not_le.mp hnew)
        exact ⟨e, (hgrown.kept v fun hv => hnew hv.1).trans he, hrw⟩
  by_cases hfull : got < needEnd
  · simp only [hfull, decide_true, Bool.not_true]
    constructor
    · have hkeep := hinv s.ctx.heapTop h.base_le (BitVec.le_trans h.top_le hgrown.start_le)
      rw [← htop] at hkeep
      exact hkeep
    · exact fun _ => .inr ⟨rfl, htop⟩
    · exact hgrown.start_le
    · exact hgrown.inside
    · exact hgrown.sorted
  · simp only [hfull, decide_false, Bool.not_false]
    constructor
    · exact hinv newBrk hbase (BitVec.le_trans hneed (BitVec.not_lt.mp hfull))
    · exact fun _ => .inl ⟨rfl, rfl⟩
    · exact hgrown.start_le
    · exact hgrown.inside
    · exact hgrown.sorted

/-- A call that asks for no break below the base of the heap. -/
theorem sysBrkHandler_step {newBrk : Word} (h : HeapInv M base s) (harg : newBrk = 0 ∨ base ≤ newBrk) :
    BrkStep M base s newBrk (s.sysBrkHandler M newBrk) (s.brkBlocks M newBrk) := by
  have hsame : s.setHeapTop s.ctx.heapTop = s := rfl
  have hrefused : BrkStep M base s newBrk (s, s.ctx.heapTop) [] := by
    have hanswer : GrowthAnswered s newBrk (s.setHeapTop s.ctx.heapTop, s.ctx.heapTop) := fun _ => .inr ⟨rfl, rfl⟩
    have hstep := BrkStep.move h h.base_le h.top_le hanswer
    rwa [hsame] at hstep
  rw [sysBrkHandler, brkBlocks]
  by_cases hzero : newBrk = 0
  · have hquery : ¬ s.ctx.heapTop < newBrk := by
      rw [hzero, BitVec.lt_def]
      exact Nat.not_lt_zero _
    rw [if_pos hzero, if_neg fun hc => hquery hc.2.1]
    exact hrefused
  · rw [if_neg hzero]
    have hbase : base ≤ newBrk := harg.resolve_left hzero
    by_cases hlimit : newBrk > UMODE_VA_LIMIT
    · rw [if_pos hlimit, if_neg fun hc => BitVec.not_lt.mpr hc.1 hlimit]
      exact hrefused
    · rw [if_neg hlimit]
      have hle := BitVec.not_lt.mp hlimit
      by_cases hshrink : newBrk ≤ s.ctx.heapTop
      · rw [if_pos hshrink, if_neg fun hc => BitVec.not_le.mpr hc.2.1 hshrink]
        exact .move h hbase (BitVec.le_trans hshrink h.top_le) fun hc =>
          absurd hshrink (BitVec.not_le.mpr hc)
      · rw [if_neg hshrink]
        have hgrows := BitVec.not_le.mp hshrink
        obtain ⟨hneed, hdvd, hend⟩ := toNat_needEnd hle
        generalize alignUp (alignUp newBrk PAGE_SIZE) CHUNK_2M_SIZE = needEnd at hneed hdvd hend ⊢
        by_cases hmore : s.ctx.heapMappedEnd < needEnd
        · rw [if_pos hmore, if_pos ⟨hle, hgrows, hmore⟩]
          exact growHeap_step h hbase hneed hdvd hend hmore
        · rw [if_neg hmore, if_neg fun hc => hmore hc.2.2]
          exact .move h hbase (BitVec.le_trans hneed (BitVec.not_lt.mp hmore)) fun _ => .inl ⟨rfl, rfl⟩

/-- A break below the base of the heap is taken as any other. -/
theorem sysBrkHandler_below {newBrk : Word} (h : HeapInv M base s) (hzero : newBrk ≠ 0) (hlt : newBrk < base) :
    (s.sysBrkHandler M newBrk).1.ctx.heapTop = newBrk := by
  have hshrink : newBrk ≤ s.ctx.heapTop := BitVec.le_trans (BitVec.le_of_lt hlt) h.base_le
  have hlimit : ¬ newBrk > UMODE_VA_LIMIT :=
    BitVec.not_lt.mpr (BitVec.le_trans hshrink (BitVec.le_trans h.top_le h.limit))
  rw [sysBrkHandler, if_neg hzero, if_neg hlimit, if_pos hshrink]
  rfl

end MemSys

/-! ## Runs of calls -/

/-- A call, and M mode as it finds it: what M mode will grant is arbitrary each time. -/
structure BrkCall where
  mmode : MMode
  newBrk : Word

namespace MemSys

variable (M : Manager)

def offer (s : MemSys) (m : MMode) : MemSys := { s with mmode := m }

def brk (s : MemSys) (c : BrkCall) : MemSys × Word := (s.offer c.mmode).sysBrkHandler M c.newBrk

/-- All the blocks that the calls map, in their order. -/
def brkLog : MemSys → List BrkCall → List Word
  | _, [] => []
  | s, c :: calls => (s.offer c.mmode).brkBlocks M c.newBrk ++ brkLog (s.brk M c).1 calls

/-- The break is backed: it lies in the mapped part of the heap, whose end is aligned and in the user half,
and U mode may read and write all that is below it. -/
structure HeapBacked (base : Word) (s : MemSys) : Prop where
  base_le : base ≤ s.ctx.heapTop
  top_le : s.ctx.heapTop ≤ s.ctx.heapMappedEnd
  aligned : 2097152 ∣ s.ctx.heapMappedEnd.toNat
  limit : s.ctx.heapMappedEnd ≤ UMODE_VA_LIMIT
  backed : ∀ v, base ≤ v → v < s.ctx.heapTop → ∃ level e, s.space.leafAt v = some (level, e) ∧ UserRw e

/-- The break is backed before, between and after the calls, and every growth is answered. -/
def BrkBacked (base : Word) : MemSys → List BrkCall → Prop
  | s, [] => HeapBacked base s
  | s, c :: calls => HeapBacked base s ∧ GrowthAnswered s c.newBrk (s.brk M c) ∧ BrkBacked base (s.brk M c).1 calls

/-- A process with no heap yet. -/
structure HeapStart (base : Word) (s : MemSys) : Prop where
  wellFormed : s.space.WellFormed M
  top : s.ctx.heapTop = base
  mappedEnd : s.ctx.heapMappedEnd = base
  aligned : 2097152 ∣ base.toNat
  limit : base ≤ UMODE_VA_LIMIT

variable {M} {base : Word} {s : MemSys}

theorem HeapStart.inv (h : HeapStart M base s) : HeapInv M base s where
  wellFormed := h.wellFormed
  base_le := by rw [h.top]; exact BitVec.le_refl base
  top_le := by rw [h.top, h.mappedEnd]; exact BitVec.le_refl base
  aligned := by rw [h.mappedEnd]; exact h.aligned
  limit := by rw [h.mappedEnd]; exact h.limit
  mapped := fun v hlo hhi => absurd (h.mappedEnd ▸ hhi) (BitVec.not_lt.mpr hlo)

theorem HeapInv.offer (h : HeapInv M base s) (m : MMode) : HeapInv M base (s.offer m) :=
  ⟨h.wellFormed, h.base_le, h.top_le, h.aligned, h.limit, h.mapped⟩

theorem HeapInv.backed (h : HeapInv M base s) : HeapBacked base s where
  base_le := h.base_le
  top_le := h.top_le
  aligned := h.aligned
  limit := h.limit
  backed := fun v hlo hhi => ⟨LEVEL_MEGA, h.mapped v hlo (BitVec.lt_def.mpr
    (Nat.lt_of_lt_of_le (BitVec.lt_def.mp hhi) (BitVec.le_def.mp h.top_le)))⟩

theorem brk_step {c : BrkCall} (h : HeapInv M base s) (harg : c.newBrk = 0 ∨ base ≤ c.newBrk) :
    BrkStep M base (s.offer c.mmode) c.newBrk (s.brk M c) ((s.offer c.mmode).brkBlocks M c.newBrk) :=
  sysBrkHandler_step (h.offer c.mmode) harg

theorem BrkBacked.head {calls : List BrkCall} (h : BrkBacked M base s calls) : HeapBacked base s := by
  cases calls with
  | nil => exact h
  | cons c calls => exact h.1

/-- Each call keeps the heap backed, so a run of calls does. -/
theorem brkBacked_of_inv {calls : List BrkCall} (h : HeapInv M base s)
    (hargs : ∀ c ∈ calls, c.newBrk = 0 ∨ base ≤ c.newBrk) : BrkBacked M base s calls := by
  induction calls generalizing s with
  | nil => exact h.backed
  | cons c calls ih =>
    have hstep := brk_step h (hargs c (by simp))
    exact ⟨h.backed, hstep.answered, ih hstep.inv fun c' hc => hargs c' (by simp [hc])⟩

/-- The blocks of later calls lie above those of earlier ones. -/
theorem brkLog_sorted {calls : List BrkCall} (h : HeapInv M base s)
    (hargs : ∀ c ∈ calls, c.newBrk = 0 ∨ base ≤ c.newBrk) :
    (brkLog M s calls).Pairwise (· < ·) ∧ ∀ b ∈ brkLog M s calls, s.ctx.heapMappedEnd ≤ b := by
  induction calls generalizing s with
  | nil => exact ⟨.nil, by simp [brkLog]⟩
  | cons c calls ih =>
    have hstep := brk_step h (hargs c (by simp))
    obtain ⟨hsorted, hge⟩ := ih hstep.inv fun c' hc => hargs c' (by simp [hc])
    rw [brkLog]
    constructor
    · refine List.pairwise_append.mpr ⟨hstep.sorted, hsorted, fun a ha b hb => ?_⟩
      have hbelow := (hstep.fresh a ha).2
      have habove := hge b hb
      rw [BitVec.lt_def] at hbelow ⊢
      exact Nat.lt_of_lt_of_le hbelow habove
    · intro b hb
      rcases List.mem_append.mp hb with hb | hb
      · exact (hstep.fresh b hb).1
      · exact BitVec.le_trans hstep.grows (hge b hb)

/-- The first call below the base of the heap leaves a break that is not backed. -/
theorem args_of_brkBacked {calls : List BrkCall} (h : HeapInv M base s) (hbacked : BrkBacked M base s calls) :
    ∀ c ∈ calls, c.newBrk = 0 ∨ base ≤ c.newBrk := by
  induction calls generalizing s with
  | nil => simp
  | cons c calls ih =>
    have harg : c.newBrk = 0 ∨ base ≤ c.newBrk := by
      by_contra hbad
      obtain ⟨hzero, hlt⟩ := not_or.mp hbad
      have htop := sysBrkHandler_below (h.offer c.mmode) hzero (BitVec.not_le.mp hlt)
      have hbase := hbacked.2.2.head.base_le
      rw [show (s.brk M c).1.ctx.heapTop = c.newBrk from htop] at hbase
      exact hlt hbase
    intro c' hc
    rcases List.mem_cons.mp hc with rfl | hc
    · exact harg
    · exact ih (brk_step h harg).inv hbacked.2.2 c' hc

end MemSys

open MemSys

/-- From a process without a heap the break stays backed and no block is mapped twice, exactly when no
call asks for a break below the base of the heap. -/
theorem brk_backed_iff {M : Manager} {base : Word} {s : MemSys} (hstart : HeapStart M base s)
    (calls : List BrkCall) :
    BrkBacked M base s calls ∧ (brkLog M s calls).Nodup ↔ ∀ c ∈ calls, c.newBrk = 0 ∨ base ≤ c.newBrk := by
  constructor
  · rintro ⟨hbacked, _⟩
    exact args_of_brkBacked hstart.inv hbacked
  · intro hargs
    refine ⟨brkBacked_of_inv hstart.inv hargs, ?_⟩
    have hsorted := (brkLog_sorted hstart.inv hargs).1
    exact hsorted.imp fun hlt heq => absurd (heq ▸ hlt) (BitVec.lt_irrefl _)

/-- A process whose heap starts at 256 MiB, and M mode with partitions to give. -/
def noHeap : MemSys where
  space := Space.empty smallManager
  ctx := ⟨0x10000000, 0x10000000, 0, 0⟩
  mmode := ⟨[0x480, 0x481], [], fun _ => false, fun _ => .data⟩

theorem heapStart_noHeap : HeapStart smallManager 0x10000000 noHeap where
  wellFormed := Space.wellFormed_empty smallManager
  top := rfl
  mappedEnd := rfl
  aligned := by decide
  limit := by decide

/-- Three pages, a query and a shrink to nothing. -/
theorem brk_backed_pages :
    BrkBacked smallManager 0x10000000 noHeap
        [⟨noHeap.mmode, 0x10003000⟩, ⟨noHeap.mmode, 0⟩, ⟨noHeap.mmode, 0x10000000⟩] ∧
      (brkLog smallManager noHeap
        [⟨noHeap.mmode, 0x10003000⟩, ⟨noHeap.mmode, 0⟩, ⟨noHeap.mmode, 0x10000000⟩]).Nodup := by
  refine (brk_backed_iff heapStart_noHeap _).mpr ?_
  simp only [List.mem_cons, List.not_mem_nil, or_false]
  rintro c (rfl | rfl | rfl)
  · exact .inr (by decide)
  · exact .inl rfl
  · exact .inr (by decide)

/-- A break of 1 lies below the heap, and the next address above it is granted without being mapped. -/
theorem brk_below_base : ¬ ∀ (M : Manager) (base : Word) (s : MemSys) (calls : List BrkCall), HeapStart M base s →
    BrkBacked M base s calls ∧ (brkLog M s calls).Nodup := by
  intro h
  have hbacked := (h smallManager 0x10000000 noHeap [⟨noHeap.mmode, 1⟩] heapStart_noHeap).1
  have hbase : (0x10000000 : Word) ≤ (noHeap.brk smallManager ⟨noHeap.mmode, 1⟩).1.ctx.heapTop :=
    hbacked.2.2.base_le
  exact absurd hbase (by decide)

end Pyremu.Sittim
