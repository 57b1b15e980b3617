import Pyremu.Sittim.ForkSpace

/-!
# Pages to copy into

A page may still be handed out while its partition is with M mode, or while it
lies behind the pages that were cut from a partition. A page that was handed out
keeps its class: the one partition that waits to become one of instructions holds
pages for instructions only.
-/

namespace Pyremu.Sittim.ForkSys

variable {α : Type} {M : Manager} {s s' s'' : ForkSys α} {attr : MemAttr} {pa : Word}

/-- The first page of the partition that pages of a class are cut from. -/
def chunkPage (s : ForkSys α) (attr : MemAttr) : Nat := (s.chunkPa attr).toNat / 4096

/-- Nobody has the page. -/
def Spare (s : ForkSys α) (f : Nat) : Prop :=
  s.sys.mmode.given (f / 512) = false ∨
    ∃ attr, s.chunkPa attr ≠ 0 ∧ s.chunkPage attr + 512 - (s.chunkLeft attr).toNat ≤ f ∧ f < s.chunkPage attr + 512

structure ChunksOk (s : ForkSys α) : Prop where
  aligned : ∀ attr, 2 ^ 21 ∣ (s.chunkPa attr).toNat
  small : ∀ attr, (s.chunkPa attr).toNat < 2 ^ 48
  left : ∀ attr, (s.chunkLeft attr).toNat ≤ 512
  empty : ∀ attr, s.chunkPa attr = 0 → s.chunkLeft attr = 0
  given : ∀ attr, s.chunkPa attr ≠ 0 → s.sys.mmode.given (partitionOf (s.chunkPa attr)) = true
  apart : s.chunkPa .data ≠ 0 → partitionOf (s.chunkPa .data) ≠ partitionOf (s.chunkPa .instr)
  data : s.chunkPa .data ≠ 0 → s.sys.mmode.cls (partitionOf (s.chunkPa .data)) = .data

/-- The page lies in the partition that waits for its class to be changed. -/
def Pending (s : ForkSys α) (f : Nat) : Prop := s.chunkPa .instr ≠ 0 ∧ f / 512 = partitionOf (s.chunkPa .instr)

/-- The class that the page will have when the copy is done. -/
def ClassOk (s : ForkSys α) (f : Nat) : MemAttr → Prop
  | .data => s.sys.mmode.cls (f / 512) = .data ∧ ¬ s.Pending f
  | .instr => s.sys.mmode.cls (f / 512) = .instr ∨ s.Pending f

/-- Partitions and pages may have been taken. -/
structure Draws (s s' : ForkSys α) : Prop where
  chunks : s'.ChunksOk
  spare : ∀ f, s'.Spare f → s.Spare f
  space : s'.sys.space = s.sys.space
  page : s'.page = s.page

/-- Pages in use keep their class. -/
def KeepsClass (s s' : ForkSys α) : Prop := ∀ f attr, ¬ s.Spare f → s.ClassOk f attr → s'.ClassOk f attr

/-- `n` pages from `pa` on are handed out for a class. -/
structure Granted (s s' : ForkSys α) (attr : MemAttr) (pa : Word) (n : Nat) : Prop where
  draws : Draws s s'
  classes : KeepsClass s s'
  small : pa.toNat < 2 ^ 48
  aligned : n * 4096 ∣ pa.toNat
  spare : ∀ k < n, s.Spare (pa.toNat / 4096 + k)
  used : ∀ k < n, ¬ s'.Spare (pa.toNat / 4096 + k)
  cls : ∀ k < n, s'.ClassOk (pa.toNat / 4096 + k) attr

theorem Draws.refl (h : s.ChunksOk) : Draws s s := ⟨h, fun _ hf => hf, rfl, rfl⟩

theorem Draws.trans (h : Draws s s') (h' : Draws s' s'') : Draws s s'' :=
  ⟨h'.chunks, fun f hf => h.spare f (h'.spare f hf), h'.space.trans h.space, h'.page.trans h.page⟩

theorem KeepsClass.refl (s : ForkSys α) : KeepsClass s s := fun _ _ _ h => h

theorem KeepsClass.trans (h : KeepsClass s s') (hs : ∀ f, s'.Spare f → s.Spare f) (h' : KeepsClass s' s'') :
    KeepsClass s s'' := fun f attr hf hc => h' f attr (fun hs' => hf (hs f hs')) (h f attr hf hc)

/-- When no partition waits, every page has its class. -/
theorem ClassOk.cls {f : Nat} (h : s.ClassOk f attr) (hinstr : s.chunkPa .instr = 0) :
    s.sys.mmode.cls (f / 512) = attr := by
  cases attr with
  | data => exact h.1
  | instr =>
    rcases h with h | h
    · exact h
    · exact absurd hinstr h.1

section Congr

variable (hm : s'.sys.mmode = s.sys.mmode) (hp : s'.chunkPa = s.chunkPa) (hl : s'.chunkLeft = s.chunkLeft)

include hm hp

theorem pending_congr (f : Nat) : s'.Pending f ↔ s.Pending f := by
  rw [Pending, Pending, hp]

theorem classOk_congr (f : Nat) (attr : MemAttr) : s'.ClassOk f attr ↔ s.ClassOk f attr := by
  cases attr with
  | data => rw [ClassOk, ClassOk, hm, pending_congr hm hp]
  | instr => rw [ClassOk, ClassOk, hm, pending_congr hm hp]

include hl

theorem spare_congr (f : Nat) : s'.Spare f ↔ s.Spare f := by
  simp only [Spare, chunkPage, hm, hp, hl]

theorem ChunksOk.congr (h : s.ChunksOk) : s'.ChunksOk where
  aligned := hp ▸ h.aligned
  small := hp ▸ h.small
  left := hl ▸ h.left
  empty := by
    rw [hp, hl]
    exact h.empty
  given := by
    rw [hp, hm]
    exact h.given
  apart := hp ▸ h.apart
  data := by
    rw [hp, hm]
    exact h.data

end Congr

/-! ## Partitions -/

/-- One partition is granted, or nothing changes. -/
theorem memAlloc_one (m : MMode) :
    ((m.memAlloc 1 .data).2.1 < 1 ∧ (m.memAlloc 1 .data).1.given = m.given ∧ (m.memAlloc 1 .data).1.cls = m.cls) ∨
      ¬ (m.memAlloc 1 .data).2.1 < 1 ∧ ∃ p, 0 < p ∧ p < 2 ^ 27 ∧ (m.memAlloc 1 .data).2.2.toNat = p * 2 ^ 21 ∧
        m.given p = false ∧ (∀ q, (m.memAlloc 1 .data).1.given q = (m.given q || decide (q = p))) ∧
          ∀ q, (m.memAlloc 1 .data).1.cls q = if q = p then .data else m.cls q := by
  have hlt : (0 : Word) < 1 := by decide
  have hle : ¬ (1 : Word) < 1 := by decide
  rw [MMode.memAlloc]
  split
  · exact .inl ⟨hlt, rfl, rfl⟩
  · rename_i p offers _
    split_ifs with hp
    · obtain ⟨hpos, hcount, hfree⟩ := hp
      rw [show (1 : Word).toNat = 1 from rfl] at hcount hfree
      rw [partitionCount] at hcount
      have hq : ∀ q, (p ≤ q ∧ q < p + (1 : Word).toNat) ↔ q = p := by
        intro q
        rw [show (1 : Word).toNat = 1 from rfl]
        omega
      refine .inr ⟨hle, p, hpos, by omega, ?_, by simpa using hfree, fun q => ?_, fun q => ?_⟩
      · rw [BitVec.toNat_ofNat]
        exact Nat.mod_eq_of_lt (by omega)
      · simp only [hq]
      · simp only [hq]
    · exact .inl ⟨hlt, rfl, rfl⟩

/-- One partition changes its class, or none does. -/
theorem setMemAttr_one (m : MMode) (pa : Word) (attr : MemAttr) :
    (m.setMemAttr pa 1 attr).1.given = m.given ∧
      ∀ q, (m.setMemAttr pa 1 attr).1.cls q =
        if (m.setMemAttr pa 1 attr).2 = true ∧ q = partitionOf pa then attr else m.cls q := by
  have hnone : ∀ q, m.cls q = if false = true ∧ q = partitionOf pa then attr else m.cls q := by
    intro q
    rw [if_neg (by simp)]
  rw [MMode.setMemAttr]
  split
  · exact ⟨rfl, hnone⟩
  · dsimp only
    split_ifs
    · refine ⟨rfl, fun q => ?_⟩
      have hq : (partitionOf pa ≤ q ∧ q < partitionOf pa + (1 : Word).toNat) ↔ q = partitionOf pa := by
        rw [show (1 : Word).toNat = 1 from rfl]
        omega
      simp only [hq, true_and]
    · exact ⟨rfl, hnone⟩

theorem allocAdjacentPages_spec (s : MemSys) :
    (s.allocAdjacentPages CHUNK_2M_PAGES .data).1.space = s.space ∧
      match (s.allocAdjacentPages CHUNK_2M_PAGES .data).2 with
      | none => (s.allocAdjacentPages CHUNK_2M_PAGES .data).1.mmode.given = s.mmode.given ∧
          (s.allocAdjacentPages CHUNK_2M_PAGES .data).1.mmode.cls = s.mmode.cls
      | some pa => ∃ p, 0 < p ∧ p < 2 ^ 27 ∧ pa.toNat = p * 2 ^ 21 ∧ s.mmode.given p = false ∧
          (∀ q, (s.allocAdjacentPages CHUNK_2M_PAGES .data).1.mmode.given q = (s.mmode.given q || decide (q = p))) ∧
          ∀ q, (s.allocAdjacentPages CHUNK_2M_PAGES .data).1.mmode.cls q =
            if q = p then .data else s.mmode.cls q := by
  have hone : alignUp (CHUNK_2M_PAGES * PAGE_SIZE) CHUNK_2M_SIZE >>> CHUNK_2M_SHIFT = 1 := by decide
  have hzero : ¬ (1 : Word) = 0 := by decide
  have halloc := memAlloc_one s.mmode
  rw [MemSys.allocAdjacentPages]
  simp only [hone, if_neg hzero]
  rcases halloc with ⟨hlt, hgiven, hcls⟩ | ⟨hle, hp⟩
  · rw [if_pos hlt]
    exact ⟨trivial, hgiven, hcls⟩
  · rw [if_neg hle]
    exact ⟨trivial, hp⟩

theorem setPartitionAttr_spec (s : MemSys) (pa : Word) (attr : MemAttr) :
    (s.setPartitionAttr M pa CHUNK_2M_SIZE attr).1.space = s.space ∧
      (s.setPartitionAttr M pa CHUNK_2M_SIZE attr).1.mmode.given = s.mmode.given ∧
      ∀ q, (s.setPartitionAttr M pa CHUNK_2M_SIZE attr).1.mmode.cls q =
        if (s.setPartitionAttr M pa CHUNK_2M_SIZE attr).2 = true ∧ q = partitionOf pa then attr
        else s.mmode.cls q := by
  have hone : alignUp CHUNK_2M_SIZE CHUNK_2M_SIZE >>> CHUNK_2M_SHIFT = 1 := by decide
  have hset := setMemAttr_one s.mmode pa attr
  have hnone : ∀ q, s.mmode.cls q = if false = true ∧ q = partitionOf pa then attr else s.mmode.cls q := by
    intro q
    rw [if_neg (by simp)]
  rw [MemSys.setPartitionAttr]
  simp only [hone]
  split_ifs
  · exact ⟨rfl, rfl, hnone⟩
  · exact ⟨rfl, rfl, hnone⟩
  · exact ⟨rfl, rfl, hnone⟩
  · exact ⟨rfl, hset.1, hset.2⟩

/-! ## A new partition -/

/-- The partition of `pa` has come from M mode, as one of data. -/
structure Takes (s s' : ForkSys α) (pa : Word) : Prop where
  space : s'.sys.space = s.sys.space
  page : s'.page = s.page
  chunkPa : s'.chunkPa = s.chunkPa
  chunkLeft : s'.chunkLeft = s.chunkLeft
  fresh : s.sys.mmode.given (partitionOf pa) = false
  aligned : 2 ^ 21 ∣ pa.toNat
  small : pa.toNat < 2 ^ 48
  pos : pa ≠ 0
  given : ∀ q, s'.sys.mmode.given q = (s.sys.mmode.given q || decide (q = partitionOf pa))
  cls : ∀ q, s'.sys.mmode.cls q = if q = partitionOf pa then .data else s.sys.mmode.cls q

/-- The pages of a partition. -/
theorem div_of_chunk {f : Nat} (hal : 2 ^ 21 ∣ pa.toNat) (hlo : pa.toNat / 4096 ≤ f)
    (hhi : f < pa.toNat / 4096 + 512) : f / 512 = partitionOf pa := by
  rw [partitionOf]
  omega

/-- The partition of address 0 is no memory. -/
theorem partitionOf_ne_zero (hal : 2 ^ 21 ∣ pa.toNat) (hne : pa ≠ 0) : partitionOf pa ≠ 0 := by
  intro h0
  rw [partitionOf] at h0
  exact hne (BitVec.eq_of_toNat_eq (show pa.toNat = 0 by omega))

theorem ChunksOk.partition_inj {a b : MemAttr} (h : s.ChunksOk) (hne : s.chunkPa a ≠ 0)
    (heq : partitionOf (s.chunkPa a) = partitionOf (s.chunkPa b)) : a = b := by
  have hb : s.chunkPa b ≠ 0 := by
    intro h0
    rw [h0] at heq
    exact partitionOf_ne_zero (h.aligned a) hne heq
  cases a with
  | data =>
    cases b with
    | data => rfl
    | instr => exact absurd heq (h.apart hne)
  | instr =>
    cases b with
    | data => exact absurd heq.symm (h.apart hb)
    | instr => rfl

/-- A page behind those that were cut is in a partition that was given. -/
theorem ChunksOk.given_of_tail {f : Nat} (h : s.ChunksOk) (hne : s.chunkPa attr ≠ 0)
    (hlo : s.chunkPage attr + 512 - (s.chunkLeft attr).toNat ≤ f) (hhi : f < s.chunkPage attr + 512) :
    f / 512 = partitionOf (s.chunkPa attr) ∧ s.sys.mmode.given (f / 512) = true := by
  have hleft := h.left attr
  have hdiv : f / 512 = partitionOf (s.chunkPa attr) := div_of_chunk (h.aligned attr) (by rw [chunkPage] at hlo; omega) hhi
  exact ⟨hdiv, hdiv ▸ h.given attr hne⟩

namespace Takes

theorem ne (h : Takes s s' pa) (hok : s.ChunksOk) (hne : s.chunkPa attr ≠ 0) :
    partitionOf (s.chunkPa attr) ≠ partitionOf pa := by
  intro heq
  have hgiven := hok.given attr hne
  rw [heq, h.fresh] at hgiven
  cases hgiven

theorem given_self (h : Takes s s' pa) : s'.sys.mmode.given (partitionOf pa) = true := by
  rw [h.given, decide_eq_true rfl, Bool.or_true]

theorem given_old (h : Takes s s' pa) {q : Nat} (hq : s.sys.mmode.given q = true) : s'.sys.mmode.given q = true := by
  rw [h.given, hq, Bool.true_or]

theorem not_given (h : Takes s s' pa) {q : Nat} (hq : s'.sys.mmode.given q = false) : s.sys.mmode.given q = false := by
  rw [h.given, Bool.or_eq_false_iff] at hq
  exact hq.1

/-- The pages of the partition were free. -/
theorem spare (h : Takes s s' pa) {f : Nat} (hf : f / 512 = partitionOf pa) : s.Spare f := by
  refine .inl ?_
  rw [hf, h.fresh]

theorem draws (h : Takes s s' pa) (hok : s.ChunksOk) : Draws s s' where
  chunks := {
    aligned := by rw [h.chunkPa]; exact hok.aligned
    small := by rw [h.chunkPa]; exact hok.small
    left := by rw [h.chunkLeft]; exact hok.left
    empty := by rw [h.chunkPa, h.chunkLeft]; exact hok.empty
    given := by
      rw [h.chunkPa]
      exact fun a hne => h.given_old (hok.given a hne)
    apart := by rw [h.chunkPa]; exact hok.apart
    data := by
      rw [h.chunkPa]
      intro hne
      rw [h.cls, if_neg (h.ne hok hne), hok.data hne] }
  spare := by
    rintro f (hf | ⟨a, hne, hf⟩)
    · exact .inl (h.not_given hf)
    · rw [chunkPage, h.chunkPa, h.chunkLeft] at hf
      rw [h.chunkPa] at hne
      exact .inr ⟨a, hne, hf⟩
  space := h.space
  page := h.page

theorem pending (h : Takes s s' pa) (f : Nat) : s'.Pending f ↔ s.Pending f := by
  rw [Pending, Pending, h.chunkPa]

theorem keepsClass (h : Takes s s' pa) : KeepsClass s s' := by
  intro f a hf hc
  have hcls : s'.sys.mmode.cls (f / 512) = s.sys.mmode.cls (f / 512) := by
    rw [h.cls, if_neg fun heq => hf (h.spare heq)]
  cases a with
  | data => exact ⟨hcls.trans hc.1, fun hp => hc.2 ((h.pending f).mp hp)⟩
  | instr => exact hc.imp hcls.trans (h.pending f).mpr

end Takes

theorem takePartition_spec (s : ForkSys α) (hok : s.ChunksOk) :
    match s.withSys (s.sys.allocAdjacentPages CHUNK_2M_PAGES .data) with
    | (s', none) => Draws s s' ∧ KeepsClass s s'
    | (s', some pa) => Takes s s' pa := by
  have hspec := allocAdjacentPages_spec s.sys
  obtain ⟨hspace, hres⟩ := hspec
  rw [withSys]
  generalize s.sys.allocAdjacentPages CHUNK_2M_PAGES .data = r at hspace hres ⊢
  obtain ⟨sys, res⟩ := r
  cases res with
  | none =>
    obtain ⟨hgiven, hcls⟩ := hres
    dsimp only at hgiven hcls hspace ⊢
    refine ⟨⟨?_, ?_, hspace, rfl⟩, ?_⟩
    · exact {
        aligned := hok.aligned, small := hok.small, left := hok.left, empty := hok.empty, apart := hok.apart
        given := by dsimp only; rw [hgiven]; exact hok.given
        data := by dsimp only; rw [hcls]; exact hok.data }
    · intro f hf
      rw [Spare] at hf ⊢
      dsimp only at hf
      rwa [hgiven] at hf
    · intro f a _ hc
      cases a with
      | data =>
        rw [ClassOk] at hc ⊢
        dsimp only
        rwa [hcls]
      | instr =>
        rw [ClassOk] at hc ⊢
        dsimp only
        rwa [hcls]
  | some pa =>
    obtain ⟨p, hpos, hlt, hpa, hfresh, hgiven, hcls⟩ := hres
    dsimp only at hgiven hcls hspace ⊢
    have hpart : partitionOf pa = p := by
      rw [partitionOf, hpa, Nat.mul_div_cancel _ (by decide)]
    refine ⟨hspace, rfl, rfl, rfl, hpart ▸ hfresh, ⟨p, by rw [hpa, Nat.mul_comm]⟩, by omega, ?_, hpart ▸ hgiven,
      hpart ▸ hcls⟩
    rintro rfl
    rw [show (0 : Word).toNat = 0 from rfl] at hpa
    omega

/-! ## The chunks -/

@[simp] theorem setChunk_pa (s : ForkSys α) (attr : MemAttr) (pa left : Word) (a : MemAttr) :
    (s.setChunk attr pa left).chunkPa a = if a = attr then pa else s.chunkPa a :=
  Function.update_apply ..

@[simp] theorem setChunk_left (s : ForkSys α) (attr : MemAttr) (pa left : Word) (a : MemAttr) :
    (s.setChunk attr pa left).chunkLeft a = if a = attr then left else s.chunkLeft a :=
  Function.update_apply ..

@[simp] theorem setChunk_sys (s : ForkSys α) (attr : MemAttr) (pa left : Word) : (s.setChunk attr pa left).sys = s.sys := rfl

/-- The chunk of a class is a partition that has just come. -/
theorem Takes.setChunk {left : Word} (h : Takes s s' pa) (hok : s.ChunksOk) (attr : MemAttr) (hleft : left.toNat ≤ 512) :
    Draws s (s'.setChunk attr pa left) where
  chunks := {
    aligned := fun a => by
      rw [setChunk_pa, h.chunkPa]
      split_ifs
      · exact h.aligned
      · exact hok.aligned a
    small := fun a => by
      rw [setChunk_pa, h.chunkPa]
      split_ifs
      · exact h.small
      · exact hok.small a
    left := fun a => by
      rw [setChunk_left, h.chunkLeft]
      split_ifs
      · exact hleft
      · exact hok.left a
    empty := fun a => by
      rw [setChunk_pa, setChunk_left, h.chunkPa, h.chunkLeft]
      split_ifs
      · exact fun h0 => absurd h0 h.pos
      · exact hok.empty a
    given := fun a => by
      rw [setChunk_pa, h.chunkPa, setChunk_sys]
      split_ifs
      · exact fun _ => h.given_self
      · exact fun hne => h.given_old (hok.given a hne)
    apart := by
      rw [setChunk_pa, setChunk_pa, h.chunkPa]
      cases attr with
      | data =>
        rw [if_pos rfl, if_neg (by decide)]
        intro _ heq
        by_cases hne : s.chunkPa .instr = 0
        · rw [hne] at heq
          exact partitionOf_ne_zero h.aligned h.pos heq
        · exact h.ne hok hne heq.symm
      | instr =>
        rw [if_neg (by decide), if_pos rfl]
        exact h.ne hok
    data := by
      rw [setChunk_pa, h.chunkPa, setChunk_sys, h.cls]
      cases attr with
      | data => exact fun _ => by rw [if_pos rfl, if_pos rfl]
      | instr =>
        rw [if_neg (by decide)]
        intro hne
        rw [if_neg (h.ne hok hne), hok.data hne] }
  spare := by
    rintro f (hf | ⟨a, hne, hlo, hhi⟩)
    · exact .inl (h.not_given hf)
    · rw [chunkPage, setChunk_pa, h.chunkPa, setChunk_left, h.chunkLeft] at hlo
      rw [chunkPage, setChunk_pa, h.chunkPa] at hhi
      rw [setChunk_pa, h.chunkPa] at hne
      split_ifs at hne hlo hhi with ha
      · exact h.spare (div_of_chunk h.aligned (by omega) hhi)
      · exact .inr ⟨a, hne, hlo, hhi⟩
  space := h.space
  page := h.page

theorem Takes.setChunk_keepsClass {left : Word} (h : Takes s s' pa) (attr : MemAttr)
    (hinstr : attr = .instr → s.chunkPa .instr = 0) : KeepsClass s (s'.setChunk attr pa left) := by
  intro f a hf hc
  have hne : f / 512 ≠ partitionOf pa := fun heq => hf (h.spare heq)
  have hcls : (s'.setChunk attr pa left).sys.mmode.cls (f / 512) = s.sys.mmode.cls (f / 512) := by
    rw [setChunk_sys, h.cls, if_neg hne]
  have hpending : (s'.setChunk attr pa left).Pending f ↔ s.Pending f := by
    rw [Pending, Pending, setChunk_pa, h.chunkPa]
    split_ifs with ha
    · simp [hinstr ha.symm, hne]
    · exact .rfl
  cases a with
  | data => exact ⟨hcls.trans hc.1, fun hp => hc.2 (hpending.mp hp)⟩
  | instr => exact hc.imp hcls.trans hpending.mpr

/-- No partition waits any more; the one that did has its class when `done`. -/
structure Seals (s s' : ForkSys α) (done : Bool) : Prop where
  space : s'.sys.space = s.sys.space
  page : s'.page = s.page
  chunkPa : ∀ a, s'.chunkPa a = if a = .instr then 0 else s.chunkPa a
  chunkLeft : ∀ a, s'.chunkLeft a = if a = .instr then 0 else s.chunkLeft a
  given : s'.sys.mmode.given = s.sys.mmode.given
  cls : ∀ q, s'.sys.mmode.cls q =
    if done = true ∧ s.chunkPa .instr ≠ 0 ∧ q = partitionOf (s.chunkPa .instr) then .instr else s.sys.mmode.cls q

namespace Seals

variable {done : Bool}

theorem instr (h : Seals s s' done) : s'.chunkPa .instr = 0 := by rw [h.chunkPa, if_pos rfl]

theorem not_pending (h : Seals s s' done) (f : Nat) : ¬ s'.Pending f := fun hp => hp.1 h.instr

theorem draws (h : Seals s s' done) (hok : s.ChunksOk) : Draws s s' where
  chunks := {
    aligned := fun a => by
      rw [h.chunkPa]
      split_ifs
      · exact Nat.dvd_zero _
      · exact hok.aligned a
    small := fun a => by
      rw [h.chunkPa]
      split_ifs
      · exact Nat.two_pow_pos 48
      · exact hok.small a
    left := fun a => by
      rw [h.chunkLeft]
      split_ifs
      · exact Nat.zero_le 512
      · exact hok.left a
    empty := fun a => by
      rw [h.chunkPa, h.chunkLeft]
      split_ifs
      · exact fun _ => rfl
      · exact hok.empty a
    given := fun a => by
      rw [h.chunkPa, h.given]
      split_ifs
      · exact fun hne => absurd rfl hne
      · exact hok.given a
    apart := by
      rw [h.chunkPa, h.chunkPa, if_neg (by decide), if_pos rfl]
      exact partitionOf_ne_zero (hok.aligned .data)
    data := by
      rw [h.chunkPa, if_neg (by decide), h.cls]
      intro hne
      rw [if_neg fun hc => hok.apart hne hc.2.2, hok.data hne] }
  spare := by
    rintro f (hf | ⟨a, hne, hlo, hhi⟩)
    · exact .inl (by rwa [h.given] at hf)
    · rw [chunkPage, h.chunkPa, h.chunkLeft] at hlo
      rw [chunkPage, h.chunkPa] at hhi
      rw [h.chunkPa] at hne
      split_ifs at hne hlo hhi with ha
      · exact absurd rfl hne
      · exact .inr ⟨a, hne, hlo, hhi⟩
  space := h.space
  page := h.page

theorem keepsClass (h : Seals s s' true) : KeepsClass s s' := by
  intro f a _ hc
  cases a with
  | data =>
    refine ⟨?_, h.not_pending f⟩
    rw [h.cls, if_neg fun hp => hc.2 hp.2]
    exact hc.1
  | instr =>
    refine .inl ?_
    rw [h.cls]
    split_ifs with hp
    · rfl
    · rcases hc with hc | hc
      · exact hc
      · exact absurd ⟨rfl, hc⟩ hp

end Seals

/-- A class is changed once the pages have been written. -/
theorem forkSealChunk_spec (s : ForkSys α) (hok : s.ChunksOk) :
    Seals s (s.forkSealChunk M).1 (s.forkSealChunk M).2 := by
  rw [forkSealChunk]
  dsimp only
  split_ifs with hpa
  · refine ⟨rfl, rfl, fun a => ?_, fun a => ?_, rfl, fun q => ?_⟩
    · split_ifs with ha
      · exact ha ▸ hpa
      · rfl
    · split_ifs with ha
      · exact ha ▸ hok.empty .instr hpa
      · rfl
    · rw [if_neg fun hc => hc.2.1 hpa]
  · obtain ⟨hspace, hgiven, hcls⟩ := setPartitionAttr_spec (M := M) s.sys (s.chunkPa .instr) .instr
    rw [withSys, setChunk_sys]
    generalize s.sys.setPartitionAttr M (s.chunkPa .instr) CHUNK_2M_SIZE .instr = r at hspace hgiven hcls ⊢
    obtain ⟨sys, done⟩ := r
    refine ⟨hspace, rfl, setChunk_pa s .instr 0 0, setChunk_left s .instr 0 0, hgiven, fun q => ?_⟩
    exact (hcls q).trans (by simp only [ne_eq, hpa, not_false_eq_true, true_and])

/-! ## Pages -/

theorem cutPage_chunkPa (s : ForkSys α) (attr : MemAttr) : (s.cutPage attr).1.chunkPa = s.chunkPa :=
  Function.update_eq_self ..

theorem cutPage_chunkLeft (s : ForkSys α) (attr a : MemAttr) :
    (s.cutPage attr).1.chunkLeft a = if a = attr then s.chunkLeft attr - 1 else s.chunkLeft a :=
  setChunk_left ..

/-- The next page of a chunk. -/
theorem cutPage_pa (hok : s.ChunksOk) (attr : MemAttr) :
    (s.cutPage attr).2.toNat = (s.chunkPa attr).toNat + (512 - (s.chunkLeft attr).toNat) * 4096 := by
  have hleft := hok.left attr
  have hsmall := hok.small attr
  have hsub : (CHUNK_2M_PAGES - s.chunkLeft attr).toNat = 512 - (s.chunkLeft attr).toNat := by
    rw [BitVec.toNat_sub, show CHUNK_2M_PAGES.toNat = 512 from rfl]
    omega
  show (s.chunkPa attr + (CHUNK_2M_PAGES - s.chunkLeft attr) * PAGE_SIZE).toNat = _
  rw [BitVec.toNat_add, BitVec.toNat_mul, hsub, show PAGE_SIZE.toNat = 4096 from rfl]
  omega

theorem cutPage_spec (hok : s.ChunksOk) (hleft : s.chunkLeft attr ≠ 0) :
    Granted s (s.cutPage attr).1 attr (s.cutPage attr).2 1 := by
  have hne : s.chunkPa attr ≠ 0 := fun h0 => hleft (hok.empty attr h0)
  have hpos : (s.chunkLeft attr).toNat ≠ 0 := fun h0 => hleft (BitVec.eq_of_toNat_eq h0)
  have hle := hok.left attr
  have hal := hok.aligned attr
  have hsmall := hok.small attr
  have hpa := cutPage_pa hok attr
  have hpred : (s.chunkLeft attr - 1).toNat = (s.chunkLeft attr).toNat - 1 := by
    rw [BitVec.toNat_sub, show (1 : Word).toNat = 1 from rfl]
    omega
  -- the tail of the chunk after the page
  have htail : ∀ {f}, (s.cutPage attr).1.Spare f → s.Spare f ∧ f ≠ (s.cutPage attr).2.toNat / 4096 := by
    rintro f (hf | ⟨a, ha, hlo, hhi⟩)
    · refine ⟨.inl hf, ?_⟩
      rintro rfl
      obtain ⟨_, hgiven⟩ := hok.given_of_tail (f := (s.cutPage attr).2.toNat / 4096) hne
        (by rw [chunkPage]; omega) (by rw [chunkPage]; omega)
      exact Bool.false_ne_true (hf.symm.trans hgiven)
    · rw [cutPage_chunkPa] at ha
      rw [chunkPage, cutPage_chunkPa, ← chunkPage] at hlo hhi
      rw [cutPage_chunkLeft] at hlo
      have hlea := hok.left a
      split_ifs at hlo with hattr
      · subst hattr
        exact ⟨.inr ⟨a, ha, by omega, hhi⟩, by rw [chunkPage] at hlo; omega⟩
      · refine ⟨.inr ⟨a, ha, hlo, hhi⟩, ?_⟩
        rintro rfl
        have hself := div_of_chunk (f := (s.cutPage attr).2.toNat / 4096) hal (by omega) (by omega)
        obtain ⟨hother, _⟩ := hok.given_of_tail ha hlo hhi
        exact hattr (hok.partition_inj ha (hother.symm.trans hself))
  have hdiv : (s.cutPage attr).2.toNat / 4096 / 512 = partitionOf (s.chunkPa attr) :=
    div_of_chunk hal (by omega) (by omega)
  have hclass : ∀ f a, (s.cutPage attr).1.ClassOk f a ↔ s.ClassOk f a := by
    intro f a
    cases a <;> simp only [ClassOk, Pending, cutPage_chunkPa] <;> exact .rfl
  refine ⟨⟨?_, fun f hf => (htail hf).1, rfl, rfl⟩, fun f a _ hc => (hclass f a).mpr hc, by omega, by omega, ?_, ?_, ?_⟩
  · exact {
      aligned := by rw [cutPage_chunkPa]; exact hok.aligned
      small := by rw [cutPage_chunkPa]; exact hok.small
      left := fun a => by
        rw [cutPage_chunkLeft]
        split_ifs
        · omega
        · exact hok.left a
      empty := fun a h0 => by
        rw [cutPage_chunkPa] at h0
        rw [cutPage_chunkLeft, if_neg]
        · exact hok.empty a h0
        · rintro rfl
          exact hne h0
      given := by rw [cutPage_chunkPa]; exact hok.given
      apart := by rw [cutPage_chunkPa]; exact hok.apart
      data := by rw [cutPage_chunkPa]; exact hok.data }
  · intro k hk
    obtain rfl : k = 0 := by omega
    exact .inr ⟨attr, hne, by rw [chunkPage]; omega, by rw [chunkPage]; omega⟩
  · intro k hk hspare
    obtain rfl : k = 0 := by omega
    exact (htail hspare).2 rfl
  · intro k hk
    obtain rfl : k = 0 := by omega
    rw [hclass, Nat.add_zero]
    cases attr with
    | data =>
      refine ⟨hdiv ▸ hok.data hne, fun hp => ?_⟩
      exact hok.apart hne (hdiv.symm.trans hp.2)
    | instr => exact .inr ⟨hne, hdiv⟩

/-- A chunk whose pages are all there is the class's from now on. -/
theorem forkTakeChunk_spec (hok : s.ChunksOk) (attr : MemAttr) :
    match s.forkTakeChunk M attr with
    | (s', none) => Draws s s'
    | (s', some _) => Draws s s' ∧ KeepsClass s s' ∧ s'.chunkLeft attr = CHUNK_2M_PAGES := by
  have hseal : ∀ s₁ done, (if attr = .instr then s.forkSealChunk M else (s, true)) = (s₁, done) →
      Draws s s₁ ∧ (done = true → KeepsClass s s₁ ∧ (attr = .instr → s₁.chunkPa .instr = 0)) := by
    intro s₁ done h
    split_ifs at h with hattr
    · have hspec := forkSealChunk_spec (M := M) s hok
      rw [h] at hspec
      refine ⟨hspec.draws hok, fun hd => ⟨?_, fun _ => hspec.instr⟩⟩
      subst hd
      exact hspec.keepsClass
    · obtain ⟨rfl, rfl⟩ := Prod.mk.inj h
      exact ⟨.refl hok, fun _ => ⟨.refl s, fun h => absurd h hattr⟩⟩
  rw [forkTakeChunk]
  generalize (if attr = .instr then s.forkSealChunk M else (s, true)) = r at hseal
  obtain ⟨s₁, done⟩ := r
  obtain ⟨hdraws, hdone⟩ := hseal s₁ done rfl
  cases done with
  | false => exact hdraws
  | true =>
    obtain ⟨hkeeps, hinstr⟩ := hdone rfl
    have htake := takePartition_spec s₁ hdraws.chunks
    dsimp only
    generalize s₁.withSys (s₁.sys.allocAdjacentPages CHUNK_2M_PAGES .data) = r at htake ⊢
    obtain ⟨s₂, res⟩ := r
    cases res with
    | none => exact hdraws.trans htake.1
    | some pa =>
      refine ⟨hdraws.trans (Takes.setChunk htake hdraws.chunks attr (by decide)),
        hkeeps.trans hdraws.spare (Takes.setChunk_keepsClass htake attr hinstr), ?_⟩
      rw [setChunk_left, if_pos rfl]

/-- What is granted after a draw. -/
theorem Granted.of_draws {n : Nat} (h : Draws s s') (hk : KeepsClass s s') (hg : Granted s' s'' attr pa n) :
    Granted s s'' attr pa n where
  draws := h.trans hg.draws
  classes := hk.trans h.spare hg.classes
  small := hg.small
  aligned := hg.aligned
  spare k hk := h.spare _ (hg.spare k hk)
  used := hg.used
  cls := hg.cls

/-- `fork_alloc_page`. -/
theorem forkAllocPage_spec (hok : s.ChunksOk) (attr : MemAttr) :
    match s.forkAllocPage M attr with
    | (s', none) => Draws s s'
    | (s', some pa) => Granted s s' attr pa 1 := by
  rw [forkAllocPage]
  split_ifs with hleft
  · have htake := forkTakeChunk_spec (M := M) hok attr
    generalize s.forkTakeChunk M attr = r at htake ⊢
    obtain ⟨s₁, res⟩ := r
    cases res with
    | none => exact htake
    | some _ =>
      obtain ⟨hdraws, hkeeps, hfull⟩ := htake
      exact .of_draws hdraws hkeeps (cutPage_spec hdraws.chunks (by rw [hfull]; decide))
  · exact cutPage_spec hok hleft

/-- A whole partition. -/
theorem Takes.granted (h : Takes s s' pa) (hok : s.ChunksOk) : Granted s s' .data pa 512 where
  draws := h.draws hok
  classes := h.keepsClass
  small := h.small
  aligned := h.aligned
  spare k hk := h.spare (div_of_chunk h.aligned (Nat.le_add_right _ _) (by omega))
  used k hk := by
    have hdiv := div_of_chunk (f := pa.toNat / 4096 + k) h.aligned (Nat.le_add_right _ _) (by omega)
    rintro (hf | ⟨a, hne, hlo, hhi⟩)
    · rw [hdiv, h.given_self] at hf
      cases hf
    · obtain ⟨htail, _⟩ := (h.draws hok).chunks.given_of_tail hne hlo hhi
      rw [h.chunkPa] at htail hne
      exact h.ne hok hne (htail.symm.trans hdiv)
  cls k hk := by
    have hdiv := div_of_chunk (f := pa.toNat / 4096 + k) h.aligned (Nat.le_add_right _ _) (by omega)
    refine ⟨by rw [hdiv, h.cls, if_pos rfl], fun hp => ?_⟩
    rw [h.pending] at hp
    exact h.ne hok hp.1 (hp.2.symm.trans hdiv)

/-- A whole partition that will be one of instructions. -/
theorem Takes.granted_instr (h : Takes s s' pa) (hok : s.ChunksOk) (hinstr : s.chunkPa .instr = 0) :
    Granted s (s'.setChunk .instr pa (s'.chunkLeft .instr)) .instr pa 512 := by
  have hzero : s'.chunkLeft .instr = 0 := by rw [h.chunkLeft, hok.empty .instr hinstr]
  have hdraws : Draws s (s'.setChunk .instr pa (s'.chunkLeft .instr)) :=
    h.setChunk hok .instr (by rw [hzero]; decide)
  have hdiv : ∀ k < 512, (pa.toNat / 4096 + k) / 512 = partitionOf pa := fun k hk =>
    div_of_chunk h.aligned (Nat.le_add_right _ _) (by omega)
  refine ⟨hdraws, h.setChunk_keepsClass .instr fun _ => hinstr, h.small, h.aligned, fun k hk => h.spare (hdiv k hk), ?_, ?_⟩
  · intro k hk
    rintro (hf | ⟨a, hne, hlo, hhi⟩)
    · rw [hdiv k hk, setChunk_sys, h.given_self] at hf
      cases hf
    · obtain ⟨htail, _⟩ := hdraws.chunks.given_of_tail hne hlo hhi
      rw [chunkPage, setChunk_pa, setChunk_left] at hlo
      rw [chunkPage, setChunk_pa] at hhi
      rw [setChunk_pa] at htail hne
      split_ifs at hne hlo hhi htail with ha
      · rw [hzero, show (0 : Word).toNat = 0 from rfl] at hlo
        omega
      · rw [h.chunkPa] at hne htail
        exact h.ne hok hne (htail.symm.trans (hdiv k hk))
  · intro k hk
    refine .inr ⟨?_, ?_⟩
    · rw [setChunk_pa, if_pos rfl]
      exact h.pos
    · rw [setChunk_pa, if_pos rfl, hdiv k hk]

/-- `fork_alloc_chunk`. -/
theorem forkAllocChunk_spec (hok : s.ChunksOk) (attr : MemAttr) :
    match s.forkAllocChunk M attr with
    | (s', none) => Draws s s'
    | (s', some pa) => Granted s s' attr pa 512 := by
  cases attr with
  | data =>
    rw [forkAllocChunk]
    have htake := takePartition_spec s hok
    generalize s.withSys (s.sys.allocAdjacentPages CHUNK_2M_PAGES .data) = r at htake ⊢
    obtain ⟨s₁, res⟩ := r
    cases res with
    | none => exact htake.1
    | some pa => exact Takes.granted htake hok
  | instr =>
    have hseal := forkSealChunk_spec (M := M) s hok
    rw [forkAllocChunk]
    generalize s.forkSealChunk M = r at hseal ⊢
    obtain ⟨s₁, done⟩ := r
    have hdraws := Seals.draws hseal hok
    cases done with
    | false => exact hdraws
    | true =>
      have htake := takePartition_spec s₁ hdraws.chunks
      dsimp only
      generalize s₁.withSys (s₁.sys.allocAdjacentPages CHUNK_2M_PAGES .data) = r at htake ⊢
      obtain ⟨s₂, res⟩ := r
      cases res with
      | none => exact hdraws.trans htake.1
      | some pa =>
        refine .of_draws hdraws (Seals.keepsClass hseal) ?_
        exact Takes.granted_instr htake hdraws.chunks (Seals.instr hseal)

end Pyremu.Sittim.ForkSys
