import Pyremu.Sittim.MemCalls
import Pyremu.Sittim.Translation

/-!
# What `munmap` takes away

The walk of `munmap` clears the entry it meets and goes on behind the size of
that entry. It never splits a large leaf, so it is exact when every leaf that
the range meets lies in the range.
-/

namespace Pyremu.Sittim

/-- Every leaf that covers an address of the range lies in the range. -/
def Space.LeavesInside (s : Space) (start stop : Word) : Prop :=
  ∀ v level, start ≤ v → v < stop → s.vaRealPageLevel v = some level →
    start ≤ leafBase level v ∧ (leafBase level v).toNat + (leafPageSize level).toNat ≤ stop.toNat

/-- The call succeeds, nothing is mapped in the range any more, and every other address keeps its
translation and its flags. -/
def MunmapExact (M : Manager) (s : MemSys) (addr len : Word) : Prop :=
  (s.munmapHandler M addr len).2 = 0 ∧
    ∀ v, if addr ≤ v ∧ v < alignUp (addr + len) PAGE_SIZE then
        (s.munmapHandler M addr len).1.space.getPa v = none
      else
        (s.munmapHandler M addr len).1.space.getPa v = s.space.getPa v ∧
          (s.munmapHandler M addr len).1.space.leafPteFlags v = s.space.leafPteFlags v

namespace MemSys

variable {M : Manager} {s : MemSys} {stop : Word}

/-! ## One round -/

/-- The entry that covers `va` is cleared. -/
def unmapAt (M : Manager) (s : MemSys) (va : Word) : MemSys :=
  match s.space.vaRealPageLevel va with
  | some level => (s.onSpace (s.space.unmapPage M va level)).1
  | none => s

/-- Bytes from `va` to the next round. -/
def stride (s : MemSys) (va : Word) : Word :=
  match s.space.vaRealPageLevel va with
  | some level => leafPageSize level
  | none => PAGE_SIZE

theorem unmapFrom_succ (n : Nat) (s : MemSys) (va : Word) :
    unmapFrom M stop (n + 1) s va =
      if va < stop then unmapFrom M stop n (s.unmapAt M va) (va + s.stride va) else s := by
  rw [unmapFrom, unmapAt, stride]
  cases h : s.space.vaRealPageLevel va with
  | none => rfl
  | some level =>
    rw [Space.vaRealPageLevel_leafAt, Option.map_eq_some_iff] at h
    obtain ⟨⟨k, e⟩, hr, heq⟩ := h
    obtain rfl : k = level := heq
    have hl := Space.level_le hr
    have hcases : k = 0 ∨ k = 1 ∨ k = 2 := by omega
    rcases hcases with rfl | rfl | rfl <;> rfl

theorem unmapPage_leaf {s : Space} {va e : Word} {level : Nat} (hs : s.WellFormed M)
    (h : s.leafAt va = some (level, e)) :
    Space.Changes M (tablesFrom s.root) s (s.unmapPage M va level).1 va level fun _ => none := by
  obtain ⟨hcan, hleaf⟩ := Space.leafAt_some h
  have hspec := @Space.unmapPage_spec M _ _ va level hs (Space.level_le h) (through_tablesFrom s.root va)
  obtain ⟨t, hget, _⟩ := Space.getLeafPte_of_leaf (M := M) hcan hleaf
  have htrue : (s.unmapPage M va level).2 = true := by rw [Space.unmapPage, hget]
  rw [if_pos htrue] at hspec
  exact hspec.2

/-- A round takes the leaf of `va` away and no other. -/
theorem unmapAt_leafAt (hs : s.space.WellFormed M) (va : Word) :
    (s.unmapAt M va).space.WellFormed M ∧
      (s.space.leafAt va = none → s.unmapAt M va = s) ∧
      ∀ level e, s.space.leafAt va = some (level, e) → ∀ v, (s.unmapAt M va).space.leafAt v =
        if leafBase level va = leafBase level v then none else s.space.leafAt v := by
  rw [unmapAt, Space.vaRealPageLevel_leafAt]
  cases h : s.space.leafAt va with
  | none =>
    refine ⟨hs, fun _ => rfl, ?_⟩
    rintro level e ⟨⟩
  | some r =>
    obtain ⟨level, e⟩ := r
    have hchanges := unmapPage_leaf hs h
    refine ⟨Space.WellFormed.changes hchanges, ?_, ?_⟩
    · rintro ⟨⟩
    · rintro _ _ ⟨⟩ v
      exact Space.leafAt_changes hchanges (Space.level_le h) (Space.leafAt_some h).1 v

theorem stride_none {va : Word} (h : s.space.leafAt va = none) : s.stride va = PAGE_SIZE := by
  rw [stride, Space.vaRealPageLevel_leafAt, h]
  rfl

theorem stride_some {va e : Word} {level : Nat} (h : s.space.leafAt va = some (level, e)) :
    s.stride va = leafPageSize level := by
  rw [stride, Space.vaRealPageLevel_leafAt, h]
  rfl

theorem stride_bounds (s : MemSys) (va : Word) :
    4096 ≤ (s.stride va).toNat ∧ (s.stride va).toNat ≤ 2 ^ 30 := by
  cases h : s.space.leafAt va with
  | none =>
    rw [stride_none h]
    decide
  | some r =>
    rw [stride_some h, toNat_leafPageSize]
    exact ⟨Nat.le_of_dvd (Nat.two_pow_pos _) (page_dvd_size _),
      Nat.pow_le_pow_right (by decide) (offsetBits_le _)⟩

theorem page_dvd_stride (s : MemSys) (va : Word) : 4096 ∣ (s.stride va).toNat := by
  cases h : s.space.leafAt va with
  | none =>
    rw [stride_none h]
    decide
  | some r =>
    rw [stride_some h, toNat_leafPageSize]
    exact page_dvd_size _

theorem toNat_add_stride {va : Word} (s : MemSys) (hva : va.toNat < 2 ^ 38) :
    (va + s.stride va).toNat = va.toNat + (s.stride va).toNat := by
  have hs := (stride_bounds s va).2
  rw [BitVec.toNat_add]
  exact Nat.mod_eq_of_lt (by omega)

/-! ## The loop -/

theorem unmapFrom_done {va : Word} (n : Nat) (s : MemSys) (h : ¬ va < stop) : unmapFrom M stop n s va = s := by
  cases n with
  | zero => rfl
  | succ n => rw [unmapFrom_succ, if_neg h]

/-- The rounds reach the end of the range, and more of them do nothing. -/
theorem unmapFrom_enough {n m : Nat} {va : Word} (hstop : stop.toNat ≤ 2 ^ 38)
    (hn : stop.toNat ≤ va.toNat + n * 4096) (hm : stop.toNat ≤ va.toNat + m * 4096) :
    unmapFrom M stop n s va = unmapFrom M stop m s va := by
  induction n generalizing m s va with
  | zero =>
    have hge : ¬ va < stop := by
      rw [BitVec.lt_def]
      omega
    rw [unmapFrom_done 0 s hge, unmapFrom_done m s hge]
  | succ n ih =>
    by_cases hlt : va < stop
    · cases m with
      | zero =>
        rw [BitVec.lt_def] at hlt
        omega
      | succ m =>
        have hva : va.toNat < stop.toNat := hlt
        have hstride := (stride_bounds s va).1
        have hnext := @toNat_add_stride va s (by omega)
        rw [unmapFrom_succ, unmapFrom_succ, if_pos hlt, if_pos hlt]
        apply ih <;> omega
    · rw [unmapFrom_done _ s hlt, unmapFrom_done _ s hlt]

theorem unmapFrom_wellFormed (n : Nat) {s : MemSys} (va : Word) (hs : s.space.WellFormed M) :
    (unmapFrom M stop n s va).space.WellFormed M := by
  induction n generalizing s va with
  | zero => exact hs
  | succ n ih =>
    rw [unmapFrom_succ]
    split
    · exact ih _ (unmapAt_leafAt hs va).1
    · exact hs

/-! ### Where it is exact -/

/-- The leaves of a range lie in it, by addresses. -/
def Inside (s : MemSys) (start stop : Word) : Prop :=
  ∀ v level e, start.toNat ≤ v.toNat → v.toNat < stop.toNat → s.space.leafAt v = some (level, e) →
    start.toNat ≤ (leafBase level v).toNat ∧ (leafBase level v).toNat + 2 ^ offsetBits level ≤ stop.toNat

/-- Blocks of two leaves are apart or the same. -/
theorem leafBase_meet {s : Space} {va v e e' : Word} {level level' : Nat}
    (hva : s.leafAt va = some (level, e)) (hv : s.leafAt v = some (level', e'))
    (hmeet : leafBase level va = leafBase level (leafBase level' v)) :
    leafBase level va = leafBase level v := by
  have hbase : s.leafAt (leafBase level' v) = some (level', e') :=
    Space.leafAt_block hv (leafBase_leafBase level' v).symm
  rw [Space.leafAt_block hva hmeet] at hbase
  cases hbase
  rw [hmeet, leafBase_leafBase]

section Inside

variable {va : Word} (hin : s.Inside va stop) (hs : s.space.WellFormed M) (hva : va < stop)

include hin hva

/-- The walk comes to a leaf at its first address. -/
theorem Inside.at_base {level : Nat} {e : Word} (h : s.space.leafAt va = some (level, e)) :
    (leafBase level va).toNat = va.toNat :=
  Nat.le_antisymm (leafBase_le level va) (hin va level e le_rfl hva h).1

theorem Inside.fits (hpage : 4096 ∣ va.toNat) (hstop : 4096 ∣ stop.toNat) :
    va.toNat + (s.stride va).toNat ≤ stop.toNat := by
  have hlt : va.toNat < stop.toNat := hva
  cases h : s.space.leafAt va with
  | none =>
    rw [stride_none h, toNat_PAGE_SIZE]
    omega
  | some r =>
    obtain ⟨level, e⟩ := r
    have hbase := hin.at_base hva h
    rw [stride_some h, toNat_leafPageSize, ← hbase]
    exact (hin va level e le_rfl hlt h).2

variable (hpage : 4096 ∣ va.toNat)

include hs hpage

theorem Inside.unmapAt_leafAt (v : Word) :
    (s.unmapAt M va).space.leafAt v =
      if va.toNat ≤ v.toNat ∧ v.toNat < va.toNat + (s.stride va).toNat then none else s.space.leafAt v := by
  obtain ⟨_, hsame, hclear⟩ := MemSys.unmapAt_leafAt hs va
  cases h : s.space.leafAt va with
  | none =>
    rw [hsame h, stride_none h, toNat_PAGE_SIZE]
    split
    · rw [← h]
      apply Space.leafAt_page
      omega
    · rfl
  | some r =>
    obtain ⟨level, e⟩ := r
    have hbase := hin.at_base hva h
    rw [hclear level e h, stride_some h, toNat_leafPageSize]
    simp only [leafBase_eq_iff_mem, hbase]

/-- The leaves that are left lie in the rest of the range. -/
theorem Inside.next (hstop : stop.toNat ≤ 2 ^ 38) : (s.unmapAt M va).Inside (va + s.stride va) stop := by
  have hlt : va.toNat < stop.toNat := hva
  intro v level e hlo hhi hv
  rw [hin.unmapAt_leafAt hs hva hpage] at hv
  rw [toNat_add_stride s (by omega)] at hlo ⊢
  rw [if_neg (by omega)] at hv
  obtain ⟨hstart, hend⟩ := hin v level e (by omega) hhi hv
  refine ⟨?_, hend⟩
  by_contra hcut
  cases h : s.space.leafAt va with
  | none =>
    rw [stride_none h, toNat_PAGE_SIZE] at hcut
    have hb := Space.leafAt_block hv (leafBase_leafBase level v).symm
    rw [Space.leafAt_page (show _ = va.toNat / 4096 by omega), h] at hb
    cases hb
  | some r =>
    obtain ⟨k, e'⟩ := r
    have hbase := hin.at_base hva h
    rw [stride_some h, toNat_leafPageSize] at hcut hlo
    have hmeet := leafBase_meet h hv (leafBase_eq_iff_mem.mpr ⟨by omega, by omega⟩)
    have hmem := (leafBase_eq_iff_mem.mp hmeet).2
    omega

end Inside

/-- The loop takes away what the range holds. -/
theorem unmapFrom_inside {n : Nat} {va : Word} (hin : s.Inside va stop) (hs : s.space.WellFormed M)
    (hstop : stop.toNat ≤ 2 ^ 38) (hstopPage : 4096 ∣ stop.toNat) (hpage : 4096 ∣ va.toNat)
    (hn : stop.toNat ≤ va.toNat + n * 4096) (v : Word) :
    (unmapFrom M stop n s va).space.leafAt v =
      if va.toNat ≤ v.toNat ∧ v.toNat < stop.toNat then none else s.space.leafAt v := by
  induction n generalizing s va with
  | zero => rw [unmapFrom, if_neg (by omega)]
  | succ n ih =>
    by_cases hva : va < stop
    · have hlt : va.toNat < stop.toNat := hva
      have hstride := stride_bounds s va
      have hnext := @toNat_add_stride va s (by omega)
      have hdvd : 4096 ∣ (va + s.stride va).toNat := by
        rw [hnext]
        exact Nat.dvd_add hpage (page_dvd_stride s va)
      have hfits := hin.fits hva hpage hstopPage
      rw [unmapFrom_succ, if_pos hva, ih (hin.next hs hva hpage hstop) (MemSys.unmapAt_leafAt hs va).1 hdvd (by omega),
        hnext, hin.unmapAt_leafAt hs hva hpage]
      by_cases hin : va.toNat ≤ v.toNat ∧ v.toNat < stop.toNat
      · rw [if_pos hin]
        by_cases hfirst : v.toNat < va.toNat + (s.stride va).toNat
        · rw [if_neg (by omega), if_pos (by omega)]
        · rw [if_pos (by omega)]
      · rw [if_neg hin, if_neg (by omega), if_neg (by omega)]
    · have hge : stop.toNat ≤ va.toNat := Nat.le_of_not_lt hva
      rw [unmapFrom_done _ s hva, if_neg (by omega)]

/-! ### Where it is not -/

theorem unmapAt_none (hs : s.space.WellFormed M) (va : Word) {v : Word} (h : s.space.leafAt v = none) :
    (s.unmapAt M va).space.leafAt v = none := by
  obtain ⟨_, hsame, hclear⟩ := unmapAt_leafAt hs va
  cases hva : s.space.leafAt va with
  | none => rw [hsame hva, h]
  | some r =>
    rw [hclear r.1 r.2 hva, h]
    exact ite_self _

theorem unmapFrom_none (n : Nat) {s : MemSys} (va : Word) (hs : s.space.WellFormed M) {v : Word}
    (h : s.space.leafAt v = none) : (unmapFrom M stop n s va).space.leafAt v = none := by
  induction n generalizing s va with
  | zero => exact h
  | succ n ih =>
    rw [unmapFrom_succ]
    split
    · exact ih _ (unmapAt_leafAt hs va).1 (unmapAt_none hs va h)
    · exact h

/-- The addresses of one leaf stay mapped together or go together. -/
theorem unmapFrom_together (n : Nat) {s : MemSys} (va : Word) (hs : s.space.WellFormed M) {v w e : Word}
    {level : Nat} (hv : s.space.leafAt v = some (level, e)) (hw : leafBase level v = leafBase level w) :
    (unmapFrom M stop n s va).space.leafAt v = (unmapFrom M stop n s va).space.leafAt w := by
  induction n generalizing s va with
  | zero =>
    show s.space.leafAt v = s.space.leafAt w
    rw [hv, Space.leafAt_block hv hw]
  | succ n ih =>
    rw [unmapFrom_succ]
    split
    · obtain ⟨hs', hsame, hclear⟩ := unmapAt_leafAt hs va
      cases hva : s.space.leafAt va with
      | none =>
        rw [hsame hva]
        exact ih _ hs hv
      | some r =>
        obtain ⟨k, e'⟩ := r
        have hvl := hclear k e' hva v
        have hwl := hclear k e' hva w
        by_cases hblock : leafBase k va = leafBase k v
        · have hk := Space.leafAt_block hva hblock
          rw [hv] at hk
          cases hk
          rw [if_pos hblock] at hvl
          rw [if_pos (hblock.trans hw)] at hwl
          rw [unmapFrom_none n _ hs' hvl, unmapFrom_none n _ hs' hwl]
        · rw [if_neg hblock, hv] at hvl
          exact ih _ hs' hvl
    · rw [hv, Space.leafAt_block hv hw]

/-! ## The call -/

/-- The rounded end of a range of the user half. -/
theorem toNat_rangeEnd {addr len : Word} (hrange : isUmodeVaRange addr len = true) :
    (alignUp (addr + len) PAGE_SIZE).toNat = (addr.toNat + len.toNat + 4095) / 4096 * 4096 ∧
      addr.toNat + len.toNat ≤ 2 ^ 38 := by
  rw [isUmodeVaRange, Bool.and_eq_true, decide_eq_true_iff, decide_eq_true_iff] at hrange
  obtain ⟨hlt, hle⟩ := hrange
  have hsum : (addr + len).toNat = addr.toNat + len.toNat := by
    rw [BitVec.toNat_add]
    exact Nat.mod_eq_of_lt hlt
  rw [BitVec.le_def, hsum, toNat_UMODE_VA_LIMIT] at hle
  rw [toNat_pageUp (by omega), hsum]
  exact ⟨rfl, hle⟩

theorem page_dvd_of_and {addr : Word} (h : addr &&& (PAGE_SIZE - 1) = 0) : 4096 ∣ addr.toNat := by
  have hmask : (addr &&& (PAGE_SIZE - 1)).toNat = addr.toNat % 2 ^ 12 :=
    BitFields.toNat_and_mask (toNat_sub_one toNat_PAGE_SIZE)
  rw [h] at hmask
  exact Nat.dvd_of_mod_eq_zero hmask.symm

theorem le_pagesBetween (start stop : Word) : stop.toNat ≤ start.toNat + pagesBetween start stop * 4096 := by
  rw [pagesBetween]
  omega

theorem inside_of_leavesInside {start : Word} (h : s.space.LeavesInside start stop) : s.Inside start stop := by
  intro v level e hlo hhi hv
  have hlevel : s.space.vaRealPageLevel v = some level := by
    rw [Space.vaRealPageLevel_leafAt, hv]
    rfl
  rw [← toNat_leafPageSize]
  exact h v level hlo hhi hlevel

end MemSys

/-- `munmap` takes away the pages of its range and no others exactly when no leaf is cut by an end of
the range. -/
theorem munmap_exact_iff {M : Manager} {s : MemSys} {addr len : Word} (hs : s.space.WellFormed M)
    (haddr : addr &&& (PAGE_SIZE - 1) = 0) (hlen : len ≠ 0) (hrange : MemSys.isUmodeVaRange addr len = true) :
    MunmapExact M s addr len ↔ s.space.LeavesInside addr (alignUp (addr + len) PAGE_SIZE) := by
  obtain ⟨hstop, hle⟩ := MemSys.toNat_rangeEnd hrange
  have hpage := MemSys.page_dvd_of_and haddr
  have hlen' : len.toNat ≠ 0 := fun h => hlen (BitVec.eq_of_toNat_eq h)
  rw [MunmapExact, MemSys.munmapHandler, if_neg (not_or.mpr ⟨not_not.mpr haddr, hlen⟩), hrange]
  simp only [Bool.not_true, Bool.false_eq_true, if_false, true_and]
  generalize alignUp (addr + len) PAGE_SIZE = stop at hstop ⊢
  have hs' := @MemSys.unmapFrom_wellFormed M stop (MemSys.pagesBetween addr stop) s addr hs
  constructor
  · intro hexact v level hlo hhi hv
    rw [Space.vaRealPageLevel_leafAt, Option.map_eq_some_iff] at hv
    obtain ⟨⟨k, e⟩, hv, heq⟩ := hv
    obtain rfl : k = level := heq
    -- an address of the leaf outside the range would have to stay
    have hcut : ∀ w, leafBase k v = leafBase k w → addr ≤ w ∧ w < stop := by
      intro w hw
      by_contra hout
      have hgone := hexact v
      have hkept := hexact w
      rw [if_pos ⟨hlo, hhi⟩, Space.getPa_eq hs', Option.map_eq_none_iff,
        MemSys.unmapFrom_together _ addr hs hv hw] at hgone
      rw [if_neg hout, Space.getPa_eq hs', Space.getPa_eq hs, hgone, Space.leafAt_block hv hw] at hkept
      cases hkept.1
    refine ⟨(hcut _ (leafBase_leafBase k v).symm).1, ?_⟩
    rw [toNat_leafPageSize]
    by_contra hend
    have hbase := leafBase_le k v
    have hhi' : v.toNat < stop.toNat := hhi
    have hmem := hcut stop (leafBase_eq_iff_mem.mpr ⟨by omega, by omega⟩)
    exact absurd hmem.2 (BitVec.lt_irrefl _)
  · intro hin v
    have hleaf := MemSys.unmapFrom_inside (MemSys.inside_of_leavesInside hin) hs (by omega) (by omega) hpage
      (MemSys.le_pagesBetween addr stop) v
    rw [Space.getPa_eq hs', Space.getPa_eq hs, Space.leafPteFlags_leafAt, Space.leafPteFlags_leafAt]
    by_cases hv : addr ≤ v ∧ v < stop
    · rw [if_pos hv, hleaf.trans (if_pos ⟨hv.1, hv.2⟩)]
      rfl
    · rw [if_neg hv, hleaf.trans (if_neg hv)]
      exact ⟨rfl, rfl⟩

/-- One 2 MiB leaf at the base of the mapping region, as `mmap` leaves it there. -/
def oneBlock : MemSys where
  space := ((Space.empty smallManager).mapPage smallManager UMODE_MMAP_BASE 0x90000000
    (Pte.U ||| Pte.V ||| Pte.R ||| Pte.W) LEVEL_MEGA).1
  ctx := ⟨0, 0, 512, 0⟩
  mmode := ⟨[], [], fun p => decide (p = 0x480), fun _ => .data⟩

theorem munmap_exact_block :
    MunmapExact smallManager oneBlock UMODE_MMAP_BASE CHUNK_2M_SIZE ↔
      oneBlock.space.LeavesInside UMODE_MMAP_BASE
        (alignUp (UMODE_MMAP_BASE + CHUNK_2M_SIZE) PAGE_SIZE) :=
  munmap_exact_iff ((Space.wellFormed_empty smallManager).mapPage (by decide) (by decide)) (by decide) (by decide)
    (by decide)

/-- Unmapping the first page of a 2 MiB leaf takes its second page away as well. -/
theorem munmap_takes_neighbours : ¬ MunmapExact smallManager oneBlock UMODE_MMAP_BASE PAGE_SIZE := by
  intro h
  have hkept := h.2 (UMODE_MMAP_BASE + PAGE_SIZE)
  rw [if_neg (by decide)] at hkept
  exact absurd hkept.1 (by decide +kernel)

end Pyremu.Sittim
