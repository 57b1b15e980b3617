import Pyremu.Sittim.MemRuns

/-!
# The mapping region after a shrink

Shrinking the last mapping in place rolls the page counter back and leaves the
entries behind it. A later request maps over them, which works for 4 KiB leaves
and not for pages under a larger leaf.
-/

namespace Pyremu.Sittim

open Radix

namespace Space

variable {M : Manager} {P : Paths Word (Fin 512)} {s : Space} {va pa flags e : Word} {level : Nat}

/-! ## Why `map_page` fails -/

/-- The pool has no page left. -/
def Exhausted (M : Manager) (s : Space) : Prop := s.tryAllocSmodePage M 1 = none

theorem vpns_split {k : Nat} (hk : k ≤ 2) (va : Word) :
    ∃ q, vpns va = levelPath va k ++ getVpn va k :: q := by
  obtain ⟨q, hq⟩ := (sameEntry_iff hk va va).mp fun _ _ => rfl
  refine ⟨q, ?_⟩
  rw [← hq, List.append_assoc, List.singleton_append]

/-- The walk down stops at a leaf of the address, or for want of a page. -/
theorem descend_error (n : Nat) {k : Nat} {r t : Word} {err : MapError} (hok : s.Ok M P) (hk : k + n ≤ 2)
    (hthr : P.Through r (vpns va)) (ht : reach Pte.child s.mem r (levelPath va k) = some t)
    (herr : (descend M va true (List.range' k n) s t).2 = .error err) :
    (descend M va true (List.range' k n) s t).1.Exhausted M ∨
      ∃ i e, i < k + n ∧ s.leaf r va = some (i, e) := by
  induction n generalizing s t k with
  | zero => cases herr
  | succ n ih =>
    rw [List.range'_succ, descend] at herr ⊢
    have hp : P.mem r (levelPath va k ++ [getVpn va k]) := by
      rw [← levelPath_succ]
      exact levelPath_mem (by omega) hthr
    cases hv : Pte.isValid (s.pte ⟨t, getVpn va k⟩) with
    | false =>
      have hzero : s.pte ⟨t, getVpn va k⟩ = 0 := (hok.clean r _ t _ (P.init hp) ht).2.1 hv
      simp only [hv, Bool.not_false, if_true, Bool.not_true, Bool.false_eq_true, if_false] at herr ⊢
      cases ha : s.tryAllocSmodePage M 1 with
      | none => exact .inl ha
      | some x =>
        obtain ⟨a, s₁⟩ := x
        obtain ⟨hgrow, hreach⟩ := install_grows hok hp ht hv ha
        simp only [ha, hzero] at herr ⊢
        rw [← levelPath_succ] at hreach
        rcases ih hgrow.ok (by omega) hreach herr with hex | ⟨i, e, hi, hleaf⟩
        · exact .inl hex
        · rw [hgrow.leaf hthr] at hleaf
          exact .inr ⟨i, e, by omega, hleaf⟩
    | true =>
      simp only [hv, Bool.not_true, Bool.false_eq_true, if_false] at herr ⊢
      cases hl : Pte.isLeaf (s.pte ⟨t, getVpn va k⟩) with
      | true =>
        right
        obtain ⟨q, hq⟩ := vpns_split (k := k) (by omega) va
        refine ⟨k, s.pte ⟨t, getVpn va k⟩, by omega, ?_⟩
        have hv' : Pte.isValid (s.mem t (getVpn va k)) = true := hv
        have hl' : Pte.isLeaf (s.mem t (getVpn va k)) = true := hl
        rw [leaf, hq, view_append (fun _ => Pte.valid_of_child) ht (by simp),
          view_last hv' (.inl (Pte.child_of_leaf hl')), levelPath_length, Option.map_some, Nat.zero_add]
        rfl
      | false =>
        simp only [hl, Bool.false_eq_true, if_false] at herr ⊢
        have hreach : reach Pte.child s.mem r (levelPath va (k + 1)) =
            some (Pte.ppn (s.pte ⟨t, getVpn va k⟩) <<< 12) := by
          rw [levelPath_succ, reach_snoc, ht, Option.bind_some]
          exact Pte.child_of_pointer hv hl
        rcases ih hok (by omega) hreach herr with hex | ⟨i, e, hi, hleaf⟩
        · exact .inl hex
        · exact .inr ⟨i, e, by omega, hleaf⟩

/-- A canonical address without a larger leaf is refused only when the pool is exhausted. -/
theorem mapPage_error {err : MapError} (hs : s.WellFormed M) (hl : level ≤ 2) (hva : isCanonicalVa va = true)
    (hfine : ∀ k e, s.leafAt va = some (k, e) → level ≤ k)
    (herr : (s.mapPage M va pa flags level).2 = .error err) :
    (s.mapPage M va pa flags level).1.Exhausted M := by
  have hdescend := @descend_error M (tablesFrom s.root) s va level 0 s.root s.root err hs (by omega)
    (through_tablesFrom s.root va) rfl
  rw [← List.range_eq_range'] at hdescend
  rw [mapPage, getLeafPte, hva] at herr ⊢
  generalize descend M va true (List.range level) s s.root = d at hdescend herr ⊢
  obtain ⟨s', e | t⟩ := d
  · cases herr
    rcases hdescend rfl with hex | ⟨i, e, hi, hleaf⟩
    · exact hex
    · have hle := hfine i e (by rw [leafAt, if_pos hva, hleaf])
      omega
  · simp at herr

/-! ## Leaves of one size -/

/-- The leaves of the user half from `lo` on are not larger than those of a level. -/
def FineFrom (s : Space) (level lo : Nat) : Prop :=
  ∀ v k e, lo ≤ v.toNat → v.toNat < 2 ^ 38 → s.leafAt v = some (k, e) → level ≤ k

theorem FineFrom.mono {s : Space} {k lo : Nat} (h : s.FineFrom level lo) (hk : k ≤ level) : s.FineFrom k lo :=
  fun v j e hlo hhi hv => hk.trans (h v j e hlo hhi hv)

theorem FineFrom.mapPage {lo k : Nat} (h : s.FineFrom k lo) (hs : s.WellFormed M) (hl : level ≤ 2)
    (hk : k ≤ level) (hflags : UsableFlags flags) : (s.mapPage M va pa flags level).1.FineFrom k lo := by
  have hspec := @mapPage_spec M (tablesFrom s.root) s va pa flags level hs hl (through_tablesFrom s.root va) hflags
  intro v j e hlo hhi hv
  split at hspec
  · rw [leafAt_changes hspec.2 hl hspec.1] at hv
    split at hv
    · cases hv
      exact hk
    · exact h v j e hlo hhi hv
  · rw [leafAt_grows hspec] at hv
    exact h v j e hlo hhi hv

/-- An address in such a part of the user half is refused only when the pool is exhausted. -/
theorem FineFrom.mapPage_error {lo : Nat} {err : MapError} (h : s.FineFrom level lo) (hs : s.WellFormed M)
    (hl : level ≤ 2) (hlo : lo ≤ va.toNat) (hhi : va.toNat < 2 ^ 38)
    (herr : (s.mapPage M va pa flags level).2 = .error err) :
    (s.mapPage M va pa flags level).1.Exhausted M :=
  Space.mapPage_error hs hl (canonical_iff.mpr (.inl hhi)) (fun k e hv => h va k e hlo hhi hv) herr

end Space

/-! ## Ranges that are served -/

namespace MemSys

variable {M : Manager} {s : MemSys} {flags : Word} {lo : Nat}

/-- What a part of a request leaves: tables of the same shape, the counters as they were, and success
unless the pool is exhausted. -/
structure Served (M : Manager) (level lo : Nat) (s : MemSys) (r : MemSys × Bool) : Prop where
  wellFormed : r.1.space.WellFormed M
  fine : r.1.space.FineFrom level lo
  ctx : r.1.ctx = s.ctx
  mmode : r.1.mmode = s.mmode
  done : r.2 = true ∨ r.1.space.Exhausted M

theorem mapPagesAt_served {va pa : Word} (hflags : UsableFlags flags) {n i : Nat} {s : MemSys}
    (hs : s.space.WellFormed M) (hfine : s.space.FineFrom LEVEL_PAGE lo) (hlo : lo ≤ va.toNat + i * 4096)
    (hhi : va.toNat + (i + n) * 4096 ≤ 2 ^ 38) :
    Served M LEVEL_PAGE lo s (s.mapPagesAt M va pa flags i n) := by
  induction n generalizing i s with
  | zero => exact ⟨hs, hfine, rfl, rfl, .inl rfl⟩
  | succ n ih =>
    have hva : (va + BitVec.ofNat 64 i * PAGE_SIZE).toNat = va.toNat + i * 4096 :=
      toNat_add_pageOffset (by lia)
    have hrest := fun (s' : MemSys) hs' hfine' => ih (i := i + 1) (s := s') hs' hfine' (by lia) (by lia)
    rw [mapPagesAt]
    generalize va + BitVec.ofNat 64 i * PAGE_SIZE = va' at hva ⊢
    generalize pa + BitVec.ofNat 64 i * PAGE_SIZE = pa'
    have hs' : (s.space.mapPage M va' pa' flags LEVEL_PAGE).1.WellFormed M := hs.mapPage le_rfl hflags
    have hfine' : (s.space.mapPage M va' pa' flags LEVEL_PAGE).1.FineFrom LEVEL_PAGE lo :=
      hfine.mapPage hs le_rfl le_rfl hflags
    have hfail : ∀ err, (s.space.mapPage M va' pa' flags LEVEL_PAGE).2 = .error err →
        (s.space.mapPage M va' pa' flags LEVEL_PAGE).1.Exhausted M :=
      fun err => hfine.mapPage_error hs le_rfl (by lia) (by lia)
    generalize s.space.mapPage M va' pa' flags LEVEL_PAGE = r at hs' hfine' hfail ⊢
    obtain ⟨space, err | _⟩ := r
    · exact ⟨hs', hfine', rfl, rfl, .inr (hfail err rfl)⟩
    · have hnext := hrest { s with space := space } hs' hfine'
      exact ⟨hnext.wellFormed, hnext.fine, hnext.ctx, hnext.mmode, hnext.done⟩

end MemSys

/-! ## What M mode is asked for -/

/-- M mode grants the requests for partitions, one after the other. -/
def MMode.Grants : List Word → MMode → Prop
  | [], _ => True
  | n :: ns, m => n ≤ (m.memAlloc n .data).2.1 ∧ MMode.Grants ns (m.memAlloc n .data).1

def roundTo (unit n : Nat) : Nat := (n + (unit - 1)) / unit * unit

/-- The request is served with blocks of its own. -/
def TakesBlocks (bytes flags : Word) : Prop :=
  MemSys.attrOfPteFlags flags = .instr ∨ 512 * 4096 ≤ roundTo 4096 bytes.toNat

instance (bytes flags : Word) : Decidable (TakesBlocks bytes flags) := inferInstanceAs (Decidable (_ ∨ _))

/-- The request fits between the end of the last mapping and the end of the user half. -/
def FitsBehind (stop bytes flags : Word) : Prop :=
  bytes ≠ 0 ∧
    if TakesBlocks bytes flags then roundTo (2 ^ 21) stop.toNat + roundTo (2 ^ 21) bytes.toNat ≤ 2 ^ 38
    else stop.toNat + roundTo 4096 bytes.toNat ≤ 2 ^ 38

/-- The partitions that a request asks M mode for when the last mapping ends at `stop`: all at once,
one by one, or one for each block that the request begins. -/
def partitionsFor (stop bytes flags : Word) : List Word :=
  if MemSys.attrOfPteFlags flags = .instr then [BitVec.ofNat 64 (roundTo (2 ^ 21) bytes.toNat / 2 ^ 21)]
  else if TakesBlocks bytes flags then List.replicate (roundTo (2 ^ 21) bytes.toNat / 2 ^ 21) 1
  else
    List.replicate ((roundTo (2 ^ 21) (stop.toNat + roundTo 4096 bytes.toNat) -
      roundTo (2 ^ 21) stop.toNat) / 2 ^ 21) 1

/-- Behind `stop` every request that fits is served, unless M mode refuses a partition or the pool of
table pages is exhausted. -/
def Serves (M : Manager) (s : MemSys) (stop : Word) : Prop :=
  ∀ (mmode : MMode) (bytes flags : Word), UsableFlags flags → FitsBehind stop bytes flags →
    mmode.Grants (partitionsFor stop bytes flags) →
    ¬ ({ s with mmode := mmode }.takeMmapRegion M bytes flags).1.space.Exhausted M →
    ({ s with mmode := mmode }.takeMmapRegion M bytes flags).2 ≠ 0

namespace MemSys

variable {M : Manager} {s : MemSys} {flags stop bytes : Word} {lo : Nat}

/-! ## Counting pages and blocks -/

theorem toNat_mmapPageVa {n : Word} (h : n.toNat ≤ 2 ^ 26) :
    (mmapPageVa n).toNat = 8589934592 + n.toNat * 4096 := by
  have hmul : (n * PAGE_SIZE).toNat = n.toNat * 4096 := toNat_mul_PAGE_SIZE (by omega)
  rw [mmapPageVa, BitVec.toNat_add, hmul]
  exact Nat.mod_eq_of_lt (show 8589934592 + _ < _ by omega)

theorem inRegion {a b : Word} (h : a.toNat + b.toNat ≤ 65011712) : isMmapPagesInRegion a b = true := by
  have hregion : MMAP_REGION_PAGES.toNat = 65011712 := by decide
  have hsum : (a + b).toNat = a.toNat + b.toNat := by
    rw [BitVec.toNat_add]
    exact Nat.mod_eq_of_lt (by omega)
  rw [isMmapPagesInRegion, Bool.and_eq_true, decide_eq_true_iff, decide_eq_true_iff, BitVec.le_def, hsum, hregion]
  omega

theorem toNat_inBlock (used : Word) : (used &&& (CHUNK_2M_PAGES - 1)).toNat = used.toNat % 512 :=
  BitFields.toNat_and_mask (toNat_sub_one toNat_CHUNK_2M_PAGES)

/-! ## Partitions that are granted -/

theorem allocAdjacentPages_granted {pages n : Word}
    (hcount : alignUp (pages * PAGE_SIZE) CHUNK_2M_SIZE >>> CHUNK_2M_SHIFT = n) (hn : n ≠ 0)
    (h : n ≤ (s.mmode.memAlloc n .data).2.1) :
    s.allocAdjacentPages pages .data =
      ({ s with mmode := (s.mmode.memAlloc n .data).1 }, some (s.mmode.memAlloc n .data).2.2) := by
  simp only [allocAdjacentPages, hcount]
  rw [if_neg hn, if_neg (BitVec.not_lt.mpr h)]

/-! ## Requests of whole blocks -/

theorem growFrom_served (start : Word) {upTo : Word} (hflags : UsableFlags flags)
    (hdata : attrOfPteFlags flags = .data) {n k i : Nat} {s : MemSys} (hs : s.space.WellFormed M)
    (hfine : s.space.FineFrom LEVEL_MEGA lo) (hlo : lo ≤ start.toNat)
    (hupTo : upTo.toNat = start.toNat + (i + k) * 2097152) (hhi : upTo.toNat ≤ 2 ^ 38) (hn : k ≤ n)
    (hgrants : MMode.Grants (List.replicate k 1) s.mmode) :
    (growFrom M flags upTo n s (blockVa start i)).2 = upTo ∨
      (growFrom M flags upTo n s (blockVa start i)).1.space.Exhausted M := by
  induction n generalizing k i s with
  | zero =>
    left
    apply BitVec.eq_of_toNat_eq
    rw [growFrom, toNat_blockVa (by lia)]
    lia
  | succ n ih =>
    have hva : (blockVa start i).toNat = start.toNat + i * 2097152 := toNat_blockVa (by lia)
    cases k with
    | zero =>
      have heq : blockVa start i = upTo := BitVec.eq_of_toNat_eq (by lia)
      rw [heq, growFrom_done _ s (BitVec.lt_irrefl _)]
      exact .inl rfl
    | succ k =>
      have hlt : blockVa start i < upTo := by
        rw [BitVec.lt_def, hva]
        lia
      obtain ⟨hgrant, hgrants⟩ := hgrants
      obtain ⟨m, granted, pa, halloc, hround⟩ := @growFrom_cases M flags _ _ n s hlt
      rw [hdata] at halloc
      rw [halloc] at hgrant hgrants
      have hs' : (s.space.mapPage M (blockVa start i) pa flags LEVEL_MEGA).1.WellFormed M :=
        hs.mapPage (by decide) hflags
      have hfine' : (s.space.mapPage M (blockVa start i) pa flags LEVEL_MEGA).1.FineFrom LEVEL_MEGA lo :=
        hfine.mapPage hs (by decide) le_rfl hflags
      rcases hround with ⟨rfl, _⟩ | ⟨_, space, r, hr, ⟨err, rfl, heq⟩ | ⟨u, _, heq⟩⟩
      · exact absurd (show (1 : Word) ≤ 0 from hgrant) (by decide)
      · right
        have hfail : (s.space.mapPage M (blockVa start i) pa flags LEVEL_MEGA).1.Exhausted M :=
          @Space.FineFrom.mapPage_error _ _ _ _ _ _ _ err hfine hs (by decide) (by lia) (by lia) (by rw [hr])
        rw [hr] at hfail
        rw [heq]
        exact hfail
      · rw [hr] at hs' hfine'
        rw [heq, blockVa_succ]
        exact ih (k := k) (i := i + 1) hs' hfine' (by lia) (by lia) hgrants

theorem growUmodeVa_served (start : Word) {upTo : Word} {k : Nat} (hflags : UsableFlags flags)
    (hdata : attrOfPteFlags flags = .data) (hs : s.space.WellFormed M)
    (hfine : s.space.FineFrom LEVEL_MEGA lo) (hlo : lo ≤ start.toNat)
    (hupTo : upTo.toNat = start.toNat + k * 2097152) (hhi : upTo.toNat ≤ 2 ^ 38)
    (hgrants : MMode.Grants (List.replicate k 1) s.mmode) :
    (s.growUmodeVa M start upTo flags).2 = upTo ∨ (s.growUmodeVa M start upTo flags).1.space.Exhausted M := by
  have hlimit : ¬ upTo > UMODE_VA_LIMIT := by
    rw [gt_iff_lt, BitVec.lt_def, toNat_UMODE_VA_LIMIT]
    lia
  have hstart : blockVa start 0 = start := by simp [blockVa]
  have hserved := growFrom_served (M := M) start (n := blocksBetween start upTo) (k := k) (i := 0)
    hflags hdata hs hfine hlo (by lia) hhi (by rw [blocksBetween]; lia) hgrants
  rw [hstart] at hserved
  rw [growUmodeVa]
  simp only [if_neg hlimit]
  exact hserved

/-! ## Requests of single pages -/

/-- M mode after the block for a place in it, if that takes a new one. -/
def blockMode (m : MMode) (inBlock : Nat) : MMode := if inBlock = 0 then (m.memAlloc 1 .data).1 else m

theorem splitBlock_granted {inBlock : Word} (splitPa : Word)
    (h : inBlock.toNat = 0 → 1 ≤ (s.mmode.memAlloc 1 .data).2.1) :
    ∃ block, s.splitBlock inBlock splitPa = ({ s with mmode := blockMode s.mmode inBlock.toNat }, some block) := by
  rw [splitBlock, blockMode]
  by_cases hzero : inBlock = 0
  · subst hzero
    have halloc : s.allocAdjacentPages CHUNK_2M_PAGES .data = _ :=
      allocAdjacentPages_granted (n := 1) (by decide) (by decide) (h rfl)
    exact ⟨_, (if_pos rfl).trans halloc⟩
  · have hne : ¬ inBlock.toNat = 0 := fun heq => hzero (BitVec.eq_of_toNat_eq heq)
    rw [if_neg hzero, if_neg hne]
    exact ⟨_, rfl⟩

/-- The pages that one round delivers. -/
def roundPages (pages done used : Nat) : Nat := min (pages - done) (512 - used % 512)

theorem carve_served {va pages done : Word} (splitPa : Word) (hflags : UsableFlags flags) (hs : s.space.WellFormed M)
    (hfine : s.space.FineFrom LEVEL_PAGE lo) (hlo : lo ≤ va.toNat) (hdone : done < pages)
    (hend : va.toNat + pages.toNat * 4096 ≤ 2 ^ 38)
    (hgrant : s.ctx.mmapPagesUsed.toNat % 512 = 0 → 1 ≤ (s.mmode.memAlloc 1 .data).2.1) :
    (s.carve M va pages flags done splitPa).1.space.Exhausted M ∧
        (s.carve M va pages flags done splitPa).2 = none ∨
      ∃ s' k block, s.carve M va pages flags done splitPa = (s', some (k, block)) ∧
        k.toNat = roundPages pages.toNat done.toNat s.ctx.mmapPagesUsed.toNat ∧
        s'.space.WellFormed M ∧ s'.space.FineFrom LEVEL_PAGE lo ∧
        s'.ctx.mmapPagesUsed = s.ctx.mmapPagesUsed + k ∧
        s'.mmode = blockMode s.mmode (s.ctx.mmapPagesUsed.toNat % 512) := by
  have hin := toNat_inBlock s.ctx.mmapPagesUsed
  have hlt : done.toNat < pages.toNat := hdone
  simp only [carve]
  generalize s.ctx.mmapPagesUsed &&& (CHUNK_2M_PAGES - 1) = inBlock at hin ⊢
  have hleft : (pages - done).toNat = pages.toNat - done.toNat :=
    BitVec.toNat_sub_of_le (BitVec.le_def.mpr (Nat.le_of_lt hlt))
  have hroom : (CHUNK_2M_PAGES - inBlock).toNat = 512 - inBlock.toNat := by
    have hle : inBlock ≤ CHUNK_2M_PAGES := by
      rw [BitVec.le_def, toNat_CHUNK_2M_PAGES]
      omega
    rw [BitVec.toNat_sub_of_le hle]
    rfl
  have hk : (if pages - done < CHUNK_2M_PAGES - inBlock then pages - done
      else CHUNK_2M_PAGES - inBlock).toNat =
        roundPages pages.toNat done.toNat s.ctx.mmapPagesUsed.toNat := by
    rw [roundPages, ← hin]
    split
    · rename_i hless
      rw [BitVec.lt_def, hleft, hroom] at hless
      rw [hleft, Nat.min_eq_left (Nat.le_of_lt hless)]
    · rename_i hmore
      rw [BitVec.lt_def, hleft, hroom] at hmore
      rw [hroom, Nat.min_eq_right (Nat.le_of_not_lt hmore)]
  generalize (if pages - done < CHUNK_2M_PAGES - inBlock then pages - done
    else CHUNK_2M_PAGES - inBlock) = k at hk ⊢
  have hmul : (done * PAGE_SIZE).toNat = done.toNat * 4096 := toNat_mul_PAGE_SIZE (by lia)
  have hva : (va + done * PAGE_SIZE).toNat = va.toNat + done.toNat * 4096 := by
    rw [BitVec.toNat_add, hmul]
    exact Nat.mod_eq_of_lt (by lia)
  have hkle : k.toNat ≤ pages.toNat - done.toNat := by
    rw [hk, roundPages]
    exact Nat.min_le_left _ _
  have hgrant' : inBlock.toNat = 0 → 1 ≤ (s.mmode.memAlloc 1 .data).2.1 := by
    rw [hin]
    exact hgrant
  obtain ⟨block, hblock⟩ := splitBlock_granted splitPa hgrant'
  rw [hblock, ← hin]
  dsimp only
  have hserved : Served M LEVEL_PAGE lo { s with mmode := blockMode s.mmode inBlock.toNat }
      (mapPagesAt M { s with mmode := blockMode s.mmode inBlock.toNat } (va + done * PAGE_SIZE)
        (block + inBlock * PAGE_SIZE) flags 0 k.toNat) :=
    mapPagesAt_served hflags hs hfine (by lia) (by lia)
  generalize mapPagesAt M { s with mmode := blockMode s.mmode inBlock.toNat } (va + done * PAGE_SIZE)
    (block + inBlock * PAGE_SIZE) flags 0 k.toNat = r at hserved ⊢
  obtain ⟨s', _ | _⟩ := r
  · left
    refine ⟨?_, rfl⟩
    rcases hserved.done with hdone | hex
    · cases hdone
    · exact hex
  · right
    have hctx : s'.ctx = s.ctx := hserved.ctx
    refine ⟨_, k, block, rfl, hk, hserved.wellFormed, hserved.fine, ?_, hserved.mmode⟩
    show s'.ctx.mmapPagesUsed + k = s.ctx.mmapPagesUsed + k
    rw [hctx]

/-- Blocks that a request begins behind `used` pages. -/
def newBlocks (used pages : Nat) : Nat := (used + pages + 511) / 512 - (used + 511) / 512

theorem newBlocks_round {pages done used : Nat} (hdone : done < pages) :
    newBlocks used (pages - done) = (if used % 512 = 0 then 1 else 0) +
      newBlocks (used + roundPages pages done used) (pages - (done + roundPages pages done used)) := by
  rw [newBlocks, newBlocks, roundPages]
  split <;> omega

theorem takeFrom_served {va pages : Word} (hflags : UsableFlags flags) {n : Nat} {s : MemSys}
    {done splitPa : Word} (hs : s.space.WellFormed M) (hfine : s.space.FineFrom LEVEL_PAGE lo)
    (hlo : lo ≤ va.toNat) (hdone : done.toNat ≤ pages.toNat) (hn : pages.toNat ≤ done.toNat + n)
    (hend : va.toNat + pages.toNat * 4096 ≤ 2 ^ 38)
    (hused : s.ctx.mmapPagesUsed.toNat + (pages.toNat - done.toNat) ≤ 2 ^ 26)
    (hgrants : MMode.Grants (List.replicate
      (newBlocks s.ctx.mmapPagesUsed.toNat (pages.toNat - done.toNat)) 1) s.mmode) :
    (takeFrom M va pages flags n s done splitPa).2 = pages ∨
      (takeFrom M va pages flags n s done splitPa).1.space.Exhausted M := by
  induction n generalizing s done splitPa with
  | zero =>
    left
    apply BitVec.eq_of_toNat_eq
    rw [takeFrom]
    lia
  | succ n ih =>
    rw [takeFrom]
    by_cases hlt : done < pages
    · have hlt' : done.toNat < pages.toNat := hlt
      rw [if_pos hlt]
      rw [newBlocks_round hlt'] at hgrants
      have hgrant : s.ctx.mmapPagesUsed.toNat % 512 = 0 → 1 ≤ (s.mmode.memAlloc 1 .data).2.1 := by
        intro hzero
        rw [if_pos hzero, Nat.add_comm, List.replicate_succ] at hgrants
        exact hgrants.1
      rcases carve_served splitPa hflags hs hfine hlo hlt hend hgrant with
        ⟨hex, hnone⟩ | ⟨s', k, block, heq, hk, hs', hfine', hused', hmode⟩
      · right
        generalize s.carve M va pages flags done splitPa = r at hex hnone ⊢
        obtain ⟨s', result⟩ := r
        obtain rfl : result = none := hnone
        exact hex
      · have hpos : 0 < k.toNat ∧ k.toNat ≤ pages.toNat - done.toNat := by
          rw [hk, roundPages]
          omega
        have hsum : (done + k).toNat = done.toNat + k.toNat := by
          rw [BitVec.toNat_add]
          exact Nat.mod_eq_of_lt (by lia)
        have husum : s'.ctx.mmapPagesUsed.toNat = s.ctx.mmapPagesUsed.toNat + k.toNat := by
          rw [hused', BitVec.toNat_add]
          exact Nat.mod_eq_of_lt (by lia)
        rw [heq]
        apply ih hs' hfine' (by lia) (by lia) (by lia)
        rw [husum, hsum, hk, hmode, blockMode]
        split
        · rename_i hzero
          rw [if_pos hzero, Nat.add_comm, List.replicate_succ] at hgrants
          exact hgrants.2
        · rename_i hne
          rw [if_neg hne, Nat.zero_add] at hgrants
          exact hgrants
    · rw [if_neg hlt]
      left
      rw [BitVec.lt_def] at hlt
      exact BitVec.eq_of_toNat_eq (by lia)

/-! ## The three ways of a request -/

theorem ne_zero_of_base {va : Word} (h : 8589934592 ≤ va.toNat) : va ≠ 0 := by
  rintro rfl
  exact absurd h (by decide)

section Ways

variable {pages aligned blocks : Word} (hflags : UsableFlags flags) (hs : s.space.WellFormed M)

include hflags hs

theorem takeInstrBlocks_served (hfine : s.space.FineFrom LEVEL_PAGE lo)
    (hlo : lo ≤ 8589934592 + aligned.toNat * 4096) (hpages : pages.toNat ≤ blocks.toNat * 512)
    (hblocks : blocks ≠ 0) (hregion : aligned.toNat + blocks.toNat * 512 ≤ 65011712)
    (hgrant : blocks ≤ (s.mmode.memAlloc blocks .data).2.1) :
    (s.takeInstrBlocks M pages aligned blocks flags).2 ≠ 0 ∨
      (s.takeInstrBlocks M pages aligned blocks flags).1.space.Exhausted M := by
  have hmul : (blocks * CHUNK_2M_PAGES).toNat = blocks.toNat * 512 := by
    rw [BitVec.toNat_mul, toNat_CHUNK_2M_PAGES]
    exact Nat.mod_eq_of_lt (by omega)
  have hbytes : (blocks * CHUNK_2M_PAGES * PAGE_SIZE).toNat = blocks.toNat * 512 * 4096 := by
    rw [toNat_mul_PAGE_SIZE (by omega), hmul]
  have hcount : alignUp (blocks * CHUNK_2M_PAGES * PAGE_SIZE) CHUNK_2M_SIZE >>> CHUNK_2M_SHIFT = blocks := by
    apply BitVec.eq_of_toNat_eq
    rw [CHUNK_2M_SHIFT, toNat_chunkCount (by omega), hbytes]
    omega
  have hva := toNat_mmapPageVa (n := aligned) (by omega)
  have hne : mmapPageVa aligned ≠ 0 := ne_zero_of_base (by omega)
  have hserved : Served M LEVEL_PAGE lo { s with mmode := (s.mmode.memAlloc blocks .data).1 }
      (mapPagesAt M { s with mmode := (s.mmode.memAlloc blocks .data).1 } (mmapPageVa aligned)
        (s.mmode.memAlloc blocks .data).2.2 (flags ||| Pte.R ||| Pte.W) 0 pages.toNat) :=
    mapPagesAt_served ((hflags.or (by decide)).or (by decide)) hs hfine (by omega) (by omega)
  rw [takeInstrBlocks, inRegion (by omega), allocAdjacentPages_granted hcount hblocks hgrant]
  simp only [Bool.not_true, Bool.false_eq_true, if_false]
  generalize mapPagesAt M { s with mmode := (s.mmode.memAlloc blocks .data).1 } (mmapPageVa aligned)
    (s.mmode.memAlloc blocks .data).2.2 (flags ||| Pte.R ||| Pte.W) 0 pages.toNat = r at hserved ⊢
  obtain ⟨s', _ | _⟩ := r
  · right
    rcases hserved.done with hdone | hex
    · cases hdone
    · exact hex
  · exact .inl hne

theorem takeWholeBlocks_served (hdata : attrOfPteFlags flags = .data) (hfine : s.space.FineFrom LEVEL_MEGA lo)
    (hlo : lo ≤ 8589934592 + aligned.toNat * 4096)
    (hregion : aligned.toNat + blocks.toNat * 512 ≤ 65011712)
    (hgrants : MMode.Grants (List.replicate blocks.toNat 1) s.mmode) :
    (s.takeWholeBlocks M aligned blocks flags).2 ≠ 0 ∨
      (s.takeWholeBlocks M aligned blocks flags).1.space.Exhausted M := by
  have hmul : (blocks * CHUNK_2M_PAGES).toNat = blocks.toNat * 512 := by
    rw [BitVec.toNat_mul, toNat_CHUNK_2M_PAGES]
    exact Nat.mod_eq_of_lt (by omega)
  have hbytes : (blocks * CHUNK_2M_SIZE).toNat = blocks.toNat * 2097152 := by
    rw [BitVec.toNat_mul, toNat_CHUNK_2M_SIZE]
    exact Nat.mod_eq_of_lt (by omega)
  have hva := toNat_mmapPageVa (n := aligned) (by omega)
  have hend : (mmapPageVa aligned + blocks * CHUNK_2M_SIZE).toNat =
      (mmapPageVa aligned).toNat + blocks.toNat * 2097152 := by
    rw [BitVec.toNat_add, hbytes]
    exact Nat.mod_eq_of_lt (by omega)
  have hne : mmapPageVa aligned ≠ 0 := ne_zero_of_base (by omega)
  have hserved := growUmodeVa_served (M := M) (mmapPageVa aligned) hflags hdata hs hfine (by omega) hend
    (by omega) hgrants
  have hin : ¬ (!isMmapPagesInRegion aligned (blocks * CHUNK_2M_PAGES)) = true := by
    rw [inRegion (by omega)]
    decide
  rw [takeWholeBlocks, if_neg hin]
  generalize s.growUmodeVa M (mmapPageVa aligned) (mmapPageVa aligned + blocks * CHUNK_2M_SIZE) flags = r
    at hserved ⊢
  obtain ⟨s', got⟩ := r
  rcases hserved with hgot | hex
  · left
    obtain rfl : got = _ := hgot
    dsimp only
    rw [if_neg (BitVec.lt_irrefl _)]
    exact hne
  · right
    dsimp only
    split <;> exact hex

theorem takeSmall_served (hfine : s.space.FineFrom LEVEL_PAGE lo)
    (hlo : lo ≤ 8589934592 + s.ctx.mmapPagesUsed.toNat * 4096)
    (hregion : s.ctx.mmapPagesUsed.toNat + pages.toNat ≤ 65011712)
    (hgrants : MMode.Grants (List.replicate (newBlocks s.ctx.mmapPagesUsed.toNat pages.toNat) 1) s.mmode) :
    (s.takeSmall M pages flags).2 ≠ 0 ∨ (s.takeSmall M pages flags).1.space.Exhausted M := by
  have hva : s.mmapRegionEnd.toNat = 8589934592 + s.ctx.mmapPagesUsed.toNat * 4096 :=
    toNat_mmapPageVa (by omega)
  have hne : s.mmapRegionEnd ≠ 0 := ne_zero_of_base (by omega)
  have hserved : (takeFrom M s.mmapRegionEnd pages flags pages.toNat s 0 s.ctx.currMmapPa).2 = pages ∨
      (takeFrom M s.mmapRegionEnd pages flags pages.toNat s 0 s.ctx.currMmapPa).1.space.Exhausted M :=
    takeFrom_served hflags hs hfine (by omega) (Nat.zero_le _) (Nat.le_add_left _ _) (by omega)
      (show _ + (pages.toNat - 0) ≤ _ by omega) hgrants
  rw [takeSmall, inRegion hregion]
  simp only [Bool.not_true, Bool.false_eq_true, if_false]
  generalize takeFrom M s.mmapRegionEnd pages flags pages.toNat s 0 s.ctx.currMmapPa = r at hserved ⊢
  obtain ⟨s', done⟩ := r
  rcases hserved with hdone | hex
  · left
    obtain rfl : done = pages := hdone
    rw [if_neg (BitVec.lt_irrefl _)]
    exact hne
  · right
    dsimp only
    split <;> exact hex

end Ways

/-! ## A request -/

section Request

variable (hflags : UsableFlags flags) (hs : s.space.WellFormed M)
  (hstop : stop.toNat = 8589934592 + s.ctx.mmapPagesUsed.toNat * 4096)

include hflags hs hstop

/-- A request that fits behind 4 KiB leaves fails only for want of partitions or table pages. -/
theorem takeMmapRegion_served (hlimit : stop.toNat ≤ 2 ^ 38) (hfine : s.space.FineFrom LEVEL_PAGE stop.toNat)
    (hfits : FitsBehind stop bytes flags) (hgrants : s.mmode.Grants (partitionsFor stop bytes flags)) :
    (s.takeMmapRegion M bytes flags).2 ≠ 0 ∨ (s.takeMmapRegion M bytes flags).1.space.Exhausted M := by
  obtain ⟨hbytes, hfits⟩ := hfits
  have hpos : 0 < bytes.toNat := Nat.pos_of_ne_zero fun h => hbytes (BitVec.eq_of_toNat_eq h)
  have hsmall : bytes.toNat ≤ 2 ^ 38 := by
    split at hfits <;> simp only [roundTo] at hfits <;> omega
  have hpages : (alignUp bytes PAGE_SIZE >>> PAGE_SHIFT).toNat = (bytes.toNat + 4095) / 4096 :=
    toNat_pageCount (by omega)
  have haligned := toNat_pagesUp (x := s.ctx.mmapPagesUsed) (by omega)
  have hwhole : (alignUp bytes PAGE_SIZE >>> PAGE_SHIFT * PAGE_SIZE).toNat =
      (bytes.toNat + 4095) / 4096 * 4096 := by
    rw [toNat_mul_PAGE_SIZE (by omega), hpages]
  have hblocks : (alignUp (alignUp bytes PAGE_SIZE >>> PAGE_SHIFT * PAGE_SIZE) CHUNK_2M_SIZE >>>
      CHUNK_2M_SHIFT).toNat = roundTo (2 ^ 21) bytes.toNat / 2 ^ 21 := by
    rw [CHUNK_2M_SHIFT, toNat_chunkCount (by omega), hwhole, roundTo]
    omega
  have hvalid : ¬ (bytes = 0 ∨ bytes > UMODE_VA_LIMIT) := by
    rw [gt_iff_lt, BitVec.lt_def, toNat_UMODE_VA_LIMIT]
    rintro (hzero | hlarge)
    · exact hbytes hzero
    · omega
  simp only [takeMmapRegion]
  rw [if_neg hvalid]
  generalize alignUp bytes PAGE_SIZE >>> PAGE_SHIFT = pages at hpages hwhole hblocks ⊢
  generalize alignUp (pages * PAGE_SIZE) CHUNK_2M_SIZE >>> CHUNK_2M_SHIFT = blocks at hblocks ⊢
  generalize alignUp s.ctx.mmapPagesUsed CHUNK_2M_PAGES = aligned at haligned ⊢
  rw [partitionsFor] at hgrants
  by_cases hinstr : attrOfPteFlags flags = .instr
  · rw [if_pos (.inl hinstr), roundTo, roundTo] at hfits
    rw [if_pos hinstr, ← hblocks, BitVec.ofNat_toNat, BitVec.setWidth_eq] at hgrants
    rw [if_pos hinstr]
    rw [roundTo] at hblocks
    have hne : blocks ≠ 0 := by
      rintro rfl
      have hzero : (0 : Word).toNat = 0 := rfl
      omega
    exact takeInstrBlocks_served hflags hs hfine (by omega) (by omega) hne (by omega) hgrants.1
  · have hdata : attrOfPteFlags flags = .data := by
      cases hattr : attrOfPteFlags flags with
      | data => rfl
      | instr => exact absurd hattr hinstr
    rw [if_neg hinstr] at hgrants ⊢
    by_cases hlarge : 512 * 4096 ≤ roundTo 4096 bytes.toNat
    · have htakes : TakesBlocks bytes flags := .inr hlarge
      rw [if_pos htakes, roundTo, roundTo] at hfits
      rw [if_pos htakes, ← hblocks] at hgrants
      rw [roundTo] at hblocks hlarge
      have hge : pages ≥ CHUNK_2M_PAGES := by
        rw [ge_iff_le, BitVec.le_def, toNat_CHUNK_2M_PAGES]
        omega
      rw [if_pos hge]
      exact takeWholeBlocks_served hflags hs hdata (hfine.mono (by decide)) (by omega) (by omega) hgrants
    · have htakes : ¬ TakesBlocks bytes flags := not_or.mpr ⟨hinstr, hlarge⟩
      rw [if_neg htakes, roundTo] at hfits
      rw [if_neg htakes, roundTo, roundTo, roundTo] at hgrants
      rw [roundTo] at hlarge
      have hlt : ¬ pages ≥ CHUNK_2M_PAGES := by
        rw [ge_iff_le, BitVec.le_def, toNat_CHUNK_2M_PAGES]
        omega
      have hcount : newBlocks s.ctx.mmapPagesUsed.toNat pages.toNat =
          ((stop.toNat + (bytes.toNat + (4096 - 1)) / 4096 * 4096 + (2 ^ 21 - 1)) / 2 ^ 21 * 2 ^ 21 -
            (stop.toNat + (2 ^ 21 - 1)) / 2 ^ 21 * 2 ^ 21) / 2 ^ 21 := by
        rw [newBlocks]
        omega
      rw [← hcount] at hgrants
      rw [if_neg hlt]
      exact takeSmall_served hflags hs hfine (by omega) (by omega) hgrants

end Request

/-! ## The shrink -/

/-- A shrink in place moves the counter and leaves the tables alone. -/
theorem growMmapInPlace_shrink {s' : MemSys} {addr oldSize newSize : Word}
    (h : s.growMmapInPlace M addr oldSize newSize = (s', true))
    (hshrink : alignUp (addr + newSize) PAGE_SIZE ≤ alignUp (addr + oldSize) PAGE_SIZE) :
    addr + newSize ≤ UMODE_VA_LIMIT ∧ s'.space = s.space ∧
      s'.ctx.mmapPagesUsed = mmapPageIndexOf (alignUp (addr + newSize) PAGE_SIZE) := by
  simp only [growMmapInPlace] at h
  by_cases hover : 2 ^ 64 ≤ addr.toNat + oldSize.toNat ∨ 2 ^ 64 ≤ addr.toNat + newSize.toNat
  · rw [if_pos hover] at h
    cases h
  · rw [if_neg hover] at h
    by_cases hlimit : addr + newSize > UMODE_VA_LIMIT
    · rw [if_pos hlimit] at h
      cases h
    · rw [if_neg hlimit, if_pos hshrink] at h
      by_cases hallowed : (!s.isMmapShrinkInPlaceAllowed (alignUp (addr + oldSize) PAGE_SIZE)
          (alignUp (addr + newSize) PAGE_SIZE)) = true
      · rw [if_pos hallowed] at h
        cases h
      · rw [if_neg hallowed, Prod.mk.injEq] at h
        obtain ⟨rfl, _⟩ := h
        refine ⟨BitVec.not_lt.mp hlimit, ?_, rfl⟩
        show (if _ then s.setCurrPa 0 else s).space = s.space
        split <;> rfl

end MemSys

open MemSys

/-- The shrunk mapping still ends in the mapping region, and behind its end nothing is mapped with
leaves of 2 MiB or more. -/
def LeavesPages (s : MemSys) (stop : Word) : Prop :=
  UMODE_MMAP_BASE ≤ stop ∧ ∀ v, stop ≤ v → v < UMODE_VA_LIMIT →
    s.space.vaRealPageLevel v = none ∨ s.space.vaRealPageLevel v = some LEVEL_PAGE

/-- After a shrink in place that leaves only 4 KiB leaves behind, every request that fits is served. -/
theorem shrink_serves {M : Manager} {s s' : MemSys} {addr oldSize newSize : Word} (hs : Reachable M s)
    (hgrow : s.growMmapInPlace M addr oldSize newSize = (s', true))
    (hshrink : alignUp (addr + newSize) PAGE_SIZE ≤ alignUp (addr + oldSize) PAGE_SIZE)
    (hpages : LeavesPages s (alignUp (addr + newSize) PAGE_SIZE)) :
    Serves M s' (alignUp (addr + newSize) PAGE_SIZE) := by
  intro mmode bytes flags hflags hfits hgrants hpool
  obtain ⟨hlimit, hspace, hused⟩ := growMmapInPlace_shrink hgrow hshrink
  obtain ⟨hbase, hpages⟩ := hpages
  rw [BitVec.le_def, toNat_UMODE_VA_LIMIT] at hlimit
  have hend := toNat_pageUp (x := addr + newSize) (by omega)
  generalize alignUp (addr + newSize) PAGE_SIZE = stop at hused hbase hpages hfits hgrants hend
  have hbase' : 8589934592 ≤ stop.toNat := hbase
  have hindex : (mmapPageIndexOf stop).toNat = (stop.toNat - 8589934592) / 4096 := by
    rw [mmapPageIndexOf, BitVec.toNat_ushiftRight, BitVec.toNat_sub_of_le hbase, Nat.shiftRight_eq_div_pow]
    rfl
  have hwf : s'.space.WellFormed M := by
    rw [hspace]
    exact hs.sound.wellFormed
  have hfine : s'.space.FineFrom LEVEL_PAGE stop.toNat := by
    intro v k e hlo hhi hv
    rw [hspace] at hv
    have hlevel : s.space.vaRealPageLevel v = some k := by
      rw [Space.vaRealPageLevel_leafAt, hv]
      rfl
    rcases hpages v hlo hhi with hnone | hpage
    · rw [hlevel] at hnone
      cases hnone
    · rw [hlevel] at hpage
      cases hpage
      exact le_rfl
  have hstop : stop.toNat = 8589934592 + s'.ctx.mmapPagesUsed.toNat * 4096 := by
    rw [hused, hindex]
    omega
  rcases takeMmapRegion_served (s := { s' with mmode := mmode }) hflags hwf hstop (by omega) hfine hfits hgrants with
    hserved | hex
  · exact hserved
  · exact absurd hex hpool

/-- A process that has mapped nothing yet, and M mode with partitions to give. -/
def untouched : MemSys where
  space := Space.empty smallManager
  ctx := ⟨0, 0, 0, 0⟩
  mmode := ⟨[0x480, 0x481, 0x482], [], fun _ => false, fun _ => .data⟩

theorem fresh_untouched : Fresh smallManager untouched := ⟨Space.sound_empty smallManager, rfl, rfl⟩

theorem eq_served {r : MemSys × Bool} (h : r.2 = true) : r = (r.1, true) := Prod.ext rfl h

/-- Two pages in leaves of their own. -/
def twoPages : MemSys := (untouched.call smallManager (.mmap 0 0x2000 3 0x22 0 0)).1

theorem twoPages_space :
    twoPages.space = (((Space.empty smallManager).mapPage smallManager UMODE_MMAP_BASE 0x90000000 (protToPte 3)
      LEVEL_PAGE).1.mapPage smallManager (UMODE_MMAP_BASE + PAGE_SIZE) 0x90001000 (protToPte 3) LEVEL_PAGE).1 :=
  rfl

theorem leavesPages_twoPages : LeavesPages twoPages (alignUp (UMODE_MMAP_BASE + 0x1000) PAGE_SIZE) := by
  refine ⟨by decide, fun v hlo hhi => ?_⟩
  have hempty : (Space.empty smallManager).FineFrom LEVEL_PAGE 0 := by
    intro v k e _ _ hv
    rw [Space.leafAt_empty] at hv
    cases hv
  have hs := Space.wellFormed_empty smallManager
  have hflags := usableFlags_protToPte 3
  have hfine : twoPages.space.FineFrom LEVEL_PAGE 0 := by
    rw [twoPages_space]
    exact (hempty.mapPage hs le_rfl le_rfl hflags).mapPage (hs.mapPage le_rfl hflags) le_rfl le_rfl hflags
  rw [Space.vaRealPageLevel_leafAt]
  cases hv : twoPages.space.leafAt v with
  | none => exact .inl rfl
  | some r =>
    have hle := hfine v r.1 r.2 (Nat.zero_le _) hhi hv
    exact .inr (congrArg some (Nat.le_antisymm (Space.level_le hv) hle))

theorem shrink_serves_pages :
    (twoPages.growMmapInPlace smallManager UMODE_MMAP_BASE 0x2000 0x1000).2 = true ∧
      Serves smallManager (twoPages.growMmapInPlace smallManager UMODE_MMAP_BASE 0x2000 0x1000).1
        (alignUp (UMODE_MMAP_BASE + 0x1000) PAGE_SIZE) := by
  have hgrow : (twoPages.growMmapInPlace smallManager UMODE_MMAP_BASE 0x2000 0x1000).2 = true := by
    decide +kernel
  have hreach : Reachable smallManager twoPages :=
    ⟨untouched, fresh_untouched, .single (.call untouched (.mmap 0 0x2000 3 0x22 0 0))⟩
  exact ⟨hgrow, shrink_serves hreach (eq_served hgrow) (by decide) leavesPages_twoPages⟩

/-- 4 MiB in two leaves of 2 MiB. -/
def twoBlocks : MemSys := (untouched.call smallManager (.mmap 0 0x400000 3 0x22 0 0)).1

/-- After 4 MiB were shrunk to 2 MiB a single page can no longer be mapped. -/
theorem shrink_wedges : ¬ ∀ (s s' : MemSys) (addr oldSize newSize : Word), Reachable smallManager s →
    s.growMmapInPlace smallManager addr oldSize newSize = (s', true) →
    alignUp (addr + newSize) PAGE_SIZE ≤ alignUp (addr + oldSize) PAGE_SIZE →
    Serves smallManager s' (alignUp (addr + newSize) PAGE_SIZE) := by
  intro h
  have hreach : Reachable smallManager twoBlocks :=
    ⟨untouched, fresh_untouched, .single (.call untouched (.mmap 0 0x400000 3 0x22 0 0))⟩
  have hgrow : (twoBlocks.growMmapInPlace smallManager UMODE_MMAP_BASE 0x400000 0x200000).2 = true := by
    decide +kernel
  have hserves := h twoBlocks _ UMODE_MMAP_BASE 0x400000 0x200000 hreach (eq_served hgrow) (by decide)
    ⟨[0x482], [], fun p => decide (p = 0x480 ∨ p = 0x481), fun _ => .data⟩ 4096 (protToPte 3)
    (usableFlags_protToPte 3) ⟨by decide, by decide⟩ ⟨by decide +kernel, trivial⟩
  refine hserves ?_ (by decide +kernel)
  intro hex
  rw [Space.Exhausted, ← Option.not_isSome_iff_eq_none] at hex
  exact hex (by decide +kernel)

end Pyremu.Sittim
