import Pyremu.TlbSound

/-!
# The second translation of a page

After a translation has succeeded, the entry that it used or inserted is the
first of its set to serve the page. The next translation of an address on the
page hits that entry, touches neither page tables nor TLB and counts one hit.
-/

namespace Pyremu

/-! ## Lookups -/

theorem findWay_eq_some {tlb : Tlb} {set i : Nat} {f : TlbEntry → Bool} :
    findWay tlb set f = some i ↔ ∃ n < tlbWays, tlbSlot set n = i ∧
      f (tlb (tlbSlot set n)) = true ∧ ∀ j < n, f (tlb (tlbSlot set j)) = false := by
  rw [findWay, Option.map_eq_some_iff]
  constructor
  · rintro ⟨n, hn, hi⟩
    rw [List.find?_range_eq_some] at hn
    obtain ⟨hf, hmem, hfirst⟩ := hn
    refine ⟨n, List.mem_range.mp hmem, hi, hf, fun j hj => ?_⟩
    simpa using hfirst j hj
  · rintro ⟨n, hn, hi, hf, hfirst⟩
    refine ⟨n, ?_, hi⟩
    rw [List.find?_range_eq_some]
    refine ⟨hf, List.mem_range.mpr hn, fun j hj => ?_⟩
    simpa using hfirst j hj

theorem findWay_eq_none {tlb : Tlb} {set : Nat} {f : TlbEntry → Bool} (h : findWay tlb set f = none)
    {n : Nat} (hn : n < tlbWays) : f (tlb (tlbSlot set n)) = false := by
  rw [findWay, Option.map_eq_none_iff, List.find?_eq_none] at h
  simpa using h n (List.mem_range.mpr hn)

theorem tlbSlot_injective (set : Nat) : Function.Injective (tlbSlot set) := by
  intro a b h
  simp only [tlbSlot, tlbSets, tlbEntries, tlbWays] at h
  omega

section Lookup

variable {t t' : Tlb} {vpn : Word} {asid : BitVec 16} {e : TlbEntry} {n i : Nat}

theorem SameEntries.serves (h : SameEntries t t') (i : Nat) :
    (t' i).serves vpn asid = (t i).serves vpn asid := by
  obtain ⟨b, hb⟩ := h i
  rw [hb]
  rfl

/-- A clean, accessed entry behind ways that do not serve the page is hit, and nothing changes. -/
theorem tlbLookup_update (hn : n < tlbWays) (hbefore : ∀ j < n, (t (tlbSlot (tlbSet vpn) j)).serves vpn asid = false)
    (hs : e.serves vpn asid = true) (hd : e.dirty = false) (ha : e.accessed = true) :
    tlbLookup (Function.update t (tlbSlot (tlbSet vpn) n) e) vpn asid =
      (Function.update t (tlbSlot (tlbSet vpn) n) e, .hit (tlbSlot (tlbSet vpn) n)) := by
  have hway : findWay (Function.update t (tlbSlot (tlbSet vpn) n) e) (tlbSet vpn)
      (fun e => e.serves vpn asid) = some (tlbSlot (tlbSet vpn) n) := by
    rw [findWay_eq_some]
    refine ⟨n, hn, rfl, ?_, fun j hj => ?_⟩
    · rw [Function.update_self]
      exact hs
    · rw [Function.update_of_ne fun h => (Nat.ne_of_lt hj) (tlbSlot_injective _ h)]
      exact hbefore j hj
  have hacc : { e with accessed := true } = e := by
    cases e
    cases ha
    rfl
  rw [tlbLookup, hway]
  dsimp only
  rw [Function.update_self, if_neg (by rw [hd]; exact Bool.false_ne_true), hacc,
    Function.update_idem]

/-- What a lookup says of the ways of its set. -/
theorem tlbLookup_miss (h : (tlbLookup t vpn asid).2 = .miss) :
    findWay t (tlbSet vpn) (fun e => e.serves vpn asid) = none := by
  rw [tlbLookup] at h
  split at h
  · assumption
  · split at h <;> cases h

theorem tlbLookup_reuse (h : (tlbLookup t vpn asid).2 = .dirtyReuse i) :
    findWay t (tlbSet vpn) (fun e => e.serves vpn asid) = some i := by
  rw [tlbLookup] at h
  split at h
  · cases h
  · rename_i hw
    split at h
    · cases h
      exact hw
    · cases h

/-- A lookup that asks for a walk changes nothing. -/
theorem tlbLookup_walk (h : ∀ i, (tlbLookup t vpn asid).2 ≠ .hit i) : (tlbLookup t vpn asid).1 = t := by
  rw [tlbLookup] at h ⊢
  split
  · rfl
  · rename_i i hw
    rw [hw] at h
    dsimp only at h
    by_cases hd : (t i).dirty = true
    · rw [if_pos hd]
    · rw [if_neg hd] at h
      exact absurd rfl (h i)

/-- A lookup that hits leaves an entry which the next one hits in the same way. -/
theorem tlbLookup_again (h : tlbLookup t vpn asid = (t', .hit i)) :
    tlbLookup t' vpn asid = (t', .hit i) := by
  rw [tlbLookup] at h
  split at h
  · cases h
  · rename_i k hw
    by_cases hd : (t k).dirty = true
    · rw [if_pos hd] at h
      cases h
    · rw [if_neg hd] at h
      cases h
      obtain ⟨n, hn, rfl, hs, hbefore⟩ := findWay_eq_some.mp hw
      exact tlbLookup_update hn hbefore hs (Bool.not_eq_true _ ▸ hd) rfl

end Lookup

/-! ## Insertions -/

theorem tlbSet_lt (vpn : Word) : tlbSet vpn < tlbSets := by
  rw [tlbSet, BitVec.toNat_ushiftRight, Nat.shiftRight_eq_div_pow]
  exact Nat.div_lt_of_lt_mul (BitVec.isLt _)

theorem tlbSlot_mem {set n : Nat} (hset : set < tlbSets) (hn : n < tlbWays) :
    tlbSlot set n < tlbEntries ∧ tlbSlot set n % tlbSets = set := by
  simp only [tlbSlot, tlbSets, tlbEntries, tlbWays] at hset hn ⊢
  omega

/-- The entry to be replaced, for the two answers of a lookup that ask for a walk. -/
def reuseOf : TlbResult → Option Nat
  | .dirtyReuse i => some i
  | _ => none

theorem setVictim_slot (t : Tlb) (set : Nat) : ∃ n < tlbWays, (setVictim t set).2 = tlbSlot set n := by
  rw [setVictim]
  split
  · rename_i h
    obtain ⟨n, hn, hi, _⟩ := findWay_eq_some.mp h
    exact ⟨n, hn, hi.symm⟩
  · split
    · rename_i h
      obtain ⟨n, hn, hi, _⟩ := findWay_eq_some.mp h
      exact ⟨n, hn, hi.symm⟩
    · exact ⟨0, by decide, rfl⟩

/-- The slot chosen lies in the set, and no way before it serves the page. -/
theorem tlbInsertSlot_first {t : Tlb} {vpn : Word} {asid : BitVec 16} {a : TlbResult}
    (h : (tlbLookup t vpn asid).2 = a) (ha : ∀ i, a ≠ .hit i) :
    ∃ n < tlbWays, (tlbInsertSlot t (reuseOf a) vpn).2 = tlbSlot (tlbSet vpn) n ∧
      ∀ j < n, (t (tlbSlot (tlbSet vpn) j)).serves vpn asid = false := by
  cases a with
  | hit i => exact absurd rfl (ha i)
  | dirtyReuse i =>
    obtain ⟨n, hn, rfl, _, hbefore⟩ := findWay_eq_some.mp (tlbLookup_reuse h)
    have hin := tlbSlot_mem (tlbSet_lt vpn) hn
    refine ⟨n, hn, ?_, hbefore⟩
    rw [reuseOf, tlbInsertSlot, if_pos hin]
  | miss =>
    have hnone := tlbLookup_miss h
    show ∃ n < tlbWays, (tlbSlotForInsert t (tlbSet vpn) vpn).2 = _ ∧ _
    rw [tlbSlotForInsert]
    split
    · rename_i hw
      obtain ⟨n, hn, hi, _⟩ := findWay_eq_some.mp hw
      exact ⟨n, hn, hi.symm, fun j hj => findWay_eq_none hnone (hj.trans hn)⟩
    · obtain ⟨n, hn, hi⟩ := setVictim_slot t (tlbSet vpn)
      exact ⟨n, hn, hi, fun j hj => findWay_eq_none hnone (hj.trans hn)⟩

/-- What has been inserted is found. -/
theorem tlbLookup_insert {t : Tlb} {vpn : Word} {asid : BitVec 16} {a : TlbResult}
    (h : (tlbLookup t vpn asid).2 = a) (ha : ∀ i, a ≠ .hit i) (ppn : Word) (perm level : BitVec 8)
    (mdid : Word) :
    ∃ i, tlbLookup (tlbInsert t (reuseOf a) vpn ppn perm level mdid asid) vpn asid =
        (tlbInsert t (reuseOf a) vpn ppn perm level mdid asid, .hit i) ∧
      tlbInsert t (reuseOf a) vpn ppn perm level mdid asid i =
        ⟨vpn, ppn, perm, level, true, mdid, false, true, asid⟩ := by
  obtain ⟨n, hn, hslot, hbefore⟩ := tlbInsertSlot_first h ha
  refine ⟨tlbSlot (tlbSet vpn) n, ?_, ?_⟩
  · rw [tlbInsert, hslot]
    apply tlbLookup_update hn _ _ rfl rfl
    · intro j hj
      rw [(tlbInsertSlot_same t (reuseOf a) vpn).serves]
      exact hbefore j hj
    · simp [TlbEntry.serves]
  · rw [tlbInsert, hslot, Function.update_self]

/-! ## What a walk returns -/

/-- A leaf of one of the two levels, at the offset of `va`. -/
def LeafResult (va : Word) (r : TranslateResult) : Prop :=
  ∃ ppn perm, r = l0Result ppn perm (va &&& 0xFFF) ∨
    r = l1Result ppn perm ((va >>> 12) &&& 0x1FF) (va &&& 0xFFF)

def WalkLeaf (va : Word) : Except TranslateFault (Option TranslateResult) → Prop
  | .ok (some r) => LeafResult va r
  | _ => True

theorem walkL1Leaf_leaf (c : WalkCtx) (s : HartState) (p : PmpCtx) (l1Addr l1Raw l1Ppn va : Word)
    (perm : BitVec 8) (rwx : Rwx) :
    WalkLeaf va (walkL1Leaf c s p l1Addr l1Raw l1Ppn perm ((va >>> 12) &&& 0x1FF) (va &&& 0xFFF) rwx).2 := by
  simp only [walkL1Leaf]
  split
  · trivial
  · split
    · exact ⟨_, _, Or.inr rfl⟩
    · split
      · trivial
      · exact ⟨_, _, Or.inr rfl⟩
      · split
        · trivial
        · split
          · trivial
          · exact ⟨_, _, Or.inr rfl⟩

theorem walkL0_leaf (c : WalkCtx) (s : HartState) (p : PmpCtx) (l1Ppn vpn0 va : Word) (rwx : Rwx) :
    WalkLeaf va (walkL0 c s p l1Ppn vpn0 (va &&& 0xFFF) rwx).2 := by
  simp only [walkL0]
  split
  · trivial
  · split
    · trivial
    · split
      · trivial
      · split
        · exact ⟨_, _, Or.inl rfl⟩
        · split
          · trivial
          · exact ⟨_, _, Or.inl rfl⟩
          · split
            · trivial
            · split
              · trivial
              · split
                · trivial
                · exact ⟨_, _, Or.inl rfl⟩

theorem sv39Walk_leafResult (c : WalkCtx) (s : HartState) (p : PmpCtx) (satp va : Word) (rwx : Rwx) :
    WalkLeaf va (sv39Walk c s p satp va rwx).2 := by
  simp only [sv39Walk]
  split
  · trivial
  · split
    · trivial
    · trivial
    · split
      · trivial
      · split
        · trivial
        · trivial
        · split
          · exact walkL1Leaf_leaf _ _ _ _ _ _ va _ rwx
          · exact walkL0_leaf _ _ _ _ _ va rwx

/-- The inserted entry answers as the walk did. -/
theorem LeafResult.reconstruct {va : Word} {r : TranslateResult} (h : LeafResult va r) {e : TlbEntry}
    (hp : e.ppn = r.ppnForTlb) (hl : e.level = r.level) : reconstructTlbPa e va = r.pa := by
  obtain ⟨ppn, perm, rfl | rfl⟩ := h
  · rw [reconstructTlbPa, hl, if_neg (by rw [l0Result_level]; decide), hp]
    exact ppnForTlb_l0 ppn perm va va
  · rw [reconstructTlbPa, hl, if_pos (l1Result_level _ _ _ _), hp]
    apply ppnForTlb_l1
    rw [BitVec.and_assoc]
    rfl

/-! ## Addresses of one page -/

theorem pageOffset_toNat (va : Word) : (va &&& 0xFFF).toNat = va.toNat % 4096 := by
  rw [BitVec.toNat_and]
  exact Nat.and_two_pow_sub_one_eq_mod va.toNat 12

section Page

variable {va : Word} {k : Nat}

theorem toNat_add_page (h : (va &&& 0xFFF).toNat + k < 0x1000) :
    (va + BitVec.ofNat 64 k).toNat = va.toNat + k := by
  have hva := va.isLt
  rw [pageOffset_toNat] at h
  rw [BitVec.toNat_add, BitVec.toNat_ofNat]
  omega

theorem page_add (h : (va &&& 0xFFF).toNat + k < 0x1000) :
    (va + BitVec.ofNat 64 k) >>> 12 = va >>> 12 := by
  apply BitVec.eq_of_toNat_eq
  rw [BitVec.toNat_ushiftRight, BitVec.toNat_ushiftRight, toNat_add_page h, Nat.shiftRight_eq_div_pow,
    Nat.shiftRight_eq_div_pow]
  rw [pageOffset_toNat] at h
  omega

theorem offset_add (h : (va &&& 0xFFF).toNat + k < 0x1000) :
    (va + BitVec.ofNat 64 k) &&& 0xFFF = (va &&& 0xFFF) + BitVec.ofNat 64 k := by
  apply BitVec.eq_of_toNat_eq
  rw [pageOffset_toNat, toNat_add_page h, BitVec.toNat_add, BitVec.toNat_ofNat, pageOffset_toNat]
  rw [pageOffset_toNat] at h
  omega

/-- A page number and an offset do not carry. -/
theorem or_offset (x : Word) {o : Word} (ho : o.toNat < 0x1000) : (x <<< 12) ||| o = (x <<< 12) + o := by
  symm
  apply BitVec.add_eq_or_of_and_eq_zero
  apply BitVec.eq_of_getLsbD_eq
  intro i hi
  rw [BitVec.getLsbD_and, BitVec.getLsbD_shiftLeft]
  by_cases h12 : i < 12
  · simp [h12]
  · have hz : o.getLsbD i = false :=
      Nat.testBit_lt_two_pow (Nat.lt_of_lt_of_le ho (Nat.pow_le_pow_right (by decide) (Nat.not_lt.mp h12) : 2 ^ 12 ≤ 2 ^ i))
    rw [hz, Bool.and_false]
    simp

theorem reconstruct_add (e : TlbEntry) (h : (va &&& 0xFFF).toNat + k < 0x1000) :
    reconstructTlbPa e (va + BitVec.ofNat 64 k) = reconstructTlbPa e va + BitVec.ofNat 64 k := by
  have ho : (va &&& 0xFFF).toNat < 0x1000 := by omega
  have hk : ((va &&& 0xFFF) + BitVec.ofNat 64 k).toNat < 0x1000 := by
    rw [BitVec.toNat_add, BitVec.toNat_ofNat]
    omega
  simp only [reconstructTlbPa, page_add h, offset_add h]
  split
  · rw [or_offset _ hk, or_offset _ ho, BitVec.add_assoc]
  · rw [or_offset _ hk, or_offset _ ho, BitVec.add_assoc]

end Page

/-! ## Cached pages -/

/-- The TLB answers for `va` with `pa`, the right to the access included, and stays as it is. -/
def Cached (s : HartState) (va : Word) (rwx : Rwx) (m : Mode) (pa : Word) : Prop :=
  ∃ i, tlbLookup (s.tlb (hasExec rwx)) (va >>> 12) (satpAsid s.satp) = (s.tlb (hasExec rwx), .hit i) ∧
    reconstructTlbPa (s.tlb (hasExec rwx) i) va = pa ∧
    checkPtePerm (s.tlb (hasExec rwx) i).perm m s.mstatus (hasWrite rwx) (hasExec rwx) = true

section Cached

variable {cfg : Features} {s s' : HartState} {c c' : WalkCtx} {va pa : Word} {rwx : Rwx} {p : PmpCtx}
  {m : Mode} {t : TranslateResult}

theorem Cached.add (h : Cached s va rwx m pa) {k : Nat} (hk : (va &&& 0xFFF).toNat + k < 0x1000) :
    Cached s (va + BitVec.ofNat 64 k) rwx m (pa + BitVec.ofNat 64 k) := by
  obtain ⟨i, hl, hpa, hc⟩ := h
  refine ⟨i, ?_, ?_, hc⟩
  · rw [page_add hk]
    exact hl
  · rw [reconstruct_add _ hk, hpa]

theorem HartState.setTlb_self (s : HartState) (b : Bool) : s.setTlb b (s.tlb b) = s := by
  cases b <;> rfl

/-- The translation of a cached address is one hit. -/
theorem Cached.translateVa (h : Cached s va rwx m pa) (hn : cfg.noTlb = false) (hm : s.mmuMode = 8)
    (he : effectiveMode s = some m) (c : WalkCtx) (p : PmpCtx) :
    ∃ t, t.pa = pa ∧ Pyremu.translateVa cfg s c va rwx p =
      (recordTlbAccess s (hasExec rwx) true, c, .ok t) := by
  obtain ⟨i, hl, hpa, hc⟩ := h
  refine ⟨⟨pa, (s.tlb (hasExec rwx) i).perm, (s.tlb (hasExec rwx) i).level⟩, rfl, ?_⟩
  rw [Pyremu.translateVa, if_neg (not_not.mpr hm), he]
  dsimp only
  rw [tlbProbeCounted, if_neg (by rw [hn]; exact Bool.false_ne_true)]
  simp only [tlbProbe, hl]
  rw [if_neg (not_not.mpr rfl), if_neg (by rw [hc]; decide)]
  dsimp only
  rw [HartState.setTlb_self, hpa]
  rfl

theorem translateWalk_cached {cnt : Option Word} {a : TlbResult} (hn : cfg.noTlb = false)
    (hcnt : cnt = c.tlbFlushCnt) (ha : ∀ i, a ≠ .hit i)
    (hl : (tlbLookup (s.tlb (hasExec rwx)) (va >>> 12) (satpAsid s.satp)).2 = a)
    (h : translateWalk cfg s c va rwx p m cnt (reuseOf a) = (s', c', .ok t)) :
    Cached s' va rwx m t.pa := by
  have hleaf := sv39Walk_leafResult c s p s.satp va rwx
  have hframe := RamFrame.sv39Walk c s p s.satp va rwx
  rw [translateWalk] at h
  dsimp only at h
  rcases hw : sv39Walk c s p s.satp va rwx with ⟨c1, e | _ | r⟩
  · rw [hw] at h
    cases h
  · rw [hw] at h
    cases h
  · rw [hw] at h hleaf hframe
    dsimp only at h
    by_cases hc : checkPtePerm r.perm m s.mstatus (hasWrite rwx) (hasExec rwx) = true
    · rw [if_neg (by rw [hc]; decide),
        if_pos ⟨hcnt.trans hframe.tlbFlushCnt.symm, by rw [hn]; rfl⟩] at h
      cases h
      obtain ⟨i, hlook, hent⟩ := tlbLookup_insert hl ha t.ppnForTlb t.perm t.level s.mdid
      have htlb (t : Tlb) : (s.setTlb (hasExec rwx) t).tlb (hasExec rwx) = t := by
        rw [HartState.setTlb_tlb, if_pos rfl]
      have hfr := TlbFrame.setTlb s (hasExec rwx) (tlbInsert (s.tlb (hasExec rwx)) (reuseOf a)
        (va >>> 12) t.ppnForTlb t.perm t.level s.mdid (satpAsid s.satp))
      refine ⟨i, ?_, ?_, ?_⟩
      · rw [htlb, hfr.satp]
        exact hlook
      · rw [htlb]
        exact LeafResult.reconstruct hleaf (by rw [hent]) (by rw [hent])
      · rw [htlb, hent, hfr.mstatus]
        exact hc
    · rw [if_pos (by simpa using hc)] at h
      cases h

/-- Whatever the TLB held, a translation that succeeds leaves its page cached. -/
theorem cached_of_translateVa (hn : cfg.noTlb = false) (hm : s.mmuMode = 8)
    (he : effectiveMode s = some m) (h : translateVa cfg s c va rwx p = (s', c', .ok t)) :
    Cached s' va rwx m t.pa := by
  rw [translateVa, if_neg (not_not.mpr hm), he] at h
  dsimp only at h
  rw [tlbProbeCounted, if_neg (by rw [hn]; exact Bool.false_ne_true)] at h
  rcases hl : tlbLookup (s.tlb (hasExec rwx)) (va >>> 12) (satpAsid s.satp) with ⟨t1, i | i | _⟩
  · rw [tlbProbe, hl] at h
    dsimp only at h
    rw [if_neg (not_not.mpr rfl)] at h
    by_cases hc : checkPtePerm (t1 i).perm m s.mstatus (hasWrite rwx) (hasExec rwx) = true
    · rw [if_neg (by rw [hc]; decide)] at h
      cases h
      have hf : TlbFrame s (recordTlbAccess (s.setTlb (hasExec rwx) t1) (hasExec rwx) true) :=
        (TlbFrame.setTlb s _ t1).trans (TlbFrame.recordTlbAccess _ _ _)
      have htlb : (recordTlbAccess (s.setTlb (hasExec rwx) t1) (hasExec rwx) true).tlb (hasExec rwx) =
          t1 := by
        rw [recordTlbAccess_tlb, HartState.setTlb_tlb, if_pos rfl]
      change Cached (recordTlbAccess (s.setTlb (hasExec rwx) t1) (hasExec rwx) true) va rwx m
        (reconstructTlbPa (t1 i) va)
      rw [Cached, htlb, hf.satp, hf.mstatus]
      exact ⟨i, tlbLookup_again hl, rfl, hc⟩
    · rw [if_pos (by simpa using hc)] at h
      cases h
  · have ht1 := tlbLookup_walk (by rw [hl]; exact fun _ => TlbResult.noConfusion)
    rw [tlbProbe, hl] at h
    rw [hl] at ht1
    subst ht1
    dsimp only at h
    rw [HartState.setTlb_self] at h
    refine translateWalk_cached (a := .dirtyReuse i) hn rfl (fun _ => TlbResult.noConfusion) ?_ h
    rw [recordTlbAccess_tlb, (TlbFrame.recordTlbAccess s _ _).satp, hl]
  · have ht1 := tlbLookup_walk (by rw [hl]; exact fun _ => TlbResult.noConfusion)
    rw [tlbProbe, hl] at h
    rw [hl] at ht1
    subst ht1
    dsimp only at h
    rw [HartState.setTlb_self] at h
    refine translateWalk_cached (a := .miss) hn rfl (fun _ => TlbResult.noConfusion) ?_ h
    rw [recordTlbAccess_tlb, (TlbFrame.recordTlbAccess s _ _).satp, hl]

end Cached

end Pyremu
