import Pyremu.PageTable
import Pyremu.HartSched
import Pyremu.Lib.Run

/-!
# TLBs and page tables

Every clean entry of a TLB stands for a leaf of the current page tables whose
path has been accessed. The invariant is kept by lookups, insertions, flushes
and satp writes. An answer from the TLB is then compared with the walk that an
empty TLB would start.
-/

namespace Pyremu

open ByteMem

/-! ## Lookups and insertions -/

/-- Up to access bits the two TLBs are equal. -/
def SameEntries (t t' : Tlb) : Prop := ∀ i, ∃ b, t' i = { t i with accessed := b }

theorem SameEntries.refl (t : Tlb) : SameEntries t t := fun i => ⟨(t i).accessed, rfl⟩

theorem findWay_some {tlb : Tlb} {set : Nat} {f : TlbEntry → Bool} {i : Nat}
    (h : findWay tlb set f = some i) : f (tlb i) = true := by
  simp only [findWay, Option.map_eq_some_iff] at h
  obtain ⟨w, hw, rfl⟩ := h
  have hf := List.find?_some hw
  exact hf

theorem findWay_none {tlb : Tlb} {set : Nat} {f : TlbEntry → Bool} (h : ∀ i, f (tlb i) = false) :
    findWay tlb set f = none := by
  simp only [findWay, Option.map_eq_none_iff, List.find?_eq_none]
  intro w _
  simp [h]

section Tlb

variable {tlb tlb' : Tlb} {vpn : Word} {asid : BitVec 16} {i : Nat}

theorem tlbLookup_same (tlb : Tlb) (vpn : Word) (asid : BitVec 16) :
    SameEntries tlb (tlbLookup tlb vpn asid).1 := by
  simp only [tlbLookup]
  split
  · exact .refl tlb
  · rename_i i _
    split
    · exact .refl tlb
    · intro j
      by_cases hj : j = i
      · subst hj
        exact ⟨true, Function.update_self ..⟩
      · exact ⟨(tlb j).accessed, Function.update_of_ne hj _ _⟩

theorem tlbLookup_hit (h : (tlbLookup tlb vpn asid).2 = .hit i) :
    (tlb i).valid = true ∧ (tlb i).dirty = false ∧ (tlb i).vpn = vpn := by
  simp only [tlbLookup] at h
  split at h
  · cases h
  · rename_i hw
    split at h
    · cases h
    · rename_i hd
      cases h
      have hs := findWay_some hw
      simp only [TlbEntry.serves, Bool.and_eq_true, beq_iff_eq] at hs
      exact ⟨hs.1.1, by simpa using hd, hs.1.2⟩

/-- Without valid entries every lookup misses. -/
theorem tlbLookup_empty (h : ∀ i, (tlb i).valid = false) (vpn : Word) (asid : BitVec 16) :
    tlbLookup tlb vpn asid = (tlb, .miss) := by
  rw [tlbLookup, findWay_none]
  intro i
  simp [TlbEntry.serves, h]

theorem setVictim_same (tlb : Tlb) (set : Nat) : SameEntries tlb (setVictim tlb set).1 := by
  simp only [setVictim]
  split
  · exact .refl tlb
  · split
    · exact .refl tlb
    · intro j
      by_cases hj : j ∈ (List.range tlbWays).map (tlbSlot set)
      · exact ⟨false, if_pos hj⟩
      · exact ⟨(tlb j).accessed, if_neg hj⟩

theorem tlbInsertSlot_same (tlb : Tlb) (prefer : Option Nat) (vpn : Word) :
    SameEntries tlb (tlbInsertSlot tlb prefer vpn).1 := by
  have hslot : SameEntries tlb (tlbSlotForInsert tlb (tlbSet vpn) vpn).1 := by
    simp only [tlbSlotForInsert]
    split
    · exact .refl tlb
    · exact setVictim_same _ _
  simp only [tlbInsertSlot]
  split
  · split
    · exact .refl tlb
    · exact hslot
  · exact hslot

end Tlb

/-! ## Pages -/

/-- The entries of a page depend on its number only. -/
theorem sv39DecomposeVa_page {va va' : Word} (h : va' >>> 12 = va >>> 12) :
    sv39DecomposeVa va' = { sv39DecomposeVa va with offset := va' &&& 0xFFF } := by
  have h30 : va' >>> 30 = va >>> 30 := by
    rw [show 30 = 12 + 18 from rfl, BitVec.shiftRight_add, h, ← BitVec.shiftRight_add]
  have h21 : va' >>> 21 = va >>> 21 := by
    rw [show 21 = 12 + 9 from rfl, BitVec.shiftRight_add, h, ← BitVec.shiftRight_add]
  simp only [sv39DecomposeVa, h30, h21, h]

theorem leafOf_page (c : WalkCtx) (satp : Word) {va va' : Word} (h : va' >>> 12 = va >>> 12) :
    leafOf c satp va' = leafOf c satp va := by
  simp only [leafOf, sv39DecomposeVa_page h]

/-- The page number of an address that was put together from one. -/
theorem page_of_or (x : Word) (va : Word) :
    ((x <<< 12) ||| (va &&& 0xFFF)) >>> 12 <<< 12 = x <<< 12 := by
  apply BitVec.eq_of_getLsbD_eq
  intro i hi
  simp only [BitVec.getLsbD_shiftLeft, BitVec.getLsbD_ushiftRight, BitVec.getLsbD_or,
    BitVec.getLsbD_and]
  by_cases h12 : i < 12
  · simp [h12]
  · have hmask : (0xFFF : Word).getLsbD (12 + (i - 12)) = false := by
      have hlt : (0xFFF : Word).toNat < 2 ^ (12 + (i - 12)) :=
        Nat.lt_of_lt_of_le (by decide : _ < 2 ^ 12) (Nat.pow_le_pow_right (by decide) (by omega))
      exact Nat.testBit_lt_two_pow hlt
    rw [hmask, Bool.and_false, Bool.or_false]
    simp [h12, hi, show 12 + (i - 12) = i by omega]

theorem l0Result_level (ppn : Word) (perm : BitVec 8) (off : Word) : (l0Result ppn perm off).level = 0 :=
  rfl

theorem l1Result_level (ppn : Word) (perm : BitVec 8) (v off : Word) :
    (l1Result ppn perm v off).level = 1 := rfl

theorem ppnForTlb_l0 (ppn : Word) (perm : BitVec 8) (va va' : Word) :
    (((l0Result ppn perm (va &&& 0xFFF)).ppnForTlb) <<< 12) ||| (va' &&& 0xFFF) =
      (l0Result ppn perm (va' &&& 0xFFF)).pa := by
  have hppn : (l0Result ppn perm (va &&& 0xFFF)).ppnForTlb =
      ((ppn <<< 12) ||| (va &&& 0xFFF)) >>> 12 := rfl
  rw [hppn, page_of_or]
  rfl

theorem ppnForTlb_l1 (ppn v : Word) (perm : BitVec 8) (va va' : Word) (hv : v &&& 0x1FF = v) :
    (superPpn (l1Result ppn perm v (va &&& 0xFFF)).ppnForTlb v <<< 12) ||| (va' &&& 0xFFF) =
      (l1Result ppn perm v (va' &&& 0xFFF)).pa := by
  have hx := page_of_or (superPpn ppn v) va
  simp only [TranslateResult.ppnForTlb, l1Result, ↓reduceIte]
  generalize hy : ((superPpn ppn v <<< 12) ||| (va &&& 0xFFF)) >>> 12 = y at hx
  have hvm : v &&& 0xFFFFFFFFFFFFFE00 = 0#64 := by
    rw [← hv, BitVec.and_assoc]
    exact BitVec.and_zero
  have hs : superPpn ppn v &&& 0xFFFFFFFFFFFFFE00 ||| v = superPpn ppn v := by
    rw [superPpn, BitVec.and_or_distrib_right, hvm, BitVec.or_zero, BitVec.and_assoc]
    rfl
  have hy' : superPpn (y &&& 0xFFFFFFFFFFFFFE00) v = y &&& 0xFFFFFFFFFFFFFE00 ||| v := by
    rw [superPpn, BitVec.and_assoc]
    rfl
  rw [hy', BitVec.shiftLeft_or_distrib, BitVec.shiftLeft_and_distrib, hx,
    ← BitVec.shiftLeft_and_distrib, ← BitVec.shiftLeft_or_distrib, hs]

/-! ## Sound entries -/

/-- What an entry answers for `va`. -/
def TlbEntry.answer (e : TlbEntry) (va : Word) : TranslateResult :=
  ⟨reconstructTlbPa e va, e.perm, e.level⟩

/-- A clean entry stands for a leaf whose path has been accessed. -/
def TlbEntry.Sound (c : WalkCtx) (satp : Word) (e : TlbEntry) : Prop :=
  e.valid = true → e.dirty = false → ∀ va : Word, va >>> 12 = e.vpn →
    ∃ l, leafOf c satp va = some l ∧ l.Accessed c ∧ e.answer va = l.result c va

def TlbSound (c : WalkCtx) (satp : Word) (t : Tlb) : Prop := ∀ i, (t i).Sound c satp

theorem answer_inserted (c : WalkCtx) (l : PageLeaf) {e : TlbEntry} {va va' : Word}
    (hp : va' >>> 12 = va >>> 12) (hppn : e.ppn = (l.result c va).ppnForTlb)
    (hperm : e.perm = (l.result c va).perm) (hlevel : e.level = (l.result c va).level) :
    e.answer va' = l.result c va' := by
  have hv : (sv39DecomposeVa va).vpn0 &&& 0x1FF = (sv39DecomposeVa va).vpn0 := by
    simp only [sv39DecomposeVa]
    rw [BitVec.and_assoc]
    rfl
  have hvpn : (va' >>> 12) &&& 0x1FF = (sv39DecomposeVa va).vpn0 := by
    rw [hp]
    rfl
  simp only [TlbEntry.answer, reconstructTlbPa, hppn, hperm, hlevel, hvpn]
  by_cases hl : l.level = 1
  · simp only [PageLeaf.result, sv39DecomposeVa_page hp, hl, ↓reduceIte, l1Result_level]
    exact congrArg (TranslateResult.mk · _ _) (ppnForTlb_l1 _ _ _ va va' hv)
  · simp only [PageLeaf.result, sv39DecomposeVa_page hp, hl, ↓reduceIte, l0Result_level]
    rw [if_neg (by decide)]
    exact congrArg (TranslateResult.mk · _ _) (ppnForTlb_l0 _ _ va va')

theorem PageLeaf.result_congr {c c' : WalkCtx} (h : SamePages c c') {satp va : Word} {l : PageLeaf}
    (hl : leafOf c satp va = some l) (va' : Word) : l.result c' va' = l.result c va' := by
  have hmem : l.addr ∈ l.path := by simp [PageLeaf.path]
  have hpte : l.pte c' = l.pte c := pteParse_congr (h _ (leafOf_aligned hl _ hmem))
  simp only [PageLeaf.result, hpte]

theorem PageLeaf.Accessed.mono {c c' : WalkCtx} {l : PageLeaf} (h : l.Accessed c)
    (hf : RamFrame c c') : l.Accessed c' := by
  intro a ha
  have hbit := or_A_iff.mp (h a ha)
  rw [and_A_eq_zero, Bool.not_eq_false] at hbit
  exact BitFields.or_twoPow_of_getLsbD (i := 6) (hf.readPte hbit)

namespace TlbSound

variable {c c' : WalkCtx} {satp : Word} {t t' : Tlb}

theorem same (h : TlbSound c satp t) (hs : SameEntries t t') : TlbSound c satp t' := by
  intro i
  obtain ⟨b, hb⟩ := hs i
  rw [hb]
  exact h i

theorem of_invalid (h : ∀ i, (t i).valid = false) : TlbSound c satp t := by
  intro i hv
  rw [h i] at hv
  cases hv

theorem of_clean (h : TlbSound c satp t)
    (hs : ∀ i, (t' i).valid = true → (t' i).dirty = false → t' i = t i) : TlbSound c satp t' := by
  intro i hv hd
  have hi := hs i hv hd
  rw [hi] at hv hd ⊢
  exact h i hv hd

/-- Page tables that differ in A and D bits only, bits being only set. -/
theorem mono (h : TlbSound c satp t) (hs : SamePages c c') (hf : RamFrame c c') :
    TlbSound c' satp t := by
  intro i hv hd va hva
  obtain ⟨l, hl, hA, hans⟩ := h i hv hd va hva
  exact ⟨l, by rw [leafOf_congr hs, hl], hA.mono hf, by rw [hans, PageLeaf.result_congr hs hl]⟩

theorem insert (h : TlbSound c satp t) (prefer : Option Nat) {va : Word} {l : PageLeaf}
    (hl : leafOf c satp va = some l) (hA : l.Accessed c) (mdid : Word) (asid : BitVec 16) :
    let r := l.result c va
    TlbSound c satp (tlbInsert t prefer (va >>> 12) r.ppnForTlb r.perm r.level mdid asid) := by
  intro r i
  simp only [tlbInsert]
  by_cases hi : i = (tlbInsertSlot t prefer (va >>> 12)).2
  · subst hi
    rw [Function.update_self]
    intro _ _ va' hva'
    change va' >>> 12 = va >>> 12 at hva'
    exact ⟨l, by rw [leafOf_page c satp hva', hl], hA, answer_inserted c l hva' rfl rfl rfl⟩
  · rw [Function.update_of_ne hi]
    exact h.same (tlbInsertSlot_same t prefer _) i

end TlbSound

/-! ## One translation -/

/-- The clean entry that serves the access, if any. -/
def tlbHit (cfg : Features) (s : HartState) (va : Word) (rwx : Rwx) : Option TlbEntry :=
  if cfg.noTlb then none
  else
    match (tlbLookup (s.tlb (hasExec rwx)) (va >>> 12) (satpAsid s.satp)).2 with
    | .hit i => some (s.tlb (hasExec rwx) i)
    | _ => none

/-- The answer once the mapping of `va` is known. -/
def permChecked (r : TranslateResult) (s : HartState) (m : Mode) (rwx : Rwx) :
    Except TranslateFault TranslateResult :=
  if checkPtePerm r.perm m s.mstatus (hasWrite rwx) (hasExec rwx) then .ok r
  else .error (.pageFault (faultCode (hasExec rwx) (hasWrite rwx)))

/-- The answer of a walk. -/
def walkAnswer (s : HartState) (c : WalkCtx) (va : Word) (rwx : Rwx) (p : PmpCtx) (m : Mode) :
    Except TranslateFault TranslateResult :=
  match (sv39Walk c s p s.satp va rwx).2 with
  | .error e => .error e
  | .ok none => .error (.pageFault (faultCode (hasExec rwx) (hasWrite rwx)))
  | .ok (some r) => permChecked r s m rwx

section Translate

variable {cfg : Features} {s s' : HartState} {c : WalkCtx} {va : Word} {rwx : Rwx} {p : PmpCtx}
  {m : Mode} {e : TlbEntry}

theorem HartState.setTlb_tlb (s : HartState) (b b' : Bool) (t : Tlb) :
    (s.setTlb b t).tlb b' = if b' = b then t else s.tlb b' := by
  cases b <;> cases b' <;> rfl

theorem recordTlbAccess_tlb (s : HartState) (b h b' : Bool) :
    (recordTlbAccess s b h).tlb b' = s.tlb b' := by
  cases b <;> cases h <;> cases b' <;> rfl

theorem tlbProbe_same (tlb : Tlb) (vpn va : Word) (asid : BitVec 16) (cnt : Option Word) (m : Mode)
    (ms : Word) (w x : Bool) : SameEntries tlb (tlbProbe tlb vpn va asid cnt cnt m ms w x).1 := by
  have hsame := tlbLookup_same tlb vpn asid
  simp only [tlbProbe]
  split <;> rename_i heq <;> rw [heq] at hsame
  · rw [if_neg (not_not.mpr rfl)]
    split <;> exact hsame
  · exact hsame
  · exact hsame

theorem tlbProbeCounted_same (cfg : Features) (s : HartState) (c : WalkCtx) (va : Word)
    (m : Mode) (w x b : Bool) :
    SameEntries (s.tlb b)
      ((tlbProbeCounted cfg s c va (va >>> 12) (satpAsid s.satp) m w x).1.tlb b) := by
  simp only [tlbProbeCounted]
  split
  · exact .refl _
  · rw [recordTlbAccess_tlb, HartState.setTlb_tlb]
    split
    · rename_i hb
      rw [hb]
      exact tlbProbe_same _ _ _ _ _ _ _ _ _
    · exact .refl _

/-- A probe answers from the entry that is hit and asks for a walk otherwise. -/
theorem tlbProbeCounted_answer (cfg : Features) (s : HartState) (c : WalkCtx) (va : Word)
    (rwx : Rwx) (m : Mode) :
    let r := tlbProbeCounted cfg s c va (va >>> 12) (satpAsid s.satp) m (hasWrite rwx) (hasExec rwx)
    match tlbHit cfg s va rwx with
    | none => ∃ reuse, r.2 = .walk reuse
    | some e =>
      r.2 = match permChecked (e.answer va) s m rwx with
        | .ok r => .hit r
        | .error f => .fault f := by
  simp only [tlbProbeCounted, tlbHit]
  cases cfg.noTlb with
  | true => exact ⟨none, rfl⟩
  | false =>
    have hsame := tlbLookup_same (s.tlb (hasExec rwx)) (va >>> 12) (satpAsid s.satp)
    simp only [Bool.false_eq_true, ↓reduceIte, tlbProbe]
    rcases heq : tlbLookup (s.tlb (hasExec rwx)) (va >>> 12) (satpAsid s.satp) with ⟨t, i | i | _⟩
    · rw [heq] at hsame
      obtain ⟨b, hb⟩ := hsame i
      dsimp only at hb
      have hperm : (t i).perm = ((s.tlb (hasExec rwx) i).answer va).perm := by rw [hb]; rfl
      have hans : (t i).answer va = (s.tlb (hasExec rwx) i).answer va := by rw [hb]; rfl
      change (if _ then _ else if _ then _ else (t, TlbProbeResult.hit ((t i).answer va))).2 = _
      rw [if_neg (not_not.mpr rfl), hperm, hans]
      by_cases hc : checkPtePerm ((s.tlb (hasExec rwx) i).answer va).perm m s.mstatus (hasWrite rwx)
          (hasExec rwx) = true
      · rw [if_neg (by rw [hc]; decide), permChecked, if_pos hc]
      · rw [if_pos (by simpa using hc), permChecked, if_neg hc]
    · exact ⟨some i, rfl⟩
    · exact ⟨none, rfl⟩

/-- A walk reads of the hart only what the TLBs do not touch. -/
theorem TlbFrame.sv39Walk (h : TlbFrame s s') (c : WalkCtx) (p : PmpCtx) (satp va : Word) (rwx : Rwx) :
    Pyremu.sv39Walk c s' p satp va rwx = Pyremu.sv39Walk c s p satp va rwx := by
  obtain ⟨_, _, _, _, _, _, rfl⟩ := h; rfl

theorem TlbFrame.satp (h : TlbFrame s s') : s'.satp = s.satp := by
  obtain ⟨_, _, _, _, _, _, rfl⟩ := h; rfl

theorem TlbFrame.walkAnswer (h : TlbFrame s s') :
    Pyremu.walkAnswer s' c va rwx p m = Pyremu.walkAnswer s c va rwx p m := by
  simp only [Pyremu.walkAnswer, permChecked, h.sv39Walk, h.satp, h.mstatus]

theorem translateWalk_answer (cfg : Features) (s : HartState) (c : WalkCtx) (va : Word) (rwx : Rwx)
    (p : PmpCtx) (m : Mode) (cnt : Option Word) (reuse : Option Nat) :
    (translateWalk cfg s c va rwx p m cnt reuse).2.2 = walkAnswer s c va rwx p m ∧
      (translateWalk cfg s c va rwx p m cnt reuse).2.1 = (sv39Walk c s p s.satp va rwx).1 := by
  simp only [translateWalk, walkAnswer]
  rcases sv39Walk c s p s.satp va rwx with ⟨c', e | r | r⟩
  · exact ⟨rfl, rfl⟩
  · exact ⟨rfl, rfl⟩
  · simp only [permChecked]
    by_cases hc : checkPtePerm r.perm m s.mstatus (hasWrite rwx) (hasExec rwx) = true
    · simp only [hc, Bool.not_true, Bool.false_eq_true, ↓reduceIte]
      split <;> exact ⟨rfl, rfl⟩
    · simp only [hc, Bool.not_false, ↓reduceIte, Bool.false_eq_true]
      exact ⟨trivial, trivial⟩

/-- What `translate_va` answers when translation is on. -/
theorem translateVa_answer (hm : s.mmuMode = 8) (he : effectiveMode s = some m) :
    (translateVa cfg s c va rwx p).2.2 =
        (match tlbHit cfg s va rwx with
        | some e => permChecked (e.answer va) s m rwx
        | none => walkAnswer s c va rwx p m) ∧
      (translateVa cfg s c va rwx p).2.1 =
        match tlbHit cfg s va rwx with
        | some _ => c
        | none => (sv39Walk c s p s.satp va rwx).1 := by
  have hp := tlbProbeCounted_answer cfg s c va rwx m
  have hf := TlbFrame.tlbProbeCounted cfg s c va (va >>> 12) (satpAsid s.satp) m (hasWrite rwx)
    (hasExec rwx)
  simp only [translateVa, he]
  rw [if_neg (not_not.mpr hm)]
  generalize tlbProbeCounted cfg s c va (va >>> 12) (satpAsid s.satp) m (hasWrite rwx)
    (hasExec rwx) = r at hp hf
  obtain ⟨s', a⟩ := r
  cases hh : tlbHit cfg s va rwx with
  | some e =>
    simp only [hh] at hp
    subst hp
    dsimp only
    cases permChecked (e.answer va) s m rwx <;> exact ⟨rfl, rfl⟩
  | none =>
    simp only [hh] at hp
    obtain ⟨reuse, rfl⟩ := hp
    obtain ⟨h1, h2⟩ := translateWalk_answer cfg s' c va rwx p m c.tlbFlushCnt reuse
    dsimp only
    rw [h1, h2, hf.walkAnswer, hf.sv39Walk, hf.satp]
    exact ⟨rfl, rfl⟩

/-- No entry is valid. -/
def HartState.TlbsEmpty (s : HartState) : Prop := ∀ b i, (s.tlb b i).valid = false

/-- The invariant of a hart. -/
def HartState.TlbsSound (c : WalkCtx) (s : HartState) : Prop := ∀ b, TlbSound c s.satp (s.tlb b)

theorem translateWalk_sound {reuse : Option Nat} {cnt : Option Word} (h : s.TlbsSound c)
    (hs : SamePages c (translateWalk cfg s c va rwx p m cnt reuse).2.1) :
    (translateWalk cfg s c va rwx p m cnt reuse).1.TlbsSound
      (translateWalk cfg s c va rwx p m cnt reuse).2.1 := by
  have hf := RamFrame.sv39Walk c s p s.satp va rwx
  rw [(translateWalk_answer cfg s c va rwx p m cnt reuse).2] at hs ⊢
  have hkeep : s.TlbsSound (sv39Walk c s p s.satp va rwx).1 := fun b => (h b).mono hs hf
  simp only [translateWalk]
  rcases heq : sv39Walk c s p s.satp va rwx with ⟨c', e | _ | r⟩ <;> rw [heq] at hkeep hs
  · exact hkeep
  · exact hkeep
  · dsimp only at hkeep hs ⊢
    split
    · exact hkeep
    · split
      · intro b
        rw [(TlbFrame.setTlb s _ _).satp, HartState.setTlb_tlb]
        split
        · obtain ⟨l, hl, rfl, hA, _⟩ := sv39Walk_leaf heq hs
          have hl' : leafOf c' s.satp va = some l := by rw [leafOf_congr hs, hl]
          rw [← PageLeaf.result_congr hs hl]
          exact (hkeep _).insert reuse hl' hA _ _
        · exact hkeep b
      · exact hkeep

theorem translateVa_sound (h : s.TlbsSound c)
    (hs : SamePages c (translateVa cfg s c va rwx p).2.1) :
    (translateVa cfg s c va rwx p).1.TlbsSound (translateVa cfg s c va rwx p).2.1 := by
  simp only [translateVa] at hs ⊢
  split
  · exact h
  · rename_i hm
    rw [if_neg hm] at hs
    split
    · exact h
    · rename_i m he
      rw [he] at hs
      dsimp only at hs
      have hf := TlbFrame.tlbProbeCounted cfg s c va (va >>> 12) (satpAsid s.satp) m (hasWrite rwx)
        (hasExec rwx)
      have hsame := tlbProbeCounted_same cfg s c va m (hasWrite rwx) (hasExec rwx)
      generalize tlbProbeCounted cfg s c va (va >>> 12) (satpAsid s.satp) m (hasWrite rwx)
        (hasExec rwx) = r at hf hsame hs ⊢
      obtain ⟨s', a⟩ := r
      have h' : s'.TlbsSound c := by
        intro b
        rw [hf.satp]
        exact (h b).same (hsame b)
      cases a with
      | hit r => exact h'
      | fault f => exact h'
      | walk reuse => exact translateWalk_sound h' hs

end Translate

end Pyremu
