import Pyremu.Walk

/-!
# Page tables

`leafOf` follows an address through the page tables without touching them. The
walk of the engine ends at the same leaf, sets A on the way and D at the end,
and is refused only by PMP and by the permission bits.
-/

namespace Pyremu

open ByteMem

/-! ## Accessed and dirty bits -/

/-- An entry without its A and D bits. -/
def stripAd (raw : Word) : Word := raw &&& ~~~(Pte.A ||| Pte.D)

theorem stripAd_and {m : Word} (raw : Word) (h : ~~~(Pte.A ||| Pte.D) &&& m = m) :
    stripAd raw &&& m = raw &&& m := by
  rw [stripAd, BitVec.and_assoc, h]

/-- The fields of an entry do not depend on A and D. -/
theorem pteParse_strip (raw : Word) : pteParse (stripAd raw) = pteParse raw := by
  have hppn : (stripAd raw >>> 10) &&& (0xFFFFFFFFFFF : Word) = (raw >>> 10) &&& 0xFFFFFFFFFFF := by
    rw [stripAd, BitVec.ushiftRight_and_distrib, BitVec.and_assoc]
    rfl
  simp only [pteParse, hppn, stripAd_and raw (by decide : _ &&& Pte.V = Pte.V),
    stripAd_and raw (by decide : _ &&& (Pte.R ||| Pte.X) = Pte.R ||| Pte.X),
    stripAd_and raw (by decide : _ &&& (Pte.R ||| Pte.W ||| Pte.X ||| Pte.U) = _)]

theorem pteParse_congr {raw raw' : Word} (h : stripAd raw = stripAd raw') :
    pteParse raw = pteParse raw' := by
  rw [← pteParse_strip raw, h, pteParse_strip]

theorem stripAd_or_adBits (raw : Word) (rwx : Rwx) : stripAd (raw ||| adBits rwx) = stripAd raw := by
  have h : adBits rwx &&& ~~~(Pte.A ||| Pte.D) = 0#64 := by
    cases rwx <;> decide
  rw [stripAd, BitVec.and_or_distrib_right, h, BitVec.or_zero, stripAd]

theorem pteParse_or_A (raw : Word) : pteParse (raw ||| Pte.A) = pteParse raw :=
  pteParse_congr (stripAd_or_adBits raw .read)

/-- The page tables of two memories differ in A and D bits only. -/
def SamePages (c c' : WalkCtx) : Prop :=
  ∀ pa : Word, pa.toNat % 8 = 0 → stripAd (readPte c' pa) = stripAd (readPte c pa)

theorem SamePages.refl (c : WalkCtx) : SamePages c c := fun _ _ => rfl

section Memory

variable {c c' c'' : WalkCtx} {pa d : Word}

theorem RamFrame.readPte (h : RamFrame c c') {i : Nat} (hb : (readPte c pa).getLsbD i = true) :
    (Pyremu.readPte c' pa).getLsbD i = true := by
  simp only [Pyremu.readPte, h.toLayout] at hb ⊢
  split at hb
  · simp at hb
  · exact h.grows.readLe hb

/-- Between two memories with the same page tables, bits being only set, lie
memories with these page tables. -/
theorem SamePages.between (h : SamePages c c'') (h1 : RamFrame c c') (h2 : RamFrame c' c'') :
    SamePages c c' := by
  intro pa ha
  apply BitVec.eq_of_getLsbD_eq
  intro i _
  have hbit := congrArg (fun v => v.getLsbD i) (h pa ha)
  simp only [stripAd, BitVec.getLsbD_and] at hbit ⊢
  cases hm : (~~~(Pte.A ||| Pte.D)).getLsbD i with
  | false => simp
  | true =>
    rw [hm, Bool.and_true, Bool.and_true] at hbit
    rw [Bool.and_true, Bool.and_true, Bool.eq_iff_iff]
    exact ⟨fun hb => hbit ▸ h2.readPte hb, h1.readPte⟩

theorem setPteBits_toLayout (c : WalkCtx) (pa d : Word) :
    (setPteBits c pa d).toLayout = c.toLayout := by
  obtain ⟨_, heq, _⟩ := setPteBits_ram c pa d
  rw [heq]

theorem readPte_eq {off : Word} (h : Translate.ramOffset c.toLayout pa 8 = some off) :
    readPte c pa = readLe c.ram off.toNat 8 := by
  simp only [readPte, h]

theorem ramOffset_of_readPte (h : readPte c pa ≠ 0) :
    ∃ off, Translate.ramOffset c.toLayout pa 8 = some off := by
  cases hoff : Translate.ramOffset c.toLayout pa 8 with
  | none => simp [readPte, hoff] at h
  | some off => exact ⟨off, rfl⟩

theorem setPteBits_eq {off : Word} (h : Translate.ramOffset c.toLayout pa 8 = some off)
    (hd : ∀ i, 8 ≤ i → d.getLsbD i = false) :
    setPteBits c pa d = { c with ram := writeLe c.ram off.toNat 8 (readPte c pa ||| d) } := by
  rw [readPte_eq h, writeLe_or _ _ hd]
  simp only [setPteBits, h]

/-- The bits are there afterwards. -/
theorem readPte_setPteBits (h0 : readPte c pa ≠ 0) (hd : ∀ i, 8 ≤ i → d.getLsbD i = false) :
    readPte (setPteBits c pa d) pa = readPte c pa ||| d := by
  obtain ⟨off, hoff⟩ := ramOffset_of_readPte h0
  have hl := setPteBits_toLayout c pa d
  rw [readPte_eq (c := setPteBits c pa d) (by rw [hl]; exact hoff), setPteBits_eq hoff hd]
  exact readLe_writeLe_eight _ _ _

/-- Setting bits that are set already does nothing. -/
theorem setPteBits_of_set (h0 : readPte c pa ≠ 0) (hd : ∀ i, 8 ≤ i → d.getLsbD i = false)
    (h : readPte c pa ||| d = readPte c pa) : setPteBits c pa d = c := by
  obtain ⟨off, hoff⟩ := ramOffset_of_readPte h0
  rw [setPteBits_eq hoff hd, h, readPte_eq hoff, writeLe_readLe _ _ _ (by decide)]

/-- A bit of an entry that does not lie in the byte that is written. -/
theorem readPte_setPteBits_other {b offA offB : Word} {i : Nat}
    (ha : Translate.ramOffset c.toLayout pa 8 = some offA)
    (hb : Translate.ramOffset c.toLayout b 8 = some offB) (hne : offB.toNat + i / 8 ≠ offA.toNat) :
    (readPte (setPteBits c pa d) b).getLsbD i = (readPte c b).getLsbD i := by
  have hl := setPteBits_toLayout c pa d
  rw [readPte_eq (c := setPteBits c pa d) (by rw [hl]; exact hb), readPte_eq hb, getLsbD_readLe,
    getLsbD_readLe]
  simp only [setPteBits, ha]
  rw [orByte_other hne]

/-- The windows of RAM start at multiples of eight. -/
structure Layout.Aligned (l : Layout) : Prop where
  ram : l.ramBase.toNat % 8 = 0
  shadow : l.shadowBase.toNat % 8 = 0

theorem Layout.Aligned.offset {l : Layout} (h : l.Aligned) (ha : pa.toNat % 8 = 0) {off : Word}
    (hoff : Translate.ramOffset l pa 8 = some off) : off.toNat % 8 = 0 := by
  have hsub : ∀ base : Word, base.toNat % 8 = 0 → (pa - base).toNat % 8 = 0 := by
    intro base hb
    rw [BitVec.toNat_sub]
    omega
  simp only [Translate.ramOffset] at hoff
  split at hoff
  · cases hoff
    exact hsub _ h.ram
  · split at hoff
    · split at hoff
      · cases hoff
        exact hsub _ h.shadow
      · cases hoff
    · cases hoff

/-- In an aligned layout an update of one entry leaves the others alone. -/
theorem SamePages.setPteBits (hal : c.toLayout.Aligned) (ha : pa.toNat % 8 = 0) (rwx : Rwx) :
    SamePages c (setPteBits c pa (adBits rwx)) := by
  intro b hb
  have hl := setPteBits_toLayout c pa (adBits rwx)
  cases hoffA : Translate.ramOffset c.toLayout pa 8 with
  | none => simp only [Pyremu.setPteBits, hoffA]
  | some offA =>
    cases hoffB : Translate.ramOffset c.toLayout b 8 with
    | none => simp only [readPte, hl, hoffB]
    | some offB =>
      have h8A := hal.offset ha hoffA
      have h8B := hal.offset hb hoffB
      by_cases heq : offA = offB
      · subst heq
        have hread : readPte (Pyremu.setPteBits c pa (adBits rwx)) b = readPte c b ||| adBits rwx := by
          rw [readPte_eq (c := Pyremu.setPteBits c pa (adBits rwx)) (by rw [hl]; exact hoffB),
            setPteBits_eq hoffA (adBits_low rwx), readPte_eq hoffA, readPte_eq hoffB]
          exact readLe_writeLe_eight _ _ _
        rw [hread, stripAd_or_adBits]
      · have hne : offA.toNat ≠ offB.toNat := fun h => heq (BitVec.eq_of_toNat_eq h)
        refine congrArg stripAd (BitVec.eq_of_getLsbD_eq fun i hi => ?_)
        exact readPte_setPteBits_other hoffA hoffB (by omega)

theorem SamePages.trans (h : SamePages c c') (h' : SamePages c' c'') : SamePages c c'' :=
  fun pa ha => (h' pa ha).trans (h pa ha)

/-- There a walk changes A and D bits only. -/
theorem RamFrame.samePages (h : RamFrame c c') (hal : c.toLayout.Aligned) : SamePages c c' := by
  induction h with
  | refl => exact .refl c
  | tail hcd hs ih =>
    obtain ⟨pa, rwx, ha, rfl⟩ := hs
    have hl := RamFrame.toLayout hcd
    exact ih.trans (.setPteBits (by rw [hl]; exact hal) ha rwx)

end Memory

/-! ## The walk, equation by equation -/

section Walk

variable {c : WalkCtx} {s : HartState} {p : PmpCtx} {a x d : Word}

theorem usable_ne_zero {raw : Word} (h : (pteParse raw).v = true) : raw ≠ 0 := by
  rintro rfl
  revert h
  decide

/-- Exactly one of the two kinds when the entry is valid, none when it is not. -/
theorem pteParse_kind (raw : Word) :
    (pteParse raw).isPtr = ((pteParse raw).v && !(pteParse raw).isLeaf) := by
  simp only [pteParse]
  cases decide (raw &&& Pte.V ≠ 0) <;> simp

theorem unusable_eq (raw : Word) : (pteParse raw).unusable = !(pteParse raw).v := by
  rw [PteFields.unusable, pteParse_kind]
  cases (pteParse raw).v <;> cases (pteParse raw).isLeaf <;> rfl

/-- A compare-exchange on the value that is there. -/
theorem cas_current (h0 : readPte c a ≠ 0) (hd : ∀ i, 8 ≤ i → d.getLsbD i = false) :
    writePteCasChecked s p c a (readPte c a) (readPte c a ||| d) =
      if readPte c a ||| d = readPte c a ∨ pmpOk s a 8 true false p then
        (setPteBits c a d, .ok true)
      else (c, .error .accessFault) := by
  obtain ⟨off, hoff⟩ := ramOffset_of_readPte h0
  simp only [writePteCasChecked]
  by_cases heq : readPte c a ||| d = readPte c a
  · rw [if_pos heq, if_pos (.inl heq), setPteBits_of_set h0 hd heq]
  · rw [if_neg heq]
    by_cases hp : pmpOk s a 8 true false p = true
    · rw [if_pos hp, if_pos (.inr hp), setPteBits_eq hoff hd]
      simp only [writePteCas, heq, hoff, ↓reduceIte]
      rw [if_pos (readPte_eq hoff).symm]
    · rw [if_neg hp, if_neg (by simp [heq, hp])]

/-- A compare-exchange on a value that is out of date. -/
theorem cas_stale (h : readPte c a ≠ x) (hne : x ||| d ≠ x) (h0 : readPte c a ≠ 0)
    (hp : pmpOk s a 8 true false p = true) :
    writePteCasChecked s p c a x (x ||| d) = (c, .ok false) := by
  obtain ⟨off, hoff⟩ := ramOffset_of_readPte h0
  simp only [writePteCasChecked, hne, hp, writePteCas, hoff, ↓reduceIte]
  rw [if_neg (by rwa [← readPte_eq hoff])]

theorem pteA_low (i : Nat) (h : 8 ≤ i) : Pte.A.getLsbD i = false := adBits_low .read i h

theorem walkLevel_eq (c : WalkCtx) (s : HartState) (p : PmpCtx) (ppn idx : Word) :
    walkLevel c s p ppn idx =
      let a := pteAddr ppn idx
      let raw := readPte c a
      if pmpOk s a 8 false false p = false then (c, .error .accessFault)
      else if (pteParse raw).v = false then (c, .ok none)
      else if raw ||| Pte.A = raw ∨ pmpOk s a 8 true false p then
        (setPteBits c a Pte.A, .ok (some (raw, pteParse raw)))
      else (c, .error .accessFault) := by
  simp only [walkLevel, readPteChecked]
  cases hr : pmpOk s (pteAddr ppn idx) 8 false false p with
  | false => simp
  | true =>
    simp only [↓reduceIte, unusable_eq]
    cases hv : (pteParse (readPte c (pteAddr ppn idx))).v with
    | false => simp
    | true =>
      have h0 := usable_ne_zero hv
      have hcas := cas_current (s := s) (p := p) h0 pteA_low
      simp only [Bool.not_true, Bool.false_eq_true, ↓reduceIte, Bool.true_eq_false]
      by_cases hA : readPte c (pteAddr ppn idx) &&& Pte.A = 0
      · rw [if_neg (by simpa using hA), hcas]
        by_cases hc : readPte c (pteAddr ppn idx) ||| Pte.A = readPte c (pteAddr ppn idx) ∨
            pmpOk s (pteAddr ppn idx) 8 true false p = true
        · rw [if_pos hc, if_pos hc]
        · rw [if_neg hc, if_neg hc]
      · rw [if_pos hA, if_pos (.inl (or_A hA)), setPteBits_of_set h0 pteA_low (or_A hA)]

theorem leaf_valid {raw : Word} (h : (pteParse raw).isLeaf = true) : (pteParse raw).v = true := by
  simp only [pteParse, Bool.and_eq_true] at h ⊢
  exact h.1

theorem or_A_iff {raw : Word} : raw ||| Pte.A = raw ↔ ¬ raw &&& Pte.A = 0 := by
  refine ⟨fun h hz => ?_, or_A⟩
  rw [and_A_eq_zero, ← h, BitVec.getLsbD_or, show Pte.A.getLsbD 6 = true by decide,
    Bool.or_true] at hz
  cases hz

theorem or_D_iff {raw : Word} : raw ||| Pte.D = raw ↔ ¬ raw &&& Pte.D = 0 := by
  refine ⟨fun h hz => ?_, or_D⟩
  rw [and_D_eq_zero, ← h, BitVec.getLsbD_or, show Pte.D.getLsbD 7 = true by decide,
    Bool.or_true] at hz
  cases hz

theorem or_ad_iff {raw : Word} :
    raw ||| (Pte.A ||| Pte.D) = raw ↔ raw ||| Pte.A = raw ∧ raw ||| Pte.D = raw := by
  simp only [BitFields.or_eq_self_iff, BitVec.getLsbD_or, Bool.or_eq_true]
  exact ⟨fun h => ⟨fun i hi => h i (.inl hi), fun i hi => h i (.inr hi)⟩,
    fun h i hi => hi.elim (h.1 i) (h.2 i)⟩

/-- The walk asks for no update exactly when the bits are there. -/
theorem no_update_iff (raw : Word) (rwx : Rwx) :
    (!decide (raw &&& Pte.A = 0) && !(hasWrite rwx && decide (raw &&& Pte.D = 0))) = true ↔
      raw ||| adBits rwx = raw := by
  simp only [adBits]
  cases hasWrite rwx with
  | false => simp [or_A_iff]
  | true =>
    rw [if_pos rfl, or_ad_iff, or_A_iff, or_D_iff]
    simp

theorem walkL0_eq (c : WalkCtx) (s : HartState) (p : PmpCtx) (l1Ppn vpn0 offset : Word)
    (rwx : Rwx) :
    walkL0 c s p l1Ppn vpn0 offset rwx =
      let a := pteAddr l1Ppn vpn0
      let raw := readPte c a
      let pte := pteParse raw
      let need := ptePermNeeded rwx (mxr s.mstatus)
      if pmpOk s a 8 false false p = false then (c, .error .accessFault)
      else if pte.isLeaf = false ∨ pte.perm &&& need ≠ need then (c, .ok none)
      else if raw ||| adBits rwx = raw ∨ pmpOk s a 8 true false p then
        (setPteBits c a (adBits rwx), .ok (some (l0Result pte.ppn pte.perm offset)))
      else (c, .error .accessFault) := by
  simp only [walkL0, readPteChecked]
  cases hr : pmpOk s (pteAddr l1Ppn vpn0) 8 false false p with
  | false => simp
  | true =>
    simp only [↓reduceIte, Bool.true_eq_false]
    generalize hraw : readPte c (pteAddr l1Ppn vpn0) = raw
    cases hl : (pteParse raw).isLeaf with
    | false => simp
    | true =>
      have hv := leaf_valid hl
      have h0 : readPte c (pteAddr l1Ppn vpn0) ≠ 0 := hraw ▸ usable_ne_zero hv
      have hcas := cas_current (s := s) (p := p) h0 (adBits_low rwx)
      rw [hraw] at hcas
      simp only [hv, Bool.not_true, Bool.or_self, Bool.false_eq_true, ↓reduceIte, Bool.true_eq_false,
        false_or, leafUpdate_eq]
      split
      · rfl
      · by_cases hn : raw ||| adBits rwx = raw
        · rw [if_pos ((no_update_iff raw rwx).mpr hn), if_pos (.inl hn),
            setPteBits_of_set h0 (adBits_low rwx) (by rw [hraw]; exact hn)]
        · rw [if_neg (mt (no_update_iff raw rwx).mp hn), hcas]
          by_cases hc : raw ||| adBits rwx = raw ∨ pmpOk s (pteAddr l1Ppn vpn0) 8 true false p = true
          · rw [if_pos hc, if_pos hc]
          · rw [if_neg hc, if_neg hc]

/-- The L1 leaf after `walk_l1` has set A at `a`: when A was clear before, the
compare-exchange uses the old value, fails, and the leaf is taken as it is. -/
theorem walkL1Leaf_eq {a l1Raw vpn0 offset : Word} {rwx : Rwx}
    (hl : (pteParse l1Raw).isLeaf = true) (hcur : readPte c a = l1Raw ||| Pte.A)
    (hr : pmpOk s a 8 false false p = true)
    (hw : l1Raw ||| Pte.A = l1Raw ∨ pmpOk s a 8 true false p = true) :
    walkL1Leaf c s p a l1Raw (pteParse l1Raw).ppn (pteParse l1Raw).perm vpn0 offset rwx =
      let pte := pteParse l1Raw
      let need := ptePermNeeded rwx (mxr s.mstatus)
      let result := l1Result pte.ppn pte.perm vpn0 offset
      if pte.perm &&& need ≠ need then (c, .ok none)
      else if l1Raw ||| Pte.A ≠ l1Raw then (c, .ok (some result))
      else if l1Raw ||| adBits rwx = l1Raw ∨ pmpOk s a 8 true false p then
        (setPteBits c a (adBits rwx), .ok (some result))
      else (c, .error .accessFault) := by
  have h0 : readPte c a ≠ 0 := by
    have hv : (pteParse (readPte c a)).v = true := by
      rw [hcur, pteParse_or_A]
      exact leaf_valid hl
    exact usable_ne_zero hv
  simp only [walkL1Leaf, leafUpdate_eq]
  split
  · rfl
  · rename_i hperm
    by_cases hA : l1Raw ||| Pte.A = l1Raw
    · rw [hA] at hcur
      have hcas := cas_current (s := s) (p := p) h0 (adBits_low rwx)
      rw [hcur] at hcas
      rw [if_neg (not_not.mpr hA)]
      by_cases hn : l1Raw ||| adBits rwx = l1Raw
      · rw [if_pos ((no_update_iff l1Raw rwx).mpr hn), if_pos (.inl hn),
          setPteBits_of_set h0 (adBits_low rwx) (by rw [hcur]; exact hn)]
      · rw [if_neg (mt (no_update_iff l1Raw rwx).mp hn), hcas]
        by_cases hc : l1Raw ||| adBits rwx = l1Raw ∨ pmpOk s a 8 true false p = true
        · rw [if_pos hc, if_pos hc]
        · rw [if_neg hc, if_neg hc]
    · have hn : l1Raw ||| adBits rwx ≠ l1Raw := by
        intro hn
        apply hA
        have := (no_update_iff l1Raw rwx).mpr hn
        simp only [Bool.and_eq_true, Bool.not_eq_true', decide_eq_false_iff_not] at this
        exact or_A this.1
      have hstale : readPte c a ≠ l1Raw := by rw [hcur]; exact hA
      rw [if_neg (mt (no_update_iff l1Raw rwx).mp hn), if_pos hA,
        cas_stale hstale hn h0 (hw.resolve_left hA)]
      simp only [readPteChecked, hr, ↓reduceIte, hcur, pteParse_or_A, hl, leaf_valid hl]
      rw [if_neg (by simpa using hperm)]

end Walk

/-! ## The leaf of an address -/

/-- Where the entries of an address lie, the leaf last. -/
structure PageLeaf where
  l2 : Word
  l1 : Word
  addr : Word
  level : BitVec 8
  deriving DecidableEq, Repr

/-- The leaf that maps `va`, read without touching the tables. -/
def leafOf (c : WalkCtx) (satp va : Word) : Option PageLeaf :=
  let v := sv39DecomposeVa va
  let a2 := pteAddr (satpRootPpn satp) v.vpn2
  let p2 := pteParse (readPte c a2)
  let a1 := pteAddr p2.ppn v.vpn1
  let p1 := pteParse (readPte c a1)
  let a0 := pteAddr p1.ppn v.vpn0
  let p0 := pteParse (readPte c a0)
  if satp >>> 60 ≠ satpModeSv39 then none
  else if p2.isPtr = false then none
  else if p1.isLeaf then some ⟨a2, a1, a1, 1⟩
  else if p1.isPtr ∧ p0.isLeaf then some ⟨a2, a1, a0, 0⟩
  else none

namespace PageLeaf

def path (l : PageLeaf) : List Word := [l.l2, l.l1, l.addr]

def pte (c : WalkCtx) (l : PageLeaf) : PteFields := pteParse (readPte c l.addr)

/-- The translation the leaf gives for `va`. -/
def result (c : WalkCtx) (va : Word) (l : PageLeaf) : TranslateResult :=
  let v := sv39DecomposeVa va
  if l.level = 1 then l1Result (l.pte c).ppn (l.pte c).perm v.vpn0 v.offset
  else l0Result (l.pte c).ppn (l.pte c).perm v.offset

/-- A is set in every entry on the way. -/
def Accessed (c : WalkCtx) (l : PageLeaf) : Prop :=
  ∀ a ∈ l.path, readPte c a ||| Pte.A = readPte c a

/-- D is set in the leaf. -/
def Dirty (c : WalkCtx) (l : PageLeaf) : Prop := (readPte c l.addr).getLsbD 7 = true

/-- PMP lets the hart read every entry on the way. -/
def Readable (s : HartState) (p : PmpCtx) (l : PageLeaf) : Prop :=
  ∀ a ∈ l.path, pmpOk s a 8 false false p = true

end PageLeaf

theorem SamePages.pte {c c' : WalkCtx} (h : SamePages c c') (ppn idx : Word) :
    pteParse (readPte c' (pteAddr ppn idx)) = pteParse (readPte c (pteAddr ppn idx)) :=
  pteParse_congr (h _ (pteAddr_aligned ppn idx))

theorem leafOf_congr {c c' : WalkCtx} (h : SamePages c c') (satp va : Word) :
    leafOf c' satp va = leafOf c satp va := by
  simp only [leafOf, h.pte]

/-- The entries of a leaf are aligned, and the tables above it point on. -/
theorem leafOf_aligned {c : WalkCtx} {satp va : Word} {l : PageLeaf}
    (h : leafOf c satp va = some l) : ∀ a ∈ l.path, a.toNat % 8 = 0 := by
  have hal : ∀ ppn idx, (pteAddr ppn idx).toNat % 8 = 0 := pteAddr_aligned
  simp only [leafOf] at h
  split at h
  · cases h
  · split at h
    · cases h
    · split at h
      · cases h
        simp [PageLeaf.path, hal]
      · split at h
        · cases h
          simp [PageLeaf.path, hal]
        · cases h

section Walk

variable {c c' : WalkCtx} {s : HartState} {p : PmpCtx} {satp va : Word} {rwx : Rwx}
  {r : TranslateResult}

theorem walkLevel_some {ppn idx raw : Word} {pte : PteFields}
    (h : walkLevel c s p ppn idx = (c', .ok (some (raw, pte)))) :
    raw = readPte c (pteAddr ppn idx) ∧ pte = pteParse raw ∧ pte.v = true ∧
      c' = setPteBits c (pteAddr ppn idx) Pte.A ∧
      pmpOk s (pteAddr ppn idx) 8 false false p = true ∧
      (raw ||| Pte.A = raw ∨ pmpOk s (pteAddr ppn idx) 8 true false p = true) := by
  rw [walkLevel_eq] at h
  dsimp only at h
  split at h
  · cases h
  · rename_i hr
    split at h
    · cases h
    · rename_i hv
      split at h
      · rename_i hw
        cases h
        exact ⟨rfl, rfl, by simpa using hv, rfl, by simpa using hr, hw⟩
      · cases h

/-- What a successful walk has read and written. -/
theorem sv39Walk_some (h : sv39Walk c s p satp va rwx = (c', .ok (some r))) :
    let v := sv39DecomposeVa va
    let a2 := pteAddr (satpRootPpn satp) v.vpn2
    let p2 := pteParse (readPte c a2)
    let c1 := setPteBits c a2 Pte.A
    let a1 := pteAddr p2.ppn v.vpn1
    let raw1 := readPte c1 a1
    let p1 := pteParse raw1
    let c2 := setPteBits c1 a1 Pte.A
    let a0 := pteAddr p1.ppn v.vpn0
    let p0 := pteParse (readPte c2 a0)
    satp >>> 60 = satpModeSv39 ∧ p2.isPtr = true ∧ p1.v = true ∧
      ((p1.isLeaf = true ∧ r = l1Result p1.ppn p1.perm v.vpn0 v.offset ∧
          c' = if raw1 ||| Pte.A ≠ raw1 then c2 else setPteBits c2 a1 (adBits rwx)) ∨
        (p1.isLeaf = false ∧ p0.isLeaf = true ∧ r = l0Result p0.ppn p0.perm v.offset ∧
          c' = setPteBits c2 a0 (adBits rwx))) := by
  simp only [sv39Walk, walkL2, walkL1] at h
  split at h
  · cases h
  · rename_i hmode
    split at h
    · cases h
    · cases h
    · rename_i c1 raw2 p2 h2
      obtain ⟨rfl, rfl, hv2, rfl, _, _⟩ := walkLevel_some h2
      split at h
      · cases h
      · rename_i hptr
        split at h
        · cases h
        · cases h
        · rename_i c2 raw1 p1 h1
          obtain ⟨hraw1, rfl, hv1, rfl, hr, hw⟩ := walkLevel_some h1
          refine ⟨by simpa using hmode, by simpa using hptr, by rw [← hraw1]; exact hv1, ?_⟩
          rw [← hraw1]
          split at h
          · rename_i hl
            have h0 := usable_ne_zero hv1
            rw [hraw1] at h0
            have hcur := readPte_setPteBits h0 pteA_low
            rw [← hraw1] at hcur
            rw [walkL1Leaf_eq hl hcur hr hw] at h
            dsimp only at h
            refine .inl ⟨hl, ?_⟩
            split at h
            · cases h
            · split at h
              · rename_i hA
                cases h
                exact ⟨rfl, (if_pos hA).symm⟩
              · rename_i hA
                split at h
                · cases h
                  exact ⟨rfl, (if_neg hA).symm⟩
                · cases h
          · rename_i hl
            rw [walkL0_eq] at h
            dsimp only at h
            refine .inr ⟨by simpa using hl, ?_⟩
            split at h
            · cases h
            · split at h
              · cases h
              · rename_i hok
                split at h
                · cases h
                  rw [not_or] at hok
                  exact ⟨by simpa using hok.1, rfl, rfl⟩
                · cases h

theorem accessed_after {a d : Word} (h0 : readPte c a ≠ 0) (hd : ∀ i, 8 ≤ i → d.getLsbD i = false)
    (hA : d.getLsbD 6 = true) (hf : RamFrame (setPteBits c a d) c') :
    readPte c' a ||| Pte.A = readPte c' a := by
  have hbit : (readPte (setPteBits c a d) a).getLsbD 6 = true := by
    rw [readPte_setPteBits h0 hd, BitVec.getLsbD_or, hA, Bool.or_true]
  exact BitFields.or_twoPow_of_getLsbD (i := 6) (hf.readPte hbit)

theorem ptr_valid {raw : Word} (h : (pteParse raw).isPtr = true) : (pteParse raw).v = true := by
  simp only [pteParse, Bool.and_eq_true] at h ⊢
  exact h.1

/-- Two entries of different kinds lie at different offsets, so that setting A in
one leaves the low byte of the other alone. -/
theorem readPte_low_of_kinds {a b : Word} (ha : (pteParse (readPte c a)).isPtr = true)
    (hb : (pteParse (readPte c b)).isLeaf = true) (d : Word) {i : Nat} (hi : i < 8) :
    (readPte (setPteBits c a d) b).getLsbD i = (readPte c b).getLsbD i := by
  obtain ⟨offA, hoffA⟩ := ramOffset_of_readPte (usable_ne_zero (ptr_valid ha))
  obtain ⟨offB, hoffB⟩ := ramOffset_of_readPte (usable_ne_zero (leaf_valid hb))
  refine readPte_setPteBits_other hoffA hoffB (fun heq => ?_)
  have hoff : offB = offA := by
    rw [Nat.div_eq_of_lt hi] at heq
    exact BitVec.eq_of_toNat_eq heq
  have hsame : readPte c a = readPte c b := by
    rw [readPte_eq hoffA, readPte_eq hoffB, hoff]
  rw [pteParse_kind, hsame, hb, Bool.not_true, Bool.and_false] at ha
  cases ha

/-- A 2 MiB leaf is dirty after a write when it was before, or when A was already set. -/
theorem mega_dirty_iff {a2 a1 : Word} (hptr : (pteParse (readPte c a2)).isPtr = true)
    (hl : (pteParse (readPte c a1)).isLeaf = true)
    (h01 : readPte (setPteBits c a2 Pte.A) a1 ≠ 0) (hw : hasWrite rwx = true)
    (hc' : c' = if readPte (setPteBits c a2 Pte.A) a1 ||| Pte.A ≠ readPte (setPteBits c a2 Pte.A) a1
      then setPteBits (setPteBits c a2 Pte.A) a1 Pte.A
      else setPteBits (setPteBits (setPteBits c a2 Pte.A) a1 Pte.A) a1 (adBits rwx)) :
    (readPte c' a1).getLsbD 7 = true ↔
      (readPte c a1).getLsbD 7 = true ∨ readPte c a1 ||| Pte.A = readPte c a1 := by
  have hlow := fun i hi => readPte_low_of_kinds hptr hl Pte.A (i := i) hi
  have hcur := readPte_setPteBits h01 pteA_low
  have hD : (adBits rwx).getLsbD 7 = true := by
    rw [adBits, if_pos hw]
    decide
  rw [or_A_iff, and_A_eq_zero, Bool.not_eq_false, ← hlow 6 (by decide), ← hlow 7 (by decide), hc']
  by_cases hset : readPte (setPteBits c a2 Pte.A) a1 ||| Pte.A = readPte (setPteBits c a2 Pte.A) a1
  · have h0 : readPte (setPteBits (setPteBits c a2 Pte.A) a1 Pte.A) a1 ≠ 0 := by
      rw [hcur, hset]
      exact h01
    have hbit := hset
    rw [or_A_iff, and_A_eq_zero, Bool.not_eq_false] at hbit
    rw [if_neg (not_not.mpr hset), readPte_setPteBits h0 (adBits_low rwx), BitVec.getLsbD_or, hD,
      Bool.or_true]
    exact iff_of_true rfl (.inr hbit)
  · have hbit := mt or_A_iff.mpr hset
    rw [not_not, and_A_eq_zero] at hbit
    rw [if_pos hset, hcur, BitVec.getLsbD_or, hbit, show Pte.A.getLsbD 7 = false by decide]
    simp

/-- A successful walk has found the leaf, and A is set on its path. A write sets D
as well, unless the leaf is a 2 MiB page whose A bit was clear. -/
theorem sv39Walk_leaf (h : sv39Walk c s p satp va rwx = (c', .ok (some r)))
    (hs : SamePages c c') :
    ∃ l, leafOf c satp va = some l ∧ r = l.result c va ∧ l.Accessed c' ∧
      (hasWrite rwx = true → (l.Dirty c' ↔
        l.Dirty c ∨ l.level = 0 ∨ readPte c l.addr ||| Pte.A = readPte c l.addr)) := by
  have hinv := sv39Walk_some h
  dsimp only at hinv
  generalize ha2 : pteAddr (satpRootPpn satp) (sv39DecomposeVa va).vpn2 = a2 at hinv
  generalize ha1 : pteAddr (pteParse (readPte c a2)).ppn (sv39DecomposeVa va).vpn1 = a1 at hinv
  obtain ⟨hmode, hptr, hv1, hend⟩ := hinv
  have hal2 : a2.toNat % 8 = 0 := by
    rw [← ha2]
    exact pteAddr_aligned _ _
  have hal1 : a1.toNat % 8 = 0 := by
    rw [← ha1]
    exact pteAddr_aligned _ _
  have f1 : RamFrame c (setPteBits c a2 Pte.A) := .setPteBits c hal2 .read
  have f2 : RamFrame (setPteBits c a2 Pte.A) (setPteBits (setPteBits c a2 Pte.A) a1 Pte.A) :=
    .setPteBits _ hal1 .read
  have hA : Pte.A.getLsbD 6 = true := by decide
  have h02 := usable_ne_zero (ptr_valid hptr)
  have h01 := usable_ne_zero hv1
  obtain ⟨hl, rfl, hc'⟩ | ⟨hl, hl0, rfl, hc'⟩ := hend
  · have f3 : RamFrame (setPteBits (setPteBits c a2 Pte.A) a1 Pte.A) c' := by
      rw [hc']
      split
      · exact .refl _
      · exact .setPteBits _ hal1 rwx
    have hp1 : pteParse (readPte (setPteBits c a2 Pte.A) a1) = pteParse (readPte c a1) := by
      rw [← ha1]
      exact (hs.between f1 (f2.trans f3)).pte _ _
    refine ⟨⟨a2, a1, a1, 1⟩, ?_, ?_, ?_, fun hw => ?_⟩
    · simp only [leafOf, ha2, ha1, hmode, hptr, ← hp1, hl]
      rfl
    · simp only [PageLeaf.result, PageLeaf.pte, hp1, ↓reduceIte]
    · intro a ha
      simp only [PageLeaf.path, List.mem_cons, List.not_mem_nil, or_false] at ha
      obtain rfl | rfl | rfl := ha
      · exact accessed_after h02 pteA_low hA (f2.trans f3)
      · exact accessed_after h01 pteA_low hA f3
      · exact accessed_after h01 pteA_low hA f3
    · rw [hp1] at hl
      have hlevel : ¬ (1 : BitVec 8) = 0 := by decide
      rw [or_iff_right hlevel]
      exact mega_dirty_iff hptr hl h01 hw hc'
  · generalize ha0 : pteAddr (pteParse (readPte (setPteBits c a2 Pte.A) a1)).ppn
      (sv39DecomposeVa va).vpn0 = a0 at hl0 hc' ⊢
    have f3 : RamFrame (setPteBits (setPteBits c a2 Pte.A) a1 Pte.A) c' := by
      rw [hc', ← ha0]
      exact .setPteBits _ (pteAddr_aligned _ _) rwx
    have f4 : RamFrame (setPteBits (setPteBits (setPteBits c a2 Pte.A) a1 Pte.A) a0 (adBits rwx)) c' := by
      rw [hc']
      exact .refl _
    have hp1 : pteParse (readPte (setPteBits c a2 Pte.A) a1) = pteParse (readPte c a1) := by
      rw [← ha1]
      exact (hs.between f1 (f2.trans f3)).pte _ _
    have hp0 : pteParse (readPte (setPteBits (setPteBits c a2 Pte.A) a1 Pte.A) a0) =
        pteParse (readPte c a0) := by
      rw [← ha0]
      exact (hs.between (f1.trans f2) f3).pte _ _
    have hptr1 : (pteParse (readPte c a1)).isPtr = true := by
      rw [pteParse_kind, ← hp1, hv1, hl]
      rfl
    have hbits : (adBits rwx).getLsbD 6 = true := by
      cases rwx <;> decide
    have h00 := usable_ne_zero (leaf_valid hl0)
    rw [hp1] at ha0 hl
    rw [hp0] at hl0
    refine ⟨⟨a2, a1, a0, 0⟩, ?_, ?_, ?_, fun hw => ?_⟩
    · simp only [leafOf, ha2, ha1, ha0, hmode, hptr, hl, hptr1, hl0]
      rfl
    · rw [hp0]
      rfl
    · intro a ha
      simp only [PageLeaf.path, List.mem_cons, List.not_mem_nil, or_false] at ha
      obtain rfl | rfl | rfl := ha
      · exact accessed_after h02 pteA_low hA (f2.trans f3)
      · exact accessed_after h01 pteA_low hA f3
      · exact accessed_after h00 (adBits_low rwx) hbits f4
    · refine iff_of_true ?_ (.inr (.inl rfl))
      have hD : (adBits rwx).getLsbD 7 = true := by
        rw [adBits, if_pos hw]
        decide
      rw [PageLeaf.Dirty, hc', readPte_setPteBits h00 (adBits_low rwx), BitVec.getLsbD_or, hD,
        Bool.or_true]

/-- With A already set a level changes nothing. -/
theorem walkLevel_accessed {ppn idx : Word} (hv : (pteParse (readPte c (pteAddr ppn idx))).v = true)
    (hA : readPte c (pteAddr ppn idx) ||| Pte.A = readPte c (pteAddr ppn idx)) :
    walkLevel c s p ppn idx =
      if pmpOk s (pteAddr ppn idx) 8 false false p = false then (c, .error .accessFault)
      else (c, .ok (some (readPte c (pteAddr ppn idx), pteParse (readPte c (pteAddr ppn idx))))) := by
  rw [walkLevel_eq]
  simp only [hv, hA, true_or, ↓reduceIte, Bool.true_eq_false,
    setPteBits_of_set (usable_ne_zero hv) pteA_low hA]

instance (s : HartState) (p : PmpCtx) (l : PageLeaf) : Decidable (l.Readable s p) :=
  inferInstanceAs (Decidable (∀ a ∈ l.path, _))

/-- A walk over a path that has been accessed. -/
theorem sv39Walk_accessed {l : PageLeaf} (hl : leafOf c satp va = some l) (hA : l.Accessed c) :
    (sv39Walk c s p satp va rwx).2 =
      let need := ptePermNeeded rwx (mxr s.mstatus)
      if ¬ l.Readable s p then .error .accessFault
      else if (l.pte c).perm &&& need ≠ need then .ok none
      else if readPte c l.addr ||| adBits rwx = readPte c l.addr ∨ pmpOk s l.addr 8 true false p then
        .ok (some (l.result c va))
      else .error .accessFault := by
  simp only [leafOf] at hl
  generalize ha2 : pteAddr (satpRootPpn satp) (sv39DecomposeVa va).vpn2 = a2 at hl
  generalize ha1 : pteAddr (pteParse (readPte c a2)).ppn (sv39DecomposeVa va).vpn1 = a1 at hl
  generalize ha0 : pteAddr (pteParse (readPte c a1)).ppn (sv39DecomposeVa va).vpn0 = a0 at hl
  split at hl
  · cases hl
  · rename_i hmode
    split at hl
    · cases hl
    · rename_i hptr
      rw [Bool.not_eq_false] at hptr
      have hw2 := @walkLevel_accessed c s p (satpRootPpn satp) (sv39DecomposeVa va).vpn2
      have hw1 := @walkLevel_accessed c s p (pteParse (readPte c a2)).ppn (sv39DecomposeVa va).vpn1
      rw [ha2] at hw2
      rw [ha1] at hw1
      split at hl
      · rename_i hleaf
        cases hl
        simp only [PageLeaf.Accessed, PageLeaf.path, List.forall_mem_cons] at hA
        simp only [sv39Walk, hmode, walkL2, walkL1, hw2 (ptr_valid hptr) hA.1, ↓reduceIte]
        cases hr2 : pmpOk s a2 8 false false p with
        | false => simp [PageLeaf.Readable, PageLeaf.path, hr2]
        | true =>
          simp only [Bool.true_eq_false, ↓reduceIte, hptr, Bool.not_true, Bool.false_eq_true,
            hw1 (leaf_valid hleaf) hA.2.1]
          cases hr1 : pmpOk s a1 8 false false p with
          | false => simp [PageLeaf.Readable, PageLeaf.path, hr1]
          | true =>
            have hread : PageLeaf.Readable s p ⟨a2, a1, a1, 1⟩ := by
              simp [PageLeaf.Readable, PageLeaf.path, hr1, hr2]
            simp only [Bool.true_eq_false, ↓reduceIte, hleaf]
            rw [ha1, walkL1Leaf_eq hleaf hA.2.1.symm hr1 (.inl hA.2.1)]
            simp only [hread, not_true, ↓reduceIte, hA.2.1, ne_eq, PageLeaf.pte, PageLeaf.result]
            split
            · rfl
            · split <;> rfl
      · rename_i hleaf
        split at hl
        · rename_i hboth
          cases hl
          simp only [PageLeaf.Accessed, PageLeaf.path, List.forall_mem_cons] at hA
          simp only [sv39Walk, hmode, walkL2, walkL1, hw2 (ptr_valid hptr) hA.1, ↓reduceIte]
          cases hr2 : pmpOk s a2 8 false false p with
          | false => simp [PageLeaf.Readable, PageLeaf.path, hr2]
          | true =>
            simp only [Bool.true_eq_false, ↓reduceIte, hptr, Bool.not_true, Bool.false_eq_true,
              hw1 (ptr_valid hboth.1) hA.2.1]
            cases hr1 : pmpOk s a1 8 false false p with
            | false => simp [PageLeaf.Readable, PageLeaf.path, hr1]
            | true =>
              simp only [Bool.true_eq_false, Bool.false_eq_true, ↓reduceIte, hleaf]
              rw [walkL0_eq]
              simp only [ha0]
              cases hr0 : pmpOk s a0 8 false false p with
              | false => simp [PageLeaf.Readable, PageLeaf.path, hr0]
              | true =>
                have hread : PageLeaf.Readable s p ⟨a2, a1, a0, 0⟩ := by
                  simp [PageLeaf.Readable, PageLeaf.path, hr0, hr1, hr2]
                simp only [hread, not_true, ↓reduceIte, Bool.true_eq_false, hboth.2, false_or,
                  PageLeaf.pte, PageLeaf.result]
                by_cases hperm : (pteParse (readPte c a0)).perm &&&
                    ptePermNeeded rwx (mxr s.mstatus) = ptePermNeeded rwx (mxr s.mstatus)
                · by_cases hc : readPte c a0 ||| adBits rwx = readPte c a0 ∨
                      pmpOk s a0 8 true false p = true
                  · simp only [hperm, hc, ne_eq, not_true, ↓reduceIte]
                    rfl
                  · simp only [hperm, hc, ne_eq, not_true, ↓reduceIte]
                · simp only [hperm, ne_eq, not_false_eq_true, ↓reduceIte]
        · cases hl

end Walk

end Pyremu
