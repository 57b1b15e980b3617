import Pyremu.Pmp
import Pyremu.Lib.FirstMatch

/-!
# PMP regions in integers

The regions of the table as the specification reads them, with bounds that do
not wrap around, beside the bounds modulo `2^64` that `pmp_check` compares. The
two readings give an entry the same verdict whenever both take it to match.
-/

namespace Pyremu

open FirstMatch

/-! ## Two readings of an entry -/

/-- The bytes of an access lie between two bounds. -/
def Within (pa : Word) (size : Nat) (b : Nat × Nat) : Prop :=
  b.1 ≤ pa.toNat ∧ pa.toNat + size ≤ b.2

/-- The same with both bounds and the last byte taken modulo `2^64`, each end inclusive. Equal
bounds leave nothing. -/
def WithinMod (pa : Word) (size : Nat) (b : Nat × Nat) : Prop :=
  b.1 % 2 ^ 64 ≠ b.2 % 2 ^ 64 ∧ b.1 % 2 ^ 64 ≤ pa.toNat ∧
    (pa.toNat + size - 1) % 2 ^ 64 ≤ (b.2 + 2 ^ 64 - 1) % 2 ^ 64

instance (pa : Word) (size : Nat) (b : Nat × Nat) : Decidable (Within pa size b) :=
  inferInstanceAs (Decidable (_ ∧ _))

instance (pa : Word) (size : Nat) (b : Nat × Nat) : Decidable (WithinMod pa size b) :=
  inferInstanceAs (Decidable (_ ∧ _ ∧ _))

/-- The naturally aligned region of an address register; `top` ends the region of all ones,
which covers the whole address space. -/
def napotBounds (top : Nat) (pmpaddrVal : Word) : Nat × Nat :=
  let val := pmpaddrVal &&& 0x003fffffffffffff
  let trailing := trailingOnes val
  if 54 ≤ trailing then (0, top)
  else
    let base := 4 * (val.toNat - val.toNat % 2 ^ trailing)
    (base, base + 2 ^ (trailing + 3))

/-- The bounds of entry `i`, `none` when it is switched off. -/
def PmpCtx.bounds (p : PmpCtx) (top i : Nat) : Option (Nat × Nat) :=
  let aType := p.cfg i &&& Pmp.aMask
  if aType = Pmp.aTor then
    some (if i = 0 then 0 else 4 * (p.addr (i - 1)).toNat, 4 * (p.addr i).toNat)
  else if aType = Pmp.aNa4 then some (4 * (p.addr i).toNat, 4 * (p.addr i).toNat + 4)
  else if aType = Pmp.aNapot then some (napotBounds top (p.addr i))
  else none

/-- The exact region of entry `i` contains every byte of the access. -/
def PmpCtx.Encloses (p : PmpCtx) (pa : Word) (size i : Nat) : Prop :=
  ∃ b, p.bounds (2 ^ 64) i = some b ∧ Within pa size b

/-- The wrapped region does. The one that covers everything ends a byte early. -/
def PmpCtx.EnclosesMod (p : PmpCtx) (pa : Word) (size i : Nat) : Prop :=
  ∃ b, p.bounds (2 ^ 64 - 1) i = some b ∧ WithinMod pa size b

instance (p : PmpCtx) (pa : Word) (size i : Nat) : Decidable (p.Encloses pa size i) :=
  match h : p.bounds (2 ^ 64) i with
  | none => .isFalse fun ⟨_, hb, _⟩ => by rw [h] at hb; cases hb
  | some b => decidable_of_iff (Within pa size b)
      ⟨fun hw => ⟨b, h, hw⟩, fun ⟨_, hb, hw⟩ => by rw [h] at hb; cases hb; exact hw⟩

instance (p : PmpCtx) (pa : Word) (size i : Nat) : Decidable (p.EnclosesMod pa size i) :=
  match h : p.bounds (2 ^ 64 - 1) i with
  | none => .isFalse fun ⟨_, hb, _⟩ => by rw [h] at hb; cases hb
  | some b => decidable_of_iff (WithinMod pa size b)
      ⟨fun hw => ⟨b, h, hw⟩, fun ⟨_, hb, hw⟩ => by rw [h] at hb; cases hb; exact hw⟩

/-- The verdict of entry `i` when `enc` says which entries enclose the access. -/
def PmpCtx.verdictBy (p : PmpCtx) (enc : Nat → Prop) [DecidablePred enc] (skip : Nat)
    (isWrite isExecute : Bool) (i : Nat) : Option Bool :=
  if skip ≤ i ∧ enc i then some (checkPerm (p.cfg i) isWrite isExecute) else none

theorem verdictBy_eq_some {p : PmpCtx} {enc : Nat → Prop} [DecidablePred enc] {skip i : Nat}
    {isWrite isExecute b : Bool} :
    p.verdictBy enc skip isWrite isExecute i = some b ↔
      skip ≤ i ∧ enc i ∧ checkPerm (p.cfg i) isWrite isExecute = b := by
  simp only [PmpCtx.verdictBy]
  split
  · rename_i h
    simp only [h, true_and, Option.some.injEq]
  · rename_i h
    simp only [reduceCtorEq, false_iff]
    exact fun hc => h ⟨hc.1, hc.2.1⟩

theorem verdictBy_eq_none {p : PmpCtx} {enc : Nat → Prop} [DecidablePred enc] {skip i : Nat}
    {isWrite isExecute : Bool} :
    p.verdictBy enc skip isWrite isExecute i = none ↔ (skip ≤ i → ¬ enc i) := by
  simp only [PmpCtx.verdictBy, ite_eq_right_iff, reduceCtorEq, imp_false, not_and]

/-! ## The wrapped reading is the code's -/

theorem addrInRange_iff {addr base rsize : Word} {size lo hi : Nat} (hs : 0 < size) (hs' : size ≤ 8)
    (hlo : base.toNat = lo % 2 ^ 64) (hhi : (base + rsize).toNat = hi % 2 ^ 64) :
    addrInRange addr size base rsize = true ↔ WithinMod addr size (lo, hi) := by
  have h0 : (0 : Word).toNat = 0 := rfl
  have h1 : (1 : Word).toNat = 1 := rfl
  have hz : rsize = 0 ↔ lo % 2 ^ 64 = hi % 2 ^ 64 := by
    have := base.isLt
    have := rsize.isLt
    rw [← hlo, ← hhi, ← BitVec.toNat_inj, BitVec.toNat_add, h0]
    omega
  simp only [addrInRange, WithinMod]
  by_cases h : rsize = 0
  · rw [if_pos h]
    exact iff_of_false Bool.false_ne_true fun hw => hw.1 (hz.mp h)
  · rw [if_neg h]
    have hne : lo % 2 ^ 64 ≠ hi % 2 ^ 64 := mt hz.mpr h
    have hfin : (addr + BitVec.ofNat 64 size - 1).toNat = (addr.toNat + size - 1) % 2 ^ 64 := by
      have := addr.isLt
      rw [BitVec.toNat_sub, BitVec.toNat_add, BitVec.toNat_ofNat, h1]
      omega
    have hrend : (base + rsize - 1).toNat = (hi + 2 ^ 64 - 1) % 2 ^ 64 := by
      rw [BitVec.toNat_sub, hhi, h1]
      omega
    rw [Bool.and_eq_true, decide_eq_true_eq, decide_eq_true_eq, BitVec.le_def, BitVec.le_def, hlo, hfin,
      hrend]
    exact ⟨fun hw => ⟨hne, hw⟩, fun hw => hw.2⟩

theorem shiftLeft_two_toNat (a : Word) : (a <<< 2).toNat = 4 * a.toNat % 2 ^ 64 := by
  rw [BitVec.toNat_shiftLeft, Nat.shiftLeft_eq]
  omega

theorem mask_getLsbD {k : Nat} (hk : k < 64) (i : Nat) :
    (((1 : Word) <<< k) - 1).getLsbD i = decide (i < k) := by
  have hpow : 2 ^ k < 2 ^ 64 := Nat.pow_lt_pow_right (by decide) hk
  have hpos : 0 < 2 ^ k := Nat.two_pow_pos k
  have hnat : (((1 : Word) <<< k) - 1).toNat = 2 ^ k - 1 := by
    have h1 : (1 : Word).toNat = 1 := rfl
    rw [BitVec.toNat_sub, BitVec.toNat_shiftLeft, h1, Nat.shiftLeft_eq]
    omega
  rw [← BitVec.testBit_toNat, hnat, Nat.testBit_two_pow_sub_one]

theorem and_not_mask_toNat (v : Word) {k : Nat} (hk : k < 64) :
    (v &&& ~~~(((1 : Word) <<< k) - 1)).toNat = v.toNat - v.toNat % 2 ^ k := by
  have hshift : v &&& ~~~(((1 : Word) <<< k) - 1) = v >>> k <<< k := by
    apply BitVec.eq_of_getLsbD_eq
    intro i hi
    rw [BitVec.getLsbD_and, BitVec.getLsbD_not, mask_getLsbD hk, BitVec.getLsbD_shiftLeft,
      BitVec.getLsbD_ushiftRight]
    by_cases h : i < k
    · simp [h]
    · simp [h, hi, Nat.add_sub_cancel' (Nat.not_lt.mp h)]
  rw [hshift, BitVec.toNat_shiftLeft, BitVec.toNat_ushiftRight, Nat.shiftLeft_eq, Nat.shiftRight_eq_div_pow]
  have hdm := Nat.div_add_mod v.toNat (2 ^ k)
  rw [Nat.mul_comm] at hdm
  have := v.isLt
  omega

theorem napot_iff {addr a : Word} {size : Nat} (hs : 0 < size) (hs' : size ≤ 8) :
    addrInRange addr size (decodeNapot a).1 (decodeNapot a).2 = true ↔
      WithinMod addr size (napotBounds (2 ^ 64 - 1) a) := by
  simp only [decodeNapot, napotBounds]
  generalize hv : a &&& 0x003fffffffffffff = val
  have hval : val.toNat < 2 ^ 54 := by
    rw [← hv, BitVec.toNat_and]
    exact Nat.lt_of_le_of_lt Nat.and_le_right (by decide)
  generalize trailingOnes val = k
  by_cases hk : 54 ≤ k
  · rw [if_pos hk, if_pos hk]
    exact addrInRange_iff hs hs' rfl rfl
  · rw [if_neg hk, if_neg hk]
    have hpow : 2 ^ (k + 3) ≤ 2 ^ 56 := Nat.pow_le_pow_right (by decide) (by omega)
    have hsize : ((1 : Word) <<< (k + 3)).toNat = 2 ^ (k + 3) := by
      have h1 : (1 : Word).toNat = 1 := rfl
      rw [BitVec.toNat_shiftLeft, h1, Nat.shiftLeft_eq]
      omega
    by_cases h0 : k = 0
    · subst h0
      rw [if_pos rfl]
      dsimp only
      refine addrInRange_iff hs hs' ?_ ?_
      · rw [shiftLeft_two_toNat, Nat.pow_zero, Nat.mod_one, Nat.sub_zero]
      · rw [BitVec.toNat_add, shiftLeft_two_toNat, Nat.pow_zero, Nat.mod_one, Nat.sub_zero]
        have h8 : (8 : Word).toNat = 8 := rfl
        omega
    · rw [if_neg h0]
      have hbase : ((val &&& ~~~(((1 : Word) <<< k) - 1)) <<< 2).toNat =
          4 * (val.toNat - val.toNat % 2 ^ k) % 2 ^ 64 := by
        rw [shiftLeft_two_toNat, and_not_mask_toNat val (by omega)]
      apply addrInRange_iff hs hs' hbase
      rw [BitVec.toNat_add, hbase, hsize]
      omega

/-- The verdict of the code is the one of the wrapped reading. -/
theorem verdict_eq (p : PmpCtx) (skip : Nat) (pa : Word) {size : Nat} (isWrite isExecute : Bool)
    (hs : 0 < size) (hs' : size ≤ 8) :
    p.verdict skip pa size isWrite isExecute = p.verdictBy (p.EnclosesMod pa size) skip isWrite isExecute := by
  funext i
  have key : p.EnclosesMod pa size i ↔ ∃ b, p.region i = some b ∧ addrInRange pa size b.1 b.2 = true := by
    simp only [PmpCtx.EnclosesMod, PmpCtx.bounds, PmpCtx.region]
    generalize p.cfg i &&& Pmp.aMask = aType
    by_cases hoff : aType = Pmp.aOff
    · subst hoff
      refine iff_of_false ?_ ?_
      · rintro ⟨b, hb, _⟩
        cases hb
      · rintro ⟨b, hb, _⟩
        cases hb
    · rw [if_neg hoff]
      by_cases htor : aType = Pmp.aTor
      · rw [if_pos htor, if_pos htor]
        simp only [Option.some.injEq, exists_eq_left']
        refine (addrInRange_iff hs hs' ?_ ?_).symm
        · split
          · rfl
          · exact shiftLeft_two_toNat _
        · rw [BitVec.add_comm, BitVec.sub_add_cancel, shiftLeft_two_toNat]
      · rw [if_neg htor, if_neg htor]
        by_cases hna4 : aType = Pmp.aNa4
        · rw [if_pos hna4, if_pos hna4]
          simp only [Option.some.injEq, exists_eq_left']
          have h4 : (4 : Word).toNat = 4 := rfl
          refine (addrInRange_iff hs hs' (shiftLeft_two_toNat _) ?_).symm
          rw [BitVec.toNat_add, shiftLeft_two_toNat, h4]
          omega
        · rw [if_neg hna4, if_neg hna4]
          by_cases hnapot : aType = Pmp.aNapot
          · rw [if_pos hnapot, if_pos hnapot]
            simp only [Option.some.injEq, exists_eq_left']
            exact (napot_iff hs hs').symm
          · rw [if_neg hnapot, if_neg hnapot]
            simp only [reduceCtorEq, false_and, exists_false]
  simp only [PmpCtx.verdict, PmpCtx.verdictBy, key]
  by_cases hi : i < skip
  · rw [if_pos hi, if_neg fun h => absurd h.1 (Nat.not_le.mpr hi)]
  · rw [if_neg hi]
    cases hr : p.region i with
    | none => simp
    | some b =>
      simp [Nat.not_lt.mp hi]

/-! ## What is granted -/

theorem checkPerm_iff (cfg : BitVec 8) (isWrite isExecute : Bool) :
    checkPerm cfg isWrite isExecute = true ↔
      cfg &&& Pmp.R ≠ 0 ∧ (isWrite = true → cfg &&& Pmp.W ≠ 0) ∧ (isExecute = true → cfg &&& Pmp.X ≠ 0) := by
  simp only [checkPerm]
  cases isWrite <;> cases isExecute <;> simp

theorem le_enclaveSkip {pmpsplit : BitVec 8} {mdid : Word} {i : Nat} :
    enclaveSkip pmpsplit mdid ≤ i ↔ (mdid ≠ hostMdid ∧ 0#8 < pmpsplit → pmpsplit.toNat ≤ i) := by
  simp only [enclaveSkip]
  split
  · rename_i h
    simp only [h, and_self, forall_const, ne_eq, not_false_eq_true]
  · rename_i h
    simp only [Nat.zero_le, true_iff]
    exact fun hc => absurd hc h

/-- Below M, the check is the scan. -/
theorem pmpCheck_first {p : PmpCtx} {pa : Word} {size : Nat} {isWrite isExecute : Bool} {mode : Mode}
    {mstatus : Word} {pmpsplit : BitVec 8} {mdid : Word} (he : pmpEffMode mode mstatus ≠ .M) :
    pmpCheck p pa size isWrite isExecute mode mstatus pmpsplit mdid = true ↔
      First (p.verdict (enclaveSkip pmpsplit mdid) pa size isWrite isExecute) p.num.toNat true := by
  simp only [pmpCheck, if_neg he, decide_eq_false he]
  by_cases h0 : p.num = 0
  · rw [if_pos h0]
    apply iff_of_false Bool.false_ne_true
    rintro ⟨i, hi, _⟩
    rw [h0] at hi
    exact Nat.not_lt_zero i hi
  · rw [if_neg h0]
    by_cases hsplit : mdid ≠ hostMdid ∧ 0#8 < pmpsplit ∧ p.num ≤ pmpsplit
    · rw [if_pos hsplit]
      apply iff_of_false Bool.false_ne_true
      rintro ⟨i, hi, hv, _⟩
      have hnum : p.num.toNat ≤ pmpsplit.toNat := hsplit.2.2
      have hskip : enclaveSkip pmpsplit mdid = pmpsplit.toNat := if_pos ⟨hsplit.1, hsplit.2.1⟩
      rw [PmpCtx.verdict, if_pos (by omega)] at hv
      cases hv
    · rw [if_neg hsplit, ← findSome?_range]
      split
      · rename_i allowed hv
        rw [hv, Option.some.injEq]
      · rename_i hv
        simp only [hv, Bool.false_eq_true, reduceCtorEq]

theorem pmpCheck_iff {p : PmpCtx} {pa : Word} {size : Nat} {isWrite isExecute : Bool} {mode : Mode}
    {mstatus : Word} {pmpsplit : BitVec 8} {mdid : Word} (he : pmpEffMode mode mstatus ≠ .M)
    (hs : 0 < size) (hs' : size ≤ 8) :
    pmpCheck p pa size isWrite isExecute mode mstatus pmpsplit mdid = true ↔
      First (p.verdictBy (p.EnclosesMod pa size) (enclaveSkip pmpsplit mdid) isWrite isExecute)
        p.num.toNat true := by
  rw [pmpCheck_first he, verdict_eq p _ pa _ _ hs hs']

/-- Some visible entry has the rights the access needs and encloses it exactly, and no visible
entry before it does. -/
def PmpCtx.Grants (p : PmpCtx) (pa : Word) (size : Nat) (isWrite isExecute : Bool)
    (pmpsplit : BitVec 8) (mdid : Word) : Prop :=
  ∃ i < p.num.toNat, (mdid ≠ hostMdid ∧ 0#8 < pmpsplit → pmpsplit.toNat ≤ i) ∧
    (p.cfg i &&& Pmp.R ≠ 0 ∧ (isWrite = true → p.cfg i &&& Pmp.W ≠ 0) ∧
      (isExecute = true → p.cfg i &&& Pmp.X ≠ 0)) ∧
    p.Encloses pa size i ∧
    ∀ j < i, (mdid ≠ hostMdid ∧ 0#8 < pmpsplit → pmpsplit.toNat ≤ j) → ¬ p.Encloses pa size j

theorem grants_iff {p : PmpCtx} {pa : Word} {size : Nat} {isWrite isExecute : Bool}
    {pmpsplit : BitVec 8} {mdid : Word} :
    p.Grants pa size isWrite isExecute pmpsplit mdid ↔
      First (p.verdictBy (p.Encloses pa size) (enclaveSkip pmpsplit mdid) isWrite isExecute)
        p.num.toNat true := by
  simp only [PmpCtx.Grants, First, verdictBy_eq_some, verdictBy_eq_none, checkPerm_iff, le_enclaveSkip]
  refine exists_congr fun i => and_congr_right fun _ => ?_
  tauto

/-- The wrapped and the exact reading of the visible entries do not come apart: where only the
wrapped one matches and permits, a later entry is the first to enclose the access exactly and
permits it too; where only the exact one matches and refuses, no later entry is the first to
match wrapped and permits. -/
def PmpCtx.ReadsExactly (p : PmpCtx) (pa : Word) (size : Nat) (isWrite isExecute : Bool)
    (pmpsplit : BitVec 8) (mdid : Word) : Prop :=
  Agrees (p.verdictBy (p.EnclosesMod pa size) (enclaveSkip pmpsplit mdid) isWrite isExecute)
    (p.verdictBy (p.Encloses pa size) (enclaveSkip pmpsplit mdid) isWrite isExecute) p.num.toNat

/-- Below M, for every table: what is granted is granted by a region that contains every byte,
exactly when the two readings do not come apart. -/
theorem pmp_grants_iff (p : PmpCtx) (pa : Word) (size : Nat) (isWrite isExecute : Bool) (mode : Mode)
    (mstatus : Word) (pmpsplit : BitVec 8) (mdid : Word) (he : pmpEffMode mode mstatus ≠ .M)
    (hs : 0 < size) (hs' : size ≤ 8) :
    (pmpCheck p pa size isWrite isExecute mode mstatus pmpsplit mdid = true →
        p.Grants pa size isWrite isExecute pmpsplit mdid) ↔
      p.ReadsExactly pa size isWrite isExecute pmpsplit mdid := by
  rw [pmpCheck_iff he hs hs', grants_iff]
  apply imp_iff
  intro i a b ha hb
  exact (verdictBy_eq_some.mp ha).2.2.symm.trans (verdictBy_eq_some.mp hb).2.2

/-! ## Tables without surprises -/

/-- No bound is shifted out of the word, no TOR entry ends at zero above its start, and the access
stays below the last byte. -/
structure PmpCtx.Tame (p : PmpCtx) (pa : Word) (size : Nat) : Prop where
  fits : pa.toNat + size < 2 ^ 64
  addr_lt : ∀ i < p.num.toNat, (p.addr i).toNat < 2 ^ 62
  tor : ∀ i < p.num.toNat, p.cfg i &&& Pmp.aMask = Pmp.aTor → p.addr i = 0 → i = 0 ∨ p.addr (i - 1) = 0

theorem within_iff {pa : Word} {size lo hi : Nat} (hs : 0 < size) (hp : pa.toNat + size < 2 ^ 64)
    (hlo : lo < 2 ^ 64) (hhi : hi ≤ 2 ^ 64) (hz : hi % 2 ^ 64 = 0 → lo = hi ∨ hi = 2 ^ 64 ∧ 0 < lo) :
    WithinMod pa size (lo, hi) ↔ Within pa size (lo, hi) := by
  simp only [WithinMod, Within]
  omega

theorem napotBounds_iff {pa a : Word} {size : Nat} (hs : 0 < size) (hp : pa.toNat + size < 2 ^ 64) :
    WithinMod pa size (napotBounds (2 ^ 64 - 1) a) ↔ Within pa size (napotBounds (2 ^ 64) a) := by
  simp only [napotBounds]
  generalize hv : a &&& 0x003fffffffffffff = val
  have hval : val.toNat < 2 ^ 54 := by
    rw [← hv, BitVec.toNat_and]
    exact Nat.lt_of_le_of_lt Nat.and_le_right (by decide)
  generalize trailingOnes val = k
  by_cases hk : 54 ≤ k
  · rw [if_pos hk, if_pos hk]
    simp only [WithinMod, Within]
    omega
  · rw [if_neg hk, if_neg hk]
    have hpow : 2 ^ (k + 3) ≤ 2 ^ 56 := Nat.pow_le_pow_right (by decide) (by omega)
    have hpos : 0 < 2 ^ (k + 3) := Nat.two_pow_pos _
    exact within_iff hs hp (by omega) (by omega) (by omega)

theorem PmpCtx.Tame.encloses_iff {p : PmpCtx} {pa : Word} {size i : Nat} (h : p.Tame pa size)
    (hs : 0 < size) (hi : i < p.num.toNat) : p.EnclosesMod pa size i ↔ p.Encloses pa size i := by
  have ha := h.addr_lt i hi
  simp only [PmpCtx.EnclosesMod, PmpCtx.Encloses, PmpCtx.bounds]
  by_cases htor : p.cfg i &&& Pmp.aMask = Pmp.aTor
  · rw [if_pos htor, if_pos htor]
    simp only [Option.some.injEq, exists_eq_left']
    have hlo := h.addr_lt (i - 1) (by omega)
    refine within_iff hs h.fits ?_ (by omega) fun hz => .inl ?_
    · split <;> omega
    · have hzero : 4 * (p.addr i).toNat = 0 := by omega
      have ha0 : p.addr i = 0 := BitVec.eq_of_toNat_eq (by simpa using hzero)
      rcases h.tor i hi htor ha0 with h0 | h0
      · rw [if_pos h0, hzero]
      · simp [h0, ha0]
  · rw [if_neg htor, if_neg htor]
    by_cases hna4 : p.cfg i &&& Pmp.aMask = Pmp.aNa4
    · rw [if_pos hna4, if_pos hna4]
      simp only [Option.some.injEq, exists_eq_left']
      exact within_iff hs h.fits (by omega) (by omega) (by omega)
    · rw [if_neg hna4, if_neg hna4]
      by_cases hnapot : p.cfg i &&& Pmp.aMask = Pmp.aNapot
      · rw [if_pos hnapot, if_pos hnapot]
        simp only [Option.some.injEq, exists_eq_left']
        exact napotBounds_iff hs h.fits
      · rw [if_neg hnapot, if_neg hnapot]
        simp only [reduceCtorEq, false_and, exists_false]

/-- Every access to a tame table is judged by the exact regions. -/
theorem PmpCtx.Tame.readsExactly {p : PmpCtx} {pa : Word} {size : Nat} (h : p.Tame pa size)
    (hs : 0 < size) (isWrite isExecute : Bool) (pmpsplit : BitVec 8) (mdid : Word) :
    p.ReadsExactly pa size isWrite isExecute pmpsplit mdid := by
  apply Agrees.of_eq
  intro i hi
  simp only [PmpCtx.verdictBy, h.encloses_iff hs hi]

/-- One TOR entry with all rights over the first megabyte. -/
def lowMegabyte : PmpCtx := ⟨fun _ => 0x0F, fun _ => 0x40000, 1⟩

theorem lowMegabyte_grants :
    pmpCheck lowMegabyte 0x1000 8 true false .S 0 0 0 = true ∧
      lowMegabyte.Grants 0x1000 8 true false 0 0 := by
  have htame : lowMegabyte.Tame 0x1000 8 :=
    ⟨by decide, fun _ _ => (by decide : (0x40000 : Word).toNat < 2 ^ 62),
      fun _ _ _ h => absurd h (by decide : (0x40000 : Word) ≠ 0)⟩
  have hcheck : pmpCheck lowMegabyte 0x1000 8 true false .S 0 0 0 = true := by decide
  exact ⟨hcheck, (pmp_grants_iff lowMegabyte 0x1000 8 true false .S 0 0 0 (by decide) (by decide)
    (by decide)).mpr (htame.readsExactly (by decide) _ _ _ _) hcheck⟩

/-- A TOR entry whose upper bound is zero, above a lower bound of 0x4000. -/
def torToZero : PmpCtx :=
  ⟨fun i => if i = 1 then 0x0F else 0, fun i => if i = 0 then 0x1000 else 0, 2⟩

/-- The region is empty, and yet everything from 0x4000 up is granted. -/
theorem empty_tor_grants :
    pmpCheck torToZero 0x80000000 8 true false .S 0 0 0 = true ∧
      ¬ torToZero.Grants 0x80000000 8 true false 0 0 := by
  refine ⟨by decide, ?_⟩
  rintro ⟨i, hi, _, _, henc, _⟩
  have hno : ∀ i < 2, ¬ torToZero.Encloses 0x80000000 8 i := by decide
  exact hno i hi henc

end Pyremu
