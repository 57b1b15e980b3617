import Pyremu.ImsicBoundary

/-!
# The interrupt file of the Python device

`_ImsicFile` has the registers of the engine's file and loops of its own over
the words. `read_topei` drops the pending bit of a candidate before it compares
the candidate with the threshold, the threshold has ten bits here and eight
there, and a numbered write takes the low eleven bits of any value.
-/

namespace Pyremu

/-! ## The file and its accesses -/

/-- The identities of software interrupts, as bits of word 0. -/
def swMask : BitVec 32 := 1#32 <<< 3 ||| 1#32 <<< 1

namespace PyImsicFile

/-- `__init__`. -/
def init : PyImsicFile := ⟨fun _ => 0, fun _ => 0, 0, 0, false⟩

/-- `_update_any_ext`. -/
def updateAnyExt (f : PyImsicFile) : PyImsicFile :=
  { f with anyExt := (List.range eipWords).any fun i => decide (f.eip i ≠ 0) }

def setPending (f : PyImsicFile) (eipNum : BitVec 32) : PyImsicFile :=
  if 0 < eipNum ∧ eipNum < maxIid then
    { f with eip := numWrite f.eip eipNum true, anyExt := true }
  else f

def clearPending (f : PyImsicFile) (eipNum : BitVec 32) : PyImsicFile :=
  if 0 < eipNum ∧ eipNum < maxIid then updateAnyExt { f with eip := numWrite f.eip eipNum false }
  else f

/-- `pending_enabled` of word `i`; the enables do not apply to software interrupts. -/
def pendingEnabled (f : PyImsicFile) (i : Nat) : BitVec 32 :=
  if i = 0 then (f.eip 0 &&& swMask) ||| (f.eip 0 &&& f.eie 0 &&& ~~~swMask) else f.eip i &&& f.eie i

/-- The identity that word `i` offers, `(i << 5) + bit`. -/
def candidate (f : PyImsicFile) (i : Nat) : Nat := i * 32 + highestBit (f.pendingEnabled i)

/-- The loop of `peek_topei` over the words below `k`, highest first. -/
def peekScan (f : PyImsicFile) : Nat → Word
  | 0 => 0
  | i + 1 =>
    if f.pendingEnabled i = 0 then f.peekScan i
    else if f.eithreshold < f.candidate i % 256 then topeiValue (f.candidate i)
    else f.peekScan i

def peekTopei (f : PyImsicFile) : Word :=
  let ipiPending := f.eip 0 &&& swMask
  if ipiPending ≠ 0 then topeiValue (highestBit ipiPending)
  else if f.eidelivery = 0 ∨ f.anyExt = false then 0
  else f.peekScan eipWords

/-- `eip[i] &= ~(1 << bit)`, then `_update_any_ext`. -/
def dropBit (f : PyImsicFile) (i bit : Nat) : PyImsicFile :=
  updateAnyExt { f with eip := Function.update f.eip i (f.eip i &&& ~~~(1#32 <<< bit)) }

/-- The loop of `read_topei`: the bit goes first, the threshold is looked at afterwards. -/
def readScan (f : PyImsicFile) : Nat → Word × PyImsicFile
  | 0 => (0, f)
  | i + 1 =>
    if f.pendingEnabled i = 0 then f.readScan i
    else
      let claimed := f.dropBit i (highestBit (f.pendingEnabled i))
      if f.eithreshold < f.candidate i % 256 then (topeiValue (f.candidate i), claimed)
      else claimed.readScan i

def readTopei (f : PyImsicFile) : Word × PyImsicFile :=
  let ipiPending := f.eip 0 &&& swMask
  if ipiPending ≠ 0 then
    (topeiValue (highestBit ipiPending), f.dropBit 0 (highestBit ipiPending))
  else if f.eidelivery = 0 ∨ f.anyExt = false then (0, f)
  else f.readScan eipWords

def csrRead (f : PyImsicFile) (select : BitVec 32) : Word :=
  if select = 0x70 then BitVec.ofNat 64 f.eidelivery
  else if select = 0x72 then BitVec.ofNat 64 f.eithreshold
  else if 0x80 ≤ select ∧ select ≤ 0xBF then readPair f.eip (select - 0x80).toNat
  else if 0xC0 ≤ select ∧ select ≤ 0xFF then readPair f.eie (select - 0xC0).toNat
  else 0

/-- `_write_numbered_bit`; the test against `_MAX_INTERRUPT_IDS` always passes. -/
def writeNumberedBit (f : PyImsicFile) (select : BitVec 32) (v : Word) : PyImsicFile :=
  let eipNum : BitVec 32 := (v &&& 0x7FF).setWidth 32
  if maxIid ≤ eipNum then f
  else if select = 0x58 then updateAnyExt { f with eip := numWrite f.eip eipNum true }
  else if select = 0x59 then updateAnyExt { f with eip := numWrite f.eip eipNum false }
  else if select = 0x5A then { f with eie := numWrite f.eie eipNum true }
  else if select = 0x5B then { f with eie := numWrite f.eie eipNum false }
  else f

def csrWrite (f : PyImsicFile) (select : BitVec 32) (v : Word) : PyImsicFile :=
  if select = 0x70 then { f with eidelivery := (v &&& 1).toNat }
  else if select = 0x72 then { f with eithreshold := (v &&& 0x3FF).toNat }
  else if 0x80 ≤ select ∧ select ≤ 0xBF then
    updateAnyExt { f with eip := writePair f.eip (select - 0x80).toNat v }
  else if 0xC0 ≤ select ∧ select ≤ 0xFF then
    { f with eie := writePair f.eie (select - 0xC0).toNat v }
  else f.writeNumberedBit select v

end PyImsicFile

/-- What software and devices do to one interrupt file. -/
inductive ImsicAccess where
  | csrWrite (select : BitVec 32) (v : Word)
  | seteipnum (eipNum : BitVec 32)
  | clreipnum (eipNum : BitVec 32)
  | claim
  deriving DecidableEq, Repr

def PyImsicFile.access (f : PyImsicFile) : ImsicAccess → PyImsicFile
  | .csrWrite select v => f.csrWrite select v
  | .seteipnum n => f.setPending n
  | .clreipnum n => f.clearPending n
  | .claim => f.readTopei.2

/-- The same access in the engine, where MTOPEI and STOPEI peek and then claim the identity. -/
def engineAccess (mfile : Bool) (s : HartState) : ImsicAccess → HartState
  | .csrWrite select v => s.setImsicFile mfile (imsicRegWrite (s.imsicFile mfile) select v)
  | .seteipnum n => imsicEipSet s (!mfile) n
  | .clreipnum n => imsicEipClear s (!mfile) n
  | .claim =>
    let f := s.imsicFile mfile
    let raw := imsicTopeiPeek f
    if raw ≠ 0 then
      syncImsicOne (s.setImsicFile mfile (imsicTopeiClaimIid f ((raw >>> 16).setWidth 32))) mfile
    else s

/-! ## Equal contents -/

/-- The two files hold the same registers; the summary of the engine's file covers what is pending. -/
structure SameContents (p : PyImsicFile) (f : ImsicFile) : Prop where
  eip : ∀ i < eipWords, p.eip i = f.eip i
  eie : ∀ i < eipWords, p.eie i = f.eie i
  eidelivery : p.eidelivery = f.eidelivery.toNat
  eithreshold : p.eithreshold = f.eithreshold.toNat
  summary : hasExtInterrupt f.eip = true → f.eipExtAny = true

/-- `_any_ext` covers the pending words. -/
def PyImsicFile.Covers (p : PyImsicFile) : Prop := (∃ i < eipWords, p.eip i ≠ 0) → p.anyExt = true

section Covers

variable {p : PyImsicFile}

theorem any_ne_zero_iff {a : Nat → BitVec 32} :
    ((List.range eipWords).any fun i => decide (a i ≠ 0)) = true ↔ ∃ i < eipWords, a i ≠ 0 := by
  rw [List.any_eq_true]
  constructor
  · rintro ⟨i, hi, h⟩
    exact ⟨i, List.mem_range.mp hi, of_decide_eq_true h⟩
  · rintro ⟨i, hi, h⟩
    exact ⟨i, List.mem_range.mpr hi, decide_eq_true h⟩

theorem covers_updateAnyExt (p : PyImsicFile) : p.updateAnyExt.Covers := by
  intro h
  exact any_ne_zero_iff.mpr h

theorem PyImsicFile.Covers.readScan (k : Nat) (h : p.Covers) : (p.readScan k).2.Covers := by
  induction k generalizing p with
  | zero => exact h
  | succ i ih =>
    rw [PyImsicFile.readScan]
    by_cases h0 : p.pendingEnabled i = 0
    · rw [if_pos h0]
      exact ih h
    · rw [if_neg h0]
      have hdrop : (p.dropBit i (highestBit (p.pendingEnabled i))).Covers := covers_updateAnyExt _
      by_cases ht : p.eithreshold < p.candidate i % 256
      · rw [if_pos ht]
        exact hdrop
      · rw [if_neg ht]
        exact ih hdrop

theorem PyImsicFile.Covers.access (h : p.Covers) (a : ImsicAccess) : (p.access a).Covers := by
  cases a with
  | csrWrite select v =>
    simp only [PyImsicFile.access, PyImsicFile.csrWrite, PyImsicFile.writeNumberedBit]
    split_ifs
    all_goals first | exact covers_updateAnyExt _ | exact h
  | seteipnum n =>
    simp only [PyImsicFile.access, PyImsicFile.setPending]
    split_ifs
    · exact fun _ => rfl
    · exact h
  | clreipnum n =>
    simp only [PyImsicFile.access, PyImsicFile.clearPending]
    split_ifs
    · exact covers_updateAnyExt _
    · exact h
  | claim =>
    simp only [PyImsicFile.access, PyImsicFile.readTopei]
    split_ifs
    · exact covers_updateAnyExt _
    · exact h
    · exact h.readScan eipWords

theorem PyImsicFile.Covers.run (h : p.Covers) (l : List ImsicAccess) : (l.foldl PyImsicFile.access p).Covers := by
  induction l generalizing p with
  | nil => exact h
  | cons a l ih => exact ih (h.access a)

end Covers

/-! ## What the scans select -/

section Scan

variable {p : PyImsicFile} {f : ImsicFile} {v : Word} {i k : Nat}

theorem getLsbD_highestBit {v : BitVec 32} (h : v ≠ 0) : v.getLsbD (highestBit v) = true := by
  have hv : v.toNat ≠ 0 := fun h0 => h (BitVec.eq_of_toNat_eq h0)
  exact Nat.testBit_log2 hv

theorem eip_candidate (h : p.pendingEnabled i ≠ 0) :
    (p.eip i).getLsbD (highestBit (p.pendingEnabled i)) = true := by
  have hbit := getLsbD_highestBit h
  generalize highestBit (p.pendingEnabled i) = b at hbit ⊢
  rw [PyImsicFile.pendingEnabled] at hbit
  by_cases h0 : i = 0
  · subst h0
    rw [if_pos rfl] at hbit
    simp only [BitVec.getLsbD_or, BitVec.getLsbD_and, Bool.or_eq_true, Bool.and_eq_true] at hbit
    rcases hbit with h | h
    · exact h.1
    · exact h.1.1
  · rw [if_neg h0, BitVec.getLsbD_and, Bool.and_eq_true] at hbit
    exact hbit.1

theorem candidate_lt (h : p.pendingEnabled i ≠ 0) : p.candidate i < (i + 1) * 32 := by
  have := highestBit_lt h
  rw [PyImsicFile.candidate]
  omega

/-- The scan of the words below `k` depends on these words only. -/
theorem peekScan_congr {q : PyImsicFile} (heip : ∀ i < k, q.eip i = p.eip i) (heie : q.eie = p.eie)
    (ht : q.eithreshold = p.eithreshold) : q.peekScan k = p.peekScan k := by
  induction k with
  | zero => rfl
  | succ i ih =>
    have hpend : q.pendingEnabled i = p.pendingEnabled i := by
      rw [PyImsicFile.pendingEnabled, PyImsicFile.pendingEnabled, heie, heip i (Nat.lt_succ_self i)]
      by_cases h0 : i = 0
      · subst h0
        rw [if_pos rfl, if_pos rfl, heip 0 (Nat.lt_succ_self 0)]
      · rw [if_neg h0, if_neg h0]
    rw [PyImsicFile.peekScan, PyImsicFile.peekScan, PyImsicFile.candidate, PyImsicFile.candidate, hpend, ht,
      ih fun j hj => heip j (Nat.lt_succ_of_lt hj)]

theorem dropBit_eip_of_ne {bit j : Nat} (h : j ≠ i) : (p.dropBit i bit).eip j = p.eip j :=
  Function.update_of_ne h _ _

/-- Claiming on the way does not change what the scan returns. -/
theorem readScan_value (p : PyImsicFile) (k : Nat) : (p.readScan k).1 = p.peekScan k := by
  induction k generalizing p with
  | zero => rfl
  | succ i ih =>
    rw [PyImsicFile.readScan, PyImsicFile.peekScan]
    by_cases h0 : p.pendingEnabled i = 0
    · rw [if_pos h0, if_pos h0, ih]
    · rw [if_neg h0, if_neg h0]
      by_cases ht : p.eithreshold < p.candidate i % 256
      · rw [if_pos ht, if_pos ht]
      · rw [if_neg ht, if_neg ht, ih]
        exact peekScan_congr (fun j hj => dropBit_eip_of_ne (Nat.ne_of_lt hj)) rfl rfl

theorem readTopei_value (p : PyImsicFile) : p.readTopei.1 = p.peekTopei := by
  simp only [PyImsicFile.readTopei, PyImsicFile.peekTopei]
  split_ifs
  · rfl
  · rfl
  · exact readScan_value p eipWords

/-- The scan changes nothing but pending words below `k`. -/
theorem readScan_frame (p : PyImsicFile) (k : Nat) :
    (∀ j, k ≤ j → (p.readScan k).2.eip j = p.eip j) ∧ (p.readScan k).2.eie = p.eie ∧
      (p.readScan k).2.eidelivery = p.eidelivery ∧ (p.readScan k).2.eithreshold = p.eithreshold := by
  induction k generalizing p with
  | zero => exact ⟨fun _ _ => rfl, rfl, rfl, rfl⟩
  | succ i ih =>
    rw [PyImsicFile.readScan]
    by_cases h0 : p.pendingEnabled i = 0
    · rw [if_pos h0]
      obtain ⟨h, hrest⟩ := ih p
      exact ⟨fun j hj => h j (Nat.le_of_succ_le hj), hrest⟩
    · rw [if_neg h0]
      have hdrop : ∀ j, i + 1 ≤ j → (p.dropBit i (highestBit (p.pendingEnabled i))).eip j = p.eip j :=
        fun j hj => dropBit_eip_of_ne (Nat.ne_of_gt hj)
      by_cases ht : p.eithreshold < p.candidate i % 256
      · rw [if_pos ht]
        exact ⟨hdrop, rfl, rfl, rfl⟩
      · rw [if_neg ht]
        obtain ⟨h, heie, hdel, hthr⟩ := ih (p.dropBit i (highestBit (p.pendingEnabled i)))
        exact ⟨fun j hj => (h j (Nat.le_of_succ_le hj)).trans (hdrop j hj), heie, hdel, hthr⟩

theorem readTopei_frame (p : PyImsicFile) :
    p.readTopei.2.eie = p.eie ∧ p.readTopei.2.eidelivery = p.eidelivery ∧
      p.readTopei.2.eithreshold = p.eithreshold := by
  simp only [PyImsicFile.readTopei]
  split_ifs
  · exact ⟨rfl, rfl, rfl⟩
  · exact ⟨rfl, rfl, rfl⟩
  · exact (readScan_frame p eipWords).2

/-- What the scan returns is zero or an identity of the words it looked at. -/
theorem peekScan_cases (p : PyImsicFile) (k : Nat) :
    p.peekScan k = 0 ∨ ∃ iid, 0 < iid ∧ iid < k * 32 ∧ p.peekScan k = topeiValue iid := by
  induction k with
  | zero => exact .inl rfl
  | succ i ih =>
    have hbelow : p.peekScan i = 0 ∨ ∃ iid, 0 < iid ∧ iid < (i + 1) * 32 ∧ p.peekScan i = topeiValue iid := by
      rcases ih with h | ⟨iid, h0, hlt, h⟩
      · exact .inl h
      · exact .inr ⟨iid, h0, by omega, h⟩
    rw [PyImsicFile.peekScan]
    by_cases h0 : p.pendingEnabled i = 0
    · rw [if_pos h0]
      exact hbelow
    · rw [if_neg h0]
      by_cases ht : p.eithreshold < p.candidate i % 256
      · rw [if_pos ht]
        refine .inr ⟨p.candidate i, ?_, candidate_lt h0, rfl⟩
        have : p.candidate i % 256 ≤ p.candidate i := Nat.mod_le _ _
        omega
      · rw [if_neg ht]
        exact hbelow

theorem topeiValue_identity {iid : Nat} (h : iid < 2048) : (topeiValue iid >>> 16).toNat = iid := by
  have hor : (topeiValue iid).toNat = 2 ^ 16 * iid + iid % 256 := by
    have hlow : iid % 256 < 2 ^ 16 := by omega
    rw [topeiValue, BitVec.toNat_or, BitVec.toNat_shiftLeft, BitVec.toNat_ofNat, BitVec.toNat_ofNat,
      Nat.shiftLeft_eq, Nat.mod_eq_of_lt (by omega : iid < 2 ^ 64),
      Nat.mod_eq_of_lt (by omega : iid * 2 ^ 16 < 2 ^ 64), Nat.mod_eq_of_lt (by omega : iid % 256 < 2 ^ 64),
      Nat.mul_comm, Nat.two_pow_add_eq_or_of_lt hlow]
  rw [BitVec.toNat_ushiftRight, Nat.shiftRight_eq_div_pow, hor]
  omega

end Scan

/-! ## What a claim clears -/

/-- The identity in a value of `topei`. -/
def reportedIdentity (topei : Word) : BitVec 32 := (topei >>> 16).setWidth 32

/-- `read_topei` clears the pending bit of the identity it returns and changes nothing else. -/
def PyImsicFile.ClearsReturned (p : PyImsicFile) : Prop :=
  (∀ m < maxIid, eipBit p.readTopei.2.eip m =
    (eipBit p.eip m && !decide (p.readTopei.1 ≠ 0 ∧ m = reportedIdentity p.readTopei.1))) ∧
  p.readTopei.2.eie = p.eie ∧ p.readTopei.2.eidelivery = p.eidelivery ∧
  p.readTopei.2.eithreshold = p.eithreshold

/-- No word above the one that delivers offers an identity the threshold masks. -/
def PyImsicFile.NoMaskedBelow (p : PyImsicFile) (k : Nat) : Prop :=
  ∀ i < k, p.pendingEnabled i ≠ 0 → (∀ j, i < j → j < k → p.pendingEnabled j = 0) →
    p.eithreshold < p.candidate i % 256

/-- A software interrupt is pending, nothing is delivered, or the highest pending and enabled
identity is above the threshold. -/
def PyImsicFile.TopUnmasked (p : PyImsicFile) : Prop :=
  p.eip 0 &&& swMask ≠ 0 ∨ p.eidelivery = 0 ∨ p.NoMaskedBelow eipWords

section Claim

variable {p : PyImsicFile} {f : ImsicFile} {i k iid : Nat}

theorem eipWordOf_ofNat (h : iid < 2048) : eipWordOf (BitVec.ofNat 32 iid) = iid / 32 := by
  rw [eipWordOf_eq, BitVec.toNat_ofNat, Nat.mod_eq_of_lt (by omega)]

theorem toNat_ofNat_and_31 (h : iid < 2048) : (BitVec.ofNat 32 iid &&& 31).toNat = iid % 32 := by
  rw [toNat_and_31, BitVec.toNat_ofNat, Nat.mod_eq_of_lt (by omega : iid < 2 ^ 32)]

theorem reportedIdentity_topeiValue (h : iid < 2048) : reportedIdentity (topeiValue iid) = BitVec.ofNat 32 iid := by
  apply BitVec.eq_of_toNat_eq
  rw [reportedIdentity, BitVec.toNat_setWidth, topeiValue_identity h, BitVec.toNat_ofNat]

theorem eipBit_dropBit {b : Nat} (hi : i < eipWords) (hb : b < 32) (m : BitVec 32) :
    eipBit (p.dropBit i b).eip m = (eipBit p.eip m && !decide (m = BitVec.ofNat 32 (i * 32 + b))) := by
  have hlt : i * 32 + b < 2048 := by
    have : eipWords = 64 := rfl
    omega
  have hw : eipWordOf (BitVec.ofNat 32 (i * 32 + b)) = i := by
    rw [eipWordOf_ofNat hlt]
    omega
  have hbit : eipBitAt (BitVec.ofNat 32 (i * 32 + b)) = 1#32 <<< b := by
    rw [eipBitAt, BitVec.shiftLeft_eq', toNat_ofNat_and_31 hlt]
    congr 1
    omega
  rw [← eipBit_clear, hw, hbit]
  rfl

/-- The scan clears the returned identity only, exactly when the first candidate passes. -/
theorem readScan_clears_iff (hk : k ≤ eipWords) :
    (∀ m < maxIid, eipBit (p.readScan k).2.eip m =
        (eipBit p.eip m && !decide ((p.readScan k).1 ≠ 0 ∧ m = reportedIdentity (p.readScan k).1))) ↔
      p.NoMaskedBelow k := by
  have hwords : eipWords = 64 := rfl
  induction k with
  | zero =>
    apply iff_of_true
    · intro m _
      simp [PyImsicFile.readScan]
    · intro i hi
      omega
  | succ i ih =>
    have ih := ih (by omega)
    by_cases h0 : p.pendingEnabled i = 0
    · rw [PyImsicFile.readScan, if_pos h0]
      apply ih.trans
      constructor
      · intro h j hj hpend hup
        have hne : j ≠ i := fun hji => hpend (hji ▸ h0)
        exact h j (by omega) hpend fun l hl hlt => hup l hl (by omega)
      · intro h j hj hpend hup
        apply h j (by omega) hpend
        intro l hl hlt
        by_cases hli : l = i
        · rw [hli]
          exact h0
        · exact hup l hl (by omega)
    · have hb := highestBit_lt h0
      have hcand : p.candidate i < 2048 := by
        have := candidate_lt h0
        omega
      by_cases ht : p.eithreshold < p.candidate i % 256
      · rw [PyImsicFile.readScan, if_neg h0, if_pos ht]
        apply iff_of_true
        · intro m _
          have hne : topeiValue (p.candidate i) ≠ 0 := by
            apply topeiValue_ne_zero _ hcand
            intro hz
            rw [hz] at ht
            omega
          rw [eipBit_dropBit (by omega) hb, reportedIdentity_topeiValue hcand,
            decide_eq_decide.mpr (and_iff_right hne)]
          rfl
        · intro j hj hpend hup
          by_cases hji : j = i
          · rw [hji]
            exact ht
          · exact absurd (hup i (by omega) (by omega)) h0
      · -- the candidate loses its bit and is not what the scan returns
        apply iff_of_false
        · intro h
          have hm := h (BitVec.ofNat 32 (p.candidate i)) (by
            rw [BitVec.lt_def, BitVec.toNat_ofNat, Nat.mod_eq_of_lt (by omega)]
            exact hcand)
          have hbit : eipBit p.eip (BitVec.ofNat 32 (p.candidate i)) = true := by
            rw [eipBit, eipWordOf_ofNat hcand, toNat_ofNat_and_31 hcand, PyImsicFile.candidate,
              show (i * 32 + highestBit (p.pendingEnabled i)) / 32 = i by omega,
              show (i * 32 + highestBit (p.pendingEnabled i)) % 32 = highestBit (p.pendingEnabled i) by omega]
            exact eip_candidate h0
          have hgone : eipBit (p.readScan (i + 1)).2.eip (BitVec.ofNat 32 (p.candidate i)) = false := by
            have hword : eipWordOf (BitVec.ofNat 32 (p.candidate i)) = i := by
              rw [eipWordOf_ofNat hcand, PyImsicFile.candidate]
              omega
            have hdrop : eipBit (p.dropBit i (highestBit (p.pendingEnabled i))).eip
                (BitVec.ofNat 32 (p.candidate i)) = false := by
              rw [eipBit_dropBit (by omega) hb]
              simp [PyImsicFile.candidate]
            rw [eipBit, hword] at hdrop
            rw [PyImsicFile.readScan, if_neg h0, if_neg ht, eipBit, hword,
              (readScan_frame _ i).1 i (le_refl i)]
            exact hdrop
          have hother : ¬ ((p.readScan (i + 1)).1 ≠ 0 ∧
              BitVec.ofNat 32 (p.candidate i) = reportedIdentity (p.readScan (i + 1)).1) := by
            rintro ⟨hne, heq⟩
            rw [readScan_value, PyImsicFile.peekScan, if_neg h0, if_neg ht] at hne heq
            rcases peekScan_cases p i with hz | ⟨iid, _, hlt, hv⟩
            · exact hne hz
            · rw [hv, reportedIdentity_topeiValue (by omega)] at heq
              have hnat := congrArg BitVec.toNat heq
              rw [BitVec.toNat_ofNat, BitVec.toNat_ofNat, Nat.mod_eq_of_lt (by omega),
                Nat.mod_eq_of_lt (by omega), PyImsicFile.candidate] at hnat
              omega
          rw [hgone, hbit, decide_eq_false hother] at hm
          cases hm
        · intro h
          exact ht (h i (Nat.lt_succ_self i) h0 fun j hj hlt => by omega)

/-- A set software interrupt is number 1 or 3. -/
theorem swMask_bits : ∀ b < 32, swMask.getLsbD b = true → b = 1 ∨ b = 3 := by
  decide

theorem highestBit_sw {v : BitVec 32} (h : v &&& swMask ≠ 0) :
    (highestBit (v &&& swMask) = 1 ∨ highestBit (v &&& swMask) = 3) ∧
      v.getLsbD (highestBit (v &&& swMask)) = true := by
  have hbit := getLsbD_highestBit h
  have hlt := highestBit_lt h
  generalize highestBit (v &&& swMask) = b at hbit hlt ⊢
  rw [BitVec.getLsbD_and, Bool.and_eq_true] at hbit
  exact ⟨swMask_bits b hlt hbit.2, hbit.1⟩

theorem readTopei_clears_iff (hc : p.Covers) : p.ClearsReturned ↔ p.TopUnmasked := by
  have hframe := readTopei_frame p
  rw [PyImsicFile.ClearsReturned, and_iff_left hframe, PyImsicFile.TopUnmasked]
  by_cases hipi : p.eip 0 &&& swMask ≠ 0
  · apply iff_of_true _ (.inl hipi)
    intro m _
    obtain ⟨hb, -⟩ := highestBit_sw hipi
    have hread : p.readTopei = (topeiValue (highestBit (p.eip 0 &&& swMask)),
        p.dropBit 0 (highestBit (p.eip 0 &&& swMask))) := if_pos hipi
    have hne : topeiValue (highestBit (p.eip 0 &&& swMask)) ≠ 0 :=
      topeiValue_ne_zero (by omega) (by omega)
    rw [hread, reportedIdentity_topeiValue (by omega), eipBit_dropBit (by decide) (by omega),
      decide_eq_decide.mpr (and_iff_right hne), Nat.zero_mul, Nat.zero_add]
  · by_cases hoff : p.eidelivery = 0
    · apply iff_of_true _ (.inr (.inl hoff))
      intro m _
      have hread : p.readTopei = (0, p) := (if_neg hipi).trans (if_pos (.inl hoff))
      simp [hread]
    · rw [or_iff_right hipi, or_iff_right hoff]
      by_cases hany : p.anyExt = false
      · apply iff_of_true
        · intro m _
          have hread : p.readTopei = (0, p) := (if_neg hipi).trans (if_pos (.inr hany))
          simp [hread]
        · intro i hi hpend
          have hbit := eip_candidate hpend
          have hz : p.eip i = 0 := by
            by_contra hne
            rw [hc ⟨i, hi, hne⟩] at hany
            cases hany
          rw [hz] at hbit
          simp at hbit
      · have hread : p.readTopei = p.readScan eipWords :=
          (if_neg hipi).trans (if_neg (not_or.mpr ⟨hoff, hany⟩))
        rw [hread]
        exact readScan_clears_iff (le_refl _)

end Claim

/-! ## Reads of equal files -/

section Same

variable {p : PyImsicFile} {f : ImsicFile} {i k : Nat}

theorem SameContents.pendingEnabled (h : SameContents p f) (hipi : ¬ p.eip 0 &&& swMask ≠ 0) (hi : i < eipWords) :
    p.pendingEnabled i = extPending f i := by
  rw [PyImsicFile.pendingEnabled, extPending]
  by_cases h0 : i = 0
  · subst h0
    have hz : p.eip 0 &&& swMask = 0#32 := not_not.mp hipi
    rw [if_pos rfl, if_pos rfl, hz, BitVec.zero_or, h.eip 0 hi, h.eie 0 hi]
    rfl
  · rw [if_neg h0, if_neg h0, h.eip i hi, h.eie i hi]

theorem SameContents.peekScan (h : SameContents p f) (hipi : ¬ p.eip 0 &&& swMask ≠ 0) (hk : k ≤ eipWords) :
    p.peekScan k = ((List.range k).reverse.findSome? (topeiWord f)).getD 0 := by
  have hwords : eipWords = 64 := rfl
  induction k with
  | zero => rfl
  | succ i ih =>
    have ih := ih (by omega)
    have hpend := h.pendingEnabled hipi (by omega : i < eipWords)
    have heq : topeiWord f i = if extPending f i = 0 then none
        else if i * 32 + highestBit (extPending f i) = 0 ∨ 2048 ≤ i * 32 + highestBit (extPending f i) then none
        else if f.eithreshold.toNat < (i * 32 + highestBit (extPending f i)) % 256 then
          some (topeiValue (i * 32 + highestBit (extPending f i)))
        else none := rfl
    rw [PyImsicFile.peekScan, List.range_succ, List.reverse_append, List.reverse_singleton, List.singleton_append,
      List.findSome?_cons, heq, PyImsicFile.candidate, hpend, h.eithreshold]
    by_cases h0 : extPending f i = 0
    · rw [if_pos h0, if_pos h0]
      exact ih
    · have hb := highestBit_lt h0
      rw [if_neg h0, if_neg h0]
      generalize highestBit (extPending f i) = b at hb ⊢
      by_cases ht : f.eithreshold.toNat < (i * 32 + b) % 256
      · rw [if_pos ht, if_neg (by omega), if_pos ht]
        rfl
      · rw [if_neg ht, if_neg ht, ite_self]
        exact ih

theorem peekScan_eq_zero (h : ∀ i < k, p.pendingEnabled i = 0) : p.peekScan k = 0 := by
  induction k with
  | zero => rfl
  | succ i ih =>
    rw [PyImsicFile.peekScan, if_pos (h i (Nat.lt_succ_self i))]
    exact ih fun j hj => h j (Nat.lt_succ_of_lt hj)

theorem extPending_eq_zero (hext : hasExtInterrupt f.eip = false) (hi : i < eipWords) : extPending f i = 0 := by
  rw [hasExtInterrupt, Bool.or_eq_false_iff] at hext
  obtain ⟨hlow, hrest⟩ := hext
  rw [extPending]
  by_cases h0 : i = 0
  · subst h0
    have hlow : f.eip 0 &&& ~~~(1#32 <<< 3 ||| 1#32 <<< 1) = 0#32 := by simpa using hlow
    rw [if_pos rfl, BitVec.and_assoc, BitVec.and_comm (f.eie 0), ← BitVec.and_assoc, hlow, BitVec.zero_and]
    rfl
  · rw [if_neg h0]
    have hz : f.eip i = 0#32 := by
      by_contra hne
      rw [List.any_eq_false] at hrest
      exact hrest i (List.mem_range.mpr hi) (decide_eq_true ⟨h0, hne⟩)
    rw [hz, BitVec.zero_and]
    rfl

theorem SameContents.peek (h : SameContents p f) (hc : p.Covers) : p.peekTopei = imsicTopeiPeek f := by
  have heq : imsicTopeiPeek f = if f.eip 0 &&& swMask ≠ 0 then topeiValue (highestBit (f.eip 0 &&& swMask))
      else if f.eidelivery = 0 ∨ f.eipExtAny = false then 0
      else ((List.range eipWords).reverse.findSome? (topeiWord f)).getD 0 := rfl
  have hpy : p.peekTopei = if p.eip 0 &&& swMask ≠ 0 then topeiValue (highestBit (p.eip 0 &&& swMask))
      else if p.eidelivery = 0 ∨ p.anyExt = false then 0 else p.peekScan eipWords := rfl
  have hword := h.eip 0 (by decide)
  rw [heq, hpy, ← hword]
  by_cases hipi : p.eip 0 &&& swMask ≠ 0
  · rw [if_pos hipi, if_pos hipi]
  · rw [if_neg hipi, if_neg hipi]
    have hdel : p.eidelivery = 0 ↔ f.eidelivery = 0 := by
      rw [h.eidelivery]
      exact ⟨fun hz => BitVec.eq_of_toNat_eq hz, fun hz => by rw [hz]; rfl⟩
    have hscan := h.peekScan hipi (le_refl eipWords)
    by_cases hoff : f.eidelivery = 0
    · rw [if_pos (.inl (hdel.mpr hoff)), if_pos (.inl hoff)]
    · -- either summary may be false; then the other side finds nothing
      have hpysum : p.anyExt = false → p.peekScan eipWords = 0 := by
        intro hany
        apply peekScan_eq_zero
        intro i hi
        by_contra hpend
        have hbit := eip_candidate hpend
        have hz : p.eip i = 0 := by
          by_contra hne
          rw [hc ⟨i, hi, hne⟩] at hany
          cases hany
        rw [hz] at hbit
        simp at hbit
      have hsum : f.eipExtAny = false → p.peekScan eipWords = 0 := by
        intro hany
        apply peekScan_eq_zero
        intro i hi
        have hext : hasExtInterrupt f.eip = false := by
          by_contra hne
          rw [h.summary (by simpa using hne)] at hany
          cases hany
        rw [h.pendingEnabled hipi hi, extPending_eq_zero hext hi]
      rw [← hscan]
      by_cases hany : p.anyExt = false
      · rw [if_pos (.inr hany)]
        by_cases hany' : f.eipExtAny = false
        · rw [if_pos (.inr hany')]
        · rw [if_neg (not_or.mpr ⟨hoff, hany'⟩), hpysum hany]
      · rw [if_neg (not_or.mpr ⟨fun hz => hoff (hdel.mp hz), hany⟩)]
        by_cases hany' : f.eipExtAny = false
        · rw [if_pos (.inr hany'), hsum hany']
        · rw [if_neg (not_or.mpr ⟨hoff, hany'⟩)]

theorem readPair_congr {a b : Nat → BitVec 32} {idx : Nat} (h : ∀ i < eipWords, a i = b i) (hi : idx < eipWords) :
    readPair a idx = readPair b idx := by
  rw [readPair, readPair, h idx hi]
  by_cases hnext : idx + 1 < eipWords
  · rw [if_pos hnext, if_pos hnext, h _ hnext]
  · rw [if_neg hnext, if_neg hnext]

theorem eip_index_lt {select : BitVec 32} (h : 0x80 ≤ select ∧ select ≤ 0xBF) : (select - 0x80).toNat < eipWords := by
  have : eipWords = 64 := rfl
  bv_omega

theorem eie_index_lt {select : BitVec 32} (h : 0xC0 ≤ select ∧ select ≤ 0xFF) : (select - 0xC0).toNat < eipWords := by
  have : eipWords = 64 := rfl
  bv_omega

theorem SameContents.csrRead (h : SameContents p f) (select : BitVec 32) :
    p.csrRead select = imsicRegRead f select := by
  rw [PyImsicFile.csrRead, imsicRegRead]
  split_ifs with h1 h2 h3 h4
  · rw [h.eidelivery, BitVec.ofNat_toNat]
  · rw [h.eithreshold, BitVec.ofNat_toNat]
  · exact readPair_congr h.eip (eip_index_lt h3)
  · exact readPair_congr h.eie (eie_index_lt h4)
  · rfl

end Same

/-! ## Writes of equal files -/

/-- What a write of an indirect register must meet to be the same on both sides: the threshold fits
eight bits, and a numbered write names an identity or finds the bit it would alias as it leaves it. -/
def PyImsicFile.WriteAgrees (p : PyImsicFile) (select : BitVec 32) (v : Word) : Prop :=
  (select = 0x72 → v.toNat % 1024 < 256) ∧
  (0x58 ≤ select → select ≤ 0x5B → v.toNat % 2 ^ 32 < 2048 ∨
    eipBit (if select ≤ 0x59 then p.eip else p.eie) (BitVec.ofNat 32 (v.toNat % 2048)) =
      decide (select = 0x58 ∨ select = 0x5A))

section Writes

variable {p p' : PyImsicFile} {f f' : ImsicFile} {a b : Nat → BitVec 32} {i : Nat} {m : BitVec 32}

theorem eipBit_numWrite (a : Nat → BitVec 32) (m : BitVec 32) (set : Bool) : eipBit (numWrite a m set) m = set := by
  cases set with
  | true =>
    have h := eipBit_set a m m
    simpa [numWrite] using h
  | false =>
    have h := eipBit_clear a m m
    simpa [numWrite] using h

theorem eipBit_numWrite_of_ne {n : BitVec 32} (set : Bool) (h : n ≠ m) :
    eipBit (numWrite a m set) n = eipBit a n := by
  cases set with
  | true =>
    have hset := eipBit_set a n m
    simpa [numWrite, h] using hset
  | false =>
    have hclear := eipBit_clear a n m
    simpa [numWrite, h] using hclear

/-- Words agree when the bits of all identities do. -/
theorem words_eq_iff : (∀ i < eipWords, a i = b i) ↔ ∀ m < maxIid, eipBit a m = eipBit b m := by
  have hwords : eipWords = 64 := rfl
  constructor
  · intro h m hm
    rw [eipBit, eipBit, h _ (Boundary.eipWordOf_lt hm)]
  · intro h i hi
    apply BitVec.eq_of_getLsbD_eq
    intro j hj
    have hlt : i * 32 + j < 2048 := by omega
    have hm := h (BitVec.ofNat 32 (i * 32 + j)) (by
      rw [BitVec.lt_def, BitVec.toNat_ofNat, Nat.mod_eq_of_lt (by omega)]
      exact hlt)
    rw [eipBit, eipBit, eipWordOf_ofNat hlt, toNat_ofNat_and_31 hlt, show (i * 32 + j) / 32 = i by omega,
      show (i * 32 + j) % 32 = j by omega] at hm
    exact hm

theorem numWrite_congr (h : ∀ i < eipWords, a i = b i) (m : BitVec 32) (set : Bool) :
    ∀ i < eipWords, numWrite a m set i = numWrite b m set i := by
  rw [words_eq_iff] at h ⊢
  intro n hn
  by_cases hnm : n = m
  · rw [hnm, eipBit_numWrite, eipBit_numWrite]
  · rw [eipBit_numWrite_of_ne set hnm, eipBit_numWrite_of_ne set hnm, h n hn]

/-- A numbered write that is lost on the other side. -/
theorem numWrite_lost_iff (h : ∀ i < eipWords, a i = b i) (hm : m < maxIid) (set : Bool) :
    (∀ i < eipWords, numWrite a m set i = b i) ↔ eipBit a m = set := by
  rw [words_eq_iff] at h ⊢
  constructor
  · intro hall
    have heq := hall m hm
    rw [eipBit_numWrite] at heq
    rw [h m hm, heq]
  · intro hset n hn
    by_cases hnm : n = m
    · rw [hnm, eipBit_numWrite, ← h m hm, hset]
    · rw [eipBit_numWrite_of_ne set hnm, h n hn]

theorem writePair_congr {idx : Nat} (h : ∀ i < eipWords, a i = b i) (v : Word) :
    ∀ i < eipWords, writePair a idx v i = writePair b idx v i := by
  intro i hi
  have hlow : Function.update a idx (v.setWidth 32) i = Function.update b idx (v.setWidth 32) i := by
    by_cases hidx : i = idx
    · rw [hidx, Function.update_self, Function.update_self]
    · rw [Function.update_of_ne hidx, Function.update_of_ne hidx, h i hi]
  rw [writePair, writePair]
  by_cases hnext : idx + 1 < eipWords
  · rw [if_pos hnext, if_pos hnext]
    by_cases hidx : i = idx + 1
    · rw [hidx, Function.update_self, Function.update_self]
    · rw [Function.update_of_ne hidx, Function.update_of_ne hidx, hlow]
  · rw [if_neg hnext, if_neg hnext, hlow]

theorem hasExt_nonzero (h : hasExtInterrupt a = true) : ∃ i < eipWords, a i ≠ 0 := by
  rw [hasExtInterrupt, Bool.or_eq_true] at h
  rcases h with h | h
  · refine ⟨0, by decide, fun h0 => ?_⟩
    rw [h0] at h
    exact absurd h (by decide)
  · obtain ⟨i, hi, hne⟩ := List.any_eq_true.mp h
    exact ⟨i, List.mem_range.mp hi, (of_decide_eq_true hne).2⟩

theorem summary_updated (f : ImsicFile) :
    hasExtInterrupt (imsicUpdateEipExtAny f).eip = true → (imsicUpdateEipExtAny f).eipExtAny = true := by
  intro h
  exact any_ne_zero_iff.mpr (hasExt_nonzero h)

/-- After an access that keeps the other registers, the pending words decide. -/
theorem SameContents.eip_iff (h : SameContents p f)
    (hp : p'.eie = p.eie ∧ p'.eidelivery = p.eidelivery ∧ p'.eithreshold = p.eithreshold)
    (hf : f'.eie = f.eie ∧ f'.eidelivery = f.eidelivery ∧ f'.eithreshold = f.eithreshold)
    (hs : hasExtInterrupt f'.eip = true → f'.eipExtAny = true) :
    SameContents p' f' ↔ ∀ i < eipWords, p'.eip i = f'.eip i := by
  constructor
  · exact fun h' => h'.eip
  · intro heip
    refine ⟨heip, ?_, ?_, ?_, hs⟩
    · intro i hi
      rw [hp.1, hf.1, h.eie i hi]
    · rw [hp.2.1, hf.2.1, h.eidelivery]
    · rw [hp.2.2, hf.2.2, h.eithreshold]

theorem SameContents.eie_iff (h : SameContents p f) :
    SameContents { p with eie := a } { f with eie := b } ↔ ∀ i < eipWords, a i = b i :=
  ⟨fun h' => h'.eie, fun heie => ⟨h.eip, heie, h.eidelivery, h.eithreshold, h.summary⟩⟩

theorem toNat_low11 (v : Word) : ((v &&& 0x7FF).setWidth 32 : BitVec 32).toNat = v.toNat % 2048 := by
  have hand : (v &&& 0x7FF).toNat = v.toNat % 2048 := by
    rw [BitVec.toNat_and]
    exact Nat.and_two_pow_sub_one_eq_mod v.toNat 11
  rw [BitVec.toNat_setWidth, hand]
  omega

/-- The identity of a numbered write of the Python file. -/
theorem low11_eq (v : Word) : ((v &&& 0x7FF).setWidth 32 : BitVec 32) = BitVec.ofNat 32 (v.toNat % 2048) := by
  apply BitVec.eq_of_toNat_eq
  rw [toNat_low11, BitVec.toNat_ofNat]
  omega

theorem low11_lt (v : Word) : BitVec.ofNat 32 (v.toNat % 2048) < maxIid := by
  rw [BitVec.lt_def, BitVec.toNat_ofNat, Nat.mod_eq_of_lt (by omega)]
  exact Nat.mod_lt _ (by omega)

theorem num_lt_iff (v : Word) : (v.setWidth 32 : BitVec 32) < maxIid ↔ v.toNat % 2 ^ 32 < 2048 := by
  rw [BitVec.lt_def, BitVec.toNat_setWidth]
  rfl

theorem num_eq_low11 {v : Word} (h : v.toNat % 2 ^ 32 < 2048) :
    (v.setWidth 32 : BitVec 32) = BitVec.ofNat 32 (v.toNat % 2048) := by
  apply BitVec.eq_of_toNat_eq
  rw [BitVec.toNat_setWidth, BitVec.toNat_ofNat]
  omega

/-- A numbered write of the pending words. -/
theorem SameContents.numbered_eip (h : SameContents p f) (v : Word) (set : Bool) :
    SameContents (PyImsicFile.updateAnyExt { p with eip := numWrite p.eip (BitVec.ofNat 32 (v.toNat % 2048)) set })
        (if (v.setWidth 32 : BitVec 32) < maxIid then
          imsicUpdateEipExtAny { f with eip := numWrite f.eip (v.setWidth 32) set } else f) ↔
      v.toNat % 2 ^ 32 < 2048 ∨ eipBit p.eip (BitVec.ofNat 32 (v.toNat % 2048)) = set := by
  by_cases hv : v.toNat % 2 ^ 32 < 2048
  · rw [if_pos ((num_lt_iff v).mpr hv), num_eq_low11 hv]
    apply Iff.trans (h.eip_iff ?_ ?_ ?_)
    · exact iff_of_true (numWrite_congr h.eip _ set) (.inl hv)
    · exact ⟨rfl, rfl, rfl⟩
    · exact ⟨rfl, rfl, rfl⟩
    · exact summary_updated _
  · rw [if_neg fun hlt => hv ((num_lt_iff v).mp hlt), or_iff_right hv]
    apply Iff.trans (h.eip_iff ?_ ?_ ?_)
    · exact numWrite_lost_iff h.eip (low11_lt v) set
    · exact ⟨rfl, rfl, rfl⟩
    · exact ⟨rfl, rfl, rfl⟩
    · exact h.summary

theorem SameContents.numbered_eie (h : SameContents p f) (v : Word) (set : Bool) :
    SameContents { p with eie := numWrite p.eie (BitVec.ofNat 32 (v.toNat % 2048)) set }
        (if (v.setWidth 32 : BitVec 32) < maxIid then { f with eie := numWrite f.eie (v.setWidth 32) set } else f) ↔
      v.toNat % 2 ^ 32 < 2048 ∨ eipBit p.eie (BitVec.ofNat 32 (v.toNat % 2048)) = set := by
  by_cases hv : v.toNat % 2 ^ 32 < 2048
  · rw [if_pos ((num_lt_iff v).mpr hv), h.eie_iff, num_eq_low11 hv]
    exact iff_of_true (numWrite_congr h.eie _ set) (.inl hv)
  · have hkeep : SameContents { p with eie := numWrite p.eie (BitVec.ofNat 32 (v.toNat % 2048)) set } f ↔
        ∀ i < eipWords, numWrite p.eie (BitVec.ofNat 32 (v.toNat % 2048)) set i = f.eie i := h.eie_iff
    rw [if_neg fun hlt => hv ((num_lt_iff v).mp hlt), hkeep, or_iff_right hv]
    exact numWrite_lost_iff h.eie (low11_lt v) set

theorem PyImsicFile.writeNumberedBit_eq (p : PyImsicFile) (select : BitVec 32) (v : Word) :
    p.writeNumberedBit select v =
      if select = 0x58 then updateAnyExt { p with eip := numWrite p.eip (BitVec.ofNat 32 (v.toNat % 2048)) true }
      else if select = 0x59 then
        updateAnyExt { p with eip := numWrite p.eip (BitVec.ofNat 32 (v.toNat % 2048)) false }
      else if select = 0x5A then { p with eie := numWrite p.eie (BitVec.ofNat 32 (v.toNat % 2048)) true }
      else if select = 0x5B then { p with eie := numWrite p.eie (BitVec.ofNat 32 (v.toNat % 2048)) false }
      else p := by
  have hlt := low11_lt v
  rw [PyImsicFile.writeNumberedBit, low11_eq]
  have : ¬ maxIid ≤ BitVec.ofNat 32 (v.toNat % 2048) := by
    rw [BitVec.not_le]
    exact hlt
  rw [if_neg this]

theorem SameContents.csrWrite_iff (h : SameContents p f) (select : BitVec 32) (v : Word) :
    SameContents (p.csrWrite select v) (imsicRegWrite f select v) ↔ p.WriteAgrees select v := by
  rw [PyImsicFile.csrWrite, imsicRegWrite, PyImsicFile.WriteAgrees]
  by_cases h70 : select = 0x70
  · subst h70
    rw [if_pos rfl, if_pos rfl]
    apply iff_of_true
    · refine ⟨h.eip, h.eie, ?_, h.eithreshold, h.summary⟩
      have hlt : (v &&& 1).toNat < 2 := by
        rw [BitVec.toNat_and]
        exact Nat.lt_of_le_of_lt Nat.and_le_right (by decide)
      rw [BitVec.toNat_setWidth, Nat.mod_eq_of_lt (by omega)]
    · exact ⟨fun hc => absurd hc (by decide), fun _ hle => absurd hle (by decide)⟩
  rw [if_neg h70, if_neg h70]
  by_cases h72 : select = 0x72
  · subst h72
    rw [if_pos rfl, if_pos rfl]
    have hand : (v &&& 0x3FF).toNat = v.toNat % 1024 := by
      rw [BitVec.toNat_and]
      exact Nat.and_two_pow_sub_one_eq_mod v.toNat 10
    have hiff : (v &&& 0x3FF).toNat = ((v &&& 0x3FF).setWidth 8 : BitVec 8).toNat ↔ v.toNat % 1024 < 256 := by
      rw [BitVec.toNat_setWidth, hand]
      omega
    constructor
    · exact fun h' => ⟨fun _ => hiff.mp h'.eithreshold, fun _ hle => absurd hle (by decide)⟩
    · exact fun hw => ⟨h.eip, h.eie, h.eidelivery, hiff.mpr (hw.1 rfl), h.summary⟩
  rw [if_neg h72, if_neg h72, and_iff_right fun hc => absurd hc h72]
  by_cases heip : 0x80 ≤ select ∧ select ≤ 0xBF
  · rw [if_pos heip, if_pos heip]
    apply Iff.trans (h.eip_iff ?_ ?_ ?_)
    · apply iff_of_true
      · exact writePair_congr h.eip v
      · intro _ hle
        bv_omega
    · exact ⟨rfl, rfl, rfl⟩
    · exact ⟨rfl, rfl, rfl⟩
    · exact summary_updated _
  rw [if_neg heip, if_neg heip]
  by_cases heie : 0xC0 ≤ select ∧ select ≤ 0xFF
  · rw [if_pos heie, if_pos heie, h.eie_iff]
    apply iff_of_true
    · exact writePair_congr h.eie v
    · intro _ hle
      bv_omega
  rw [if_neg heie, if_neg heie, PyImsicFile.writeNumberedBit_eq]
  by_cases h58 : select = 0x58
  · subst h58
    rw [if_pos rfl, if_pos rfl, h.numbered_eip v true]
    exact ⟨fun hw _ _ => hw, fun hw => hw (by decide) (by decide)⟩
  rw [if_neg h58, if_neg h58]
  by_cases h59 : select = 0x59
  · subst h59
    rw [if_pos rfl, if_pos rfl, h.numbered_eip v false]
    exact ⟨fun hw _ _ => hw, fun hw => hw (by decide) (by decide)⟩
  rw [if_neg h59, if_neg h59]
  by_cases h5A : select = 0x5A
  · subst h5A
    rw [if_pos rfl, if_pos rfl, h.numbered_eie v true]
    exact ⟨fun hw _ _ => hw, fun hw => hw (by decide) (by decide)⟩
  rw [if_neg h5A, if_neg h5A]
  by_cases h5B : select = 0x5B
  · subst h5B
    rw [if_pos rfl, if_pos rfl, h.numbered_eie v false]
    exact ⟨fun hw _ _ => hw, fun hw => hw (by decide) (by decide)⟩
  rw [if_neg h5B, if_neg h5B]
  apply iff_of_true h
  intro hle hge
  bv_omega

end Writes

/-! ## Claims of equal files -/

section Claims

variable {p : PyImsicFile} {f : ImsicFile} {iid : BitVec 32} {mfile : Bool} {s : HartState}

/-- A claim keeps the registers. -/
theorem claim_registers (f : ImsicFile) (iid : BitVec 32) :
    ∃ eip any, imsicTopeiClaimIid f iid = { f with eip := eip, eipExtAny := any } := by
  rw [imsicTopeiClaimIid]
  split
  · exact ⟨_, _, rfl⟩
  · dsimp only
    split_ifs <;> exact ⟨_, _, rfl⟩

theorem topeiClaim_frame (h : hasExtInterrupt f.eip = true → f.eipExtAny = true) (iid : BitVec 32) :
    ((imsicTopeiClaimIid f iid).eie = f.eie ∧ (imsicTopeiClaimIid f iid).eidelivery = f.eidelivery ∧
        (imsicTopeiClaimIid f iid).eithreshold = f.eithreshold) ∧
      (hasExtInterrupt (imsicTopeiClaimIid f iid).eip = true → (imsicTopeiClaimIid f iid).eipExtAny = true) := by
  rw [imsicTopeiClaimIid]
  split
  · exact ⟨⟨rfl, rfl, rfl⟩, h⟩
  · dsimp only
    split_ifs
    · exact ⟨⟨rfl, rfl, rfl⟩, h⟩
    all_goals first
      | exact ⟨⟨rfl, rfl, rfl⟩, h⟩
      | exact ⟨⟨rfl, rfl, rfl⟩, summary_updated _⟩

theorem and_eipBitAt_ne_zero {v : BitVec 32} (h : v.getLsbD (iid &&& 31).toNat = true) : v &&& eipBitAt iid ≠ 0 := by
  intro hz
  have hbit := congrArg (fun w => w.getLsbD (iid &&& 31).toNat) hz
  simp only [BitVec.getLsbD_and, h, getLsbD_eipBitAt, decide_true, Bool.and_self] at hbit
  rw [show (0 : BitVec 32).getLsbD (iid &&& 31).toNat = false from BitVec.getLsbD_zero] at hbit
  cases hbit

/-- A claim of an identity that is pending, and enabled and delivered unless it is a software
interrupt, clears its bit. -/
theorem topeiClaim_eip (h0 : iid ≠ 0) (hlt : iid < maxIid) (hpend : eipBit f.eip iid = true)
    (hext : (iid = iidMIpi ∨ iid = iidSIpi) ∨ (f.eidelivery ≠ 0 ∧ eipBit f.eie iid = true)) :
    (imsicTopeiClaimIid f iid).eip =
      Function.update f.eip (eipWordOf iid) (f.eip (eipWordOf iid) &&& ~~~(eipBitAt iid)) := by
  have hword := Boundary.eipWordOf_lt hlt
  have hguard : ¬ (iid = 0 ∨ maxIid ≤ iid) := by
    rintro (h | h)
    · exact h0 h
    · exact absurd hlt (BitVec.not_lt.mpr h)
  rw [imsicTopeiClaimIid, if_neg hguard]
  dsimp only
  by_cases hsw : iid = iidMIpi ∨ iid = iidSIpi
  · rw [decide_eq_true hsw]
    have hbit := and_eipBitAt_ne_zero hpend
    simp only [Bool.not_true, Bool.false_and, Bool.false_eq_true, ↓reduceIte]
    rw [if_pos ⟨hword, hbit⟩]
    rfl
  · rw [decide_eq_false hsw]
    obtain ⟨hdel, hen⟩ := hext.resolve_left hsw
    have hbit : f.eip (eipWordOf iid) &&& f.eie (eipWordOf iid) &&& eipBitAt iid ≠ 0 := by
      apply and_eipBitAt_ne_zero
      rw [BitVec.getLsbD_and, Bool.and_eq_true]
      exact ⟨hpend, hen⟩
    have hoff : (f.eidelivery == 0) = false := beq_false_of_ne hdel
    simp only [hoff, Bool.not_false, Bool.and_false, Bool.false_eq_true, ↓reduceIte]
    rw [if_pos ⟨hword, hbit⟩]
    rfl

/-- What `imsic_topei_peek` reports is pending, and enabled and delivered unless software. -/
theorem peek_reports (h : imsicTopeiPeek f ≠ 0) :
    ∃ n, 0 < n ∧ n < 2048 ∧ imsicTopeiPeek f = topeiValue n ∧ eipBit f.eip (BitVec.ofNat 32 n) = true ∧
      ((n = 1 ∨ n = 3) ∨ (f.eidelivery ≠ 0 ∧ eipBit f.eie (BitVec.ofNat 32 n) = true)) := by
  have hwords : eipWords = 64 := rfl
  have heq : imsicTopeiPeek f = if f.eip 0 &&& swMask ≠ 0 then topeiValue (highestBit (f.eip 0 &&& swMask))
      else if f.eidelivery = 0 ∨ f.eipExtAny = false then 0
      else ((List.range eipWords).reverse.findSome? (topeiWord f)).getD 0 := rfl
  rw [heq] at h ⊢
  by_cases hipi : f.eip 0 &&& swMask ≠ 0
  · rw [if_pos hipi]
    obtain ⟨hb, hbit⟩ := highestBit_sw hipi
    refine ⟨highestBit (f.eip 0 &&& swMask), by omega, by omega, rfl, ?_, .inl hb⟩
    rw [eipBit, eipWordOf_ofNat (by omega), toNat_ofNat_and_31 (by omega), Nat.div_eq_of_lt (by omega),
      Nat.mod_eq_of_lt (by omega)]
    exact hbit
  · rw [if_neg hipi] at h ⊢
    by_cases hoff : f.eidelivery = 0 ∨ f.eipExtAny = false
    · rw [if_pos hoff] at h
      exact absurd rfl h
    · rw [if_neg hoff] at h ⊢
      cases hscan : (List.range eipWords).reverse.findSome? (topeiWord f) with
      | none =>
        rw [hscan] at h
        exact absurd rfl h
      | some v =>
        obtain ⟨i, hi, hv⟩ := List.exists_of_findSome?_eq_some hscan
        have hlt := List.mem_range.mp (List.mem_reverse.mp hi)
        obtain ⟨hp, h0, _, rfl⟩ := (topeiWord_eq_some_iff hlt).mp hv
        have hb := highestBit_lt hp
        have hbit := getLsbD_highestBit hp
        generalize highestBit (extPending f i) = b at hb hbit h0 ⊢
        have hboth : (f.eip i).getLsbD b = true ∧ (f.eie i).getLsbD b = true := by
          rw [extPending] at hbit
          by_cases hz : i = 0
          · subst hz
            rw [if_pos rfl, BitVec.getLsbD_and, BitVec.getLsbD_and, Bool.and_eq_true, Bool.and_eq_true] at hbit
            exact hbit.1
          · rw [if_neg hz, BitVec.getLsbD_and, Bool.and_eq_true] at hbit
            exact hbit
        refine ⟨i * 32 + b, by omega, by omega, rfl, ?_, .inr ⟨fun hd => hoff (.inl hd), ?_⟩⟩
        all_goals
          rw [eipBit, eipWordOf_ofNat (by omega), toNat_ofNat_and_31 (by omega),
            show (i * 32 + b) / 32 = i by omega, show (i * 32 + b) % 32 = b by omega]
        · exact hboth.1
        · exact hboth.2

theorem eipBit_engineClaim (h : imsicTopeiPeek f ≠ 0) (m : BitVec 32) :
    eipBit (imsicTopeiClaimIid f (reportedIdentity (imsicTopeiPeek f))).eip m =
      (eipBit f.eip m && !decide (m = reportedIdentity (imsicTopeiPeek f))) := by
  obtain ⟨n, h0, hlt, hv, hpend, hext⟩ := peek_reports h
  rw [hv, reportedIdentity_topeiValue hlt, topeiClaim_eip _ _ hpend, eipBit_clear]
  · rcases hext with (rfl | rfl) | hext
    · exact .inl (.inr rfl)
    · exact .inl (.inl rfl)
    · exact .inr hext
  · intro hz
    have hn := congrArg BitVec.toNat hz
    rw [BitVec.toNat_ofNat, Nat.mod_eq_of_lt (by omega)] at hn
    exact absurd hn (Nat.ne_of_gt h0)
  · rw [BitVec.lt_def, BitVec.toNat_ofNat, Nat.mod_eq_of_lt (by omega)]
    exact hlt

theorem imsicFile_syncImsicOne (s : HartState) (mfile : Bool) :
    (syncImsicOne s mfile).imsicFile mfile = s.imsicFile mfile := by
  rw [syncImsicOne]
  split_ifs
  all_goals first
    | rfl
    | cases mfile <;> rfl

/-- After a claim the files are the same exactly when the Python side cleared what it returned. -/
theorem SameContents.claim_iff (h : SameContents p (s.imsicFile mfile)) (hc : p.Covers) :
    SameContents p.readTopei.2 ((engineAccess mfile s .claim).imsicFile mfile) ↔ p.ClearsReturned := by
  have hframe := readTopei_frame p
  have hpeek := h.peek hc
  have hbits := words_eq_iff.mp h.eip
  rw [PyImsicFile.ClearsReturned, and_iff_left hframe, readTopei_value, hpeek]
  simp only [engineAccess]
  by_cases hraw : imsicTopeiPeek (s.imsicFile mfile) ≠ 0
  · rw [if_pos hraw, imsicFile_syncImsicOne, HartState.imsicFile_setImsicFile]
    obtain ⟨hregs, hsum⟩ := topeiClaim_frame h.summary (reportedIdentity (imsicTopeiPeek (s.imsicFile mfile)))
    apply (h.eip_iff hframe hregs hsum).trans
    rw [words_eq_iff]
    apply forall₂_congr
    intro m hm
    rw [eipBit_engineClaim hraw, ← hbits m hm, decide_eq_decide.mpr (and_iff_right hraw)]
  · rw [if_neg hraw]
    apply (h.eip_iff hframe ⟨rfl, rfl, rfl⟩ h.summary).trans
    rw [words_eq_iff]
    apply forall₂_congr
    intro m hm
    rw [decide_eq_false fun hand => hraw hand.1, Bool.not_false, Bool.and_true, hbits m hm]

end Claims

/-! ## The two models in step -/

/-- What an access must meet, in the state before it, to be the same on both sides. -/
def PyImsicFile.Agrees (p : PyImsicFile) : ImsicAccess → Prop
  | .csrWrite select v => p.WriteAgrees select v
  | .seteipnum n => n ≠ 0 ∨ eipBit p.eip 0 = true
  | .clreipnum n => n ≠ 0 ∨ eipBit p.eip 0 = false
  | .claim => p.TopUnmasked

def PyImsicFile.AllAgree : PyImsicFile → List ImsicAccess → Prop
  | _, [] => True
  | p, a :: l => p.Agrees a ∧ (p.access a).AllAgree l

section Run

variable {p : PyImsicFile} {f : ImsicFile} {mfile : Bool} {s : HartState}

theorem eipWords_le_iff {n : BitVec 32} : eipWords ≤ eipWordOf n ↔ ¬ n < maxIid := by
  rw [eipWordOf_eq, BitVec.lt_def]
  change 64 ≤ n.toNat / 32 ↔ ¬ n.toNat < 2048
  omega

theorem imsicFile_setMip (s : HartState) (mfile : Bool) (mask : Word) :
    (s.setMip mask).imsicFile mfile = s.imsicFile mfile := by
  cases mfile <;> rfl

theorem imsicFile_clearMip (s : HartState) (mfile : Bool) (mask : Word) :
    (s.clearMip mask).imsicFile mfile = s.imsicFile mfile := by
  cases mfile <;> rfl

theorem hasExt_of_clear {a : Nat → BitVec 32} {n : BitVec 32}
    (h : hasExtInterrupt (numWrite a n false) = true) : hasExtInterrupt a = true := by
  have hsub : ∀ i, ∃ m, numWrite a n false i = a i &&& m := by
    intro i
    by_cases hi : i = eipWordOf n
    · refine ⟨~~~(eipBitAt n), ?_⟩
      rw [numWrite, hi, Function.update_self]
      rfl
    · refine ⟨BitVec.allOnes 32, ?_⟩
      rw [numWrite, Function.update_of_ne hi, BitVec.and_allOnes]
  rw [hasExtInterrupt, Bool.or_eq_true] at h ⊢
  rcases h with h | h
  · left
    obtain ⟨m, hm⟩ := hsub 0
    rw [decide_eq_true_eq] at h ⊢
    intro hz
    apply h
    rw [hm, BitVec.and_assoc, BitVec.and_comm m, ← BitVec.and_assoc, hz]
    exact BitVec.zero_and
  · right
    obtain ⟨i, hi, hne⟩ := List.any_eq_true.mp h
    obtain ⟨hi0, hne⟩ := of_decide_eq_true hne
    obtain ⟨m, hm⟩ := hsub i
    rw [hm] at hne
    exact List.any_eq_true.mpr ⟨i, hi, decide_eq_true ⟨hi0, and_ne_zero_left hne⟩⟩

theorem SameContents.seteipnum (h : SameContents p (s.imsicFile mfile)) {n : BitVec 32}
    (hn : n ≠ 0 ∨ eipBit p.eip 0 = true) :
    SameContents (p.setPending n) ((imsicEipSet s (!mfile) n).imsicFile mfile) := by
  rw [imsicEipSet, PyImsicFile.setPending, Bool.not_not]
  by_cases hlt : n < maxIid
  · rw [if_neg fun hge => eipWords_le_iff.mp hge hlt, imsicFile_setMip, HartState.imsicFile_setImsicFile]
    have hset := numWrite_congr h.eip n true
    by_cases h0 : n = 0
    · -- identity 0 is refused on the Python side and set in the engine
      subst h0
      rw [if_neg fun hpos => absurd hpos.1 (by decide)]
      have hbit := hn.resolve_left fun hne => hne rfl
      refine ⟨?_, h.eie, h.eidelivery, h.eithreshold, fun _ => rfl⟩
      intro i hi
      have hlost := (numWrite_lost_iff (fun i hi => (h.eip i hi).symm) hlt true).mpr
        (by rw [← words_eq_iff.mp h.eip 0 hlt]; exact hbit) i hi
      exact hlost.symm
    · have hpos : 0 < n := by bv_omega
      rw [if_pos ⟨hpos, hlt⟩]
      exact ⟨hset, h.eie, h.eidelivery, h.eithreshold, fun _ => rfl⟩
  · rw [if_pos (eipWords_le_iff.mpr hlt), if_neg fun hand => hlt hand.2]
    exact h

theorem SameContents.clreipnum (h : SameContents p (s.imsicFile mfile)) {n : BitVec 32}
    (hn : n ≠ 0 ∨ eipBit p.eip 0 = false) :
    SameContents (p.clearPending n) ((imsicEipClear s (!mfile) n).imsicFile mfile) := by
  have hfile : (imsicEipClear s (!mfile) n).imsicFile mfile =
      if eipWords ≤ eipWordOf n then s.imsicFile mfile
      else { s.imsicFile mfile with eip := numWrite (s.imsicFile mfile).eip n false } := by
    rw [imsicEipClear, Bool.not_not]
    dsimp only
    split_ifs
    · rfl
    · rw [imsicFile_clearMip, HartState.imsicFile_setImsicFile]
      rfl
    · rw [HartState.imsicFile_setImsicFile]
      rfl
  rw [hfile, PyImsicFile.clearPending]
  by_cases hlt : n < maxIid
  · have hclear := numWrite_congr h.eip n false
    rw [if_neg fun hge => eipWords_le_iff.mp hge hlt]
    by_cases h0 : n = 0
    · subst h0
      rw [if_neg fun hpos => absurd hpos.1 (by decide)]
      have hbit := hn.resolve_left fun hne => hne rfl
      refine ⟨?_, h.eie, h.eidelivery, h.eithreshold, fun hext => h.summary (hasExt_of_clear hext)⟩
      intro i hi
      have hlost := (numWrite_lost_iff (fun i hi => (h.eip i hi).symm) hlt false).mpr
        (by rw [← words_eq_iff.mp h.eip 0 hlt]; exact hbit) i hi
      exact hlost.symm
    · have hpos : 0 < n := by bv_omega
      rw [if_pos ⟨hpos, hlt⟩]
      exact ⟨hclear, h.eie, h.eidelivery, h.eithreshold, fun hext => h.summary (hasExt_of_clear hext)⟩
  · rw [if_pos (eipWords_le_iff.mpr hlt), if_neg fun hand => hlt hand.2]
    exact h

theorem SameContents.access (h : SameContents p (s.imsicFile mfile)) (hc : p.Covers) {a : ImsicAccess}
    (ha : p.Agrees a) : SameContents (p.access a) ((engineAccess mfile s a).imsicFile mfile) := by
  cases a with
  | csrWrite select v =>
    rw [PyImsicFile.access, engineAccess, HartState.imsicFile_setImsicFile]
    exact (h.csrWrite_iff select v).mpr ha
  | seteipnum n => exact h.seteipnum ha
  | clreipnum n => exact h.clreipnum ha
  | claim => exact (h.claim_iff hc).mpr ((readTopei_clears_iff hc).mpr ha)

theorem SameContents.run (h : SameContents p (s.imsicFile mfile)) (hc : p.Covers) (l : List ImsicAccess)
    (hl : p.AllAgree l) :
    SameContents (l.foldl PyImsicFile.access p) ((l.foldl (engineAccess mfile) s).imsicFile mfile) := by
  induction l generalizing p s with
  | nil => exact h
  | cons a l ih => exact ih (h.access hc hl.1) (hc.access a) hl.2

theorem covers_init : PyImsicFile.init.Covers := by
  rintro ⟨i, _, hne⟩
  exact absurd rfl hne

/-- Files with the same contents answer reads and `peek_topei` alike after any history; a claim takes
what it returned and a write means the same exactly under the conditions above, and while every
access meets them the contents stay the same. -/
theorem imsic_models_agree_iff (before : List ImsicAccess) (mfile : Bool) (s : HartState)
    (h : SameContents (before.foldl PyImsicFile.access .init) (s.imsicFile mfile)) :
    let p := before.foldl PyImsicFile.access .init
    let f := s.imsicFile mfile
    p.peekTopei = imsicTopeiPeek f ∧ p.readTopei.1 = p.peekTopei ∧ (p.ClearsReturned ↔ p.TopUnmasked) ∧
      (∀ select, p.csrRead select = imsicRegRead f select) ∧
      (∀ select v, SameContents (p.csrWrite select v) (imsicRegWrite f select v) ↔ p.WriteAgrees select v) ∧
      ∀ l, p.AllAgree l →
        SameContents (l.foldl PyImsicFile.access p) ((l.foldl (engineAccess mfile) s).imsicFile mfile) := by
  intro p f
  have hc : p.Covers := covers_init.run before
  refine ⟨h.peek hc, readTopei_value p, readTopei_clears_iff hc, h.csrRead, h.csrWrite_iff, ?_⟩
  intro l hl
  exact h.run hc l hl

/-- Delivery on, threshold 10, and identity 8 enabled and pending. -/
def maskedEight : List ImsicAccess :=
  [.csrWrite 0x70 1, .csrWrite 0x72 10, .csrWrite 0xC0 0x100, .seteipnum 8]

theorem maskedEight_same :
    SameContents (maskedEight.foldl PyImsicFile.access .init)
      ((maskedEight.foldl (engineAccess true) .zeroed).imsicFile true) :=
  ⟨by decide +kernel, by decide +kernel, by decide +kernel, by decide +kernel, by decide +kernel⟩

theorem imsic_models_agree_masked :
    (maskedEight.foldl PyImsicFile.access .init).peekTopei =
      imsicTopeiPeek ((maskedEight.foldl (engineAccess true) .zeroed).imsicFile true) ∧
    ((maskedEight.foldl PyImsicFile.access .init).ClearsReturned ↔
      (maskedEight.foldl PyImsicFile.access .init).TopUnmasked) := by
  have h := imsic_models_agree_iff maskedEight true (maskedEight.foldl (engineAccess true) .zeroed) maskedEight_same
  exact ⟨h.1, h.2.2.1⟩

/-- A masked identity is lost by a claim that returns nothing, a threshold of 256 is zero in the
engine, and a numbered write of 2056 sets identity 8 on one side only. -/
theorem masked_candidate_lost :
    (maskedEight.foldl PyImsicFile.access .init).readTopei.1 = 0 ∧
      eipBit (maskedEight.foldl PyImsicFile.access .init).eip 8 = true ∧
      eipBit (maskedEight.foldl PyImsicFile.access .init).readTopei.2.eip 8 = false ∧
      PyImsicFile.init.csrRead 0x72 = imsicRegRead .empty 0x72 ∧
      (PyImsicFile.init.csrWrite 0x72 256).csrRead 0x72 ≠ imsicRegRead (imsicRegWrite .empty 0x72 256) 0x72 ∧
      (PyImsicFile.init.csrWrite 0x58 2056).csrRead 0x80 ≠ imsicRegRead (imsicRegWrite .empty 0x58 2056) 0x80 := by
  decide +kernel

end Run

end Pyremu
