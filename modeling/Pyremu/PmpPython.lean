import Pyremu.PmpExact

/-!
# The Python checker

`Pmp.check` of `memory/pmp.py` hands the entries to `pmp_check` when the native
library is there, and otherwise scans them itself in unbounded integers, masking
only the two inclusive ends. The registers are those of the hart; a register
that is missing reads as an entry that is off.
-/

namespace Pyremu

open FirstMatch

/-- The checker with its registers `pmpcfg` and `pmpaddr`. -/
structure PmpPy where
  cfgReg : Nat → Option Word
  addrReg : Nat → Option Word
  numEntries : Nat
  num_le : numEntries ≤ 64

/-- What an access brings along. -/
structure PmpAccessInfo where
  pa : Word
  size : Nat
  mode : Mode
  mstatus : Word
  isWrite : Bool
  isExecute : Bool
  pmpsplit : BitVec 8
  mdid : Word

/-- `mask64` of `utils/mask.py`. -/
def mask64 (v : Int) : Int := v % 2 ^ 64

namespace PmpPy

/-- The 54-bit field is a machine word, so the bit operations on it are the word's. The loop
stops at 54 ones. -/
def decodeNapot (pmpaddrVal : Word) : Int × Int :=
  let val := pmpaddrVal &&& 0x003fffffffffffff
  let trailing := trailingOnesUpTo val 54
  if 54 ≤ trailing then (0, 0x10000000000000000)
  else if trailing = 0 then (val.toNat * 4, 8)
  else
    let mask := ((1 : Word) <<< trailing) - 1
    (mask64 ((val &&& ~~~mask).toNat * 4), 2 ^ (trailing + 3))

def decodeTor (pmpaddrPrev pmpaddrCur : Word) (entryIdx : Nat) : Int × Int :=
  let lo : Int := if entryIdx = 0 then 0 else pmpaddrPrev.toNat * 4
  let hi : Int := pmpaddrCur.toNat * 4
  (lo, hi - lo)

def addrInRange (addr : Word) (size : Nat) (base rsize : Int) : Bool :=
  if rsize = 0 then false
  else
    let fin := mask64 (addr.toNat + size - 1)
    let rend := mask64 (base + rsize - 1)
    decide (base ≤ addr.toNat) && decide (fin ≤ rend)

/-- Eight entries to a register, registers with even numbers only. -/
def readCfg (p : PmpPy) (idx : Nat) : BitVec 8 :=
  match p.cfgReg (idx / 8 * 2) with
  | none => Pmp.aOff
  | some cfgVal => (cfgVal >>> (idx % 8 * 8)).setWidth 8

def readAddr (p : PmpPy) (idx : Nat) : Word := (p.addrReg idx).getD 0

/-- `_match`. -/
def isMatch (p : PmpPy) (idx : Nat) (cfg : BitVec 8) (addrField : Word) (pa : Word) (size : Nat) : Bool :=
  let aMode := cfg &&& Pmp.aMask
  if aMode = Pmp.aTor then
    let prev := if 0 < idx then p.readAddr (idx - 1) else 0
    let r := decodeTor prev addrField idx
    addrInRange pa size r.1 r.2
  else if aMode = Pmp.aNa4 then addrInRange pa size (addrField.toNat * 4) 4
  else if aMode = Pmp.aNapot then
    let r := decodeNapot addrField
    addrInRange pa size r.1 r.2
  else false

/-- One round of the loop of `_check_py`, `none` when it goes on. -/
def verdict (p : PmpPy) (info : PmpAccessInfo) (i : Nat) : Option Bool :=
  if info.mdid ≠ 0 ∧ 0#8 < info.pmpsplit ∧ i < info.pmpsplit.toNat then none
  else if p.readCfg i &&& Pmp.aMask = 0 then none
  else if !p.isMatch i (p.readCfg i) (p.readAddr i) info.pa info.size then none
  else some (checkPerm (p.readCfg i) info.isWrite info.isExecute)

/-- `_check_py`. The effective mode is M for every `MPP` but U and S, and the entries are
scanned all the same. -/
def checkPy (p : PmpPy) (info : PmpAccessInfo) : Bool :=
  if info.mode = .M ∧ !mprv info.mstatus then true
  else
    let effMode := pmpEffMode info.mode info.mstatus
    if p.numEntries = 0 then false
    else
      match (List.range p.numEntries).findSome? (p.verdict info) with
      | some ok => ok
      | none => decide (effMode = .M)

/-- The arrays of `rebuild_cache`, with the entries past the end cleared. -/
def rebuildCache (p : PmpPy) : PmpCtx where
  cfg i := if i < p.numEntries then p.readCfg i else 0
  addr i := if i < p.numEntries then p.readAddr i else 0
  num := BitVec.ofNat 8 p.numEntries

def check (p : PmpPy) (useNative : Bool) (info : PmpAccessInfo) : Bool :=
  if info.mode = .M ∧ !mprv info.mstatus then true
  else if info.mdid ≠ 0 ∧ 0#8 < info.pmpsplit ∧ p.numEntries ≤ info.pmpsplit.toNat then false
  else if useNative then
    pmpCheck p.rebuildCache info.pa info.size info.isWrite info.isExecute info.mode info.mstatus
      info.pmpsplit info.mdid
  else p.checkPy info

/-! ## Where the two paths agree -/

/-- The verdict of the native path on entry `i`. -/
def nativeVerdict (p : PmpPy) (info : PmpAccessInfo) : Nat → Option Bool :=
  p.rebuildCache.verdict (enclaveSkip info.pmpsplit info.mdid) info.pa info.size info.isWrite info.isExecute

variable {p : PmpPy} {info : PmpAccessInfo}

theorem rebuildCache_num (p : PmpPy) : p.rebuildCache.num.toNat = p.numEntries := by
  have := p.num_le
  simp only [rebuildCache, BitVec.toNat_ofNat]
  omega

theorem nativeVerdict_some {i : Nat} {b : Bool} (h : p.nativeVerdict info i = some b) :
    checkPerm (p.readCfg i) info.isWrite info.isExecute = b := by
  simp only [nativeVerdict, PmpCtx.verdict] at h
  split at h
  · cases h
  · split at h
    · cases h
    · rename_i hr
      have hi : i < p.numEntries := by
        by_contra hi
        simp only [PmpCtx.region, rebuildCache, if_neg hi] at hr
        cases hr
      split at h
      · simpa only [rebuildCache, if_pos hi, Option.some.injEq] using h
      · cases h

theorem verdict_some {i : Nat} {b : Bool} (h : p.verdict info i = some b) :
    checkPerm (p.readCfg i) info.isWrite info.isExecute = b := by
  simp only [verdict] at h
  split at h
  · cases h
  · split at h
    · cases h
    · split at h
      · cases h
      · exact Option.some.inj h

/-- A split point past the last entry leaves nothing to scan. -/
theorem verdict_none_of_split {i : Nat} (hi : i < p.numEntries)
    (hs : info.mdid ≠ 0 ∧ 0#8 < info.pmpsplit ∧ p.numEntries ≤ info.pmpsplit.toNat) :
    p.verdict info i = none :=
  if_pos ⟨hs.1, hs.2.1, Nat.lt_of_lt_of_le hi hs.2.2⟩

theorem not_bypassed (he : pmpEffMode info.mode info.mstatus ≠ .M) :
    ¬ (info.mode = .M ∧ (!mprv info.mstatus) = true) := by
  rintro ⟨hm, hp⟩
  apply he
  simp only [pmpEffMode, hm, ↓reduceIte, (Bool.not_eq_true' _).mp hp, Bool.false_eq_true]

theorem check_native_iff (he : pmpEffMode info.mode info.mstatus ≠ .M) :
    p.check true info = true ↔ First (p.nativeVerdict info) p.numEntries true := by
  rw [check, if_neg (not_bypassed he)]
  split
  · rename_i hs
    apply iff_of_false Bool.false_ne_true
    rintro ⟨i, hi, hv, _⟩
    have hskip : enclaveSkip info.pmpsplit info.mdid = info.pmpsplit.toNat := if_pos ⟨hs.1, hs.2.1⟩
    rw [nativeVerdict, PmpCtx.verdict, if_pos (by omega)] at hv
    cases hv
  · rw [if_pos rfl, pmpCheck_first he, rebuildCache_num]
    rfl

theorem check_python_iff (he : pmpEffMode info.mode info.mstatus ≠ .M) :
    p.check false info = true ↔ First (p.verdict info) p.numEntries true := by
  rw [check, if_neg (not_bypassed he)]
  split
  · rename_i hs
    apply iff_of_false Bool.false_ne_true
    rintro ⟨i, hi, hv, _⟩
    rw [verdict_none_of_split hi hs] at hv
    cases hv
  · simp only [Bool.false_eq_true, ↓reduceIte, checkPy, if_neg (not_bypassed he), decide_eq_false he]
    split
    · rename_i h0
      apply iff_of_false Bool.false_ne_true
      rintro ⟨i, hi, _⟩
      omega
    · rw [← findSome?_range]
      split
      · rename_i hv
        rw [hv, Option.some.injEq]
      · rename_i hv
        simp only [hv, Bool.false_eq_true, reduceCtorEq]

/-- Where `MPRV` leads to M, the native path permits without looking at an entry. -/
theorem check_native_machine (he : pmpEffMode info.mode info.mstatus = .M)
    (hs : ¬ (info.mdid ≠ 0 ∧ 0#8 < info.pmpsplit ∧ p.numEntries ≤ info.pmpsplit.toNat)) :
    p.check true info = true := by
  by_cases hb : info.mode = .M ∧ (!mprv info.mstatus) = true
  · rw [check, if_pos hb]
  · rw [check, if_neg hb, if_neg hs, if_pos rfl, pmpCheck, if_pos he]

theorem check_python_machine (he : pmpEffMode info.mode info.mstatus = .M)
    (hb : ¬ (info.mode = .M ∧ (!mprv info.mstatus) = true))
    (hs : ¬ (info.mdid ≠ 0 ∧ 0#8 < info.pmpsplit ∧ p.numEntries ≤ info.pmpsplit.toNat)) :
    p.check false info = true ↔ 0 < p.numEntries ∧ ¬ First (p.verdict info) p.numEntries false := by
  rw [check, if_neg hb, if_neg hs]
  simp only [Bool.false_eq_true, ↓reduceIte, checkPy, if_neg hb, decide_eq_true he]
  split
  · rename_i h0
    exact iff_of_false Bool.false_ne_true fun h => absurd h0 (Nat.ne_of_gt h.1)
  · rename_i h0
    rw [← findSome?_range]
    split
    · rename_i ok hv
      rw [hv, Option.some.injEq, Bool.not_eq_false]
      exact ⟨fun h => ⟨Nat.pos_of_ne_zero h0, h⟩, fun h => h.2⟩
    · rename_i hv
      refine iff_of_true rfl ⟨Nat.pos_of_ne_zero h0, ?_⟩
      rw [hv]
      exact nofun

/-- In an effective mode below M, neither path accepts at an entry the other passes over and
comes to another verdict on. In M mode through `MPRV`, unless the split point refuses, there is
an entry, and the first one that the Python path matches does not refuse. -/
def SamePath (p : PmpPy) (info : PmpAccessInfo) : Prop :=
  (pmpEffMode info.mode info.mstatus ≠ .M →
    Agrees (p.nativeVerdict info) (p.verdict info) p.numEntries ∧
      Agrees (p.verdict info) (p.nativeVerdict info) p.numEntries) ∧
  (pmpEffMode info.mode info.mstatus = .M →
    ¬ (info.mode = .M ∧ (!mprv info.mstatus) = true) →
    ¬ (info.mdid ≠ 0 ∧ 0#8 < info.pmpsplit ∧ p.numEntries ≤ info.pmpsplit.toNat) →
    0 < p.numEntries ∧ ¬ First (p.verdict info) p.numEntries false)

end PmpPy

/-- No entry at all. -/
def noEntries : PmpPy := ⟨fun _ => none, fun _ => none, 0, by decide⟩

end Pyremu
