import Pyremu.State

/-!
# IMSIC interrupt files

The two per-hart files of pending and enable bits, their indirect registers,
and the derivation of `mip.MEIP` and `mip.SEIP` from them. Software interrupts
(identities 1 and 3) are visible without `eidelivery`; external ones need it.
-/

namespace Pyremu

/-- `state.mip.fetch_or`. -/
def HartState.setMip (s : HartState) (mask : Word) : HartState := { s with mip := s.mip ||| mask }

/-- `state.mip.fetch_and` with the complement of `mask`. -/
def HartState.clearMip (s : HartState) (mask : Word) : HartState :=
  { s with mip := s.mip &&& ~~~mask }

def bit (i : Nat) : Word := 1#64 <<< i

theorem getLsbD_bit (k i : Nat) (hk : k < 64) : (bit k).getLsbD i = decide (i = k) := by
  simp only [bit, BitVec.getLsbD_shiftLeft, BitVec.getLsbD_one]
  by_cases h : i = k
  · subst h; simp [hk]
  · by_cases hlt : i < k
    · simp [h, hlt]
    · have : ¬ (i - k = 0) := by omega
      simp [h, this]

theorem getLsbD_and_not_bit (x : Word) {k i : Nat} (hk : k < 64) (h : i ≠ k) :
    (x &&& ~~~(bit k)).getLsbD i = x.getLsbD i := by
  by_cases hi : i < 64
  · rw [BitVec.getLsbD_and, BitVec.getLsbD_not, getLsbD_bit k i hk]
    simp [h, hi]
  · simp [BitVec.getLsbD_of_ge _ i (by omega : 64 ≤ i)]

theorem getLsbD_or_bit (x : Word) {k i : Nat} (hk : k < 64) (h : i ≠ k) :
    (x ||| bit k).getLsbD i = x.getLsbD i := by
  rw [BitVec.getLsbD_or, getLsbD_bit k i hk]
  simp [h]

theorem and_bit_eq_zero (m : Word) {k : Nat} (hk : k < 64) : m &&& bit k = 0 ↔ m.getLsbD k = false := by
  constructor
  · intro h
    have hbit := congrArg (fun v => v.getLsbD k) h
    simpa [BitVec.getLsbD_and, getLsbD_bit k k hk] using hbit
  · intro h
    apply BitVec.eq_of_getLsbD_eq
    intro i hi
    rw [BitVec.getLsbD_and, getLsbD_bit k i hk]
    by_cases hik : i = k
    · subst hik
      simp [h]
    · simp [hik]

def iidSIpi : BitVec 32 := 1
def iidMIpi : BitVec 32 := 3
def maxIid : BitVec 32 := 2048
def eipWords : Nat := 64

/-- Index of the highest set bit of a non-zero word, `31 - leading_zeros`. -/
def highestBit (v : BitVec 32) : Nat := v.toNat.log2

def imsicUpdateEipExtAny (f : ImsicFile) : ImsicFile :=
  { f with eipExtAny := (List.range eipWords).any fun i => decide (f.eip i ≠ 0) }

/-- `(iid << 16) | (iid & 0xFF)`. -/
def topeiValue (iid : Nat) : Word := (BitVec.ofNat 64 iid <<< 16) ||| BitVec.ofNat 64 (iid % 256)

/-- The external interrupt that word `i` offers, none if masked by the threshold. -/
def topeiWord (f : ImsicFile) (i : Nat) : Option Word :=
  let extMask : BitVec 32 := ~~~(1#32 <<< 3 ||| 1#32 <<< 1)
  let pendingEnabled := if i = 0 then f.eip 0 &&& f.eie 0 &&& extMask else f.eip i &&& f.eie i
  if pendingEnabled = 0 then none
  else
    let iid := i * 32 + highestBit pendingEnabled
    if iid = 0 ∨ 2048 ≤ iid then none
    else if f.eithreshold.toNat < iid % 256 then some (topeiValue iid)
    else none

def imsicTopeiPeek (f : ImsicFile) : Word :=
  let ipiPending := f.eip 0 &&& (1#32 <<< 3 ||| 1#32 <<< 1)
  if ipiPending ≠ 0 then topeiValue (highestBit ipiPending)
  else if f.eidelivery = 0 ∨ f.eipExtAny = false then 0
  else ((List.range eipWords).reverse.findSome? (topeiWord f)).getD 0

def eipBitAt (iid : BitVec 32) : BitVec 32 := 1#32 <<< (iid &&& 31)

def eipWordOf (iid : BitVec 32) : Nat := (iid >>> 5).toNat

def imsicTopeiClaimIid (f : ImsicFile) (iid : BitVec 32) : ImsicFile :=
  if iid = 0 ∨ maxIid ≤ iid then f
  else
    let word := eipWordOf iid
    let isSw := decide (iid = iidMIpi ∨ iid = iidSIpi)
    if !isSw && f.eidelivery == 0 then f
    else
      let pending := if isSw then f.eip word else f.eip word &&& f.eie word
      if word < eipWords ∧ pending &&& eipBitAt iid ≠ 0 then
        imsicUpdateEipExtAny
          { f with eip := Function.update f.eip word (f.eip word &&& ~~~(eipBitAt iid)) }
      else f

/-- The file and the `mip` line it drives. -/
def HartState.imsicFile (s : HartState) (mfile : Bool) : ImsicFile :=
  if mfile then s.imsicM else s.imsicS

def imsicMipBit (mfile : Bool) : Word := if mfile then bit 11 else bit 9

def HartState.setImsicFile (s : HartState) (mfile : Bool) (f : ImsicFile) : HartState :=
  if mfile then { s with imsicM := f } else { s with imsicS := f }

def syncImsicOne (s : HartState) (mfile : Bool) : HartState :=
  let f := s.imsicFile mfile
  if !f.present then s
  else if f.eidelivery ≠ 0 then
    if imsicTopeiPeek f ≠ 0 then s.setMip (imsicMipBit mfile) else s.clearMip (imsicMipBit mfile)
  else if imsicTopeiPeek f ≠ 0 then s.setMip (imsicMipBit mfile)
  else s

/-- Two adjacent words of a register array, as one 64-bit value. -/
def readPair (a : Nat → BitVec 32) (idx : Nat) : Word :=
  (a idx).setWidth 64 |||
    ((if idx + 1 < eipWords then (a (idx + 1)).setWidth 64 else 0) <<< 32)

def writePair (a : Nat → BitVec 32) (idx : Nat) (v : Word) : Nat → BitVec 32 :=
  let a := Function.update a idx (v.setWidth 32)
  if idx + 1 < eipWords then Function.update a (idx + 1) ((v >>> 32).setWidth 32) else a

def imsicRegRead (f : ImsicFile) (select : BitVec 32) : Word :=
  if select = 0x70 then f.eidelivery.setWidth 64
  else if select = 0x72 then f.eithreshold.setWidth 64
  else if 0x80 ≤ select ∧ select ≤ 0xBF then readPair f.eip (select - 0x80).toNat
  else if 0xC0 ≤ select ∧ select ≤ 0xFF then readPair f.eie (select - 0xC0).toNat
  else 0

/-- Set or clear one bit of a register array by interrupt number. -/
def numWrite (a : Nat → BitVec 32) (num : BitVec 32) (set : Bool) : Nat → BitVec 32 :=
  let w := eipWordOf num
  Function.update a w (if set then a w ||| eipBitAt num else a w &&& ~~~(eipBitAt num))

def imsicRegWrite (f : ImsicFile) (select : BitVec 32) (v : Word) : ImsicFile :=
  let num : BitVec 32 := v.setWidth 32
  if select = 0x70 then { f with eidelivery := (v &&& 1).setWidth 8 }
  else if select = 0x72 then { f with eithreshold := (v &&& 0x3FF).setWidth 8 }
  else if 0x80 ≤ select ∧ select ≤ 0xBF then
    imsicUpdateEipExtAny { f with eip := writePair f.eip (select - 0x80).toNat v }
  else if 0xC0 ≤ select ∧ select ≤ 0xFF then
    { f with eie := writePair f.eie (select - 0xC0).toNat v }
  else if select = 0x58 then
    if num < maxIid then imsicUpdateEipExtAny { f with eip := numWrite f.eip num true } else f
  else if select = 0x59 then
    if num < maxIid then imsicUpdateEipExtAny { f with eip := numWrite f.eip num false } else f
  else if select = 0x5A then
    if num < maxIid then { f with eie := numWrite f.eie num true } else f
  else if select = 0x5B then
    if num < maxIid then { f with eie := numWrite f.eie num false } else f
  else f

/-- Drop the pending bit of a software interrupt. -/
def clearEip (f : ImsicFile) (iid : BitVec 32) : ImsicFile :=
  let w := eipWordOf iid
  if w < eipWords then
    imsicUpdateEipExtAny { f with eip := Function.update f.eip w (f.eip w &&& ~~~(eipBitAt iid)) }
  else f

def imsicClearIpiOnTrap (s : HartState) (cause : Word) : HartState :=
  if cause = 3 then
    let s := if s.imsicM.present then
        { s with imsicM := clearEip (clearEip s.imsicM iidMIpi) iidSIpi } else s
    if s.imsicS.present then { s with imsicS := clearEip s.imsicS iidSIpi } else s
  else if cause = 1 then
    if s.imsicS.present then { s with imsicS := clearEip s.imsicS iidSIpi } else s
  else s

/-! ## Memory-mapped access -/

structure ImsicAddr where
  hart : Nat
  isSfile : Bool
  regOff : Nat
  deriving DecidableEq, Repr

/-- The M files come first, the S files after a power of two of pages. -/
def decodeImsicAddr (cfg : Features) (pa : Word) (numHarts : Nat) : Option ImsicAddr :=
  let pageStride := 0x1000
  let mRange := numHarts.nextPowerOfTwo * pageStride
  if pa < cfg.imsicMBase then none
  else
    let off := pa.toNat - cfg.imsicMBase.toNat
    if off < mRange then
      if numHarts ≤ off / pageStride then none
      else some ⟨off / pageStride, false, off % pageStride⟩
    else if off < 2 * mRange then
      if numHarts ≤ (off - mRange) / pageStride then none
      else some ⟨(off - mRange) / pageStride, true, (off - mRange) % pageStride⟩
    else none

/-- Effect of a `seteipnum` write on the addressed hart. -/
def imsicEipSet (s : HartState) (sfile : Bool) (eipNum : BitVec 32) : HartState :=
  let f := s.imsicFile (!sfile)
  let w := eipWordOf eipNum
  if eipWords ≤ w then s
  else
    let f := { f with eip := Function.update f.eip w (f.eip w ||| eipBitAt eipNum),
                      eipExtAny := true }
    (s.setImsicFile (!sfile) f).setMip (imsicMipBit (!sfile))

/-- Effect of a `clreipnum` write on the addressed hart. -/
def imsicEipClear (s : HartState) (sfile : Bool) (eipNum : BitVec 32) : HartState :=
  let f := s.imsicFile (!sfile)
  let w := eipWordOf eipNum
  if eipWords ≤ w then s
  else
    let f := { f with eip := Function.update f.eip w (f.eip w &&& ~~~(eipBitAt eipNum)) }
    let s := s.setImsicFile (!sfile) f
    if imsicTopeiPeek f = 0 then s.clearMip (imsicMipBit (!sfile)) else s

def tryHandleImsicRead (cfg : Features) (pa : Word) (numHarts : Nat) : Option Word :=
  if !cfg.aia then none else (decodeImsicAddr cfg pa numHarts).map fun _ => 0

end Pyremu
