import Pyremu.State

/-!
# Physical memory protection

`pmp_check` scans the entries in index order; the first entry whose range
contains the access decides. Inside an enclave (`mdid` not the host's) the
entries below `pmpsplit` are skipped.
-/

namespace Pyremu

/-- `mstatus.MPRV`. -/
def mprv (mstatus : Word) : Bool := mstatus.getLsbD 17

/-- `mstatus.MPP`. -/
def mpp (mstatus : Word) : BitVec 2 := mstatus.extractLsb' 11 2

/-- The entry arrays shared with the host, and the number of entries. -/
structure PmpCtx where
  cfg : Nat → BitVec 8
  addr : Nat → Word
  num : BitVec 8

def hostMdid : Word := 0

namespace Pmp

def R : BitVec 8 := 0b00000001
def W : BitVec 8 := 0b00000010
def X : BitVec 8 := 0b00000100
def aMask : BitVec 8 := 0b00011000
def aOff : BitVec 8 := 0b00000000
def aTor : BitVec 8 := 0b00001000
def aNa4 : BitVec 8 := 0b00010000
def aNapot : BitVec 8 := 0b00011000

end Pmp

/-- `u64::trailing_ones`, looking at `fuel` bits. -/
def trailingOnesUpTo (v : Word) : Nat → Nat
  | 0 => 0
  | fuel + 1 => if v.getLsbD 0 then trailingOnesUpTo (v >>> 1) fuel + 1 else 0

def trailingOnes (v : Word) : Nat := trailingOnesUpTo v 64

/-- Base and size of a naturally aligned region. -/
def decodeNapot (pmpaddrVal : Word) : Word × Word :=
  let val := pmpaddrVal &&& 0x003fffffffffffff
  let trailing := trailingOnes val
  if 54 ≤ trailing then (0, BitVec.allOnes 64)
  else if trailing = 0 then (val <<< 2, 8)
  else
    let mask := ((1 : Word) <<< trailing) - 1
    ((val &&& ~~~mask) <<< 2, (1 : Word) <<< (trailing + 3))

/-- Is `[addr, addr + size)` inside `[base, base + rsize)`? Both ends wrap. -/
def addrInRange (addr : Word) (size : Nat) (base rsize : Word) : Bool :=
  if rsize = 0 then false
  else
    let fin := addr + BitVec.ofNat 64 size - 1
    let rend := base + rsize - 1
    decide (base ≤ addr) && decide (fin ≤ rend)

/-- The permission bits of one entry; without `R` nothing is allowed. -/
def checkPerm (cfg : BitVec 8) (isWrite isExecute : Bool) : Bool :=
  if cfg &&& Pmp.R = 0 then false
  else if isWrite && decide (cfg &&& Pmp.W = 0) then false
  else if isExecute && decide (cfg &&& Pmp.X = 0) then false
  else true

/-- The region of entry `i`, `none` when it is switched off. -/
def PmpCtx.region (p : PmpCtx) (i : Nat) : Option (Word × Word) :=
  let aType := p.cfg i &&& Pmp.aMask
  if aType = Pmp.aOff then none
  else if aType = Pmp.aTor then
    let lo : Word := if i = 0 then 0 else p.addr (i - 1) <<< 2
    let hi := p.addr i <<< 2
    some (lo, hi - lo)
  else if aType = Pmp.aNa4 then some (p.addr i <<< 2, 4)
  else if aType = Pmp.aNapot then some (decodeNapot (p.addr i))
  else none

/-- The verdict of entry `i`, `none` when the scan goes on. -/
def PmpCtx.verdict (p : PmpCtx) (skip : Nat) (pa : Word) (size : Nat)
    (isWrite isExecute : Bool) (i : Nat) : Option Bool :=
  if i < skip then none
  else
    match p.region i with
    | none => none
    | some (base, rsize) =>
      if addrInRange pa size base rsize then some (checkPerm (p.cfg i) isWrite isExecute)
      else none

/-- Entries below this index are not looked at. -/
def enclaveSkip (pmpsplit : BitVec 8) (mdid : Word) : Nat :=
  if mdid ≠ hostMdid ∧ 0#8 < pmpsplit then pmpsplit.toNat else 0

/-- The mode whose rights the check uses; `MPP` values other than U and S count as M. -/
def pmpEffMode (mode : Mode) (mstatus : Word) : Mode :=
  if mode = .M then
    if mprv mstatus then
      if mpp mstatus = 0 then .U else if mpp mstatus = 1 then .S else .M
    else .M
  else mode

def pmpCheck (p : PmpCtx) (pa : Word) (size : Nat) (isWrite isExecute : Bool) (mode : Mode)
    (mstatus : Word) (pmpsplit : BitVec 8) (mdid : Word) : Bool :=
  if pmpEffMode mode mstatus = .M then true
  else if p.num = 0 then false
  else if mdid ≠ hostMdid ∧ 0#8 < pmpsplit ∧ p.num ≤ pmpsplit then false
  else
    match (List.range p.num.toNat).findSome?
        (p.verdict (enclaveSkip pmpsplit mdid) pa size isWrite isExecute) with
    | some allowed => allowed
    | none => decide (pmpEffMode mode mstatus = .M)

/-- In machine mode an access skips the check: a fetch always, a data access
unless `MPRV` redirects it below M. -/
def pmpBypass (s : HartState) (isExecute : Bool) : Bool :=
  decide (s.mode = .M) && (isExecute || !mprv s.mstatus || decide (mpp s.mstatus = 3))

def pmpOk (s : HartState) (pa : Word) (size : Nat) (isWrite isExecute : Bool) (p : PmpCtx) :
    Bool :=
  if p.num = 0 then pmpBypass s isExecute
  else if pmpBypass s isExecute then true
  else pmpCheck p pa size isWrite isExecute s.mode s.mstatus s.pmpsplit s.mdid

end Pyremu
