import Pyremu.Trap

/-!
# Timer and software interrupts

The shared CLINT registers and the deadlines that writes to the timer compare
registers set on a hart. Waking a parked host thread has no effect on the
guest state and is left out.
-/

namespace Pyremu

/-- Registers shared by all harts. `msipPending` is absent on the serial path. -/
structure Clint where
  base : Word
  mtime : Word
  mtimecmp : Nat → Word
  msip : Nat → BitVec 8
  timebaseHz : Word
  numHarts : Nat
  msipPending : Option (Nat → Word)

def nsPerInstr : Nat := 20
def nsPerSec : Nat := 1000000000

/-- `saturating_mul`, `saturating_add` and friends on `u64`. -/
def saturate (n : Nat) : Nat := min n (2 ^ 64 - 1)

/-- Instruction count at which the remaining ticks have passed. -/
def timerDeadlineOwn (ownTotalInstrs nowMtime timecmp timebaseHz : Word) : Word :=
  if timecmp = 0 ∨ timecmp ≤ nowMtime then 0
  else
    let scale := saturate (timebaseHz.toNat * nsPerInstr)
    if scale = 0 then 0
    else
      let ticks := (timecmp - nowMtime).toNat
      let offset := saturate (saturate (ticks * nsPerSec) + (scale - 1)) / scale
      ownTotalInstrs + BitVec.ofNat 64 offset

/-- The rule shared by `mtimecmp` and `stimecmp`: the new deadline and `mip` after
`val` is written, where `line` is the timer's bit. -/
def writeTimecmp (s : HartState) (line nowMtime val timebaseHz : Word) : Word × Word :=
  if val = 0 then (0, s.mip &&& ~~~line)
  else if val ≤ nowMtime then (0, s.mip ||| line)
  else (timerDeadlineOwn s.totalInstrs nowMtime val timebaseHz, s.mip &&& ~~~line)

def writeMtimecmp (s : HartState) (nowMtime val timebaseHz : Word) : HartState :=
  let r := writeTimecmp s (bit 7) nowMtime val timebaseHz
  { s with mtipDeadline := r.1, mip := r.2 }

def writeStimecmp (s : HartState) (nowMtime val timebaseHz : Word) : HartState :=
  let r := writeTimecmp s (bit 5) nowMtime val timebaseHz
  { s with stipDeadline := r.1, mip := r.2 }

/-! ## Byte lanes -/

def widthMask (size : Nat) : Word :=
  if 8 ≤ size then BitVec.allOnes 64 else (1#64 <<< (size * 8)) - 1

def extractLane (reg : Word) (lane size : Nat) : Word := (reg >>> (lane * 8)) &&& widthMask size

def mergeLane (reg : Word) (lane size : Nat) (value : Word) : Word :=
  let mask := widthMask size <<< (lane * 8)
  (reg &&& ~~~mask) ||| ((value <<< (lane * 8)) &&& mask)

/-! ## Pending interrupts as seen by the AIA registers -/

/-- `mtopi`: reading identity 3 acknowledges `mip.MSIP`. -/
def computeMtopi (s : HartState) : HartState × Word :=
  let raw := imsicTopeiPeek s.imsicM
  if raw ≠ 0 then (s, (11#64 <<< 16) ||| (raw &&& 0xFF))
  else if s.mip &&& s.mie &&& bit 3 ≠ 0 then (s.clearMip (bit 3), (3#64 <<< 16) ||| 1)
  else if s.mip &&& s.mie &&& bit 7 ≠ 0 then (s, (7#64 <<< 16) ||| 1)
  else (s, 0)

/-- `stopi`: reading identity 1 acknowledges `mip.SSIP`. -/
def computeStopi (s : HartState) (mtime : Word) : HartState × Word :=
  let raw := imsicTopeiPeek s.imsicS
  if raw ≠ 0 then (s, (9#64 <<< 16) ||| (raw &&& 0xFF))
  else if s.mip &&& s.mie &&& bit 1 ≠ 0 then (s.clearMip (bit 1), (1#64 <<< 16) ||| 1)
  else
    let stiPending :=
      if s.stimecmp = 0 then decide (s.mip &&& bit 5 ≠ 0)
      else if s.stipDeadline ≠ 0 then decide (s.stipDeadline ≤ s.totalInstrs)
      else decide (s.stimecmp ≤ mtime)
    if s.mie &&& bit 5 ≠ 0 ∧ stiPending then (s, (5#64 <<< 16) ||| 1) else (s, 0)

end Pyremu
