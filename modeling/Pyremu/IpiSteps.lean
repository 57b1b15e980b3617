import Pyremu.Trap
import Pyremu.Lib.Run

/-!
# An IPI in atomic steps

A CLINT IPI stands in three places: the level bit of the register, the slot of
the edge and `mip.MSIP` of the target. Any number of harts write 1 to the MSIP
register of one hart while it synchronises, takes its trap and writes 0. What
the target executes in between, and what others do to its interrupt files and
the other bits of its `mip`, is arbitrary.
-/

namespace Pyremu

/-! ## The target's interrupt check -/

/-- The causes in order of priority. -/
def interruptCauses : List Nat := [11, 3, 7, 9, 1, 5]

/-- `check_pending_interrupts`: the cause and whether it is taken in M mode. -/
def checkPendingInterrupts (s : HartState) : Option (Nat × Bool) :=
  let pending := s.mip &&& s.mie
  if pending = 0 then none
  else if s.mode = .M ∧ s.mstatus &&& mstatusMie = 0 then none
  else
    let sModeGlobal := s.mode = .U ∨ s.mode = .S ∧ s.mstatus &&& mstatusSie ≠ 0
    interruptCauses.findSome? fun cause =>
      if pending.getLsbD cause = false then none
      else
        let delegated := s.mideleg.getLsbD cause
        if delegated = true ∧ ¬ sModeGlobal then none else some (cause, !delegated)

/-- The trap of `check_and_deliver_interrupt_concurrent`. -/
def deliverInterrupt (s : HartState) (cause : Nat) (mmode : Bool) : HartState :=
  let code := mcauseVal (BitVec.ofNat 64 cause) true
  if mmode then deliverTrapMmode s code 0 else deliverTrap s code 0

/-! ## The steps -/

/-- How far a write of 1 has got: the level bit, then the slot. -/
inductive SendStage where
  | idle | marked | done
  deriving DecidableEq, Repr

/-- Where the target stands in `sync_msip`, after a delivery, or inside its own write of 0. `aia` is
what `sync_msip` found on entry; in AIA mode it returns once it has merged an edge. -/
inductive IpiPc where
  | idle
  | swap (aia : Bool)
  | merge (aia : Bool) (cross : Word)
  | sample (aia : Bool)
  | look (raw : BitVec 8)
  | drop
  | raise
  | delivered
  | written
  deriving DecidableEq, Repr

/-- The target with its register and slot. Ghosts, one for each writer: `unmet`, its first step is
done and since then the target has neither taken a machine software interrupt nor begun to write 0;
`wiped`, a delivery has cleared the level bit since that first step; `seen`, its write was complete
when the call of `sync_msip` in progress began; `calls`, the finished calls that began so. -/
structure IpiState where
  hart : HartState
  level : BitVec 8
  slot : Word
  pc : IpiPc
  stage : Nat → SendStage
  unmet : Nat → Bool
  wiped : Nat → Bool
  seen : Nat → Bool
  calls : Nat → Nat

/-- One step. `run` is what the target executes between its calls, `peer` what others do to its
interrupt files and `mip`; both leave `mip.MSIP` alone. `next` is the next access of the call that
the target is in. -/
inductive IpiOp where
  | send (i : Nat)
  | run (post : HartState)
  | peer (eipM eipS : Nat → BitVec 32) (mip : Word)
  | sync
  | deliver
  | write
  | next

namespace IpiState

variable (s : IpiState)

/-- `in_aia_active`. -/
def aia : Bool := s.hart.imsicM.present && decide (s.hart.imsicM.eidelivery ≠ 0)

def msip : Bool := s.hart.mip.getLsbD 3

/-- The hart after other code has run, with the old `mip.MSIP`. -/
def keepMsip (post : HartState) : HartState :=
  { post with mip := (post.mip &&& ~~~bit 3) ||| (s.hart.mip &&& bit 3) }

/-- The step of writer `i` in `clint_write_msip_concurrent` with value 1. -/
def sendStep (i : Nat) : IpiState :=
  match s.stage i with
  | .idle =>
    { s with level := s.level ||| 1
             stage := Function.update s.stage i .marked
             unmet := Function.update s.unmet i true }
  | .marked => { s with slot := s.slot ||| bit 3, stage := Function.update s.stage i .done }
  | .done => s

/-- A trap has been taken or a write of 0 begun. -/
def meet : IpiState := { s with unmet := fun _ => false }

/-- The call of `sync_msip` is finished. -/
def ret : IpiState :=
  { s with pc := .idle
           seen := fun _ => false
           calls := fun i => if s.seen i then s.calls i + 1 else s.calls i }

/-- The next access of the target inside a call. -/
def nextStep : IpiState :=
  match s.pc with
  | .swap aia =>
    if s.slot ≠ 0 then { s with slot := 0, pc := .merge aia s.slot } else { s with slot := 0, pc := .sample aia }
  | .merge aia cross =>
    let merged := { s with hart := s.hart.setMip cross }
    if aia then merged.ret else { merged with pc := .sample aia }
  | .sample aia =>
    if aia then { s with pc := .look s.level }
    else if s.level &&& 1 ≠ 0 then { s with pc := .raise }
    else s.ret
  | .look raw =>
    let noImsicIpi := s.hart.imsicM.eip 0 &&& (1#32 <<< 3 ||| 1#32 <<< 1) = 0
    if raw &&& 1 = 0 ∧ noImsicIpi then { s with pc := .drop } else s.ret
  | .drop => ret { s with hart := s.hart.clearMip (bit 3) }
  | .raise => ret { s with hart := s.hart.setMip (bit 3) }
  | .delivered =>
    { s with level := s.level &&& 0xFE, pc := .idle, wiped := fun i => s.wiped i || s.unmet i }
  | .written => { s with hart := s.hart.clearMip (bit 3), pc := .idle }
  | .idle => s

/-- `check_and_deliver_interrupt_concurrent` up to the clearing of the level bit. -/
def deliverStep : IpiState :=
  match checkPendingInterrupts s.hart with
  | none => s
  | some (cause, mmode) =>
    let trapped := { s with hart := deliverInterrupt s.hart cause mmode }
    if cause = 3 then { trapped.meet with pc := .delivered } else trapped

def step : IpiOp → IpiState
  | .send i => s.sendStep i
  | .peer eipM eipS mip =>
    { s with hart := s.keepMsip { s.hart with
        mip := mip, imsicM := { s.hart.imsicM with eip := eipM }, imsicS := { s.hart.imsicS with eip := eipS } } }
  | .run post => if s.pc = .idle then { s with hart := s.keepMsip post } else s
  | .sync =>
    if s.pc = .idle then
      { s with pc := if s.slot ≠ 0 then .swap s.aia else .sample s.aia
               seen := fun i => decide (s.stage i = .done) }
    else s
  | .deliver => if s.pc = .idle then s.deliverStep else s
  | .write => if s.pc = .idle then { s.meet with level := s.level &&& 0xFE, pc := .written } else s
  | .next => s.nextStep

/-- No IPI is lost: two calls after the end of a write that has not been met, `mip.MSIP` is set. -/
def Kept : Prop := ∀ i, s.stage i = .done → s.unmet i = true → 2 ≤ s.calls i → s.msip = true

/-- In AIA mode no call of `sync_msip` that began after the end of a write drops `mip.MSIP` when a
delivery, entered before the first step of the write, has cleared the level bit after it. -/
def Spared : IpiOp → Prop
  | .next => s.pc = .drop → ∀ i, s.unmet i = true → s.seen i = true → s.wiped i = false
  | _ => True

/-- No writer has begun. -/
structure Fresh : Prop where
  pc : s.pc = .idle
  stage : ∀ i, s.stage i = .idle
  unmet : ∀ i, s.unmet i = false
  wiped : ∀ i, s.wiped i = false
  seen : ∀ i, s.seen i = false
  calls : ∀ i, s.calls i = 0

end IpiState

end Pyremu
